import FolkCore.Ext.Receipts
import FolkCore.Pool.Contents

/-!
# A caller reads what its own request produced

`dispatch_streamed` returns the id that it gives to the request, and the request keeps
it on its way through the channels. A thread that receives it makes both its stream and
its id current, so every bridge call that sends on the stream begins while the request
is the current one under that id. Finalising calls clear the state first and send then:
the id is no longer there when the last chunks are pushed.
-/

namespace FolkCore.Ext

open Bridge Function Lib Pool

variable {serde : SerdeJson} {cfg : WorkersConfig} {h h' : ChannelWorker}

/-- The id of a request is the one its caller was given, which names its stream. -/
def Labelled (req : DispatchRequest) : Prop := req.requestId = req.streamTx

/-- The tasks of a thread are labelled, and so is its current request. -/
structure Tagged (st : WorkerState) : Prop where
  tasks : ∀ r ∈ st.taskRx, r.requestId = r.streamTx
  current : ∀ tx, st.currentStreamTx = some tx → st.currentRequestId = some tx

/-- The chunk is sent by a bridge call that begins while `tx` is current under its id. -/
structure Attributed (serde : SerdeJson) (before : WorkerState) (tx : StreamTx)
    (c : ResponseChunk) : Prop where
  stream : before.currentStreamTx = some tx
  requestId : before.currentRequestId = some tx
  sends : ∃ call : Bridge.Step, .send tx c ∈ (call.outcome serde before).effects

section Calls

variable {st : WorkerState}

theorem Tagged.of_idle (hqueue : st.taskRx = []) (hidle : st.Idle) : Tagged st where
  tasks r hr := by
    rw [hqueue] at hr
    cases hr
  current tx htx := absurd (hidle.1.symm.trans htx) nofun

theorem Tagged.of_session {st' : WorkerState} (htagged : Tagged st)
    (hsession : st'.session = st.session) : Tagged st' := by
  simp only [WorkerState.session, Session.mk.injEq] at hsession
  obtain ⟨hqueue, hstream, _, hid, _⟩ := hsession
  exact ⟨by rw [hqueue]; exact htagged.tasks, by rw [hstream, hid]; exact htagged.current⟩

theorem Tagged.clear (htagged : Tagged st) : Tagged st.clear :=
  ⟨htagged.tasks, nofun⟩

theorem Tagged.accept (htagged : Tagged st) {r : TaskRequest} {rest : List TaskRequest}
    (hqueue : st.taskRx = r :: rest) : Tagged (st.accept r rest) where
  tasks r' hr' := htagged.tasks r' (hqueue ▸ List.mem_cons_of_mem r hr')
  current tx htx := by
    have heq : r.streamTx = tx := Option.some.inj htx
    show some r.requestId = some tx
    rw [htagged.tasks r (hqueue ▸ List.mem_cons_self), heq]

variable (serde) in
/-- A bridge call sends on the current stream, and keeps the tags. -/
theorem Tagged.outcome (htagged : Tagged st) (hpaired : Paired st) (call : Bridge.Step) :
    Tagged (call.outcome serde st).state ∧
      ∀ tx c, .send tx c ∈ (call.outcome serde st).effects → st.currentStreamTx = some tx := by
  rcases hpaired with hidle | ⟨tx, d, htx, hd⟩
  · obtain ⟨heffects, ⟨hstill, hqueue⟩ | ⟨r, rest, _, hqueue, hstate⟩⟩ :=
      idle_step serde hidle call
    · refine ⟨⟨?_, fun tx htx => absurd (hstill.1.symm.trans htx) nofun⟩, by simp [heffects]⟩
      rw [hqueue]
      exact htagged.tasks
    · rw [hstate]
      exact ⟨htagged.accept hqueue, by simp [heffects]⟩
  · have move := busy_move serde htx hd call
    generalize call.outcome serde st = o at move ⊢
    rw [htx]
    cases move with
    | quiet _ _ _ heffects hstate => exact ⟨htagged.of_session hstate, by simp [heffects]⟩
    | head _ heffects hstate =>
        rw [hstate]
        exact ⟨⟨htagged.tasks, htagged.current⟩, by simp [heffects, eq_comm]⟩
    | body _ heffects hstate =>
        rw [hstate]
        exact ⟨htagged, by simp [heffects, eq_comm]⟩
    | finish v _ heffects hstate =>
        rw [hstate]
        refine ⟨htagged.clear, fun tx' c hmem => ?_⟩
        have hwhere : .send tx' c ∈ v.toList.map (Effect.send tx) ∨
            .send tx' c = Effect.send tx .streamEnd := by
          rcases heffects with heq | heq
          · simpa [heq] using hmem
          · simpa [heq] using hmem
        rcases hwhere with hverdict | hend
        · obtain ⟨c', _, hc'⟩ := List.mem_map.mp hverdict
          cases hc'
          rfl
        · cases hend
          rfl
    | replace r rest _ hqueue heffects hstate =>
        rw [hstate]
        exact ⟨htagged.accept hqueue, by simp [heffects]⟩

end Calls

/-- Every send that thread `h` has still to make is of the call that began in `before`. -/
def Pending (serde : SerdeJson) (before : Option WorkerState) (h : ChannelWorker) : Prop :=
  ∀ tx c, .send tx c ∈ h.effects → ∃ st, before = some st ∧ Attributed serde st tx c

/-- A thread that pushes performs the first operation of its call. -/
theorem act_push {act : ChannelWorker.ThreadAct} {tx : StreamTx} {c : ResponseChunk}
    (hact : h.act serde act = some (h', some (.push tx c))) :
    act = .perform ∧ ∃ rest, h.effects = .send tx c :: rest := by
  generalize hop : some (StreamOp.push tx c) = op at hact
  cases act_move hact with
  | @perform e rest heffects =>
      cases e with
      | send tx' c' =>
          cases hop
          exact ⟨rfl, rest, heffects⟩
      | _ => cases hop
  | _ => cases hop

/-- The state in which the last bridge call began, after one more step. -/
def ChannelWorker.beginning (h : ChannelWorker) (before : Option WorkerState) :
    ChannelWorker.ThreadAct → Option WorkerState
  | .call _ => some h.state
  | _ => before

theorem Pending.of_noSend {before : Option WorkerState} (hnone : ∀ e ∈ h.effects, noSend e) :
    Pending serde before h :=
  fun tx c hmem => absurd rfl (hnone _ hmem tx c)

/-- A step of the thread keeps the tags; what it has to send is of its last call. -/
theorem act_tagged {before : Option WorkerState} (hpaired : Paired h.state)
    (htagged : Tagged h.state) (hpending : Pending serde before h)
    {act : ChannelWorker.ThreadAct} {op : Option StreamOp}
    (hact : h.act serde act = some (h', op)) :
    Tagged h'.state ∧ Pending serde (h.beginning before act) h' := by
  cases act_move hact with
  | boot _ => exact ⟨htagged, hpending⟩
  | ready _ _ =>
      refine ⟨htagged.of_session (doReady_session h.state), .of_noSend fun e he => ?_⟩
      rw [doReady_effects h.state e he]
      simp [noSend]
  | @call s _ _ _ =>
      obtain ⟨hstill, hsends⟩ := htagged.outcome serde hpaired s
      refine ⟨hstill, fun tx c hmem => ⟨h.state, rfl, ?_⟩⟩
      have hstream := hsends tx c hmem
      exact ⟨hstream, htagged.current tx hstream, s, hmem⟩
  | @perform e rest heffects =>
      rw [performEffect_state]
      refine ⟨htagged, fun tx c hmem => hpending tx c ?_⟩
      rw [performEffect_effects] at hmem
      rw [heffects]
      exact List.mem_cons_of_mem e hmem
  | exit _ _ => exact ⟨.of_idle rfl ⟨rfl, rfl⟩, .of_noSend (exit_noSend h.state)⟩

namespace Recorded

variable {o o' : Recorded serde} {a : Action (extensionRuntime serde)}
  {q : State (extensionRuntime serde)}

/-- The invariant: labels everywhere, sends attributed, and every chunk in a stream
among those sent. -/
structure Faithful (cfg : WorkersConfig) (o : Recorded serde) : Prop where
  ticketed : Ticketed cfg o.pool
  staffed : Staffed Neat o.pool
  labelled : Everywhere Labelled o.pool
  tagged : ∀ w (h : ChannelWorker), o.pool.workers w = some h →
    Tagged h.state ∧ Pending serde (o.began w) h
  sent : ∀ s ∈ o.sent, Attributed serde s.before s.tx s.chunk
  pushed : ∀ w tx c, .pushed w tx c ∈ o.pool.history →
    ∃ s ∈ o.sent, s.worker = w ∧ s.tx = tx ∧ s.chunk = c
  buffered : ∀ k, ∀ c ∈ (o.pool.streams k).buffer, ∃ w, .pushed w k c ∈ o.pool.history

theorem Faithful.start (serde : SerdeJson) (cfg : WorkersConfig) :
    (Recorded.start serde cfg).Faithful cfg where
  ticketed := Ticketed.init (extensionRuntime serde) cfg
  staffed := Staffed.init cfg
  labelled := Everywhere.init Labelled (extensionRuntime serde) cfg
  tagged w h hw := by cases hw
  sent s hs := by cases hs
  pushed w tx c h := by cases h
  buffered k c hc := by cases hc

section Record

variable {w : Nat} {worker : ChannelWorker} {act : ChannelWorker.ThreadAct}

theorem record_began (o : Recorded serde) :
    (o.record q w worker act).began =
      update o.began w (worker.beginning (o.began w) act) := by
  cases act with
  | call s => rfl
  | perform =>
      simp only [record, ChannelWorker.beginning, update_eq_self]
      split
      · rfl
      · rfl
  | _ => simp [record, ChannelWorker.beginning]

variable (q act) in
/-- A thread that sends has its chunk recorded with the call that it belongs to. -/
theorem record_sent (hpending : Pending serde (o.began w) worker) :
    (o.record q w worker act).sent = o.sent ∧
        (act = .perform → ∀ tx c rest, worker.effects ≠ .send tx c :: rest) ∨
      ∃ tx c rest before, act = .perform ∧ worker.effects = .send tx c :: rest ∧
        Attributed serde before tx c ∧
        (o.record q w worker act).sent = o.sent ++ [⟨w, tx, c, before⟩] := by
  cases act with
  | perform =>
      by_cases hsend : ∃ tx c rest, worker.effects = .send tx c :: rest
      · obtain ⟨tx, c, rest, heffects⟩ := hsend
        obtain ⟨before, hbefore, hattributed⟩ :=
          hpending tx c (by rw [heffects]; exact List.mem_cons_self)
        refine .inr ⟨tx, c, rest, before, rfl, heffects, hattributed, ?_⟩
        simp [record, heffects, hbefore]
      · have hnot : ∀ tx c rest, worker.effects ≠ .send tx c :: rest :=
          fun tx c rest heq => hsend ⟨tx, c, rest, heq⟩
        refine .inl ⟨?_, fun _ => hnot⟩
        simp only [record]
        split
        · next tx c rest before heffects hbefore => exact absurd heffects (hnot tx c rest)
        · rfl
  | _ =>
      refine .inl ⟨rfl, ?_⟩
      intro heq
      cases heq

end Record

/-- A step of the pool outside the threads keeps the tags. -/
theorem Faithful.tagged_aside (h : o.Faithful cfg) (hnot : ∀ w act, a ≠ .work w act)
    (passage : Passage o.pool a q) {w : Nat} {worker : ChannelWorker}
    (hworker : q.workers w = some worker) :
    Tagged worker.state ∧ Pending serde (o.began w) worker := by
  cases passage with
  | aside _ hthreads _ =>
      rcases hthreads w worker hworker with ⟨old, hold, hstate, heffects⟩ | ⟨hqueue, hidle, hnone⟩
      · obtain ⟨htagged, hpending⟩ := h.tagged w old hold
        refine ⟨hstate ▸ htagged, fun tx c hmem => hpending tx c ?_⟩
        rwa [heffects] at hmem
      · exact ⟨.of_idle hqueue hidle, .of_noSend (by simp [hnone])⟩
  | @executed i w' since req old new kept _ hphase _ hold hexecution hworkers _ =>
      rw [hworkers] at hworker
      by_cases hw : w = w'
      · subst hw
        rw [update_self] at hworker
        cases hworker
        obtain ⟨htagged, hpending⟩ := h.tagged w old hold
        cases hexecution with
        | failed => exact ⟨htagged, hpending⟩
        | queued =>
            refine ⟨⟨fun r hr => ?_, htagged.current⟩, hpending⟩
            rcases List.mem_append.mp hr with hqueued | hnew
            · exact htagged.tasks r hqueued
            · rw [List.mem_singleton.mp hnew]
              exact h.labelled.slots i req (by simp [Slot.requests, Phase.requests, hphase])
      · rw [update_of_ne hw] at hworker
        exact h.tagged w worker hworker
  | worked ha => exact absurd ha (hnot _ _)

/-- So does a step of a thread, for the thread and for the others. -/
theorem Faithful.tagged_worked (h : o.Faithful cfg) {w : Nat} {act : ChannelWorker.ThreadAct}
    {worker worker' : ChannelWorker} {op : Option StreamOp} (hw : o.pool.workers w = some worker)
    (hact : worker.act serde act = some (worker', op))
    (hworkers : q.workers = update o.pool.workers w (some worker')) {w₁ : Nat}
    {other : ChannelWorker} (hother : q.workers w₁ = some other) :
    Tagged other.state ∧ Pending serde ((o.record q w worker act).began w₁) other := by
  rw [record_began]
  rw [hworkers] at hother
  by_cases hww : w₁ = w
  · subst hww
    rw [update_self] at hother
    cases hother
    obtain ⟨htagged, hpending⟩ := h.tagged w₁ worker hw
    rw [update_self]
    exact act_tagged (h.staffed.good w₁ worker hw).paired htagged hpending hact
  · rw [update_of_ne hww] at hother ⊢
    exact h.tagged w₁ other hother

/-- A step of thread `w` adds at most one chunk to the record, with its attribution, and
none is missing. -/
structure Adds (o o' : Recorded serde) (w : Nat) (worker : ChannelWorker)
    (act : ChannelWorker.ThreadAct) : Prop where
  keeps : ∀ s ∈ o.sent, s ∈ o'.sent
  attributed : ∀ s ∈ o'.sent, s ∈ o.sent ∨ Attributed serde s.before s.tx s.chunk
  complete : act = .perform → ∀ tx c rest, worker.effects = .send tx c :: rest →
    ∃ s ∈ o'.sent, s.worker = w ∧ s.tx = tx ∧ s.chunk = c

theorem record_adds {w : Nat} {worker : ChannelWorker} {act : ChannelWorker.ThreadAct}
    (hpending : Pending serde (o.began w) worker) :
    Adds o (o.record q w worker act) w worker act := by
  rcases record_sent q act hpending with ⟨hsame, hnone⟩ |
    ⟨tx, c, rest, before, rfl, heffects, hattributed, hmore⟩
  · refine ⟨fun s hs => hsame ▸ hs, fun s hs => .inl (hsame ▸ hs), fun hact tx c rest heq => ?_⟩
    exact absurd heq (hnone hact tx c rest)
  · have hmem {s : Sent} : s ∈ (o.record q w worker .perform).sent ↔
        s ∈ o.sent ∨ s = ⟨w, tx, c, before⟩ := by
      rw [hmore, List.mem_append, List.mem_singleton]
    refine ⟨fun s hs => hmem.mpr (.inl hs), fun s hs => ?_, fun _ tx' c' rest' heq => ?_⟩
    · rcases hmem.mp hs with hold | rfl
      · exact .inl hold
      · exact .inr hattributed
    · rw [heffects] at heq
      cases heq
      exact ⟨⟨w, tx, c, before⟩, hmem.mpr (.inr rfl), rfl, rfl, rfl⟩

/-- What was pushed is in the record, before and after a step of a thread. -/
theorem Faithful.pushed_worked (h : o.Faithful cfg) {w : Nat} {act : ChannelWorker.ThreadAct}
    {worker : ChannelWorker} (hw : o.pool.workers w = some worker)
    (hadds : Adds o o' w worker act) (move : Move serde cfg o.pool (.work w act) o'.pool)
    {w₁ : Nat} {tx : StreamTx} {c : ResponseChunk}
    (hmem : .pushed w₁ tx c ∈ o'.pool.history) :
    ∃ s ∈ o'.sent, s.worker = w₁ ∧ s.tx = tx ∧ s.chunk = c := by
  rcases move.pushes hmem with hold | ⟨act', old, new, ha, hold, hact⟩
  · obtain ⟨s, hs, hwhich⟩ := h.pushed w₁ tx c hold
    exact ⟨s, hadds.keeps s hs, hwhich⟩
  · cases ha
    obtain rfl : worker = old := Option.some.inj (hw.symm.trans hold)
    have hpush : worker.act serde act = some (new, some (.push tx c)) := hact
    obtain ⟨hperform, rest, heffects⟩ := act_push hpush
    exact hadds.complete hperform tx c rest heffects

/-- Every recorded step keeps the invariant. -/
theorem Faithful.step (h : o.Faithful cfg) (hstep : Recorded.step serde cfg o a = some o') :
    o'.Faithful cfg := by
  obtain ⟨move, hrecord⟩ := step_cases hstep
  have hticketed := h.ticketed.step move
  have hstaffed := Neat.step h.staffed move
  have hlabelled := h.labelled.step (fun _ _ _ _ _ htx hid => hid.trans htx.symm) move
  have hbuffered := fun k c => buffered_step h.ticketed move h.buffered k (c := c)
  have passage := step_passage h.ticketed move
  rcases hrecord with ⟨hnot, heq⟩ | ⟨w, act, worker, rfl, hw, heq⟩
  · rw [heq]
    refine ⟨hticketed, hstaffed, hlabelled, fun w worker => h.tagged_aside hnot passage,
      h.sent, fun w tx c hmem => ?_, hbuffered⟩
    rcases move.pushes hmem with hold | ⟨act, _, _, ha, _⟩
    · exact h.pushed w tx c hold
    · exact absurd ha (hnot w act)
  · have hadds : Adds o o' w worker act := by
      rw [heq]
      exact record_adds (h.tagged w worker hw).2
    refine ⟨hticketed, hstaffed, hlabelled, fun w₁ other hother => ?_, fun s hs => ?_,
      fun w₁ tx c => h.pushed_worked hw hadds move, hbuffered⟩
    · cases passage with
      | aside hnot => exact absurd rfl (hnot w act)
      | executed ha => cases ha
      | @worked w' act' old new op ha hold hact hworkers _ =>
          cases ha
          obtain rfl : worker = old := Option.some.inj (hw.symm.trans hold)
          have htagged := h.tagged_worked hw hact hworkers hother
          rwa [← heq] at htagged
    · exact (hadds.attributed s hs).elim (h.sent s) id

end Recorded

/-- In every run, a request is received by a thread at most once, and every chunk in the
stream of a request was sent by a bridge call that began while this request was the
current one of its thread, under the id that its caller was given. -/
theorem request_received_once_and_answered (serde : SerdeJson) (cfg : WorkersConfig)
    (o : Recorded serde)
    (h : Reachable (Recorded.step serde cfg) (Recorded.start serde cfg) o) (k : StreamTx) :
    o.receivedOn k ≤ 1 ∧
    ∀ c ∈ (o.pool.streams k).buffer, ∃ s ∈ o.sent, s.tx = k ∧ s.chunk = c ∧
      s.before.currentStreamTx = some k ∧ s.before.currentRequestId = some k ∧
      ∃ call : Bridge.Step, .send k c ∈ (call.outcome serde s.before).effects := by
  have honce : o.Once cfg :=
    h.invariant (Recorded.Once cfg) (.start serde cfg) fun _ _ _ ho _ hstep => ho.step hstep
  have hfaithful : o.Faithful cfg :=
    h.invariant (Recorded.Faithful cfg) (.start serde cfg) fun _ _ _ ho _ hstep => ho.step hstep
  refine ⟨honce.once k, fun c hc => ?_⟩
  obtain ⟨w, hpushed⟩ := hfaithful.buffered k c hc
  obtain ⟨s, hs, _, rfl, rfl⟩ := hfaithful.pushed w k c hpushed
  obtain ⟨hstream, hid, hsends⟩ := hfaithful.sent s hs
  exact ⟨s, hs, rfl, rfl, hstream, hid, hsends⟩

/-- The handler of a received request answers with `do_send`. -/
def answeredRun (serde : SerdeJson) : List (Action (extensionRuntime serde)) :=
  receivedRun serde ++ [.work 0 (.call (.call (.send [])))]

/-- The verdict of the first request is in its stream, with one receipt. -/
theorem first_request_answered :
    ∃ o, Reachable (Recorded.step .ofNull .single) (Recorded.start .ofNull .single) o ∧
      o.receivedOn 0 = 1 ∧ ∃ c ∈ (o.pool.streams 0).buffer, ∃ s ∈ o.sent,
        s.chunk = c ∧ s.before.currentRequestId = some 0 := by
  have hrun : (runs (Recorded.step .ofNull .single) (Recorded.start .ofNull .single)
      (answeredRun .ofNull ++ [.work 0 .perform])).any
        (fun o => decide (o.receivedOn 0 = 1) && !(o.pool.streams 0).buffer.isEmpty) = true := by
    decide +kernel
  obtain ⟨o, ho, htest⟩ := exists_reachable hrun
  rw [Bool.and_eq_true, decide_eq_true_eq] at htest
  obtain ⟨hone, hnonempty⟩ := htest
  cases hbuffer : (o.pool.streams 0).buffer with
  | nil => simp [hbuffer] at hnonempty
  | cons c rest =>
      have hc : c ∈ (o.pool.streams 0).buffer := hbuffer ▸ List.mem_cons_self
      obtain ⟨s, hs, _, hchunk, _, hid, _⟩ :=
        (request_received_once_and_answered .ofNull .single o ho 0).2 c hc
      exact ⟨o, ho, hone, c, hc, s, hs, hchunk, hid⟩

/-- The thread has no current request. -/
def isIdle (worker : Option ChannelWorker) : Bool :=
  worker.any fun h => h.state.currentStreamTx.isNone && h.state.currentRequestId.isNone

/-- The next operation of an idle thread puts one chunk into the empty stream of the
first request. -/
def pushesCleared (s : State (extensionRuntime .ofNull)) : Bool :=
  isIdle (s.workers 0) && (s.streams 0).buffer.isEmpty &&
    (step .ofNull .single s (.work 0 .perform)).any fun t =>
      decide ((t.streams 0).buffer.length = 1)

/-- The verdict of `do_send` is pushed when its thread has no current request. -/
theorem verdict_pushed_after_clear :
    ∃ (s t : State (extensionRuntime .ofNull)) (h : ChannelWorker) (c : ResponseChunk),
      Reachable (step .ofNull .single) (init (extensionRuntime .ofNull) .single) s ∧
      s.workers 0 = some h ∧ step .ofNull .single s (.work 0 .perform) = some t ∧
      (s.streams 0).buffer = [] ∧ (t.streams 0).buffer = [c] ∧
      h.state.currentStreamTx = none ∧ h.state.currentRequestId = none := by
  have hrun : (runs (step .ofNull .single) (init (extensionRuntime .ofNull) .single)
      (answeredRun .ofNull)).any pushesCleared = true := by decide +kernel
  obtain ⟨s, hs, htest⟩ := exists_reachable hrun
  rw [pushesCleared, Bool.and_eq_true, Bool.and_eq_true, List.isEmpty_iff,
    Option.any_eq_true] at htest
  obtain ⟨⟨hidle, hempty⟩, t, hstep, hlength⟩ := htest
  rw [decide_eq_true_eq] at hlength
  obtain ⟨h, hw, hnone⟩ := (Option.any_eq_true _ _).mp hidle
  rw [Bool.and_eq_true, Option.isNone_iff_eq_none, Option.isNone_iff_eq_none] at hnone
  obtain ⟨hstream, hid⟩ := hnone
  obtain ⟨c, hbuffer⟩ := List.length_eq_one_iff.mp hlength
  exact ⟨s, t, h, c, hs, hw, hstep, hempty, hbuffer, hstream, hid⟩

end FolkCore.Ext
