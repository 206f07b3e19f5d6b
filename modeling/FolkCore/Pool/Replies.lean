import FolkCore.Pool.Requests

/-!
# When a call succeeds

`collect_stream` leaves its loop at an error, at an end, and also when the channel
is closed; in the last case it returns what it has as a success. The results here
say what that costs: as long as no step drops the sender that a call waits for before
the worker has pushed an end or an error, a call succeeds only after an end.
-/

namespace FolkCore.Pool

open Lib

variable {R : Runtime} {serde : SerdeJson} {cfg : WorkersConfig} {s t : State R} {k : Nat}

/-- The chunks at which `collect_stream` stops. -/
def isFinal (c : ResponseChunk) : Bool := c.isError || c.isEnd

def Event.pushesFinal (tx : StreamTx) : Event → Bool
  | .pushed _ tx' c => tx' == tx && isFinal c
  | _ => false

/-- The caller collects the response of its request and has not come to a result. -/
def CallStage.awaits : CallStage → Bool
  | .sending .streamed _ => false
  | .sending _ _ => true
  | .collecting _ _ => true
  | _ => false

/-- Every sender that the step drops under a collecting call has seen an error or an end. -/
def finalBeforeDrop (cfg : WorkersConfig) (s : State R) (a : Action R) : Bool :=
  (s.drops cfg a).all fun tx =>
    !(s.calls tx).awaits || s.history.any (Event.pushesFinal tx)

theorem take_inl {acc acc' : Collected} {c : ResponseChunk} (h : acc.take c = .inl acc') :
    isFinal c = false := by
  cases c with
  | error e => cases h
  | streamEnd => cases h
  | _ => rfl

theorem take_ok {acc : Collected} {c : ResponseChunk} {v : Value}
    (h : acc.take c = .inr (.ok v)) : c = .streamEnd := by
  cases c with
  | streamEnd => rfl
  | _ => cases h

theorem reply_ok {kind : CallKind} {id : RequestId} {r : Except WorkerError Value}
    {reply : CallReply} (h : kind.reply serde id r = .ok reply) : ∃ v, r = .ok v := by
  cases r with
  | error e => cases h
  | ok v => exact ⟨v, rfl⟩

theorem CallStage.awaits_of_listen {kind : CallKind} {req : DispatchRequest}
    (h : kind.listen.awaits = true) : (CallStage.sending kind req).awaits = true := by
  cases kind with
  | streamed => cases h
  | _ => rfl

/-- The invariant of a request whose sender is never dropped early. -/
structure Answerable (k : Nat) (r : Request) : Prop where
  owned : ∀ w, r.stream.owner = some w → ∃ i, .executed i w k ∈ r.story
  pushed : ∀ w c, .pushed w k c ∈ r.story → r.stream.owner = some w
  buffered : ∀ c ∈ r.stream.buffer, ∃ w, .pushed w k c ∈ r.story
  kept : r.call.awaits = true → ∀ w c, .pushed w k c ∈ r.story → isFinal c = true →
    c ∈ r.stream.buffer
  closed : r.call.awaits = true → r.stream.senderOpen = false →
    ∃ c ∈ r.stream.buffer, isFinal c = true
  returned : ∀ reply, r.call = .returned (.ok reply) → ∃ w, .pushed w k .streamEnd ∈ r.story

theorem Answerable.unborn : Answerable k ⟨.unborn, .unopened, []⟩ where
  owned w h := by cases h
  pushed w c h := by cases h
  buffered c h := by cases h
  kept h := by cases h
  closed h := by cases h
  returned reply h := by cases h

/-- The request alone is what matters: its stream keeps its owner and its pushes. -/
theorem Answerable.silent {r r' : Request} (h : Answerable k r)
    (howner : r'.stream.owner = r.stream.owner)
    (hbuffer : ∀ c ∈ r'.stream.buffer, c ∈ r.stream.buffer)
    {events : List Event} (hstory : r'.story = r.story ++ events)
    (hevents : ∀ e ∈ events, ∀ w c, e ≠ .pushed w k c)
    (hkept : r'.call.awaits = true → r.call.awaits = true ∧
      ∀ c ∈ r.stream.buffer, isFinal c = true → c ∈ r'.stream.buffer)
    (hclosed : r'.call.awaits = true → r'.stream.senderOpen = false →
      r.stream.senderOpen = false ∨ ∃ w c, .pushed w k c ∈ r.story ∧ isFinal c = true)
    (hreturned : ∀ reply, r'.call = .returned (.ok reply) →
      ∃ w, .pushed w k .streamEnd ∈ r.story) : Answerable k r' := by
  have hpushed {w : Nat} {c : ResponseChunk} :
      .pushed w k c ∈ r'.story ↔ .pushed w k c ∈ r.story := by
    rw [hstory, List.mem_append]
    constructor
    · rintro (hold | hnew)
      · exact hold
      · exact absurd rfl (hevents _ hnew w c)
    · exact .inl
  constructor
  · intro w hw
    obtain ⟨i, hi⟩ := h.owned w (howner ▸ hw)
    exact ⟨i, hstory ▸ List.mem_append_left _ hi⟩
  · intro w c hc
    exact howner.trans (h.pushed w c (hpushed.mp hc))
  · intro c hc
    obtain ⟨w, hw⟩ := h.buffered c (hbuffer c hc)
    exact ⟨w, hpushed.mpr hw⟩
  · intro hawait w c hc hfinal
    obtain ⟨hawait', hkeep⟩ := hkept hawait
    exact hkeep c (h.kept hawait' w c (hpushed.mp hc) hfinal) hfinal
  · intro hawait hshut
    obtain ⟨hawait', hkeep⟩ := hkept hawait
    have hfound : ∃ c ∈ r.stream.buffer, isFinal c = true := by
      rcases hclosed hawait hshut with hshut' | ⟨w, c, hc, hfinal⟩
      · exact h.closed hawait' hshut'
      · exact ⟨c, h.kept hawait' w c hc hfinal, hfinal⟩
    obtain ⟨c, hc, hfinal⟩ := hfound
    exact ⟨c, hkeep c hc hfinal, hfinal⟩
  · intro reply hreply
    obtain ⟨w, hw⟩ := hreturned reply hreply
    exact ⟨w, hpushed.mpr hw⟩

/-- The caller stops waiting without a success. -/
theorem Answerable.ends {r r' : Request} (h : Answerable k r)
    (howner : r'.stream.owner = r.stream.owner)
    (hbuffer : ∀ c ∈ r'.stream.buffer, c ∈ r.stream.buffer)
    {events : List Event} (hstory : r'.story = r.story ++ events)
    (hevents : ∀ e ∈ events, ∀ w c, e ≠ .pushed w k c) (hawaits : r'.call.awaits = false)
    (hreturned : ∀ reply, r'.call ≠ .returned (.ok reply)) : Answerable k r' := by
  refine h.silent howner hbuffer hstory hevents (fun hawait => ?_) (fun hawait => ?_) ?_
  · rw [hawaits] at hawait
    cases hawait
  · rw [hawaits] at hawait
    cases hawait
  · exact fun reply hreply => absurd hreply (hreturned reply)

/-- The sender is dropped. -/
theorem Answerable.dropped {r : Request} (h : Answerable k r)
    (hdropped : r.call.awaits = true → ∃ w c, .pushed w k c ∈ r.story ∧ isFinal c = true) :
    Answerable k ⟨r.call, { r.stream with senderOpen := false }, r.story⟩ :=
  h.silent rfl (fun _ hc => hc) (List.append_nil _).symm (by simp)
    (fun hawait => ⟨hawait, fun _ hc _ => hc⟩) (fun hawait _ => .inr (hdropped hawait))
    h.returned

section Collecting

variable {r : Request} {kind : CallKind} {acc : Collected} {c : ResponseChunk}
  {rest : List ResponseChunk}

/-- A chunk that the loop takes in is not the final one. -/
theorem Answerable.collected (h : Answerable k r) {acc' : Collected}
    (hcall : r.call = .collecting kind acc) (hbuffer : r.stream.buffer = c :: rest)
    (htake : acc.take c = .inl acc') :
    Answerable k ⟨.collecting kind acc', { r.stream with buffer := rest }, r.story⟩ := by
  refine h.silent rfl ?_ (List.append_nil _).symm (by simp) ?_ (fun _ hshut => .inl hshut)
    (by simp)
  · intro c' hc'
    rw [hbuffer]
    exact List.mem_cons_of_mem c hc'
  · intro _
    refine ⟨by rw [hcall]; rfl, ?_⟩
    intro c' hc' hfinal
    rw [hbuffer] at hc'
    rcases List.mem_cons.mp hc' with rfl | hrest
    · rw [take_inl htake] at hfinal
      cases hfinal
    · exact hrest

/-- The loop ends at a chunk: in a success only at an end, which a worker has pushed. -/
theorem Answerable.judged (h : Answerable k r) {result : Except WorkerError Value}
    (hbuffer : r.stream.buffer = c :: rest) (htake : acc.take c = .inr result) :
    Answerable k ⟨.returned (kind.reply serde k result),
      { r.stream with receiverOpen := false, buffer := [] },
      r.story ++ [.answered k (kind.reply serde k result).isOk]⟩ := by
  refine h.silent rfl (by simp) rfl (by simp) nofun nofun ?_
  intro reply hreply
  obtain ⟨v, rfl⟩ := reply_ok (CallStage.returned.inj hreply)
  obtain rfl := take_ok htake
  exact h.buffered .streamEnd (by simp [hbuffer])

/-- An awaiting caller never finds the channel closed: a final chunk is still in the buffer. -/
theorem Answerable.not_exhausted (h : Answerable k r) (hcall : r.call = .collecting kind acc)
    (hclosed : r.stream.senderOpen = false) : r.stream.buffer ≠ [] := by
  obtain ⟨c, hc, _⟩ := h.closed (by rw [hcall]; rfl) hclosed
  exact List.ne_nil_of_mem hc

theorem Answerable.streamed (h : Answerable k r) (hcall : r.call = .streaming)
    (hbuffer : r.stream.buffer = c :: rest) :
    Answerable k ⟨r.call, { r.stream with buffer := rest }, r.story⟩ := by
  refine h.ends rfl ?_ (List.append_nil _).symm (by simp) (by rw [hcall]; rfl) (by simp [hcall])
  intro c' hc'
  rw [hbuffer]
  exact List.mem_cons_of_mem c hc'

end Collecting

/-- Before its execution a request has no pushes. -/
theorem Answerable.executed {r : Request} (h : Answerable k r) (i w : Nat) (kept : Bool)
    (howner : r.stream.owner = none)
    (hkept : r.call.awaits = true → kept = false →
      ∃ w c, .pushed w k c ∈ r.story ∧ isFinal c = true) :
    Answerable k ⟨r.call, { r.stream with owner := some w, senderOpen := kept },
      r.story ++ [.executed i w k]⟩ := by
  have hnone (w : Nat) (c : ResponseChunk) : .pushed w k c ∉ r.story := by
    intro hc
    rw [h.pushed w c hc] at howner
    cases howner
  have hstory (w' : Nat) (c : ResponseChunk) :
      .pushed w' k c ∈ r.story ++ [.executed i w k] ↔ .pushed w' k c ∈ r.story := by
    simp
  constructor
  · intro w' hw'
    cases hw'
    exact ⟨i, by simp⟩
  · intro w' c hc
    exact absurd ((hstory w' c).mp hc) (hnone w' c)
  · intro c hc
    obtain ⟨w', hw'⟩ := h.buffered c hc
    exact absurd hw' (hnone w' c)
  · intro _ w' c hc _
    exact absurd ((hstory w' c).mp hc) (hnone w' c)
  · intro hawait hshut
    obtain ⟨w', c, hc, _⟩ := hkept hawait hshut
    exact absurd hc (hnone w' c)
  · intro reply hreply
    obtain ⟨w', hw'⟩ := h.returned reply hreply
    exact absurd hw' (hnone w' _)

/-- What a worker pushes is in the buffer. -/
theorem Answerable.push {r : Request} (h : Answerable k r) (w : Nat) (c : ResponseChunk)
    (howner : r.stream.owner = some w) (hsender : r.stream.senderOpen = true) :
    Answerable k ⟨r.call, { r.stream with buffer := r.stream.buffer ++ [c] },
      r.story ++ [.pushed w k c]⟩ := by
  constructor
  · intro w' hw'
    obtain ⟨i, hi⟩ := h.owned w' hw'
    exact ⟨i, List.mem_append_left _ hi⟩
  · intro w' c' hc'
    rcases List.mem_append.mp hc' with hold | hnew
    · exact h.pushed w' c' hold
    · cases List.mem_singleton.mp hnew
      exact howner
  · intro c' hc'
    rcases List.mem_append.mp hc' with hold | hnew
    · obtain ⟨w', hw'⟩ := h.buffered c' hold
      exact ⟨w', List.mem_append_left _ hw'⟩
    · rw [List.mem_singleton.mp hnew]
      exact ⟨w, List.mem_append_right _ (List.mem_singleton.mpr rfl)⟩
  · intro hawait w' c' hc' hfinal
    rcases List.mem_append.mp hc' with hold | hnew
    · exact List.mem_append_left _ (h.kept hawait w' c' hold hfinal)
    · cases List.mem_singleton.mp hnew
      exact List.mem_append_right _ (List.mem_singleton.mpr rfl)
  · intro _ hshut
    rw [hsender] at hshut
    cases hshut
  · intro reply hreply
    obtain ⟨w', hw'⟩ := h.returned reply hreply
    exact ⟨w', List.mem_append_left _ hw'⟩

theorem Answerable.step {r r' : Request} {works drops expires : Prop} (h : Answerable k r)
    (hdrops : drops → r.call.awaits = true →
      ∃ w c, .pushed w k c ∈ r.story ∧ isFinal c = true)
    (move : Request.Move serde k works drops expires r r') : Answerable k r' := by
  cases move with
  | same => exact h
  | passed e he htime =>
      refine h.silent rfl (fun _ hc => hc) rfl ?_ (fun hawait => ⟨hawait, fun _ hc _ => hc⟩)
        (fun _ hshut => .inl hshut) h.returned
      intro e' he' w c heq
      rw [List.mem_singleton] at he'
      rw [← he', heq] at he
      cases he
  | refused e hcall => exact h.ends rfl (fun _ hc => hc) rfl (by simp) rfl (by simp)
  | opened kind req hcall hstory => constructor <;> simp [hstory]
  | @submitted kind req hcall =>
      refine h.silent rfl (fun _ hc => hc) (List.append_nil _).symm (by simp)
        (fun hawait => ⟨by rw [hcall]; exact CallStage.awaits_of_listen hawait,
          fun _ hc _ => hc⟩) (fun _ hshut => .inl hshut) ?_
      intro reply hreply
      cases kind <;> cases hreply
  | poolGone hcall => exact h.ends rfl (by simp) rfl (by simp) rfl (by simp)
  | withdrawn hcall | cancelled hcall =>
      exact h.ends rfl (by simp) (List.append_nil _).symm (by simp) rfl (by simp)
  | collected hcall hbuffer htake => exact h.collected hcall hbuffer htake
  | judged hcall hbuffer htake => exact h.judged hbuffer htake
  | exhausted hcall hbuffer hclosed => exact absurd hbuffer (h.not_exhausted hcall hclosed)
  | streamed hcall hbuffer => exact h.streamed hcall hbuffer
  | executed i w kept howner hkept =>
      exact h.executed i w kept howner fun hawait hshut => hdrops (hkept hshut) hawait
  | discarded howner hdropped => exact h.dropped (hdrops hdropped)
  | pushed w c howner hsender hreceiver hworks => exact h.push w c howner hsender
  | closed w howner hsender hdropped hworks => exact h.dropped (hdrops hdropped)

theorem answerable_of_reachable
    (h : ReachableVia (step serde cfg) (fun s a => finalBeforeDrop cfg s a = true)
      (init R cfg) s) (k : Nat) : Answerable k (s.request k) := by
  have hboth : Ticketed cfg s ∧ Answerable k (s.request k) := by
    apply h.invariant (fun s => Ticketed cfg s ∧ Answerable k (s.request k))
    · exact ⟨Ticketed.init R cfg, Answerable.unborn⟩
    · rintro s a t ⟨hticketed, hanswerable⟩ hallowed hstep
      have move := step_move hstep
      refine ⟨hticketed.step move, hanswerable.step ?_ (step_request hticketed move k)⟩
      intro hdrops hawait
      have hcall : (s.calls k).awaits = true := hawait
      have hallowed := List.all_eq_true.mp hallowed k hdrops
      rw [hcall, Bool.not_true, Bool.false_or] at hallowed
      obtain ⟨e, he, hfinal⟩ := List.any_eq_true.mp hallowed
      cases e with
      | pushed w tx c =>
          simp only [Event.pushesFinal, Bool.and_eq_true, beq_iff_eq] at hfinal
          obtain ⟨rfl, hc⟩ := hfinal
          exact ⟨w, c, (State.mem_story rfl).mpr he, hc⟩
      | _ => cases hfinal
  exact hboth.2

/-- The receives of a caller whose stream is complete, or holds an error or an end, are
the loop of `collect_stream`. -/
theorem receives_drain {kind : CallKind} {acc : Collected} {buffer : List ResponseChunk}
    (hcall : s.calls k = .collecting kind acc) (hbuffer : (s.streams k).buffer = buffer)
    (hcomplete : (s.streams k).senderOpen = false ∨ ∃ c ∈ buffer, isFinal c = true) :
    ∃ n t, runs (step serde cfg) s (List.replicate n (.receive k)) = some t ∧
      t.calls k = .returned (kind.reply serde k (acc.drain buffer)) := by
  induction buffer generalizing s acc with
  | nil =>
      have hclosed : (s.streams k).senderOpen = false := by
        rcases hcomplete with hclosed | ⟨c, hc, _⟩
        · exact hclosed
        · cases hc
      refine ⟨1, s.answer k (kind.reply serde k (.ok acc.finish)), ?_, by simp [Collected.drain]⟩
      simp [step, receive, hcall, hbuffer, hclosed]
  | cons c rest ih =>
      cases htake : acc.take c with
      | inl acc' =>
          have hstep : step serde cfg s (.receive k) = some
              ((s.setStream k { s.streams k with buffer := rest }).setCall k
                (.collecting kind acc')) := by
            simp [step, receive, hcall, hbuffer, htake]
          have hcall' : ((s.setStream k { s.streams k with buffer := rest }).setCall k
              (.collecting kind acc')).calls k = .collecting kind acc' := by simp
          obtain ⟨n, t, hruns, ht⟩ := ih hcall' (by simp) (by
            rcases hcomplete with hclosed | ⟨c', hc', hfinal⟩
            · exact .inl (by simpa using hclosed)
            · rcases List.mem_cons.mp hc' with rfl | hmem
              · rw [take_inl htake] at hfinal
                cases hfinal
              · exact .inr ⟨c', hmem, hfinal⟩)
          refine ⟨n + 1, t, ?_, ?_⟩
          · rw [List.replicate_succ, runs_cons, hstep]
            exact hruns
          · rw [ht, Collected.drain, htake]
      | inr r =>
          refine ⟨1, s.answer k (kind.reply serde k r), ?_, by simp [Collected.drain, htake]⟩
          simp [step, receive, hcall, hbuffer, htake]

/-- An error before any end decides the loop. -/
theorem drain_error {acc : Collected} {buffer : List ResponseChunk}
    (hfinal : ∃ c ∈ buffer, isFinal c = true) (hend : .streamEnd ∉ buffer) :
    ∃ e, acc.drain buffer = .error e := by
  induction buffer generalizing acc with
  | nil =>
      obtain ⟨c, hc, _⟩ := hfinal
      cases hc
  | cons c rest ih =>
      rw [List.mem_cons, not_or] at hend
      cases htake : acc.take c with
      | inl acc' =>
          have hrest : ∃ c' ∈ rest, isFinal c' = true := by
            obtain ⟨c', hc', hfinal'⟩ := hfinal
            rcases List.mem_cons.mp hc' with rfl | hmem
            · rw [take_inl htake] at hfinal'
              cases hfinal'
            · exact ⟨c', hmem, hfinal'⟩
          obtain ⟨e, he⟩ : ∃ e, acc'.drain rest = .error e := ih hrest hend.2
          refine ⟨e, ?_⟩
          rw [Collected.drain, htake]
          exact he
      | inr r =>
          cases r with
          | ok v => exact absurd (take_ok htake).symm hend.1
          | error e => exact ⟨e, by rw [Collected.drain, htake]⟩

/-- A caller whose buffer holds an error before any end reads on to a failure. -/
theorem receives_error {kind : CallKind} {acc : Collected}
    (hcall : s.calls k = .collecting kind acc)
    (hfinal : ∃ c ∈ (s.streams k).buffer, isFinal c = true)
    (hend : .streamEnd ∉ (s.streams k).buffer) :
    ∃ n t e, runs (step serde cfg) s (List.replicate n (.receive k)) = some t ∧
      t.calls k = .returned (.error e) := by
  obtain ⟨n, t, hruns, ht⟩ := receives_drain hcall rfl (.inr hfinal)
  obtain ⟨e, he⟩ := drain_error hfinal hend
  refine ⟨n, t, .worker e, hruns, ?_⟩
  rw [ht, he]
  rfl

/-- In every run that drops no awaited sender before an error or an end, a call succeeds only
after the worker that executed it pushed an end, and a call whose sender was dropped
without an end fails. -/
theorem ok_only_after_end (R : Runtime) (serde : SerdeJson) (cfg : WorkersConfig)
    (s : State R)
    (h : ReachableVia (step serde cfg) (fun s a => finalBeforeDrop cfg s a = true)
      (init R cfg) s) (k : Nat) :
    (∀ reply, s.calls k = .returned (.ok reply) →
      ∃ i w, .executed i w k ∈ s.history ∧ .pushed w k .streamEnd ∈ s.history) ∧
    ((s.streams k).senderOpen = false → (∀ w, .pushed w k .streamEnd ∉ s.history) →
      (∀ reply, s.calls k ≠ .returned (.ok reply)) ∧
      ∀ kind acc, s.calls k = .collecting kind acc →
        ∃ n t e, runs (step serde cfg) s (List.replicate n (.receive k)) = some t ∧
          t.calls k = .returned (.error e)) := by
  have hk := answerable_of_reachable h k
  constructor
  · intro reply hreply
    obtain ⟨w, hw⟩ := hk.returned reply hreply
    obtain ⟨i, hi⟩ := hk.owned w (hk.pushed w _ hw)
    exact ⟨i, w, (State.mem_story rfl).mp hi, (State.mem_story rfl).mp hw⟩
  · intro hshut hnone
    have hnone' (w : Nat) : .pushed w k .streamEnd ∉ s.story k := by
      intro hmem
      exact hnone w ((State.mem_story rfl).mp hmem)
    constructor
    · intro reply hreply
      obtain ⟨w, hw⟩ := hk.returned reply hreply
      exact hnone' w hw
    · intro kind acc hcall
      have hawait : (s.calls k).awaits = true := by
        rw [hcall]
        rfl
      apply receives_error hcall (hk.closed hawait hshut)
      intro hmem
      obtain ⟨w, hw⟩ := hk.buffered _ hmem
      exact hnone' w hw

/-- One call through a pool of one slot, up to the call of `execute_streaming`. -/
def oneCall (R : Runtime) (h : R.Worker) : List (Action R) :=
  [.supervise 0 .enterLoop, .supervise 0 (.spawned h), .supervise 0 .pollReady,
    .invoke (.executeValue "dispatch" .null), .submit 0, .mainRecv, .mainForward,
    .supervise 0 .pollReload, .supervise 0 .pollInbox, .supervise 0 .execute]

def CallStage.succeeded : CallStage → Bool
  | .returned (.ok _) => true
  | _ => false

def Event.isPush : Event → Bool
  | .pushed _ _ _ => true
  | _ => false

theorem CallStage.exists_of_succeeded {stage : CallStage} (h : stage.succeeded = true) :
    ∃ reply, stage = .returned (.ok reply) := by
  cases stage with
  | returned r =>
      cases r with
      | ok reply => exact ⟨reply, rfl⟩
      | error e => cases h
  | _ => cases h

/-- A runtime whose workers answer every request with `null`: value, end, and the drop
of the sender. A worker is the list of what it still has to do. -/
def Runtime.replying : Runtime where
  Worker := List StreamOp
  Act := Unit
  spawns h := h.isEmpty
  id _ := 1
  isRecyclable _ := true
  ready h := h
  pollReady _ := .ready (.ok ())
  executeStreaming _ req :=
    some ([.push req.streamTx (.returnValue .null), .push req.streamTx .streamEnd,
      .close req.streamTx], true)
  pollExecute h := if h.isEmpty then .ready (.ok ()) else .pending
  dropExecute h := h
  terminate h := h
  pollTerminate _ := .ready (.ok ())
  dropHandle h := h
  act h _ :=
    match h with
    | op :: rest => some (rest, some op)
    | [] => none

/-- The call that such a worker answers succeeds, after its end. -/
theorem replying_call_succeeds :
    ∃ s, ReachableVia (step .ofNull .single) (fun s a => finalBeforeDrop .single s a = true)
        (init .replying .single) s ∧
      (∃ reply, s.calls 0 = .returned (.ok reply)) ∧
      ∃ i w, .executed i w 0 ∈ s.history ∧ .pushed w 0 .streamEnd ∈ s.history := by
  have hrun : (runs (fun s a => if finalBeforeDrop .single s a then step .ofNull .single s a
        else none) (init .replying .single)
      (oneCall .replying [] ++ [.work 0 (), .work 0 (), .work 0 (), .receive 0, .receive 0])).any
        (fun s => (s.calls 0).succeeded) = true := by decide
  obtain ⟨s, hs, htest⟩ := exists_reachableVia hrun
  obtain ⟨reply, hreply⟩ := CallStage.exists_of_succeeded htest
  exact ⟨s, hs, ⟨reply, hreply⟩,
    (ok_only_after_end .replying .ofNull .single s hs 0).1 reply hreply⟩

/-- A runtime that implements the required methods of its traits alone: workers are
ready at once and `execute_streaming` is not supported. -/
def Runtime.basic : Runtime where
  Worker := Unit
  Act := Empty
  spawns _ := true
  id _ := 1
  isRecyclable _ := true
  ready h := h
  pollReady _ := .ready (.ok ())
  executeStreaming h _ := some (h, false)
  pollExecute _ := .ready (.error "execute_streaming not supported by this runtime")
  dropExecute h := h
  terminate h := h
  pollTerminate _ := .ready (.ok ())
  dropHandle h := h
  act _ a := a.elim

/-- A runtime that drops the sender makes the call a success: no end was pushed. -/
theorem dropped_sender_succeeds :
    ∃ s, Reachable (step .ofNull .single) (init .basic .single) s ∧
      (∃ reply, s.calls 0 = .returned (.ok reply)) ∧
      ∀ w, .pushed w 0 .streamEnd ∉ s.history := by
  have hrun : (runs (step .ofNull .single) (init .basic .single)
      (oneCall .basic () ++ [.receive 0])).any
        (fun s => (s.calls 0).succeeded && s.history.all fun e => !e.isPush) = true := by decide
  obtain ⟨s, hs, htest⟩ := exists_reachable hrun
  rw [Bool.and_eq_true] at htest
  refine ⟨s, hs, ?_, ?_⟩
  · exact CallStage.exists_of_succeeded htest.1
  · intro w hmem
    have := List.all_eq_true.mp htest.2 _ hmem
    simp [Event.isPush] at this

end FolkCore.Pool
