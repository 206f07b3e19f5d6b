import FolkCore.Ext.Spawn
import FolkCore.Ext.Threads

/-!
# What a worker thread waits for

A bridge call stands in the thread of PHP, so a channel operation that cannot be performed
stops the whole worker. A thread holds the senders of its tasks until it drops them
(`Holding`); so each of its operations goes through, but for a push on a full stream that its
caller still reads, and a receive waits only while a supervisor holds the handle.
-/

namespace FolkCore.Ext

open Bridge Function Lib Pool

variable {serde : SerdeJson} {cfg : WorkersConfig} {s t : State (extensionRuntime serde)}
  {a : Action (extensionRuntime serde)} {h h' : ChannelWorker} {op : Option StreamOp} {w : Nat}
  {k : StreamTx}

/-- The stream whose sender an operation drops. -/
def dropOn : Effect → Option StreamTx
  | .dropStream tx => some tx
  | _ => none

/-- The streams whose senders a thread has: those of the tasks in its channel and of its
current request, and those that it is about to drop. -/
def ChannelWorker.senders (h : ChannelWorker) : List StreamTx :=
  h.state.taskRx.map TaskRequest.streamTx ++ h.state.currentStreamTx.toList ++
    h.effects.filterMap dropOn

/-- The stream that an operation on a stream closes. -/
def closes : Option StreamOp → List StreamTx
  | some (.close tx) => [tx]
  | _ => []

theorem dropOn_dropTask (tasks : List TaskRequest) :
    (tasks.flatMap ChannelWorker.dropTask).filterMap dropOn = tasks.map TaskRequest.streamTx := by
  induction tasks with
  | nil => rfl
  | cons r rest ih =>
      rw [List.flatMap_cons, List.filterMap_append, ih]
      rfl

theorem dropOn_release (st : WorkerState) :
    st.release.filterMap dropOn = st.currentStreamTx.toList := by
  unfold WorkerState.release
  cases st.currentStreamTx <;> cases st.currentDoneTx <;> rfl

/-- A thread loses the senders that it drops and no others. -/
theorem Turn.senders (turn : Turn h h' op) : (closes op ++ h'.senders).Perm h.senders := by
  cases turn with
  | booted => exact .refl _
  | @quiet state effects hidle hsame heffects =>
      have hnone : effects.filterMap dropOn = [] := by
        rw [List.filterMap_eq_nil_iff]
        intro e he
        rw [heffects e he]
        rfl
      simp [ChannelWorker.senders, closes, hidle, hsame.queue, hsame.stream, hnone]
  | wrote hidle hsame _ _ =>
      simp [ChannelWorker.senders, closes, hidle, hsame.queue, hsame.stream, List.filterMap_cons,
        dropOn]
  | @finished tx d v effects hidle htx _ heffects =>
      have hdrops : effects.filterMap dropOn = [tx] := by
        rcases heffects with rfl | rfl <;> cases v <;> rfl
      simp [ChannelWorker.senders, closes, hidle, htx, hdrops, WorkerState.clear]
  | @accepted r rest hidle hqueue =>
      simp [ChannelWorker.senders, closes, hidle, hqueue, dropOn_release, WorkerState.accept]
  | @performed e rest heffects =>
      cases e with
      | dropStream tx =>
          simp only [ChannelWorker.senders, ChannelWorker.performEffect, closes, heffects,
            List.filterMap_cons, dropOn, List.singleton_append]
          exact List.perm_middle.symm
      | _ =>
          simp [ChannelWorker.senders, ChannelWorker.performEffect, closes, heffects,
            List.filterMap_cons, dropOn]
  | exited hidle =>
      simp only [ChannelWorker.senders, closes, hidle, List.filterMap_append, dropOn_release,
        dropOn_dropTask]
      simp [WorkerState.clear]
      exact List.perm_append_comm

/-- The operations of the thread go to streams whose senders it has. -/
def Addressed (h : ChannelWorker) : Prop := ∀ tx c, .send tx c ∈ h.effects → tx ∈ h.senders

theorem addressed_of_noSend (hnone : ∀ e ∈ h.effects, noSend e) : Addressed h :=
  fun tx c hsend => absurd rfl (hnone _ hsend tx c)

theorem Turn.addressed (turn : Turn h h' op) (hneat : Neat h) (haddressed : Addressed h) :
    Addressed h' := by
  have hperm := turn.senders
  cases turn with
  | booted => exact haddressed
  | quiet _ _ heffects =>
      apply addressed_of_noSend
      intro e he tx c heq
      rw [heffects e he] at heq
      cases heq
  | wrote _ hsame htx _ =>
      intro tx c hsend
      obtain ⟨rfl, _⟩ : tx = _ ∧ c = _ := by simpa using hsend
      simp [ChannelWorker.senders, hsame.stream, htx]
  | @finished tx d v effects _ _ _ heffects =>
      intro tx' c hsend
      have htx : tx' = tx := by
        rcases heffects with rfl | rfl <;> cases v <;> simp at hsend <;> grind
      have hdrops : effects.filterMap dropOn = [tx] := by
        rcases heffects with rfl | rfl <;> cases v <;> rfl
      simp [ChannelWorker.senders, htx, hdrops]
  | accepted _ _ => exact addressed_of_noSend (release_noSend h.state)
  | @performed e rest heffects =>
      intro tx c hsend
      rw [performEffect_effects] at hsend
      have hmem : tx ∈ h.senders := haddressed tx c (by rw [heffects]; exact .tail _ hsend)
      rcases List.mem_append.mp (hperm.mem_iff.mpr hmem) with hclosed | hstill
      · -- nothing is sent after the drop of the sender
        have hclosing := hneat.closing
        rw [heffects] at hclosing
        cases e with
        | dropStream tx' =>
            obtain rfl : tx = tx' := by simpa [closes, ChannelWorker.performEffect] using hclosed
            exact absurd rfl (List.rel_of_pairwise_cons hclosing hsend tx c rfl)
        | _ => cases hclosed
      · exact hstill
  | exited _ => exact addressed_of_noSend (exit_noSend h.state)

/-- The thread behind handle `w` has the senders that it counts on. -/
structure Holding (w : Nat) (s : State (extensionRuntime serde)) (h : ChannelWorker) : Prop where
  distinct : h.senders.Nodup
  held : ∀ tx ∈ h.senders, (s.streams tx).owner = some w ∧ (s.streams tx).senderOpen = true
  addressed : Addressed h

theorem Holding.of_empty (hqueue : h.state.taskRx = []) (hidle : h.state.Idle)
    (heffects : h.effects = []) : Holding w s h := by
  have hnone : h.senders = [] := by simp [ChannelWorker.senders, hqueue, hidle.1, heffects]
  refine ⟨?_, ?_, addressed_of_noSend ?_⟩
  · rw [hnone]
    exact List.nodup_nil
  · rw [hnone]
    exact nofun
  · rw [heffects]
    exact nofun

/-- The streams that the thread holds are as they were. -/
theorem Holding.aside (hh : Holding w s h) (hstate : h'.state = h.state)
    (heffects : h'.effects = h.effects)
    (hkept : ∀ k, (s.streams k).owner = some w → (t.streams k).owner = some w ∧
      ((s.streams k).senderOpen = true → (t.streams k).senderOpen = true)) :
    Holding w t h' := by
  have hsenders : h'.senders = h.senders := by
    rw [ChannelWorker.senders, hstate, heffects, ChannelWorker.senders]
  refine ⟨hsenders ▸ hh.distinct, fun tx htx => ?_, fun tx c hsend => ?_⟩
  · obtain ⟨howner, hopen⟩ := hh.held tx (hsenders ▸ htx)
    exact ⟨(hkept tx howner).1, (hkept tx howner).2 hopen⟩
  · rw [hsenders]
    exact hh.addressed tx c (heffects ▸ hsend)

theorem Ticketed.sending_held {R : Runtime} {p : State R} (hticketed : Ticketed cfg p)
    {kind : CallKind} {req : DispatchRequest} (hcall : p.calls k = .sending kind req) :
    (p.streams k).owner = none := by
  have hpos : 0 < p.tally cfg k := by
    simp only [State.tally, hcall, CallStage.requests, tally_cons, tally_nil,
      hticketed.sending k kind req hcall, if_true]
    omega
  exact (hticketed.held k hpos).2.1

/-- Only the thread that has a sender closes it. -/
theorem sender_kept (hticketed : Ticketed cfg s) (move : Move serde cfg s a t)
    (hnot : ∀ act, a ≠ .work w act) (howner : (s.streams k).owner = some w)
    (hopen : (s.streams k).senderOpen = true) : (t.streams k).senderOpen = true := by
  have request := step_request hticketed move k
  by_cases hwork : a.isWork = true
  · cases move with
    | worked | pushLost => exact hopen
    | @pushed w' act _ _ tx _ _ _ howner' | @closed w' act _ _ tx _ _ howner' =>
        have hne : k ≠ tx := by
          rintro rfl
          cases howner.symm.trans howner'
          exact hnot act rfl
        simpa [hne] using hopen
    | _ => cases hwork
  · change (s.request k).stream.owner = some w at howner
    change (s.request k).stream.senderOpen = true at hopen
    change (t.request k).stream.senderOpen = true
    have hsending {kind : CallKind} {req : DispatchRequest}
        (hcall : (s.request k).call = .sending kind req) : False := by
      have hnone : (s.request k).stream.owner = none := Ticketed.sending_held hticketed hcall
      cases howner.symm.trans hnone
    generalize t.request k = r' at request
    cases request with
    | opened | submitted | collected => first | rfl | exact hopen
    | poolGone hcall | withdrawn hcall => exact (hsending hcall).elim
    | executed _ _ _ hnone | discarded hnone => cases howner.symm.trans hnone
    | pushed _ _ _ _ _ hworks => exact absurd hworks hwork
    | closed _ _ _ _ hworks => exact absurd hworks hwork
    | _ => exact hopen

/-- Owned streams are as they were after a step that is not the thread's. -/
theorem Holding.kept (hh : Holding w s h) (hticketed : Ticketed cfg s)
    (move : Move serde cfg s a t) (hnot : ∀ act, a ≠ .work w act) (hstate : h'.state = h.state)
    (heffects : h'.effects = h.effects) : Holding w t h' :=
  hh.aside hstate heffects fun _ howner =>
    ⟨(owned_stream hticketed move howner).1, sender_kept hticketed move hnot howner⟩

/-- The thread performs an operation or goes on. -/
theorem Holding.acted (hh : Holding w s h) (hneat : Neat h) {act : ChannelWorker.ThreadAct}
    (move : Move serde cfg s (.work w act) t) (hw : s.workers w = some h)
    (hact : h.act serde act = some (h', op)) : Holding w t h' := by
  have turn := act_turn hneat.paired hact
  have hperm := turn.senders
  have hnodup : (closes op ++ h'.senders).Nodup := hperm.nodup_iff.mpr hh.distinct
  have hstream (tx : StreamTx) (htx : tx ∉ closes op) :
      (t.streams tx).owner = (s.streams tx).owner ∧
        (t.streams tx).senderOpen = (s.streams tx).senderOpen := by
    have sameOp {h₁ h₁' : (extensionRuntime serde).Worker} {op₁ : Option StreamOp}
        (hw₁ : s.workers w = some h₁)
        (hact₁ : (extensionRuntime serde).act h₁ act = some (h₁', op₁)) : op = op₁ := by
      cases hw.symm.trans hw₁
      exact congrArg Prod.snd (Option.some.inj (hact.symm.trans hact₁))
    cases move with
    | worked | pushLost => exact ⟨rfl, rfl⟩
    | @pushed _ _ _ _ tx' =>
        by_cases hne : tx = tx'
        · simp [hne]
        · simp [hne]
    | @closed _ _ _ _ tx' hw₁ hact₁ =>
        cases sameOp hw₁ hact₁
        have hne : tx ≠ tx' := by simpa [closes] using htx
        simp [hne]
  refine ⟨(List.nodup_append.mp hnodup).2.1, fun tx htx => ?_, turn.addressed hneat hh.addressed⟩
  have hopen : tx ∉ closes op := fun hclosed =>
    (List.nodup_append.mp hnodup).2.2 tx hclosed tx htx rfl
  obtain ⟨howner, hsender⟩ := hstream tx hopen
  rw [howner, hsender]
  exact hh.held tx (hperm.mem_iff.mp (List.mem_append_right _ htx))

/-- A task that `execute_streaming` has put into the channel comes with its sender. -/
theorem handed_open {i since : Nat} {req : DispatchRequest}
    (move : Move serde cfg s (.supervise i .execute) t)
    (hphase : (s.slots i).phase = .dispatching req since)
    (hslot : (s.slots i).worker = some w) (hw : s.workers w = some h)
    (hcall : h.executeStreaming req = some (h', true)) :
    (t.streams req.streamTx).senderOpen = true := by
  cases move with
  | @supervised _ _ r _ _ move =>
      obtain ⟨slot', commands⟩ := r
      cases move with
      | execute hphase' hslot' hw' hcall' =>
          cases hphase.symm.trans hphase'
          cases hslot.symm.trans hslot'
          cases hw.symm.trans hw'
          cases hcall.symm.trans hcall'
          simp [State.supervise, State.perform]

/-- A task comes to the thread with its sender. -/
theorem Holding.arrive (hh : Holding w s h) (hticketed : Ticketed cfg s)
    (move : Move serde cfg s a t) (hnot : ∀ act, a ≠ .work w act) {r : TaskRequest}
    (hheld : (s.streams r.streamTx).owner = none)
    (hgiven : (t.streams r.streamTx).owner = some w ∧ (t.streams r.streamTx).senderOpen = true)
    (hstate : h'.state = { h.state with taskRx := h.state.taskRx ++ [r] })
    (heffects : h'.effects = h.effects) : Holding w t h' := by
  have hold : Holding w t h := hh.kept hticketed move hnot rfl rfl
  have hsenders : h'.senders.Perm (r.streamTx :: h.senders) := by
    simp only [ChannelWorker.senders, hstate, heffects, List.map_append, List.map_cons,
      List.map_nil, List.append_assoc, List.singleton_append]
    exact List.perm_middle
  have hnew : r.streamTx ∉ h.senders := fun hmem => by
    cases hheld.symm.trans (hh.held _ hmem).1
  refine ⟨hsenders.nodup_iff.mpr (List.nodup_cons.mpr ⟨hnew, hh.distinct⟩), ?_, ?_⟩
  · intro tx htx
    rcases List.mem_cons.mp (hsenders.mem_iff.mp htx) with rfl | hmem
    · exact hgiven
    · exact hold.held tx hmem
  · intro tx c hsend
    apply hsenders.mem_iff.mpr
    exact List.mem_cons_of_mem _ (hh.addressed tx c (heffects ▸ hsend))

/-- The thread behind every handle has its senders. -/
def Held (s : State (extensionRuntime serde)) : Prop :=
  ∀ w (h : ChannelWorker), s.workers w = some h → Holding w s h

/-- The thread does not notice what a supervisor does with the handle. -/
theorem released_thread {h h' : (extensionRuntime serde).Worker} (hreleased : Released h h') :
    ChannelWorker.state h' = ChannelWorker.state h ∧
      ChannelWorker.effects h' = ChannelWorker.effects h := by
  cases hreleased with
  | terminated | dropped | settled | panicked => exact ⟨rfl, rfl⟩

theorem Held.step (hs : Held s) (hticketed : Ticketed cfg s) (hstaffed : Staffed Neat s)
    (move : Move serde cfg s a t) : Held t := by
  intro w h₁ hw₁
  obtain ⟨l', threaded⟩ := step_threaded move w .unborn
  cases threaded with
  | kept haside hw => exact (hs w h₁ (hw ▸ hw₁)).kept hticketed move haside.1 rfl rfl
  | released haside _ _ hw hw' hreleased =>
      cases hw'.symm.trans hw₁
      obtain ⟨hstate, heffects⟩ := released_thread hreleased
      exact (hs w _ hw).kept hticketed move haside.1 hstate heffects
  | born haside hfresh _ hw' =>
      cases hw'.symm.trans hw₁
      obtain ⟨_, hqueue, hidle, heffects⟩ := isFresh_empty hfresh
      exact .of_empty hqueue hidle heffects
  | @called i since req h h' kept ha hphase hi hslot hw hw' hcall howner =>
      subst ha
      cases hw'.symm.trans hw₁
      have hpos : 0 < s.tally cfg req.streamTx :=
        State.tally_pos_of_slot hi (by simp [Slot.requests, Phase.requests, hphase])
      rcases executeStreaming_cases hcall with ⟨rfl, e, rfl⟩ | ⟨rfl, _, _, rfl⟩
      · exact (hs w h hw).kept hticketed move (by simp) rfl rfl
      · refine (hs w h hw).arrive hticketed move (by simp) (r := h.task req)
          (hticketed.held _ hpos).2.1 ⟨howner, ?_⟩ rfl rfl
        exact handed_open move hphase hslot hw hcall
  | acted ha hw hact hw' =>
      subst ha
      cases hw'.symm.trans hw₁
      exact (hs w _ hw).acted (hstaffed.good w _ hw) move hw hact

/-- A handle that can still be given tasks is in the hands of a supervisor. -/
def Tended (cfg : WorkersConfig) (s : State (extensionRuntime serde)) : Prop :=
  ∀ w (h : ChannelWorker), s.workers w = some h → h.taskTx = true →
    ∃ i < cfg.count, (s.slots i).handle = some w

/-- What a supervisor's step means for the handle `w`: nothing, or it keeps the handle, or it
gives it up and closes the task channel. -/
inductive Tends (s t : State (extensionRuntime serde)) (slot slot' : Slot) (w : Nat) : Prop
  | aside (hw : t.workers w = s.workers w) (hkept : slot.handle = some w → slot'.handle = some w)
  | keeps (hhandle : slot'.handle = some w)
  | gives {h : ChannelWorker} (hw : t.workers w = some h) (hclosed : h.taskTx = false)

theorem supervised_tends {i : Nat} {b : SupervisorAction (extensionRuntime serde)}
    {r : Slot × List (Command (extensionRuntime serde))} (htidy : (s.slots i).Tidy)
    (move : Slot.Move cfg i s.view (s.slots i) b r.1 r.2) (w : Nat) :
    Tends s (s.supervise i r) (s.slots i) r.1 w := by
  obtain ⟨slot', commands⟩ := r
  have gives {w' : Nat} {h : ChannelWorker}
      (hworkers : (s.supervise i (slot', commands)).workers = update s.workers w' (some h))
      (htarget : w' ∈ commands.filterMap Command.target) (hclosed : h.taskTx = false) :
      Tends s (s.supervise i (slot', commands)) (s.slots i) slot' w := by
    by_cases hw : w = w'
    · exact .gives ((congrFun hworkers w).trans (hw ▸ update_self _ _ _)) hclosed
    · refine .aside ((congrFun hworkers w).trans (update_of_ne hw _ _)) fun hhandle => ?_
      exact absurd (Option.some.inj (hhandle.symm.trans (move.target htarget))) hw
  have uses {w' : Nat} {h : ChannelWorker}
      (hworkers : (s.supervise i (slot', commands)).workers = update s.workers w' (some h))
      (hhandle : (s.slots i).handle = some w') (hhandle' : slot'.handle = some w') :
      Tends s (s.supervise i (slot', commands)) (s.slots i) slot' w := by
    by_cases hw : w = w'
    · exact .keeps (hw ▸ hhandle')
    · refine .aside ((congrFun hworkers w).trans (update_of_ne hw _ _)) fun hold => ?_
      exact absurd (Option.some.inj (hold.symm.trans hhandle)) hw
  unfold Slot.Tidy at htidy
  cases move with
  | boot hphase hworker | unreachable hphase hworker =>
      exact .aside rfl (by simp [Slot.handle, hphase, hworker])
  | spawnFailed hphase | spawnPanicked hphase | wake hphase =>
      rw [hphase] at htidy
      have hworker : (s.slots i).worker = none := htidy
      exact .aside rfl (by simp [Slot.handle, hphase, hworker])
  | spawned hphase =>
      rw [hphase] at htidy
      have hworker : (s.slots i).worker = none := htidy
      by_cases hw : w = s.handles
      · exact .keeps (hw ▸ rfl)
      · exact .aside (update_of_ne hw _ _) (by simp [Slot.handle, hphase, hworker])
  | bootFailed | bootPanicked | bootAbandoned | replaced | exited | terminatePanicked
  | executePanicked | reloaded | reloadClosed | inboxClosed | recycled =>
      exact gives rfl (by simp [Command.target]) rfl
  | execute hphase hworker | settled hphase hworker =>
      exact uses rfl (by simp [Slot.handle, hphase, hworker]) (by simp [Slot.handle, hworker])
  | listen hphase | booted hphase | caughtUp hphase | noReload hphase | took hphase
  | inboxEmpty hphase | kept hphase =>
      exact .aside rfl fun hhandle => by simpa [Slot.handle, hphase] using hhandle

theorem Tended.supervised (hs : Tended cfg s) {i : Nat}
    {b : SupervisorAction (extensionRuntime serde)}
    {r : Slot × List (Command (extensionRuntime serde))} (hi : i < cfg.count)
    (htidy : (s.slots i).Tidy) (move : Slot.Move cfg i s.view (s.slots i) b r.1 r.2) :
    Tended cfg (s.supervise i r) := by
  intro w h hw htx
  have own (hhandle : r.1.handle = some w) :
      ∃ j < cfg.count, ((s.supervise i r).slots j).handle = some w :=
    ⟨i, hi, by rw [s.supervise_slots, update_self]; exact hhandle⟩
  cases supervised_tends htidy move w with
  | keeps hhandle => exact own hhandle
  | gives hw' hclosed =>
      cases hw'.symm.trans hw
      cases hclosed.symm.trans htx
  | aside hsame hkept =>
      obtain ⟨j, hj, hhandle⟩ := hs w h (hsame ▸ hw) htx
      by_cases hne : j = i
      · subst hne
        exact own (hkept hhandle)
      · exact ⟨j, hj, by rw [s.supervise_slots, update_of_ne hne]; exact hhandle⟩

theorem Tended.step (hs : Tended cfg s) (hhoused : Housed s) (move : Move serde cfg s a t) :
    Tended cfg t := by
  have same (hslots : ∀ i, (t.slots i).handle = (s.slots i).handle)
      (hworkers : ∀ w (h' : ChannelWorker), t.workers w = some h' →
        ∃ h : ChannelWorker, s.workers w = some h ∧ h.taskTx = h'.taskTx) : Tended cfg t := by
    intro w h' hw' htx
    obtain ⟨h, hw, heq⟩ := hworkers w h' hw'
    obtain ⟨i, hi, hhandle⟩ := hs w h hw (heq.trans htx)
    exact ⟨i, hi, (hslots i).trans hhandle⟩
  have acted {w : Nat} {act : ChannelWorker.ThreadAct} {h h' : ChannelWorker}
      {op : Option StreamOp} (hw : s.workers w = some h) (hact : h.act serde act = some (h', op))
      (hworkers : t.workers = update s.workers w (some h')) (w' : Nat) (h₁ : ChannelWorker)
      (hw₁ : t.workers w' = some h₁) :
      ∃ h : ChannelWorker, s.workers w' = some h ∧ h.taskTx = h₁.taskTx := by
    rw [hworkers] at hw₁
    by_cases hne : w' = w
    · subst hne
      rw [update_self] at hw₁
      cases hw₁
      exact ⟨h, hw, (act_taskTx hact).symm⟩
    · rw [update_of_ne hne] at hw₁
      exact ⟨h₁, hw₁, rfl⟩
  cases move with
  | supervised hi _ move => exact hs.supervised hi (hhoused.tidy _) move
  | worked hw hact | pushed hw hact | pushLost hw hact | closed hw hact =>
      exact same (fun _ => rfl) (acted hw hact rfl)
  | @delivered req attempt _ _ _ _ _ =>
      refine same (fun i => ?_) fun w h' hw' => ⟨h', hw', rfl⟩
      by_cases hi : i = (s.next + attempt) % cfg.count
      · simp [hi, Slot.handle]
      · simp [hi]
  | _ => exact same (fun _ => rfl) fun w h' hw' => ⟨h', hw', rfl⟩

section Streams

variable {R : Runtime} {p q : State R} {b : Action R}

/-- No stream holds more than its capacity. -/
def Narrow (s : State R) : Prop := ∀ k, (s.streams k).buffer.length ≤ 64

theorem Narrow.step (hp : Narrow p) (hticketed : Ticketed cfg p) (move : Move serde cfg p b q) :
    Narrow q := by
  intro k
  have request := step_request hticketed move k
  by_cases hwork : b.isWork = true
  · cases move with
    | worked | pushLost => exact hp k
    | @pushed _ _ _ _ tx _ _ _ _ _ _ hroom =>
        by_cases hk : k = tx
        · subst hk
          simp only [State.note, State.setStream, update_self, List.length_append,
            List.length_singleton]
          exact hroom
        · simpa [hk] using hp k
    | @closed _ _ _ _ tx =>
        by_cases hk : k = tx
        · subst hk
          simpa using hp k
        · simpa [hk] using hp k
    | _ => cases hwork
  · have hroom : (p.request k).stream.buffer.length ≤ 64 := hp k
    change (q.request k).stream.buffer.length ≤ 64
    generalize q.request k = r' at request
    cases request with
    | opened | poolGone | withdrawn | judged | exhausted | cancelled => exact Nat.zero_le _
    | collected _ hbuffer _ | streamed _ hbuffer =>
        rw [hbuffer, List.length_cons] at hroom
        exact Nat.le_of_succ_le hroom
    | pushed _ _ _ _ _ hworks => exact absurd hworks hwork
    | _ => exact hroom

/-- The caller of an open stream listens to it. -/
theorem listening_of_open (hheard : (p.request k).Heard) (hticketed : Ticketed cfg p)
    (howner : (p.streams k).owner ≠ none) (hopen : (p.streams k).receiverOpen = true) :
    (p.calls k).Listening := by
  have hcall : (p.request k).call = p.calls k := rfl
  unfold Request.Heard Stream.Deaf at hheard
  rw [hcall] at hheard
  have hdeaf (hclosed : (p.request k).stream.receiverOpen = false) : False := by
    cases hopen.symm.trans hclosed
  cases hstage : p.calls k with
  | unborn =>
      rw [hstage] at hheard
      exact (hdeaf hheard.1.1).elim
  | returned | cancelled =>
      rw [hstage] at hheard
      exact (hdeaf hheard.1).elim
  | sending kind req => exact absurd (Ticketed.sending_held hticketed hstage) howner
  | collecting | streaming => trivial

/-- A caller that listens reads what is there, and makes room or hangs up. -/
theorem receive_makes_room (serde : SerdeJson) (cfg : WorkersConfig) {c : ResponseChunk}
    {rest : List ResponseChunk}
    (hlistens : (p.calls k).Listening) (hbuffer : (p.streams k).buffer = c :: rest) :
    ∃ q, step serde cfg p (.receive k) = some q ∧ q.workers = p.workers ∧
      ((q.streams k).receiverOpen = false ∨ (q.streams k).buffer = rest) := by
  cases hcall : p.calls k with
  | collecting kind acc =>
      cases htake : acc.take c with
      | inl acc' =>
          refine ⟨_, by simp only [step, receive, hcall, hbuffer, htake]; rfl, ?_⟩
          simp
      | inr r =>
          refine ⟨_, by simp only [step, receive, hcall, hbuffer, htake]; rfl, ?_⟩
          simp
  | streaming =>
      refine ⟨_, by simp only [step, receive, hcall, hbuffer]; rfl, ?_⟩
      simp
  | unborn | sending | returned | cancelled => simp [hcall, CallStage.Listening] at hlistens

/-- A worker with the sender of a stream acts on it, unless it is full and still read. -/
theorem work_enabled {act : R.Act} {h h' : R.Worker} {op : Option StreamOp}
    (hw : p.workers w = some h) (hact : R.act h act = some (h', op))
    (hheld : ∀ o tx, op = some o → (o = .close tx ∨ ∃ c, o = .push tx c) →
      (p.streams tx).owner = some w ∧ (p.streams tx).senderOpen = true)
    (hroom : ∀ tx c, op = some (.push tx c) →
      (p.streams tx).receiverOpen = false ∨ (p.streams tx).buffer.length < 64) :
    ∃ q, work p w act = some q := by
  unfold work
  rw [hw, Option.bind_some, hact, Option.bind_some]
  cases op with
  | none => exact ⟨_, rfl⟩
  | some o =>
      cases o with
      | close tx =>
          have hopen := hheld _ tx rfl (.inl rfl)
          exact ⟨_, if_pos hopen⟩
      | push tx c =>
          have hopen := hheld _ tx rfl (.inr ⟨c, rfl⟩)
          simp only [hopen, and_self, if_true]
          by_cases hreceiver : (p.streams tx).receiverOpen = true
          · have hlt : (p.streams tx).buffer.length < 64 := by
              rcases hroom tx c rfl with hclosed | hlt
              · cases hreceiver.symm.trans hclosed
              · exact hlt
            exact ⟨_, by rw [if_pos hreceiver, if_pos hlt]⟩
          · exact ⟨_, if_neg hreceiver⟩

end Streams

/-- The thread performs its next operation, unless that is a push on a full stream that is
still read. -/
theorem perform_enabled (hh : Holding w s h) (hw : s.workers w = some h) {e : Effect}
    {rest : List Effect} (heffects : h.effects = e :: rest)
    (hroom : ∀ tx c, e = .send tx c →
      (s.streams tx).receiverOpen = false ∨ (s.streams tx).buffer.length < 64) :
    ∃ t, work s w .perform = some t := by
  have hact : (extensionRuntime serde).act h .perform = some (h.performEffect rest e) := by
    simp [extensionRuntime, ChannelWorker.act, heffects]
  apply work_enabled hw hact
  · intro o tx hop ho
    apply hh.held
    cases e with
    | send tx' c =>
        cases hop
        have htx : tx = tx' := by simpa [eq_comm] using ho
        exact hh.addressed tx c (by simp [heffects, htx])
    | dropStream tx' =>
        cases hop
        have htx : tx = tx' := by simpa [eq_comm] using ho
        simp [ChannelWorker.senders, heffects, dropOn, htx]
    | signal | ready | dropDone => cases hop
  · intro tx c hop
    cases e with
    | send tx' c' =>
        cases hop
        exact hroom tx c rfl
    | dropStream | signal | ready | dropDone => cases hop

/-- A bridge call begins, unless it receives and waits for a task. -/
theorem call_enabled (hw : s.workers w = some h) (hstage : h.stage = .running)
    (hidle : h.effects = []) {c : Bridge.Step}
    (hreceives : c.receives = true → h.state.taskRx ≠ [] ∨ h.taskTx = false) :
    ∃ t, work s w (.call c) = some t := by
  have hguard : c.receives = true → h.state.taskRx.isEmpty = false ∨ h.taskTx = false := by
    simpa using hreceives
  have hact : (extensionRuntime serde).act h (.call c) = some (_, none) :=
    if_pos ⟨hstage, by simp [hidle], hguard⟩
  exact work_enabled hw hact (by simp) (by simp)

/-- A supervisor with a handle has not ended. -/
theorem live_of_handle {slot : Slot} (htidy : slot.Tidy) (hhandle : slot.handle = some w) :
    slot.phase.live = true := by
  unfold Slot.Tidy at htidy
  cases hphase : slot.phase with
  | exited | panicked =>
      rw [hphase] at htidy
      have hworker : slot.worker = none := htidy
      simp [Slot.handle, hphase, hworker] at hhandle
  | _ => rfl

/-- The invariants of a pool of worker threads. -/
structure Threading (cfg : WorkersConfig) (s : State (extensionRuntime serde)) : Prop where
  ticketed : Ticketed cfg s
  housed : Housed s
  staffed : Staffed Neat s
  held : Held s
  tended : Tended cfg s
  narrow : Narrow s
  heard : ∀ k, (s.request k).Heard

namespace Threading

theorem init (cfg : WorkersConfig) : Threading cfg (init (extensionRuntime serde) cfg) where
  ticketed := .init _ cfg
  housed := .init _ cfg
  staffed := .init cfg
  held _ _ hw := by cases hw
  tended _ _ hw := by cases hw
  narrow _ := Nat.zero_le _
  heard _ := ⟨⟨rfl, rfl⟩, rfl⟩

protected theorem step (hs : Threading cfg s) (move : Move serde cfg s a t) :
    Threading cfg t where
  ticketed := hs.ticketed.step move
  housed := hs.housed.step move
  staffed := Neat.step hs.staffed move
  held := hs.held.step hs.ticketed hs.staffed move
  tended := hs.tended.step hs.housed move
  narrow := hs.narrow.step hs.ticketed move
  heard k := (hs.heard k).step (fun _ _ hcall => Ticketed.sending_held hs.ticketed hcall)
    (step_request hs.ticketed move k)

/-- An operation that cannot be performed is a push on a full stream; its caller can read. -/
theorem stuck_perform (hs : Threading cfg s) (hw : s.workers w = some h) (hbusy : h.effects ≠ [])
    (hstuck : work s w .perform = none) :
    ∃ tx c rest t, h.effects = .send tx c :: rest ∧ (s.calls tx).Listening ∧
      (s.streams tx).buffer.length = 64 ∧ step serde cfg s (.receive tx) = some t ∧
      (work t w .perform).isSome = true := by
  have hh := hs.held w h hw
  obtain ⟨e, rest, heffects⟩ := List.exists_cons_of_ne_nil hbusy
  by_cases hroom : ∀ tx c, e = .send tx c →
      (s.streams tx).receiverOpen = false ∨ (s.streams tx).buffer.length < 64
  · obtain ⟨t, ht⟩ := perform_enabled hh hw heffects hroom
    cases hstuck.symm.trans ht
  · simp only [not_forall, not_or, Bool.not_eq_false, not_lt] at hroom
    obtain ⟨tx, c, rfl, hreceiver, hfull⟩ := hroom
    obtain ⟨howner, hopen⟩ := hh.held tx (hh.addressed tx c (by simp [heffects]))
    have hlistens : (s.calls tx).Listening :=
      listening_of_open (hs.heard tx) hs.ticketed (by simp [howner]) hreceiver
    have hlength : (s.streams tx).buffer.length = 64 := Nat.le_antisymm (hs.narrow tx) hfull
    obtain ⟨c', unread, hbuffer⟩ : ∃ c' unread, (s.streams tx).buffer = c' :: unread :=
      List.exists_cons_of_ne_nil (by rintro hnil; simp [hnil] at hlength)
    obtain ⟨t, ht, hworkers, hmade⟩ := receive_makes_room serde cfg hlistens hbuffer
    have hh' : Holding w t h := hh.kept hs.ticketed (step_move ht) (by simp) rfl rfl
    obtain ⟨u, hu⟩ := perform_enabled hh' (hworkers ▸ hw) heffects fun tx' c' hsend => by
      cases hsend
      refine hmade.imp_right fun hunread => ?_
      rw [hbuffer, List.length_cons] at hlength
      rw [hunread]
      omega
    exact ⟨tx, c, rest, t, heffects, hlistens, hlength, ht, by rw [hu]; rfl⟩

/-- A call that cannot begin is a receive without a task, and a supervisor has the handle. -/
theorem stuck_call (hs : Threading cfg s) (hw : s.workers w = some h) (hidle : h.effects = [])
    (hstage : h.stage = .running) {c : Bridge.Step} (hstuck : work s w (.call c) = none) :
    c.receives = true ∧ h.state.taskRx = [] ∧
      ∃ i < cfg.count, (s.slots i).handle = some w ∧ (s.slots i).phase.live = true := by
  have hreceives : ¬(c.receives = true → h.state.taskRx ≠ [] ∨ h.taskTx = false) := by
    intro hgoes
    obtain ⟨t, ht⟩ := call_enabled hw hstage hidle hgoes
    cases hstuck.symm.trans ht
  simp only [Classical.not_imp, not_or, ne_eq, not_not, Bool.not_eq_false] at hreceives
  obtain ⟨hreceive, hqueue, htx⟩ := hreceives
  obtain ⟨i, hi, hhandle⟩ := hs.tended w h hw htx
  exact ⟨hreceive, hqueue, i, hi, hhandle, live_of_handle (hs.housed.tidy i) hhandle⟩

end Threading

end FolkCore.Ext
