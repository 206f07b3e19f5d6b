import FolkCore.Pool.Dispatch
import FolkCore.Pool.MainLoop

/-!
# The pool runs the dispatch loop

`pool_main` inside the pool is the dispatch loop of its own: every step of the pool
is a few steps of the loop, or none. So what the loop does in every surrounding it
does in the pool, whose supervisors are the ones that read and close the inboxes.
-/

namespace FolkCore.Pool

open Function Lib

variable {R : Runtime} {serde : SerdeJson} {cfg : WorkersConfig} {s t : State R}
  {m : MainLoop.State DispatchRequest}

def MainPhase.stage : MainPhase → MainLoop.Stage DispatchRequest
  | .receiving => .receiving
  | .forwarding req attempt => .attempting attempt (some req)
  | .awaiting => .left
  | .exited => .left

/-- A delivery of the pool, as its slot and its stream. -/
def Event.delivery? : Event → Option (Nat × StreamTx)
  | .delivered i tx => some (i, tx)
  | _ => none

def MainLoop.Event.delivery? : MainLoop.Event DispatchRequest → Option (Nat × StreamTx)
  | .delivered i req => some (i, req.streamTx)
  | _ => none

/-- The loop's state is that of `pool_main` and of the inboxes of the pool. -/
structure Shows (s : State R) (m : MainLoop.State DispatchRequest) : Prop where
  next : m.next = s.next
  dead : m.dead = s.dead
  inboxOpen : ∀ i, m.inboxOpen i = (s.slots i).phase.live
  inbox : ∀ i, m.inbox i = (s.slots i).inbox
  stage : m.stage = s.main.stage
  deliveries : m.history.filterMap MainLoop.Event.delivery? =
    s.history.filterMap Event.delivery?

theorem Shows.init (R : Runtime) (cfg : WorkersConfig) :
    Shows (init R cfg) MainLoop.init where
  next := rfl
  dead := rfl
  inboxOpen _ := rfl
  inbox _ := rfl
  stage := rfl
  deliveries := rfl

/-- What a supervisor's step does to its inbox: nothing, a request taken, or the end. -/
theorem Slot.Move.inbox_cases {i : Nat} {v : View R} {slot slot' : Slot}
    {a : SupervisorAction R} {commands : List (Command R)}
    (move : Slot.Move cfg i v slot a slot' commands) :
    (slot'.phase.live = true ∧ slot'.inbox = slot.inbox) ∨
    (slot'.phase.live = true ∧ ∃ req, slot.inbox = req :: slot'.inbox) ∨
    (slot'.phase.live = false ∧ slot'.inbox = []) := by
  cases move with
  | took _ _ _ hinbox => exact .inr (.inl ⟨rfl, _, hinbox⟩)
  | spawnPanicked | bootPanicked | unreachable | executePanicked | exited
  | terminatePanicked =>
      exact .inr (.inr ⟨rfl, rfl⟩)
  | boot | listen | spawned | spawnFailed | booted | bootFailed | wake | reloaded | caughtUp
  | noReload | reloadClosed | inboxEmpty | inboxClosed | execute | settled | recycled | kept
  | bootAbandoned | replaced => exact .inl ⟨rfl, rfl⟩

/-- A step of the pool that the loop does not see. -/
theorem Shows.aside (h : Shows s m) (hnext : t.next = s.next) (hdead : t.dead = s.dead)
    (hlive : ∀ i, (t.slots i).phase.live = (s.slots i).phase.live)
    (hinbox : ∀ i, (t.slots i).inbox = (s.slots i).inbox)
    (hmain : t.main.stage = s.main.stage) (events : List Event)
    (hhistory : t.history = s.history ++ events)
    (hevents : events.filterMap Event.delivery? = []) : Shows t m where
  next := by rw [hnext, h.next]
  dead := by rw [hdead, h.dead]
  inboxOpen i := by rw [hlive, h.inboxOpen]
  inbox i := by rw [hinbox, h.inbox]
  stage := by rw [hmain, h.stage]
  deliveries := by rw [hhistory, List.filterMap_append, hevents, List.append_nil, h.deliveries]

/-- The loop follows to a state that shows the pool's. -/
def Follows (cfg : WorkersConfig) (m : MainLoop.State DispatchRequest) (t : State R) : Prop :=
  ∃ m', Reachable (MainLoop.step cfg.count) m m' ∧ Shows t m'

theorem follows_still (h : Shows t m) : Follows cfg m t := ⟨m, .start, h⟩

theorem follows_move {m' : MainLoop.State DispatchRequest}
    {a : MainLoop.Action DispatchRequest} (move : MainLoop.Move cfg.count m a m')
    (h : Follows cfg m' t) : Follows cfg m t := by
  obtain ⟨m'', hreach, hshows⟩ := h
  exact ⟨m'', ReachableVia.trans (.next .start trivial (MainLoop.step_of_move move)) hreach,
    hshows⟩

/-- A step on the inbox of slot `i` alone shows what its supervisor does. -/
theorem Shows.at_slot (h : Shows s m) {i : Nat} {r : Slot × List (Command R)}
    {m' : MainLoop.State DispatchRequest} (hnext : m'.next = m.next) (hdead : m'.dead = m.dead)
    (hstage : m'.stage = m.stage)
    (hopen : m'.inboxOpen = update m.inboxOpen i r.1.phase.live)
    (hinbox : m'.inbox = update m.inbox i r.1.inbox)
    (hdeliveries : m'.history.filterMap MainLoop.Event.delivery? =
      (s.supervise i r).history.filterMap Event.delivery?) : Shows (s.supervise i r) m' where
  next := by simp [hnext, h.next]
  dead := by simp [hdead, h.dead]
  inboxOpen j := by
    rw [hopen, s.supervise_slots]
    by_cases hj : j = i
    · rw [hj, update_self, update_self]
    · rw [update_of_ne hj, update_of_ne hj, h.inboxOpen]
  inbox j := by
    rw [hinbox, s.supervise_slots]
    by_cases hj : j = i
    · rw [hj, update_self, update_self]
    · rw [update_of_ne hj, update_of_ne hj, h.inbox]
  stage := by simp [hstage, h.stage]
  deliveries := hdeliveries

/-- A supervisor reads or closes its own inbox. -/
theorem Shows.supervised (h : Shows s m) {i : Nat} {a : SupervisorAction R}
    {r : Slot × List (Command R)} (move : Slot.Move cfg i s.view (s.slots i) a r.1 r.2) :
    Follows cfg m (s.supervise i r) := by
  have hquiet : (r.2.filterMap Command.noted).filterMap Event.delivery? = [] := by
    rw [List.filterMap_eq_nil_iff]
    intro e he
    have hnone := move.no_delivery he
    cases e with
    | delivered j tx => simpa [Event.deliversTo] using hnone j
    | _ => rfl
  have hdeliveries : m.history.filterMap MainLoop.Event.delivery? =
      (s.supervise i r).history.filterMap Event.delivery? := by
    rw [s.supervise_history, List.filterMap_append, hquiet, List.append_nil, h.deliveries]
  have hopen : m.inboxOpen i = true := (h.inboxOpen i).trans move.live
  rcases move.inbox_cases with ⟨hlive, hinbox⟩ | ⟨hlive, req, hinbox⟩ | ⟨hclosed, hempty⟩
  · refine follows_still (h.at_slot rfl rfl rfl ?_ ?_ hdeliveries)
    · rw [hlive, eq_update_self_iff, hopen]
    · rw [hinbox, eq_update_self_iff, h.inbox]
  · refine follows_move (.taken ((h.inbox i).trans hinbox))
      (follows_still (h.at_slot rfl rfl rfl ?_ rfl hdeliveries))
    rw [hlive, eq_update_self_iff, hopen]
  · refine follows_move (.closed hopen) (follows_still (h.at_slot rfl rfl rfl ?_ ?_ ?_))
    · rw [hclosed]
    · rw [hempty]
    · simpa [List.filterMap_cons, MainLoop.Event.delivery?] using hdeliveries

/-- An attempt of the pool is a look at the dead vector and, if need be, a send. -/
theorem Shows.step (h : Shows s m) {a : Action R} (move : Move serde cfg s a t) :
    Follows cfg m t := by
  have hstage := h.stage
  cases move with
  | refused _ | poolGone _ _ | judged _ _ _ | exhausted _ _ _ | pushed _ _ _ _ _ _ =>
      exact follows_still (h.aside rfl rfl (fun _ => rfl) (fun _ => rfl) rfl _ rfl rfl)
  | opened _ _ _ _ _ | submitted _ _ | collected _ _ _ | streamed _ _ | withdrawn _
  | cancelled _ | reloaded _ | poolDropped _ _ | ticked | worked _ _ | pushLost _ _ _ _ _
  | closed _ _ _ _ =>
      exact follows_still (h.aside rfl rfl (fun _ => rfl) (fun _ => rfl) rfl [] (by simp) rfl)
  | @mainTook req rest hmain _ =>
      rw [hmain] at hstage
      refine follows_move (.received (r := req) hstage) (follows_still ?_)
      exact ⟨h.next, h.dead, h.inboxOpen, h.inbox, rfl, by
        simpa [List.filterMap_cons, MainLoop.Event.delivery?] using h.deliveries⟩
  | mainLeft hmain _ _ =>
      rw [hmain] at hstage
      refine follows_move (.requestsClosed hstage) (follows_still ?_)
      exact ⟨h.next, h.dead, h.inboxOpen, h.inbox, rfl, h.deliveries⟩
  | joined hmain _ =>
      refine follows_still (h.aside rfl rfl (fun _ => rfl) (fun _ => rfl) ?_ [] (by simp) rfl)
      rw [hmain]
      rfl
  | @skipped req attempt hmain hattempt hskip =>
      rw [hmain] at hstage
      rw [← h.next, ← h.dead] at hskip
      refine follows_move (.skipped hstage hattempt hskip) (follows_still ?_)
      exact ⟨h.next, h.dead, h.inboxOpen, h.inbox, rfl, h.deliveries⟩
  | @buried req attempt hmain hattempt hfresh hlive =>
      rw [hmain] at hstage
      rw [← h.next, ← h.dead] at hfresh
      rw [← h.next, ← h.inboxOpen] at hlive
      refine follows_move (.tried hstage hattempt hfresh)
        (follows_move (.marked rfl hlive) (follows_still ?_))
      exact ⟨h.next, by simp [h.next, h.dead], h.inboxOpen, h.inbox, rfl, by
        simpa [List.filterMap_cons, MainLoop.Event.delivery?] using h.deliveries⟩
  | @delivered req attempt hmain hattempt hfresh hlive hroom =>
      rw [hmain] at hstage
      rw [← h.next, ← h.dead] at hfresh
      rw [← h.next, ← h.inboxOpen] at hlive
      rw [← h.next, ← h.inbox] at hroom
      refine follows_move (.tried hstage hattempt hfresh)
        (follows_move (.delivered rfl hlive hroom)
          (follows_move (.restarted rfl) (follows_still ?_)))
      refine ⟨by simp [h.next], h.dead, ?_, ?_, rfl, ?_⟩
      · intro i
        by_cases hi : i = (s.next + attempt) % cfg.count
        · simp [hi, h.inboxOpen]
        · simp [hi, h.inboxOpen]
      · intro i
        by_cases hi : i = (s.next + attempt) % cfg.count
        · simp [hi, h.next, h.inbox]
        · simp [hi, h.next, h.inbox]
      · simp [List.filterMap_cons, MainLoop.Event.delivery?, Event.delivery?, h.deliveries,
          h.next]
  | abandoned hmain hattempt =>
      rw [hmain] at hstage
      refine follows_move (.exhausted hstage hattempt)
        (follows_move (.dropped rfl) (follows_still ?_))
      exact ⟨h.next, h.dead, h.inboxOpen, h.inbox, rfl, by
        simpa [List.filterMap_cons, MainLoop.Event.delivery?] using h.deliveries⟩
  | supervised _ _ move => exact h.supervised move

/-- Every state of the pool shows a state of the dispatch loop. -/
theorem shown_of_reachable (h : Reachable (Pool.step serde cfg) (Pool.init R cfg) s) :
    ∃ m, Reachable (MainLoop.step cfg.count) MainLoop.init m ∧ Shows s m := by
  apply h.invariant (fun s => ∃ m, Reachable (MainLoop.step cfg.count) MainLoop.init m ∧ Shows s m)
  · exact ⟨_, .start, .init R cfg⟩
  · rintro s a t ⟨m, hreach, hshows⟩ _ hstep
    obtain ⟨m', hreach', hshows'⟩ := hshows.step (step_move hstep)
    exact ⟨m', hreach.trans hreach', hshows'⟩

section Services

variable {history : List (MainLoop.Event DispatchRequest)}

theorem countP_delivery (history : List (MainLoop.Event DispatchRequest)) (j : Nat) :
    (history.filterMap MainLoop.Event.delivery?).countP (fun d => d.1 == j) =
      MainLoop.deliveries history j := by
  induction history with
  | nil => rfl
  | cons e rest ih =>
      rw [MainLoop.deliveries] at ih ⊢
      cases e with
      | delivered i req =>
          simp only [List.filterMap_cons, MainLoop.Event.delivery?, MainLoop.Event.served?,
            List.countP_cons, ih]
          simp
      | _ => simpa [List.filterMap_cons, MainLoop.Event.delivery?, MainLoop.Event.served?] using ih

/-- A record splits at each of its deliveries. -/
theorem split_of_delivery {first rest : List (Nat × StreamTx)} {i : Nat} {tx : StreamTx}
    (h : history.filterMap MainLoop.Event.delivery? = first ++ (i, tx) :: rest) :
    ∃ before req after, history = before ++ .delivered i req :: after ∧
      before.filterMap MainLoop.Event.delivery? = first ∧
      after.filterMap MainLoop.Event.delivery? = rest := by
  obtain ⟨l, after', rfl, hl, hafter'⟩ := List.filterMap_eq_append_iff.mp h
  obtain ⟨quiet, e, after, rfl, hquiet, he, hafter⟩ := List.filterMap_eq_cons_iff.mp hafter'
  cases e with
  | delivered j req =>
      cases he
      refine ⟨l ++ quiet, req, after, by simp, ?_, hafter⟩
      rw [List.filterMap_append, hl, List.filterMap_eq_nil_iff.mpr hquiet, List.append_nil]
  | _ => cases he

/-- In the pool, too, a slot whose inbox is still open was served once between any two
consecutive deliveries to another slot. -/
theorem served_between (h : Reachable (Pool.step serde cfg) (Pool.init R cfg) s)
    {first second third : List (Nat × StreamTx)} {i : Nat} {tx tx' : StreamTx}
    (hsplit : s.history.filterMap Event.delivery? =
      first ++ (i, tx) :: (second ++ (i, tx') :: third))
    (hnone : second.countP (fun d => d.1 == i) = 0) {j : Nat} (hj : j < cfg.count)
    (hne : j ≠ i) (hopen : s.Open j) : second.countP (fun d => d.1 == j) = 1 := by
  obtain ⟨m, hreach, hshows⟩ := shown_of_reachable h
  have hm := MainLoop.inv_of_reachable hreach
  rw [← hshows.deliveries] at hsplit
  obtain ⟨before, req, after, hhistory, _, hafter⟩ := split_of_delivery hsplit
  obtain ⟨between, req', final, rfl, hbetween, _⟩ := split_of_delivery hafter
  have hlive : .closed j ∉ m.history := by
    rw [← hm.marks.opened, hshows.inboxOpen]
    exact hopen
  rw [← hbetween, countP_delivery] at hnone ⊢
  rw [hhistory] at hlive
  have hserves := hm.serves
  rw [hhistory] at hserves
  apply hserves.fair hnone hj hne
  intro hmem
  apply hlive
  rcases List.mem_append.mp hmem with hmem | hmem
  · exact List.mem_append_left _ hmem
  · simp [hmem]

end Services

end FolkCore.Pool
