import FolkCore.Lib.RoundRobin
import FolkCore.Pool.Replies

/-!
# Round-robin dispatch

`pool_main` serves the slots in cyclic order and skips those whose inbox is closed.
It does not ask whether a slot has a worker. The invariant: a slot marked dead has
a closed inbox, the attempts already made met closed inboxes, and the deliveries to
the open slots are fair.
-/

namespace FolkCore.Pool

open Function Finset Lib

variable {R : Runtime} {serde : SerdeJson} {cfg : WorkersConfig} {s t : State R}

def Event.deliversTo (i : Nat) : Event → Bool
  | .delivered j _ => i == j
  | _ => false

/-- How many requests `pool_main` has delivered to a slot. -/
def State.deliveries (s : State R) (i : Nat) : Nat := s.history.countP (Event.deliversTo i)

/-- The inbox of a slot is open. -/
def State.Open (s : State R) (i : Nat) : Prop := (s.slots i).phase.live = true

structure Dispatched (cfg : WorkersConfig) (s : State R) : Prop where
  dead : ∀ i, s.dead i = true → ¬s.Open i
  skipped : ∀ req attempt, s.main = .forwarding req attempt →
    ∀ a < attempt, ¬s.Open ((s.next + a) % cfg.count)
  fair : Fair cfg.count s.next s.Open s.deliveries
  inbox : ∀ i, (s.slots i).inbox.length ≤ s.deliveries i

theorem Dispatched.init (R : Runtime) (cfg : WorkersConfig) : Dispatched cfg (init R cfg) where
  dead i h := by cases h
  skipped req attempt h := by cases h
  fair i hi j hj _ := Nat.zero_le _
  inbox i := Nat.le_refl 0

theorem deliveries_append {events : List Event} (ht : t.history = s.history ++ events)
    (h : ∀ e ∈ events, ∀ i, e.deliversTo i = false) : t.deliveries = s.deliveries := by
  funext i
  have hzero : events.countP (Event.deliversTo i) = 0 := by
    rw [List.countP_eq_zero]
    intro e he
    simp [h e he i]
  rw [State.deliveries, ht, List.countP_append, hzero, Nat.add_zero, State.deliveries]

/-- A step that closes no attempt: inboxes may close or shrink, `pool_main` stays or
returns to its receive. -/
theorem Dispatched.keep (h : Dispatched cfg s) (hnext : t.next = s.next)
    (hdead : t.dead = s.dead)
    (hmain : ∀ req attempt, t.main = .forwarding req attempt →
      s.main = .forwarding req attempt ∨ attempt = 0)
    (hopen : ∀ i, t.Open i → s.Open i)
    (hinbox : ∀ i, (t.slots i).inbox.length ≤ (s.slots i).inbox.length)
    (hdeliveries : t.deliveries = s.deliveries) : Dispatched cfg t where
  dead i hi hlive := h.dead i (hdead ▸ hi) (hopen i hlive)
  skipped req attempt ht a ha hlive := by
    rw [hnext] at hlive
    rcases hmain req attempt ht with hs | hzero
    · exact h.skipped req attempt hs a ha (hopen _ hlive)
    · omega
  fair := by
    rw [hnext, hdeliveries]
    exact h.fair.mono hopen
  inbox i := by
    rw [hdeliveries]
    exact (hinbox i).trans (h.inbox i)

/-- A step away from `pool_main` and the slots. -/
theorem Dispatched.aside (h : Dispatched cfg s) (hnext : t.next = s.next)
    (hdead : t.dead = s.dead)
    (hmain : ∀ req attempt, t.main = .forwarding req attempt →
      s.main = .forwarding req attempt ∨ attempt = 0)
    (hslots : t.slots = s.slots) (events : List Event)
    (hhistory : t.history = s.history ++ events)
    (hevents : ∀ e ∈ events, ∀ i, e.deliversTo i = false) : Dispatched cfg t := by
  apply h.keep hnext hdead hmain
  · intro i hlive
    rwa [State.Open, hslots] at hlive
  · intro i
    rw [hslots]
  · exact deliveries_append hhistory hevents

section Supervisors

variable {i : Nat} {v : View R} {slot slot' : Slot} {a : SupervisorAction R}
  {commands : List (Command R)}

/-- A supervisor that has ended makes no step. -/
theorem Slot.Move.live (move : Slot.Move cfg i v slot a slot' commands) :
    slot.phase.live = true := by
  cases move with
  | boot hphase | listen hphase | spawned hphase | spawnFailed hphase | spawnPanicked hphase
  | booted hphase | bootFailed hphase | bootPanicked hphase | wake hphase | reloaded hphase
  | caughtUp hphase | noReload hphase | reloadClosed hphase | took hphase | inboxEmpty hphase
  | unreachable hphase | inboxClosed hphase | execute hphase | settled hphase
  | executePanicked hphase | recycled hphase | kept hphase | bootAbandoned hphase
  | replaced hphase | exited hphase | terminatePanicked hphase =>
      rw [hphase]
      rfl

theorem Slot.Move.inbox_le (move : Slot.Move cfg i v slot a slot' commands) :
    slot'.inbox.length ≤ slot.inbox.length := by
  cases move with
  | took _ _ _ hinbox => simp [hinbox]
  | _ => simp

theorem Slot.Move.no_delivery (move : Slot.Move cfg i v slot a slot' commands) {e : Event}
    (he : e ∈ commands.filterMap Command.noted) (j : Nat) : e.deliversTo j = false := by
  cases move with
  | spawned | bootFailed | reloaded | reloadClosed | inboxClosed | recycled | took | execute
  | settled =>
      simp only [List.filterMap_cons, Command.noted, List.filterMap_nil,
        List.mem_singleton] at he
      subst he
      rfl
  | _ => simp [Command.noted] at he

end Supervisors

theorem Dispatched.supervised (h : Dispatched cfg s) {i : Nat} {a : SupervisorAction R}
    {r : Slot × List (Command R)} (move : Slot.Move cfg i s.view (s.slots i) a r.1 r.2) :
    Dispatched cfg (s.supervise i r) := by
  apply h.keep (s.supervise_next i r) (s.supervise_dead i r)
  · intro req attempt hmain
    rw [s.supervise_main] at hmain
    exact .inl hmain
  · intro j hlive
    by_cases hj : j = i
    · subst hj
      exact move.live
    · rwa [State.Open, s.supervise_slots, update_of_ne hj] at hlive
  · intro j
    rw [s.supervise_slots]
    by_cases hj : j = i
    · subst hj
      rw [update_self]
      exact move.inbox_le
    · rw [update_of_ne hj]
  · exact deliveries_append (s.supervise_history i r) fun e he j => move.no_delivery he j

section Main

variable {req : DispatchRequest} {attempt : Nat}

/-- An attempt that met a closed inbox. -/
theorem Dispatched.passedOver (h : Dispatched cfg s)
    (hmain : s.main = .forwarding req attempt)
    (hclosed : ¬s.Open ((s.next + attempt) % cfg.count)) {dead : Nat → Bool}
    (hdead : ∀ i, dead i = true → ¬s.Open i) :
    Dispatched cfg { s with main := .forwarding req (attempt + 1), dead := dead } where
  dead := hdead
  skipped req' attempt' hmain' a ha := by
    cases hmain'
    rcases Nat.lt_succ_iff_lt_or_eq.mp ha with hlt | rfl
    · exact h.skipped req attempt hmain a hlt
    · exact hclosed
  fair := h.fair
  inbox := h.inbox

theorem Dispatched.delivered (h : Dispatched cfg s)
    (hmain : s.main = .forwarding req attempt) (hattempt : attempt < cfg.count) :
    Dispatched cfg (deliver s ((s.next + attempt) % cfg.count) req) := by
  have hopen (i : Nat) :
      (deliver s ((s.next + attempt) % cfg.count) req).Open i ↔ s.Open i := by
    by_cases hi : i = (s.next + attempt) % cfg.count
    · simp [State.Open, hi]
    · simp [State.Open, hi]
  have hdeliveries : (deliver s ((s.next + attempt) % cfg.count) req).deliveries =
      update s.deliveries ((s.next + attempt) % cfg.count)
        (s.deliveries ((s.next + attempt) % cfg.count) + 1) := by
    funext i
    by_cases hi : i = (s.next + attempt) % cfg.count
    · simp [State.deliveries, Event.deliversTo, hi]
    · simp [State.deliveries, Event.deliversTo, hi]
  have hturn : ∀ j < cfg.count, s.Open j → attempt ≤ turn cfg.count s.next j := by
    intro j hj hlive
    by_contra hlt
    have hskip := h.skipped req attempt hmain _ (Nat.lt_of_not_le hlt)
    rw [add_turn_mod hj] at hskip
    exact hskip hlive
  constructor
  · intro i hi
    rw [hopen]
    exact h.dead i hi
  · intro req' attempt' hmain'
    cases hmain'
  · rw [hdeliveries]
    exact (h.fair.serve hattempt hturn).mono fun i hi => (hopen i).mp hi
  · intro i
    have hle := h.inbox i
    rw [hdeliveries]
    by_cases hi : i = (s.next + attempt) % cfg.count
    · subst hi
      simpa using hle
    · simpa [hi] using hle

theorem Dispatched.step (h : Dispatched cfg s) {a : Action R} (move : Move serde cfg s a t) :
    Dispatched cfg t := by
  cases move with
  | refused _ | poolGone _ _ | judged _ _ _ | exhausted _ _ _ =>
      exact h.aside rfl rfl (fun _ _ hmain => .inl hmain) rfl _ rfl (by simp [Event.deliversTo])
  | opened _ _ _ _ _ | submitted _ _ | collected _ _ _ | streamed _ _ | withdrawn _
  | cancelled _ | reloaded _ | poolDropped _ _ | ticked | worked _ _ | pushLost _ _ _ _ _
  | closed _ _ _ _ =>
      exact h.aside rfl rfl (fun _ _ hmain => .inl hmain) rfl [] (by simp) (by simp)
  | pushed _ _ _ _ _ _ =>
      exact h.aside rfl rfl (fun _ _ hmain => .inl hmain) rfl _ rfl (by simp [Event.deliversTo])
  | mainTook _ _ =>
      refine h.aside rfl rfl ?_ rfl [] (by simp) (by simp)
      intro req attempt hmain
      cases hmain
      exact .inr rfl
  | mainLeft _ _ _ | abandoned _ _ | joined _ _ =>
      exact h.aside rfl rfl (by simp) rfl [] (by simp) (by simp)
  | skipped hmain _ hdead => exact h.passedOver hmain (h.dead _ hdead) h.dead
  | @buried req attempt hmain _ _ hlive =>
      have hclosed : ¬s.Open ((s.next + attempt) % cfg.count) := by
        rw [State.Open, hlive]
        exact Bool.false_ne_true
      apply h.passedOver hmain hclosed
      intro i hi
      by_cases heq : i = (s.next + attempt) % cfg.count
      · exact heq ▸ hclosed
      · rw [update_of_ne heq] at hi
        exact h.dead i hi
  | delivered hmain hattempt _ _ _ => exact h.delivered hmain hattempt
  | supervised _ _ move => exact h.supervised move

theorem dispatched_of_reachable (h : Reachable (Pool.step serde cfg) (Pool.init R cfg) s) :
    Dispatched cfg s :=
  h.invariant (Dispatched cfg) (Dispatched.init R cfg) fun _ _ _ hs _ hstep =>
    hs.step (step_move hstep)

end Main

/-- The supervisor runs and has no worker: it boots one, or retries a failed boot. -/
def Slot.workerless (slot : Slot) : Bool := slot.phase.live && slot.worker.isNone

/-- The supervisor waits in its `select!` with a worker and an empty inbox. -/
def Slot.readyIdle (slot : Slot) : Bool :=
  (match slot.phase with
    | .select _ => true
    | .selectInbox _ => true
    | _ => false) && slot.worker.isSome && slot.inbox.isEmpty

/-- The slots without a worker. -/
def State.workerless (cfg : WorkersConfig) (s : State R) : Finset Nat :=
  (range cfg.count).filter fun i => (s.slots i).workerless = true

/-- How many requests, each with its permit, sit in the inboxes of such slots. -/
def State.captured (cfg : WorkersConfig) (s : State R) : Nat :=
  ∑ i ∈ s.workerless cfg, (s.slots i).inbox.length

theorem readyIdle_open {j : Nat} (h : (s.slots j).readyIdle = true) : s.Open j := by
  unfold State.Open
  cases hphase : (s.slots j).phase with
  | select recyclable => rfl
  | selectInbox recyclable => rfl
  | _ => simp [Slot.readyIdle, hphase] at h

theorem readyIdle_not_workerless {j : Nat} (h : (s.slots j).readyIdle = true) :
    j ∉ s.workerless cfg := by
  intro hmem
  have hnone := (mem_filter.mp hmem).2
  cases hworker : (s.slots j).worker with
  | none => simp [Slot.readyIdle, hworker] at h
  | some w => simp [Slot.workerless, hworker] at hnone

/-- A slot is at most one delivery ahead of any slot with an open inbox. The permits can
all end up with slots that have no worker, but only in as many rounds as a ready slot
was served in: never before it was served once. -/
theorem capture_needs_rounds (R : Runtime) (serde : SerdeJson) (cfg : WorkersConfig)
    (s : State R) (h : Reachable (step serde cfg) (init R cfg) s) :
    (∀ i < cfg.count, ∀ j < cfg.count, s.Open j → s.deliveries i ≤ s.deliveries j + 1) ∧
    ∀ j < cfg.count, (s.slots j).readyIdle = true → s.captured cfg = cfg.count →
      cfg.count ≤ (s.workerless cfg).card * (s.deliveries j + 1) ∧ 1 ≤ s.deliveries j := by
  have hs := dispatched_of_reachable h
  refine ⟨fun i hi j hj hlive => hs.fair.le_succ hi hj hlive, ?_⟩
  intro j hj hready hcaptured
  have hlive := readyIdle_open hready
  have hbound : cfg.count ≤ (s.workerless cfg).card * (s.deliveries j + 1) := by
    calc cfg.count = ∑ i ∈ s.workerless cfg, (s.slots i).inbox.length := hcaptured.symm
      _ ≤ ∑ _i ∈ s.workerless cfg, (s.deliveries j + 1) := by
          apply sum_le_sum
          intro i hi
          have hi' : i < cfg.count := mem_range.mp (mem_filter.mp hi).1
          calc (s.slots i).inbox.length ≤ s.deliveries i := hs.inbox i
            _ ≤ s.deliveries j + 1 := hs.fair.le_succ hi' hj hlive
      _ = (s.workerless cfg).card * (s.deliveries j + 1) := sum_const_nat fun _ _ => rfl
  refine ⟨hbound, ?_⟩
  by_contra hzero
  -- fewer slots than permits have no worker, since slot `j` has one
  have hcard : (s.workerless cfg).card < cfg.count := by
    calc (s.workerless cfg).card < (range cfg.count).card := by
          apply card_lt_card
          refine ⟨filter_subset _ _, ?_⟩
          intro hsub
          exact readyIdle_not_workerless hready (hsub (mem_range.mpr hj))
      _ = cfg.count := card_range _
  have hnone : s.deliveries j = 0 := by omega
  rw [hnone] at hbound
  omega

/-- Slot 0 fails to boot and slot 1 boots. Of three calls the first and the third go to
slot 0; the second is answered by slot 1. -/
def captureRun : List (Action .replying) :=
  [.supervise 0 .enterLoop, .supervise 0 .spawnFailed, .supervise 1 .enterLoop,
    .supervise 1 (.spawned []), .supervise 1 .pollReady,
    .invoke (.executeValue "dispatch" .null), .submit 0, .mainRecv, .mainForward,
    .invoke (.executeValue "dispatch" .null), .submit 1, .mainRecv, .mainForward,
    .supervise 1 .pollReload, .supervise 1 .pollInbox, .supervise 1 .execute,
    .work 0 (), .work 0 (), .work 0 (), .supervise 1 .pollExecute, .supervise 1 .recycle,
    .supervise 1 .enterLoop, .invoke (.executeValue "dispatch" .null), .submit 2, .mainRecv,
    .mainForward]

theorem captureRun_captures : (runs (step .ofNull .pair) (init .replying .pair) captureRun).any
    (fun s => decide (s.captured .pair = WorkersConfig.pair.count) &&
      (s.slots 1).readyIdle) = true := by decide

/-- A slot that never boots holds all permits while the other slot waits for work. -/
theorem unbooted_slot_captures_pool :
    ∃ s, Reachable (step .ofNull .pair) (init .replying .pair) s ∧
      s.captured .pair = WorkersConfig.pair.count ∧ (s.slots 1).readyIdle = true := by
  obtain ⟨s, hs, htest⟩ := exists_reachable captureRun_captures
  rw [Bool.and_eq_true, decide_eq_true_eq] at htest
  exact ⟨s, hs, htest⟩

/-- In that state the waiting slot was served before. -/
theorem captured_pool_served_before :
    ∃ s, Reachable (step .ofNull .pair) (init .replying .pair) s ∧
      s.captured .pair = WorkersConfig.pair.count ∧ 1 ≤ s.deliveries 1 := by
  obtain ⟨s, hs, htest⟩ := exists_reachable captureRun_captures
  rw [Bool.and_eq_true, decide_eq_true_eq] at htest
  have hserved := (capture_needs_rounds .replying .ofNull .pair s hs).2 1 (by decide) htest.2
    htest.1
  exact ⟨s, hs, htest.1, hserved.2⟩

end FolkCore.Pool
