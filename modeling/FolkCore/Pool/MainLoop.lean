import FolkCore.Lib.RoundRobin
import FolkCore.Lib.Transition
import Mathlib.Algebra.Group.Nat.Defs
import Mathlib.Data.List.Count

/-!
# The dispatch loop by itself

The loop of `pool_main` over its request receiver, in the order of its statements,
with the request carried by hand in `req`. The rest of the pool is left open: any
request may come at any time, an inbox may be read or close at any time. Next to the
state stands what happened so far.
-/

namespace FolkCore.Pool.MainLoop

open Function Lib

variable {ρ : Type*}

/-- Where the loop stands: at its `recv`, at the top of the loop over the attempts, in
the `send` of an attempt, or behind that loop. In a `send` the request is out of `req`. -/
inductive Stage (ρ : Type*) where
  | receiving
  | attempting (attempt : Nat) (req : Option ρ)
  | sending (attempt : Nat) (r : ρ)
  | finished (req : Option ρ)
  | panicked
  | left

inductive Event (ρ : Type*) where
  | received (r : ρ)
  | closed (i : Nat)
  | tried (i : Nat)
  | marked (i : Nat)
  | delivered (i : Nat) (r : ρ)
  | dropped (r : ρ)

structure State (ρ : Type*) where
  next : Nat
  dead : Nat → Bool
  inboxOpen : Nat → Bool
  inbox : Nat → List ρ
  stage : Stage ρ
  history : List (Event ρ)

def init : State ρ :=
  { next := 0, dead := fun _ => false, inboxOpen := fun _ => true, inbox := fun _ => []
    stage := .receiving, history := [] }

/-- The loop makes a statement's step; the others are done to it. -/
inductive Action (ρ : Type*) where
  | recv (r : ρ)
  | requestsClosed
  | advance
  | close (i : Nat)
  | take (i : Nat)

/-- The loop's own steps over `n` slots. `sent` is not kept: it only decides whether an
error is logged. The sum of the cursor does not wrap, by `cursor_fits`. -/
def advance (n : Nat) (s : State ρ) : Option (State ρ) :=
  match s.stage with
  | .attempting attempt req =>
      if attempt < n then
        let chosen := (s.next + attempt) % n
        if s.dead chosen then some { s with stage := .attempting (attempt + 1) req }
        else
          -- `req.take().expect(..)`
          match req with
          | none => some { s with stage := .panicked }
          | some r =>
              some { s with
                stage := .sending attempt r
                history := s.history ++ [.tried chosen] }
      else some { s with stage := .finished req }
  | .sending attempt r =>
      let chosen := (s.next + attempt) % n
      if s.inboxOpen chosen then
        if (s.inbox chosen).length < 8 then
          some { s with
            next := chosen + 1
            inbox := update s.inbox chosen (s.inbox chosen ++ [r])
            stage := .finished none
            history := s.history ++ [.delivered chosen r] }
        else none
      else
        some { s with
          dead := update s.dead chosen true
          stage := .attempting (attempt + 1) (some r)
          history := s.history ++ [.marked chosen] }
  | .finished none => some { s with stage := .receiving }
  | .finished (some r) =>
      some { s with stage := .receiving, history := s.history ++ [.dropped r] }
  | _ => none

def step (n : Nat) (s : State ρ) : Action ρ → Option (State ρ)
  | .recv r =>
      match s.stage with
      | .receiving =>
          some { s with
            stage := .attempting 0 (some r), history := s.history ++ [.received r] }
      | _ => none
  | .requestsClosed =>
      match s.stage with
      | .receiving => some { s with stage := .left }
      | _ => none
  | .advance => advance n s
  | .close i =>
      if s.inboxOpen i then
        some { s with
          inboxOpen := update s.inboxOpen i false
          inbox := update s.inbox i []
          history := s.history ++ [.closed i] }
      else none
  | .take i =>
      match s.inbox i with
      | _ :: rest => some { s with inbox := update s.inbox i rest }
      | [] => none

/-- The transitions of the loop and of its surroundings, with their guards. -/
inductive Move (n : Nat) (s : State ρ) : Action ρ → State ρ → Prop
  | received {r : ρ} (hstage : s.stage = .receiving) :
      Move n s (.recv r)
        { s with stage := .attempting 0 (some r), history := s.history ++ [.received r] }
  | requestsClosed (hstage : s.stage = .receiving) :
      Move n s .requestsClosed { s with stage := .left }
  | skipped {attempt : Nat} {req : Option ρ} (hstage : s.stage = .attempting attempt req)
      (hattempt : attempt < n) (hdead : s.dead ((s.next + attempt) % n) = true) :
      Move n s .advance { s with stage := .attempting (attempt + 1) req }
  | emptyHanded {attempt : Nat} (hstage : s.stage = .attempting attempt none)
      (hattempt : attempt < n) (hdead : s.dead ((s.next + attempt) % n) = false) :
      Move n s .advance { s with stage := .panicked }
  | tried {attempt : Nat} {r : ρ} (hstage : s.stage = .attempting attempt (some r))
      (hattempt : attempt < n) (hdead : s.dead ((s.next + attempt) % n) = false) :
      Move n s .advance
        { s with
          stage := .sending attempt r
          history := s.history ++ [.tried ((s.next + attempt) % n)] }
  | exhausted {attempt : Nat} {req : Option ρ} (hstage : s.stage = .attempting attempt req)
      (hattempt : n ≤ attempt) : Move n s .advance { s with stage := .finished req }
  | delivered {attempt : Nat} {r : ρ} (hstage : s.stage = .sending attempt r)
      (hopen : s.inboxOpen ((s.next + attempt) % n) = true)
      (hroom : (s.inbox ((s.next + attempt) % n)).length < 8) :
      Move n s .advance
        { s with
          next := (s.next + attempt) % n + 1
          inbox := update s.inbox ((s.next + attempt) % n)
            (s.inbox ((s.next + attempt) % n) ++ [r])
          stage := .finished none
          history := s.history ++ [.delivered ((s.next + attempt) % n) r] }
  | marked {attempt : Nat} {r : ρ} (hstage : s.stage = .sending attempt r)
      (hclosed : s.inboxOpen ((s.next + attempt) % n) = false) :
      Move n s .advance
        { s with
          dead := update s.dead ((s.next + attempt) % n) true
          stage := .attempting (attempt + 1) (some r)
          history := s.history ++ [.marked ((s.next + attempt) % n)] }
  | restarted (hstage : s.stage = .finished none) :
      Move n s .advance { s with stage := .receiving }
  | dropped {r : ρ} (hstage : s.stage = .finished (some r)) :
      Move n s .advance { s with stage := .receiving, history := s.history ++ [.dropped r] }
  | closed {i : Nat} (hopen : s.inboxOpen i = true) :
      Move n s (.close i)
        { s with
          inboxOpen := update s.inboxOpen i false
          inbox := update s.inbox i []
          history := s.history ++ [.closed i] }
  | taken {i : Nat} {r : ρ} {rest : List ρ} (hinbox : s.inbox i = r :: rest) :
      Move n s (.take i) { s with inbox := update s.inbox i rest }

variable {n : Nat} {s t : State ρ}

theorem move_of_advance (h : advance n s = some t) : Move n s .advance t := by
  unfold advance at h
  split at h
  · next attempt req hstage =>
      split at h
      · next hattempt =>
          simp only at h
          split at h
          · next hdead =>
              cases h
              exact .skipped hstage hattempt hdead
          · next hdead =>
              rw [Bool.not_eq_true] at hdead
              cases req with
              | none =>
                  cases h
                  exact .emptyHanded hstage hattempt hdead
              | some r =>
                  cases h
                  exact .tried hstage hattempt hdead
      · next hattempt =>
          cases h
          exact .exhausted hstage (Nat.le_of_not_lt hattempt)
  · next attempt r hstage =>
      simp only at h
      split at h
      · next hopen =>
          split at h
          · next hroom =>
              cases h
              exact .delivered hstage hopen hroom
          · cases h
      · next hclosed =>
          cases h
          exact .marked hstage (Bool.eq_false_iff.mpr hclosed)
  · next hstage =>
      cases h
      exact .restarted hstage
  · next r hstage =>
      cases h
      exact .dropped hstage
  · cases h

theorem step_moves {a : Action ρ} (h : step n s a = some t) : Move n s a t := by
  cases a with
  | recv r =>
      simp only [step] at h
      split at h
      · next hstage =>
          cases h
          exact .received hstage
      · cases h
  | requestsClosed =>
      simp only [step] at h
      split at h
      · next hstage =>
          cases h
          exact .requestsClosed hstage
      · cases h
  | advance => exact move_of_advance h
  | close i =>
      simp only [step] at h
      split at h
      · next hopen =>
          cases h
          exact .closed hopen
      · cases h
  | take i =>
      simp only [step] at h
      split at h
      · next hinbox =>
          cases h
          exact .taken hinbox
      · cases h

/-- The listed transitions are the steps. -/
theorem step_of_move {a : Action ρ} (move : Move n s a t) : step n s a = some t := by
  cases move with
  | received hstage => simp [step, hstage]
  | requestsClosed hstage => simp [step, hstage]
  | skipped hstage hattempt hdead => simp [step, advance, hstage, hattempt, hdead]
  | emptyHanded hstage hattempt hdead => simp [step, advance, hstage, hattempt, hdead]
  | tried hstage hattempt hdead => simp [step, advance, hstage, hattempt, hdead]
  | exhausted hstage hattempt =>
      simp [step, advance, hstage, Nat.not_lt_of_le hattempt]
  | delivered hstage hopen hroom => simp [step, advance, hstage, hopen, hroom]
  | marked hstage hclosed => simp [step, advance, hstage, hclosed]
  | restarted hstage => simp [step, advance, hstage]
  | dropped hstage => simp [step, advance, hstage]
  | closed hopen => simp [step, hopen]
  | taken hinbox => simp [step, hinbox]

section Record

def Event.received? : Event ρ → Option ρ
  | .received r => some r
  | _ => none

/-- The request that the loop is done with. -/
def Event.outcome? : Event ρ → Option ρ
  | .delivered _ r => some r
  | .dropped r => some r
  | _ => none

def Event.served? : Event ρ → Option Nat
  | .delivered i _ => some i
  | _ => none

/-- How many requests a record has delivered to a slot. -/
def deliveries (h : List (Event ρ)) (i : Nat) : Nat := h.countP fun e => e.served? == some i

/-- The slot after the one that was served last. -/
def cursor (h : List (Event ρ)) : Nat :=
  match (h.filterMap Event.served?).getLast? with
  | none => 0
  | some i => i + 1

theorem deliveries_snoc {h : List (Event ρ)} {e : Event ρ} (he : e.served? = none) :
    deliveries (h ++ [e]) = deliveries h := by
  funext i
  simp [deliveries, he]

theorem deliveries_served (h : List (Event ρ)) (i : Nat) (r : ρ) :
    deliveries (h ++ [.delivered i r]) = update (deliveries h) i (deliveries h i + 1) := by
  funext j
  by_cases hj : j = i
  · simp [deliveries, Event.served?, hj]
  · have hij : i ≠ j := fun heq => hj heq.symm
    simp [deliveries, Event.served?, hj, hij]

theorem cursor_snoc {h : List (Event ρ)} {e : Event ρ} (he : e.served? = none) :
    cursor (h ++ [e]) = cursor h := by
  simp [cursor, he]

theorem cursor_served (h : List (Event ρ)) (i : Nat) (r : ρ) :
    cursor (h ++ [.delivered i r]) = i + 1 := by
  simp [cursor, Event.served?]

/-- What the loop may add to a record. A delivery goes to an open inbox, past closed
ones only, and finds the open slots level up to the order of their numbers. -/
def Fits (n : Nat) (before : List (Event ρ)) : Event ρ → Prop
  | .received _ => True
  | .closed _ => True
  | .tried i => .marked i ∉ before
  | .marked i => .closed i ∈ before
  | .delivered i _ =>
      (i < n ∧ .closed i ∉ before) ∧
      (∀ j < n, turn n (cursor before) j < turn n (cursor before) i → .closed j ∈ before) ∧
      ∀ j < n, j ≠ i → .closed j ∉ before →
        deliveries before j = deliveries before i + if j < i then 1 else 0
  | .dropped _ => ∀ i < n, .closed i ∈ before

end Record

section Invariant

/-- The cursor and the services of a record. -/
structure Serves (n next : Nat) (history : List (Event ρ)) : Prop where
  cursor : next = cursor history
  next_le : next ≤ n
  fits : EachEntry (Fits n) history
  level : Level n next (fun i => .closed i ∉ history) (deliveries history)

/-- The inboxes and the dead vector against a record. -/
structure Marks (inboxOpen dead : Nat → Bool) (history : List (Event ρ)) : Prop where
  opened : ∀ i, inboxOpen i = true ↔ .closed i ∉ history
  marked : ∀ i, dead i = true ↔ .marked i ∈ history
  buried : ∀ i, dead i = true → .closed i ∈ history

/-- The slots of the attempts already made are dead, and `req` is full whenever an
attempt needs it. -/
def Stage.Sound (n next : Nat) (dead : Nat → Bool) : Stage ρ → Prop
  | .attempting attempt req =>
      attempt ≤ n ∧ req.isSome ∧ ∀ b < attempt, dead ((next + b) % n) = true
  | .sending attempt _ =>
      attempt < n ∧ dead ((next + attempt) % n) = false ∧
        ∀ b < attempt, dead ((next + b) % n) = true
  | .finished req => req.isSome → ∀ i < n, dead i = true
  | .panicked => False
  | _ => True

def Stage.inHand : Stage ρ → Option ρ
  | .attempting _ req => req
  | .sending _ r => some r
  | .finished req => req
  | _ => none

structure Inv (n : Nat) (s : State ρ) : Prop where
  serves : Serves n s.next s.history
  marks : Marks s.inboxOpen s.dead s.history
  sound : s.stage.Sound n s.next s.dead
  account : s.history.filterMap Event.received? =
    s.history.filterMap Event.outcome? ++ s.stage.inHand.toList

variable {next : Nat} {inboxOpen dead : Nat → Bool} {h : List (Event ρ)} {e : Event ρ}

theorem Serves.snoc (hs : Serves n next h) (he : e.served? = none) (hfits : Fits n h e) :
    Serves n next (h ++ [e]) where
  cursor := by rw [cursor_snoc he, hs.cursor]
  next_le := hs.next_le
  fits := eachEntry_snoc.mpr ⟨hs.fits, hfits⟩
  level := by
    rw [deliveries_snoc he]
    refine hs.level.mono fun i hi hmem => hi ?_
    exact List.mem_append_left _ hmem

/-- A delivery after attempts at closed inboxes only. -/
theorem Serves.served (hs : Serves n next h) {attempt : Nat} (hattempt : attempt < n)
    (hopen : .closed ((next + attempt) % n) ∉ h)
    (hpassed : ∀ b < attempt, .closed ((next + b) % n) ∈ h) (r : ρ) :
    Serves n ((next + attempt) % n + 1) (h ++ [.delivered ((next + attempt) % n) r]) := by
  have hlt := Nat.mod_lt (next + attempt) (Nat.zero_lt_of_lt hattempt)
  have hserved := turn_attempt (c := next) hattempt
  have hskipped (j : Nat) (hj : j < n) (hlive : .closed j ∉ h) : attempt ≤ turn n next j := by
    by_contra hlt
    have hmem := hpassed _ (Nat.lt_of_not_le hlt)
    rw [add_turn_mod hj] at hmem
    exact hlive hmem
  constructor
  · rw [cursor_served]
  · exact hlt
  · refine eachEntry_snoc.mpr ⟨hs.fits, ⟨hlt, hopen⟩, ?_, ?_⟩
    · intro j hj hturn
      rw [← hs.cursor, hserved] at hturn
      by_contra hlive
      exact absurd (hskipped j hj hlive) (Nat.not_le_of_lt hturn)
    · intro j hj hne hlive
      exact hs.level.first hlt hj hne hopen hlive (by rw [hserved]; exact hskipped j hj hlive)
  · rw [deliveries_served]
    refine (hs.level.serve hattempt hskipped).mono fun i hi hmem => hi ?_
    exact List.mem_append_left _ hmem

theorem Marks.snoc (hm : Marks inboxOpen dead h) (hclosed : ∀ i, e ≠ .closed i)
    (hmarked : ∀ i, e ≠ .marked i) : Marks inboxOpen dead (h ++ [e]) where
  opened i := by simp [hm.opened, (hclosed i).symm]
  marked i := by simp [hm.marked, (hmarked i).symm]
  buried i hi := List.mem_append_left _ (hm.buried i hi)

theorem Marks.close (hm : Marks inboxOpen dead h) (i : Nat) :
    Marks (update inboxOpen i false) dead (h ++ [.closed i]) where
  opened j := by
    by_cases hj : j = i
    · simp [hj]
    · simp [hj, hm.opened]
  marked j := by simp [hm.marked]
  buried j hj := List.mem_append_left _ (hm.buried j hj)

theorem Marks.mark (hm : Marks inboxOpen dead h) {i : Nat} (hi : .closed i ∈ h) :
    Marks inboxOpen (update dead i true) (h ++ [.marked i]) where
  opened j := by simp [hm.opened]
  marked j := by
    by_cases hj : j = i
    · simp [hj]
    · simp [hj, hm.marked]
  buried j hj := by
    by_cases heq : j = i
    · exact List.mem_append_left _ (heq ▸ hi)
    · rw [update_of_ne heq] at hj
      exact List.mem_append_left _ (hm.buried j hj)

theorem Inv.init (ρ : Type*) (n : Nat) : Inv n (MainLoop.init : State ρ) where
  serves := ⟨rfl, Nat.zero_le n, eachEntry_nil, Level.start⟩
  marks := ⟨by simp [MainLoop.init], by simp [MainLoop.init], by simp [MainLoop.init]⟩
  sound := trivial
  account := rfl

/-- A closed inbox is recorded as such. -/
theorem Marks.closed_mem (hm : Marks inboxOpen dead h) {i : Nat} (hi : inboxOpen i = false) :
    .closed i ∈ h := by
  by_contra hnot
  rw [(hm.opened i).mpr hnot] at hi
  cases hi

/-- One more attempt at a dead slot. -/
theorem passed_succ {attempt : Nat} (h : ∀ b < attempt, dead ((next + b) % n) = true)
    (hdead : dead ((next + attempt) % n) = true) :
    ∀ b < attempt + 1, dead ((next + b) % n) = true := by
  intro b hb
  rcases Nat.lt_succ_iff_lt_or_eq.mp hb with hlt | rfl
  · exact h b hlt
  · exact hdead

theorem passed_mark {attempt : Nat} (h : ∀ b < attempt, dead ((next + b) % n) = true) (i : Nat) :
    ∀ b < attempt, update dead i true ((next + b) % n) = true := by
  intro b hb
  by_cases heq : (next + b) % n = i
  · rw [heq, update_self]
  · rw [update_of_ne heq]
    exact h b hb

/-- After `n` attempts every slot was tried. -/
theorem all_dead_of_passed {attempt : Nat} (hattempt : n ≤ attempt)
    (h : ∀ b < attempt, dead ((next + b) % n) = true) (i : Nat) (hi : i < n) :
    dead i = true := by
  have := h (turn n next i) (Nat.lt_of_lt_of_le (turn_lt hi) hattempt)
  rwa [add_turn_mod hi] at this

theorem Inv.step (hs : Inv n s) {a : Action ρ} (move : Move n s a t) : Inv n t := by
  obtain ⟨hserves, hmarks, hsound, haccount⟩ := hs
  cases move with
  | received hstage =>
      rw [hstage] at haccount
      refine ⟨hserves.snoc rfl trivial, hmarks.snoc (by simp) (by simp),
        ⟨Nat.zero_le n, rfl, by simp⟩, ?_⟩
      simpa [List.filterMap_cons, Event.received?, Event.outcome?, Stage.inHand] using haccount
  | requestsClosed hstage =>
      rw [hstage] at haccount
      exact ⟨hserves, hmarks, trivial, haccount⟩
  | skipped hstage hattempt hdead =>
      rw [hstage] at hsound haccount
      obtain ⟨_, hreq, hpassed⟩ := hsound
      exact ⟨hserves, hmarks, ⟨hattempt, hreq, passed_succ hpassed hdead⟩, haccount⟩
  | emptyHanded hstage hattempt hdead =>
      -- the request is in `req` at the top of every attempt
      rw [hstage] at hsound
      cases hsound.2.1
  | @tried attempt r hstage hattempt hdead =>
      rw [hstage] at hsound haccount
      have hfresh : .marked ((s.next + attempt) % n) ∉ s.history := by
        rw [← hmarks.marked, hdead]
        exact Bool.false_ne_true
      refine ⟨hserves.snoc rfl hfresh, hmarks.snoc (by simp) (by simp),
        ⟨hattempt, hdead, hsound.2.2⟩, ?_⟩
      simpa [List.filterMap_cons, Event.received?, Event.outcome?, Stage.inHand] using haccount
  | exhausted hstage hattempt =>
      rw [hstage] at hsound haccount
      refine ⟨hserves, hmarks, ?_, haccount⟩
      exact fun _ => all_dead_of_passed hattempt hsound.2.2
  | delivered hstage hopen hroom =>
      rw [hstage] at hsound haccount
      obtain ⟨hattempt, _, hpassed⟩ := hsound
      refine ⟨hserves.served hattempt ((hmarks.opened _).mp hopen)
          (fun b hb => hmarks.buried _ (hpassed b hb)) _,
        hmarks.snoc (by simp) (by simp), nofun, ?_⟩
      simpa [List.filterMap_cons, Event.received?, Event.outcome?, Stage.inHand] using haccount
  | @marked attempt r hstage hclosed =>
      rw [hstage] at hsound haccount
      obtain ⟨hattempt, _, hpassed⟩ := hsound
      have hmem := hmarks.closed_mem hclosed
      refine ⟨hserves.snoc rfl hmem, hmarks.mark hmem, ⟨hattempt, rfl, ?_⟩, ?_⟩
      · exact passed_succ (passed_mark hpassed _) (update_self ..)
      · simpa [List.filterMap_cons, Event.received?, Event.outcome?, Stage.inHand] using haccount
  | restarted hstage =>
      rw [hstage] at haccount
      exact ⟨hserves, hmarks, trivial, haccount⟩
  | dropped hstage =>
      rw [hstage] at hsound haccount
      have hall : ∀ i < n, .closed i ∈ s.history :=
        fun i hi => hmarks.buried i (hsound rfl i hi)
      refine ⟨hserves.snoc rfl hall, hmarks.snoc (by simp) (by simp), trivial, ?_⟩
      simpa [List.filterMap_cons, Event.received?, Event.outcome?, Stage.inHand] using haccount
  | closed hopen =>
      refine ⟨hserves.snoc rfl trivial, hmarks.close _, hsound, ?_⟩
      simpa [List.filterMap_cons, Event.received?, Event.outcome?] using haccount
  | taken hinbox => exact ⟨hserves, hmarks, hsound, haccount⟩

theorem inv_of_reachable (h : Reachable (step n) (MainLoop.init : State ρ) s) : Inv n s :=
  h.invariant (Inv n) (.init ρ n) fun _ _ _ hs _ hstep => hs.step (step_moves hstep)

end Invariant

section Progress

/-- How many own steps the loop has left before it receives again. -/
def Stage.rank (n : Nat) : Stage ρ → Nat
  | .attempting attempt _ => 2 * (n - attempt) + 3
  | .sending attempt _ => 2 * (n - attempt) + 2
  | .finished _ => 1
  | _ => 0

def Action.own : Action ρ → Bool
  | .advance => true
  | _ => false

/-- The send waits for room in an open inbox. -/
def State.Blocked (n : Nat) (s : State ρ) : Prop :=
  ∃ attempt r, s.stage = .sending attempt r ∧
    s.inboxOpen ((s.next + attempt) % n) = true ∧
    8 ≤ (s.inbox ((s.next + attempt) % n)).length

theorem Stage.rank_le (n : Nat) (stage : Stage ρ) : stage.rank n ≤ 2 * n + 3 := by
  cases stage with
  | attempting attempt req => simp only [Stage.rank]; omega
  | sending attempt r => simp only [Stage.rank]; omega
  | _ => simp [Stage.rank]

theorem Inv.rank_lt (hs : Inv n s) (move : Move n s .advance t) :
    t.stage.rank n < s.stage.rank n := by
  have hsound := hs.sound
  cases move with
  | emptyHanded hstage => simp [hstage, Stage.rank]
  | restarted hstage => simp [hstage, Stage.rank]
  | dropped hstage => simp [hstage, Stage.rank]
  | exhausted hstage => simp [hstage, Stage.rank]
  | delivered hstage => simp [hstage, Stage.rank]
  | tried hstage => simp [hstage, Stage.rank]
  | skipped hstage hattempt =>
      simp only [hstage, Stage.rank]
      omega
  | marked hstage =>
      rw [hstage] at hsound
      have hattempt := hsound.1
      simp only [hstage, Stage.rank]
      omega

/-- Only the loop itself and a new request change what is left to do. -/
theorem rank_eq {a : Action ρ} (move : Move n s a t) (hown : a.own = false)
    (hrecv : ∀ r, a ≠ .recv r) : t.stage.rank n = s.stage.rank n := by
  cases move with
  | received => exact absurd rfl (hrecv _)
  | requestsClosed hstage => simp [hstage, Stage.rank]
  | closed => rfl
  | taken => rfl
  | _ => cases hown

/-- The loop's own steps between two requests are bounded. -/
theorem Inv.own_le (hs : Inv n s) {actions : List (Action ρ)}
    (hrun : runs (MainLoop.step n) s actions = some t)
    (hrecv : ∀ a ∈ actions, ∀ r, a ≠ .recv r) :
    actions.countP Action.own + t.stage.rank n ≤ s.stage.rank n := by
  induction actions generalizing s with
  | nil =>
      cases hrun
      simp
  | cons a rest ih =>
      obtain ⟨u, hu, hrest⟩ := Option.bind_eq_some_iff.mp hrun
      have move := step_moves hu
      have hle := ih (hs.step move) hrest fun b hb => hrecv b (by simp [hb])
      cases hown : a.own with
      | true =>
          have hadvance : a = .advance := by
            cases a with
            | advance => rfl
            | _ => cases hown
          subst hadvance
          have hlt := hs.rank_lt move
          rw [List.countP_cons_of_pos rfl]
          omega
      | false =>
          rw [rank_eq move hown (hrecv a (by simp))] at hle
          rwa [List.countP_cons_of_neg (by simp [hown])]

/-- With a request in hand the loop goes on, unless it waits for room. -/
theorem goes_on_of_inHand (hhand : s.stage.inHand.isSome) :
    (advance n s).isSome ∨ s.Blocked n := by
  cases hstage : s.stage with
  | receiving => simp [hstage, Stage.inHand] at hhand
  | panicked => simp [hstage, Stage.inHand] at hhand
  | left => simp [hstage, Stage.inHand] at hhand
  | finished req =>
      rw [hstage] at hhand
      obtain ⟨r, rfl⟩ := Option.isSome_iff_exists.mp hhand
      simp [advance, hstage]
  | attempting attempt req =>
      rw [hstage] at hhand
      obtain ⟨r, rfl⟩ := Option.isSome_iff_exists.mp hhand
      left
      simp only [advance, hstage]
      split_ifs <;> rfl
  | sending attempt r =>
      by_cases hopen : s.inboxOpen ((s.next + attempt) % n) = true
      · by_cases hroom : (s.inbox ((s.next + attempt) % n)).length < 8
        · simp [advance, hstage, hopen, hroom]
        · exact .inr ⟨attempt, r, hstage, hopen, Nat.le_of_not_lt hroom⟩
      · simp [advance, hstage, hopen]

end Progress

section Runs

theorem deliveries_split (first second : List (Event ρ)) (i : Nat) :
    deliveries (first ++ second) i = deliveries first i + deliveries second i :=
  List.countP_append

/-- What a run of the loop over `n` slots has done and will do. -/
structure Dispatches (n : Nat) (s : State ρ) : Prop where
  no_panic : s.stage ≠ .panicked
  /-- The requests received are, in order, those delivered or dropped and the one in hand. -/
  accounted : s.history.filterMap Event.received? =
    s.history.filterMap Event.outcome? ++ s.stage.inHand.toList
  to_open : ∀ before i r after, s.history = before ++ .delivered i r :: after →
    i < n ∧ .closed i ∉ before
  drops : ∀ before r after, s.history = before ++ .dropped r :: after →
    ∀ i < n, .closed i ∈ before
  marks : ∀ i, s.dead i = true ↔ .marked i ∈ s.history
  dead_slot : ∀ before i after, s.history = before ++ .marked i :: after →
    .closed i ∈ before ∧ .tried i ∉ after
  /-- From the slot after the last one served, a delivery passes closed inboxes only. -/
  cyclic : ∀ before i r after, s.history = before ++ .delivered i r :: after →
    ∀ j < n, turn n (cursor before) j < turn n (cursor before) i → .closed j ∈ before
  fair : ∀ first i r second r' third,
    s.history = first ++ .delivered i r :: (second ++ .delivered i r' :: third) →
    deliveries second i = 0 →
    ∀ j < n, j ≠ i → .closed j ∉ first ++ second → deliveries second j = 1
  goes_on : s.stage.inHand.isSome → (advance n s).isSome ∨ s.Blocked n
  settles : ∀ actions t, runs (step n) s actions = some t →
    (∀ a ∈ actions, ∀ r, a ≠ .recv r) → actions.countP Action.own ≤ 2 * n + 3

/-- Between two deliveries to a slot every other open slot is served once. -/
theorem Serves.fair {next : Nat} {first second third : List (Event ρ)} {i : Nat} {r r' : ρ}
    (hs : Serves n next
      (first ++ .delivered i r :: (second ++ .delivered i r' :: third)))
    (hnone : deliveries second i = 0) {j : Nat} (hj : j < n) (hne : j ≠ i)
    (hlive : .closed j ∉ first ++ second) : deliveries second j = 1 := by
  have hfirst := (hs.fits first _ _ rfl).2.2 j hj hne fun hmem =>
    hlive (List.mem_append_left _ hmem)
  have hsecond := (hs.fits (first ++ .delivered i r :: second) (.delivered i r') third
    (by simp)).2.2 j hj hne (by simpa using hlive)
  have hsplit (k : Nat) : deliveries (first ++ .delivered i r :: second) k =
      deliveries (first ++ [.delivered i r]) k + deliveries second k := by
    rw [← deliveries_split]
    simp
  rw [hsplit, hsplit, deliveries_served, update_self, update_of_ne hne, hnone, hfirst] at hsecond
  omega

/-- Three slots, of which slot 1 closes between the first two requests. -/
def closingRun : List (Action Nat) :=
  [.recv 7, .advance, .advance, .advance, .close 1, .recv 8, .advance, .advance, .advance,
    .advance, .advance, .recv 9, .advance, .advance, .take 0]

/-- A `Vec` holds at most `isize::MAX` senders, so neither `next.wrapping_add(attempt)` nor
`chosen.wrapping_add(1)` wraps. -/
theorem cursor_fits (h : Reachable (step n) init s) (hn : n < 2 ^ 63) {attempt : Nat}
    (hattempt : attempt < n) :
    (s.next + attempt) % 2 ^ 64 = s.next + attempt ∧
      ((s.next + attempt) % n + 1) % 2 ^ 64 = (s.next + attempt) % n + 1 := by
  have hnext := (inv_of_reachable h).serves.next_le
  have hlt := Nat.mod_lt (s.next + attempt) (Nat.zero_lt_of_lt hattempt)
  exact ⟨Nat.mod_eq_of_lt (by omega), Nat.mod_eq_of_lt (by omega)⟩

end Runs

end FolkCore.Pool.MainLoop
