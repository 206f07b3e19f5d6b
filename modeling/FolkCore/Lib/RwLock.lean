import FolkCore.Lib.Transition
import Mathlib.Data.List.AList
import Mathlib.Data.List.Induction
import Mathlib.Data.List.Nodup
import Mathlib.Logic.Function.Basic

/-!
# A fair reader-writer lock

Tasks share a content behind a lock that admits its waiters in the order in which they
asked: any number of readers, or one writer. A section reads the content when its task is
admitted and writes it when the task leaves; in between it waits for nothing. Two general
facts: the sections are serial, each works on what the ones that left before it have made
of the content; and a task that waits is admitted by the steps of those before it alone.
-/

namespace FolkCore.Lib.RwLock

open Function

variable {σ τ χ : Type*}

/-- What a task does with the content. -/
inductive Section (σ τ : Type*) where
  | read (k : σ → τ)
  | write (f : σ → σ × τ)

inductive Access where
  | read
  | write
  deriving DecidableEq, Repr

namespace Section

def access : Section σ τ → Access
  | .read _ => .read
  | .write _ => .write

/-- The content after the section, given the content now and the one it saw. -/
def result : Section σ τ → σ → σ → σ
  | .read _, now, _ => now
  | .write f, _, seen => (f seen).1

/-- The task after the section. -/
def next : Section σ τ → σ → τ
  | .read k, seen => k seen
  | .write f, seen => (f seen).2

end Section

/-- Where a task stands towards the lock. -/
inductive Standing (σ : Type*) where
  | outside
  | waiting
  | inside (seen : σ)

/-- A section that is over: its task before it, and the content it saw. -/
structure Turn (σ τ : Type*) where
  id : Nat
  task : τ
  content : σ

structure State (σ τ : Type*) where
  content : σ
  guards : List (Nat × Access)
  queue : List (Nat × Access)
  tasks : Nat → Option (τ × Standing σ)
  log : List (Turn σ τ)

/-- No task has started. -/
def init (content : σ) : State σ τ := ⟨content, [], [], fun _ => none, []⟩

inductive Action (τ χ : Type*) where
  | start (i : Nat) (t : τ)
  | own (i : Nat) (c : χ)
  | ask (i : Nat)
  | grant
  | leave (i : Nat)
  | drop (i : Nat)

/-- The lock can be given out beside the guards that exist. -/
def admits (guards : List (Nat × Access)) : Access → Bool
  | .read => guards.all fun g => g.2 = .read
  | .write => guards.isEmpty

/-- The step of the system. A task goes on by itself as `own` says, or `wants` a section.
It can be dropped where it waits, and where it is outside. -/
def step (own : τ → χ → Option τ) (wants : τ → Option (Section σ τ)) (s : State σ τ) :
    Action τ χ → Option (State σ τ)
  | .start i t =>
      match s.tasks i with
      | none => some { s with tasks := update s.tasks i (some (t, .outside)) }
      | some _ => none
  | .own i c =>
      match s.tasks i with
      | some (t, .outside) =>
          (own t c).map fun t' => { s with tasks := update s.tasks i (some (t', .outside)) }
      | _ => none
  | .ask i =>
      match s.tasks i with
      | some (t, .outside) =>
          (wants t).map fun sec => { s with
            queue := s.queue ++ [(i, sec.access)]
            tasks := update s.tasks i (some (t, .waiting)) }
      | _ => none
  | .grant =>
      match s.queue with
      | [] => none
      | (i, a) :: rest =>
          match s.tasks i with
          | some (t, .waiting) =>
              if admits s.guards a then
                some { s with
                  guards := (i, a) :: s.guards
                  queue := rest
                  tasks := update s.tasks i (some (t, .inside s.content)) }
              else none
          | _ => none
  | .leave i =>
      match s.tasks i with
      | some (t, .inside seen) =>
          (wants t).map fun sec => { s with
            content := sec.result s.content seen
            guards := s.guards.filter fun g => g.1 ≠ i
            tasks := update s.tasks i (some (sec.next seen, .outside))
            log := s.log ++ [⟨i, t, seen⟩] }
      | _ => none
  | .drop i =>
      match s.tasks i with
      | some (_, .outside) => some { s with tasks := update s.tasks i none }
      | some (_, .waiting) =>
          some { s with
            queue := s.queue.filter fun g => g.1 ≠ i
            tasks := update s.tasks i none }
      | _ => none

variable {own : τ → χ → Option τ} {wants : τ → Option (Section σ τ)} {s t : State σ τ}
  {base : σ}

/-- Everything the system can do. -/
inductive Move (own : τ → χ → Option τ) (wants : τ → Option (Section σ τ)) (s : State σ τ) :
    Action τ χ → State σ τ → Prop
  | started {i : Nat} {task : τ} (hi : s.tasks i = none) :
      Move own wants s (.start i task)
        { s with tasks := update s.tasks i (some (task, .outside)) }
  | owned {i : Nat} {c : χ} {task task' : τ} (hi : s.tasks i = some (task, .outside))
      (hown : own task c = some task') :
      Move own wants s (.own i c) { s with tasks := update s.tasks i (some (task', .outside)) }
  | asked {i : Nat} {task : τ} {sec : Section σ τ} (hi : s.tasks i = some (task, .outside))
      (hwants : wants task = some sec) :
      Move own wants s (.ask i)
        { s with
          queue := s.queue ++ [(i, sec.access)]
          tasks := update s.tasks i (some (task, .waiting)) }
  | admitted {i : Nat} {a : Access} {rest : List (Nat × Access)} {task : τ}
      (hqueue : s.queue = (i, a) :: rest) (hi : s.tasks i = some (task, .waiting))
      (hadmits : admits s.guards a = true) :
      Move own wants s .grant
        { s with
          guards := (i, a) :: s.guards
          queue := rest
          tasks := update s.tasks i (some (task, .inside s.content)) }
  | left {i : Nat} {task : τ} {seen : σ} {sec : Section σ τ}
      (hi : s.tasks i = some (task, .inside seen)) (hwants : wants task = some sec) :
      Move own wants s (.leave i)
        { s with
          content := sec.result s.content seen
          guards := s.guards.filter fun g => g.1 ≠ i
          tasks := update s.tasks i (some (sec.next seen, .outside))
          log := s.log ++ [⟨i, task, seen⟩] }
  | gone {i : Nat} {task : τ} (hi : s.tasks i = some (task, .outside)) :
      Move own wants s (.drop i) { s with tasks := update s.tasks i none }
  | gaveUp {i : Nat} {task : τ} (hi : s.tasks i = some (task, .waiting)) :
      Move own wants s (.drop i)
        { s with
          queue := s.queue.filter fun g => g.1 ≠ i
          tasks := update s.tasks i none }

theorem step_move {a : Action τ χ} (h : step own wants s a = some t) :
    Move own wants s a t := by
  cases a with
  | start i task =>
      simp only [step] at h
      split at h
      · next hi =>
          cases h
          exact .started hi
      · cases h
  | own i c =>
      simp only [step] at h
      split at h
      · next task hi =>
          obtain ⟨task', hown, rfl⟩ := Option.map_eq_some_iff.mp h
          exact .owned hi hown
      · cases h
  | ask i =>
      simp only [step] at h
      split at h
      · next task hi =>
          obtain ⟨sec, hwants, rfl⟩ := Option.map_eq_some_iff.mp h
          exact .asked hi hwants
      · cases h
  | grant =>
      simp only [step] at h
      split at h
      · cases h
      · next i a rest hqueue =>
          split at h
          · next task hi =>
              split at h
              · next hadmits =>
                  cases h
                  exact .admitted hqueue hi hadmits
              · cases h
          · cases h
  | leave i =>
      simp only [step] at h
      split at h
      · next task seen hi =>
          obtain ⟨sec, hwants, rfl⟩ := Option.map_eq_some_iff.mp h
          exact .left hi hwants
      · cases h
  | drop i =>
      simp only [step] at h
      split at h
      · next task hi =>
          cases h
          exact .gone hi
      · next task hi =>
          cases h
          exact .gaveUp hi
      · cases h

section Serial

/-- The content after one turn at a time. -/
def replay (wants : τ → Option (Section σ τ)) (base : σ) (log : List (Turn σ τ)) : σ :=
  log.foldl (fun c turn => (wants turn.task).elim c fun sec => sec.result c c) base

/-- Every turn saw what the turns before it have made of the content. -/
def Serial (wants : τ → Option (Section σ τ)) (base : σ) (log : List (Turn σ τ)) : Prop :=
  ∀ before turn after, log = before ++ turn :: after → turn.content = replay wants base before

theorem replay_snoc (log : List (Turn σ τ)) (turn : Turn σ τ) :
    replay wants base (log ++ [turn]) =
      (wants turn.task).elim (replay wants base log) fun sec =>
        sec.result (replay wants base log) (replay wants base log) := by
  rw [replay, List.foldl_append, List.foldl_cons, List.foldl_nil, replay]

theorem Serial.snoc {log : List (Turn σ τ)} (h : Serial wants base log) {turn : Turn σ τ}
    (hturn : turn.content = replay wants base log) : Serial wants base (log ++ [turn]) := by
  intro before turn' after heq
  rcases List.eq_nil_or_concat after with rfl | ⟨after', last, rfl⟩
  · obtain ⟨hlog, hlast⟩ := List.append_inj' heq rfl
    rw [← hlog, ← (List.cons.inj hlast).1]
    exact hturn
  · rw [List.concat_eq_append, ← List.cons_append, ← List.append_assoc] at heq
    exact h before turn' after' (List.append_inj' heq rfl).1

end Serial

section Maps

variable {κ ν : Type*} [DecidableEq κ]

/-- What was put last under a key, where `puts` says what a task's section puts into a map. -/
def lastPut (puts : τ → Option (κ × ν)) (key : κ) (log : List (Turn σ τ)) : Option ν :=
  log.foldl (fun found turn =>
    match puts turn.task with
    | some (k, v) => if k = key then some v else found
    | none => found) none

/-- A map whose sections put one entry at most holds what was put last. -/
theorem lookup_replay {wants : τ → Option (Section (AList fun _ : κ => ν) τ)}
    {puts : τ → Option (κ × ν)}
    (hputs : ∀ task sec c, wants task = some sec → sec.result c c =
      (puts task).elim c fun entry => c.insert entry.1 entry.2)
    (hnone : ∀ task, wants task = none → puts task = none) (key : κ)
    (log : List (Turn (AList fun _ : κ => ν) τ)) :
    (replay wants ∅ log).lookup key = lastPut puts key log := by
  induction log using List.reverseRecOn with
  | nil => rfl
  | append_singleton log turn ih =>
      rw [replay_snoc, lastPut, List.foldl_append, ← lastPut]
      cases hwants : wants turn.task with
      | none => simp [hnone turn.task hwants, ih]
      | some sec =>
          rw [Option.elim_some, hputs turn.task sec _ hwants]
          cases hput : puts turn.task with
          | none => simp [hput, ih]
          | some entry =>
              by_cases hkey : entry.1 = key
              · subst hkey
                simp [hput]
              · simp [hput, hkey, Ne.symm hkey, ih]

end Maps

/-- The access a task waits for. -/
def pending (wants : τ → Option (Section σ τ)) : Option (τ × Standing σ) → Option Access
  | some (t, .waiting) => (wants t).map Section.access
  | _ => none

/-- The access of a task inside. -/
def working (wants : τ → Option (Section σ τ)) : Option (τ × Standing σ) → Option Access
  | some (t, .inside _) => (wants t).map Section.access
  | _ => none

/-- The invariant: the queue and the guards are those of the waiting tasks and of the tasks
inside, a writer is alone, and what the tasks inside saw is still the content. -/
structure Sound (wants : τ → Option (Section σ τ)) (base : σ) (s : State σ τ) : Prop where
  queued : ∀ i a, (i, a) ∈ s.queue ↔ pending wants (s.tasks i) = some a
  guarded : ∀ i a, (i, a) ∈ s.guards ↔ working wants (s.tasks i) = some a
  distinct : (s.queue.map Prod.fst).Nodup
  wanting : ∀ i t st, s.tasks i = some (t, st) → st = .outside ∨ (wants t).isSome = true
  alone : ∀ i, (i, .write) ∈ s.guards → ∀ g ∈ s.guards, g.1 = i
  seen : ∀ i t c, s.tasks i = some (t, .inside c) → c = s.content
  kept : s.content = replay wants base s.log
  serial : Serial wants base s.log

theorem Sound.init (wants : τ → Option (Section σ τ)) (base : σ) :
    Sound wants base (init base) where
  queued i a := by simp [RwLock.init, pending]
  guarded i a := by simp [RwLock.init, working]
  distinct := .nil
  wanting i t st h := by simp [RwLock.init] at h
  alone i h := by simp [RwLock.init] at h
  seen i t c h := by simp [RwLock.init] at h
  kept := rfl
  serial before turn after h := by simp [RwLock.init] at h

section Steps

variable {i : Nat} {a : Access} {task task' : τ} {seen : σ} {sec : Section σ τ}

/-- A task outside, or none. -/
def Away (entry : Option (τ × Standing σ)) : Prop := ∀ t st, entry = some (t, st) → st = .outside

theorem Away.none : Away (none : Option (τ × Standing σ)) := nofun

theorem Away.outside : Away (some (task, (.outside : Standing σ))) := by
  rintro t st ⟨⟩
  rfl

theorem Away.pending {entry : Option (τ × Standing σ)} (h : Away entry) :
    pending wants entry = Option.none := by
  match entry with
  | .none => rfl
  | some (t, st) =>
      rw [h t st rfl]
      rfl

theorem Away.working {entry : Option (τ × Standing σ)} (h : Away entry) :
    working wants entry = Option.none := by
  match entry with
  | .none => rfl
  | some (t, st) =>
      rw [h t st rfl]
      rfl

/-- A step of a task that is outside and stays there. -/
theorem Sound.aside (h : Sound wants base s) {entry : Option (τ × Standing σ)}
    (hbefore : Away (s.tasks i)) (hentry : Away entry) :
    Sound wants base { s with tasks := update s.tasks i entry } where
  queued j b := by
    rw [h.queued]
    by_cases hj : j = i
    · subst hj
      simp [hbefore.pending, hentry.pending]
    · simp [hj]
  guarded j b := by
    rw [h.guarded]
    by_cases hj : j = i
    · subst hj
      simp [hbefore.working, hentry.working]
    · simp [hj]
  distinct := h.distinct
  wanting j t st hj := by
    by_cases hji : j = i
    · subst hji
      exact .inl (hentry t st (by simpa using hj))
    · exact h.wanting j t st (by simpa [hji] using hj)
  alone := h.alone
  seen j t c hj := by
    by_cases hji : j = i
    · subst hji
      have hinside : entry = some (t, .inside c) := by simpa using hj
      cases hentry t (.inside c) hinside
    · exact h.seen j t c (by simpa [hji] using hj)
  kept := h.kept
  serial := h.serial

theorem Sound.asked (h : Sound wants base s) (hi : s.tasks i = some (task, .outside))
    (hwants : wants task = some sec) :
    Sound wants base
      { s with
        queue := s.queue ++ [(i, sec.access)]
        tasks := update s.tasks i (some (task, .waiting)) } where
  queued j b := by
    have hold := h.queued j b
    by_cases hj : j = i
    · subst hj
      simp only [hi, RwLock.pending, reduceCtorEq, iff_false] at hold
      simp [hold, RwLock.pending, hwants, eq_comm]
    · simp [hold, hj]
  guarded j b := by
    rw [h.guarded]
    by_cases hj : j = i
    · subst hj
      simp [hi, RwLock.working]
    · simp [hj]
  distinct := by
    have hnew : i ∉ s.queue.map Prod.fst := by
      intro hmem
      obtain ⟨⟨j, b⟩, hg, rfl⟩ := List.mem_map.mp hmem
      have := (h.queued j b).mp hg
      rw [hi] at this
      cases this
    rw [List.map_append, List.map_singleton, ← List.concat_eq_append]
    exact h.distinct.concat hnew
  wanting j t st hj := by
    by_cases hji : j = i
    · subst hji
      obtain ⟨rfl, rfl⟩ : task = t ∧ Standing.waiting = st := by simpa using hj
      exact .inr (by rw [hwants]; rfl)
    · exact h.wanting j t st (by simpa [hji] using hj)
  alone := h.alone
  seen j t c hj := by
    by_cases hji : j = i
    · subst hji
      simp at hj
    · exact h.seen j t c (by simpa [hji] using hj)
  kept := h.kept
  serial := h.serial

theorem Sound.admitted (h : Sound wants base s) {rest : List (Nat × Access)}
    (hqueue : s.queue = (i, a) :: rest) (hi : s.tasks i = some (task, .waiting))
    (hadmits : admits s.guards a = true) :
    Sound wants base
      { s with
        guards := (i, a) :: s.guards
        queue := rest
        tasks := update s.tasks i (some (task, .inside s.content)) } where
  queued j b := by
    have hold := h.queued j b
    have hdistinct := h.distinct
    rw [hqueue, List.map_cons, List.nodup_cons] at hdistinct
    by_cases hj : j = i
    · subst hj
      have hnot : (j, b) ∉ rest := fun hmem => hdistinct.1 (List.mem_map.mpr ⟨_, hmem, rfl⟩)
      simp [hnot, RwLock.pending]
    · rw [hqueue] at hold
      simpa [hj] using hold
  guarded j b := by
    have hold := h.guarded j b
    by_cases hj : j = i
    · subst hj
      have hpending := (h.queued j a).mp (by simp [hqueue])
      simp only [hi, RwLock.pending, RwLock.working, reduceCtorEq, iff_false] at hpending hold
      simp [hold, RwLock.working, hpending, eq_comm]
    · simp [hold, hj]
  distinct := by
    have hdistinct := h.distinct
    rw [hqueue, List.map_cons, List.nodup_cons] at hdistinct
    exact hdistinct.2
  wanting j t st hj := by
    by_cases hji : j = i
    · subst hji
      obtain ⟨rfl, rfl⟩ : task = t ∧ Standing.inside s.content = st := by simpa using hj
      exact .inr ((h.wanting j task .waiting hi).resolve_left nofun)
    · exact h.wanting j t st (by simpa [hji] using hj)
  alone j hj g hg := by
    cases a with
    | read =>
        have hread : ∀ g ∈ s.guards, g.2 = .read := by simpa [admits] using hadmits
        rcases List.mem_cons.mp hj with heq | hold
        · cases heq
        · exact absurd (hread _ hold) nofun
    | write =>
        have hnone : s.guards = [] := by simpa [admits] using hadmits
        rw [hnone, List.mem_singleton] at hj hg
        rw [hg, (Prod.mk.inj hj).1]
  seen j t c hj := by
    by_cases hji : j = i
    · subst hji
      have hc : task = t ∧ s.content = c := by simpa using hj
      exact hc.2.symm
    · exact h.seen j t c (by simpa [hji] using hj)
  kept := h.kept
  serial := h.serial

theorem Sound.gaveUp (h : Sound wants base s) (hi : s.tasks i = some (task, .waiting)) :
    Sound wants base
      { s with
        queue := s.queue.filter fun g => g.1 ≠ i
        tasks := update s.tasks i none } where
  queued j b := by
    have hold := h.queued j b
    by_cases hj : j = i
    · subst hj
      simp [RwLock.pending]
    · simp [hold, hj]
  guarded j b := by
    rw [h.guarded]
    by_cases hj : j = i
    · subst hj
      simp [hi, RwLock.working]
    · simp [hj]
  distinct := (List.filter_sublist.map Prod.fst).nodup h.distinct
  wanting j t st hj := by
    by_cases hji : j = i
    · subst hji
      simp at hj
    · exact h.wanting j t st (by simpa [hji] using hj)
  alone := h.alone
  seen j t c hj := by
    by_cases hji : j = i
    · subst hji
      simp at hj
    · exact h.seen j t c (by simpa [hji] using hj)
  kept := h.kept
  serial := h.serial

/-- The task inside is a guard. -/
theorem Sound.guard (h : Sound wants base s) (hi : s.tasks i = some (task, .inside seen))
    (hwants : wants task = some sec) : (i, sec.access) ∈ s.guards := by
  rw [h.guarded, hi]
  simp [RwLock.working, hwants]

/-- Leaving changes the content only when nobody else is inside. -/
theorem Sound.result_eq (h : Sound wants base s) (hi : s.tasks i = some (task, .inside seen))
    (hwants : wants task = some sec) {j : Nat} {t : τ} {c : σ} (hj : j ≠ i)
    (hother : s.tasks j = some (t, .inside c)) : sec.result s.content seen = s.content := by
  cases sec with
  | read k => rfl
  | write f =>
      obtain ⟨sec', hwants'⟩ :=
        Option.isSome_iff_exists.mp ((h.wanting j t _ hother).resolve_left nofun)
      exact absurd (h.alone i (h.guard hi hwants) _ (h.guard hother hwants')) hj

theorem Sound.left (h : Sound wants base s) (hi : s.tasks i = some (task, .inside seen))
    (hwants : wants task = some sec) :
    Sound wants base
      { s with
        content := sec.result s.content seen
        guards := s.guards.filter fun g => g.1 ≠ i
        tasks := update s.tasks i (some (sec.next seen, .outside))
        log := s.log ++ [⟨i, task, seen⟩] } where
  queued j b := by
    rw [h.queued]
    by_cases hj : j = i
    · subst hj
      simp [hi, RwLock.pending]
    · simp [hj]
  guarded j b := by
    have hold := h.guarded j b
    by_cases hj : j = i
    · subst hj
      simp [RwLock.working]
    · simp [hold, hj]
  distinct := h.distinct
  wanting j t st hj := by
    by_cases hji : j = i
    · subst hji
      exact .inl (Away.outside t st (by simpa using hj))
    · exact h.wanting j t st (by simpa [hji] using hj)
  alone j hj g hg := h.alone j (List.mem_of_mem_filter hj) g (List.mem_of_mem_filter hg)
  seen j t c hj := by
    by_cases hji : j = i
    · subst hji
      simp at hj
    · have hother : s.tasks j = some (t, .inside c) := by simpa [hji] using hj
      exact (h.seen j t c hother).trans (h.result_eq hi hwants hji hother).symm
  kept := by
    rw [replay_snoc, hwants, Option.elim_some, h.seen i task seen hi, h.kept]
  serial := h.serial.snoc ((h.seen i task seen hi).trans h.kept)

protected theorem Sound.step (h : Sound wants base s) {a : Action τ χ}
    (move : Move own wants s a t) : Sound wants base t := by
  cases move with
  | started hi => exact h.aside (hi ▸ .none) .outside
  | owned hi _ => exact h.aside (hi ▸ .outside) .outside
  | asked hi hwants => exact h.asked hi hwants
  | admitted hqueue hi hadmits => exact h.admitted hqueue hi hadmits
  | left hi hwants => exact h.left hi hwants
  | gone hi => exact h.aside (hi ▸ .outside) .none
  | gaveUp hi => exact h.gaveUp hi

theorem sound_of_reachable (h : Reachable (step own wants) (init base) s) :
    Sound wants base s :=
  h.invariant (Sound wants base) (.init wants base) fun _ _ _ hs _ hstep =>
    hs.step (step_move hstep)

end Steps

section Progress

variable {i : Nat} {a : Access}

/-- The steps of the lock itself, and of the tasks that hold it. -/
def Action.ofLock : Action τ χ → Bool
  | .grant => true
  | .leave _ => true
  | _ => false

variable (own) in
/-- A task inside can leave. The queue and the other tasks stay as they are. -/
theorem Sound.leaves (h : Sound wants base s) (hguard : (i, a) ∈ s.guards) :
    ∃ t, step own wants s (.leave i) = some t ∧ t.guards = s.guards.filter (fun g => g.1 ≠ i) ∧
      t.queue = s.queue ∧ ∀ j, j ≠ i → t.tasks j = s.tasks j := by
  have hworking := (h.guarded i a).mp hguard
  match hi : s.tasks i with
  | none | some (_, .outside) | some (_, .waiting) => simp [hi, working] at hworking
  | some (task, .inside seen) =>
      obtain ⟨sec, hwants, _⟩ : ∃ sec, wants task = some sec ∧ sec.access = a := by
        simpa [hi, working] using hworking
      obtain ⟨t, ht⟩ : ∃ t, step own wants s (.leave i) = some t :=
        ⟨_, by simp [step, hi, hwants]; rfl⟩
      refine ⟨t, ht, ?_⟩
      cases step_move ht with
      | left => exact ⟨rfl, rfl, fun j hj => update_of_ne hj _ _⟩

/-- The tasks that wait go on waiting. -/
def Patient (s t : State σ τ) : Prop :=
  ∀ i task, s.tasks i = some (task, .waiting) → t.tasks i = some (task, .waiting)

variable (own) in
/-- The guards go away by the steps of the tasks that hold them. -/
theorem Sound.clears (h : Sound wants base s) :
    ∃ actions t, actions.length ≤ s.guards.length ∧ (∀ a ∈ actions, a.ofLock = true) ∧
      runs (step own wants) s actions = some t ∧ Sound wants base t ∧ t.guards = [] ∧
      t.queue = s.queue ∧ Patient s t := by
  induction hn : s.guards.length using Nat.strongRecOn generalizing s with
  | _ n ih =>
      match hguards : s.guards with
      | [] => exact ⟨[], s, by simp, by simp, rfl, h, hguards, rfl, fun _ _ hi => hi⟩
      | (i, a) :: rest =>
          have hguard : (i, a) ∈ s.guards := by simp [hguards]
          obtain ⟨u, hu, hug, huq, hstay⟩ := h.leaves own hguard
          have hshort : u.guards.length < n := by
            rw [hug, ← hn, hguards]
            simp only [List.filter_cons, ne_eq, not_true_eq_false, decide_false]
            exact Nat.lt_succ_of_le (List.length_filter_le _ _)
          obtain ⟨actions, t, hlength, hlock, hrun, ht, hclear, hqueue, hpatient⟩ :=
            ih _ hshort (h.step (step_move hu)) rfl
          refine ⟨.leave i :: actions, t, ?_, ?_, by simpa [hu] using hrun, ht, hclear,
            hqueue.trans huq, ?_⟩
          · rw [List.length_cons]
            omega
          · simpa [Action.ofLock] using hlock
          · intro j task hj
            have hne : j ≠ i := by
              rintro rfl
              have hworking := (h.guarded j a).mp hguard
              rw [hj] at hworking
              cases hworking
            exact hpatient j task (hstay j hne ▸ hj)

variable (own) in
/-- The first of the queue is admitted when there are no guards. -/
theorem Sound.admits_head (h : Sound wants base s) {rest : List (Nat × Access)}
    (hqueue : s.queue = (i, a) :: rest) (hclear : s.guards = []) :
    ∃ t, step own wants s .grant = some t ∧ t.guards = [(i, a)] ∧ t.queue = rest ∧
      (∀ task, s.tasks i = some (task, .waiting) →
        t.tasks i = some (task, .inside s.content)) ∧
      ∀ j, j ≠ i → t.tasks j = s.tasks j := by
  have hpending := (h.queued i a).mp (by simp [hqueue])
  match hi : s.tasks i with
  | none | some (_, .outside) | some (_, .inside _) => simp [hi, pending] at hpending
  | some (task, .waiting) =>
      have hadmits : admits s.guards a = true := by cases a <;> simp [admits, hclear]
      obtain ⟨t, ht⟩ : ∃ t, step own wants s .grant = some t :=
        ⟨_, by simp [step, hqueue, hi, hadmits]; rfl⟩
      refine ⟨t, ht, ?_⟩
      cases step_move ht with
      | admitted hqueue' hi' _ =>
          cases hqueue.symm.trans hqueue'
          refine ⟨by rw [hclear], rfl, ?_, fun j hj => update_of_ne hj _ _⟩
          rintro task' ⟨⟩
          cases hi.symm.trans hi'
          exact update_self _ _ _

variable (own) in
/-- A task that waits is admitted by the steps of the lock and of the tasks that come before
it, at most two for each of them. -/
theorem Sound.admitted_of_waiting (h : Sound wants base s) {before after : List (Nat × Access)}
    (hqueue : s.queue = before ++ (i, a) :: after) {task : τ}
    (hi : s.tasks i = some (task, .waiting)) :
    ∃ actions t seen, actions.length ≤ s.guards.length + 2 * before.length + 1 ∧
      (∀ a ∈ actions, a.ofLock = true) ∧ runs (step own wants) s actions = some t ∧
      Sound wants base t ∧ t.tasks i = some (task, .inside seen) := by
  induction before generalizing s with
  | nil =>
      obtain ⟨actions, u, hlength, hlock, hrun, hu, hclear, huq, hpatient⟩ :=
        h.clears own
      obtain ⟨t, ht, _, _, hinside, _⟩ :=
        hu.admits_head own (huq.trans hqueue) hclear
      refine ⟨actions ++ [.grant], t, u.content, ?_, ?_, ?_, hu.step (step_move ht),
        hinside task (hpatient i task hi)⟩
      · rw [List.length_append, List.length_singleton]
        omega
      · simpa [or_imp, forall_and, Action.ofLock] using hlock
      · rw [runs_append_of_eq hrun, runs_cons, ht]
        rfl
  | cons first before ih =>
      obtain ⟨actions, u, hlength, hlock, hrun, hu, hclear, huq, hpatient⟩ :=
        h.clears own
      obtain ⟨v, hv, hguards, hrest, _, hstay⟩ :=
        hu.admits_head own (huq.trans hqueue) hclear
      have hne : i ≠ first.1 := by
        have hdistinct := h.distinct
        rw [hqueue] at hdistinct
        simp only [List.cons_append, List.map_cons, List.map_append, List.nodup_cons,
          List.mem_append, List.mem_cons, not_or] at hdistinct
        exact Ne.symm hdistinct.1.2.1
      have hi' : v.tasks i = some (task, .waiting) := (hstay i hne).trans (hpatient i task hi)
      obtain ⟨later, t, seen, hlength', hlock', hrun', ht, hin⟩ :=
        ih (hu.step (step_move hv)) hrest hi'
      refine ⟨actions ++ .grant :: later, t, seen, ?_, ?_, ?_, ht, hin⟩
      · rw [hguards, List.length_singleton] at hlength'
        rw [List.length_append, List.length_cons, List.length_cons]
        omega
      · intro a ha
        rcases List.mem_append.mp ha with hfirst | hlast
        · exact hlock a hfirst
        · rcases List.mem_cons.mp hlast with rfl | hlater
          · rfl
          · exact hlock' a hlater
      · rw [runs_append_of_eq hrun, runs_cons, hv]
        exact hrun'

/-- A task that waits or is inside comes to the end of its section by the steps of the lock
and of the tasks that hold it or come before it. -/
theorem Sound.finishes (h : Sound wants base s) {task : τ} {st : Standing σ}
    {sec : Section σ τ} (hi : s.tasks i = some (task, st)) (hst : st ≠ .outside)
    (hwants : wants task = some sec) :
    ∃ actions t seen, actions.length ≤ s.guards.length + 2 * s.queue.length + 1 ∧
      (∀ a ∈ actions, a.ofLock = true) ∧ runs (step own wants) s actions = some t ∧
      t.tasks i = some (sec.next seen, .outside) := by
  have leave {u : State σ τ} {seen : σ} (hu : u.tasks i = some (task, .inside seen)) :
      ∃ t, step own wants u (.leave i) = some t ∧ t.tasks i = some (sec.next seen, .outside) :=
    ⟨_, by simp [step, hu, hwants]; rfl, by simp⟩
  match st with
  | .outside => exact absurd rfl hst
  | .inside seen =>
      obtain ⟨t, ht, hout⟩ := leave hi
      exact ⟨[.leave i], t, seen, by simp, by simp [Action.ofLock], by simp [ht], hout⟩
  | .waiting =>
      have hmem : (i, sec.access) ∈ s.queue := by
        rw [h.queued, hi]
        simp [pending, hwants]
      obtain ⟨before, after, hqueue⟩ := List.append_of_mem hmem
      obtain ⟨actions, u, seen, hlength, hlock, hrun, _, hinside⟩ :=
        h.admitted_of_waiting own hqueue hi
      obtain ⟨t, ht, hout⟩ := leave hinside
      refine ⟨actions ++ [.leave i], t, seen, ?_, ?_, ?_, hout⟩
      · rw [List.length_append, List.length_singleton, hqueue, List.length_append,
          List.length_cons]
        omega
      · simpa [or_imp, forall_and, Action.ofLock] using hlock
      · rw [runs_append_of_eq hrun, runs_cons, ht]
        rfl

end Progress

end FolkCore.Lib.RwLock
