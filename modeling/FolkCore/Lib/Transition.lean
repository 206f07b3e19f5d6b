import Mathlib.Data.List.Basic
import Mathlib.Data.List.Count

/-!
# Partial step functions

A step function `step : σ → α → Option σ` is read in two ways: as an automaton
that reads a word, rejecting with `none`, and as the transition function of a
system whose actions are not always enabled. `runs` is the common notion; the
first group of lemmas inspects a word that was read, the second proves
invariants of reachable states. The last one is about the record of what happened.
-/

namespace FolkCore.Lib

variable {σ α : Type*} {step : σ → α → Option σ}

/-- Perform the listed actions in order, failing at the first disabled one. -/
def runs (step : σ → α → Option σ) : σ → List α → Option σ
  | s, [] => some s
  | s, a :: rest => (step s a).bind fun t => runs step t rest

@[simp] theorem runs_nil (s : σ) : runs step s [] = some s := rfl

@[simp] theorem runs_cons (s : σ) (a : α) (rest : List α) :
    runs step s (a :: rest) = (step s a).bind fun t => runs step t rest := rfl

theorem runs_append (s : σ) (first second : List α) :
    runs step s (first ++ second) =
      (runs step s first).bind fun t => runs step t second := by
  induction first generalizing s with
  | nil => simp
  | cons a rest ih => simp [ih, Option.bind_assoc]

theorem runs_append_of_eq {s t : σ} {first : List α} (h : runs step s first = some t)
    (second : List α) : runs step s (first ++ second) = runs step t second := by
  simp [runs_append, h]

/-- A run through a marked action splits there. -/
theorem runs_split {s t : σ} {first second : List α} {a : α}
    (h : runs step s (first ++ a :: second) = some t) :
    ∃ u v, runs step s first = some u ∧ step u a = some v ∧
      runs step v second = some t := by
  rw [runs_append, Option.bind_eq_some_iff] at h
  obtain ⟨u, hu, hrest⟩ := h
  rw [runs_cons, Option.bind_eq_some_iff] at hrest
  obtain ⟨v, hv, hsecond⟩ := hrest
  exact ⟨u, v, hu, hv, hsecond⟩

section Words

/-- Inside a region that is never left, no action of the barred kind is read. -/
theorem runs_avoids (region : σ → Prop) (barred : α → Prop)
    (hstep : ∀ s a t, region s → step s a = some t → region t ∧ ¬barred a)
    {s t : σ} {word : List α} (hs : region s) (h : runs step s word = some t) :
    region t ∧ ∀ a ∈ word, ¬barred a := by
  induction word generalizing s with
  | nil =>
      have hst : s = t := by simpa using h
      subst hst
      exact ⟨hs, by simp⟩
  | cons a rest ih =>
      obtain ⟨u, hu, hrest⟩ := Option.bind_eq_some_iff.mp h
      obtain ⟨hregion, hbar⟩ := hstep s a u hs hu
      obtain ⟨ht, hall⟩ := ih hregion hrest
      refine ⟨ht, ?_⟩
      intro b hb
      rcases List.mem_cons.mp hb with rfl | hb
      · exact hbar
      · exact hall b hb

/-- A run that enters a region reads an action of the kind that leads into it. -/
theorem runs_enters (region : σ → Prop) (gate : α → Prop)
    (hstep : ∀ s a t, ¬region s → step s a = some t → region t → gate a)
    {s t : σ} {word : List α} (hs : ¬region s) (ht : region t)
    (h : runs step s word = some t) : ∃ a ∈ word, gate a := by
  induction word generalizing s with
  | nil =>
      have hst : s = t := by simpa using h
      exact absurd (hst ▸ ht) hs
  | cons a rest ih =>
      obtain ⟨u, hu, hrest⟩ := Option.bind_eq_some_iff.mp h
      by_cases hregion : region u
      · exact ⟨a, by simp, hstep s a u hs hu hregion⟩
      · obtain ⟨b, hb, hgate⟩ := ih hregion hrest
        exact ⟨b, by simp [hb], hgate⟩

/-- A kind of action that never follows itself occurs at most once. -/
theorem countP_le_one_of_unique (p : α → Bool) (word : List α)
    (h : ∀ first a second, word = first ++ a :: second → p a = true →
      ∀ b ∈ second, ¬p b = true) : word.countP p ≤ 1 := by
  induction word with
  | nil => simp
  | cons a rest ih =>
      by_cases ha : p a = true
      · have hrest : rest.countP p = 0 :=
          List.countP_eq_zero.mpr (h [] a rest rfl ha)
        simp [ha, hrest]
      · have := ih fun first b second heq hb => h (a :: first) b second (by simp [heq]) hb
        simpa [List.countP_cons, ha] using this

/-- Two marked places of a word that is ordered pairwise. -/
theorem pairwise_at {R : α → α → Prop} {word : List α} (h : word.Pairwise R) {i j : Nat}
    (hij : i < j) {p q : α → Bool} (hi : word[i]?.any p = true) (hj : word[j]?.any q = true) :
    ∃ a b, p a = true ∧ q b = true ∧ R a b := by
  rw [Option.any_eq_true] at hi hj
  obtain ⟨a, ha, hp⟩ := hi
  obtain ⟨b, hb, hq⟩ := hj
  obtain ⟨hlt, rfl⟩ := List.getElem?_eq_some_iff.mp ha
  obtain ⟨hlt', rfl⟩ := List.getElem?_eq_some_iff.mp hb
  exact ⟨_, _, hp, hq, List.pairwise_iff_getElem.mp h i j hlt hlt' hij⟩

end Words

section Systems

/-- The states reached from `init` by enabled steps that are all allowed. -/
inductive ReachableVia (step : σ → α → Option σ) (allowed : σ → α → Prop) (init : σ) :
    σ → Prop
  | start : ReachableVia step allowed init init
  | next {s t : σ} {a : α} (reached : ReachableVia step allowed init s)
      (ok : allowed s a) (h : step s a = some t) : ReachableVia step allowed init t

/-- The states reached from `init` by any enabled steps. -/
abbrev Reachable (step : σ → α → Option σ) (init : σ) : σ → Prop :=
  ReachableVia step (fun _ _ => True) init

variable {allowed : σ → α → Prop} {init : σ}

/-- An initial property that every allowed step keeps holds in every state reached. -/
theorem ReachableVia.invariant (inv : σ → Prop) (hinit : inv init)
    (hstep : ∀ s a t, inv s → allowed s a → step s a = some t → inv t)
    {s : σ} (h : ReachableVia step allowed init s) : inv s := by
  induction h with
  | start => exact hinit
  | next _ ok h ih => exact hstep _ _ _ ih ok h

theorem ReachableVia.mono {wider : σ → α → Prop} (hsub : ∀ s a, allowed s a → wider s a)
    {s : σ} (h : ReachableVia step allowed init s) : ReachableVia step wider init s := by
  induction h with
  | start => exact .start
  | next _ ok h ih => exact .next ih (hsub _ _ ok) h

theorem ReachableVia.reachable {s : σ} (h : ReachableVia step allowed init s) :
    Reachable step init s :=
  h.mono fun _ _ _ => trivial

theorem ReachableVia.trans {s t : σ} (h : ReachableVia step allowed init s)
    (hnext : ReachableVia step allowed s t) : ReachableVia step allowed init t := by
  induction hnext with
  | start => exact h
  | next _ ok hstep ih => exact .next ih ok hstep

/-- A successful run leads to a reachable state. -/
theorem reachable_of_runs {actions : List α} {s t : σ} (h : runs step s actions = some t) :
    Reachable step s t := by
  induction actions generalizing s with
  | nil =>
      have hst : s = t := by simpa using h
      exact hst ▸ .start
  | cons a rest ih =>
      obtain ⟨u, hu, hrest⟩ := Option.bind_eq_some_iff.mp h
      exact ReachableVia.trans (.next .start trivial hu) (ih hrest)

/-- A reachable state is the end of a run. -/
theorem ReachableVia.exists_runs {s : σ} (h : ReachableVia step allowed init s) :
    ∃ actions, runs step init actions = some s := by
  induction h with
  | start => exact ⟨[], rfl⟩
  | @next t u a _ _ hstep ih =>
      obtain ⟨actions, hactions⟩ := ih
      exact ⟨actions ++ [a], by simp [runs_append_of_eq hactions, hstep]⟩

/-- A run whose steps all pass a test is a run of allowed steps. -/
theorem reachableVia_of_runs {test : σ → α → Bool} {actions : List α} {s t : σ}
    (h : runs (fun s a => if test s a then step s a else none) s actions = some t) :
    ReachableVia step (fun s a => test s a = true) s t := by
  induction actions generalizing s with
  | nil =>
      have hst : s = t := by simpa using h
      exact hst ▸ .start
  | cons a rest ih =>
      obtain ⟨u, hu, hrest⟩ := Option.bind_eq_some_iff.mp h
      obtain ⟨htest, hstep⟩ : test s a = true ∧ step s a = some u := by
        by_cases htest : test s a = true
        · exact ⟨htest, by simpa [htest] using hu⟩
        · simp [htest] at hu
      exact ReachableVia.trans (.next .start htest hstep) (ih hrest)

/-- A tested run whose last state passes a check reaches a state that does. -/
theorem exists_reachableVia {test : σ → α → Bool} {check : σ → Bool} {actions : List α}
    {s : σ} (h : (runs (fun s a => if test s a then step s a else none) s actions).any check =
      true) :
    ∃ t, ReachableVia step (fun s a => test s a = true) s t ∧ check t = true := by
  cases hrun : runs (fun s a => if test s a then step s a else none) s actions with
  | none => simp [hrun] at h
  | some t => exact ⟨t, reachableVia_of_runs hrun, by simpa [hrun] using h⟩

theorem exists_reachable {check : σ → Bool} {actions : List α} {s : σ}
    (h : (runs step s actions).any check = true) :
    ∃ t, Reachable step s t ∧ check t = true := by
  cases hrun : runs step s actions with
  | none => simp [hrun] at h
  | some t => exact ⟨t, reachable_of_runs hrun, by simpa [hrun] using h⟩

/-- No action is enabled. -/
def Halted (step : σ → α → Option σ) (s : σ) : Prop := ∀ a, step s a = none

/-- Where every step lowers a measure, some state without enabled actions is reached. -/
theorem exists_halted (inv : σ → Prop) (measure : σ → Nat)
    (hstep : ∀ s a t, inv s → step s a = some t → inv t ∧ measure t < measure s)
    {s : σ} (hs : inv s) : ∃ t, Reachable step s t ∧ Halted step t := by
  induction hmeasure : measure s using Nat.strongRecOn generalizing s with
  | _ m ih =>
      by_cases hhalted : Halted step s
      · exact ⟨s, .start, hhalted⟩
      · obtain ⟨a, ha⟩ := Classical.not_forall.mp hhalted
        obtain ⟨u, hu⟩ := Option.ne_none_iff_exists'.mp ha
        obtain ⟨hinv, hlt⟩ := hstep s a u hs hu
        obtain ⟨t, hreach, ht⟩ := ih _ (hmeasure ▸ hlt) hinv rfl
        exact ⟨t, ReachableVia.trans (.next .start trivial hu) hreach, ht⟩

/-- A measure that every step lowers bounds the length of a run. -/
theorem runs_length_le (inv : σ → Prop) (measure : σ → Nat)
    (hstep : ∀ s a t, inv s → step s a = some t → inv t ∧ measure t < measure s)
    {s t : σ} (hs : inv s) {actions : List α} (h : runs step s actions = some t) :
    actions.length + measure t ≤ measure s := by
  induction actions generalizing s with
  | nil =>
      have hst : s = t := by simpa using h
      simp [hst]
  | cons a rest ih =>
      obtain ⟨u, hu, hrest⟩ := Option.bind_eq_some_iff.mp h
      obtain ⟨hinv, hlt⟩ := hstep s a u hs hu
      have hle := ih hinv hrest
      rw [List.length_cons]
      omega

end Systems

section Records

variable {p : List α → α → Prop} {record : List α} {a : α}

/-- A record grows at its end. Every entry met `p` of the entries before it, which a step has to
show for the entries it adds only. -/
def EachEntry (p : List α → α → Prop) (record : List α) : Prop :=
  ∀ before a after, record = before ++ a :: after → p before a

theorem eachEntry_nil : EachEntry p [] := by
  intro before a after h
  simp at h

theorem eachEntry_snoc : EachEntry p (record ++ [a]) ↔ EachEntry p record ∧ p record a := by
  constructor
  · intro h
    refine ⟨fun before b after heq => ?_, h record a [] rfl⟩
    exact h before b (after ++ [a]) (by simp [heq])
  · rintro ⟨hold, hnew⟩ before b after heq
    rcases List.eq_nil_or_concat after with rfl | ⟨after', last, rfl⟩
    · obtain ⟨rfl, hlast⟩ := List.append_inj' heq rfl
      cases hlast
      exact hnew
    · have hsplit : record ++ [a] = (before ++ b :: after') ++ [last] := by simpa using heq
      exact hold before b after' (List.append_inj' hsplit rfl).1

/-- What is barred once `a` is recorded does not come after it. -/
theorem EachEntry.not_mem_after {b : α} (h : EachEntry p record) (hbar : ∀ before, p before b →
    a ∉ before) {before after : List α} (heq : record = before ++ a :: after) : b ∉ after := by
  intro hb
  obtain ⟨between, rest, rfl⟩ := List.append_of_mem hb
  have hp := h (before ++ a :: between) b rest (by simp [heq])
  exact hbar _ hp (by simp)

end Records

end FolkCore.Lib
