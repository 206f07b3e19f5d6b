import Mathlib.Logic.Function.Basic
import Mathlib.Tactic.SplitIfs

/-!
# Fairness of a round-robin cursor

A cursor `c` over `n` places serves the places in cyclic order and passes over
those that are not live. `turn n c i` is the number of places that come before `i`
when the cursor stands at `c`. A live place falls behind another by at most one
service, and only by one that came later in its turn.
-/

namespace FolkCore.Lib

open Function

/-- How many places come before `i` from the cursor on. -/
def turn (n c i : Nat) : Nat := if c % n ≤ i then i - c % n else i + n - c % n

variable {n c i j attempt : Nat}

theorem turn_lt (hi : i < n) : turn n c i < n := by
  have hc := Nat.mod_lt c (Nat.zero_lt_of_lt hi)
  unfold turn
  split
  · omega
  · omega

theorem turn_inj (hi : i < n) (hj : j < n) (h : turn n c i = turn n c j) : i = j := by
  have hc := Nat.mod_lt c (Nat.zero_lt_of_lt hi)
  unfold turn at h
  split at h
  · split at h
    · omega
    · omega
  · split at h
    · omega
    · omega

/-- The place of an attempt, without the modulus. -/
theorem add_mod_cases (c : Nat) (hattempt : attempt < n) :
    c % n + attempt < n ∧ (c + attempt) % n = c % n + attempt ∨
      n ≤ c % n + attempt ∧ (c + attempt) % n = c % n + attempt - n := by
  have hc := Nat.mod_lt c (Nat.zero_lt_of_lt hattempt)
  have hsum : (c + attempt) % n = (c % n + attempt) % n := by simp
  by_cases hlt : c % n + attempt < n
  · refine .inl ⟨hlt, ?_⟩
    calc (c + attempt) % n = (c % n + attempt) % n := hsum
      _ = c % n + attempt := Nat.mod_eq_of_lt hlt
  · have hge := Nat.le_of_not_lt hlt
    refine .inr ⟨hge, ?_⟩
    calc (c + attempt) % n = (c % n + attempt) % n := hsum
      _ = (c % n + attempt - n) % n := Nat.mod_eq_sub_mod hge
      _ = c % n + attempt - n := Nat.mod_eq_of_lt (by omega)

theorem turn_attempt (hattempt : attempt < n) : turn n c ((c + attempt) % n) = attempt := by
  have hc := Nat.mod_lt c (Nat.zero_lt_of_lt hattempt)
  unfold turn
  rcases add_mod_cases c hattempt with ⟨hlt, heq⟩ | ⟨hge, heq⟩
  · rw [heq, if_pos (by omega)]
    omega
  · rw [heq, if_neg (by omega)]
    omega

theorem add_turn_mod (hj : j < n) : (c + turn n c j) % n = j := by
  have hlt : (c + turn n c j) % n < n := Nat.mod_lt _ (Nat.zero_lt_of_lt hj)
  exact turn_inj hlt hj (turn_attempt (turn_lt hj))

/-- Only the place of an attempt has its turn. -/
theorem turn_ne_attempt (hattempt : attempt < n) (hj : j < n) (hne : j ≠ (c + attempt) % n) :
    turn n c j ≠ attempt := by
  intro heq
  have hlt := Nat.mod_lt (c + attempt) (Nat.zero_lt_of_lt hattempt)
  exact hne (turn_inj hj hlt (heq.trans (turn_attempt hattempt).symm))

/-- After a service the served place is last and the others move up. -/
theorem turn_next (hattempt : attempt < n) (hi : i < n) :
    turn n ((c + attempt) % n + 1) i =
      if turn n c i ≤ attempt then turn n c i + n - attempt - 1
      else turn n c i - attempt - 1 := by
  have hc := Nat.mod_lt c (Nat.zero_lt_of_lt hattempt)
  have hmod : ((c + attempt) % n + 1) % n =
      if (c + attempt) % n + 1 = n then 0 else (c + attempt) % n + 1 := by
    have hlt := Nat.mod_lt (c + attempt) (Nat.zero_lt_of_lt hattempt)
    split
    · next heq => rw [heq, Nat.mod_self]
    · next hne => exact Nat.mod_eq_of_lt (by omega)
  unfold turn
  rw [hmod]
  rcases add_mod_cases c hattempt with ⟨hlt, heq⟩ | ⟨hge, heq⟩
  · rw [heq]
    split_ifs <;> omega
  · rw [heq]
    split_ifs <;> omega

/-- No live place is behind another by more than the service of a later turn. -/
def Fair (n c : Nat) (live : Nat → Prop) (count : Nat → Nat) : Prop :=
  ∀ i < n, ∀ j < n, live j → count i ≤ count j + if turn n c j < turn n c i then 1 else 0

variable {live : Nat → Prop} {count : Nat → Nat}

theorem Fair.mono {live' : Nat → Prop} (h : Fair n c live count)
    (hsub : ∀ i, live' i → live i) : Fair n c live' count :=
  fun i hi j hj hlive => h i hi j hj (hsub j hlive)

theorem Fair.le_succ (h : Fair n c live count) (hi : i < n) (hj : j < n) (hlive : live j) :
    count i ≤ count j + 1 := by
  have := h i hi j hj hlive
  split at this
  · exact this
  · omega

/-- Serving the first live place from the cursor on keeps the service fair. -/
theorem Fair.serve (h : Fair n c live count) (hattempt : attempt < n)
    (hskipped : ∀ j < n, live j → attempt ≤ turn n c j) :
    Fair n ((c + attempt) % n + 1) live
      (update count ((c + attempt) % n) (count ((c + attempt) % n) + 1)) := by
  intro i hi j hj hlive
  have hfair := h i hi j hj hlive
  have hi' := turn_lt (c := c) hi
  have hj' := turn_lt (c := c) hj
  have hskip := hskipped j hj hlive
  have hserved := turn_attempt (c := c) hattempt
  rw [turn_next hattempt hi, turn_next hattempt hj]
  by_cases hic : i = (c + attempt) % n
  · by_cases hjc : j = (c + attempt) % n
    · simp [hic, hjc]
    · have hne := turn_ne_attempt hattempt hj hjc
      rw [← hic] at hserved ⊢
      have hji : j ≠ i := fun heq => hjc (heq.trans hic)
      rw [update_self, update_of_ne hji]
      split_ifs at hfair ⊢ <;> omega
  · by_cases hjc : j = (c + attempt) % n
    · rw [← hjc] at hserved ⊢
      have hij : i ≠ j := fun heq => hic (heq.trans hjc)
      rw [update_self, update_of_ne hij]
      split_ifs at hfair ⊢ <;> omega
    · have hne := turn_ne_attempt hattempt hj hjc
      rw [update_of_ne hic, update_of_ne hjc]
      split_ifs at hfair ⊢ <;> omega

/-- Two live places are level, but for the one whose turn in this round is over. -/
def Level (n c : Nat) (live : Nat → Prop) (count : Nat → Nat) : Prop :=
  ∀ i j, i < j → j < n → live i → live j →
    count i = count j + if turn n c j < turn n c i then 1 else 0

theorem Level.start : Level n 0 live fun _ => 0 := by
  intro i j hij _ _ _
  simp only [turn, Nat.zero_mod, Nat.zero_le, if_true, Nat.sub_zero]
  rw [if_neg (by omega)]

theorem Level.mono {live' : Nat → Prop} (h : Level n c live count)
    (hsub : ∀ i, live' i → live i) : Level n c live' count :=
  fun i j hij hj hi' hj' => h i j hij hj (hsub i hi') (hsub j hj')

/-- Before the first live place is served, a place below it is one service ahead of it
and a place above it is level with it. -/
theorem Level.first (h : Level n c live count) (hi : i < n) (hj : j < n) (hne : j ≠ i)
    (hi' : live i) (hj' : live j) (hfirst : turn n c i ≤ turn n c j) :
    count j = count i + if j < i then 1 else 0 := by
  have hturn : turn n c i ≠ turn n c j := fun heq => hne (turn_inj hj hi heq.symm)
  rcases Nat.lt_or_gt_of_ne hne with hlt | hgt
  · have := h j i hlt hi hj' hi'
    rw [if_pos hlt]
    rwa [if_pos (by omega)] at this
  · have := h i j hgt hj hi' hj'
    rw [if_neg (by omega)]
    rw [if_neg (by omega)] at this
    omega

/-- Serving the first live place keeps the live places level. -/
theorem Level.serve (h : Level n c live count) (hattempt : attempt < n)
    (hskipped : ∀ j < n, live j → attempt ≤ turn n c j) :
    Level n ((c + attempt) % n + 1) live
      (update count ((c + attempt) % n) (count ((c + attempt) % n) + 1)) := by
  intro i j hij hj hi' hj'
  have hi := Nat.lt_trans hij hj
  have hlevel := h i j hij hj hi' hj'
  have hserved := turn_attempt (c := c) hattempt
  have hti := hskipped i hi hi'
  have htj := hskipped j hj hj'
  have hlti := turn_lt (c := c) hi
  have hltj := turn_lt (c := c) hj
  rw [turn_next hattempt hi, turn_next hattempt hj]
  by_cases hic : i = (c + attempt) % n
  · have hnej : turn n c j ≠ attempt := turn_ne_attempt hattempt hj (by omega)
    rw [← hic] at hserved ⊢
    rw [update_self, update_of_ne (by omega)]
    split_ifs at hlevel ⊢ <;> omega
  · have hnei := turn_ne_attempt hattempt hi hic
    by_cases hjc : j = (c + attempt) % n
    · rw [← hjc] at hserved ⊢
      rw [update_self, update_of_ne (by omega)]
      split_ifs at hlevel ⊢ <;> omega
    · have hnej := turn_ne_attempt hattempt hj hjc
      rw [update_of_ne hic, update_of_ne hjc]
      split_ifs at hlevel ⊢ <;> omega

end FolkCore.Lib
