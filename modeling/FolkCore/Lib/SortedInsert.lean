import Mathlib.Data.List.Basic
import Mathlib.Data.List.Nodup
import Mathlib.Order.Defs.Unbundled

/-!
# Insertion into a sorted association list

`insertKey` keeps the keys in order and overwrites an equal key. Inserting the
entries of a sorted list one by one gives the list back, and inserting entries
with distinct keys leaves every value under its key.
-/

namespace FolkCore.Lib

variable {κ α : Type*} [DecidableEq κ]

/-- The head decides by a comparison of keys. -/
theorem lookup_cons_if (key k : κ) (v : α) (rest : List (κ × α)) :
    ((k, v) :: rest).lookup key = if key = k then some v else rest.lookup key := by
  by_cases hk : key = k
  · rw [hk, List.lookup_cons_self, if_pos rfl]
  · rw [List.lookup_cons, beq_false_of_ne hk, if_neg hk]

variable [LT κ] [DecidableLT κ]

def insertKey (key : κ) (v : α) : List (κ × α) → List (κ × α)
  | [] => [(key, v)]
  | (k, w) :: rest =>
      if key = k then (k, v) :: rest
      else if key < k then (key, v) :: (k, w) :: rest
      else (k, w) :: insertKey key v rest

/-- Insert the entries in their order. -/
def insertAll (entries map : List (κ × α)) : List (κ × α) :=
  entries.foldl (fun m e => insertKey e.1 e.2 m) map

@[simp] theorem insertAll_nil (map : List (κ × α)) : insertAll [] map = map := rfl

@[simp] theorem insertAll_cons (e : κ × α) (rest map : List (κ × α)) :
    insertAll (e :: rest) map = insertAll rest (insertKey e.1 e.2 map) := rfl

/-- An insertion is seen at its key and nowhere else. -/
theorem lookup_insertKey (key k : κ) (v : α) (map : List (κ × α)) :
    (insertKey key v map).lookup k = if k = key then some v else map.lookup k := by
  induction map with
  | nil => exact lookup_cons_if k key v []
  | cons e rest ih =>
      obtain ⟨k', w⟩ := e
      simp only [insertKey]
      split
      · rename_i heq
        subst heq
        simp only [lookup_cons_if]
        split <;> rfl
      · rename_i hne
        split
        · simp only [lookup_cons_if]
        · simp only [lookup_cons_if, ih]
          by_cases hk : k = k'
          · have hkey : k' ≠ key := Ne.symm hne
            simp only [hk, if_true, if_neg hkey]
          · simp only [if_neg hk]

/-- A key that is not inserted keeps its value. -/
theorem lookup_insertAll_of_notMem {entries : List (κ × α)} {k : κ}
    (hk : k ∉ entries.map Prod.fst) (map : List (κ × α)) :
    (insertAll entries map).lookup k = map.lookup k := by
  induction entries generalizing map with
  | nil => rfl
  | cons e rest ih =>
      simp only [List.map_cons, List.mem_cons, not_or] at hk
      rw [insertAll_cons, ih hk.2, lookup_insertKey, if_neg hk.1]

/-- Exactly the inserted keys are added. -/
theorem lookup_insertAll_isSome_iff (entries map : List (κ × α)) (k : κ) :
    ((insertAll entries map).lookup k).isSome = true ↔
      k ∈ entries.map Prod.fst ∨ (map.lookup k).isSome = true := by
  induction entries generalizing map with
  | nil => simp
  | cons e rest ih =>
      rw [insertAll_cons, ih, lookup_insertKey, List.map_cons, List.mem_cons]
      by_cases hk : k = e.1
      · simp [hk]
      · simp [hk]

/-- Under distinct keys every inserted value is found. -/
theorem lookup_insertAll_of_mem {entries : List (κ × α)}
    (hkeys : (entries.map Prod.fst).Nodup) {k : κ} {v : α} (hmem : (k, v) ∈ entries)
    (map : List (κ × α)) : (insertAll entries map).lookup k = some v := by
  induction entries generalizing map with
  | nil => simp at hmem
  | cons e rest ih =>
      simp only [List.map_cons, List.nodup_cons] at hkeys
      rw [insertAll_cons]
      rcases List.mem_cons.mp hmem with rfl | hrest
      · rw [lookup_insertAll_of_notMem hkeys.1, lookup_insertKey, if_pos rfl]
      · exact ih hkeys.2 hrest _

variable [Std.Asymm (fun a b : κ => a < b)]

/-- A key above all others goes to the end. -/
theorem insertKey_of_above {key : κ} {map : List (κ × α)}
    (habove : ∀ e ∈ map, e.1 < key) (v : α) : insertKey key v map = map ++ [(key, v)] := by
  induction map with
  | nil => rfl
  | cons e rest ih =>
      obtain ⟨k, w⟩ := e
      have hk : k < key := habove (k, w) List.mem_cons_self
      have hlt : ¬key < k := fun h => Std.Asymm.asymm (r := fun a b : κ => a < b) _ _ h hk
      have hne : key ≠ k := by
        rintro rfl
        exact hlt hk
      simp only [insertKey, if_neg hne, if_neg hlt, List.cons_append]
      rw [ih fun e he => habove e (List.mem_cons_of_mem _ he)]

/-- Inserting sorted entries above a list appends them. -/
theorem insertAll_of_sorted {map entries : List (κ × α)}
    (hsorted : (map ++ entries).Pairwise fun e f => e.1 < f.1) :
    insertAll entries map = map ++ entries := by
  induction entries generalizing map with
  | nil => simp
  | cons e rest ih =>
      have habove : ∀ f ∈ map, f.1 < e.1 := fun f hf =>
        (List.pairwise_append.mp hsorted).2.2 f hf e List.mem_cons_self
      rw [insertAll_cons, insertKey_of_above habove, ih (by simpa using hsorted)]
      simp

end FolkCore.Lib
