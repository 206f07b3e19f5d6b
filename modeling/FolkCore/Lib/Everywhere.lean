import Mathlib.Data.List.Basic

/-!
# Properties of every subtree

A tree type is given by the list of children of a node. `Everywhere p` holds of a
tree when `p` holds at its root and at every node below. A property of trees that
is decided node by node is `Everywhere` of its local part, by `iff_of_local`.
-/

namespace FolkCore.Lib

variable {α : Type*}

inductive Everywhere (children : α → List α) (p : α → Prop) : α → Prop
  | intro {a : α} (root : p a) (child : ∀ c ∈ children a, Everywhere children p c) :
      Everywhere children p a

namespace Everywhere

variable {children : α → List α} {p q : α → Prop} {a : α}

theorem root (h : Everywhere children p a) : p a := by
  cases h with
  | intro root _ => exact root

theorem child (h : Everywhere children p a) {c : α} (hc : c ∈ children a) :
    Everywhere children p c := by
  cases h with
  | intro _ child => exact child c hc

theorem iff_node : Everywhere children p a ↔ p a ∧ ∀ c ∈ children a, Everywhere children p c :=
  ⟨fun h => ⟨h.root, fun _ => h.child⟩, fun h => .intro h.1 h.2⟩

theorem leaf (root : p a) (hleaf : children a = []) : Everywhere children p a :=
  .intro root (by simp [hleaf])

/-- A local property follows at a node from `p` there and from itself at its children. -/
theorem imp (h : Everywhere children p a)
    (step : ∀ b, p b → (∀ c ∈ children b, Everywhere children q c) → q b) :
    Everywhere children q a := by
  induction h with
  | intro root _ ih => exact .intro (step _ root ih) ih

theorem mono (h : Everywhere children p a) (hpq : ∀ b, p b → q b) :
    Everywhere children q a :=
  h.imp fun b hb _ => hpq b hb

/-- A property of trees that holds exactly when `q` holds at the root and the property
holds of the children is `q` everywhere. -/
theorem iff_of_local {r : α → Prop} (h : Everywhere children p a)
    (step : ∀ b, Everywhere children p b → (r b ↔ q b ∧ ∀ c ∈ children b, r c)) :
    r a ↔ Everywhere children q a := by
  induction h with
  | @intro b root child ih =>
      rw [step b (.intro root child)]
      constructor
      · rintro ⟨hq, hchild⟩
        exact .intro hq fun c hc => (ih c hc).mp (hchild c hc)
      · intro hq
        exact ⟨hq.root, fun c hc => (ih c hc).mpr (hq.child hc)⟩

end Everywhere

end FolkCore.Lib
