import FolkCore.Bridge.Body
import Mathlib.Data.List.Forall2

/-!
# Multipart streams as lists of parts

`partsOf` reads a multipart stream as the parts it carries, up to the first item
that is out of place or the close; `offendingFrom` is what is left from there on.
A well-formed stream is the encoding of its parts.
-/

namespace FolkCore.Bridge

/-- A part: its header and all of its data. -/
abbrev Part := PartHeader × Bytes

/-- The parts of a stream, given the part that is open with the data so far. An
item out of place cuts the stream; an open part ends there. -/
def readParts : Option Part → List RequestPart → List Part
  | none, .start header :: rest => readParts (some (header, [])) rest
  | none, _ => []
  | some part, .data chunk :: rest => readParts (some (part.1, part.2 ++ chunk)) rest
  | some part, .partEnd :: rest => part :: readParts none rest
  | some part, _ => [part]

/-- The parts of a whole stream. -/
def partsOf (items : List RequestPart) : List Part := readParts none items

/-- The stream from its first item out of place on, given whether a part is open. -/
def offendingFrom : Bool → List RequestPart → List RequestPart
  | false, .start _ :: rest => offendingFrom true rest
  | false, items => items
  | true, .data _ :: rest => offendingFrom true rest
  | true, .partEnd :: rest => offendingFrom false rest
  | true, items => items

/-- The stream of well-formed parts, each with its data in chunks. -/
def encodeParts (parts : List (PartHeader × List Bytes)) : List RequestPart :=
  parts.flatMap fun part => .start part.1 :: (part.2.map .data ++ [.partEnd])

theorem offendingFrom_suffix (inside : Bool) (items : List RequestPart) :
    offendingFrom inside items <:+ items := by
  induction items generalizing inside with
  | nil => cases inside <;> exact List.suffix_refl _
  | cons item rest ih =>
      cases inside <;> cases item <;> simp only [offendingFrom] <;>
        first
          | exact List.suffix_refl _
          | exact (ih _).trans (List.suffix_cons _ _)

theorem readParts_chunks (part : Part) (chunks : List Bytes) (rest : List RequestPart) :
    readParts (some part) (chunks.map .data ++ .partEnd :: rest) =
      (part.1, part.2 ++ chunks.flatten) :: readParts none rest := by
  induction chunks generalizing part with
  | nil => simp [readParts]
  | cons chunk chunks ih => simp [readParts, ih]

/-- A well-formed stream carries exactly its parts. -/
theorem partsOf_encodeParts (parts : List (PartHeader × List Bytes)) :
    partsOf (encodeParts parts) = parts.map fun part => (part.1, part.2.flatten) := by
  induction parts with
  | nil => rfl
  | cons part parts ih =>
      have hsplit : encodeParts (part :: parts) =
          .start part.1 :: (part.2.map .data ++ .partEnd :: encodeParts parts) := by
        simp [encodeParts]
      have hrest : readParts none (encodeParts parts) = _ := ih
      rw [partsOf, hsplit, readParts, readParts_chunks, hrest]
      simp

/-- The parts that follow the open one, given how the data of that one ended. -/
def followingParts (tail : PartState × List RequestPart) : List Part :=
  if tail.1 = .partEnded then readParts none tail.2 else []

/-- The open part is completed by the data that the read-all loop collects. -/
theorem readParts_open (part : Part) (items : List RequestPart) :
    readParts (some part) items =
      (part.1, part.2 ++ (collectPart items).1) :: followingParts (collectPart items).2 := by
  induction items generalizing part with
  | nil => simp [readParts, collectPart, followingParts]
  | cons item rest ih =>
      cases item with
      | start header => simp [readParts, collectPart, followingParts]
      | data chunk => simp [readParts, collectPart, ih]
      | partEnd => simp [readParts, collectPart, followingParts]

theorem collectPart_state (items : List RequestPart) :
    (collectPart items).2.1 = .partEnded ∨ (collectPart items).2.1 = .done := by
  induction items with
  | nil => simp [collectPart]
  | cons item rest ih => cases item <;> simp [collectPart, ih]

/-- Draining a part and collecting it stop at the same item. -/
theorem drainPart_eq (items : List RequestPart) :
    drainPart items = (decide ((collectPart items).2.1 = .partEnded), (collectPart items).2.2) := by
  induction items with
  | nil => rfl
  | cons item rest ih =>
      cases item with
      | start header => rfl
      | data chunk => exact ih
      | partEnd => rfl

/-- A property of a stream, given whether a part is open, that passes over every item
that is in place. -/
structure Passes (P : Bool → List RequestPart → Prop) : Prop where
  start : ∀ header rest, P false (.start header :: rest) → P true rest
  data : ∀ chunk rest, P true (.data chunk :: rest) → P true rest
  partEnd : ∀ rest, P true (.partEnd :: rest) → P false rest

/-- Such a property passes over the part that the read-all loop collects. -/
theorem Passes.collectPart {P : Bool → List RequestPart → Prop} (hP : Passes P)
    {items : List RequestPart} (h : (collectPart items).2.1 = .partEnded)
    (hitems : P true items) : P false (collectPart items).2.2 := by
  induction items with
  | nil => simp [Bridge.collectPart] at h
  | cons item rest ih =>
      cases item with
      | start header => simp [Bridge.collectPart] at h
      | data chunk => exact ih h (hP.data chunk rest hitems)
      | partEnd => exact hP.partEnd rest hitems

/-- An item in place does not change where the first one out of place stands. -/
theorem offendingFrom_passes (items : List RequestPart) :
    Passes fun inside rest => offendingFrom inside rest = offendingFrom false items :=
  ⟨fun _ _ h => h, fun _ _ h => h, fun _ h => h⟩

end FolkCore.Bridge
