import FolkCore.Data.Utf8

/-!
# The extension of a path

`Path::components`, `Path::file_name` and `Path::extension` of a Unix path, which is a string
of bytes.
-/

namespace FolkCore

/-- The bytes of `/` and `.`. -/
def slash : UInt8 := 47

def dot : UInt8 := 46

inductive Component where
  | rootDir
  | curDir
  | parentDir
  | normal (name : Bytes)
  deriving DecidableEq, Repr

namespace Path

/-- A part behind a separator. Empty ones and `.` are skipped. -/
def part (name : Bytes) : List Component :=
  if name = [] ∨ name = [dot] then []
  else if name = [dot, dot] then [.parentDir]
  else [.normal name]

/-- The part before the first separator, if there is one. -/
def head (name : Bytes) (alone : Bool) : List Component :=
  if name = [] then if alone then [] else [.rootDir]
  else if name = [dot] then [.curDir]
  else part name

/-- `Path::components`. -/
def components (path : Bytes) : List Component :=
  match path.splitOn slash with
  | [] => []
  | first :: rest => head first rest.isEmpty ++ rest.flatMap part

/-- `Path::file_name`: the last component, when it is a normal one. -/
def fileName (path : Bytes) : Option Bytes :=
  match (components path).getLast? with
  | some (.normal name) => some name
  | _ => none

/-- What follows the last dot. -/
def afterDot (file : Bytes) : Bytes := (file.reverse.takeWhile (· ≠ dot)).reverse

/-- What precedes the last dot. -/
def beforeDot (file : Bytes) : Bytes := file.take (file.length - (afterDot file).length - 1)

/-- `rsplit_file_at_dot`: the parts before and after the last dot. -/
def rsplitFileAtDot (file : Bytes) : Option Bytes × Option Bytes :=
  if file = [dot, dot] then (some file, none)
  else if dot ∉ file then (none, some file)
  else if beforeDot file = [] then (some file, none)
  else (some (beforeDot file), some (afterDot file))

/-- `Path::extension`. -/
def extension (path : Bytes) : Option Bytes :=
  (fileName path).bind fun file =>
    (rsplitFileAtDot file).1.bind fun _ => (rsplitFileAtDot file).2

theorem dot_notMem_afterDot (file : Bytes) : dot ∉ afterDot file := by
  intro hmem
  have hne := List.all_eq_true.mp List.all_takeWhile dot (List.mem_reverse.mp hmem)
  simp at hne

/-- An extension has no dot. -/
theorem dot_notMem_extension {path ext : Bytes} (h : extension path = some ext) : dot ∉ ext := by
  obtain ⟨file, _, hfile⟩ := Option.bind_eq_some_iff.mp h
  obtain ⟨before, hbefore, hafter⟩ := Option.bind_eq_some_iff.mp hfile
  unfold rsplitFileAtDot at hbefore hafter
  split at hafter
  · cases hafter
  · split at hafter
    · next hdots hnone =>
      rw [if_neg hdots, if_pos hnone] at hbefore
      cases hbefore
    · split at hafter
      · cases hafter
      · cases hafter
        exact dot_notMem_afterDot file

theorem afterDot_append {stem ext : Bytes} (hext : dot ∉ ext) :
    afterDot (stem ++ dot :: ext) = ext := by
  have hreverse : (stem ++ dot :: ext).reverse = ext.reverse ++ dot :: stem.reverse := by simp
  have hkeep : ∀ b ∈ ext.reverse, decide (b ≠ dot) = true := by
    intro b hb
    have hne : b ≠ dot := fun heq => hext (heq ▸ List.mem_reverse.mp hb)
    simpa using hne
  rw [afterDot, hreverse, List.takeWhile_append_of_pos hkeep]
  simp

theorem beforeDot_append {stem ext : Bytes} (hext : dot ∉ ext) :
    beforeDot (stem ++ dot :: ext) = stem := by
  have hlength : (stem ++ dot :: ext).length - ext.length - 1 = stem.length := by
    simp only [List.length_append, List.length_cons]
    omega
  rw [beforeDot, afterDot_append hext, hlength]
  exact List.take_left

/-- The name of a file with a stem and an extension. -/
theorem rsplitFileAtDot_append {stem ext : Bytes} (hstem : stem ≠ []) (hext : dot ∉ ext)
    (hdots : stem ++ dot :: ext ≠ [dot, dot]) :
    rsplitFileAtDot (stem ++ dot :: ext) = (some stem, some ext) := by
  simp [rsplitFileAtDot, hdots, beforeDot_append hext, afterDot_append hext, hstem]

/-- A file in a directory. -/
theorem fileName_append {dir file : Bytes} (hslash : slash ∉ file)
    (hpart : part file = [.normal file]) : fileName (dir ++ slash :: file) = some file := by
  have hsplit : (dir ++ slash :: file).splitOn slash = dir.splitOn slash ++ [file] := by
    rw [List.splitOn_append_cons_of_beq _ _ (beq_self_eq_true slash),
      List.splitOn_eq_singleton hslash]
  obtain ⟨first, rest, hdir⟩ := List.exists_cons_of_ne_nil (List.splitOn_ne_nil slash dir)
  unfold fileName components
  rw [hsplit, hdir]
  simp [hpart]

/-- A file with an extension, in any directory; the name of the parent directory is not one. -/
theorem extension_append {dir stem ext : Bytes} (hstem : stem ≠ []) (hslash : slash ∉ stem)
    (hslash' : slash ∉ ext) (hdot : dot ∉ ext) (hdots : stem ++ dot :: ext ≠ [dot, dot]) :
    extension (dir ++ slash :: (stem ++ dot :: ext)) = some ext := by
  have hlength : 2 ≤ (stem ++ dot :: ext).length := by
    have hpos := List.length_pos_iff.mpr hstem
    simp only [List.length_append, List.length_cons]
    omega
  have hlong {name : Bytes} (hshort : name.length < 2) : stem ++ dot :: ext ≠ name := by
    rintro rfl
    omega
  have hpart : part (stem ++ dot :: ext) = [.normal (stem ++ dot :: ext)] := by
    rw [part, if_neg (not_or.mpr ⟨hlong (by simp), hlong (by simp)⟩), if_neg hdots]
  have hnone : slash ∉ stem ++ dot :: ext := by
    have hne : slash ≠ dot := by decide
    simp [hslash, hslash', hne]
  rw [extension, fileName_append hnone hpart, Option.bind_some,
    rsplitFileAtDot_append hstem hdot hdots]
  rfl

end Path

end FolkCore
