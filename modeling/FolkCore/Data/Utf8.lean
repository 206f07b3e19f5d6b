import FolkCore.Data.Json

/-!
# Decoding of UTF-8

`str::from_utf8` rejects ill-formed bytes; `fromUtf8?` is its decoder and `asBytes`
gives the bytes of a text back. `String::from_utf8_lossy` replaces every maximal
ill-formed byte sequence by one replacement character. It reads byte by byte: a lead
byte fixes how many continuation bytes follow and the range of the first of them,
and a byte out of range ends the sequence and is read again as a lead byte.
-/

namespace FolkCore

/-- `str::as_bytes`. -/
def asBytes (s : String) : Bytes := s.toByteArray.data.toList

/-- `str::from_utf8`. -/
def fromUtf8? (data : Bytes) : Option String := String.fromUTF8? ⟨data.toArray⟩

/-- A text decodes from its own bytes and from no others. -/
theorem fromUtf8?_eq_some_iff {data : Bytes} {s : String} :
    fromUtf8? data = some s ↔ asBytes s = data := by
  unfold fromUtf8? asBytes String.fromUTF8?
  split
  · rw [Option.some.injEq]
    constructor
    · rintro rfl
      simp [String.fromUTF8]
    · rintro rfl
      apply String.toByteArray_inj.mp
      simp [String.fromUTF8]
  · rename_i hinvalid
    simp only [reduceCtorEq, false_iff]
    rintro rfl
    exact hinvalid (by simpa using s.isValidUTF8)

@[simp] theorem fromUtf8?_asBytes (s : String) : fromUtf8? (asBytes s) = some s :=
  fromUtf8?_eq_some_iff.mpr rfl

theorem asBytes_injective : Function.Injective asBytes := fun s t h => by
  have hs := fromUtf8?_asBytes s
  rwa [h, fromUtf8?_asBytes, Option.some.injEq, eq_comm] at hs

/-- U+FFFD, written for an ill-formed sequence. -/
def replacementChar : Char := Char.ofNat 0xFFFD

/-- A character under construction: the continuation bytes it still needs, the
range of the next one, and the code point read so far. -/
structure OpenChar where
  need : Nat
  low : UInt8
  high : UInt8
  code : Nat

/-- The first byte of a sequence: a character, a replacement, or more to come. -/
def leadByte (b : UInt8) : List Char × Option OpenChar :=
  let n := b.toNat
  if n < 0x80 then ([Char.ofNat n], none)
  else if n < 0xC2 then ([replacementChar], none)
  else if n < 0xE0 then ([], some ⟨1, 0x80, 0xBF, n - 0xC0⟩)
  else if n < 0xF0 then
    ([], some ⟨2, if n = 0xE0 then 0xA0 else 0x80, if n = 0xED then 0x9F else 0xBF, n - 0xE0⟩)
  else if n < 0xF5 then
    ([], some ⟨3, if n = 0xF0 then 0x90 else 0x80, if n = 0xF4 then 0x8F else 0xBF, n - 0xF0⟩)
  else ([replacementChar], none)

/-- Read one more byte. -/
def decodeByte (b : UInt8) : Option OpenChar → List Char × Option OpenChar
  | none => leadByte b
  | some p =>
      if p.low ≤ b ∧ b ≤ p.high then
        let code := p.code * 64 + (b.toNat - 0x80)
        if p.need = 1 then ([Char.ofNat code], none)
        else ([], some ⟨p.need - 1, 0x80, 0xBF, code⟩)
      else
        let again := leadByte b
        (replacementChar :: again.1, again.2)

/-- A sequence cut by the end of the input is replaced too. -/
def decodeLossy : Bytes → Option OpenChar → List Char
  | [], none => []
  | [], some _ => [replacementChar]
  | b :: rest, p =>
      let r := decodeByte b p
      r.1 ++ decodeLossy rest r.2

/-- `String::from_utf8_lossy`. -/
def fromUtf8Lossy (data : Bytes) : String := String.ofList (decodeLossy data none)

end FolkCore
