import FolkCore.Data.Utf8
import FolkCore.Lib.Everywhere
import FolkCore.Lib.SortedInsert
import Mathlib.Data.String.Basic
import Std.Data.String.ToInt

/-!
# PHP values and their conversion

`Zval` is a PHP value with its arrays as lists of entries in iteration order. Keys
and texts of PHP are byte strings. `valueToZval` builds a PHP value with the hash
table operations of `ext-php-rs`, which enter the model through `Zend`;
`zvalToValue` reads one back. A PHP array does not say whether it was an array or
an object, so the reader decides by the keys, and it panics at a key that is no text.
-/

namespace FolkCore

/-- A key of a PHP array. The three string variants of the crate differ in ownership
only. -/
inductive ArrayKey where
  | long (i : Int64)
  | string (bytes : Bytes)
  deriving DecidableEq

/-- A PHP value; a float is its bit pattern. -/
inductive Zval where
  | null
  | bool (b : Bool)
  | long (i : Int64)
  | double (bits : UInt64)
  | string (bytes : Bytes)
  | array (entries : List (ArrayKey × Zval))
  | object (props : List (Bytes × Zval))
  | resource
  | reference (target : Zval)

abbrev ZendHashTable := List (ArrayKey × Zval)

/-- The hash table operations that the conversion calls; a failed one gives `none`. -/
structure Zend where
  push : ZendHashTable → Zval → Option ZendHashTable
  insert : ZendHashTable → String → Zval → Option ZendHashTable

namespace Zval

def children : Zval → List Zval
  | .array entries => entries.map Prod.snd
  | .object props => props.map Prod.snd
  | .reference target => [target]
  | _ => []

/-- A property of a PHP value and of everything in it. -/
abbrev Everywhere : (Zval → Prop) → Zval → Prop := Lib.Everywhere children

end Zval

namespace Value

def children : Value → List Value
  | .array items => items
  | .object fields => fields.map Prod.snd
  | _ => []

/-- A property of a JSON value and of everything in it. -/
abbrev Everywhere : (Value → Prop) → Value → Prop := Lib.Everywhere children

theorem insertField_eq_insertKey (key : String) (v : Value) (fields : List (String × Value)) :
    insertField key v fields = Lib.insertKey key v fields := by
  induction fields with
  | nil => rfl
  | cons f rest ih =>
      obtain ⟨k, w⟩ := f
      simp only [insertField, Lib.insertKey, ih]

end Value

/-- The `Value::Number` arm of `value_to_zval`. An integer above the range of `i64` is
set as a float. -/
def numberToZval : Number → Zval
  | .posInt n => if n.toNat < 2 ^ 63 then .long n.toInt64 else .double n.toFloat.toBits
  | .negInt i => .long i
  | .float bits => .double bits

mutual

/-- `value_to_zval`. A failed push or insert is ignored. -/
def valueToZval (zend : Zend) : Value → Zval
  | .null => .null
  | .bool b => .bool b
  | .number n => numberToZval n
  | .string s => .string (asBytes s)
  | .array items => .array (pushItems zend items [])
  | .object fields => .array (insertFields zend fields [])

def pushItems (zend : Zend) : List Value → ZendHashTable → ZendHashTable
  | [], ht => ht
  | item :: rest, ht => pushItems zend rest ((zend.push ht (valueToZval zend item)).getD ht)

def insertFields (zend : Zend) : List (String × Value) → ZendHashTable → ZendHashTable
  | [], ht => ht
  | (key, v) :: rest, ht =>
      insertFields zend rest ((zend.insert ht key (valueToZval zend v)).getD ht)

end

namespace ArrayKey

def isString : ArrayKey → Bool
  | .string _ => true
  | .long _ => false

/-- The name of a key. Bytes that are not UTF-8 are none, and the iterator of the crate
panics at them. -/
def text? : ArrayKey → Option String
  | .string bytes => fromUtf8? bytes
  | .long i => some (toString i.toInt)

/-- The name of a key that has one. -/
def text (key : ArrayKey) : String := key.text?.getD ""

theorem text?_eq {key : ArrayKey} (h : key.text?.isSome = true) : key.text? = some key.text := by
  obtain ⟨s, hs⟩ := Option.isSome_iff_exists.mp h
  simp [text, hs]

end ArrayKey

/-- `json!` of an `i64`. -/
def jsonLong (i : Int64) : Number := if i < 0 then .negInt i else .posInt i.toUInt64

/-- The exponent bits of a float are not all set. -/
def FiniteBits (bits : UInt64) : Prop := bits >>> 52 &&& 0x7FF ≠ 0x7FF

instance (bits : UInt64) : Decidable (FiniteBits bits) :=
  inferInstanceAs (Decidable (_ ≠ _))

/-- `json!` of an `f64`: a float without a JSON number becomes `null`. -/
def jsonDouble (bits : UInt64) : Value :=
  if FiniteBits bits then .number (.float bits) else .null

/-- `has_string_keys`: the search ends at the first string key. -/
def hasStringKeys : ZendHashTable → Option Bool
  | [] => some false
  | (key, _) :: rest =>
      key.text?.bind fun _ => if key.isString then some true else hasStringKeys rest

mutual

/-- `zval_to_value`, `none` where it panics. A table with a string key is an object, any
other an array. -/
def zvalToValue : Zval → Option Value
  | .null => some .null
  | .bool b => some (.bool b)
  | .long i => some (.number (jsonLong i))
  | .double bits => some (jsonDouble bits)
  | .string bytes => some (.string ((fromUtf8? bytes).getD ""))
  | .array entries =>
      (hasStringKeys entries).bind fun hasStringKeys =>
        if hasStringKeys then (collectFields entries []).map .object
        else (collectItems entries).map .array
  | .object _ => some .null
  | .resource => some .null
  | .reference _ => some .null

def collectItems : ZendHashTable → Option (List Value)
  | [] => some []
  | (key, z) :: rest =>
      key.text?.bind fun _ => (zvalToValue z).bind fun v => (collectItems rest).map (v :: ·)

def collectFields : ZendHashTable → List (String × Value) → Option (List (String × Value))
  | [], map => some map
  | (key, z) :: rest, map =>
      key.text?.bind fun k => (zvalToValue z).bind fun v =>
        collectFields rest (Value.insertField k v map)

end

/-- The value that a conversion without a panic gives. -/
def Zval.value (z : Zval) : Value := (zvalToValue z).getD .null

theorem Zval.value_eq {z : Zval} (h : (zvalToValue z).isSome = true) :
    zvalToValue z = some z.value := by
  obtain ⟨v, hv⟩ := Option.isSome_iff_exists.mp h
  simp [value, hv]

/-- The string keys are UTF-8. -/
def ZendHashTable.KeysDecode (ht : ZendHashTable) : Prop :=
  ∀ bytes, .string bytes ∈ ht.map Prod.fst → (fromUtf8? bytes).isSome = true

section Conversion

variable {ht : ZendHashTable}

theorem keysDecode_cons {e : ArrayKey × Zval} :
    ZendHashTable.KeysDecode (e :: ht) ↔ e.1.text?.isSome = true ∧ ht.KeysDecode := by
  obtain ⟨key, z⟩ := e
  cases key with
  | long i => simp [ZendHashTable.KeysDecode, ArrayKey.text?]
  | string bytes => simp [ZendHashTable.KeysDecode, ArrayKey.text?]

/-- The search finds a string key, or panics at one. -/
theorem hasStringKeys_eq (hdecode : ht.KeysDecode) :
    hasStringKeys ht = some (ht.any fun e => e.1.isString) := by
  induction ht with
  | nil => rfl
  | cons e rest ih =>
      obtain ⟨hkey, hrest⟩ := keysDecode_cons.mp hdecode
      rw [hasStringKeys, ArrayKey.text?_eq hkey, Option.bind_some, ih hrest, List.any_cons]
      cases e.1.isString <;> rfl

theorem collectItems_eq (hdecode : ht.KeysDecode)
    (hvalues : ∀ e ∈ ht, (zvalToValue e.2).isSome = true) :
    collectItems ht = some (ht.map fun e => e.2.value) := by
  induction ht with
  | nil => simp [collectItems]
  | cons e rest ih =>
      obtain ⟨hkey, hrest⟩ := keysDecode_cons.mp hdecode
      have htail := ih hrest fun e he => hvalues e (List.mem_cons_of_mem _ he)
      simp [collectItems, ArrayKey.text?_eq hkey,
        Zval.value_eq (hvalues e List.mem_cons_self), htail]

theorem collectFields_eq (hdecode : ht.KeysDecode)
    (hvalues : ∀ e ∈ ht, (zvalToValue e.2).isSome = true) (map : List (String × Value)) :
    collectFields ht map =
      some (Lib.insertAll (ht.map fun e => (e.1.text, e.2.value)) map) := by
  induction ht generalizing map with
  | nil => simp [collectFields]
  | cons e rest ih =>
      obtain ⟨hkey, hrest⟩ := keysDecode_cons.mp hdecode
      have htail := ih hrest fun e he => hvalues e (List.mem_cons_of_mem _ he)
      simp [collectFields, ArrayKey.text?_eq hkey,
        Zval.value_eq (hvalues e List.mem_cons_self), htail, Value.insertField_eq_insertKey]

/-- The two readings of a table. -/
theorem zvalToValue_array (hdecode : ht.KeysDecode)
    (hvalues : ∀ e ∈ ht, (zvalToValue e.2).isSome = true) :
    zvalToValue (.array ht) = some
      (if ht.any fun e => e.1.isString then
        .object (Lib.insertAll (ht.map fun e => (e.1.text, e.2.value)) [])
      else .array (ht.map fun e => e.2.value)) := by
  rw [zvalToValue, hasStringKeys_eq hdecode, collectFields_eq hdecode hvalues,
    collectItems_eq hdecode hvalues, Option.bind_some]
  split <;> rfl

/-- Collecting comes to its end only when every key and every value is converted. -/
theorem isSome_collectItems (h : (collectItems ht).isSome = true) :
    ht.KeysDecode ∧ ∀ e ∈ ht, (zvalToValue e.2).isSome = true := by
  induction ht with
  | nil => exact ⟨nofun, nofun⟩
  | cons e rest ih =>
      rw [collectItems, Option.isSome_bind, Option.any_eq_true_iff_get] at h
      obtain ⟨hkey, h⟩ := h
      rw [Option.isSome_bind, Option.any_eq_true_iff_get] at h
      obtain ⟨hvalue, h⟩ := h
      obtain ⟨hdecode, hvalues⟩ := ih (by simpa using h)
      exact ⟨keysDecode_cons.mpr ⟨hkey, hdecode⟩, List.forall_mem_cons.mpr ⟨hvalue, hvalues⟩⟩

theorem isSome_collectFields {map : List (String × Value)}
    (h : (collectFields ht map).isSome = true) :
    ht.KeysDecode ∧ ∀ e ∈ ht, (zvalToValue e.2).isSome = true := by
  induction ht generalizing map with
  | nil => exact ⟨nofun, nofun⟩
  | cons e rest ih =>
      rw [collectFields, Option.isSome_bind, Option.any_eq_true_iff_get] at h
      obtain ⟨hkey, h⟩ := h
      rw [Option.isSome_bind, Option.any_eq_true_iff_get] at h
      obtain ⟨hvalue, h⟩ := h
      obtain ⟨hdecode, hvalues⟩ := ih h
      exact ⟨keysDecode_cons.mpr ⟨hkey, hdecode⟩, List.forall_mem_cons.mpr ⟨hvalue, hvalues⟩⟩

theorem isSome_array_iff : (zvalToValue (.array ht)).isSome = true ↔
    ht.KeysDecode ∧ ∀ e ∈ ht, (zvalToValue e.2).isSome = true := by
  constructor
  · intro h
    rw [zvalToValue, Option.isSome_bind, Option.any_eq_true_iff_get] at h
    obtain ⟨_, h⟩ := h
    split at h
    · exact isSome_collectFields (by simpa using h)
    · exact isSome_collectItems (by simpa using h)
  · rintro ⟨hdecode, hvalues⟩
    rw [zvalToValue_array hdecode hvalues]
    rfl

/-- The values that the conversion looks at behind a value: objects and references are not
entered. -/
def Zval.entered : Zval → List Zval
  | .array entries => entries.map Prod.snd
  | _ => []

/-- The keys at one node are texts. -/
def Zval.DecodesAt : Zval → Prop
  | .array entries => ZendHashTable.KeysDecode entries
  | _ => True

/-- Every table that the conversion enters has texts for string keys. -/
abbrev Zval.Decodes : Zval → Prop := Lib.Everywhere Zval.entered Zval.DecodesAt

/-- The conversion panics exactly at a string key that is not UTF-8. -/
theorem converts_iff {p : Zval → Prop} {z : Zval} (hz : z.Everywhere p) :
    (zvalToValue z).isSome = true ↔ z.Decodes := by
  induction hz with
  | @intro z _ _ ih =>
      cases z with
      | array entries =>
          rw [isSome_array_iff]
          constructor
          · rintro ⟨hdecode, hvalues⟩
            refine .intro hdecode fun c hc => (ih c hc).mp ?_
            obtain ⟨e, he, rfl⟩ := List.mem_map.mp hc
            exact hvalues e he
          · intro h
            refine ⟨h.root, fun e he => ?_⟩
            have hc : e.2 ∈ Zval.children (.array entries) := List.mem_map_of_mem he
            exact (ih e.2 hc).mpr (h.child hc)
      | _ => exact iff_of_true rfl (.leaf trivial rfl)

/-- Where the keys at every node are texts the conversion does not panic. -/
theorem decodes_of_everywhere {p : Zval → Prop} {z : Zval} (hz : z.Everywhere p)
    (hp : ∀ b, p b → b.DecodesAt) : z.Decodes := by
  induction hz with
  | @intro z root _ ih =>
      refine .intro (hp z root) fun c hc => ih c ?_
      cases z with
      | array entries => exact hc
      | _ => cases hc

/-- The value of a table that the conversion reads. -/
theorem Zval.value_array (hdecode : ht.KeysDecode)
    (hvalues : ∀ e ∈ ht, (zvalToValue e.2).isSome = true) :
    (Zval.array ht).value =
      if ht.any fun e => e.1.isString then
        .object (Lib.insertAll (ht.map fun e => (e.1.text, e.2.value)) [])
      else .array (ht.map fun e => e.2.value) := by
  rw [value, zvalToValue_array hdecode hvalues]
  rfl

end Conversion

section Keys

/-- The key is the decimal text of an `i64`. -/
def IsDecimal (key : String) : Prop := ∃ i : Int64, toString i.toInt = key

/-- The number that the digits of a text spell. -/
def spelled (text : String) : Int :=
  match text.toList with
  | '-' :: digits => -(Nat.ofDigitChars 10 digits 0 : Int)
  | digits => (Nat.ofDigitChars 10 digits 0 : Int)

theorem spelled_toString (i : Int) : spelled (toString i) = i := by
  rw [Int.toString_eq_repr, Int.repr_eq_if]
  split
  · have hdigits : ∀ rest, Nat.toDigits 10 i.toNat ≠ '-' :: rest := by
      intro rest heq
      have hdigit := Nat.isDigit_of_mem_toDigits (b := 10) (n := i.toNat) (c := '-')
        (by decide) (by decide) (by simp [heq])
      exact absurd hdigit (by decide)
    simp only [spelled, Nat.toList_repr]
    simp
    omega
  · simp [spelled]
    omega

/-- The key that PHP stores for a text: the equal integer for a decimal text. -/
def ArrayKey.ofText (key : String) : ArrayKey :=
  let i := Int64.ofInt (spelled key)
  if toString i.toInt = key then .long i else .string (asBytes key)

theorem ofText_toString (i : Int64) : ArrayKey.ofText (toString i.toInt) = .long i := by
  simp only [ArrayKey.ofText, spelled_toString, Int64.ofInt_toInt, if_true]

theorem ofText_of_not_decimal {key : String} (hkey : ¬IsDecimal key) :
    ArrayKey.ofText key = .string (asBytes key) :=
  if_neg fun h => hkey ⟨_, h⟩

/-- The name of a stored key is the text it was stored for. -/
@[simp] theorem text_ofText (key : String) : (ArrayKey.ofText key).text = key := by
  by_cases hkey : IsDecimal key
  · obtain ⟨i, rfl⟩ := hkey
    rw [ofText_toString]
    rfl
  · simp [ofText_of_not_decimal hkey, ArrayKey.text, ArrayKey.text?]

theorem ofText_decodes {key : String} {bytes : Bytes}
    (h : ArrayKey.ofText key = .string bytes) : (fromUtf8? bytes).isSome = true := by
  by_cases hkey : IsDecimal key
  · obtain ⟨i, rfl⟩ := hkey
    rw [ofText_toString] at h
    cases h
  · rw [ofText_of_not_decimal hkey] at h
    cases h
    simp

theorem ofText_injective : Function.Injective ArrayKey.ofText := fun key key' h => by
  simpa using congrArg ArrayKey.text h

theorem isString_ofText {key : String} (hkey : ¬IsDecimal key) :
    (ArrayKey.ofText key).isString = true := by
  rw [ofText_of_not_decimal hkey]
  rfl

theorem isDecimal_iff (key : String) :
    IsDecimal key ↔ toString (Int64.ofInt (spelled key)).toInt = key := by
  constructor
  · rintro ⟨i, rfl⟩
    rw [spelled_toString, Int64.ofInt_toInt]
  · exact fun h => ⟨_, h⟩

instance (key : String) : Decidable (IsDecimal key) := decidable_of_iff _ (isDecimal_iff key).symm

end Keys

section Tables

/-- The keys are `0, 1, 2, …` in this order. -/
def ZendHashTable.IsList (ht : ZendHashTable) : Prop :=
  ht.map Prod.fst = (List.range ht.length).map fun n => .long (Int64.ofNat n)

instance (ht : ZendHashTable) : Decidable ht.IsList := inferInstanceAs (Decidable (_ = _))

/-- What PHP keeps of an array: distinct keys, and a decimal text is an integer key. -/
structure ZendHashTable.Proper (ht : ZendHashTable) : Prop where
  nodup : (ht.map Prod.fst).Nodup
  decimal : ∀ key, .string (asBytes key) ∈ ht.map Prod.fst → ¬IsDecimal key

namespace ZendHashTable

variable {ht : ZendHashTable}

/-- A list has no string key. -/
theorem IsList.no_string (h : ht.IsList) : (ht.any fun e => e.1.isString) = false := by
  rw [List.any_eq_false]
  intro e he
  have hkey : e.1 ∈ ht.map Prod.fst := List.mem_map_of_mem he
  rw [h] at hkey
  obtain ⟨n, _, heq⟩ := List.mem_map.mp hkey
  rw [← heq]
  simp [ArrayKey.isString]

theorem IsList.keysDecode (h : ht.IsList) : ht.KeysDecode := by
  intro bytes hkey
  rw [h] at hkey
  simp at hkey

theorem not_isList_of_string (hstring : (ht.any fun e => e.1.isString) = true) :
    ¬ht.IsList := by
  intro hlist
  rw [hlist.no_string] at hstring
  cases hstring

/-- A key is stored again under its own name. -/
theorem Proper.ofText_text (h : ht.Proper) (hdecode : ht.KeysDecode) {e : ArrayKey × Zval}
    (he : e ∈ ht) : ArrayKey.ofText e.1.text = e.1 := by
  obtain ⟨key, z⟩ := e
  have hkey : key ∈ ht.map Prod.fst := List.mem_map_of_mem (f := Prod.fst) he
  cases key with
  | long i => exact ofText_toString i
  | string bytes =>
      obtain ⟨s, hs⟩ := Option.isSome_iff_exists.mp (hdecode bytes hkey)
      have hbytes := fromUtf8?_eq_some_iff.mp hs
      subst hbytes
      simp only [ArrayKey.text, ArrayKey.text?, hs, Option.getD_some]
      exact ofText_of_not_decimal (h.decimal s hkey)

/-- Distinct keys have distinct names. -/
theorem Proper.texts_nodup (h : ht.Proper) (hdecode : ht.KeysDecode) :
    (ht.map fun e => e.1.text).Nodup := by
  apply List.Nodup.of_map ArrayKey.ofText
  rw [List.map_map]
  have hkeys : ht.map (ArrayKey.ofText ∘ fun e => e.1.text) = ht.map Prod.fst :=
    List.map_congr_left fun e he => h.ofText_text hdecode he
  rw [hkeys]
  exact h.nodup

/-- In the object of a table every value is found under the name of its key. -/
theorem Proper.lookup_text (h : ht.Proper) (hdecode : ht.KeysDecode) (f : Zval → Value)
    {e : ArrayKey × Zval} (he : e ∈ ht) :
    (Lib.insertAll (ht.map fun e => (e.1.text, f e.2)) []).lookup e.1.text = some (f e.2) := by
  apply Lib.lookup_insertAll_of_mem
  · simpa [List.map_map, Function.comp_def] using h.texts_nodup hdecode
  · exact List.mem_map.mpr ⟨e, he, rfl⟩

end ZendHashTable

/-- What the conversion relies on: a push on a list appends at the next integer, and
an insert under a fresh key appends it. The documentation says so of every key without a
NUL byte; the crate itself keeps keys with a NUL, and it makes integer keys of texts such
as `+5`, `-0` and `-05`. The keys that behave as documented are those in `agrees`. -/
structure Zend.Lawful (zend : Zend) (agrees : String → Prop) : Prop where
  push : ∀ (ht : ZendHashTable) (z : Zval), ht.IsList →
    zend.push ht z = some (ht ++ [(.long (Int64.ofNat ht.length), z)])
  insert : ∀ (ht : ZendHashTable) (key : String) (z : Zval), agrees key →
    ArrayKey.ofText key ∉ ht.map Prod.fst → zend.insert ht key z = some (ht ++ [(.ofText key, z)])

/-- The key holds no NUL byte. -/
def NulFree (key : String) : Prop := '\x00' ∉ key.toList

instance (key : String) : Decidable (NulFree key) := inferInstanceAs (Decidable (¬_))

/-- Overwrite the value of a key or append it. -/
def ZendHashTable.update (key : ArrayKey) (z : Zval) : ZendHashTable → ZendHashTable
  | [] => [(key, z)]
  | (k, w) :: rest =>
      if key = k then (k, z) :: rest else (k, w) :: ZendHashTable.update key z rest

/-- The documented hash tables, of which only lists are pushed on. -/
def Zend.standard : Zend where
  push ht z := some (ht ++ [(.long (Int64.ofNat ht.length), z)])
  insert ht key z := if NulFree key then some (ZendHashTable.update (.ofText key) z ht) else none

theorem ZendHashTable.update_of_notMem {key : ArrayKey} {ht : ZendHashTable}
    (hkey : key ∉ ht.map Prod.fst) (z : Zval) : update key z ht = ht ++ [(key, z)] := by
  induction ht with
  | nil => rfl
  | cons e rest ih =>
      obtain ⟨k, w⟩ := e
      simp only [List.map_cons, List.mem_cons, not_or] at hkey
      simp only [update, if_neg hkey.1, ih hkey.2, List.cons_append]

theorem Zend.standard_lawful : Zend.standard.Lawful NulFree where
  push _ _ _ := rfl
  insert ht key z hnul hkey := by
    simp only [standard, if_pos hnul, ZendHashTable.update_of_notMem hkey]

end Tables

end FolkCore
