import FolkCore.Data.Zval

/-!
# The round trip through PHP values

A JSON array becomes a table with the keys `0, 1, 2, …` and an object a table under
its texts, with decimal texts stored as integers. The reader takes a table for an
object when one string key is left in it; the texts of the integer keys are then
printed back, and the order of the fields is the order of the source map.
-/

namespace FolkCore

open Lib

section Tables

theorem ZendHashTable.IsList.append {ht : ZendHashTable} (h : ht.IsList) (z : Zval) :
    ZendHashTable.IsList (ht ++ [(.long (Int64.ofNat ht.length), z)]) := by
  unfold IsList at h ⊢
  simp [List.range_succ, h]

variable {zend : Zend} {agrees : String → Prop}

/-- Pushing items on a list leaves a list with the items at its end. -/
theorem pushItems_isList (hzend : zend.Lawful agrees) (items : List Value) (ht : ZendHashTable)
    (hlist : ht.IsList) :
    (pushItems zend items ht).IsList ∧
      (pushItems zend items ht).map Prod.snd =
        ht.map Prod.snd ++ items.map (valueToZval zend) := by
  induction items generalizing ht with
  | nil => simpa [pushItems] using hlist
  | cons item rest ih =>
      rw [pushItems, hzend.push ht _ hlist, Option.getD_some]
      obtain ⟨hlist', hvalues⟩ := ih _ (hlist.append (valueToZval zend item))
      refine ⟨hlist', ?_⟩
      rw [hvalues]
      simp

/-- Inserting fields with fresh keys appends them in their order. -/
theorem insertFields_eq (hzend : zend.Lawful agrees) (fields : List (String × Value))
    (ht : ZendHashTable) (hagrees : ∀ f ∈ fields, agrees f.1)
    (hkeys : (ht.map Prod.fst ++ fields.map fun f => ArrayKey.ofText f.1).Nodup) :
    insertFields zend fields ht =
      ht ++ fields.map fun f => (ArrayKey.ofText f.1, valueToZval zend f.2) := by
  induction fields generalizing ht with
  | nil => simp [insertFields]
  | cons f rest ih =>
      obtain ⟨key, v⟩ := f
      have hfresh : ArrayKey.ofText key ∉ ht.map Prod.fst := by
        intro hmem
        exact (List.nodup_append.mp hkeys).2.2 _ hmem _ (by simp) rfl
      rw [insertFields, hzend.insert ht key _ (hagrees (key, v) List.mem_cons_self) hfresh,
        Option.getD_some, ih _ (fun f hf => hagrees f (List.mem_cons_of_mem _ hf))
          (by simpa using hkeys)]
      simp

end Tables

/-- What `serde_json` keeps at one node: a negative integer is negative and the keys of
a map are in order. -/
def Value.WellFormedAt : Value → Prop
  | .number (.negInt i) => i < 0
  | .object fields => fields.Pairwise fun f g => f.1 < g.1
  | _ => True

/-- One node can pass through a PHP value: an integer fits in an `i64`, a float is
finite, and the keys of an object are among those that `agrees` and not all decimal. -/
def Value.TransferableAt (agrees : String → Prop) : Value → Prop
  | .number (.posInt n) => n.toNat < 2 ^ 63
  | .number (.float bits) => FiniteBits bits
  | .object fields => (∀ f ∈ fields, agrees f.1) ∧ ∃ f ∈ fields, ¬IsDecimal f.1
  | _ => True

variable {agrees : String → Prop}

/-- Numbers come back in their representation. -/
theorem zvalToValue_number {n : Number} (hwf : (Value.number n).WellFormedAt)
    (hn : (Value.number n).TransferableAt agrees) :
    zvalToValue (numberToZval n) = some (.number n) := by
  cases n with
  | posInt n =>
      change n.toNat < 2 ^ 63 at hn
      have hlong : n.toInt64 = Int64.ofNat n.toNat := by
        rw [← UInt64.toInt64_ofNat', UInt64.ofNat_toNat]
      have hpos : ¬n.toInt64 < 0 := by
        rw [hlong, Int64.lt_iff_toInt_lt, Int64.toInt_ofNat_of_lt hn]
        simp
      simp only [numberToZval, if_pos hn, zvalToValue, jsonLong, if_neg hpos,
        UInt64.toUInt64_toInt64]
  | negInt i =>
      change i < 0 at hwf
      simp only [numberToZval, zvalToValue, jsonLong, if_pos hwf]
  | float bits =>
      change FiniteBits bits at hn
      simp only [numberToZval, zvalToValue, jsonDouble, if_pos hn]

/-- The fields of a map are distinct as keys of a table. -/
theorem ofText_keys_nodup {fields : List (String × Value)}
    (hsorted : fields.Pairwise fun f g => f.1 < g.1) :
    (fields.map fun f => ArrayKey.ofText f.1).Nodup := by
  rw [List.nodup_iff_pairwise_ne, List.pairwise_map]
  refine hsorted.imp fun hlt heq => ?_
  rw [ofText_injective heq] at hlt
  exact String.lt_irrefl _ hlt

variable {zend : Zend}

/-- A table filled by pushes is read as an array. -/
theorem zvalToValue_pushItems (hzend : zend.Lawful agrees) {items : List Value}
    (hback : ∀ c ∈ items, zvalToValue (valueToZval zend c) = some c) :
    zvalToValue (valueToZval zend (.array items)) = some (.array items) := by
  obtain ⟨hlist, hvalues⟩ := pushItems_isList hzend items [] rfl
  have hconverted : (pushItems zend items []).map (fun e => zvalToValue e.2) =
      items.map some := by
    calc (pushItems zend items []).map (fun e => zvalToValue e.2)
      _ = ((pushItems zend items []).map Prod.snd).map zvalToValue := by simp
      _ = items.map fun c => zvalToValue (valueToZval zend c) := by simp [hvalues]
      _ = items.map some := List.map_congr_left hback
  have hsome : ∀ e ∈ pushItems zend items [], (zvalToValue e.2).isSome = true := by
    intro e he
    have hmem : zvalToValue e.2 ∈ items.map some :=
      hconverted ▸ List.mem_map.mpr ⟨e, he, rfl⟩
    obtain ⟨v, _, hv⟩ := List.mem_map.mp hmem
    rw [← hv]
    rfl
  have hitems : (pushItems zend items []).map (fun e => e.2.value) = items := by
    calc (pushItems zend items []).map (fun e => e.2.value)
      _ = ((pushItems zend items []).map fun e => zvalToValue e.2).map (Option.getD · .null) := by
          simp [Zval.value]
      _ = (items.map some).map (Option.getD · .null) := by rw [hconverted]
      _ = items := by
          rw [List.map_map]
          exact List.map_id items
  rw [valueToZval, zvalToValue_array hlist.keysDecode hsome, hlist.no_string,
    if_neg Bool.false_ne_true, hitems]

/-- A table filled by inserts is read as an object, its fields under their old keys. -/
theorem zvalToValue_insertFields (hzend : zend.Lawful agrees) {fields : List (String × Value)}
    (hsorted : fields.Pairwise fun f g => f.1 < g.1)
    (hagrees : ∀ f ∈ fields, agrees f.1) (htext : ∃ f ∈ fields, ¬IsDecimal f.1)
    (hback : ∀ f ∈ fields, zvalToValue (valueToZval zend f.2) = some f.2) :
    zvalToValue (valueToZval zend (.object fields)) = some (.object fields) := by
  have htable := insertFields_eq hzend fields [] hagrees
    (by simpa using ofText_keys_nodup hsorted)
  have hstring : (insertFields zend fields []).any (fun e => e.1.isString) = true := by
    obtain ⟨f, hf, hkey⟩ := htext
    rw [htable, List.any_eq_true]
    exact ⟨_, List.mem_map_of_mem hf, isString_ofText hkey⟩
  have hdecode : (insertFields zend fields []).KeysDecode := by
    intro bytes hbytes
    rw [htable, List.nil_append, List.map_map] at hbytes
    obtain ⟨f, _, hf⟩ := List.mem_map.mp hbytes
    exact ofText_decodes hf
  have hsome : ∀ e ∈ insertFields zend fields [], (zvalToValue e.2).isSome = true := by
    intro e he
    rw [htable, List.nil_append] at he
    obtain ⟨f, hf, rfl⟩ := List.mem_map.mp he
    rw [hback f hf]
    rfl
  have hfields : (insertFields zend fields []).map
      (fun e => (e.1.text, e.2.value)) = fields := by
    rw [htable, List.nil_append, List.map_map]
    refine (List.map_congr_left fun f hf => ?_).trans (List.map_id _)
    simp [Zval.value, hback f hf]
  rw [valueToZval, zvalToValue_array hdecode hsome, if_pos hstring, hfields,
    insertAll_of_sorted (by simpa using hsorted), List.nil_append]

/-- A JSON value comes back from PHP unchanged if its integers fit in an `i64`, its
floats are finite, its keys are among those on which `insert` does what is documented
and each of its objects has a key that is not the decimal text of an `i64`. -/
theorem zval_round_trip (zend : Zend) (agrees : String → Prop) (hzend : zend.Lawful agrees)
    (v : Value) (hwf : v.Everywhere Value.WellFormedAt)
    (hv : v.Everywhere (Value.TransferableAt agrees)) :
    zvalToValue (valueToZval zend v) = some v := by
  induction hv with
  | @intro v hroot _ ih =>
      have hback : ∀ c ∈ v.children, zvalToValue (valueToZval zend c) = some c :=
        fun c hc => ih c hc (hwf.child hc)
      cases v with
      | null => rfl
      | bool b => rfl
      | number n => exact zvalToValue_number hwf.root hroot
      | string s => simp [valueToZval, zvalToValue]
      | array items => exact zvalToValue_pushItems hzend hback
      | object fields =>
          exact zvalToValue_insertFields hzend hwf.root hroot.1 hroot.2 fun f hf =>
            hback f.2 (List.mem_map_of_mem hf)

/-- The object `{"5": true, "list": [null]}` keeps its decimal key and its array. -/
theorem mixed_keys_round_trip :
    zvalToValue (valueToZval .standard
        (.object [("5", .bool true), ("list", .array [.null])])) =
      some (.object [("5", .bool true), ("list", .array [.null])]) := by
  refine zval_round_trip .standard NulFree Zend.standard_lawful _ ?_ ?_
  · refine .intro (List.pairwise_pair.mpr (by decide)) ?_
    simp only [Value.children, List.map_cons, List.map_nil, List.forall_mem_cons]
    refine ⟨.leaf trivial rfl, .intro trivial ?_, by simp⟩
    simpa [Value.children] using Everywhere.leaf trivial rfl
  · refine .intro ⟨by decide, ("list", .array [.null]), by simp, by decide⟩ ?_
    simp only [Value.children, List.map_cons, List.map_nil, List.forall_mem_cons]
    refine ⟨.leaf trivial rfl, .intro trivial ?_, by simp⟩
    simpa [Value.children] using Everywhere.leaf trivial rfl

end FolkCore
