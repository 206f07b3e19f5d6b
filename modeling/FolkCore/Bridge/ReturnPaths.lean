import FolkCore.Bridge.PhpCall

/-!
# The returned value on the two dispatch paths

On the JSON path PHP itself decides which array is a list: its keys are `0, 1, 2, …`
in this order. The zero-copy path takes every array without a string key for a list,
so an array with other integer keys loses them there. The parser of the JSON path gives
up on text that is nested too deep, which the zero-copy path does not look at.
-/

namespace FolkCore.Bridge

open Lib

mutual

/-- The value that `serde_json` reads from the text of `json_encode` for a value built
from null, booleans, integers, texts and arrays. -/
def jsonValue : Zval → Value
  | .null => .null
  | .bool b => .bool b
  | .long i => .number (jsonLong i)
  | .string bytes => .string ((fromUtf8? bytes).getD "")
  | .array entries =>
      if ZendHashTable.IsList entries then .array (jsonItems entries)
      else .object (jsonFields entries [])
  | .double _ | .object _ | .resource | .reference _ => .null

def jsonItems : ZendHashTable → List Value
  | [] => []
  | (_, z) :: rest => jsonValue z :: jsonItems rest

def jsonFields : ZendHashTable → List (String × Value) → List (String × Value)
  | [], map => map
  | (key, z) :: rest, map => jsonFields rest (Value.insertField key.text (jsonValue z) map)

end

theorem jsonValue_array (ht : ZendHashTable) :
    jsonValue (.array ht) =
      if ht.IsList then .array (ht.map fun e => jsonValue e.2)
      else .object (insertAll (ht.map fun e => (e.1.text, jsonValue e.2)) []) := by
  have hitems (ht : ZendHashTable) : jsonItems ht = ht.map fun e => jsonValue e.2 := by
    induction ht with
    | nil => simp [jsonItems]
    | cons e rest ih => simp [jsonItems, ih]
  have hfields (ht : ZendHashTable) (map : List (String × Value)) :
      jsonFields ht map = insertAll (ht.map fun e => (e.1.text, jsonValue e.2)) map := by
    induction ht generalizing map with
    | nil => simp [jsonFields]
    | cons e rest ih => simp [jsonFields, ih, Value.insertField_eq_insertKey]
  rw [jsonValue, hitems, hfields]

/-- One node of a value built from null, booleans, integers, UTF-8 texts and arrays. -/
def PlainAt : Zval → Prop
  | .null | .bool _ | .long _ => True
  | .string bytes => (fromUtf8? bytes).isSome = true
  | .array entries => ZendHashTable.Proper entries ∧ ZendHashTable.KeysDecode entries
  | .double _ | .object _ | .resource | .reference _ => False

/-- An array without string keys is a list. -/
def ListLikeAt : Zval → Prop
  | .array entries =>
      (entries.any fun e => e.1.isString) = true ∨ ZendHashTable.IsList entries
  | _ => True

theorem PlainAt.decodes {z : Zval} (hz : z.Everywhere PlainAt) : z.Decodes := by
  refine decodes_of_everywhere hz fun b hb => ?_
  cases b with
  | array entries => exact hb.2
  | _ => trivial

/-- The conversion does not panic on such a value. -/
theorem PlainAt.converts {z : Zval} (hz : z.Everywhere PlainAt) :
    (zvalToValue z).isSome = true :=
  (converts_iff hz).mpr (decodes hz)

theorem PlainAt.value_array {entries : ZendHashTable}
    (hz : (Zval.array entries).Everywhere PlainAt) :
    (Zval.array entries).value =
      if entries.any fun e => e.1.isString then
        .object (insertAll (entries.map fun e => (e.1.text, e.2.value)) [])
      else .array (entries.map fun e => e.2.value) :=
  Zval.value_array hz.root.2 fun _ he => converts (hz.child (List.mem_map_of_mem he))

/-- One array is read alike exactly when it is list-like and its values are. -/
theorem array_reads_agree_iff {entries : ZendHashTable}
    (hz : (Zval.array entries).Everywhere PlainAt) :
    (Zval.array entries).value = jsonValue (.array entries) ↔
      ListLikeAt (.array entries) ∧ ∀ e ∈ entries, e.2.value = jsonValue e.2 := by
  obtain ⟨hproper, hdecode⟩ := hz.root
  rw [PlainAt.value_array hz, jsonValue_array, ListLikeAt]
  by_cases hstring : (entries.any fun e => e.1.isString) = true
  · have hlist := ZendHashTable.not_isList_of_string hstring
    simp only [hstring, if_true, if_neg hlist, true_or, true_and, Value.object.injEq]
    constructor
    · intro heq e he
      have hzval := hproper.lookup_text hdecode Zval.value he
      rw [heq, hproper.lookup_text hdecode jsonValue he, Option.some.injEq] at hzval
      exact hzval.symm
    · intro hvalues
      rw [List.map_congr_left fun e he => by rw [hvalues e he]]
  · rw [Bool.not_eq_true] at hstring
    simp only [hstring, Bool.false_eq_true, if_false, false_or]
    by_cases hlist : entries.IsList
    · simp only [hlist, if_true, true_and, Value.array.injEq]
      exact List.map_inj_left
    · simp [hlist]

/-- The two readers agree exactly on values whose arrays are all list-like. -/
theorem readers_agree_iff {z : Zval} (hz : z.Everywhere PlainAt) :
    z.value = jsonValue z ↔ z.Everywhere ListLikeAt := by
  refine hz.iff_of_local (r := fun z => z.value = jsonValue z) fun b hb => ?_
  cases b with
  | array entries =>
      rw [array_reads_agree_iff hb]
      simp only [Zval.children, List.forall_mem_map]
  | string bytes => simp [Zval.value, zvalToValue, jsonValue, ListLikeAt, Zval.children]
  | null | bool _ | long _ =>
      simp [Zval.value, zvalToValue, jsonValue, ListLikeAt, Zval.children]
  | double _ | object _ | resource | reference _ => exact hb.root.elim

section Verdicts

theorem json_error_isSome (z : Zval) : ((jsonValue z).get "__error").isSome = hasErrorKey z := by
  cases z with
  | array entries =>
      rw [jsonValue_array]
      by_cases hlist : ZendHashTable.IsList entries
      · rw [if_pos hlist, hasErrorKey_of_no_string hlist.no_string]
        rfl
      · rw [if_neg hlist]
        exact object_error_isSome entries jsonValue
  | _ => rfl

/-- The readers take the same values for texts. -/
theorem asStr_agree {z : Zval} (hz : z.Everywhere PlainAt) :
    z.value.asStr = (jsonValue z).asStr := by
  cases z with
  | array entries =>
      rw [PlainAt.value_array hz, jsonValue_array]
      split <;> split <;> rfl
  | double _ | object _ | resource | reference _ => exact hz.root.elim
  | _ => rfl

/-- An array with the error key gives the same text fields to both readers. -/
theorem text_field_agree {entries : ZendHashTable}
    (hz : (Zval.array entries).Everywhere PlainAt)
    (hkey : hasErrorKey (.array entries) = true) (k : String) :
    ((Zval.array entries).value.get k).bind Value.asStr =
      ((jsonValue (.array entries)).get k).bind Value.asStr := by
  obtain ⟨hproper, hdecode⟩ := hz.root
  have hstring : (entries.any fun e => e.1.isString) = true := by
    by_contra hno
    rw [hasErrorKey_of_no_string (Bool.not_eq_true _ ▸ hno)] at hkey
    cases hkey
  have hlist := ZendHashTable.not_isList_of_string hstring
  rw [PlainAt.value_array hz, jsonValue_array, if_pos hstring, if_neg hlist, Value.get,
    Value.get]
  by_cases hk : k ∈ entries.map fun e => e.1.text
  · obtain ⟨e, he, rfl⟩ := List.mem_map.mp hk
    rw [hproper.lookup_text hdecode Zval.value he, hproper.lookup_text hdecode jsonValue he]
    exact asStr_agree (hz.child (List.mem_map_of_mem he))
  · rw [lookup_insertAll_of_notMem (by simpa using hk),
      lookup_insertAll_of_notMem (by simpa using hk)]

/-- The verdicts agree on list-like values and on every value with the error key. -/
theorem verdicts_agree_iff {z : Zval} (hz : z.Everywhere PlainAt) :
    verdict z.value = verdict (jsonValue z) ↔ z.Everywhere ListLikeAt ∨ hasErrorKey z = true := by
  rw [verdict_value (PlainAt.converts hz), verdict, json_error_isSome]
  by_cases hkey : hasErrorKey z = true
  · cases z with
    | array entries =>
        have hagree := text_field_agree hz hkey
        simp only [hkey, if_true, workerErrorFromValue, hagree, or_true]
    | _ => cases hkey
  · simp only [hkey, Bool.false_eq_true, if_false, ResponseChunk.returnValue.injEq, or_false]
    exact readers_agree_iff hz

end Verdicts

mutual

/-- How many arrays are nested in one another. -/
def nesting : Zval → Nat
  | .array entries => nestingEntries entries + 1
  | _ => 0

def nestingEntries : ZendHashTable → Nat
  | [] => 0
  | (_, z) :: rest => max (nesting z) (nestingEntries rest)

end

/-- `serde_json` on the text of `json_encode`: its recursion limit makes an error of 128
nested arrays and objects. -/
def ReadsEncoded (serde : SerdeJson) (text : Bytes) (z : Zval) : Prop :=
  if nesting z < 128 then serde.fromSlice text = .ok (jsonValue z)
  else ∃ e, serde.fromSlice text = .error e

/-- The values of the `Return` chunks. -/
def returnedValues (cs : List ResponseChunk) : List Value :=
  cs.filterMap fun
    | .returnValue v => some v
    | _ => none

theorem returnedValues_verdict {v : Value} :
    returnedValues [verdict v, .streamEnd] = if (v.get "__error").isSome then [] else [v] := by
  rw [verdict]
  split <;> rfl

/-- A handler's value built from null, booleans, integers, UTF-8 texts and arrays is
converted as the JSON path reads it exactly when each of its arrays, at every depth, has a
string key or is a list. The two paths return the same values exactly if, moreover, fewer
than 128 arrays are nested, or if the value is reported as an error; and below that depth
the streams are the same under the same condition. -/
theorem return_paths_agree_iff (serde : SerdeJson) (zend : Zend)
    (call : String → Zval → Zval → Int32 × Zval) (dispatchFn : String) (st : WorkerState)
    (r : TaskRequest) (rest : List TaskRequest) (hq : st.taskRx = r :: rest)
    (calls : List Call) (z : Zval) (hb : Returns zend call dispatchFn calls r z)
    (hz : z.Everywhere PlainAt) (text : Bytes) (hparse : ReadsEncoded serde text z) :
    let loop := streamChunks r (phpIteration serde zend call dispatchFn calls r st).effects
    let json := streamChunks r (jsonIteration serde calls text st).effects
    (zvalToValue z = some (jsonValue z) ↔ z.Everywhere ListLikeAt) ∧
      (returnedValues loop = returnedValues json ↔
        z.Everywhere ListLikeAt ∧ nesting z < 128 ∨ hasErrorKey z = true) ∧
      (nesting z < 128 → (loop = json ↔ z.Everywhere ListLikeAt ∨ hasErrorKey z = true)) := by
  intro loop json
  have hvalue := Zval.value_eq (PlainAt.converts hz)
  have hloop : loop = [verdict z.value, .streamEnd] := streamChunks_returned serde hq hb hvalue
  have herror : (z.value.get "__error").isSome = hasErrorKey z :=
    get_error_isSome (PlainAt.converts hz)
  refine ⟨?_, ?_, fun hdepth => ?_⟩
  · rw [hvalue, Option.some.injEq]
    exact readers_agree_iff hz
  · by_cases hdepth : nesting z < 128
    · rw [ReadsEncoded, if_pos hdepth] at hparse
      have hjson : json = [verdict (jsonValue z), .streamEnd] :=
        streamChunks_sent hq hb.reads hparse
      rw [hloop, hjson, returnedValues_verdict, returnedValues_verdict, herror,
        json_error_isSome, ← readers_agree_iff hz]
      cases hasErrorKey z <;> simp [hdepth]
    · rw [ReadsEncoded, if_neg hdepth] at hparse
      obtain ⟨e, he⟩ := hparse
      have hjson : returnedValues json = [] := by
        rw [show json = _ from streamChunks_malformed hq hb.reads he]
        rfl
      rw [hloop, hjson, returnedValues_verdict, herror]
      cases hasErrorKey z <;> simp [hdepth]
  · rw [ReadsEncoded, if_pos hdepth] at hparse
    have hjson : json = [verdict (jsonValue z), .streamEnd] := streamChunks_sent hq hb.reads hparse
    rw [hloop, hjson, ← verdicts_agree_iff hz]
    simp

/-- A parser for one text. -/
def singleText (text : Bytes) (v : Value) : SerdeJson :=
  { SerdeJson.ofNull with
    fromSlice := fun data =>
      if data = text then .ok v else .error "expected value at line 1 column 1" }

/-- The record `['id' => 7]` is the same on both paths. -/
theorem record_agrees :
    streamChunks (.bare 1) (phpIteration
        (singleText (asBytes "\x7b\"id\":7\x7d") (.object [("id", .number (.posInt 7))]))
        .standard (fun _ _ _ => (0, .array [(.string (asBytes "id"), .long 7)])) "dispatch" []
        (.bare 1) (initWorkerState 1 [.bare 1])).effects =
      streamChunks (.bare 1) (jsonIteration
        (singleText (asBytes "\x7b\"id\":7\x7d") (.object [("id", .number (.posInt 7))]))
        [] (asBytes "\x7b\"id\":7\x7d") (initWorkerState 1 [.bare 1])).effects := by
  refine ((return_paths_agree_iff (singleText (asBytes "\x7b\"id\":7\x7d")
    (.object [("id", .number (.posInt 7))])) .standard _ "dispatch" _ (.bare 1) [] rfl _ _
    (.constant .standard (by decide) (.bare 1)
      (.array [(.string (asBytes "id"), .long 7)])) ?_ _ ?_).2.2 (by decide)).mpr (.inl ?_)
  · refine .intro ⟨⟨by simp, ?_⟩, ?_⟩ ?_
    · intro key hkey
      have hid : key = "id" := by simpa [asBytes_injective.eq_iff] using hkey
      rw [hid]
      decide
    · simp [ZendHashTable.KeysDecode]
    · simpa [Zval.children] using Everywhere.leaf trivial rfl
  · rw [ReadsEncoded, if_pos (by decide)]
    rfl
  · refine .intro (.inl rfl) ?_
    simpa [Zval.children] using Everywhere.leaf trivial rfl

/-- A filtered array `[5 => 'a']` loses its key in the loop and keeps it on the JSON
path. -/
theorem filtered_array_differs :
    (singleText (asBytes "\x7b\"5\":\"a\"\x7d") (.object [("5", .string "a")])).fromSlice
        (asBytes "\x7b\"5\":\"a\"\x7d") =
      .ok (jsonValue (.array [(.long 5, .string (asBytes "a"))])) ∧
    streamChunks (.bare 1) (phpIteration
        (singleText (asBytes "\x7b\"5\":\"a\"\x7d") (.object [("5", .string "a")]))
        .standard (fun _ _ _ => (0, .array [(.long 5, .string (asBytes "a"))])) "dispatch" []
        (.bare 1) (initWorkerState 1 [.bare 1])).effects =
      [.returnValue (.array [.string "a"]), .streamEnd] ∧
    streamChunks (.bare 1) (jsonIteration
        (singleText (asBytes "\x7b\"5\":\"a\"\x7d") (.object [("5", .string "a")]))
        [] (asBytes "\x7b\"5\":\"a\"\x7d") (initWorkerState 1 [.bare 1])).effects =
      [.returnValue (.object [("5", .string "a")]), .streamEnd] ∧
    zvalToValue (.array [(.long 5, .string (asBytes "a"))]) ≠
      some (jsonValue (.array [(.long 5, .string (asBytes "a"))])) := by
  refine ⟨rfl, rfl, rfl, fun h => ?_⟩
  have hshape : some (Value.array [.string "a"]) = some (.object [("5", .string "a")]) := h
  cases hshape

end FolkCore.Bridge
