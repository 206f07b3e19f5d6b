import FolkCore.Bridge.PhpCall

/-!
# The texts of a returned value

`Carries z v` says that every string leaf and every string key of the PHP value `z`
stands in the JSON value `v` byte for byte at its place. The conversion has no error:
bytes that are not UTF-8 become the empty text, objects and references become `null`, and
at a string key that is not UTF-8 it panics. What it carries is decided node by node, by
`ReadableAt`.
-/

namespace FolkCore.Bridge

open Lib

/-- The place of the entry with number `n` and key `key` in a JSON value. -/
def placeAt (n : Nat) : ArrayKey → Value → Option Value
  | .long _, .array items => items[n]?
  | .long i, .object fields => fields.lookup (toString i.toInt)
  | .string bytes, .object fields => (fromUtf8? bytes).bind fun name => fields.lookup name
  | _, _ => none

/-- There is no string at this node and no string key. -/
def TextlessAt : Zval → Prop
  | .string _ => False
  | .array entries => ∀ e ∈ entries, e.1.isString = false
  | .object props => props = []
  | _ => True

mutual

/-- Every string leaf and every string key stands at its place. An entry under an
integer key needs no place when there is no string in it. -/
def Carries : Zval → Value → Prop
  | .string bytes, v => ∃ s, v = .string s ∧ asBytes s = bytes
  | .array entries, v => CarriesEntries 0 entries v
  | .object props, v => CarriesProps props v
  | .reference target, v => Carries target v
  | .null, _ | .bool _, _ | .long _, _ | .double _, _ | .resource, _ => True

def CarriesEntries : Nat → ZendHashTable → Value → Prop
  | _, [], _ => True
  | n, (key, z) :: rest, v =>
      (key.isString = false ∧ z.Everywhere TextlessAt ∨
          ∃ w, placeAt n key v = some w ∧ Carries z w) ∧
        CarriesEntries (n + 1) rest v

def CarriesProps : List (Bytes × Zval) → Value → Prop
  | [], _ => True
  | (name, z) :: rest, v =>
      (∃ w, placeAt 0 (.string name) v = some w ∧ Carries z w) ∧ CarriesProps rest v

end

/-- The entries one by one. -/
theorem carriesEntries_iff (n : Nat) (entries : ZendHashTable) (v : Value) :
    CarriesEntries n entries v ↔
      ∀ i e, entries[i]? = some e →
        e.1.isString = false ∧ e.2.Everywhere TextlessAt ∨
          ∃ w, placeAt (n + i) e.1 v = some w ∧ Carries e.2 w := by
  induction entries generalizing n with
  | nil => simp [CarriesEntries]
  | cons e rest ih =>
      obtain ⟨key, z⟩ := e
      rw [CarriesEntries, ih]
      constructor
      · rintro ⟨hfirst, hrest⟩ i e he
        cases i with
        | zero =>
            cases he
            exact hfirst
        | succ i =>
            have hplace := hrest i e he
            rwa [Nat.add_assoc, Nat.add_comm 1] at hplace
      · intro h
        refine ⟨h 0 (key, z) rfl, fun i e he => ?_⟩
        have hplace := h (i + 1) e he
        rwa [Nat.add_assoc, Nat.add_comm 1]

/-- A value without strings is carried by every JSON value. -/
theorem carries_of_textless {z : Zval} (hz : z.Everywhere TextlessAt) (v : Value) :
    Carries z v := by
  induction hz generalizing v with
  | @intro z root child ih =>
      cases z with
      | string bytes => exact root.elim
      | array entries =>
          rw [Carries, carriesEntries_iff]
          intro i e he
          have hmem := List.mem_of_getElem? he
          exact .inl ⟨root e hmem, child e.2 (List.mem_map_of_mem hmem)⟩
      | object props =>
          change props = [] at root
          rw [Carries, root, CarriesProps]
          trivial
      | reference target =>
          rw [Carries]
          exact ih target List.mem_cons_self v
      | _ => simp [Carries]

/-- `null` carries nothing. -/
theorem textless_of_carries_null {p : Zval → Prop} {z : Zval} (hz : z.Everywhere p)
    (h : Carries z .null) : z.Everywhere TextlessAt := by
  induction hz with
  | @intro z _ _ ih =>
      cases z with
      | string bytes =>
          rw [Carries] at h
          obtain ⟨s, hs, _⟩ := h
          cases hs
      | array entries =>
          rw [Carries, carriesEntries_iff] at h
          have hentry : ∀ e ∈ entries, e.1.isString = false ∧ e.2.Everywhere TextlessAt := by
            intro e he
            obtain ⟨i, hi⟩ := List.mem_iff_getElem?.mp he
            rcases h i e hi with htextless | ⟨w, hw, _⟩
            · exact htextless
            · cases hkey : e.1 <;> simp [placeAt, hkey] at hw
          refine .intro (fun e he => (hentry e he).1) fun c hc => ?_
          obtain ⟨e, he, rfl⟩ := List.mem_map.mp hc
          exact (hentry e he).2
      | object props =>
          have hprops : props = [] := by
            cases props with
            | nil => rfl
            | cons f rest =>
                rw [Carries, CarriesProps] at h
                obtain ⟨⟨w, hw, _⟩, _⟩ := h
                simp [placeAt] at hw
          exact .leaf hprops (by rw [hprops]; rfl)
      | reference target =>
          rw [Carries] at h
          have htarget := ih target List.mem_cons_self h
          exact .intro trivial (by simpa [Zval.children] using htarget)
      | _ => exact .leaf trivial rfl

/-- What PHP keeps at one node. -/
def ProperAt : Zval → Prop
  | .array entries => ZendHashTable.Proper entries
  | _ => True

/-- The strings at one node are texts and the conversion keeps them. -/
def ReadableAt : Zval → Prop
  | .string bytes => (fromUtf8? bytes).isSome = true
  | .array entries => ZendHashTable.KeysDecode entries
  | .object props => props = []
  | .reference target => target.Everywhere TextlessAt
  | _ => True

theorem readable_of_textless {z : Zval} (h : z.Everywhere TextlessAt) :
    z.Everywhere ReadableAt := by
  induction h with
  | @intro z root child ih =>
      refine .intro ?_ ih
      cases z with
      | string bytes => exact root.elim
      | array entries =>
          intro bytes hbytes
          obtain ⟨e, he, hkey⟩ := List.mem_map.mp hbytes
          have hlong := root e he
          rw [hkey] at hlong
          cases hlong
      | object props => exact root
      | reference target => exact child target List.mem_cons_self
      | _ => trivial

theorem ReadableAt.decodes {z : Zval} (h : z.Everywhere ReadableAt) : z.Decodes := by
  refine decodes_of_everywhere h fun b hb => ?_
  cases b with
  | array entries => exact hb
  | _ => trivial

/-- In the object of a table the place of an entry holds its value. -/
theorem placeAt_object {entries : ZendHashTable} (hproper : entries.Proper)
    (hdecode : entries.KeysDecode) {e : ArrayKey × Zval} (he : e ∈ entries) (n : Nat) :
    placeAt n e.1 (.object (insertAll (entries.map fun e => (e.1.text, e.2.value)) [])) =
      some e.2.value := by
  rw [← hproper.lookup_text hdecode Zval.value he]
  obtain ⟨key, z⟩ := e
  cases key with
  | long i => rfl
  | string bytes =>
      obtain ⟨s, hs⟩ := Option.isSome_iff_exists.mp
        (hdecode bytes (List.mem_map_of_mem (f := Prod.fst) he))
      simp [placeAt, ArrayKey.text, ArrayKey.text?, hs]

/-- In the array of a table without string keys the place of an entry holds its value. -/
theorem placeAt_array {entries : ZendHashTable}
    (hstring : (entries.any fun e => e.1.isString) = false) {i : Nat} {e : ArrayKey × Zval}
    (hi : entries[i]? = some e) :
    placeAt i e.1 (.array (entries.map fun e => e.2.value)) = some e.2.value := by
  have hlong := List.any_eq_false.mp hstring e (List.mem_of_getElem? hi)
  obtain ⟨key, z⟩ := e
  cases key with
  | long k => simp [placeAt, hi]
  | string bytes => exact absurd rfl hlong

/-- A table that the conversion reads carries its entries exactly when each value is
carried. -/
theorem carries_array_iff {entries : ZendHashTable} (hproper : entries.Proper)
    (hdecode : entries.KeysDecode)
    (hvalues : ∀ e ∈ entries, (zvalToValue e.2).isSome = true) :
    Carries (.array entries) (Zval.array entries).value ↔
      ∀ e ∈ entries, Carries e.2 e.2.value := by
  have hplace : ∀ i e, entries[i]? = some e →
      placeAt (0 + i) e.1 (Zval.array entries).value = some e.2.value := by
    intro i e hi
    rw [Zval.value_array hdecode hvalues, Nat.zero_add]
    by_cases hstring : (entries.any fun e => e.1.isString) = true
    · rw [if_pos hstring]
      exact placeAt_object hproper hdecode (List.mem_of_getElem? hi) i
    · rw [if_neg hstring]
      exact placeAt_array (Bool.not_eq_true _ ▸ hstring) hi
  rw [Carries, carriesEntries_iff]
  constructor
  · intro h e he
    obtain ⟨i, hi⟩ := List.mem_iff_getElem?.mp he
    rcases h i e hi with ⟨_, htextless⟩ | ⟨w, hw, hcarries⟩
    · exact carries_of_textless htextless _
    · rw [hplace i e hi, Option.some.injEq] at hw
      rw [hw]
      exact hcarries
  · intro h i e hi
    exact .inr ⟨_, hplace i e hi, h e (List.mem_of_getElem? hi)⟩

/-- A conversion without a panic carries a value exactly when every node of it is
readable. -/
theorem carries_iff_readable {z : Zval} (hz : z.Everywhere ProperAt) (hdecodes : z.Decodes) :
    Carries z z.value ↔ z.Everywhere ReadableAt := by
  induction hz with
  | @intro z root child ih =>
      refine Iff.trans ?_ Everywhere.iff_node.symm
      cases z with
      | string bytes =>
          simp only [Zval.value, zvalToValue, Option.getD_some, Carries, ReadableAt,
            Zval.children, List.not_mem_nil, false_imp_iff, implies_true, and_true]
          cases hvalid : fromUtf8? bytes with
          | none =>
              simp only [Option.isSome_none, Bool.false_eq_true, iff_false]
              rintro ⟨s, _, hs⟩
              rw [fromUtf8?_eq_some_iff.mpr hs] at hvalid
              cases hvalid
          | some s => exact iff_of_true ⟨s, rfl, fromUtf8?_eq_some_iff.mp hvalid⟩ rfl
      | array entries =>
          have hdecode : ZendHashTable.KeysDecode entries := hdecodes.root
          have hbelow {e : ArrayKey × Zval} (he : e ∈ entries) : e.2.Decodes :=
            hdecodes.child (List.mem_map_of_mem he)
          rw [carries_array_iff root hdecode fun e he =>
            (converts_iff (child e.2 (List.mem_map_of_mem he))).mpr (hbelow he)]
          simp only [ReadableAt, hdecode, true_and, Zval.children, List.forall_mem_map]
          exact forall₂_congr fun e he => ih e.2 (List.mem_map_of_mem he) (hbelow he)
      | object props =>
          cases props with
          | nil => simp [Carries, CarriesProps, ReadableAt, Zval.children]
          | cons f rest =>
              simp [Carries, CarriesProps, Zval.value, zvalToValue, placeAt, ReadableAt]
      | reference target =>
          have hnull : (Zval.reference target).value = .null := rfl
          simp only [hnull, Carries, ReadableAt, Zval.children, List.forall_mem_singleton]
          constructor
          · intro h
            have htextless := textless_of_carries_null (child target List.mem_cons_self) h
            exact ⟨htextless, readable_of_textless htextless⟩
          · rintro ⟨htextless, _⟩
            exact carries_of_textless htextless _
      | _ => simp [Carries, ReadableAt, Zval.children]

/-- The strings at one node are texts. -/
def RepresentableAt : Zval → Prop
  | .string bytes => (fromUtf8? bytes).isSome = true
  | .array entries => ZendHashTable.KeysDecode entries
  | .object props => ∀ f ∈ props, (fromUtf8? f.1).isSome = true
  | _ => True

theorem ReadableAt.representable {z : Zval} (h : ReadableAt z) : RepresentableAt z := by
  cases z with
  | object props =>
      change props = [] at h
      simp [RepresentableAt, h]
  | string | array => exact h
  | _ => trivial

/-- A pushed value carries every string of `z`, and a value with a string that is no
text is reported as an error. -/
def Delivers (z : Zval) (chunks : List ResponseChunk) : Prop :=
  (∀ v, .returnValue v ∈ chunks → Carries z v) ∧
    (¬z.Everywhere RepresentableAt → ∃ e, .error e ∈ chunks)

theorem RepresentableAt.decodes {z : Zval} (h : z.Everywhere RepresentableAt) : z.Decodes := by
  refine decodes_of_everywhere h fun b hb => ?_
  cases b with
  | array entries => exact hb
  | _ => trivial

/-- The loop delivers the strings of a returned value exactly when all of them are UTF-8
and none is in an object or behind a reference, or when the value is reported as an
error and the conversion does not panic. -/
theorem delivers_iff (serde : SerdeJson) (zend : Zend)
    (call : String → Zval → Zval → Int32 × Zval) (dispatchFn : String) (st : WorkerState)
    (r : TaskRequest) (rest : List TaskRequest) (hq : st.taskRx = r :: rest)
    (calls : List Call) (z : Zval) (hb : Returns zend call dispatchFn calls r z)
    (hz : z.Everywhere ProperAt) :
    Delivers z (streamChunks r (phpIteration serde zend call dispatchFn calls r st).effects) ↔
      z.Everywhere ReadableAt ∨ hasErrorKey z = true ∧ z.Decodes := by
  by_cases hdecodes : z.Decodes
  · have hconverts := (converts_iff hz).mpr hdecodes
    rw [streamChunks_returned serde hq hb (Zval.value_eq hconverts), verdict_value hconverts,
      Delivers]
    by_cases hkey : hasErrorKey z = true
    · simp [hkey, hdecodes]
    · rw [if_neg hkey, ← carries_iff_readable hz hdecodes]
      simp only [hkey, Bool.false_eq_true, false_and, or_false]
      constructor
      · rintro ⟨hcarries, _⟩
        exact hcarries _ List.mem_cons_self
      · intro h
        refine ⟨fun v hv => ?_, fun hrepresentable => absurd ?_ hrepresentable⟩
        · have heq : v = z.value := by simpa using hv
          rw [heq]
          exact h
        · exact ((carries_iff_readable hz hdecodes).mp h).mono fun _ => ReadableAt.representable
  · have hpanics : zvalToValue z = none := by
      rw [← Option.not_isSome_iff_eq_none, converts_iff hz]
      exact hdecodes
    rw [streamChunks_panicked serde hq hb hpanics, Delivers]
    refine iff_of_false ?_ ?_
    · rintro ⟨_, herror⟩
      obtain ⟨e, he⟩ := herror fun h => hdecodes (RepresentableAt.decodes h)
      cases he
    · rintro (hreadable | ⟨_, h⟩)
      · exact hdecodes (ReadableAt.decodes hreadable)
      · exact hdecodes h

/-- The record `['name' => 'Zoë']` is delivered. -/
theorem named_record_delivered :
    Delivers (.array [(.string (asBytes "name"), .string (asBytes "Zoë"))])
      (streamChunks (.bare 1) (phpIteration .ofNull .standard (fun _ _ _ =>
          (0, .array [(.string (asBytes "name"), .string (asBytes "Zoë"))])) "dispatch" []
        (.bare 1) (initWorkerState 1 [.bare 1])).effects) := by
  refine (delivers_iff .ofNull .standard _ "dispatch" _ (.bare 1) [] rfl _ _
    (.constant .standard (by decide) (.bare 1)
      (.array [(.string (asBytes "name"), .string (asBytes "Zoë"))])) ?_).mpr (.inl ?_)
  · refine .intro ⟨by simp, fun key hkey => ?_⟩ ?_
    · have hname : key = "name" := by simpa [asBytes_injective.eq_iff] using hkey
      rw [hname]
      decide
    · simpa [Zval.children] using Everywhere.leaf trivial rfl
  · refine .intro (by simp [ReadableAt, ZendHashTable.KeysDecode]) ?_
    simpa [Zval.children] using Everywhere.leaf (by simp [ReadableAt]) rfl

/-- A byte string that is not UTF-8 is pushed as a successful empty text. -/
theorem binary_result_blanked :
    streamChunks (.bare 1) (phpIteration .ofNull .standard (fun _ _ _ => (0, .string [0xFF]))
        "dispatch" [] (.bare 1) (initWorkerState 1 [.bare 1])).effects =
      [.returnValue (.string ""), .streamEnd] ∧
    ¬Delivers (.string [0xFF]) (streamChunks (.bare 1) (phpIteration .ofNull .standard
        (fun _ _ _ => (0, .string [0xFF])) "dispatch" [] (.bare 1)
        (initWorkerState 1 [.bare 1])).effects) := by
  have hchunks : streamChunks (.bare 1) (phpIteration .ofNull .standard
      (fun _ _ _ => (0, .string [0xFF])) "dispatch" [] (.bare 1)
      (initWorkerState 1 [.bare 1])).effects = [.returnValue (.string ""), .streamEnd] := rfl
  refine ⟨hchunks, fun ⟨hcarries, _⟩ => ?_⟩
  rw [hchunks] at hcarries
  obtain ⟨s, hs, hbytes⟩ := by simpa only [Carries] using hcarries (.string "") List.mem_cons_self
  cases hs
  exact absurd hbytes (by decide)

/-- A key that is not UTF-8 panics, beside an error key too: nothing is pushed. -/
example : streamChunks (.bare 1) (phpIteration .ofNull .standard
    (fun _ _ _ => (0, .array [(.string (asBytes "__error"), .string (asBytes "boom")),
      (.string [0xFF], .long 1)])) "dispatch" [] (.bare 1)
    (initWorkerState 1 [.bare 1])).effects = [] := rfl

end FolkCore.Bridge
