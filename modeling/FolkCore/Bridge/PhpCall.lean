import FolkCore.Bridge.PathAgreement
import FolkCore.Data.Zval

/-!
# The call of the PHP handler

`call_dispatch` converts the request to PHP values, calls the PHP function and
converts what it returns. A handler that only reads its request body and returns a
value leaves the finaliser of either dispatch path to push its single verdict. A
conversion that panics unwinds the loop before its finaliser.
-/

namespace FolkCore.Bridge

open Lib

/-- `call_dispatch`, `none` where the conversion of the returned value panics. The C function
gets the name, the method and the parameters; it answers a return code and the value of the
PHP function. -/
def callDispatch (zend : Zend) (call : String → Zval → Zval → Int32 × Zval)
    (funcName method : String) (params : Value) : Option (Except String Value) :=
  if '\x00' ∈ funcName.toList then some (.error "func_name contains null byte")
  else
    let (ret, retval) := call funcName (.string (asBytes method)) (valueToZval zend params)
    if ret ≠ 0 then
      some (.error ("call_user_function(" ++ funcName ++ ") failed (code " ++ toString ret ++ ")"))
    else (zvalToValue retval).map .ok

/-- An iteration of the loop whose handler makes `calls` and whose `call_dispatch` gives
`result`. A panic ends it before the finaliser. -/
def handledIteration (serde : SerdeJson) (calls : List Call) (result : Option (Except String Value))
    (st : WorkerState) : Outcome (List Reply) :=
  match result with
  | some result => run serde (.loopRecv :: (calls.map .call ++ [.loopFinish result])) st
  | none => run serde (.loopRecv :: calls.map .call) st

/-- The iteration of `run_dispatch_loop` for request `r`, over a PHP function that makes
`calls`. -/
def phpIteration (serde : SerdeJson) (zend : Zend) (call : String → Zval → Zval → Int32 × Zval)
    (dispatchFn : String) (calls : List Call) (r : TaskRequest) (st : WorkerState) :
    Outcome (List Reply) :=
  handledIteration serde calls (callDispatch zend call dispatchFn r.method r.payload) st

/-- The calls that read the request body. -/
def Call.readsBody : Call → Bool
  | .read _ | .readAll | .nextPart | .partRead _ | .partReadAll => true
  | _ => false

variable {serde : SerdeJson} {st : WorkerState} {r : TaskRequest}

/-- A handler that answers by its return value: it calls no response function and the
PHP function `dispatchFn` returns `z` for the request. -/
structure Returns (zend : Zend) (call : String → Zval → Zval → Int32 × Zval)
    (dispatchFn : String) (calls : List Call) (r : TaskRequest) (z : Zval) : Prop where
  reads : ∀ c ∈ calls, c.readsBody = true
  name : '\x00' ∉ dispatchFn.toList
  returned : call dispatchFn (.string (asBytes r.method)) (valueToZval zend r.payload) = (0, z)

theorem Returns.dispatch_eq {zend : Zend} {call : String → Zval → Zval → Int32 × Zval}
    {dispatchFn : String} {calls : List Call} {z : Zval}
    (h : Returns zend call dispatchFn calls r z) :
    callDispatch zend call dispatchFn r.method r.payload = (zvalToValue z).map .ok := by
  simp [callDispatch, h.name, h.returned]

/-- A PHP function that returns `z` whatever it is called with. -/
theorem Returns.constant (zend : Zend) {dispatchFn : String}
    (hname : '\x00' ∉ dispatchFn.toList) (r : TaskRequest) (z : Zval) :
    Returns zend (fun _ _ _ => (0, z)) dispatchFn [] r z where
  reads := nofun
  name := hname
  returned := rfl

variable (serde) in
/-- A body read has no effect outside the body. -/
theorem reading_call (st : WorkerState) {c : Call} (hc : c.readsBody = true) :
    (Call.outcome serde st c).effects = [] ∧
      (Call.outcome serde st c).state.session = st.session := by
  cases c with
  | read length => exact ⟨rfl, (doRead_frame st length).session⟩
  | readAll => exact ⟨rfl, (doReadAll_frame st).session⟩
  | nextPart => exact ⟨rfl, (doNextPart_frame serde st).session⟩
  | partRead length => exact ⟨rfl, (doPartRead_frame st length).session⟩
  | partReadAll => exact ⟨rfl, (doPartReadAll_frame st).session⟩
  | _ => cases hc

variable (serde) in
theorem reading_calls (st : WorkerState) {calls : List Call}
    (hcalls : ∀ c ∈ calls, c.readsBody = true) :
    (run serde (calls.map .call) st).effects = [] ∧
      (run serde (calls.map .call) st).state.session = st.session := by
  induction calls generalizing st with
  | nil => exact ⟨rfl, rfl⟩
  | cons c rest ih =>
      obtain ⟨heffects, hsession⟩ := reading_call serde st (hcalls c List.mem_cons_self)
      obtain ⟨heffects', hsession'⟩ :=
        ih (Call.outcome serde st c).state fun c' hc' => hcalls c' (List.mem_cons_of_mem _ hc')
      simp only [List.map_cons, run, Step.outcome]
      exact ⟨by rw [heffects, heffects', List.append_nil], hsession'.trans hsession⟩

variable (serde) in
/-- The served request after the reads: it is pending and nothing was pushed. -/
theorem reading_holds {calls : List Call} (hcalls : ∀ c ∈ calls, c.readsBody = true)
    (st : WorkerState) (r : TaskRequest) (rest : List TaskRequest) :
    let served := run serde (calls.map .call) (st.accept r rest)
    served.effects = [] ∧ served.state.Holds r ∧ served.state.streamStarted = false := by
  obtain ⟨heffects, hsession⟩ := reading_calls serde (st.accept r rest) hcalls
  exact ⟨heffects, WorkerState.holds_of_session hsession (st.accept_holds r rest),
    WorkerState.started_of_session hsession⟩

section Iterations

variable {zend : Zend} {call : String → Zval → Zval → Int32 × Zval} {dispatchFn : String}
  {rest : List TaskRequest} {calls : List Call} {z : Zval}

variable (serde) in
/-- The loop pushes the verdict on the returned value. -/
theorem streamChunks_returned (hq : st.taskRx = r :: rest)
    (h : Returns zend call dispatchFn calls r z) {v : Value} (hvalue : zvalToValue z = some v) :
    streamChunks r (phpIteration serde zend call dispatchFn calls r st).effects =
      [verdict v, .streamEnd] := by
  obtain ⟨heffects, hholds, hstarted⟩ := reading_holds serde h.reads st r rest
  simp only [phpIteration, h.dispatch_eq, hvalue, Option.map_some, handledIteration, run,
    loopRecv_outcome serde hq, run_snoc, heffects, streamChunks_append, streamChunks_release,
    List.nil_append]
  rw [streamChunks_loopFinish hholds, hstarted]
  rfl

variable (serde) in
/-- A conversion that panics leaves the stream without a chunk. -/
theorem streamChunks_panicked (hq : st.taskRx = r :: rest)
    (h : Returns zend call dispatchFn calls r z) (hpanics : zvalToValue z = none) :
    streamChunks r (phpIteration serde zend call dispatchFn calls r st).effects = [] := by
  obtain ⟨heffects, _⟩ := reading_holds serde h.reads st r rest
  simp only [phpIteration, h.dispatch_eq, hpanics, Option.map_none, handledIteration, run,
    loopRecv_outcome serde hq, heffects, streamChunks_append, streamChunks_release,
    List.nil_append]
  rfl

/-- The JSON path pushes the verdict on the value of the sent text. -/
theorem streamChunks_sent (hq : st.taskRx = r :: rest)
    (hreads : ∀ c ∈ calls, c.readsBody = true) {text : Bytes} {v : Value}
    (hparse : serde.fromSlice text = .ok v) :
    streamChunks r (jsonIteration serde calls text st).effects = [verdict v, .streamEnd] := by
  obtain ⟨heffects, hholds, _⟩ := reading_holds serde hreads st r rest
  simp only [jsonIteration, run, recv_outcome serde hq, run_snoc, heffects,
    streamChunks_append, streamChunks_release, List.nil_append]
  exact streamChunks_send hholds hparse

/-- The JSON path reports a text that does not parse. -/
theorem streamChunks_malformed (hq : st.taskRx = r :: rest)
    (hreads : ∀ c ∈ calls, c.readsBody = true) {text : Bytes} {e : String}
    (hparse : serde.fromSlice text = .error e) :
    streamChunks r (jsonIteration serde calls text st).effects =
      [.error (.new ("PHP returned malformed JSON: " ++ e)), .streamEnd] := by
  obtain ⟨heffects, hholds, _⟩ := reading_holds serde hreads st r rest
  simp only [jsonIteration, run, recv_outcome serde hq, run_snoc, heffects,
    streamChunks_append, streamChunks_release, List.nil_append]
  simp [streamChunks, Step.outcome, Call.outcome, doSend, Outcome.map, hholds.1, hholds.2,
    hparse, history, chunks, Effect.mark, List.filterMap_cons]

end Iterations

section ErrorKey

/-- The value is an array with the key `__error`. -/
def hasErrorKey : Zval → Bool
  | .array entries => entries.any fun e => e.1 = .string (asBytes "__error")
  | _ => false

/-- `__error` names no other key: it is no decimal text, and a key without a name has the
empty one. -/
theorem text_eq_error_iff (key : ArrayKey) :
    key.text = "__error" ↔ key = .string (asBytes "__error") := by
  cases key with
  | long i =>
      have hdecimal : ¬IsDecimal "__error" := by decide
      simp only [ArrayKey.text, ArrayKey.text?, Option.getD_some, reduceCtorEq, iff_false]
      exact fun h => hdecimal ⟨i, h⟩
  | string bytes =>
      cases hvalid : fromUtf8? bytes with
      | none =>
          simp only [ArrayKey.text, ArrayKey.text?, hvalid, Option.getD_none,
            ArrayKey.string.injEq]
          constructor
          · intro h
            exact absurd h (by decide)
          · rintro rfl
            simp at hvalid
      | some s =>
          rw [fromUtf8?_eq_some_iff] at hvalid
          subst hvalid
          simp [ArrayKey.text, ArrayKey.text?, asBytes_injective.eq_iff]

/-- The object of a table has an error field exactly when the table has the key. -/
theorem object_error_isSome (entries : ZendHashTable) (f : Zval → Value) :
    ((Value.object (insertAll (entries.map fun e => (e.1.text, f e.2)) [])).get
      "__error").isSome = hasErrorKey (.array entries) := by
  rw [Bool.eq_iff_iff, Value.get, lookup_insertAll_isSome_iff, hasErrorKey]
  simp [text_eq_error_iff]

/-- Without string keys there is no error key. -/
theorem hasErrorKey_of_no_string {entries : ZendHashTable}
    (hstring : (entries.any fun e => e.1.isString) = false) :
    hasErrorKey (.array entries) = false := by
  refine List.any_eq_false.mpr fun e he hkey => ?_
  refine List.any_eq_false.mp hstring e he ?_
  rw [of_decide_eq_true hkey]
  rfl

/-- The converted value has an error field exactly when the PHP value has the key. -/
theorem get_error_isSome {z : Zval} (hz : (zvalToValue z).isSome = true) :
    (z.value.get "__error").isSome = hasErrorKey z := by
  cases z with
  | array entries =>
      obtain ⟨hdecode, hvalues⟩ := isSome_array_iff.mp hz
      rw [Zval.value_array hdecode hvalues]
      by_cases hstring : (entries.any fun e => e.1.isString) = true
      · rw [if_pos hstring]
        exact object_error_isSome entries Zval.value
      · rw [if_neg hstring, hasErrorKey_of_no_string (Bool.not_eq_true _ ▸ hstring)]
        rfl
  | double bits =>
      simp only [Zval.value, zvalToValue, Option.getD_some, jsonDouble, hasErrorKey]
      split <;> rfl
  | _ => rfl

/-- The verdict on a converted value. -/
theorem verdict_value {z : Zval} (hz : (zvalToValue z).isSome = true) :
    verdict z.value =
      if hasErrorKey z then .error (workerErrorFromValue z.value) else .returnValue z.value := by
  rw [verdict, get_error_isSome hz]

end ErrorKey

end FolkCore.Bridge
