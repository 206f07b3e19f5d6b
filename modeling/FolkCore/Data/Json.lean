import Mathlib.Data.List.Basic

/-!
# JSON values and worker errors

`Value` is `serde_json::Value`. An object is the ordered list of its fields;
`insertField` keeps the key order of `serde_json::Map` and overwrites an equal
key. Parsing and printing belong to the `serde_json` crate and enter the model
through `SerdeJson`.
-/

namespace FolkCore

/-- A byte string: `Vec<u8>`, `Bytes` and `&[u8]` of the source. -/
abbrev Bytes := List UInt8

/-- The three number representations of `serde_json`; a float is its bit pattern. -/
inductive Number where
  | posInt (n : UInt64)
  | negInt (i : Int64)
  | float (bits : UInt64)
  deriving DecidableEq, Repr

inductive Value where
  | null
  | bool (b : Bool)
  | number (n : Number)
  | string (s : String)
  | array (items : List Value)
  | object (fields : List (String × Value))

namespace Value

/-- `Map::insert`: the fields stay in key order and an equal key is replaced. -/
def insertField (key : String) (v : Value) : List (String × Value) → List (String × Value)
  | [] => [(key, v)]
  | (k, w) :: rest =>
      if key = k then (k, v) :: rest
      else if key < k then (key, v) :: (k, w) :: rest
      else (k, w) :: insertField key v rest

/-- The object that the `json!` macro or a `collect` builds from its fields. -/
def ofFields (fields : List (String × Value)) : Value :=
  .object (fields.foldl (fun m f => insertField f.1 f.2 m) [])

/-- `Value::get` with a string index: only objects have fields. -/
def get (key : String) : Value → Option Value
  | .object fields => fields.lookup key
  | _ => none

def asStr : Value → Option String
  | .string s => some s
  | _ => none

/-- A missing text is printed as `null`. -/
def ofOption : Option String → Value
  | some s => .string s
  | none => .null

end Value

/-- The fatal error of a worker. Class and trace are present in dev mode only. -/
structure WorkerError where
  message : String
  exceptionClass : Option String
  stacktrace : Option String
  deriving DecidableEq, Repr

/-- `WorkerError::new` sets the message alone. -/
def WorkerError.new (message : String) : WorkerError :=
  { message, exceptionClass := none, stacktrace := none }

/-- The functions of the `serde_json` crate that the program calls. A parse
failure carries the text of its error. -/
structure SerdeJson where
  fromSlice : Bytes → Except String Value
  toVec : Value → Option Bytes
  toText : Value → String

/-- A parser and printer for the text `null` alone, where they agree with the crate. -/
def SerdeJson.ofNull : SerdeJson where
  fromSlice data :=
    if data = [110, 117, 108, 108] then .ok .null
    else .error "expected value at line 1 column 1"
  toVec _ := some [110, 117, 108, 108]
  toText _ := "null"

/-- Build a `WorkerError` from an `{__error, __error_class, __error_trace}` value. -/
def workerErrorFromValue (v : Value) : WorkerError :=
  { message := ((v.get "__error").bind Value.asStr).getD "worker error"
    exceptionClass := (v.get "__error_class").bind Value.asStr
    stacktrace := (v.get "__error_trace").bind Value.asStr }

end FolkCore
