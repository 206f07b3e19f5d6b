import FolkCore.Data.Json

/-!
# Messages between the pool, the bridge and the consumer

Channel endpoints are numbers: a `StreamTx` names the response stream that
`dispatch_streamed` opens for one request, a `DoneTx` the oneshot channel that
`execute_streaming` opens for one call. Both functions open a fresh channel.
A request body is the list of items still to come on its channel; the channel
closes after the last one.
-/

namespace FolkCore

/-- The UUID of a request. `dispatch_streamed` never draws the same one twice. -/
abbrev RequestId := Nat

abbrev StreamTx := Nat

abbrev DoneTx := Nat

/-- One item of a response stream. `returnValue` and `streamEnd` are the
source's `Return` and `End`. -/
inductive ResponseChunk where
  | headers (status : UInt16) (headers : List (String × String))
  | body (data : Bytes)
  | returnValue (v : Value)
  | error (e : WorkerError)
  | streamEnd

namespace ResponseChunk

def isHeaders : ResponseChunk → Bool
  | .headers _ _ => true
  | _ => false

def isBody : ResponseChunk → Bool
  | .body _ => true
  | _ => false

def isError : ResponseChunk → Bool
  | .error _ => true
  | _ => false

/-- The worker's verdict on a request: its value or its fatal error. -/
def isVerdict : ResponseChunk → Bool
  | .returnValue _ => true
  | .error _ => true
  | _ => false

def isEnd : ResponseChunk → Bool
  | .streamEnd => true
  | _ => false

end ResponseChunk

/-- The header fields of one multipart part. -/
structure PartHeader where
  name : Option String
  filename : Option String
  contentType : Option String
  deriving DecidableEq, Repr

/-- The JSON object that `folk_next_part` hands to PHP. -/
def PartHeader.toValue (h : PartHeader) : Value :=
  .ofFields [("name", .ofOption h.name), ("filename", .ofOption h.filename),
    ("content_type", .ofOption h.contentType)]

/-- One item of a multipart stream; `partEnd` is the source's `End`. -/
inductive RequestPart where
  | start (header : PartHeader)
  | data (chunk : Bytes)
  | partEnd
  deriving DecidableEq, Repr

/-- A streaming request body, as the items its channel still delivers. -/
inductive RequestBody where
  | raw (chunks : List Bytes)
  | parts (items : List RequestPart)
  deriving DecidableEq, Repr

/-- The bytes that an item of a multipart stream carries. -/
def RequestPart.bytes : RequestPart → Bytes
  | .data chunk => chunk
  | _ => []

/-- All bytes that a body still delivers, in order. -/
def RequestBody.bytes : RequestBody → Bytes
  | .raw chunks => chunks.flatten
  | .parts items => items.flatMap RequestPart.bytes

/-- A request sent from the server to a worker thread. -/
structure TaskRequest where
  requestId : RequestId
  method : String
  payload : Value
  streamTx : StreamTx
  doneTx : DoneTx
  requestBody : Option RequestBody

/-- Request number `k` with channels of its own, a null payload and no body. -/
def TaskRequest.bare (k : Nat) : TaskRequest :=
  { requestId := k, method := "dispatch", payload := .null, streamTx := k, doneTx := k
    requestBody := none }

end FolkCore
