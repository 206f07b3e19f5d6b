import FolkCore.Data.Protocol

/-!
# Thread-local worker state of the bridge

Every bridge function reads and writes one `WorkerState` and then performs its
channel operations in order. The state change comes first in each of them, so a
call is a new state together with the list of `Effect`s still to perform.
-/

namespace FolkCore.Bridge

/-- Position of the multipart cursor within a `RequestBody.parts` stream. -/
inductive PartState where
  | beforeFirst
  | inPart
  | partEnded
  | done
  deriving DecidableEq, Repr

/-- Thread-local state of one worker. `taskRx` lists the tasks waiting on the
task channel; an empty list is a closed channel to a call that returns. -/
structure WorkerState where
  workerId : UInt32
  taskRx : List TaskRequest
  readyTx : Bool
  currentStreamTx : Option StreamTx
  currentDoneTx : Option DoneTx
  streamStarted : Bool
  currentRequestId : Option RequestId
  currentBody : Option RequestBody
  currentBodyLeftover : Bytes
  currentPartState : PartState

/-- `init_worker_state`: a thread without a request. -/
def initWorkerState (workerId : UInt32) (taskRx : List TaskRequest) : WorkerState :=
  { workerId, taskRx
    readyTx := true
    currentStreamTx := none
    currentDoneTx := none
    streamStarted := false
    currentRequestId := none
    currentBody := none
    currentBodyLeftover := []
    currentPartState := .beforeFirst }

/-- A channel operation of the bridge: a blocking send on a response stream, the
done signal, the ready signal, or the drop of a sending end. -/
inductive Effect where
  | send (tx : StreamTx) (chunk : ResponseChunk)
  | signal (d : DoneTx)
  | ready
  | dropStream (tx : StreamTx)
  | dropDone (d : DoneTx)

/-- What a bridge call answers, the state it leaves and its channel operations. -/
structure Outcome (α : Type) where
  reply : α
  state : WorkerState
  effects : List Effect

namespace WorkerState

/-- Take over a received request, as `do_recv` and the dispatch loop do. -/
def accept (st : WorkerState) (req : TaskRequest) (rest : List TaskRequest) : WorkerState :=
  { st with
    taskRx := rest
    currentRequestId := some req.requestId
    currentStreamTx := some req.streamTx
    currentDoneTx := some req.doneTx
    currentBody := req.requestBody
    currentBodyLeftover := []
    currentPartState := .beforeFirst
    streamStarted := false }

/-- Forget the request, as every finalising call does. -/
def clear (st : WorkerState) : WorkerState :=
  { st with
    currentStreamTx := none
    currentDoneTx := none
    currentRequestId := none
    streamStarted := false
    currentBody := none
    currentBodyLeftover := []
    currentPartState := .done }

/-- Overwriting the two sender fields drops what they held. -/
def release (st : WorkerState) : List Effect :=
  st.currentStreamTx.toList.map .dropStream ++ st.currentDoneTx.toList.map .dropDone

end WorkerState

end FolkCore.Bridge
