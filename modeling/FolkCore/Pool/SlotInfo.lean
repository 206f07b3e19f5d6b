import FolkCore.Data.Protocol

/-!
# Worker slots and the traits of a runtime

The record that a slot supervisor keeps about its worker, and the two traits
through which the pool sees workers. Instants and durations are numbers on one
clock.
-/

namespace FolkCore.Pool

/-- The fields of `WorkersConfig` that the pool reads. -/
structure WorkersConfig where
  count : Nat
  maxJobs : Nat
  ttl : Nat
  execTimeout : Nat
  bootTimeout : Nat
  deriving DecidableEq, Repr

/-- The default configuration for one worker, in milliseconds. -/
def WorkersConfig.single : WorkersConfig :=
  { count := 1, maxJobs := 1000, ttl := 3600000, execTimeout := 30000, bootTimeout := 30000 }

/-- The default configuration for two workers. -/
def WorkersConfig.pair : WorkersConfig := { WorkersConfig.single with count := 2 }

/-- `SlotState`. The pool never enters `stopping` and `dead`. -/
inductive SlotState where
  | spawning
  | idle
  | busy
  | stopping
  | dead
  deriving DecidableEq, Repr

structure SlotInfo where
  state : SlotState
  pid : Option UInt32
  jobsHandled : Nat
  createdAt : Nat
  deriving DecidableEq, Repr

namespace SlotInfo

def new (now : Nat) : SlotInfo :=
  { state := .spawning, pid := none, jobsHandled := 0, createdAt := now }

def shouldRecycle (info : SlotInfo) (cfg : WorkersConfig) (now : Nat) : Bool :=
  decide (cfg.maxJobs ≤ info.jobsHandled) || decide (cfg.ttl ≤ now - info.createdAt)

def markReady (info : SlotInfo) (pid : UInt32) : SlotInfo :=
  { info with state := .idle, pid := some pid }

def markBusy (info : SlotInfo) : SlotInfo := { info with state := .busy }

/-- A stopping slot stays so. -/
def markIdle (info : SlotInfo) : SlotInfo :=
  { info with
    jobsHandled := info.jobsHandled + 1
    state := if info.state = .busy then .idle else info.state }

end SlotInfo

/-- `DispatchRequest`. Every value holds one permit of the pool's semaphore and
the sending end of its stream; both go when the value is dropped. -/
structure DispatchRequest where
  requestId : RequestId
  method : String
  payload : Value
  streamTx : StreamTx
  requestBody : Option RequestBody

/-- What polling a future shows. -/
inductive Poll (α : Type) where
  | pending
  | ready (a : α)
  | panicked

/-- What a worker does to a response stream whose sender it was given. -/
inductive StreamOp where
  | push (tx : StreamTx) (chunk : ResponseChunk)
  | close (tx : StreamTx)

/-- The traits `Runtime` and `WorkerHandle`. A `Worker` is a handle with the
worker behind it. An async method is its first poll, which may move data into the
worker, and the later polls; between them the worker makes steps of its own. -/
structure Runtime where
  Worker : Type
  /-- The steps a worker makes by itself. -/
  Act : Type
  /-- The handles that `spawn` may return. -/
  spawns : Worker → Bool
  id : Worker → UInt32
  isRecyclable : Worker → Bool
  ready : Worker → Worker
  pollReady : Worker → Poll (Except String Unit)
  /-- The call of `execute_streaming` up to its first await, with the flag whether
  the worker keeps the stream sender; `none` while the call blocks its thread. -/
  executeStreaming : Worker → DispatchRequest → Option (Worker × Bool)
  pollExecute : Worker → Poll (Except String Unit)
  /-- The drop of the `execute_streaming` future, finished or not. -/
  dropExecute : Worker → Worker
  terminate : Worker → Worker
  pollTerminate : Worker → Poll (Except String Unit)
  /-- The drop of the handle. -/
  dropHandle : Worker → Worker
  act : Worker → Act → Option (Worker × Option StreamOp)

end FolkCore.Pool
