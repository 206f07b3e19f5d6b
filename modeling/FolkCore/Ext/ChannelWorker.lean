import FolkCore.Bridge.Session
import FolkCore.Pool.System

/-!
# Workers behind channels

`ChannelWorkerHandle` with the PHP thread it is connected to. The thread owns a
`WorkerState`, whose `taskRx` is the content of the task channel of capacity 8, and
makes bridge calls one after another; the channel operations of a call are performed
one at a time. `nextDone` numbers the oneshot channels that the handle opens.
-/

namespace FolkCore.Ext

open Bridge Pool

/-- The life of a worker thread: before `init_worker_state`, while its script runs,
and after the drop of its worker state. -/
inductive ThreadStage where
  | booting
  | running
  | exited
  deriving DecidableEq, Repr

/-- What the `execute_streaming` future waits for. -/
inductive Awaited where
  | pending (d : DoneTx)
  | finished (r : Except String Unit)

/-- A `ChannelWorkerHandle` and its thread. `taskTx`, `readyRx` and `threadHandle` say
whether the handle still has them; `readyWait` and `joining` mark a pending `ready`
and a pending `terminate`. -/
structure ChannelWorker where
  workerId : UInt32
  taskTx : Bool
  readyRx : Bool
  threadHandle : Bool
  readyWait : Bool
  joining : Bool
  nextDone : DoneTx
  awaited : Option Awaited
  stage : ThreadStage
  readySent : Bool
  state : WorkerState
  effects : List Effect

namespace ChannelWorker

/-- A new handle: `spawn_zts_worker` with a thread to join, `take_preconnected`
without one. -/
def fresh (workerId : UInt32) (threadHandle : Bool) : ChannelWorker :=
  { workerId, taskTx := true, readyRx := true, threadHandle, readyWait := false
    joining := false, nextDone := 0, awaited := none, stage := .booting, readySent := false
    state := initWorkerState workerId [], effects := [] }

/-- The handles that `spawn` returns. -/
def isFresh (h : ChannelWorker) : Bool :=
  h.taskTx && h.readyRx && !h.readyWait && !h.joining && h.nextDone == 0 &&
    h.awaited.isNone && h.stage == .booting && !h.readySent && h.state.taskRx.isEmpty &&
    h.state.currentStreamTx.isNone && h.state.currentDoneTx.isNone && h.effects.isEmpty &&
    h.state.currentBody.isNone

def ready (h : ChannelWorker) : ChannelWorker :=
  { h with readyRx := false, readyWait := h.readyRx }

def pollReady (h : ChannelWorker) : Poll (Except String Unit) :=
  if h.readyWait then
    if h.readySent then .ready (.ok ())
    else if h.stage = .exited then .ready (.error "worker died before ready")
    else .pending
  else .ready (.ok ())

/-- The task that `execute_streaming` sends. -/
def task (h : ChannelWorker) (req : DispatchRequest) : TaskRequest :=
  { requestId := req.requestId, method := req.method, payload := req.payload
    streamTx := req.streamTx, doneTx := h.nextDone, requestBody := req.requestBody }

/-- `execute_streaming` up to its await. `SyncSender::send` fails when the thread has
dropped the receiver and blocks while the channel holds 8 tasks. -/
def executeStreaming (h : ChannelWorker) (req : DispatchRequest) :
    Option (ChannelWorker × Bool) :=
  if h.taskTx = false then
    some ({ h with awaited := some (.finished (.error "worker terminated")) }, false)
  else if h.stage = .exited then
    some ({ h with awaited := some (.finished (.error "worker process gone")) }, false)
  else if h.state.taskRx.length < 8 then
    some ({ h with
      state := { h.state with taskRx := h.state.taskRx ++ [h.task req] }
      nextDone := h.nextDone + 1
      awaited := some (.pending h.nextDone) }, true)
  else none

def pollExecute (h : ChannelWorker) : Poll (Except String Unit) :=
  match h.awaited with
  | some (.finished r) => .ready r
  | _ => .pending

/-- `terminate` closes the task channel and joins the thread, if there is one. -/
def terminate (h : ChannelWorker) : ChannelWorker :=
  { h with taskTx := false, threadHandle := false, joining := h.threadHandle }

def pollTerminate (h : ChannelWorker) : Poll (Except String Unit) :=
  if h.joining && !(h.stage == .exited && h.effects.isEmpty) then .pending
  else .ready (.ok ())

/-- The oneshot channel `d` has fired or its sender is gone. -/
def resolve (h : ChannelWorker) (d : DoneTx) (r : Except String Unit) : Option Awaited :=
  match h.awaited with
  | some (.pending d') => if d' = d then some (.finished r) else h.awaited
  | _ => h.awaited

/-- The drop of a task in the channel. -/
def dropTask (r : TaskRequest) : List Effect := [.dropStream r.streamTx, .dropDone r.doneTx]

/-- The steps of a worker thread: `init_worker_state`, `do_ready`, a bridge call or a
half of the dispatch loop, one channel operation, and the end of the script. -/
inductive ThreadAct where
  | boot
  | ready
  | call (s : Bridge.Step)
  | perform
  | exit

/-- One channel operation of the thread. -/
def performEffect (h : ChannelWorker) (rest : List Effect) :
    Effect → ChannelWorker × Option StreamOp
  | .send tx c => ({ h with effects := rest }, some (.push tx c))
  | .dropStream tx => ({ h with effects := rest }, some (.close tx))
  | .signal d => ({ h with effects := rest, awaited := h.resolve d (.ok ()) }, none)
  | .dropDone d =>
      ({ h with effects := rest, awaited := h.resolve d (.error "worker dropped done channel") },
        none)
  | .ready => ({ h with effects := rest, readySent := true }, none)

/-- One step of the thread. A receive waits for a task or for the closed channel. -/
def act (serde : SerdeJson) (h : ChannelWorker) :
    ThreadAct → Option (ChannelWorker × Option StreamOp)
  | .boot => if h.stage = .booting then some ({ h with stage := .running }, none) else none
  | .ready =>
      if h.stage = .running ∧ h.effects.isEmpty then
        some ({ h with state := (doReady h.state).state, effects := (doReady h.state).effects },
          none)
      else none
  | .call s =>
      if h.stage = .running ∧ h.effects.isEmpty ∧
          (s.receives = true → h.state.taskRx.isEmpty = false ∨ h.taskTx = false) then
        some ({ h with
          state := (s.outcome serde h.state).state
          effects := (s.outcome serde h.state).effects }, none)
      else none
  | .perform =>
      match h.effects with
      | e :: rest => some (h.performEffect rest e)
      | [] => none
  | .exit =>
      if h.stage ≠ .exited ∧ h.effects.isEmpty then
        some ({ h with
          stage := .exited
          state := { h.state.clear with taskRx := [] }
          effects := h.state.release ++ h.state.taskRx.flatMap dropTask }, none)
      else none

end ChannelWorker

/-- The extension runtime as the pool sees it. -/
def extensionRuntime (serde : SerdeJson) : Runtime where
  Worker := ChannelWorker
  Act := ChannelWorker.ThreadAct
  spawns := ChannelWorker.isFresh
  id h := h.workerId
  isRecyclable h := h.threadHandle
  ready := ChannelWorker.ready
  pollReady := ChannelWorker.pollReady
  executeStreaming := ChannelWorker.executeStreaming
  pollExecute := ChannelWorker.pollExecute
  dropExecute h := { h with awaited := none }
  terminate := ChannelWorker.terminate
  pollTerminate := ChannelWorker.pollTerminate
  dropHandle h := { h with taskTx := false, readyRx := false }
  act := ChannelWorker.act serde

/-- Slot 0 boots a thread. -/
def bootRun (serde : SerdeJson) : List (Action (extensionRuntime serde)) :=
  [.supervise 0 .enterLoop, .supervise 0 (.spawned (ChannelWorker.fresh 2 true)),
    .work 0 .boot, .work 0 .ready, .work 0 .perform, .supervise 0 .pollReady]

/-- Call number `k` comes to slot 0, which listens. -/
def callRun (serde : SerdeJson) (k : Nat) : List (Action (extensionRuntime serde)) :=
  [.invoke (.executeValue "dispatch" .null), .submit k, .mainRecv, .mainForward,
    .supervise 0 .pollReload, .supervise 0 .pollInbox]

end FolkCore.Ext
