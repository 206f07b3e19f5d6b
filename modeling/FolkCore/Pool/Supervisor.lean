import FolkCore.Pool.SlotInfo

/-!
# The slot supervisor

`slot_supervisor` and `boot_worker` as a machine over one `Slot`: its phase is the
await point where the task stands. What a step does outside the slot is the list
of its `Command`s, which the pool carries out. A handle is named by the number of
its `spawn`.
-/

namespace FolkCore.Pool

/-- Why a supervisor terminates its worker: the boot failed, the generation moved,
`max_jobs` or `ttl` was reached, or the supervisor shuts down. -/
inductive Reason where
  | boot
  | reload
  | lifecycle
  | shutdown
  deriving DecidableEq, Repr

/-- `exec_result`: what the timeout around `execute_streaming` gave. -/
inductive ExecResult where
  | done (r : Except String Unit)
  | elapsed

/-- Observable events of a run, in the order of their occurrence. A slot is named
by its number, a handle by that of its spawn, a request by its stream. -/
inductive Event where
  | delivered (slot : Nat) (tx : StreamTx)
  | spawned (slot w : Nat)
  | took (slot w : Nat) (tx : StreamTx)
  | executed (slot w : Nat) (tx : StreamTx)
  | finished (slot w : Nat) (tx : StreamTx) (r : ExecResult)
  | terminated (slot w : Nat) (why : Reason)
  | pushed (w : Nat) (tx : StreamTx) (c : ResponseChunk)
  | answered (tx : StreamTx) (ok : Bool)

/-- The await points of a supervisor. `select` and `selectInbox` are the two polls
of its biased `select!`; they carry the `recyclable` of the current iteration. -/
inductive Phase where
  | loopTop
  | spawning
  | readying (w deadline : Nat)
  | terminating (w : Nat) (why : Reason)
  | sleeping (wakeAt : Nat)
  | select (recyclable : Bool)
  | selectInbox (recyclable : Bool)
  | dispatching (req : DispatchRequest) (since : Nat)
  | executing (tx : StreamTx) (deadline : Nat)
  | settled (tx : StreamTx) (result : ExecResult)
  | exited
  | panicked

/-- The task has not ended: it still owns the receiving end of its inbox. -/
def Phase.live : Phase → Bool
  | .exited => false
  | .panicked => false
  | _ => true

/-- The local variables of a supervisor and the contents of its inbox. The first poll of the
task creates the record `info`. -/
structure Slot where
  polled : Bool
  info : SlotInfo
  worker : Option Nat
  bootGeneration : Nat
  seenGeneration : Nat
  inbox : List DispatchRequest
  phase : Phase

/-- A supervisor that was spawned and not yet polled. -/
def Slot.start : Slot :=
  { polled := false, info := .new 0, worker := none, bootGeneration := 0, seenGeneration := 0
    inbox := [], phase := .loopTop }

/-- What a supervisor sees of the pool. -/
structure View (R : Runtime) where
  now : Nat
  generation : Nat
  reloadOpen : Bool
  inboxOpen : Bool
  workers : Nat → Option R.Worker
  handles : Nat

/-- What a step does outside the slot: change the worker behind a handle, add the
worker of a new handle, give a stream sender away, drop requests, return one
permit, or leave a trace in the history. -/
inductive Command (R : Runtime) where
  | setWorker (w : Nat) (h : R.Worker)
  | spawn (h : R.Worker)
  | hand (w : Nat) (tx : StreamTx) (kept : Bool)
  | discard (reqs : List DispatchRequest)
  | release
  | note (e : Event)

/-- The steps of a supervisor. The result of `spawn` is the runtime's choice. -/
inductive SupervisorAction (R : Runtime) where
  | enterLoop
  | spawned (h : R.Worker)
  | spawnFailed
  | spawnPanicked
  | pollReady
  | wake
  | pollReload
  | pollInbox
  | execute
  | pollExecute
  | recycle
  | pollTerminate

/-- One second, in the milliseconds of the clock. -/
def retryDelay : Nat := 1000

variable {R : Runtime} (cfg : WorkersConfig) (i : Nat) (v : View R)

namespace Slot

/-- The task ends: it drops what it owns. -/
def stop (slot : Slot) (phase : Phase) (commands : List (Command R)) :
    Slot × List (Command R) :=
  ({ slot with worker := none, inbox := [], phase }, commands ++ [.discard slot.inbox])

/-- `terminate` is called on a handle taken out of the slot. -/
def terminate (slot : Slot) (w : Nat) (h : R.Worker) (why : Reason) :
    Slot × List (Command R) :=
  ({ slot with worker := none, phase := .terminating w why },
    [.setWorker w (R.terminate h), .note (.terminated i w why)])

/-- The record at the top of the loop, which the first poll creates. -/
def current (slot : Slot) (now : Nat) : SlotInfo := if slot.polled then slot.info else .new now

/-- The top of the loop: boot a worker, or go on to the `select!`. -/
def enterLoop (slot : Slot) : Option (Slot × List (Command R)) :=
  match slot.worker with
  | none =>
      some ({ slot with
        polled := true
        info := slot.current v.now
        bootGeneration := v.generation
        phase := .spawning }, [])
  | some w =>
      (v.workers w).map fun h => ({ slot with phase := .select (R.isRecyclable h) }, [])

/-- `spawn` returned a handle; `boot_worker` goes on to wait for `ready`. -/
def spawned (slot : Slot) (h : R.Worker) : Option (Slot × List (Command R)) :=
  if R.spawns h then
    some ({ slot with phase := .readying v.handles (v.now + cfg.bootTimeout) },
      [.spawn (R.ready h), .note (.spawned i v.handles)])
  else none

/-- `boot_worker` waits for `ready` under the boot timeout. -/
def pollReady (slot : Slot) (w deadline : Nat) (h : R.Worker) :
    Option (Slot × List (Command R)) :=
  match R.pollReady h with
  | .ready (.ok ()) =>
      some ({ slot with
        info := slot.info.markReady (R.id h)
        worker := some w
        phase := .select (R.isRecyclable h) }, [])
  | .ready (.error _) => some (slot.terminate i w h .boot)
  | .pending => if deadline ≤ v.now then some (slot.terminate i w h .boot) else none
  | .panicked => some (slot.stop .panicked [.setWorker w (R.dropHandle h)])

/-- The first branch of the `select!`. An unseen generation is reported before the
closed channel. -/
def pollReload (slot : Slot) (recyclable : Bool) (w : Nat) (h : R.Worker) :
    Slot × List (Command R) :=
  if recyclable then
    if slot.seenGeneration < v.generation then
      let seen := { slot with seenGeneration := v.generation }
      if slot.bootGeneration < v.generation then seen.terminate i w h .reload
      else ({ seen with phase := .loopTop }, [])
    else if v.reloadOpen then ({ slot with phase := .selectInbox recyclable }, [])
    else slot.terminate i w h .shutdown
  else ({ slot with phase := .selectInbox recyclable }, [])

/-- The second branch of the `select!`. -/
def pollInbox (slot : Slot) (recyclable : Bool) (w : Nat) (h : R.Worker) :
    Slot × List (Command R) :=
  match slot.inbox with
  | req :: rest =>
      ({ slot with
        inbox := rest
        info := slot.info.markBusy
        phase := .dispatching req v.now }, [.note (.took i w req.streamTx)])
  | [] =>
      if v.inboxOpen then ({ slot with phase := .select recyclable }, [])
      else slot.terminate i w h .shutdown

/-- The first poll of `execute_streaming`, which may block. -/
def execute (slot : Slot) (req : DispatchRequest) (since : Nat) (w : Nat) (h : R.Worker) :
    Option (Slot × List (Command R)) :=
  (R.executeStreaming h req).map fun r =>
    ({ slot with phase := .executing req.streamTx (since + cfg.execTimeout) },
      [.setWorker w r.1, .hand w req.streamTx r.2, .note (.executed i w req.streamTx)])

/-- The `execute_streaming` future is gone: return the permit, count the job. -/
def settle (slot : Slot) (tx : StreamTx) (w : Nat) (h : R.Worker) (result : ExecResult) :
    Slot × List (Command R) :=
  ({ slot with info := slot.info.markIdle, phase := .settled tx result },
    [.setWorker w (R.dropExecute h), .release, .note (.finished i w tx result)])

/-- The timeout polls the future before its clock. -/
def pollExecute (slot : Slot) (tx : StreamTx) (deadline w : Nat) (h : R.Worker) :
    Option (Slot × List (Command R)) :=
  match R.pollExecute h with
  | .ready r => some (slot.settle i tx w h (.done r))
  | .pending => if deadline ≤ v.now then some (slot.settle i tx w h .elapsed) else none
  | .panicked =>
      some (slot.stop .panicked
        [.setWorker w (R.dropHandle (R.dropExecute h)), .release])

/-- The generation moved past the one the worker was booted at. -/
def reloadPending (slot : Slot) (generation : Nat) : Bool :=
  decide (slot.bootGeneration < generation)

/-- The end of an iteration: recycle on reload or by the lifecycle policies. The
result of the execution is not consulted. -/
def recycle (slot : Slot) (w : Nat) (h : R.Worker) : Slot × List (Command R) :=
  if slot.reloadPending v.generation || slot.info.shouldRecycle cfg v.now then
    if R.isRecyclable h then
      slot.terminate i w h (if slot.reloadPending v.generation then .reload else .lifecycle)
    else ({ slot with phase := .loopTop }, [])
  else ({ slot with phase := .loopTop }, [])

/-- `terminate` returned: go on as its reason says. -/
def pollTerminate (slot : Slot) (w : Nat) (why : Reason) (h : R.Worker) :
    Option (Slot × List (Command R)) :=
  match R.pollTerminate h with
  | .pending => none
  | .panicked => some (slot.stop .panicked [.setWorker w (R.dropHandle h)])
  | .ready _ =>
      match why with
      | .boot =>
          some ({ slot with phase := .sleeping (v.now + retryDelay) },
            [.setWorker w (R.dropHandle h)])
      | .reload | .lifecycle =>
          some ({ slot with info := .new v.now, phase := .loopTop },
            [.setWorker w (R.dropHandle h)])
      | .shutdown => some (slot.stop .exited [.setWorker w (R.dropHandle h)])

/-- A step on the installed worker. -/
def withWorker {α : Type} (slot : Slot) (f : Nat → R.Worker → Option α) : Option α :=
  slot.worker.bind fun w => (v.workers w).bind fun h => f w h

/-- One step of `slot_supervisor`, `none` where its phase does not offer it. A request that
is received without a worker reaches `unreachable!()`. -/
def step (slot : Slot) (a : SupervisorAction R) : Option (Slot × List (Command R)) :=
  match slot.phase, a with
  | .loopTop, .enterLoop => slot.enterLoop v
  | .spawning, .spawned h => slot.spawned cfg i v h
  | .spawning, .spawnFailed =>
      some ({ slot with phase := .sleeping (v.now + retryDelay) }, [])
  | .spawning, .spawnPanicked => some (slot.stop .panicked [])
  | .readying w deadline, .pollReady =>
      (v.workers w).bind fun h => slot.pollReady i v w deadline h
  | .sleeping wakeAt, .wake =>
      if wakeAt ≤ v.now then some ({ slot with phase := .loopTop }, []) else none
  | .select recyclable, .pollReload =>
      slot.withWorker v fun w h => some (slot.pollReload i v recyclable w h)
  | .selectInbox recyclable, .pollInbox =>
      if slot.worker = none ∧ slot.inbox ≠ [] then some (slot.stop .panicked [])
      else slot.withWorker v fun w h => some (slot.pollInbox i v recyclable w h)
  | .dispatching req since, .execute =>
      slot.withWorker v fun w h => slot.execute cfg i req since w h
  | .executing tx deadline, .pollExecute =>
      slot.withWorker v fun w h => slot.pollExecute i v tx deadline w h
  | .settled _ _, .recycle =>
      slot.withWorker v fun w h => some (slot.recycle cfg i v w h)
  | .terminating w why, .pollTerminate =>
      (v.workers w).bind fun h => slot.pollTerminate v w why h
  | _, _ => none

end Slot

end FolkCore.Pool
