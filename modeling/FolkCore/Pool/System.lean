import FolkCore.Data.Protocol
import FolkCore.Data.Utf8
import FolkCore.Lib.Transition
import FolkCore.Pool.Supervisor
import Mathlib.Logic.Function.Basic

/-!
# The worker pool

`WorkerPool`, its callers, `pool_main`, the slot supervisors and the workers as
one transition system. A step is one atomic action of one of them, so a run is an
interleaving. A request is named by the stream that `dispatch_streamed` opens for
it; the same number serves as its id. Its answer is collected chunk by chunk:
`Collected` holds the local variables of `collect_stream`.
-/

namespace FolkCore.Pool

open Function

section Collecting

/-- The local variables of `collect_stream`. -/
structure Collected where
  status : UInt16
  headers : List (String × String)
  bodyBytes : Bytes
  returnValue : Option Value

def Collected.empty : Collected :=
  { status := 200, headers := [], bodyBytes := [], returnValue := none }

/-- The value after the loop: a returned value verbatim, else the legacy shape. -/
def Collected.finish (acc : Collected) : Value :=
  match acc.returnValue with
  | some v => v
  | none =>
      .ofFields [("status", .number (.posInt acc.status.toUInt64)),
        ("headers", .ofFields (acc.headers.map fun h => (h.1, .string h.2))),
        ("body", .string (fromUtf8Lossy acc.bodyBytes))]

/-- One received chunk: go on, or leave the function with its result. -/
def Collected.take (acc : Collected) : ResponseChunk → Collected ⊕ Except WorkerError Value
  | .headers s h => .inl { acc with status := s, headers := h }
  | .body b => .inl { acc with bodyBytes := acc.bodyBytes ++ b }
  | .returnValue v => .inl { acc with returnValue := some v }
  | .error e => .inr (.error e)
  | .streamEnd => .inr (.ok acc.finish)

/-- The loop on the chunks still to come, closed after the last of them. -/
def Collected.drain : List ResponseChunk → Collected → Except WorkerError Value
  | [], acc => .ok acc.finish
  | c :: rest, acc =>
      match acc.take c with
      | .inl acc => acc.drain rest
      | .inr r => r

/-- `collect_stream` on a complete stream. -/
def collectStream (chunks : List ResponseChunk) : Except WorkerError Value :=
  Collected.empty.drain chunks

end Collecting

/-- The errors of a call. `dispatch_streamed` cannot see a closed semaphore: the
pool never closes it. -/
inductive CallError where
  | badPayload (e : String)
  | poolGone
  | worker (e : WorkerError)
  | unserializable

/-- The text of the outermost context. -/
def CallError.text : CallError → String
  | .badPayload _ => "pool: failed to parse payload as JSON"
  | .poolGone => "pool task gone"
  | .worker e => e.message
  | .unserializable => "pool: failed to serialize response"

/-- What a successful call returns. -/
inductive CallReply where
  | bytes (b : Bytes)
  | value (v : Value)
  | traced (v : Value) (id : RequestId)

/-- The methods of `Executor`. The three streaming ones differ in the body. -/
inductive Invocation where
  | executeMethod (method : String) (payload : Bytes)
  | executeValue (method : String) (payload : Value)
  | executeValueTraced (method : String) (payload : Value)
  | executeStreamed (method : String) (payload : Value) (body : Option RequestBody)

inductive CallKind where
  | method
  | value
  | traced
  | streamed
  deriving DecidableEq, Repr

/-- Where a caller stands. A streaming call has returned and reads by itself. -/
inductive CallStage where
  | unborn
  | sending (kind : CallKind) (req : DispatchRequest)
  | collecting (kind : CallKind) (acc : Collected)
  | streaming
  | returned (r : Except CallError CallReply)
  | cancelled

/-- A response stream of capacity 64: the worker that was given the sender,
whether each end is alive, and the chunks not yet received. -/
structure Stream where
  owner : Option Nat
  senderOpen : Bool
  receiverOpen : Bool
  buffer : List ResponseChunk

/-- A stream that no call has opened. -/
def Stream.unopened : Stream := ⟨none, false, false, []⟩

/-- Where `pool_main` stands. -/
inductive MainPhase where
  | receiving
  | forwarding (req : DispatchRequest) (attempt : Nat)
  | awaiting
  | exited

structure State (R : Runtime) where
  now : Nat
  poolOpen : Bool
  permits : Nat
  generation : Nat
  requestCh : List DispatchRequest
  main : MainPhase
  next : Nat
  dead : Nat → Bool
  slots : Nat → Slot
  workers : Nat → Option R.Worker
  handles : Nat
  calls : Nat → CallStage
  callCount : Nat
  streams : StreamTx → Stream
  history : List Event

/-- One atomic action of a caller, the owner of the pool, the clock, `pool_main`,
a supervisor or a worker. -/
inductive Action (R : Runtime) where
  | invoke (inv : Invocation)
  | submit (k : Nat)
  | receive (k : Nat)
  | cancel (k : Nat)
  | reload
  | dropPool
  | tick (d : Nat)
  | mainRecv
  | mainForward
  | mainJoin
  | supervise (i : Nat) (a : SupervisorAction R)
  | work (w : Nat) (a : R.Act)

/-- `WorkerPool::new`. -/
def init (R : Runtime) (cfg : WorkersConfig) : State R :=
  { now := 0, poolOpen := true, permits := cfg.count, generation := 0, requestCh := []
    main := .receiving, next := 0, dead := fun _ => false, slots := fun _ => .start
    workers := fun _ => none, handles := 0, calls := fun _ => .unborn, callCount := 0
    streams := fun _ => .unopened, history := [] }

variable {R : Runtime}

namespace State

@[simp] def note (s : State R) (e : Event) : State R := { s with history := s.history ++ [e] }

/-- Drop requests: their permits return and their senders are gone. -/
@[simp] def discard (s : State R) (reqs : List DispatchRequest) : State R :=
  { s with
    permits := s.permits + reqs.length
    streams := fun tx =>
      if tx ∈ reqs.map DispatchRequest.streamTx then { s.streams tx with senderOpen := false }
      else s.streams tx }

@[simp] def setStream (s : State R) (tx : StreamTx) (st : Stream) : State R :=
  { s with streams := update s.streams tx st }

/-- The receiving end of a stream is dropped. -/
@[simp] def hangUp (s : State R) (tx : StreamTx) : State R :=
  s.setStream tx { s.streams tx with receiverOpen := false, buffer := [] }

@[simp] def setCall (s : State R) (k : Nat) (stage : CallStage) : State R :=
  { s with calls := update s.calls k stage }

/-- A collecting call returns. -/
@[simp] def answer (s : State R) (k : Nat) (r : Except CallError CallReply) : State R :=
  ((s.setCall k (.returned r)).hangUp k).note (.answered k r.isOk)

def perform (s : State R) : Command R → State R
  | .setWorker w h => { s with workers := update s.workers w (some h) }
  | .spawn h =>
      { s with workers := update s.workers s.handles (some h), handles := s.handles + 1 }
  | .hand w tx kept => s.setStream tx { s.streams tx with owner := some w, senderOpen := kept }
  | .discard reqs => s.discard reqs
  | .release => { s with permits := s.permits + 1 }
  | .note e => s.note e

/-- What the supervisors see. `pool_main` keeps the inbox senders until it returns. -/
def view (s : State R) : View R :=
  { now := s.now, generation := s.generation, reloadOpen := s.poolOpen
    inboxOpen := match s.main with | .exited => false | _ => true
    workers := s.workers, handles := s.handles }

/-- A supervisor's step: its slot first, then its commands in order. -/
def supervise (s : State R) (i : Nat) (r : Slot × List (Command R)) : State R :=
  r.2.foldl perform { s with slots := update s.slots i r.1 }

end State

section Callers

variable (serde : SerdeJson)

/-- What a method of `Executor` hands to `dispatch_streamed`. -/
def Invocation.arguments :
    Invocation → Except CallError (CallKind × String × Value × Option RequestBody)
  | .executeMethod method payload =>
      match serde.fromSlice payload with
      | .error e => .error (.badPayload e)
      | .ok v => .ok (.method, method, v, none)
  | .executeValue method payload => .ok (.value, method, payload, none)
  | .executeValueTraced method payload => .ok (.traced, method, payload, none)
  | .executeStreamed method payload body => .ok (.streamed, method, payload, body)

/-- The answer of a call, given what `collect_stream` returned. -/
def CallKind.reply (kind : CallKind) (id : RequestId) :
    Except WorkerError Value → Except CallError CallReply
  | .error e => .error (.worker e)
  | .ok v =>
      match kind with
      | .method =>
          match serde.toVec v with
          | some b => .ok (.bytes b)
          | none => .error .unserializable
      | .traced => .ok (.traced v id)
      | .value | .streamed => .ok (.value v)

/-- A call begins: its payload is parsed, a permit taken and a stream opened. -/
def invoke (s : State R) (inv : Invocation) : Option (State R) :=
  match inv.arguments serde with
  | .error e =>
      some ({ s with callCount := s.callCount + 1 }.answer s.callCount (.error e))
  | .ok (kind, method, payload, requestBody) =>
      if s.poolOpen ∧ 0 < s.permits then
        let k := s.callCount
        let req := { requestId := k, method, payload, streamTx := k, requestBody }
        some (({ s with permits := s.permits - 1, callCount := k + 1 }.setStream k
          ⟨none, true, true, []⟩).setCall k (.sending kind req))
      else none

/-- The stage of a call whose request is with the pool. -/
def CallKind.listen : CallKind → CallStage
  | .streamed => .streaming
  | kind => .collecting kind .empty

/-- `request_tx.send`: the request channel holds 1024 requests. -/
def submit (s : State R) (k : Nat) : Option (State R) :=
  match s.calls k with
  | .sending kind req =>
      match s.main with
      | .exited => some ((s.discard [req]).answer k (.error .poolGone))
      | _ =>
          if s.requestCh.length < 1024 then
            some ({ s with requestCh := s.requestCh ++ [req] }.setCall k kind.listen)
          else none
  | _ => none

/-- One `rx.recv().await` of a caller. -/
def receive (s : State R) (k : Nat) : Option (State R) :=
  match s.calls k, (s.streams k).buffer with
  | .collecting kind acc, c :: rest =>
      match acc.take c with
      | .inl acc =>
          some ((s.setStream k { s.streams k with buffer := rest }).setCall k
            (.collecting kind acc))
      | .inr r => some (s.answer k (kind.reply serde k r))
  | .collecting kind acc, [] =>
      if (s.streams k).senderOpen then none
      else some (s.answer k (kind.reply serde k (.ok acc.finish)))
  | .streaming, _ :: rest =>
      some (s.setStream k { s.streams k with buffer := rest })
  | _, _ => none

/-- The caller drops its future or its receiver. -/
def cancel (s : State R) (k : Nat) : Option (State R) :=
  match s.calls k with
  | .sending _ req => some (((s.discard [req]).hangUp k).setCall k .cancelled)
  | .collecting _ _ => some ((s.hangUp k).setCall k .cancelled)
  | .streaming => some ((s.hangUp k).setCall k .cancelled)
  | _ => none

/-- A pending call borrows the pool. -/
def CallStage.borrows : CallStage → Bool
  | .sending _ _ => true
  | .collecting _ _ => true
  | _ => false

end Callers

section Main

/-- `request_rx.recv` of `pool_main`. -/
def mainRecv (s : State R) : Option (State R) :=
  match s.main, s.requestCh with
  | .receiving, req :: rest => some { s with main := .forwarding req 0, requestCh := rest }
  | .receiving, [] => if s.poolOpen then none else some { s with main := .awaiting }
  | _, _ => none

/-- `slot_inboxes[chosen].send` succeeded. -/
@[simp] def deliver (s : State R) (chosen : Nat) (req : DispatchRequest) : State R :=
  { s with
    main := .receiving
    next := chosen + 1
    slots := update s.slots chosen
      { s.slots chosen with inbox := (s.slots chosen).inbox ++ [req] } }.note
    (.delivered chosen req.streamTx)

/-- One attempt of the round-robin loop. The send waits while the inbox, of
capacity 8, is full; a closed inbox marks its slot dead. -/
def mainForward (cfg : WorkersConfig) (s : State R) : Option (State R) :=
  match s.main with
  | .forwarding req attempt =>
      if attempt < cfg.count then
        let chosen := (s.next + attempt) % cfg.count
        if s.dead chosen then some { s with main := .forwarding req (attempt + 1) }
        else if (s.slots chosen).phase.live then
          if (s.slots chosen).inbox.length < 8 then some (deliver s chosen req) else none
        else
          some { s with
            main := .forwarding req (attempt + 1)
            dead := update s.dead chosen true }
      else some { s.discard [req] with main := .receiving }
  | _ => none

/-- All supervisors have ended. -/
def mainJoin (cfg : WorkersConfig) (s : State R) : Option (State R) :=
  match s.main with
  | .awaiting =>
      if (List.range cfg.count).all fun i => !(s.slots i).phase.live then
        some { s with main := .exited }
      else none
  | _ => none

end Main

/-- A worker acts on the stream it was given. A push waits while the buffer is
full and is lost when the receiver is gone. -/
def work (s : State R) (w : Nat) (a : R.Act) : Option (State R) :=
  (s.workers w).bind fun h => (R.act h a).bind fun r =>
    let s' := { s with workers := update s.workers w (some r.1) }
    match r.2 with
    | none => some s'
    | some (.push tx c) =>
        let st := s.streams tx
        if st.owner = some w ∧ st.senderOpen then
          if st.receiverOpen then
            if st.buffer.length < 64 then
              some ((s'.setStream tx { st with buffer := st.buffer ++ [c] }).note
                (.pushed w tx c))
            else none
          else some s'
        else none
    | some (.close tx) =>
        let st := s.streams tx
        if st.owner = some w ∧ st.senderOpen then
          some (s'.setStream tx { st with senderOpen := false })
        else none

/-- One step of the pool. -/
def step (serde : SerdeJson) (cfg : WorkersConfig) (s : State R) :
    Action R → Option (State R)
  | .invoke inv => invoke serde s inv
  | .submit k => submit s k
  | .receive k => receive serde s k
  | .cancel k => cancel s k
  | .reload => if s.poolOpen then some { s with generation := s.generation + 1 } else none
  | .dropPool =>
      if s.poolOpen ∧ (List.range s.callCount).all fun k => !(s.calls k).borrows then
        some { s with poolOpen := false }
      else none
  | .tick d => some { s with now := s.now + d }
  | .mainRecv => mainRecv s
  | .mainForward => mainForward cfg s
  | .mainJoin => mainJoin cfg s
  | .supervise i a =>
      if i < cfg.count then ((s.slots i).step cfg i s.view a).map (s.supervise i) else none
  | .work w a => work s w a

end FolkCore.Pool
