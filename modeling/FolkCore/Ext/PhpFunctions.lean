import FolkCore.Bridge.Isolation
import FolkCore.Data.Zval
import FolkCore.Ext.StreamContract

/-!
# The functions of the PHP module

A script on a worker thread sees the bridge through the functions that the module
registers. They check and convert what PHP hands to them, and name themselves in the
exceptions they throw. `PhpThread` is a thread on which some script runs: what the script
does next is free, but its calls of `folk_worker_run`, also those inside of handlers, are
entered and left in order.
-/

namespace FolkCore.Ext

open Bridge Lib

/-- An argument of a function as PHP hands it over; `none` where it is not given. -/
abbrev Argument := Option Zval

/-- What the functions use of other code: the bindings convert an argument to a text, to
bytes or to an integer, or refuse it with an exception of their own; the JSON crate at the
two types that are parsed, and the text of a request id. -/
structure Crates where
  toText : Argument → Option String
  toBinary : Argument → Option Bytes
  toLong : Argument → Option Int64
  refusal : String → String
  serde : SerdeJson
  headersFromStr : String → Except String (List (String × String))
  requestIdText : RequestId → String

/-- What a function answers, the thread-local state that it leaves and its channel
operations. -/
structure Answer (α : Type) where
  reply : α
  worker : Option WorkerState
  effects : List Effect

section Functions

variable {α β : Type}

/-- `state.as_mut().ok_or("not in a worker thread")?`. -/
def withWorker (f : WorkerState → Outcome (Except String α)) :
    Option WorkerState → Answer (Except String α)
  | none => ⟨.error "not in a worker thread", none, []⟩
  | some st => ⟨(f st).reply, some (f st).state, (f st).effects⟩

/-- The body calls answer their default outside a worker thread. -/
def withBody (f : WorkerState → β × WorkerState) (default : β) :
    Option WorkerState → Answer (Except String β)
  | none => ⟨.ok default, none, []⟩
  | some st => ⟨.ok (f st).1, some (f st).2, []⟩

/-- `map_err` to an exception: its message names the function. -/
def Answer.throws (function : String) (a : Answer (Except String α)) :
    Answer (Except String α) :=
  { a with reply := a.reply.mapError fun e => function ++ ": " ++ e }

def Answer.map (f : α → β) (a : Answer (Except String α)) : Answer (Except String β) :=
  ⟨a.reply.map f, a.worker, a.effects⟩

variable (crates : Crates)

/-- The bindings call the function with the argument `name`, or throw. -/
def withArgument (name : String) (x : Option β) (w : Option WorkerState)
    (f : β → Answer (Except String α)) : Answer (Except String α) :=
  match x with
  | some b => f b
  | none => ⟨.error (crates.refusal name), w, []⟩

/-- `version`. -/
def folkVersion : String := "folk-ext 0.3.10"

/-- `folk_call`, given the answer of `call_method`. -/
def folkCallAnswered (method payload : Argument) (answer : Except String Bytes)
    (w : Option WorkerState) : Answer (Except String Bytes) :=
  withArgument crates "method" (crates.toText method) w fun method =>
    withArgument crates "payload" (crates.toBinary payload) w fun _ =>
      Answer.throws ("folk_call(" ++ method ++ ")") ⟨answer, w, []⟩

def folkWorkerReady (w : Option WorkerState) : Answer (Except String Bool) :=
  (withWorker doReady w).throws "folk_worker_ready"

/-- The method and the payload are handed to PHP as two binary strings. -/
def folkWorkerRecv (w : Option WorkerState) : Answer (Except String (Option (List Bytes))) :=
  ((withWorker (doRecv crates.serde) w).map fun task =>
    task.map fun t => [asBytes t.1, t.2]).throws "folk_worker_recv"

def folkWorkerSend (result : Argument) (w : Option WorkerState) : Answer (Except String Unit) :=
  withArgument crates "result" (crates.toBinary result) w fun data =>
    (withWorker (doSend crates.serde data) w).throws "folk_worker_send"

def folkWorkerSendError (message : Argument) (w : Option WorkerState) :
    Answer (Except String Unit) :=
  withArgument crates "message" (crates.toText message) w fun message =>
    (withWorker (doSendError message) w).throws "folk_worker_send_error"

def folkIsWorkerThread (w : Option WorkerState) : Bool := w.isSome

/-- `current_request_id`. -/
def currentRequestId (w : Option WorkerState) : Option RequestId :=
  w.bind fun st => st.currentRequestId

def folkRequestId (w : Option WorkerState) : String :=
  ((currentRequestId w).map crates.requestIdText).getD ""

/-- `u16::try_from` of a PHP integer. -/
def statusU16 (status : Int64) : Option UInt16 :=
  if 0 ≤ status.toInt ∧ status.toInt < 65536 then some (.ofNat status.toInt.toNat) else none

/-- The headers are parsed first, then the status is converted; both before the bridge is
called. -/
def folkWriteHead (accepted : Bool) (status headersJson : Argument) (w : Option WorkerState) :
    Answer (Except String Unit) :=
  withArgument crates "status" (crates.toLong status) w fun status =>
    withArgument crates "headers_json" (crates.toText headersJson) w fun headersJson =>
      match crates.headersFromStr headersJson with
      | .error e => ⟨.error ("folk_write_head: invalid headers JSON: " ++ e), w, []⟩
      | .ok headers =>
          match statusU16 status with
          | none =>
              ⟨.error ("folk_write_head: invalid status code " ++ toString status.toInt), w, []⟩
          | some statusU16 =>
              (withWorker (doWriteHead accepted statusU16 headers) w).throws "folk_write_head"

def folkWrite (accepted : Bool) (data : Argument) (w : Option WorkerState) :
    Answer (Except String Unit) :=
  withArgument crates "data" (crates.toText data) w fun data =>
    (withWorker (doWrite accepted (asBytes data)) w).throws "folk_write"

def folkWriteEnd (w : Option WorkerState) : Answer (Except String Unit) :=
  (withWorker doWriteEnd w).throws "folk_write_end"

/-- The number of bytes to read for a PHP integer, 8192 for one that is not positive. A
positive one fits `usize`. -/
def readLength (length : Int64) : Nat :=
  if length.toInt ≤ 0 then 8192 else length.toInt.toNat

def folkRead (length : Argument) (w : Option WorkerState) : Answer (Except String Bytes) :=
  withArgument crates "length" (crates.toLong length) w fun length =>
    withBody (doRead (readLength length)) [] w

def folkReadAll (w : Option WorkerState) : Answer (Except String Bytes) := withBody doReadAll [] w

def folkNextPart (w : Option WorkerState) : Answer (Except String (Option String)) :=
  withBody (doNextPart crates.serde) none w

def folkPartRead (length : Argument) (w : Option WorkerState) : Answer (Except String Bytes) :=
  withArgument crates "length" (crates.toLong length) w fun length =>
    withBody (doPartRead (readLength length)) [] w

def folkPartReadAll (w : Option WorkerState) : Answer (Except String Bytes) :=
  withBody doPartReadAll [] w

end Functions

/-- A call of one of the functions but `folk_worker_run`, with what PHP hands to it. -/
inductive PhpCall where
  | version
  | call (method payload : Argument) (answer : Except String Bytes)
  | workerReady
  | workerRecv
  | workerSend (result : Argument)
  | workerSendError (message : Argument)
  | isWorkerThread
  | requestId
  | writeHead (accepted : Bool) (status headersJson : Argument)
  | write (accepted : Bool) (data : Argument)
  | writeEnd
  | read (length : Argument)
  | readAll
  | nextPart
  | partRead (length : Argument)
  | partReadAll

/-- What PHP gets back. -/
inductive PhpReply where
  | void
  | bool (b : Bool)
  | task (t : Option (List Bytes))
  | text (s : Option String)
  | binary (b : Bytes)

variable (crates : Crates)

def PhpCall.answer (w : Option WorkerState) : PhpCall → Answer (Except String PhpReply)
  | .version => ⟨.ok (.text (some folkVersion)), w, []⟩
  | .call method payload answer => (folkCallAnswered crates method payload answer w).map .binary
  | .workerReady => (folkWorkerReady w).map .bool
  | .workerRecv => (folkWorkerRecv crates w).map .task
  | .workerSend result => (folkWorkerSend crates result w).map fun _ => .void
  | .workerSendError message => (folkWorkerSendError crates message w).map fun _ => .void
  | .isWorkerThread => ⟨.ok (.bool (folkIsWorkerThread w)), w, []⟩
  | .requestId => ⟨.ok (.text (some (folkRequestId crates w))), w, []⟩
  | .writeHead accepted status headersJson =>
      (folkWriteHead crates accepted status headersJson w).map fun _ => .void
  | .write accepted data => (folkWrite crates accepted data w).map fun _ => .void
  | .writeEnd => (folkWriteEnd w).map fun _ => .void
  | .read length => (folkRead crates length w).map .binary
  | .readAll => (folkReadAll w).map .binary
  | .nextPart => (folkNextPart crates w).map .text
  | .partRead length => (folkPartRead crates length w).map .binary
  | .partReadAll => (folkPartReadAll w).map .binary

/-- Where a call of `folk_worker_run` stands: at the receive of its loop, or in the PHP
handler. -/
inductive LoopStage where
  | receiving
  | handling

/-- A worker thread between two steps of its script: its state, the channel operations so
far, and the calls of `folk_worker_run` that have not returned, the innermost first. -/
structure PhpThread where
  worker : WorkerState
  log : List Effect
  loops : List LoopStage

/-- What comes next on the thread: PHP code calls a function or enters `folk_worker_run`,
the innermost loop receives, or its handler comes back with the result of `call_dispatch`. -/
inductive PhpAction where
  | call (c : PhpCall)
  | workerRun (dispatchFn : Argument)
  | receive
  | finish (result : Except String Value)

namespace PhpThread

def start (q : TaskQueue) (workerId : UInt32) : PhpThread := ⟨q.start workerId, [], []⟩

/-- The thread runs PHP code, of the script or of the innermost handler. -/
def inPhp (t : PhpThread) : Bool :=
  match t.loops with
  | .receiving :: _ => false
  | _ => true

/-- One step. `run_dispatch_loop` signals ready before its first receive, and returns at the
closed channel. -/
def step (t : PhpThread) : PhpAction → Option PhpThread
  | .call c =>
      let a := c.answer crates (some t.worker)
      if t.inPhp then a.worker.map fun st => ⟨st, t.log ++ a.effects, t.loops⟩ else none
  | .workerRun dispatchFn =>
      let ready := doReady t.worker
      if t.inPhp then
        match crates.toText dispatchFn with
        | none => some t
        | some _ => some ⟨ready.state, t.log ++ ready.effects, .receiving :: t.loops⟩
      else none
  | .receive =>
      let received := loopRecv t.worker
      match t.loops with
      | .receiving :: outer =>
          some ⟨received.state, t.log ++ received.effects,
            if received.reply then .handling :: outer else outer⟩
      | _ => none
  | .finish result =>
      let finished := loopFinish result t.worker
      match t.loops with
      | .handling :: outer =>
          some ⟨finished.state, t.log ++ finished.effects, .receiving :: outer⟩
      | _ => none

end PhpThread

variable {crates} {t u : PhpThread} {q : TaskQueue}

section Calls

variable {st : WorkerState} {α β : Type}

/-- An answer that leaves the bridge alone, signals ready, or makes one bridge call. -/
inductive Answer.Does (serde : SerdeJson) (st : WorkerState) (a : Answer α) : Prop
  | nothing (hworker : a.worker = some st) (heffects : a.effects = []) : Does serde st a
  | ready (hworker : a.worker = some (doReady st).state)
      (heffects : a.effects = (doReady st).effects) : Does serde st a
  | step (b : Call) (hworker : a.worker = some ((Step.call b).outcome serde st).state)
      (heffects : a.effects = ((Step.call b).outcome serde st).effects) : Does serde st a

/-- Only what is done counts, not the answer. -/
theorem Answer.Does.of_eq {serde : SerdeJson} {a : Answer α} {b : Answer β}
    (h : a.Does serde st) (hworker : b.worker = a.worker) (heffects : b.effects = a.effects) :
    b.Does serde st := by
  cases h with
  | nothing hw he => exact .nothing (hworker.trans hw) (heffects.trans he)
  | ready hw he => exact .ready (hworker.trans hw) (heffects.trans he)
  | step c hw he => exact .step c (hworker.trans hw) (heffects.trans he)

/-- A refused argument leaves the bridge alone. -/
theorem Answer.Does.argument {serde : SerdeJson} {name : String} {x : Option β}
    {f : β → Answer (Except String α)} (h : ∀ b, (f b).Does serde st) :
    (withArgument crates name x (some st) f).Does serde st := by
  cases x with
  | none => exact .nothing rfl rfl
  | some b => exact h b

theorem PhpCall.does (crates : Crates) (c : PhpCall) (st : WorkerState) :
    (c.answer crates (some st)).Does crates.serde st := by
  cases c with
  | version | isWorkerThread | requestId => exact .nothing rfl rfl
  | workerReady => exact .ready rfl rfl
  | workerRecv => exact .step .recv rfl rfl
  | writeEnd => exact .step .writeEnd rfl rfl
  | readAll => exact .step .readAll rfl rfl
  | nextPart => exact .step .nextPart rfl rfl
  | partReadAll => exact .step .partReadAll rfl rfl
  | call method payload answer =>
      have hcall : (folkCallAnswered crates method payload answer (some st)).Does crates.serde st :=
        .argument fun _ => .argument fun _ => .nothing rfl rfl
      exact hcall.of_eq rfl rfl
  | workerSend result =>
      have hsend : (folkWorkerSend crates result (some st)).Does crates.serde st :=
        .argument fun data => .step (.send data) rfl rfl
      exact hsend.of_eq rfl rfl
  | workerSendError message =>
      have hsend : (folkWorkerSendError crates message (some st)).Does crates.serde st :=
        .argument fun message => .step (.sendError message) rfl rfl
      exact hsend.of_eq rfl rfl
  | writeHead accepted status headersJson =>
      have hwrite : (folkWriteHead crates accepted status headersJson (some st)).Does
          crates.serde st := by
        refine .argument fun status => .argument fun headersJson => ?_
        split
        · exact .nothing rfl rfl
        · next headers _ =>
            split
            · exact .nothing rfl rfl
            · next code _ => exact .step (.writeHead accepted code headers) rfl rfl
      exact hwrite.of_eq rfl rfl
  | write accepted data =>
      have hwrite : (folkWrite crates accepted data (some st)).Does crates.serde st :=
        .argument fun data => .step (.write accepted (asBytes data)) rfl rfl
      exact hwrite.of_eq rfl rfl
  | read length =>
      have hread : (folkRead crates length (some st)).Does crates.serde st :=
        .argument fun length => .step (.read (readLength length)) rfl rfl
      exact hread.of_eq rfl rfl
  | partRead length =>
      have hread : (folkPartRead crates length (some st)).Does crates.serde st :=
        .argument fun length => .step (.partRead (readLength length)) rfl rfl
      exact hread.of_eq rfl rfl

end Calls

section Exceptions

/-- The arguments that the bindings convert, and whether they can. -/
def PhpCall.arguments (crates : Crates) : PhpCall → List (String × Bool)
  | .call method payload _ =>
      [("method", (crates.toText method).isSome), ("payload", (crates.toBinary payload).isSome)]
  | .workerSend result => [("result", (crates.toBinary result).isSome)]
  | .workerSendError message => [("message", (crates.toText message).isSome)]
  | .writeHead _ status headersJson =>
      [("status", (crates.toLong status).isSome),
        ("headers_json", (crates.toText headersJson).isSome)]
  | .write _ data => [("data", (crates.toText data).isSome)]
  | .read length | .partRead length => [("length", (crates.toLong length).isSome)]
  | _ => []

/-- The functions that answer a request, by name. -/
def PhpCall.answering : PhpCall → Option String
  | .workerSend _ => some "folk_worker_send"
  | .writeHead _ _ _ => some "folk_write_head"
  | .write _ _ => some "folk_write"
  | .writeEnd => some "folk_write_end"
  | _ => none

/-- The exceptions of a worker thread, cause by cause: the text, the state that is left and
the channel operations that were made before. -/
inductive Thrown (crates : Crates) (st : WorkerState) :
    PhpCall → String → WorkerState → List Effect → Prop
  | refused {c : PhpCall} {name : String} (hargument : (name, false) ∈ c.arguments crates) :
      Thrown crates st c (crates.refusal name) st []
  | registry {method payload : Argument} {name e : String}
      (hname : crates.toText method = some name) :
      Thrown crates st (.call method payload (.error e))
        ("folk_call(" ++ name ++ ")" ++ ": " ++ e) st []
  | badHeaders {accepted : Bool} {status headersJson : Argument} {text e : String}
      (htext : crates.toText headersJson = some text)
      (hparse : crates.headersFromStr text = .error e) :
      Thrown crates st (.writeHead accepted status headersJson)
        ("folk_write_head: invalid headers JSON: " ++ e) st []
  | badStatus {accepted : Bool} {status headersJson : Argument} {code : Int64}
      (hcode : crates.toLong status = some code) (hrange : statusU16 code = none) :
      Thrown crates st (.writeHead accepted status headersJson)
        ("folk_write_head: invalid status code " ++ toString code.toInt) st []
  | idle {c : PhpCall} {name : String} (hname : c.answering = some name)
      (hstream : st.currentStreamTx = none) :
      Thrown crates st c (name ++ ": " ++ "no pending request") st []
  | headTwice {accepted : Bool} {status headersJson : Argument} {tx : StreamTx}
      (hstream : st.currentStreamTx = some tx) (hstarted : st.streamStarted = true) :
      Thrown crates st (.writeHead accepted status headersJson)
        ("folk_write_head" ++ ": " ++ "folk_write_head called more than once for this request")
        st []
  | headGone {status headersJson : Argument} {tx : StreamTx} {long : Int64} {text : String}
      {code : UInt16} {headers : List (String × String)}
      (hstream : st.currentStreamTx = some tx) (hstarted : st.streamStarted = false)
      (hlong : crates.toLong status = some long) (hcode : statusU16 long = some code)
      (htext : crates.toText headersJson = some text)
      (hparse : crates.headersFromStr text = .ok headers) :
      Thrown crates st (.writeHead false status headersJson)
        ("folk_write_head" ++ ": " ++ "stream receiver closed (client gone)")
        { st with streamStarted := true } [.send tx (.headers code headers)]
  | bodyGone {data : Argument} {tx : StreamTx} {text : String}
      (hstream : st.currentStreamTx = some tx) (htext : crates.toText data = some text) :
      Thrown crates st (.write false data)
        ("folk_write" ++ ": " ++ "stream receiver closed (client gone)") st
        [.send tx (.body (asBytes text))]
  | malformed {result : Argument} {tx : StreamTx} {d : DoneTx} {data : Bytes} {e : String}
      (hstream : st.currentStreamTx = some tx) (hdone : st.currentDoneTx = some d)
      (hdata : crates.toBinary result = some data)
      (hparse : crates.serde.fromSlice data = .error e) :
      Thrown crates st (.workerSend result)
        ("folk_worker_send" ++ ": " ++ "PHP returned malformed JSON") st.clear
        [.send tx (.error (.new ("PHP returned malformed JSON: " ++ e))), .send tx .streamEnd,
          .signal d, .dropStream tx]

variable {st : WorkerState} {α β : Type}

/-- What is left of an error under a conversion of the answer. -/
theorem map_error {r : Except String α} {f : α → β} {e : String} (h : r.map f = .error e) :
    r = .error e := by
  cases r with
  | ok v => cases h
  | error text =>
      cases h
      rfl

/-- An exception of a function names it before the text of the bridge. -/
theorem throws_error {r : Except String α} {function e : String}
    (h : (r.mapError fun text => function ++ ": " ++ text) = .error e) :
    ∃ text, r = .error text ∧ e = function ++ ": " ++ text := by
  cases r with
  | ok v => cases h
  | error text =>
      cases h
      exact ⟨text, rfl, rfl⟩

/-- Every exception of the answer has one of the causes. -/
def Answer.Explained (crates : Crates) (st : WorkerState) (c : PhpCall)
    (a : Answer (Except String α)) : Prop :=
  ∀ e, a.reply = .error e → ∃ st', a.worker = some st' ∧ Thrown crates st c e st' a.effects

theorem Answer.Explained.map {c : PhpCall} {a : Answer (Except String α)}
    (h : a.Explained crates st c) (f : α → β) : (a.map f).Explained crates st c :=
  fun e he => h e (map_error he)

theorem Answer.Explained.of_ok {c : PhpCall} {a : Answer (Except String α)} {v : α}
    (h : a.reply = .ok v) : a.Explained crates st c := by
  intro e he
  rw [h] at he
  cases he

/-- The bindings refuse the argument, or the function goes on with it. -/
theorem Answer.Explained.argument {c : PhpCall} {name : String} {x : Option β}
    {f : β → Answer (Except String α)} (hname : (name, x.isSome) ∈ c.arguments crates)
    (h : ∀ b, x = some b → (f b).Explained crates st c) :
    (withArgument crates name x (some st) f).Explained crates st c := by
  cases x with
  | none =>
      intro e he
      cases he
      exact ⟨st, rfl, .refused hname⟩
  | some b => exact h b rfl

theorem explained_send {result : Argument} {data : Bytes}
    (htogether : st.currentStreamTx.isSome = st.currentDoneTx.isSome)
    (hdata : crates.toBinary result = some data) :
    ((withWorker (doSend crates.serde data) (some st)).throws "folk_worker_send").Explained
      crates st (.workerSend result) := by
  intro e he
  obtain ⟨text, htext, rfl⟩ := throws_error he
  have herror : (doSend crates.serde data st).reply = .error text := htext
  refine ⟨(doSend crates.serde data st).state, rfl, ?_⟩
  show Thrown crates st _ _ _ (doSend crates.serde data st).effects
  cases hstream : st.currentStreamTx with
  | none =>
      simp only [doSend, hstream] at herror ⊢
      cases herror
      exact .idle rfl hstream
  | some tx =>
      obtain ⟨d, hdone⟩ : ∃ d, st.currentDoneTx = some d := by
        rw [hstream] at htogether
        exact Option.isSome_iff_exists.mp htogether.symm
      cases hparse : crates.serde.fromSlice data with
      | ok v => simp [doSend, hstream, hdone, hparse] at herror
      | error e =>
          simp only [doSend, hstream, hdone, hparse] at herror ⊢
          cases herror
          exact .malformed hstream hdone hdata hparse

theorem explained_writeHead {accepted : Bool} {status headersJson : Argument} {long : Int64}
    {text : String} {code : UInt16} {headers : List (String × String)}
    (hlong : crates.toLong status = some long) (hcode : statusU16 long = some code)
    (htext : crates.toText headersJson = some text)
    (hparse : crates.headersFromStr text = .ok headers) :
    ((withWorker (doWriteHead accepted code headers) (some st)).throws
      "folk_write_head").Explained crates st (.writeHead accepted status headersJson) := by
  intro e he
  obtain ⟨cause, hcause, rfl⟩ := throws_error he
  have herror : (doWriteHead accepted code headers st).reply = .error cause := hcause
  refine ⟨(doWriteHead accepted code headers st).state, rfl, ?_⟩
  show Thrown crates st _ _ _ (doWriteHead accepted code headers st).effects
  cases hstream : st.currentStreamTx with
  | none =>
      simp only [doWriteHead, hstream] at herror ⊢
      cases herror
      exact .idle rfl hstream
  | some tx =>
      by_cases hstarted : st.streamStarted = true
      · simp only [doWriteHead, hstream, hstarted, if_true] at herror ⊢
        cases herror
        exact .headTwice hstream hstarted
      · have hfirst : st.streamStarted = false := Bool.eq_false_iff.mpr hstarted
        cases accepted with
        | true => simp [doWriteHead, writeReply, hstream, hfirst] at herror
        | false =>
            have hgone : doWriteHead false code headers st =
                ⟨.error "stream receiver closed (client gone)",
                  { st with streamStarted := true }, [.send tx (.headers code headers)]⟩ := by
              simp [doWriteHead, writeReply, hstream, hfirst]
            rw [hgone] at herror ⊢
            cases herror
            exact .headGone hstream hfirst hlong hcode htext hparse

theorem explained_write {accepted : Bool} {data : Argument} {text : String}
    (htext : crates.toText data = some text) :
    ((withWorker (doWrite accepted (asBytes text)) (some st)).throws "folk_write").Explained
      crates st (.write accepted data) := by
  intro e he
  obtain ⟨cause, hcause, rfl⟩ := throws_error he
  have herror : (doWrite accepted (asBytes text) st).reply = .error cause := hcause
  refine ⟨(doWrite accepted (asBytes text) st).state, rfl, ?_⟩
  show Thrown crates st _ _ _ (doWrite accepted (asBytes text) st).effects
  cases hstream : st.currentStreamTx with
  | none =>
      simp only [doWrite, hstream] at herror ⊢
      cases herror
      exact .idle rfl hstream
  | some tx =>
      by_cases hempty : (asBytes text).isEmpty = true
      · simp [doWrite, hstream, hempty] at herror
      · simp only [doWrite, hstream, hempty, Bool.false_eq_true, if_false] at herror ⊢
        cases accepted with
        | true => cases herror
        | false =>
            cases herror
            exact .bodyGone hstream htext

theorem explained_writeEnd (htogether : st.currentStreamTx.isSome = st.currentDoneTx.isSome) :
    (folkWriteEnd (some st)).Explained crates st .writeEnd := by
  intro e he
  obtain ⟨text, htext, rfl⟩ := throws_error he
  have herror : (doWriteEnd st).reply = .error text := htext
  refine ⟨(doWriteEnd st).state, rfl, ?_⟩
  show Thrown crates st _ _ _ (doWriteEnd st).effects
  cases hstream : st.currentStreamTx with
  | none =>
      simp only [doWriteEnd, hstream] at herror ⊢
      cases herror
      exact .idle rfl hstream
  | some tx =>
      obtain ⟨d, hdone⟩ : ∃ d, st.currentDoneTx = some d := by
        rw [hstream] at htogether
        exact Option.isSome_iff_exists.mp htogether.symm
      simp [doWriteEnd, hstream, hdone] at herror

/-- An exception on a worker thread has one of the causes, and leaves what it says. -/
theorem PhpCall.explained (crates : Crates) (c : PhpCall)
    (htogether : st.currentStreamTx.isSome = st.currentDoneTx.isSome) :
    (c.answer crates (some st)).Explained crates st c := by
  cases c with
  | version | isWorkerThread | requestId | readAll | nextPart | partReadAll => exact .of_ok rfl
  | workerReady =>
      have hready : ∃ b, (doReady st).reply = .ok b := by
        unfold doReady
        split
        · exact ⟨true, rfl⟩
        · exact ⟨false, rfl⟩
      obtain ⟨b, hb⟩ := hready
      refine Answer.Explained.map (.of_ok (v := b) ?_) PhpReply.bool
      simp [folkWorkerReady, withWorker, Answer.throws, hb, Except.mapError]
  | workerRecv =>
      have hrecv : ∃ task, (doRecv crates.serde st).reply = .ok task := by
        unfold doRecv
        split
        · exact ⟨_, rfl⟩
        · exact ⟨none, rfl⟩
      obtain ⟨task, htask⟩ := hrecv
      refine Answer.Explained.map (.of_ok (v := task.map fun t => [asBytes t.1, t.2]) ?_)
        PhpReply.task
      simp [folkWorkerRecv, withWorker, Answer.throws, Answer.map, htask, Except.mapError,
        Except.map]
  | call method payload answer =>
      refine Answer.Explained.map ?_ PhpReply.binary
      refine .argument (by simp [PhpCall.arguments]) fun name hname =>
        .argument (by simp [PhpCall.arguments]) fun _ _ => ?_
      intro e he
      obtain ⟨text, rfl, rfl⟩ := throws_error he
      exact ⟨st, rfl, .registry hname⟩
  | workerSend result =>
      refine Answer.Explained.map ?_ fun _ => PhpReply.void
      exact .argument (by simp [PhpCall.arguments]) fun data hdata =>
        explained_send htogether hdata
  | workerSendError message =>
      refine Answer.Explained.map ?_ fun _ => PhpReply.void
      exact .argument (by simp [PhpCall.arguments]) fun message _ => .of_ok (v := ()) rfl
  | writeHead accepted status headersJson =>
      refine Answer.Explained.map ?_ fun _ => PhpReply.void
      refine .argument (by simp [PhpCall.arguments]) fun long hlong =>
        .argument (by simp [PhpCall.arguments]) fun text htext => ?_
      split
      · next e hparse =>
          intro e' he
          cases he
          exact ⟨st, rfl, .badHeaders htext hparse⟩
      · next headers hparse =>
          split
          · next hrange =>
              intro e he
              cases he
              exact ⟨st, rfl, .badStatus hlong hrange⟩
          · next code hcode => exact explained_writeHead hlong hcode htext hparse
  | write accepted data =>
      refine Answer.Explained.map ?_ fun _ => PhpReply.void
      exact .argument (by simp [PhpCall.arguments]) fun text htext => explained_write htext
  | writeEnd => exact .map (explained_writeEnd htogether) fun _ => PhpReply.void
  | read length | partRead length =>
      refine Answer.Explained.map ?_ PhpReply.binary
      exact .argument (by simp [PhpCall.arguments]) fun _ _ => .of_ok rfl

end Exceptions

section Threads

/-- A step of the bridge works on the channels of the request that the thread has. -/
theorem targets_of_isolated {tasks : List TaskRequest} {st : WorkerState}
    (h : Isolated tasks st) (serde : SerdeJson) (b : Step) :
    ∀ e ∈ (b.outcome serde st).effects,
      ∃ r ∈ tasks, st.Serves r ∧ e.targets r.streamTx r.doneTx := by
  intro e he
  rcases h.current with hclean | ⟨served, r, htasks, hserves⟩
  · rw [(idle_step serde ⟨hclean.stream, hclean.done⟩ b).1] at he
    cases he
  · refine ⟨r, ?_, hserves, (busy_move serde hserves.stream hserves.done b).targets e he⟩
    rw [htasks]
    exact List.mem_append_right _ List.mem_cons_self

/-- No step of the bridge reads or writes the ready flag. -/
theorem outcome_readyTx (serde : SerdeJson) (st : WorkerState) (b : Step) :
    (b.outcome serde st).state.readyTx = st.readyTx := by
  have hextend := outcome_extend serde st st.readyTx [] (s := b) fun _ => .inr rfl
  rw [st.extend_nil] at hextend
  rw [hextend]
  rfl

def isReady : Effect → Bool
  | .ready => true
  | _ => false

/-- The invariant of a worker thread that serves the queue `q`. -/
structure PhpThread.Working (q : TaskQueue) (t : PhpThread) : Prop where
  ledger : Ledger q t.log t.worker
  isolated : Isolated q.tasks t.worker
  ready : t.log.countP isReady + (if t.worker.readyTx then 1 else 0) ≤ 1

theorem PhpThread.Working.start (q : TaskQueue) (workerId : UInt32) :
    (PhpThread.start q workerId).Working q where
  ledger := .start workerId
  isolated := .start workerId
  ready := le_rfl

/-- A bridge call, or a half of a loop iteration. -/
theorem PhpThread.Working.bridge (h : t.Working q) (serde : SerdeJson) (b : Step)
    (loops : List LoopStage) : PhpThread.Working q
      ⟨(b.outcome serde t.worker).state, t.log ++ (b.outcome serde t.worker).effects, loops⟩ where
  ledger := h.ledger.step serde b
  isolated := h.isolated.step serde b
  ready := by
    have hsilent : (b.outcome serde t.worker).effects.countP isReady = 0 := by
      rw [List.countP_eq_zero]
      intro e he
      obtain ⟨r, _, _, htargets⟩ := targets_of_isolated h.isolated serde b e he
      cases e with
      | ready => exact htargets.elim
      | _ => exact Bool.false_ne_true
    rw [List.countP_append, hsilent, Nat.add_zero, outcome_readyTx]
    exact h.ready

theorem PhpThread.Working.signalled (h : t.Working q) (loops : List LoopStage) :
    PhpThread.Working q ⟨(doReady t.worker).state, t.log ++ (doReady t.worker).effects, loops⟩ := by
  have hready := h.ready
  by_cases hflag : t.worker.readyTx = true
  · have hhistory (r : TaskRequest) : history r (t.log ++ [.ready]) = history r t.log := by
      rw [history_append]
      exact List.append_nil _
    rw [hflag, if_pos rfl] at hready
    simp only [doReady, hflag, if_true]
    refine ⟨⟨h.ledger.queue, ?_, ?_, ?_⟩, ⟨h.isolated.queue, ?_⟩, ?_⟩
    · intro r hr
      rw [hhistory]
      exact h.ledger.waiting r hr
    · simp only [hhistory]
      exact h.ledger.current
    · simp only [hhistory]
      exact h.ledger.settled
    · rcases h.isolated.current with hclean | ⟨served, r, htasks, hserves⟩
      · exact .inl ⟨hclean.stream, hclean.done, hclean.id, hclean.body, hclean.leftover,
          hclean.started⟩
      · exact .inr ⟨served, r, htasks, hserves.stream, hserves.done, hserves.id, hserves.body,
          hserves.unread⟩
    · simpa [List.countP_append, isReady] using hready
  · have hkept : PhpThread.Working q ⟨t.worker, t.log, loops⟩ := ⟨h.ledger, h.isolated, h.ready⟩
    simpa [doReady, hflag] using hkept

/-- A call of a function other than `folk_worker_run`. -/
theorem PhpThread.Working.called (h : t.Working q) (c : PhpCall)
    (hstep : t.step crates (.call c) = some u) : u.Working q := by
  simp only [PhpThread.step] at hstep
  split at hstep
  · obtain ⟨st, hst, rfl⟩ := Option.map_eq_some_iff.mp hstep
    cases c.does crates t.worker with
    | nothing hworker heffects =>
        rw [heffects, List.append_nil]
        obtain rfl := Option.some.inj (hworker.symm.trans hst)
        exact h
    | ready hworker heffects =>
        rw [heffects]
        obtain rfl := Option.some.inj (hworker.symm.trans hst)
        exact h.signalled t.loops
    | step b hworker heffects =>
        rw [heffects]
        obtain rfl := Option.some.inj (hworker.symm.trans hst)
        exact h.bridge crates.serde (.call b) t.loops
  · cases hstep

theorem PhpThread.Working.step (h : t.Working q) {a : PhpAction}
    (hstep : t.step crates a = some u) : u.Working q := by
  cases a with
  | call c => exact h.called c hstep
  | workerRun dispatchFn =>
      simp only [PhpThread.step] at hstep
      split at hstep
      · split at hstep
        · cases hstep
          exact h
        · cases hstep
          exact h.signalled _
      · cases hstep
  | receive =>
      simp only [PhpThread.step] at hstep
      split at hstep
      · cases hstep
        exact h.bridge crates.serde .loopRecv _
      · cases hstep
  | finish result =>
      simp only [PhpThread.step] at hstep
      split at hstep
      · cases hstep
        exact h.bridge crates.serde (.loopFinish result) _
      · cases hstep

theorem PhpThread.working_of_reachable {workerId : UInt32}
    (h : Reachable (PhpThread.step crates) (.start q workerId) t) : t.Working q :=
  h.invariant (PhpThread.Working q) (.start q workerId) fun _ _ _ ht _ hstep => ht.step hstep

end Threads

/-- Whatever a script does with the functions of the module, with any arguments and in any
order, outside and inside of `folk_worker_run`, which handlers may call again: the stream of
each request keeps the contract, the two collectors agree on it wherever it is cut, and the
thread signals ready at most once. -/
theorem php_scripts_keep_contract (crates : Crates) (q : TaskQueue) (workerId : UInt32)
    (t : PhpThread) (h : Reachable (PhpThread.step crates) (.start q workerId) t) :
    (∀ r ∈ q.tasks, ∀ cs, cs <+: streamChunks r t.log →
      LegalStream cs ∧ collectStreamToValue cs = Pool.collectStream cs) ∧
    t.log.countP isReady ≤ 1 := by
  have hworking := PhpThread.working_of_reachable h
  constructor
  · intro r hr cs hcut
    obtain ⟨p, hphase, hsettled⟩ := hworking.ledger.settled r hr
    have hregular : ReturnThenEnd (streamChunks r t.log) := returnThenEnd_of_runs hphase
    exact ⟨legalStream_of_history (legalHistory_of_phase hphase hsettled) hcut,
      drain_agree (hregular.of_prefix hcut) .empty⟩
  · have := hworking.ready
    omega

/-- Crates that convert an argument of the right type, read the text of no headers, and print
ids as they are. -/
def Crates.sample : Crates where
  toText
    | some (.string bytes) => fromUtf8? bytes
    | _ => none
  toBinary
    | some (.string bytes) => some bytes
    | _ => none
  toLong
    | some (.long i) => some i
    | _ => none
  refusal name := "Invalid value given for argument `" ++ name ++ "`."
  serde := .ofNull
  headersFromStr _ := .ok []
  requestIdText := toString

/-- The argument is this text. -/
def Argument.ofText (s : String) : Argument := some (.string (asBytes s))

/-- A script that serves a request in a loop: the first head has a bad status and throws, the
second one is sent, a text that is not UTF-8 is refused, and the handler enters a loop of its
own, which finds the channel closed. -/
def headedScript : List PhpAction :=
  [.workerRun (.ofText "handle"), .receive,
    .call (.writeHead true (some (.long (-1))) (.ofText "")),
    .call (.writeHead true (some (.long 200)) (.ofText "")),
    .call (.write true (some (.string [0xFF]))), .workerRun (.ofText "inner"), .receive,
    .call (.write true (.ofText "A")), .finish (.ok .null)]

/-- The stream of that request is cut after its headers. -/
theorem headed_stream_kept :
    ∃ t, Reachable (PhpThread.step .sample) (.start (.single (.bare 1)) 1) t ∧
      t.log.countP isReady = 1 ∧ LegalStream [.headers 200 []] := by
  obtain ⟨t, hrun, hready, rest, hchunks⟩ : ∃ t,
      runs (PhpThread.step .sample) (.start (.single (.bare 1)) 1) headedScript = some t ∧
        t.log.countP isReady = 1 ∧
        ∃ rest, [.headers 200 []] ++ rest = streamChunks (.bare 1) t.log :=
    ⟨_, rfl, rfl, _, rfl⟩
  have ht := reachable_of_runs hrun
  obtain ⟨hlegal, _⟩ := (php_scripts_keep_contract .sample (.single (.bare 1)) 1 t ht).1
    (.bare 1) (by simp [TaskQueue.single]) _ ⟨rest, hchunks⟩
  exact ⟨t, ht, hready, hlegal⟩

/-- A call on a worker thread answers only the request that `folk_request_id` names, and where
it throws, its exception has one of the causes: a refused argument, headers that do not parse
and a status out of range change nothing, a head for a client that is gone counts as sent, and
a malformed result ends the request. -/
theorem php_calls_work_on_named_request (crates : Crates) (q : TaskQueue) (workerId : UInt32)
    (t : PhpThread) (h : Reachable (PhpThread.step crates) (.start q workerId) t) (c : PhpCall) :
    let a := c.answer crates (some t.worker)
    (∀ tx chunk, .send tx chunk ∈ a.effects → ∃ r ∈ q.tasks, tx = r.streamTx ∧
      folkRequestId crates (some t.worker) = crates.requestIdText r.requestId) ∧
    ∀ e, a.reply = .error e → ∃ st', a.worker = some st' ∧
      Thrown crates t.worker c e st' a.effects := by
  intro a
  have hworking := PhpThread.working_of_reachable h
  constructor
  · intro tx chunk hsend
    cases c.does crates t.worker with
    | nothing _ heffects =>
        rw [show a.effects = [] from heffects] at hsend
        cases hsend
    | ready _ heffects =>
        rw [show a.effects = _ from heffects] at hsend
        cases doReady_effects t.worker _ hsend
    | step b _ heffects =>
        rw [show a.effects = _ from heffects] at hsend
        obtain ⟨r, hr, hserves, htargets⟩ :=
          targets_of_isolated hworking.isolated crates.serde (.call b) _ hsend
        refine ⟨r, hr, htargets, ?_⟩
        simp [folkRequestId, currentRequestId, hserves.id]
  · exact c.explained crates hworking.isolated.together.1

/-- After the head of request 7 its handler writes a text on the stream that is named by its id,
and another head throws without a change. -/
theorem handler_writes_on_named_request :
    ∃ t, Reachable (PhpThread.step .sample) (.start (.single (.bare 7)) 1) t ∧
      folkRequestId .sample (some t.worker) = "7" ∧
      (∃ tx chunk, .send tx chunk ∈
          ((PhpCall.write true (.ofText "A")).answer .sample (some t.worker)).effects ∧
        ∃ r ∈ (TaskQueue.single (.bare 7)).tasks, tx = r.streamTx) ∧
      ∃ e, Thrown .sample t.worker (.writeHead true (some (.long 200)) (.ofText "")) e
        t.worker [] := by
  obtain ⟨t, hrun, hname, hsend, hthrows⟩ : ∃ t,
      runs (PhpThread.step .sample) (.start (.single (.bare 7)) 1)
        [.workerRun (.ofText "handle"), .receive,
          .call (.writeHead true (some (.long 200)) (.ofText ""))] = some t ∧
      folkRequestId .sample (some t.worker) = "7" ∧
      ((PhpCall.write true (.ofText "A")).answer .sample (some t.worker)).effects =
        [.send 7 (.body [65])] ∧
      (PhpCall.writeHead true (some (.long 200)) (.ofText "")).answer .sample (some t.worker) =
        ⟨.error ("folk_write_head" ++ ": " ++
          "folk_write_head called more than once for this request"), some t.worker, []⟩ :=
    ⟨_, rfl, rfl, rfl, rfl⟩
  have hnamed := php_calls_work_on_named_request .sample (.single (.bare 7)) 1 t
    (reachable_of_runs hrun)
  have hchunk : .send 7 (.body [65]) ∈
      ((PhpCall.write true (.ofText "A")).answer .sample (some t.worker)).effects := by
    rw [hsend]
    exact List.mem_singleton_self _
  obtain ⟨r, hr, htx, _⟩ := (hnamed (.write true (.ofText "A"))).1 _ _ hchunk
  obtain ⟨st', hst, hthrown⟩ :=
    (hnamed (.writeHead true (some (.long 200)) (.ofText ""))).2 _ (by rw [hthrows])
  rw [hthrows] at hst hthrown
  cases hst
  exact ⟨t, reachable_of_runs hrun, hname, ⟨7, _, hchunk, r, hr, htx⟩, _, hthrown⟩

end FolkCore.Ext
