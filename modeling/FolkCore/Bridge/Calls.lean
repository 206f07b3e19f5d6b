import FolkCore.Bridge.Response
import FolkCore.Bridge.Body

/-!
# Runs of bridge calls

PHP may call the bridge functions in any order. A `Step` is one such call, or
the receive or the finaliser of `run_dispatch_loop`; `run` performs a list of
them and collects replies and channel operations in order.
-/

namespace FolkCore.Bridge

/-- The bridge functions that PHP can call while it works on requests. -/
inductive Call where
  | recv
  | send (data : Bytes)
  | sendError (message : String)
  | writeHead (accepted : Bool) (status : UInt16) (headers : List (String × String))
  | write (accepted : Bool) (data : Bytes)
  | writeEnd
  | read (length : Nat)
  | readAll
  | nextPart
  | partRead (length : Nat)
  | partReadAll

/-- A bridge call, or one half of a `run_dispatch_loop` iteration. -/
inductive Step where
  | call (c : Call)
  | loopRecv
  | loopFinish (result : Except String Value)

/-- The value a step hands back to its caller. -/
inductive Reply where
  | unit (r : Except String Unit)
  | task (r : Except String (Option (String × Bytes)))
  | bytes (b : Bytes)
  | part (header : Option String)
  | looped (more : Bool)

/-- A body call has no channel operation on the response side. -/
def ofRead (r : Bytes × WorkerState) : Outcome Reply := ⟨.bytes r.1, r.2, []⟩

def Outcome.map {α β : Type} (f : α → β) (o : Outcome α) : Outcome β :=
  ⟨f o.reply, o.state, o.effects⟩

variable (serde : SerdeJson)

/-- One bridge call on a thread that has a worker state. -/
def Call.outcome (st : WorkerState) : Call → Outcome Reply
  | .recv => (doRecv serde st).map .task
  | .send data => (doSend serde data st).map .unit
  | .sendError message => (doSendError message st).map .unit
  | .writeHead accepted status headers =>
      (doWriteHead accepted status headers st).map .unit
  | .write accepted data => (doWrite accepted data st).map .unit
  | .writeEnd => (doWriteEnd st).map .unit
  | .read length => ofRead (doRead length st)
  | .readAll => ofRead (doReadAll st)
  | .nextPart => let r := doNextPart serde st; ⟨.part r.1, r.2, []⟩
  | .partRead length => ofRead (doPartRead length st)
  | .partReadAll => ofRead (doPartReadAll st)

def Step.outcome (st : WorkerState) : Step → Outcome Reply
  | .call c => c.outcome serde st
  | .loopRecv => (Bridge.loopRecv st).map .looped
  | .loopFinish result => (Bridge.loopFinish result st).map fun _ => .looped true

/-- Perform the steps in order. -/
def run : List Step → WorkerState → Outcome (List Reply)
  | [], st => ⟨[], st, []⟩
  | s :: rest, st =>
      let first := s.outcome serde st
      let tail := run rest first.state
      ⟨first.reply :: tail.reply, tail.state, first.effects ++ tail.effects⟩

@[simp] theorem run_nil (st : WorkerState) : run serde [] st = ⟨[], st, []⟩ := rfl

theorem run_append (first second : List Step) (st : WorkerState) :
    run serde (first ++ second) st =
      let a := run serde first st
      let b := run serde second a.state
      ⟨a.reply ++ b.reply, b.state, a.effects ++ b.effects⟩ := by
  induction first generalizing st with
  | nil => simp
  | cons s rest ih => simp [run, ih]

theorem run_snoc (steps : List Step) (s : Step) (st : WorkerState) :
    run serde (steps ++ [s]) st =
      let a := run serde steps st
      let o := s.outcome serde a.state
      ⟨a.reply ++ [o.reply], o.state, a.effects ++ o.effects⟩ := by
  simp [run_append, run]

end FolkCore.Bridge
