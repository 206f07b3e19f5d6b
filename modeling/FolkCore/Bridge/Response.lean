import FolkCore.Bridge.State

/-!
# Receiving requests and answering them

The response half of the bridge: `do_recv`, `do_send`, `do_send_error`, the
streaming writes, and the finaliser of one `run_dispatch_loop` iteration. A
streaming write reports whether the consumer still held the receiver; the flag
`accepted` is the answer of its `blocking_send`. The other calls ignore that
answer.
-/

namespace FolkCore.Bridge

variable (serde : SerdeJson)

/-- `do_ready`: signal ready once. -/
def doReady (st : WorkerState) : Outcome (Except String Bool) :=
  if st.readyTx then ⟨.ok true, { st with readyTx := false }, [.ready]⟩
  else ⟨.ok false, st, []⟩

/-- `do_recv`: take the next task, replacing an unfinished request. -/
def doRecv (st : WorkerState) : Outcome (Except String (Option (String × Bytes))) :=
  match st.taskRx with
  | req :: rest =>
      ⟨.ok (some (req.method, (serde.toVec req.payload).getD [])),
        st.accept req rest, st.release⟩
  | [] => ⟨.ok none, st, []⟩

/-- The chunk for a returned value: `__error` turns it into a fatal. -/
def verdict (v : Value) : ResponseChunk :=
  if (v.get "__error").isSome then .error (workerErrorFromValue v) else .returnValue v

/-- `do_send`: answer with JSON text. The pending request is taken before the
text is parsed, so a malformed text still finalises it. -/
def doSend (data : Bytes) (st : WorkerState) : Outcome (Except String Unit) :=
  match st.currentStreamTx with
  | none => ⟨.error "no pending request", st, []⟩
  | some tx =>
      match st.currentDoneTx with
      | none =>
          ⟨.error "no pending done channel", { st with currentStreamTx := none },
            [.dropStream tx]⟩
      | some d =>
          match serde.fromSlice data with
          | .error e =>
              ⟨.error "PHP returned malformed JSON", st.clear,
                [.send tx (.error (.new ("PHP returned malformed JSON: " ++ e))),
                  .send tx .streamEnd, .signal d, .dropStream tx]⟩
          | .ok v =>
              ⟨.ok (), st.clear,
                [.send tx (verdict v), .send tx .streamEnd, .signal d, .dropStream tx]⟩

/-- `do_send_error`: answer with a fatal. It succeeds without a request too. -/
def doSendError (message : String) (st : WorkerState) : Outcome (Except String Unit) :=
  ⟨.ok (), st.clear,
    (st.currentStreamTx.toList.flatMap fun tx =>
      [.send tx (.error (.new message)), .send tx .streamEnd, .dropStream tx]) ++
    st.currentDoneTx.toList.map .signal⟩

/-- The answer of a streaming write, given the answer of its `blocking_send`. -/
def writeReply (accepted : Bool) : Except String Unit :=
  if accepted then .ok () else .error "stream receiver closed (client gone)"

/-- `do_write_head`: the flag is raised before the send. -/
def doWriteHead (accepted : Bool) (status : UInt16) (headers : List (String × String))
    (st : WorkerState) : Outcome (Except String Unit) :=
  match st.currentStreamTx with
  | none => ⟨.error "no pending request", st, []⟩
  | some tx =>
      if st.streamStarted then
        ⟨.error "folk_write_head called more than once for this request", st, []⟩
      else
        ⟨writeReply accepted, { st with streamStarted := true },
          [.send tx (.headers status headers)]⟩

/-- `do_write`: the flag `streamStarted` is not consulted. -/
def doWrite (accepted : Bool) (data : Bytes) (st : WorkerState) :
    Outcome (Except String Unit) :=
  match st.currentStreamTx with
  | none => ⟨.error "no pending request", st, []⟩
  | some tx =>
      if data.isEmpty then ⟨.ok (), st, []⟩
      else ⟨writeReply accepted, st, [.send tx (.body data)]⟩

/-- `do_write_end`: finish the response without a verdict. -/
def doWriteEnd (st : WorkerState) : Outcome (Except String Unit) :=
  match st.currentStreamTx with
  | none => ⟨.error "no pending request", st, []⟩
  | some tx =>
      match st.currentDoneTx with
      | none =>
          ⟨.error "no pending done channel", { st with currentStreamTx := none },
            [.dropStream tx]⟩
      | some d => ⟨.ok (), st.clear, [.send tx .streamEnd, .dropStream tx, .signal d]⟩

/-- The receive of one `run_dispatch_loop` iteration; `false` leaves the loop. -/
def loopRecv (st : WorkerState) : Outcome Bool :=
  match st.taskRx with
  | req :: rest => ⟨true, st.accept req rest, st.release⟩
  | [] => ⟨false, st, []⟩

/-- The chunk for the result of `call_dispatch`. -/
def resultChunk : Except String Value → ResponseChunk
  | .ok v => verdict v
  | .error e => .error (.new e)

/-- The finaliser of one `run_dispatch_loop` iteration. A started stream gets
its end alone; the result is read only when PHP did not call `do_write_head`. -/
def loopFinish (result : Except String Value) (st : WorkerState) : Outcome Unit :=
  ⟨(), st.clear,
    (st.currentStreamTx.toList.flatMap fun tx =>
      (if st.streamStarted then [] else [.send tx (resultChunk result)]) ++
        [.send tx .streamEnd, .dropStream tx]) ++
    st.currentDoneTx.toList.map .signal⟩

end FolkCore.Bridge
