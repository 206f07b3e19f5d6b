import FolkCore.Bridge.Calls

/-!
# What one step does to the current request

The response side of a worker state is its `Session`. Body calls touch neither it nor
the id of the worker. On a state that holds a request, `busy_move` lists everything a
step can do to the session; on a state that holds none, `idle_step` does. Every later
invariant of the bridge is a case analysis over these two lemmas.
-/

namespace FolkCore.Bridge

/-- The fields of a worker state that the response calls read and write. -/
structure Session where
  taskRx : List TaskRequest
  streamTx : Option StreamTx
  doneTx : Option DoneTx
  requestId : Option RequestId
  started : Bool

namespace WorkerState

def session (st : WorkerState) : Session :=
  ⟨st.taskRx, st.currentStreamTx, st.currentDoneTx, st.currentRequestId, st.streamStarted⟩

/-- The state holds the channels of request `r`. -/
def Holds (st : WorkerState) (r : TaskRequest) : Prop :=
  st.currentStreamTx = some r.streamTx ∧ st.currentDoneTx = some r.doneTx

/-- The state holds no channel. -/
def Idle (st : WorkerState) : Prop :=
  st.currentStreamTx = none ∧ st.currentDoneTx = none

theorem clear_idle (st : WorkerState) : st.clear.Idle := ⟨rfl, rfl⟩

@[simp] theorem clear_taskRx (st : WorkerState) : st.clear.taskRx = st.taskRx := rfl

theorem accept_holds (st : WorkerState) (r : TaskRequest) (rest : List TaskRequest) :
    (st.accept r rest).Holds r := ⟨rfl, rfl⟩

@[simp] theorem accept_taskRx (st : WorkerState) (r : TaskRequest)
    (rest : List TaskRequest) : (st.accept r rest).taskRx = rest := rfl

@[simp] theorem accept_streamStarted (st : WorkerState) (r : TaskRequest)
    (rest : List TaskRequest) : (st.accept r rest).streamStarted = false := rfl

theorem holds_of_session {st st' : WorkerState} (h : st'.session = st.session)
    {r : TaskRequest} (hr : st.Holds r) : st'.Holds r := by
  simp only [session, Session.mk.injEq] at h
  exact ⟨h.2.1.trans hr.1, h.2.2.1.trans hr.2⟩

theorem idle_of_session {st st' : WorkerState} (h : st'.session = st.session)
    (hidle : st.Idle) : st'.Idle := by
  simp only [session, Session.mk.injEq] at h
  exact ⟨h.2.1.trans hidle.1, h.2.2.1.trans hidle.2⟩

theorem taskRx_of_session {st st' : WorkerState} (h : st'.session = st.session) :
    st'.taskRx = st.taskRx := congrArg Session.taskRx h

theorem started_of_session {st st' : WorkerState} (h : st'.session = st.session) :
    st'.streamStarted = st.streamStarted := congrArg Session.started h

end WorkerState

section BodyCalls

/-- Outside the fields of the request body nothing changes. -/
structure BodyFrame (st st' : WorkerState) : Prop where
  session : st'.session = st.session
  workerId : st'.workerId = st.workerId

theorem BodyFrame.refl (st : WorkerState) : BodyFrame st st := ⟨rfl, rfl⟩

variable (serde : SerdeJson) (st : WorkerState)

theorem doRead_frame (length : Nat) : BodyFrame st (doRead length st).2 := by
  unfold doRead splitLeftover
  split
  · split
    · exact ⟨rfl, rfl⟩
    · exact .refl st
  · exact ⟨rfl, rfl⟩

theorem doReadAll_frame : BodyFrame st (doReadAll st).2 := by
  unfold doReadAll
  split <;> exact ⟨rfl, rfl⟩

theorem readHeader_frame (items : List RequestPart) :
    BodyFrame st (readHeader serde items st).2 := by
  unfold readHeader
  split <;> exact ⟨rfl, rfl⟩

theorem doNextPart_frame : BodyFrame st (doNextPart serde st).2 := by
  unfold doNextPart
  split
  · split
    · exact .refl st
    · split
      · exact ⟨(readHeader_frame serde _ _).session, (readHeader_frame serde _ _).workerId⟩
      · exact ⟨rfl, rfl⟩
    · exact ⟨(readHeader_frame serde _ _).session, (readHeader_frame serde _ _).workerId⟩
  · exact .refl st

theorem doPartRead_frame (length : Nat) : BodyFrame st (doPartRead length st).2 := by
  unfold doPartRead splitLeftover
  split
  · exact .refl st
  · split
    · split
      · split <;> exact ⟨rfl, rfl⟩
      · exact .refl st
    · exact ⟨rfl, rfl⟩

theorem doPartReadAll_frame : BodyFrame st (doPartReadAll st).2 := by
  unfold doPartReadAll
  split
  · exact .refl st
  · split <;> exact ⟨rfl, rfl⟩

end BodyCalls

section Receives

variable (serde : SerdeJson) {st : WorkerState} {r : TaskRequest} {rest : List TaskRequest}

/-- The two receives take the next task and drop what the state held. -/
theorem recv_outcome (hq : st.taskRx = r :: rest) :
    (Step.call .recv).outcome serde st =
      ⟨.task (.ok (some (r.method, (serde.toVec r.payload).getD []))), st.accept r rest,
        st.release⟩ := by
  simp [Step.outcome, Call.outcome, doRecv, Outcome.map, hq]

theorem loopRecv_outcome (hq : st.taskRx = r :: rest) :
    Step.loopRecv.outcome serde st = ⟨.looped true, st.accept r rest, st.release⟩ := by
  simp [Step.outcome, loopRecv, Outcome.map, hq]

end Receives

/-- The verdict with which a step finalises the current request: `none` when the
step does not finalise it, `some none` when it pushes the end alone. -/
def Step.closing (serde : SerdeJson) (started : Bool) : Step → Option (Option ResponseChunk)
  | .call (.send data) =>
      match serde.fromSlice data with
      | .error e => some (some (.error (.new ("PHP returned malformed JSON: " ++ e))))
      | .ok v => some (some (verdict v))
  | .call (.sendError message) => some (some (.error (.new message)))
  | .call .writeEnd => some none
  | .loopFinish result => some (if started then none else some (resultChunk result))
  | _ => none

/-- The two receives. -/
def Step.receives : Step → Bool
  | .call .recv => true
  | .loopRecv => true
  | _ => false

/-- Everything a step can do on a state that holds the channels `tx` and `d`. -/
inductive Move (serde : SerdeJson) (st : WorkerState) (tx : StreamTx) (d : DoneTx) :
    Step → Outcome Reply → Prop
  | quiet {s : Step} {o : Outcome Reply} (hs : s.closing serde st.streamStarted = none)
      (hwrite : ∀ accepted data, s = .call (.write accepted data) → data = [])
      (hhead : ∀ accepted status headers,
        s = .call (.writeHead accepted status headers) → st.streamStarted = true)
      (heffects : o.effects = []) (hstate : o.state.session = st.session) :
      Move serde st tx d s o
  | head {accepted : Bool} {status : UInt16} {headers : List (String × String)}
      {o : Outcome Reply} (hstarted : st.streamStarted = false)
      (heffects : o.effects = [.send tx (.headers status headers)])
      (hstate : o.state = { st with streamStarted := true }) :
      Move serde st tx d (.call (.writeHead accepted status headers)) o
  | body {accepted : Bool} {data : Bytes} {o : Outcome Reply} (hdata : data ≠ [])
      (heffects : o.effects = [.send tx (.body data)]) (hstate : o.state = st) :
      Move serde st tx d (.call (.write accepted data)) o
  | finish {s : Step} {o : Outcome Reply} (v : Option ResponseChunk)
      (hs : s.closing serde st.streamStarted = some v)
      (heffects : o.effects = v.toList.map (.send tx) ++
          [.send tx .streamEnd, .signal d, .dropStream tx] ∨
        o.effects = v.toList.map (.send tx) ++
          [.send tx .streamEnd, .dropStream tx, .signal d])
      (hstate : o.state = st.clear) : Move serde st tx d s o
  | replace {s : Step} {o : Outcome Reply} (r : TaskRequest) (rest : List TaskRequest)
      (hs : s.receives = true) (hqueue : st.taskRx = r :: rest)
      (heffects : o.effects = [.dropStream tx, .dropDone d])
      (hstate : o.state = st.accept r rest) : Move serde st tx d s o

/-- The step inversion on a state that holds a request. -/
theorem busy_move (serde : SerdeJson) {st : WorkerState} {tx : StreamTx} {d : DoneTx}
    (htx : st.currentStreamTx = some tx) (hd : st.currentDoneTx = some d) (s : Step) :
    Move serde st tx d s (s.outcome serde st) := by
  cases s with
  | loopRecv =>
      cases hq : st.taskRx with
      | nil =>
          refine .quiet rfl nofun nofun ?_ ?_ <;>
            simp [Step.outcome, loopRecv, Outcome.map, hq]
      | cons r rest =>
          refine .replace r rest rfl hq ?_ ?_ <;>
            simp [Step.outcome, loopRecv, Outcome.map, hq, WorkerState.release, htx, hd]
  | loopFinish result =>
      refine .finish (if st.streamStarted then none else some (resultChunk result)) rfl
        (.inr ?_) rfl
      by_cases hstarted : st.streamStarted = true
      · simp [Step.outcome, loopFinish, Outcome.map, htx, hd, hstarted]
      · simp [Step.outcome, loopFinish, Outcome.map, htx, hd, hstarted]
  | call c =>
      cases c with
      | recv =>
          cases hq : st.taskRx with
          | nil =>
              refine .quiet rfl nofun nofun ?_ ?_ <;>
                simp [Step.outcome, Call.outcome, doRecv, Outcome.map, hq]
          | cons r rest =>
              refine .replace r rest rfl hq ?_ ?_ <;>
                simp [Step.outcome, Call.outcome, doRecv, Outcome.map, hq,
                  WorkerState.release, htx, hd]
      | send data =>
          cases hparse : serde.fromSlice data with
          | error e =>
              refine .finish (some (.error (.new ("PHP returned malformed JSON: " ++ e))))
                (by simp [Step.closing, hparse]) (.inl ?_) ?_ <;>
                simp [Step.outcome, Call.outcome, doSend, Outcome.map, htx, hd, hparse]
          | ok v =>
              refine .finish (some (verdict v)) (by simp [Step.closing, hparse])
                (.inl ?_) ?_ <;>
                simp [Step.outcome, Call.outcome, doSend, Outcome.map, htx, hd, hparse]
      | sendError message =>
          refine .finish (some (.error (.new message))) rfl (.inr ?_) rfl
          simp [Step.outcome, Call.outcome, doSendError, Outcome.map, htx, hd]
      | writeHead accepted status headers =>
          by_cases hstarted : st.streamStarted = true
          · refine .quiet rfl nofun (fun _ _ _ _ => hstarted) ?_ ?_ <;>
              simp [Step.outcome, Call.outcome, doWriteHead, Outcome.map, htx, hstarted]
          · refine .head (by simpa using hstarted) ?_ ?_ <;>
              simp [Step.outcome, Call.outcome, doWriteHead, Outcome.map, htx, hstarted]
      | write accepted data =>
          by_cases hdata : data = []
          · refine .quiet rfl (fun _ _ heq => ?_) nofun ?_ ?_
            · cases heq
              exact hdata
            all_goals simp [Step.outcome, Call.outcome, doWrite, Outcome.map, htx, hdata]
          · refine .body hdata ?_ ?_ <;>
              simp [Step.outcome, Call.outcome, doWrite, Outcome.map, htx, hdata]
      | writeEnd =>
          refine .finish none rfl (.inr ?_) ?_ <;>
            simp [Step.outcome, Call.outcome, doWriteEnd, Outcome.map, htx, hd]
      | read length => exact .quiet rfl nofun nofun rfl (doRead_frame st length).session
      | readAll => exact .quiet rfl nofun nofun rfl (doReadAll_frame st).session
      | nextPart => exact .quiet rfl nofun nofun rfl (doNextPart_frame serde st).session
      | partRead length => exact .quiet rfl nofun nofun rfl (doPartRead_frame st length).session
      | partReadAll => exact .quiet rfl nofun nofun rfl (doPartReadAll_frame st).session

/-- The step inversion on a state that holds no request. -/
theorem idle_step (serde : SerdeJson) {st : WorkerState} (hidle : st.Idle) (s : Step) :
    (s.outcome serde st).effects = [] ∧
      (((s.outcome serde st).state.Idle ∧
          (s.outcome serde st).state.taskRx = st.taskRx) ∨
        ∃ r rest, s.receives = true ∧ st.taskRx = r :: rest ∧
          (s.outcome serde st).state = st.accept r rest) := by
  obtain ⟨htx, hd⟩ := hidle
  have unchanged {st' : WorkerState} (h : st'.session = st.session) :
      st'.Idle ∧ st'.taskRx = st.taskRx :=
    ⟨WorkerState.idle_of_session h ⟨htx, hd⟩, WorkerState.taskRx_of_session h⟩
  cases s with
  | loopRecv =>
      cases hq : st.taskRx with
      | nil =>
          simp [Step.outcome, loopRecv, Outcome.map, hq, WorkerState.Idle, htx, hd]
      | cons r rest =>
          simp [Step.outcome, loopRecv, Outcome.map, hq, WorkerState.release, htx, hd,
            Step.receives]
  | loopFinish result =>
      simp [Step.outcome, loopFinish, Outcome.map, htx, hd, WorkerState.clear_idle]
  | call c =>
      cases c with
      | recv =>
          cases hq : st.taskRx with
          | nil =>
              simp [Step.outcome, Call.outcome, doRecv, Outcome.map, hq, WorkerState.Idle,
                htx, hd]
          | cons r rest =>
              simp [Step.outcome, Call.outcome, doRecv, Outcome.map, hq,
                WorkerState.release, htx, hd, Step.receives]
      | send data =>
          simp [Step.outcome, Call.outcome, doSend, Outcome.map, WorkerState.Idle, htx, hd]
      | sendError message =>
          simp [Step.outcome, Call.outcome, doSendError, Outcome.map, htx, hd,
            WorkerState.clear_idle]
      | writeHead accepted status headers =>
          simp [Step.outcome, Call.outcome, doWriteHead, Outcome.map, WorkerState.Idle,
            htx, hd]
      | write accepted data =>
          simp [Step.outcome, Call.outcome, doWrite, Outcome.map, WorkerState.Idle, htx, hd]
      | writeEnd =>
          simp [Step.outcome, Call.outcome, doWriteEnd, Outcome.map, WorkerState.Idle,
            htx, hd]
      | read length => exact ⟨rfl, .inl (unchanged (doRead_frame st length).session)⟩
      | readAll => exact ⟨rfl, .inl (unchanged (doReadAll_frame st).session)⟩
      | nextPart => exact ⟨rfl, .inl (unchanged (doNextPart_frame serde st).session)⟩
      | partRead length => exact ⟨rfl, .inl (unchanged (doPartRead_frame st length).session)⟩
      | partReadAll => exact ⟨rfl, .inl (unchanged (doPartReadAll_frame st).session)⟩

end FolkCore.Bridge
