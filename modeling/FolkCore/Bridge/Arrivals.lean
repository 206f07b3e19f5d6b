import FolkCore.Bridge.Ledger

/-!
# Tasks that arrive during a run

A run of bridge calls starts with the tasks that are in the channel. On a real thread
more of them arrive while it works, behind the others. A call that receives looks at the
head of the channel only and no call reads the ready flag, so as long as no receive finds
the channel empty, a run that starts with all the tasks makes the same steps.
-/

namespace FolkCore.Bridge

/-- The state with more tasks behind the waiting ones, and with another ready flag. -/
def WorkerState.extend (st : WorkerState) (ready : Bool) (more : List TaskRequest) :
    WorkerState :=
  { st with readyTx := ready, taskRx := st.taskRx ++ more }

namespace WorkerState

variable (st : WorkerState) (ready : Bool) (more : List TaskRequest)

@[simp] theorem extend_taskRx : (st.extend ready more).taskRx = st.taskRx ++ more := rfl

@[simp] theorem extend_extend (ready' : Bool) (more' : List TaskRequest) :
    (st.extend ready more).extend ready' more' = st.extend ready' (more ++ more') := by
  simp [extend, List.append_assoc]

theorem extend_nil : st.extend st.readyTx [] = st := by simp [extend]

end WorkerState

/-- Every receive of the run finds a task. -/
def Fed (serde : SerdeJson) : List Step → WorkerState → Prop
  | [], _ => True
  | s :: rest, st =>
      (s.receives = true → st.taskRx ≠ []) ∧ Fed serde rest (s.outcome serde st).state

section Calls

variable (serde : SerdeJson) (st : WorkerState) (ready : Bool) (more : List TaskRequest)

theorem doRead_extend (length : Nat) :
    doRead length (st.extend ready more) =
      ((doRead length st).1, (doRead length st).2.extend ready more) := by
  cases hleft : st.currentBodyLeftover with
  | cons b rest => simp [doRead, WorkerState.extend, splitLeftover, hleft]
  | nil =>
      cases hbody : st.currentBody with
      | none => simp [doRead, WorkerState.extend, hleft, hbody]
      | some body =>
          rcases body with (_ | ⟨chunk, rest⟩) | items
          · simp [doRead, WorkerState.extend, hleft, hbody]
          · simp [doRead, WorkerState.extend, splitLeftover, hleft, hbody]
          · simp [doRead, WorkerState.extend, hleft, hbody]

theorem doReadAll_extend :
    doReadAll (st.extend ready more) =
      ((doReadAll st).1, (doReadAll st).2.extend ready more) := by
  cases hbody : st.currentBody with
  | none => simp [doReadAll, WorkerState.extend, hbody]
  | some body =>
      cases body with
      | raw chunks => simp [doReadAll, WorkerState.extend, hbody]
      | parts items => simp [doReadAll, WorkerState.extend, hbody]

theorem readHeader_extend (items : List RequestPart) :
    readHeader serde items (st.extend ready more) =
      ((readHeader serde items st).1, (readHeader serde items st).2.extend ready more) := by
  rcases items with _ | ⟨header | chunk | _, rest⟩
  · rfl
  · rfl
  · rfl
  · rfl

theorem doNextPart_extend :
    doNextPart serde (st.extend ready more) =
      ((doNextPart serde st).1, (doNextPart serde st).2.extend ready more) := by
  have header (items : List RequestPart) :
      readHeader serde items { st.extend ready more with currentBodyLeftover := [] } =
        ((readHeader serde items { st with currentBodyLeftover := [] }).1,
          (readHeader serde items { st with currentBodyLeftover := [] }).2.extend ready more) :=
    readHeader_extend serde { st with currentBodyLeftover := [] } ready more items
  cases hbody : st.currentBody with
  | none => simp [doNextPart, WorkerState.extend, hbody]
  | some body =>
      have hbody' : (st.extend ready more).currentBody = some body := hbody
      cases body with
      | raw chunks => simp [doNextPart, WorkerState.extend, hbody]
      | parts items =>
          cases hpart : st.currentPartState with
          | done => simp [doNextPart, WorkerState.extend, hbody, hpart]
          | inPart =>
              have hpart' : (st.extend ready more).currentPartState = .inPart := hpart
              rcases hdrain : drainPart items with ⟨found, rest⟩
              simp only [doNextPart, hbody, hbody', hpart, hpart', hdrain]
              cases found with
              | true => exact header rest
              | false => rfl
          | beforeFirst =>
              have hpart' : (st.extend ready more).currentPartState = .beforeFirst := hpart
              simp only [doNextPart, hbody, hbody', hpart, hpart']
              exact header items
          | partEnded =>
              have hpart' : (st.extend ready more).currentPartState = .partEnded := hpart
              simp only [doNextPart, hbody, hbody', hpart, hpart']
              exact header items

theorem doPartRead_extend (length : Nat) :
    doPartRead length (st.extend ready more) =
      ((doPartRead length st).1, (doPartRead length st).2.extend ready more) := by
  by_cases hpart : st.currentPartState = .inPart
  · cases hleft : st.currentBodyLeftover with
    | cons b rest => simp [doPartRead, WorkerState.extend, splitLeftover, hpart, hleft]
    | nil =>
        cases hbody : st.currentBody with
        | none => simp [doPartRead, WorkerState.extend, hpart, hleft, hbody]
        | some body =>
            cases body with
            | raw chunks => simp [doPartRead, WorkerState.extend, hpart, hleft, hbody]
            | parts items =>
                rcases items with _ | ⟨header | chunk | _, rest⟩
                · simp [doPartRead, WorkerState.extend, hpart, hleft, hbody]
                · simp [doPartRead, WorkerState.extend, hpart, hleft, hbody]
                · simp [doPartRead, WorkerState.extend, splitLeftover, hpart, hleft, hbody]
                · simp [doPartRead, WorkerState.extend, hpart, hleft, hbody]
  · simp [doPartRead, WorkerState.extend, hpart]

theorem doPartReadAll_extend :
    doPartReadAll (st.extend ready more) =
      ((doPartReadAll st).1, (doPartReadAll st).2.extend ready more) := by
  by_cases hpart : st.currentPartState = .inPart
  · cases hbody : st.currentBody with
    | none => simp [doPartReadAll, WorkerState.extend, hpart, hbody]
    | some body =>
        cases body with
        | raw chunks => simp [doPartReadAll, WorkerState.extend, hpart, hbody]
        | parts items => simp [doPartReadAll, WorkerState.extend, hpart, hbody]
  · simp [doPartReadAll, WorkerState.extend, hpart]

/-- An outcome whose state has more tasks waiting. -/
def Outcome.extend {α : Type} (o : Outcome α) : Outcome α :=
  ⟨o.reply, o.state.extend ready more, o.effects⟩

theorem doSend_extend (data : Bytes) :
    doSend serde data (st.extend ready more) = (doSend serde data st).extend ready more := by
  cases htx : st.currentStreamTx with
  | none => simp [doSend, Outcome.extend, WorkerState.extend, htx]
  | some tx =>
      cases hd : st.currentDoneTx with
      | none => simp [doSend, Outcome.extend, WorkerState.extend, htx, hd]
      | some d =>
          cases hparse : serde.fromSlice data with
          | error e =>
              simp [doSend, Outcome.extend, WorkerState.extend, WorkerState.clear, htx, hd, hparse]
          | ok v =>
              simp [doSend, Outcome.extend, WorkerState.extend, WorkerState.clear, htx, hd, hparse]

theorem doWriteHead_extend (accepted : Bool) (status : UInt16)
    (headers : List (String × String)) :
    doWriteHead accepted status headers (st.extend ready more) =
      (doWriteHead accepted status headers st).extend ready more := by
  cases htx : st.currentStreamTx with
  | none => simp [doWriteHead, Outcome.extend, WorkerState.extend, htx]
  | some tx =>
      by_cases hstarted : st.streamStarted = true
      · simp [doWriteHead, Outcome.extend, WorkerState.extend, htx, hstarted]
      · simp [doWriteHead, Outcome.extend, WorkerState.extend, htx, hstarted]

theorem doWrite_extend (accepted : Bool) (data : Bytes) :
    doWrite accepted data (st.extend ready more) =
      (doWrite accepted data st).extend ready more := by
  cases htx : st.currentStreamTx with
  | none => simp [doWrite, Outcome.extend, WorkerState.extend, htx]
  | some tx =>
      by_cases hdata : data = []
      · simp [doWrite, Outcome.extend, WorkerState.extend, htx, hdata]
      · simp [doWrite, Outcome.extend, WorkerState.extend, htx, hdata]

theorem doWriteEnd_extend :
    doWriteEnd (st.extend ready more) = (doWriteEnd st).extend ready more := by
  cases htx : st.currentStreamTx with
  | none => simp [doWriteEnd, Outcome.extend, WorkerState.extend, htx]
  | some tx =>
      cases hd : st.currentDoneTx with
      | none => simp [doWriteEnd, Outcome.extend, WorkerState.extend, htx, hd]
      | some d =>
          simp [doWriteEnd, Outcome.extend, WorkerState.extend, WorkerState.clear, htx, hd]

/-- A receive that finds a task takes the same one with more behind it. -/
theorem received_extend {s : Step} (hs : s.receives = true) (hqueue : st.taskRx ≠ []) :
    s.outcome serde (st.extend ready more) = (s.outcome serde st).extend ready more := by
  obtain ⟨r, rest, hqueue⟩ := List.exists_cons_of_ne_nil hqueue
  have hqueue' : (st.extend ready more).taskRx = r :: (rest ++ more) := by simp [hqueue]
  cases s with
  | loopRecv =>
      rw [loopRecv_outcome serde hqueue, loopRecv_outcome serde hqueue']
      rfl
  | loopFinish result => cases hs
  | call c =>
      cases c with
      | recv =>
          rw [recv_outcome serde hqueue, recv_outcome serde hqueue']
          rfl
      | _ => cases hs

/-- A step makes the same outcome with more tasks waiting, unless it receives and finds
no other. -/
theorem outcome_extend {s : Step} (hfed : s.receives = true → st.taskRx ≠ [] ∨ more = []) :
    s.outcome serde (st.extend ready more) = (s.outcome serde st).extend ready more := by
  cases s with
  | loopRecv =>
      by_cases hqueue : st.taskRx = []
      · have hmore := (hfed rfl).resolve_left (not_not_intro hqueue)
        simp [Step.outcome, loopRecv, Outcome.map, Outcome.extend, WorkerState.extend, hqueue,
          hmore]
      · exact received_extend serde st ready more rfl hqueue
  | loopFinish result => rfl
  | call c =>
      cases c with
      | recv =>
          by_cases hqueue : st.taskRx = []
          · have hmore := (hfed rfl).resolve_left (not_not_intro hqueue)
            simp [Step.outcome, Call.outcome, doRecv, Outcome.map, Outcome.extend,
              WorkerState.extend, hqueue, hmore]
          · exact received_extend serde st ready more rfl hqueue
      | send data =>
          simp only [Step.outcome, Call.outcome, doSend_extend]
          rfl
      | sendError message => rfl
      | writeHead accepted status headers =>
          simp only [Step.outcome, Call.outcome, doWriteHead_extend]
          rfl
      | write accepted data =>
          simp only [Step.outcome, Call.outcome, doWrite_extend]
          rfl
      | writeEnd =>
          simp only [Step.outcome, Call.outcome, doWriteEnd_extend]
          rfl
      | read length =>
          simp only [Step.outcome, Call.outcome, doRead_extend]
          rfl
      | readAll =>
          simp only [Step.outcome, Call.outcome, doReadAll_extend]
          rfl
      | nextPart =>
          simp only [Step.outcome, Call.outcome, doNextPart_extend]
          rfl
      | partRead length =>
          simp only [Step.outcome, Call.outcome, doPartRead_extend]
          rfl
      | partReadAll =>
          simp only [Step.outcome, Call.outcome, doPartReadAll_extend]
          rfl

end Calls

section Runs

variable {serde : SerdeJson} {st : WorkerState}

/-- A run that never waits for a task makes the same steps with more of them. -/
theorem run_extend {steps : List Step} (hfed : Fed serde steps st) (ready : Bool)
    (more : List TaskRequest) :
    run serde steps (st.extend ready more) = (run serde steps st).extend ready more ∧
      Fed serde steps (st.extend ready more) := by
  induction steps generalizing st with
  | nil => exact ⟨rfl, trivial⟩
  | cons s rest ih =>
      obtain ⟨hhead, hrest⟩ := hfed
      have hsame := outcome_extend serde st ready more fun hs => .inl (hhead hs)
      obtain ⟨hrun, hfed'⟩ := ih hrest
      have hstate : (s.outcome serde (st.extend ready more)).state =
          (s.outcome serde st).state.extend ready more := by rw [hsame]; rfl
      refine ⟨?_, fun _ => by simp [hhead ‹_›], by rw [hstate]; exact hfed'⟩
      simp only [run, hsame, Outcome.extend, hrun]

theorem fed_snoc {steps : List Step} {s : Step} :
    Fed serde (steps ++ [s]) st ↔ Fed serde steps st ∧
      (s.receives = true → (run serde steps st).state.taskRx ≠ []) := by
  induction steps generalizing st with
  | nil => simp [Fed]
  | cons s' rest ih => simp [Fed, run, ih, and_assoc]

variable {q : TaskQueue} {log : List Effect}

theorem Ledger.of_idle (hidle : st.Idle) (hqueue : st.taskRx = q.tasks) : Ledger q [] st where
  queue := hqueue ▸ List.suffix_refl _
  waiting _ _ := rfl
  current := .inl hidle
  settled _ _ := ⟨.opened false, rfl, .inl ⟨false, rfl⟩⟩

/-- A step sends on the stream of a task of the queue. -/
theorem Ledger.sends_step (h : Ledger q log st) {s : Step} {tx : StreamTx} {c : ResponseChunk}
    (hmem : .send tx c ∈ (s.outcome serde st).effects) : ∃ r ∈ q.tasks, r.streamTx = tx := by
  rcases h.current with hidle | ⟨r, hr, _, hholds, _⟩
  · rw [(idle_step serde hidle s).1] at hmem
    cases hmem
  · have htarget := (busy_move serde hholds.1 hholds.2 s).targets _ hmem
    exact ⟨r, hr, htarget.symm⟩

theorem Ledger.sends_run (h : Ledger q log st) (steps : List Step) {tx : StreamTx}
    {c : ResponseChunk} (hmem : .send tx c ∈ (Bridge.run serde steps st).effects) :
    ∃ r ∈ q.tasks, r.streamTx = tx := by
  induction steps generalizing log st with
  | nil => cases hmem
  | cons s rest ih =>
      rcases List.mem_append.mp hmem with hfirst | hlater
      · exact h.sends_step hfirst
      · exact ih (h.step serde s) hlater

end Runs

end FolkCore.Bridge
