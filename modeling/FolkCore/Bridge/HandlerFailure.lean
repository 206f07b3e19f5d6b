import FolkCore.Bridge.DispatchLoop

/-!
# Failing handlers

When `call_dispatch` fails, the finaliser of the dispatch loop reads the result
only if the handler has not called `do_write_head`. A handler that fails after
that call is reported to the consumer as a complete response.
-/

namespace FolkCore.Bridge

open Lib ResponseChunk

/-- A streaming write or a body read: the call leaves the request pending. -/
def Call.keepsPending : Call → Bool
  | .recv | .send _ | .sendError _ | .writeEnd => false
  | _ => true

def Call.isWriteHead : Call → Bool
  | .writeHead _ _ _ => true
  | _ => false

/-- An error chunk comes before the end. -/
def ErrorBeforeEnd (h : List Mark) : Prop :=
  ∃ before e after, h = before ++ .push (.error e) :: after ∧ .push .streamEnd ∈ after

variable {serde : SerdeJson} {st : WorkerState} {r : TaskRequest}

variable (serde) in
/-- Such a call keeps the request, raises the flag if it is the header write, and
pushes no error. -/
theorem pending_call (hholds : st.Holds r) {c : Call} (hc : c.keepsPending = true) :
    (Call.outcome serde st c).state.Holds r ∧
      (Call.outcome serde st c).state.streamStarted = (st.streamStarted || c.isWriteHead) ∧
      ∀ m ∈ history r (Call.outcome serde st c).effects, m.pushes isError = false := by
  have move : Move serde st r.streamTx r.doneTx (.call c) (Call.outcome serde st c) :=
    busy_move serde hholds.1 hholds.2 (.call c)
  cases move with
  | quiet _ _ hhead heffects hstate =>
      refine ⟨WorkerState.holds_of_session hstate hholds, ?_, by simp [heffects]⟩
      rw [WorkerState.started_of_session hstate]
      cases c with
      | writeHead accepted status headers =>
          simp [hhead accepted status headers rfl, Call.isWriteHead]
      | _ => simp [Call.isWriteHead]
  | head hstarted heffects hstate =>
      rw [hstate]
      refine ⟨hholds, by simp [Call.isWriteHead], ?_⟩
      simp [heffects, history, Effect.mark, Mark.pushes, isError]
  | body _ heffects hstate =>
      rw [hstate]
      refine ⟨hholds, by simp [Call.isWriteHead], ?_⟩
      simp [heffects, history, Effect.mark, Mark.pushes, isError]
  | finish v hs _ _ => cases c <;> simp [Step.closing, Call.keepsPending] at hs hc
  | replace _ _ hs _ _ _ => cases c <;> simp [Step.receives, Call.keepsPending] at hs hc

variable (serde) in
theorem pending_calls (hholds : st.Holds r) {calls : List Call}
    (hcalls : ∀ c ∈ calls, c.keepsPending = true) :
    (run serde (calls.map .call) st).state.Holds r ∧
      (run serde (calls.map .call) st).state.streamStarted =
        (st.streamStarted || calls.any Call.isWriteHead) ∧
      ∀ m ∈ history r (run serde (calls.map .call) st).effects, m.pushes isError = false := by
  induction calls generalizing st with
  | nil => simpa using hholds
  | cons c rest ih =>
      obtain ⟨hnext, hstarted, hfirst⟩ :=
        pending_call serde hholds (hcalls c (by simp))
      obtain ⟨hlast, hstarted', htail⟩ := ih hnext fun c' hc' => hcalls c' (by simp [hc'])
      refine ⟨hlast, ?_, ?_⟩
      · simp only [List.map_cons, run, Step.outcome, List.any_cons]
        rw [hstarted', hstarted, Bool.or_assoc]
      · intro m hm
        simp only [List.map_cons, run, Step.outcome, history_append, List.mem_append] at hm
        rcases hm with hm | hm
        · exact hfirst m hm
        · exact htail m hm

/-- A receive adds nothing to a history: it only drops what it replaces. -/
theorem history_release (st : WorkerState) (r : TaskRequest) :
    history r st.release = [] := by
  cases hs : st.currentStreamTx <;> cases hd : st.currentDoneTx <;>
    simp [WorkerState.release, history, hs, hd, Effect.mark, List.filterMap_cons]

variable (serde) in
/-- The history of a request whose handler streamed and then failed. -/
theorem failed_history {rest : List TaskRequest} (hq : st.taskRx = r :: rest)
    (b : Behaviour) (hcalls : ∀ c ∈ b.calls, c.keepsPending = true) {e : String}
    (hresult : b.result = .error e) :
    ∃ pre, (∀ m ∈ pre, m.pushes isError = false) ∧
      history r (dispatchIteration serde b st).effects = pre ++
        (if b.calls.any Call.isWriteHead then [] else [.push (.error (.new e))]) ++
          [.push .streamEnd, .fire] := by
  obtain ⟨hholds, hstarted, hpre⟩ :=
    pending_calls serde (st.accept_holds r rest) hcalls
  refine ⟨_, hpre, ?_⟩
  simp only [dispatchIteration, run, loopRecv_outcome serde hq, run_snoc, history_append,
    history_release, List.nil_append, List.append_assoc]
  congr 1
  have hclosing := history_finish (r := r)
    (v := if b.calls.any Call.isWriteHead then none else some (.error (.new e))) (.inr rfl)
  simp only [Step.outcome, loopFinish, Outcome.map, hholds.1, hholds.2, hstarted, hresult,
    resultChunk]
  by_cases hhead : b.calls.any Call.isWriteHead = true
  · simpa [hhead] using hclosing
  · simpa [hhead] using hclosing

/-- A failing handler is reported by an error chunk exactly when it has not
written a header. -/
theorem failed_handler_reported_iff (serde : SerdeJson) (st : WorkerState)
    (r : TaskRequest) (rest : List TaskRequest) (hq : st.taskRx = r :: rest)
    (b : Behaviour) (hcalls : ∀ c ∈ b.calls, c.keepsPending = true) (e : String)
    (hresult : b.result = .error e) :
    ErrorBeforeEnd (history r (dispatchIteration serde b st).effects) ↔
      ∀ c ∈ b.calls, c.isWriteHead = false := by
  obtain ⟨pre, hpre, hhistory⟩ := failed_history serde hq b hcalls hresult
  rw [hhistory]
  have hany : (∀ c ∈ b.calls, c.isWriteHead = false) ↔
      b.calls.any Call.isWriteHead = false := by simp
  rw [hany]
  constructor
  · rintro ⟨before, err, after, heq, _⟩
    by_contra hhead
    rw [Bool.not_eq_false] at hhead
    have hmem : Mark.push (.error err) ∈ before ++ .push (.error err) :: after := by simp
    rw [← heq] at hmem
    simp only [hhead, if_true, List.append_nil, List.mem_append, List.mem_cons,
      List.not_mem_nil, or_false] at hmem
    rcases hmem with hmem | hmem | hmem
    · have := hpre _ hmem
      simp [Mark.pushes, isError] at this
    · cases hmem
    · cases hmem
  · intro hhead
    exact ⟨pre, .new e, [.push .streamEnd, .fire], by simp [hhead], by simp⟩

/-- A handler that writes a body without a header and fails is reported. -/
theorem failed_body_write_reported :
    ErrorBeforeEnd (history (.bare 1) (dispatchIteration .ofNull
      ⟨[.write true [65]], by simp, .error "handler failed"⟩
      (initWorkerState 1 [.bare 1])).effects) :=
  (failed_handler_reported_iff .ofNull (initWorkerState 1 [.bare 1]) (.bare 1) [] rfl
    ⟨[.write true [65]], by simp, .error "handler failed"⟩
    (by simp [Call.keepsPending]) "handler failed" rfl).mpr (by simp [Call.isWriteHead])

/-- A handler that fails after its header write leaves headers and end alone. -/
theorem failed_after_header_unreported :
    ¬ErrorBeforeEnd (history (.bare 1) (dispatchIteration .ofNull
      ⟨[.writeHead true 200 []], by simp, .error "handler failed"⟩
      (initWorkerState 1 [.bare 1])).effects) := by
  rintro ⟨before, e, after, heq, _⟩
  have hmem : Mark.push (.error e) ∈ [.push (.headers 200 []), .push .streamEnd, .fire] := by
    have hhistory : [.push (.headers 200 []), .push .streamEnd, .fire] =
        before ++ .push (.error e) :: after := heq
    rw [hhistory]
    simp
  simp at hmem

end FolkCore.Bridge
