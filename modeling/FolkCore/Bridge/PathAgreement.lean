import FolkCore.Bridge.HandlerFailure
import FolkCore.Bridge.StreamForm

/-!
# The two dispatch paths

A handler that streams and then returns a value can be served by `do_recv` and
`do_send` or by one iteration of the dispatch loop. The two paths receive alike and
run the same calls; they differ in the finaliser. `do_send` pushes the verdict on
every pending request, the loop only when no header was written.
-/

namespace FolkCore.Bridge

open Lib ResponseChunk

/-- The three calls of the streaming response API. -/
def Call.streams : Call → Bool
  | .writeHead _ _ _ | .write _ _ | .writeEnd => true
  | _ => false

def Call.isWriteEnd : Call → Bool
  | .writeEnd => true
  | _ => false

variable (serde : SerdeJson)

/-- The JSON path: receive, run the handler, send the text of its value. -/
def jsonIteration (calls : List Call) (text : Bytes) (st : WorkerState) :
    Outcome (List Reply) :=
  run serde (.call .recv :: (calls.map .call ++ [.call (.send text)])) st

/-- A handler that streams and then returns `v`. -/
def Behaviour.streaming (calls : List Call) (hcalls : ∀ c ∈ calls, c.streams = true)
    (v : Value) : Behaviour where
  calls := calls
  no_recv := fun hmem => by simpa [Call.streams] using hcalls _ hmem
  result := .ok v

/-- The chunks pushed on the stream of request `r`. -/
def streamChunks (r : TaskRequest) (log : List Effect) : List ResponseChunk :=
  chunks (history r log)

@[simp] theorem streamChunks_append (r : TaskRequest) (log more : List Effect) :
    streamChunks r (log ++ more) = streamChunks r log ++ streamChunks r more := by
  simp [streamChunks]

variable {serde} {st : WorkerState} {r : TaskRequest}

theorem Call.keepsPending_of_streams {c : Call} (hc : c.streams = true)
    (hend : c.isWriteEnd = false) : c.keepsPending = true := by
  cases c <;> simp [Call.streams, Call.isWriteEnd, Call.keepsPending] at hc hend ⊢

variable (serde) in
/-- Without a request the streaming calls do nothing. -/
theorem streaming_idle (hidle : st.Idle) {calls : List Call}
    (hcalls : ∀ c ∈ calls, c.streams = true) :
    (run serde (calls.map .call) st).state.Idle := by
  induction calls generalizing st with
  | nil => exact hidle
  | cons c rest ih =>
      obtain ⟨_, hstate⟩ := idle_step serde hidle (.call c)
      rcases hstate with ⟨hidle', _⟩ | ⟨_, _, hreceives, _⟩
      · exact ih hidle' fun c' hc' => hcalls c' (List.mem_cons_of_mem _ hc')
      · have hstreams := hcalls c List.mem_cons_self
        cases c <;> simp [Step.receives, Call.streams] at hreceives hstreams

variable (serde) in
/-- An end among the streaming calls finalises the request. -/
theorem streaming_ended (hholds : st.Holds r) {calls : List Call}
    (hcalls : ∀ c ∈ calls, c.streams = true) (hend : calls.any Call.isWriteEnd = true) :
    (run serde (calls.map .call) st).state.Idle := by
  induction calls generalizing st with
  | nil => simp at hend
  | cons c rest ih =>
      have hrest : ∀ c' ∈ rest, c'.streams = true :=
        fun c' hc' => hcalls c' (List.mem_cons_of_mem _ hc')
      by_cases hc : c.isWriteEnd = true
      · have hidle : (Call.outcome serde st c).state.Idle := by
          cases c <;> simp [Call.isWriteEnd] at hc
          simpa [Call.outcome, doWriteEnd, Outcome.map, hholds.1, hholds.2] using st.clear_idle
        exact streaming_idle serde hidle hrest
      · rw [Bool.not_eq_true] at hc
        have hpending := Call.keepsPending_of_streams (hcalls c List.mem_cons_self) hc
        apply ih (pending_call serde hholds hpending).1 hrest
        simpa [hc] using hend

/-- The chunks of the JSON finaliser: the verdict on any pending request. -/
theorem streamChunks_send (hholds : st.Holds r) {text : Bytes} {v : Value}
    (hparse : serde.fromSlice text = .ok v) :
    streamChunks r ((Step.call (.send text)).outcome serde st).effects =
      [verdict v, .streamEnd] := by
  simp [streamChunks, Step.outcome, Call.outcome, doSend, Outcome.map, hholds.1, hholds.2,
    hparse, history, chunks, Effect.mark, List.filterMap_cons]

/-- The chunks of the loop finaliser: the verdict only without a header. -/
theorem streamChunks_loopFinish (hholds : st.Holds r) (v : Value) :
    streamChunks r ((Step.loopFinish (.ok v)).outcome serde st).effects =
      if st.streamStarted then [.streamEnd] else [verdict v, .streamEnd] := by
  by_cases hstarted : st.streamStarted = true <;>
    simp [streamChunks, Step.outcome, loopFinish, Outcome.map, hholds.1, hholds.2, hstarted,
      history, chunks, Effect.mark, List.filterMap_cons, resultChunk]

@[simp] theorem streamChunks_release (st : WorkerState) (r : TaskRequest) :
    streamChunks r st.release = [] := by
  rw [streamChunks, history_release]
  rfl

/-- A finaliser without a request pushes nothing. -/
theorem streamChunks_idle (hidle : st.Idle) (s : Step) :
    streamChunks r (s.outcome serde st).effects = [] := by
  rw [(idle_step serde hidle s).1]
  rfl

variable (serde) in
/-- Both paths push what the calls push and then what their finaliser pushes. -/
theorem streamChunks_iteration {rest : List TaskRequest} (hq : st.taskRx = r :: rest)
    (calls : List Call) (hcalls : ∀ c ∈ calls, c.streams = true) (text : Bytes) (v : Value) :
    let served := run serde (calls.map .call) (st.accept r rest)
    streamChunks r (jsonIteration serde calls text st).effects =
        streamChunks r served.effects ++
          streamChunks r ((Step.call (.send text)).outcome serde served.state).effects ∧
      streamChunks r (dispatchIteration serde (.streaming calls hcalls v) st).effects =
        streamChunks r served.effects ++
          streamChunks r ((Step.loopFinish (.ok v)).outcome serde served.state).effects := by
  constructor
  · simp [jsonIteration, run, recv_outcome serde hq, run_snoc]
  · simp [dispatchIteration, Behaviour.streaming, run, loopRecv_outcome serde hq, run_snoc]

/-- The two paths push the same chunks exactly when the handler ends its response
itself or writes no header. -/
theorem dispatch_paths_agree_iff (serde : SerdeJson) (st : WorkerState) (r : TaskRequest)
    (rest : List TaskRequest) (hq : st.taskRx = r :: rest) (calls : List Call)
    (hcalls : ∀ c ∈ calls, c.streams = true) (v : Value) (text : Bytes)
    (hparse : serde.fromSlice text = .ok v) :
    streamChunks r (jsonIteration serde calls text st).effects =
        streamChunks r (dispatchIteration serde (.streaming calls hcalls v) st).effects ↔
      (calls.any Call.isWriteEnd = true ∨ calls.any Call.isWriteHead = false) := by
  obtain ⟨hjson, hloop⟩ := streamChunks_iteration serde hq calls hcalls text v
  rw [hjson, hloop, List.append_cancel_left_eq]
  have haccept := st.accept_holds r rest
  by_cases hend : calls.any Call.isWriteEnd = true
  · have hidle := streaming_ended serde haccept hcalls hend
    rw [streamChunks_idle hidle, streamChunks_idle hidle]
    simp [hend]
  · have hpending : ∀ c ∈ calls, c.keepsPending = true := by
      intro c hc
      apply Call.keepsPending_of_streams (hcalls c hc)
      by_contra hc'
      exact hend (List.any_eq_true.mpr ⟨c, hc, by simpa using hc'⟩)
    obtain ⟨hholds, hstarted, _⟩ := pending_calls serde haccept hpending
    rw [streamChunks_send hholds hparse, streamChunks_loopFinish hholds, hstarted]
    cases hhead : calls.any Call.isWriteHead with
    | true => simp [hend]
    | false => simp

/-- A handler that streams to the end agrees with itself on both paths. -/
theorem ended_stream_agrees :
    streamChunks (.bare 1) (jsonIteration .ofNull [.writeHead true 200 [], .writeEnd]
        [110, 117, 108, 108] (initWorkerState 1 [.bare 1])).effects =
      streamChunks (.bare 1) (dispatchIteration .ofNull
        (.streaming [.writeHead true 200 [], .writeEnd] (by simp [Call.streams]) .null)
        (initWorkerState 1 [.bare 1])).effects :=
  (dispatch_paths_agree_iff .ofNull (initWorkerState 1 [.bare 1]) (.bare 1) [] rfl
    [.writeHead true 200 [], .writeEnd] (by simp [Call.streams]) .null [110, 117, 108, 108]
    rfl).mpr (.inl rfl)

/-- After a header write the JSON path pushes the returned value and the loop does not. -/
theorem headed_stream_differs :
    streamChunks (.bare 1) (jsonIteration .ofNull [.writeHead true 200 []]
        [110, 117, 108, 108] (initWorkerState 1 [.bare 1])).effects =
      [.headers 200 [], .returnValue .null, .streamEnd] ∧
    streamChunks (.bare 1) (dispatchIteration .ofNull
        (.streaming [.writeHead true 200 []] (by simp [Call.streams]) .null)
        (initWorkerState 1 [.bare 1])).effects =
      [.headers 200 [], .streamEnd] := by
  exact ⟨rfl, rfl⟩

end FolkCore.Bridge
