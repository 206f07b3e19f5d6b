import FolkCore.Bridge.Legality

/-!
# The zero-copy dispatch loop

`run_dispatch_loop` receives a request, calls the PHP handler, which may call
back into the bridge on the same state, and finalises the request from what the
handler left. A `Behaviour` is one run of a handler: its bridge calls in order
and the result of `call_dispatch`. The loop invariant is that a request that was
served has come to its signal and that the state between two iterations is empty.
-/

namespace FolkCore.Bridge

open Lib ResponseChunk

/-- One run of the PHP handler. The handler answers its own request only: it does
not take another one from the task channel. -/
structure Behaviour where
  calls : List Call
  no_recv : .recv ∉ calls
  result : Except String Value

variable (serde : SerdeJson)

/-- One iteration of the loop on a state whose task channel has a request. -/
def dispatchIteration (b : Behaviour) (st : WorkerState) : Outcome (List Reply) :=
  run serde (.loopRecv :: (b.calls.map .call ++ [.loopFinish b.result])) st

/-- The iterations of the loop, one behaviour for each request. The loop returns
at the closed channel and waits when the behaviours are used up. -/
def dispatchIterations : List Behaviour → WorkerState → Outcome Unit
  | [], st => ⟨(), st, []⟩
  | b :: rest, st =>
      match st.taskRx with
      | [] => ⟨(), st, []⟩
      | _ :: _ =>
          let first := dispatchIteration serde b st
          let tail := dispatchIterations rest first.state
          ⟨(), tail.state, first.effects ++ tail.effects⟩

/-- `run_dispatch_loop`: signal ready, then serve. -/
def runDispatchLoop (behaviours : List Behaviour) (st : WorkerState) : Outcome Unit :=
  let ready := doReady st
  let loop := dispatchIterations serde behaviours ready.state
  ⟨(), loop.state, ready.effects ++ loop.effects⟩

/-- Nothing of a request is left in the state. -/
structure WorkerState.Empty (st : WorkerState) : Prop where
  stream : st.currentStreamTx = none
  done : st.currentDoneTx = none
  requestId : st.currentRequestId = none
  body : st.currentBody = none
  leftover : st.currentBodyLeftover = []

theorem WorkerState.Empty.idle {st : WorkerState} (h : st.Empty) : st.Idle :=
  ⟨h.stream, h.done⟩

theorem WorkerState.clear_empty (st : WorkerState) : st.clear.Empty :=
  ⟨rfl, rfl, rfl, rfl, rfl⟩

variable {serde} {q : TaskQueue} {log : List Effect} {st : WorkerState}

variable (serde) in
/-- A finalising step brings the history of the held request to its signal. -/
theorem Ledger.fired_of_closing (h : Ledger q log st) {r : TaskRequest} (hr : r ∈ q.tasks)
    (hholds : st.Holds r) {s : Step} {v : Option ResponseChunk}
    (hs : s.closing serde st.streamStarted = some v) :
    phaseOf (history r (log ++ (s.outcome serde st).effects)) = some .fired ∧
      (s.outcome serde st).state = st.clear := by
  cases busy_move serde hholds.1 hholds.2 s with
  | quiet hs' _ _ _ _ => rw [hs'] at hs; cases hs
  | head => simp [Step.closing] at hs
  | body => simp [Step.closing] at hs
  | finish v' hs' heffects hstate =>
      refine ⟨?_, hstate⟩
      rw [history_append, phaseOf_append (h.of_holds hr hholds).2,
        history_finish heffects]
      exact finish_fired _ (closing_isVerdict hs')
  | replace r' rest hs' _ _ _ =>
      cases s with
      | loopRecv => simp [Step.closing] at hs
      | loopFinish result => simp [Step.receives] at hs'
      | call c => cases c <;> simp [Step.closing, Step.receives] at hs hs'

/-- After its signal a request gets no further entry. -/
theorem Ledger.silent_after_fired {more : List Effect} (h : Ledger q (log ++ more) st)
    {r : TaskRequest} (hr : r ∈ q.tasks) (hfired : phaseOf (history r log) = some .fired) :
    history r more = [] := by
  obtain ⟨p, hp, _⟩ := h.settled r hr
  rw [history_append, phaseOf_append hfired] at hp
  cases hmore : history r more with
  | nil => rfl
  | cons m rest => simp [hmore, StreamPhase.next] at hp

/-- Request `r` is being handled, or the handler has finalised it. -/
def Serving (r : TaskRequest) (log : List Effect) (st : WorkerState) : Prop :=
  st.Holds r ∨ st.Idle ∧ phaseOf (history r log) = some .fired

variable (serde) in
theorem Ledger.serving_call (h : Ledger q log st) {r : TaskRequest} (hr : r ∈ q.tasks)
    (hserving : Serving r log st) {c : Call} (hc : c ≠ .recv) :
    Serving r (log ++ (Call.outcome serde st c).effects) (Call.outcome serde st c).state ∧
      (Call.outcome serde st c).state.taskRx = st.taskRx := by
  have hrecv : ¬(Step.call c).receives = true := by
    cases c <;> simp [Step.receives] at hc ⊢
  rcases hserving with hholds | ⟨hidle, hfired⟩
  · have move : Move serde st r.streamTx r.doneTx (.call c) (Call.outcome serde st c) :=
      busy_move serde hholds.1 hholds.2 (.call c)
    cases id move with
    | quiet _ _ _ _ hstate =>
        exact ⟨.inl (WorkerState.holds_of_session hstate hholds),
          WorkerState.taskRx_of_session hstate⟩
    | head _ _ hstate => rw [hstate]; exact ⟨.inl hholds, rfl⟩
    | body _ _ hstate => rw [hstate]; exact ⟨.inl hholds, rfl⟩
    | finish v hs _ hstate =>
        have hfired := (h.fired_of_closing serde hr hholds hs).1
        rw [hstate]
        exact ⟨.inr ⟨st.clear_idle, hfired⟩, rfl⟩
    | replace _ _ hs _ _ _ => exact absurd hs hrecv
  · obtain ⟨heffects, hstate⟩ := idle_step serde hidle (.call c)
    change (Call.outcome serde st c).effects = [] at heffects
    rcases hstate with ⟨hidle', hqueue⟩ | ⟨_, _, hs, _⟩
    · exact ⟨.inr ⟨hidle', by rw [heffects, List.append_nil]; exact hfired⟩, hqueue⟩
    · exact absurd hs hrecv

variable (serde) in
/-- Whatever the handler calls, its request is held or finalised. -/
theorem Ledger.serving_calls (h : Ledger q log st) {r : TaskRequest} (hr : r ∈ q.tasks)
    (hserving : Serving r log st) {calls : List Call} (hcalls : .recv ∉ calls) :
    Serving r (log ++ (Bridge.run serde (calls.map .call) st).effects)
        (Bridge.run serde (calls.map .call) st).state ∧
      (Bridge.run serde (calls.map .call) st).state.taskRx = st.taskRx := by
  induction calls generalizing log st with
  | nil => exact ⟨by simpa using hserving, rfl⟩
  | cons c rest ih =>
      have hc : c ≠ .recv := fun heq => hcalls (by simp [heq])
      have hrest : .recv ∉ rest := fun hmem => hcalls (by simp [hmem])
      obtain ⟨hnext, hqueue⟩ := h.serving_call serde hr hserving hc
      obtain ⟨hlast, hqueue'⟩ := ih (h.step serde (.call c)) hnext hrest
      refine ⟨?_, hqueue'.trans hqueue⟩
      simpa [Bridge.run, Step.outcome, List.append_assoc] using hlast

variable (serde) in
/-- The finaliser brings the history to its signal if the handler has not. -/
theorem Ledger.serving_finish (h : Ledger q log st) {r : TaskRequest} (hr : r ∈ q.tasks)
    (hserving : Serving r log st) (result : Except String Value) :
    phaseOf (history r (log ++ ((Step.loopFinish result).outcome serde st).effects)) =
      some .fired := by
  rcases hserving with hholds | ⟨hidle, hfired⟩
  · exact (h.fired_of_closing serde hr hholds (s := .loopFinish result) rfl).1
  · rw [(idle_step serde hidle (.loopFinish result)).1, List.append_nil]
    exact hfired

variable (serde) in
/-- One iteration serves the next request and leaves an empty state. -/
theorem Ledger.iteration (h : Ledger q log st) (hidle : st.Idle) {r : TaskRequest}
    {rest : List TaskRequest} (hq : st.taskRx = r :: rest) (b : Behaviour) :
    phaseOf (history r (log ++ (dispatchIteration serde b st).effects)) = some .fired ∧
      (dispatchIteration serde b st).state.Empty ∧
      (dispatchIteration serde b st).state.taskRx = rest := by
  have hrecv : (Step.loopRecv).outcome serde st = ⟨.looped true, st.accept r rest, []⟩ := by
    simp [Step.outcome, loopRecv, Outcome.map, hq, WorkerState.release, hidle.1, hidle.2]
  have hr := (h.head_mem hq).1
  have hledger := h.accept hq
  obtain ⟨hserving, hqueue⟩ := hledger.serving_calls serde hr
    (.inl (st.accept_holds r rest)) b.no_recv
  have hfired := (hledger.run serde (b.calls.map .call)).serving_finish
    serde hr hserving b.result
  have hiteration : dispatchIteration serde b st =
      Bridge.run serde (.loopRecv :: (b.calls.map .call ++ [.loopFinish b.result])) st := rfl
  rw [hiteration, Bridge.run, hrecv]
  simp only [run_snoc, List.nil_append]
  refine ⟨?_, WorkerState.clear_empty _, ?_⟩
  · rw [← List.append_assoc]
    exact hfired
  · exact hqueue

/-- The loop invariant after `k` served requests. -/
structure Served (q : TaskQueue) (k : Nat) (log : List Effect) (st : WorkerState) :
    Prop where
  ledger : Ledger q log st
  empty : st.Empty
  queue : st.taskRx = q.tasks.drop k
  fired : ∀ r ∈ q.tasks.take k, phaseOf (history r log) = some .fired

variable (serde) in
theorem Served.iteration {k : Nat} (h : Served q k log st) {r : TaskRequest}
    {rest : List TaskRequest} (hq : st.taskRx = r :: rest) (b : Behaviour) :
    Served q (k + 1) (log ++ (dispatchIteration serde b st).effects)
      (dispatchIteration serde b st).state := by
  obtain ⟨hfired, hempty, hqueue⟩ := h.ledger.iteration serde h.empty.idle hq b
  have hledger : Ledger q (log ++ (dispatchIteration serde b st).effects)
      (dispatchIteration serde b st).state := h.ledger.run serde _
  have hdrop : q.tasks.drop k = r :: rest := h.queue.symm.trans hq
  refine ⟨hledger, hempty, ?_, ?_⟩
  · rw [hqueue, ← List.drop_drop, hdrop]
    rfl
  · intro r' hr'
    have htake : q.tasks.take (k + 1) = q.tasks.take k ++ [r] := by
      rw [List.take_add, hdrop]
      rfl
    rw [htake, List.mem_append, List.mem_singleton] at hr'
    rcases hr' with hold | rfl
    · have hsilent := hledger.silent_after_fired (List.mem_of_mem_take hold) (h.fired r' hold)
      rw [history_append, hsilent, List.append_nil]
      exact h.fired r' hold
    · exact hfired

variable (serde) in
theorem Served.iterations {k : Nat} (h : Served q k log st) (bs : List Behaviour) :
    ∃ n, (n = bs.length ∨ (q.tasks.drop (k + n)) = []) ∧
      Served q (k + n) (log ++ (dispatchIterations serde bs st).effects)
        (dispatchIterations serde bs st).state := by
  induction bs generalizing k log st with
  | nil => exact ⟨0, .inl rfl, by simpa [dispatchIterations] using h⟩
  | cons b rest ih =>
      cases hq : st.taskRx with
      | nil =>
          refine ⟨0, .inr (by rw [← hq]; exact h.queue.symm), ?_⟩
          simpa [dispatchIterations, hq] using h
      | cons r tasks =>
          obtain ⟨n, hn, hserved⟩ := ih (h.iteration serde hq b)
          refine ⟨n + 1, ?_, ?_⟩
          · rcases hn with rfl | hdone
            · exact .inl rfl
            · exact .inr (by rw [← hdone]; congr 1; omega)
          · have hk : k + (n + 1) = k + 1 + n := by omega
            rw [hk]
            simpa [dispatchIterations, hq, List.append_assoc] using hserved

theorem Served.start (workerId : UInt32) :
    Served q 0 (doReady (q.start workerId)).effects (doReady (q.start workerId)).state where
  ledger :=
    { queue := List.suffix_refl _
      waiting := fun _ _ => rfl
      current := .inl ⟨rfl, rfl⟩
      settled := fun _ _ => ⟨.opened false, rfl, .inl ⟨false, rfl⟩⟩ }
  empty := ⟨rfl, rfl, rfl, rfl, rfl⟩
  queue := rfl
  fired := by simp

/-- Whatever the handlers do, each request that the loop has served received one
end as its last chunk and then its signal, and the state between iterations holds
nothing of a request. -/
theorem dispatch_loop_finalises (serde : SerdeJson) (q : TaskQueue) (workerId : UInt32)
    (behaviours : List Behaviour) :
    (∀ r ∈ q.tasks.take behaviours.length, ∃ body,
      history r (runDispatchLoop serde behaviours (q.start workerId)).effects =
        body ++ [.push .streamEnd, .fire] ∧
      ∀ m ∈ body, m.pushes isEnd = false ∧ m.isFire = false) ∧
    (runDispatchLoop serde behaviours (q.start workerId)).state.Empty := by
  obtain ⟨n, hn, hserved⟩ := (Served.start (q := q) workerId).iterations serde
    behaviours
  refine ⟨fun r hr => fired_form (hserved.fired r ?_), hserved.empty⟩
  rw [Nat.zero_add] at hn ⊢
  rcases hn with rfl | hdone
  · exact hr
  · rw [List.take_of_length_le (List.drop_eq_nil_iff.mp hdone)]
    exact List.mem_of_mem_take hr

end FolkCore.Bridge
