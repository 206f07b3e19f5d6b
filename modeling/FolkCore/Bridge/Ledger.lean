import FolkCore.Bridge.History
import Mathlib.Data.List.Nodup

/-!
# The ledger of a worker thread

A thread serves the tasks of one queue. `dispatch_streamed` opens a stream and
`execute_streaming` a done channel for each task, so no two tasks of a
`TaskQueue` share a channel. `Ledger` is the invariant of every run of bridge
calls: at most one request is current and its history is open, the waiting ones
have no history yet, and every other history is settled.
-/

namespace FolkCore.Bridge

open Lib

/-- The tasks sent to one thread, in order, each with channels of its own. -/
structure TaskQueue where
  tasks : List TaskRequest
  streams_nodup : (tasks.map TaskRequest.streamTx).Nodup
  dones_nodup : (tasks.map TaskRequest.doneTx).Nodup

namespace TaskQueue

variable (q : TaskQueue)

theorem nodup : q.tasks.Nodup := List.Nodup.of_map _ q.streams_nodup

theorem stream_ne {r r' : TaskRequest} (hr : r ∈ q.tasks) (hr' : r' ∈ q.tasks)
    (hne : r' ≠ r) : r'.streamTx ≠ r.streamTx :=
  fun heq => hne (List.inj_on_of_nodup_map q.streams_nodup hr' hr heq)

theorem done_ne {r r' : TaskRequest} (hr : r ∈ q.tasks) (hr' : r' ∈ q.tasks)
    (hne : r' ≠ r) : r'.doneTx ≠ r.doneTx :=
  fun heq => hne (List.inj_on_of_nodup_map q.dones_nodup hr' hr heq)

/-- The worker state of a fresh thread that will receive these tasks. -/
def start (workerId : UInt32) : WorkerState := initWorkerState workerId q.tasks

/-- The queue of one task. -/
def single (r : TaskRequest) : TaskQueue := ⟨[r], by simp, by simp⟩

end TaskQueue

/-- The invariant of a thread that serves the queue `q`, with the log so far. -/
structure Ledger (q : TaskQueue) (log : List Effect) (st : WorkerState) : Prop where
  queue : st.taskRx <:+ q.tasks
  waiting : ∀ r ∈ st.taskRx, history r log = []
  current : st.Idle ∨ ∃ r ∈ q.tasks, r ∉ st.taskRx ∧ st.Holds r ∧
    phaseOf (history r log) = some (.opened st.streamStarted)
  settled : ∀ r ∈ q.tasks, ∃ p, phaseOf (history r log) = some p ∧ p.Settled

variable {serde : SerdeJson} {q : TaskQueue} {log : List Effect} {st : WorkerState}

theorem WorkerState.Holds.not_idle {r : TaskRequest} (h : st.Holds r) : ¬st.Idle := by
  intro hidle
  have := hidle.1.symm.trans h.1
  cases this

/-- A state holds at most one request of the queue. -/
theorem TaskQueue.eq_of_holds {r r' : TaskRequest} (hr : r ∈ q.tasks) (hr' : r' ∈ q.tasks)
    (h : st.Holds r) (h' : st.Holds r') : r' = r := by
  by_contra hne
  exact q.stream_ne hr hr' hne (Option.some.inj (h'.1.symm.trans h.1))

/-- The held request is no longer waiting, and its history is open. -/
theorem Ledger.of_holds (h : Ledger q log st) {r : TaskRequest} (hr : r ∈ q.tasks)
    (hholds : st.Holds r) :
    r ∉ st.taskRx ∧ phaseOf (history r log) = some (.opened st.streamStarted) := by
  rcases h.current with hidle | ⟨r', hr', hwait, hholds', hopen⟩
  · exact absurd hidle hholds.not_idle
  · obtain rfl := q.eq_of_holds hr' hr hholds' hholds
    exact ⟨hwait, hopen⟩

theorem Ledger.start (workerId : UInt32) : Ledger q [] (q.start workerId) where
  queue := List.suffix_refl _
  waiting := by simp
  current := .inl ⟨rfl, rfl⟩
  settled := fun r _ => ⟨.opened false, rfl, .inl ⟨false, rfl⟩⟩

/-- The head of the waiting tasks is one of the thread's, and it waits once. -/
theorem Ledger.head_mem (h : Ledger q log st) {r : TaskRequest} {rest : List TaskRequest}
    (hq : st.taskRx = r :: rest) : r ∈ q.tasks ∧ r ∉ rest := by
  have hsuffix : r :: rest <:+ q.tasks := hq ▸ h.queue
  have hnodup : (r :: rest).Nodup := q.nodup.sublist hsuffix.sublist
  exact ⟨hsuffix.subset (by simp), (List.nodup_cons.mp hnodup).1⟩

theorem Ledger.tail_suffix (h : Ledger q log st) {r : TaskRequest}
    {rest : List TaskRequest} (hq : st.taskRx = r :: rest) : rest <:+ q.tasks :=
  (List.suffix_cons r rest).trans (hq ▸ h.queue)

/-- Taking over the next task starts its history. -/
theorem Ledger.accept (h : Ledger q log st) {r : TaskRequest} {rest : List TaskRequest}
    (hq : st.taskRx = r :: rest) : Ledger q log (st.accept r rest) where
  queue := h.tail_suffix hq
  waiting := fun r' hr' => h.waiting r' (by rw [hq]; exact List.mem_cons_of_mem _ hr')
  current := by
    obtain ⟨hmem, hfresh⟩ := h.head_mem hq
    refine .inr ⟨r, hmem, hfresh, st.accept_holds r rest, ?_⟩
    rw [h.waiting r (by rw [hq]; simp)]
    rfl
  settled := h.settled

/-- A step on a state that holds request `r` leaves every other history alone. -/
theorem history_other {r r' : TaskRequest} (hr : r ∈ q.tasks) (hr' : r' ∈ q.tasks)
    (hne : r' ≠ r) {s : Step} {o : Outcome Reply}
    (move : Move serde st r.streamTx r.doneTx s o) :
    history r' (log ++ o.effects) = history r' log := by
  rw [history_append, history_eq_nil move.targets (q.stream_ne hr hr' hne)
    (q.done_ne hr hr' hne), List.append_nil]

/-- The new state of a step, once the history of its request is accounted for. -/
theorem Ledger.advance (h : Ledger q log st) {r : TaskRequest} (hr : r ∈ q.tasks)
    (hwait : r ∉ st.taskRx) {s : Step} {o : Outcome Reply}
    (move : Move serde st r.streamTx r.doneTx s o) (hqueue : o.state.taskRx = st.taskRx)
    {p : StreamPhase} (hp : phaseOf (history r (log ++ o.effects)) = some p)
    (hsettled : p.Settled)
    (hcurrent : o.state.Idle ∨ o.state.Holds r ∧ p = .opened o.state.streamStarted) :
    Ledger q (log ++ o.effects) o.state where
  queue := hqueue ▸ h.queue
  waiting := by
    intro r' hr'
    rw [hqueue] at hr'
    have hne : r' ≠ r := fun heq => hwait (heq ▸ hr')
    rw [history_other hr (h.queue.subset hr') hne move]
    exact h.waiting r' hr'
  current := by
    rcases hcurrent with hidle | ⟨hholds, rfl⟩
    · exact .inl hidle
    · exact .inr ⟨r, hr, hqueue ▸ hwait, hholds, hp⟩
  settled := by
    intro r' hr'
    by_cases hne : r' = r
    · exact hne ▸ ⟨p, hp, hsettled⟩
    · rw [history_other hr hr' hne move]
      exact h.settled r' hr'

variable (serde) in
theorem Ledger.step (h : Ledger q log st) (s : Step) :
    Ledger q (log ++ (s.outcome serde st).effects) (s.outcome serde st).state := by
  rcases h.current with hidle | ⟨r, hr, hwait, hholds, hopen⟩
  · obtain ⟨heffects, hstate⟩ := idle_step serde hidle s
    rw [heffects, List.append_nil]
    rcases hstate with ⟨hidle', hqueue⟩ | ⟨r, rest, _, hq, hstate⟩
    · exact { queue := hqueue ▸ h.queue
              waiting := fun r hr => h.waiting r (hqueue ▸ hr)
              current := .inl hidle'
              settled := h.settled }
    · rw [hstate]
      exact h.accept hq
  · have move := busy_move serde hholds.1 hholds.2 s
    generalize s.outcome serde st = o at move ⊢
    cases id move with
    | quiet _ _ _ heffects hstate =>
        refine h.advance hr hwait move (WorkerState.taskRx_of_session hstate)
          (p := .opened st.streamStarted) ?_ (.inl ⟨_, rfl⟩) (.inr ⟨?_, ?_⟩)
        · simpa [heffects] using hopen
        · exact WorkerState.holds_of_session hstate hholds
        · rw [WorkerState.started_of_session hstate]
    | head hstarted heffects hstate =>
        refine h.advance hr hwait move (by rw [hstate]) (p := .opened true) ?_
          (.inl ⟨_, rfl⟩) (.inr ⟨by rw [hstate]; exact hholds, by rw [hstate]⟩)
        rw [history_append, phaseOf_append hopen, hstarted, heffects]
        simp [history, Effect.mark, StreamPhase.next]
    | body _ heffects hstate =>
        refine h.advance hr hwait move (by rw [hstate]) (p := .opened st.streamStarted) ?_
          (.inl ⟨_, rfl⟩) (.inr ⟨by rw [hstate]; exact hholds, by rw [hstate]⟩)
        rw [history_append, phaseOf_append hopen, heffects]
        simp [history, Effect.mark, StreamPhase.next]
    | finish v hs heffects hstate =>
        refine h.advance hr hwait move (by rw [hstate]; rfl) (p := .fired) ?_ (.inr rfl)
          (.inl (by rw [hstate]; exact st.clear_idle))
        rw [history_append, phaseOf_append hopen, history_finish heffects]
        exact finish_fired _ (closing_isVerdict hs)
    | replace r' rest _ hq heffects hstate =>
        -- the replaced request keeps its open history: its channels are only dropped
        have hlog (r'' : TaskRequest) : history r'' (log ++ o.effects) = history r'' log := by
          simp [history, heffects, Effect.mark]
        have hsame : Ledger q (log ++ o.effects) st :=
          { queue := h.queue
            waiting := fun r'' h'' => (hlog r'').trans (h.waiting r'' h'')
            current := .inr ⟨r, hr, hwait, hholds, by rw [hlog]; exact hopen⟩
            settled := fun r'' h'' => by rw [hlog]; exact h.settled r'' h'' }
        rw [hstate]
        exact hsame.accept hq

variable (serde) in
/-- The ledger holds after every run of bridge calls. -/
theorem Ledger.run (h : Ledger q log st) (steps : List Step) :
    Ledger q (log ++ (Bridge.run serde steps st).effects)
      (Bridge.run serde steps st).state := by
  induction steps generalizing log st with
  | nil => simpa using h
  | cons s rest ih =>
      have hnext := ih (h.step serde s)
      simpa [Bridge.run, List.append_assoc] using hnext

theorem ledger_of_run (serde : SerdeJson) (q : TaskQueue) (workerId : UInt32)
    (steps : List Step) :
    Ledger q (run serde steps (q.start workerId)).effects
      (run serde steps (q.start workerId)).state := by
  simpa using (Ledger.start (q := q) workerId).run serde steps

end FolkCore.Bridge
