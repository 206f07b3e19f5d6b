import FolkCore.Bridge.StreamForm
import FolkCore.Lib.Transition
import Mathlib.Data.List.Induction

/-!
# Which streams have a documented form

Along every run of bridge calls, `Forms` relates the chunks of each request to
the calls made while it was held. The two dispatch paths are both covered: a
`Step` is a bridge call or one half of a `run_dispatch_loop` iteration.
-/

namespace FolkCore.Bridge

open Lib ResponseChunk

/-- The forms of all streams of a thread. `ord r` says that no call made while
`r` was held was out of order. -/
structure Forms (q : TaskQueue) (ord : TaskRequest → Prop) (log : List Effect)
    (st : WorkerState) : Prop where
  held : ∀ r ∈ q.tasks, st.Holds r → OpenForm (ord r) st.streamStarted (history r log)
  waiting : ∀ r ∈ st.taskRx, ord r
  finished : ∀ r ∈ q.tasks, .push .streamEnd ∈ history r log →
    (StreamForm (chunks (history r log)) ↔ ord r)

variable {serde : SerdeJson} {q : TaskQueue} {log : List Effect} {st : WorkerState}
  {ord ord' : TaskRequest → Prop}

/-- Taking over the next task starts an empty stream without a call on it. -/
theorem Forms.accept (h : Forms q ord log st) (hledger : Ledger q log st)
    {r : TaskRequest} {rest : List TaskRequest} (hq : st.taskRx = r :: rest) :
    Forms q ord log (st.accept r rest) where
  held := by
    intro r' hr' hholds
    obtain rfl := q.eq_of_holds (hledger.head_mem hq).1 hr' (st.accept_holds r rest) hholds
    have hord : ord r' := h.waiting r' (by rw [hq]; simp)
    refine ⟨fun _ => .inl ⟨rfl, ?_⟩, fun hclean => absurd hord hclean⟩
    rw [hledger.waiting r' (by rw [hq]; simp)]
    rfl
  waiting := fun r' hr' => h.waiting r' (by rw [hq]; exact List.mem_cons_of_mem _ hr')
  finished := h.finished

/-- The forms after a step on the held request `r`, once its stream is settled. -/
theorem Forms.advance (h : Forms q ord log st) (hledger : Ledger q log st)
    (hord : ∀ r', ¬st.Holds r' → (ord' r' ↔ ord r')) {r : TaskRequest} (hr : r ∈ q.tasks)
    (hholds : st.Holds r) {s : Step} {o : Outcome Reply}
    (move : Move serde st r.streamTx r.doneTx s o) (hqueue : o.state.taskRx = st.taskRx)
    (hstate : o.state.Idle ∨ o.state.Holds r)
    (hheld : o.state.Holds r →
      OpenForm (ord' r) o.state.streamStarted (history r (log ++ o.effects)))
    (hfinished : .push .streamEnd ∈ history r (log ++ o.effects) →
      (StreamForm (chunks (history r (log ++ o.effects))) ↔ ord' r)) :
    Forms q ord' (log ++ o.effects) o.state := by
  have hother {r' : TaskRequest} (hr' : r' ∈ q.tasks) (hne : r' ≠ r) : ¬st.Holds r' :=
    fun hholds' => hne (q.eq_of_holds hr hr' hholds hholds')
  refine ⟨?_, ?_, ?_⟩
  · intro r' hr' hholds'
    rcases hstate with hidle | hsame
    · exact absurd hidle hholds'.not_idle
    · obtain rfl := q.eq_of_holds hr hr' hsame hholds'
      exact hheld hsame
  · intro r' hr'
    rw [hqueue] at hr'
    have hmem : r' ∈ q.tasks := hledger.queue.subset hr'
    have hne : r' ≠ r := fun heq => (hledger.of_holds hr hholds).1 (heq ▸ hr')
    exact (hord r' (hother hmem hne)).mpr (h.waiting r' hr')
  · intro r' hr' hend
    by_cases hne : r' = r
    · subst hne
      exact hfinished hend
    · rw [history_other hr hr' hne move] at hend ⊢
      rw [hord r' (hother hr' hne)]
      exact h.finished r' hr' hend

theorem Forms.step (h : Forms q ord log st) (hledger : Ledger q log st) (s : Step)
    (hord : ∀ r, ord' r ↔
      ord r ∧ (st.Holds r → s.outOfOrder serde st.streamStarted = false)) :
    Forms q ord' (log ++ (s.outcome serde st).effects) (s.outcome serde st).state := by
  have hframe (r : TaskRequest) (hnot : ¬st.Holds r) : ord' r ↔ ord r := by
    rw [hord r]
    simp [hnot]
  rcases hledger.current with hidle | ⟨r, hr, _, hholds, hopen⟩
  · have hsame : ord' = ord :=
      funext fun r => propext (hframe r fun hholds => hholds.not_idle hidle)
    obtain ⟨heffects, hstate⟩ := idle_step serde hidle s
    rw [heffects, List.append_nil, hsame]
    rcases hstate with ⟨hidle', hqueue⟩ | ⟨r, rest, _, hq, hstate⟩
    · exact { held := fun r _ hholds => absurd hidle' hholds.not_idle
              waiting := fun r hr => h.waiting r (hqueue ▸ hr)
              finished := h.finished }
    · rw [hstate]
      exact h.accept hledger hq
  · have hordr : ord' r ↔ ord r ∧ s.outOfOrder serde st.streamStarted = false := by
      simpa [hholds] using hord r
    have hform := h.held r hr hholds
    have move := busy_move serde hholds.1 hholds.2 s
    generalize s.outcome serde st = o at move ⊢
    cases id move with
    | quiet hs hwrite _ heffects hstate =>
        have hsame : ord' r ↔ ord r := by simp [hordr, outOfOrder_of_quiet hs hwrite]
        have hlog : history r (log ++ o.effects) = history r log := by simp [heffects]
        refine h.advance hledger hframe hr hholds move (WorkerState.taskRx_of_session hstate)
          (.inr (WorkerState.holds_of_session hstate hholds)) (fun _ => ?_) (fun hend => ?_)
        · rw [hlog, WorkerState.started_of_session hstate, propext hsame]
          exact hform
        · rw [hlog] at hend
          exact absurd hend (end_not_mem_of_opened hopen)
    | @head _ status headers _ hstarted heffects hstate =>
        have hsame : ord' r ↔ ord r := by simp [hordr, Step.outOfOrder]
        have hlog : history r (log ++ o.effects) =
            history r log ++ [.push (.headers status headers)] := by
          rw [history_append, heffects]
          simp [history, Effect.mark]
        refine h.advance hledger hframe hr hholds move (by rw [hstate])
          (.inr (by rw [hstate]; exact hholds)) (fun _ => ?_) (fun hend => ?_)
        · rw [hlog, hstate, propext hsame]
          exact (hstarted ▸ hform).head status headers
        · rw [hlog] at hend
          simp [end_not_mem_of_opened hopen] at hend
    | @body _ data _ hdata heffects hstate =>
        have hsame : ord' r ↔ ord r ∧ st.streamStarted = true := by
          simp [hordr, Step.outOfOrder, hdata]
        have hlog : history r (log ++ o.effects) = history r log ++ [.push (.body data)] := by
          rw [history_append, heffects]
          simp [history, Effect.mark]
        refine h.advance hledger hframe hr hholds move (by rw [hstate])
          (.inr (by rw [hstate]; exact hholds)) (fun _ => ?_) (fun hend => ?_)
        · rw [hlog, hstate, propext hsame]
          exact hform.body data
        · rw [hlog] at hend
          simp [end_not_mem_of_opened hopen] at hend
    | finish v hs heffects hstate =>
        refine h.advance hledger hframe hr hholds move (by rw [hstate]; rfl)
          (.inl (by rw [hstate]; exact st.clear_idle))
          (fun hheld => ?_) (fun _ => ?_)
        · rw [hstate] at hheld
          exact absurd st.clear_idle hheld.not_idle
        · rw [history_append, history_finish heffects, chunks_append, chunks_finish,
            hordr]
          exact hform.finish hs
    | replace r' rest hs hq heffects hstate =>
        -- both receives are in order, and the replaced stream never gets its end
        have hsame : ord' = ord := by
          funext r''
          refine propext ((hord r'').trans ?_)
          cases s with
          | loopFinish result => simp [Step.receives] at hs
          | loopRecv => simp [Step.outOfOrder]
          | call c =>
              cases c with
              | recv => simp [Step.outOfOrder]
              | _ => simp [Step.receives] at hs
        have hlog (r'' : TaskRequest) : history r'' (log ++ o.effects) = history r'' log := by
          simp [history, heffects, Effect.mark]
        rw [hstate, hsame]
        have haccept := h.accept hledger hq
        exact { held := fun r'' h'' hholds'' => by
                  rw [hlog]; exact haccept.held r'' h'' hholds''
                waiting := haccept.waiting
                finished := fun r'' h'' hend => by
                  rw [hlog] at hend ⊢; exact h.finished r'' h'' hend }

/-- No call made while `r` was held was out of order. -/
def Orderly (serde : SerdeJson) (st : WorkerState) (steps : List Step) (r : TaskRequest) :
    Prop :=
  ∀ before s after, steps = before ++ s :: after →
    (run serde before st).state.Holds r →
    s.outOfOrder serde (run serde before st).state.streamStarted = false

theorem orderly_snoc (serde : SerdeJson) (st : WorkerState) (steps : List Step) (s : Step)
    (r : TaskRequest) :
    Orderly serde st (steps ++ [s]) r ↔ Orderly serde st steps r ∧
      ((run serde steps st).state.Holds r →
        s.outOfOrder serde (run serde steps st).state.streamStarted = false) :=
  eachEntry_snoc (p := fun before s => (run serde before st).state.Holds r →
    s.outOfOrder serde (run serde before st).state.streamStarted = false)

theorem forms_of_run (serde : SerdeJson) (q : TaskQueue) (workerId : UInt32)
    (steps : List Step) :
    Forms q (Orderly serde (q.start workerId) steps)
      (run serde steps (q.start workerId)).effects
      (run serde steps (q.start workerId)).state := by
  induction steps using List.reverseRecOn with
  | nil =>
      have hord (r : TaskRequest) : Orderly serde (q.start workerId) [] r := eachEntry_nil
      exact { held := fun r _ hholds => absurd ⟨rfl, rfl⟩ hholds.not_idle
              waiting := fun r _ => hord r
              finished := fun r _ hend => by simp at hend }
  | append_singleton steps s ih =>
      rw [run_snoc]
      exact ih.step (ledger_of_run serde q workerId steps) s
        fun r => orderly_snoc serde (q.start workerId) steps s r

/-- A finished stream has one of the documented forms exactly when no call made
on its request was out of order. -/
theorem finished_stream_form_iff (serde : SerdeJson) (q : TaskQueue) (workerId : UInt32)
    (steps : List Step) (r : TaskRequest) (hr : r ∈ q.tasks)
    (hend : .push .streamEnd ∈ history r (run serde steps (q.start workerId)).effects) :
    StreamForm (chunks (history r (run serde steps (q.start workerId)).effects)) ↔
      ∀ before s after, steps = before ++ s :: after →
        (run serde before (q.start workerId)).state.Holds r →
        s.outOfOrder serde
          (run serde before (q.start workerId)).state.streamStarted = false :=
  (forms_of_run serde q workerId steps).finished r hr hend

/-- A header, a body and the end finish in one of the forms, and are in order. -/
theorem streamed_response_orderly :
    .push .streamEnd ∈ history (.bare 1) (run .ofNull
      [.call .recv, .call (.writeHead true 200 []), .call (.write true [65]), .call .writeEnd]
      ((TaskQueue.single (.bare 1)).start 1)).effects ∧
    ∀ before s after, [.call .recv, .call (.writeHead true 200 []),
      .call (.write true [65]), .call .writeEnd] = before ++ s :: after →
      (run .ofNull before ((TaskQueue.single (.bare 1)).start 1)).state.Holds (.bare 1) →
      s.outOfOrder .ofNull
        (run .ofNull before ((TaskQueue.single (.bare 1)).start 1)).state.streamStarted =
          false := by
  have hmem : TaskRequest.bare 1 ∈ (TaskQueue.single (.bare 1)).tasks := List.mem_singleton.mpr rfl
  have hend : .push .streamEnd ∈ history (.bare 1) (run .ofNull
      [.call .recv, .call (.writeHead true 200 []), .call (.write true [65]), .call .writeEnd]
      ((TaskQueue.single (.bare 1)).start 1)).effects := by
    change Mark.push .streamEnd ∈
      [.push (.headers 200 []), .push (.body [65]), .push .streamEnd, .fire]
    simp
  refine ⟨hend, ?_⟩
  apply (finished_stream_form_iff .ofNull (.single (.bare 1)) 1 _ (.bare 1) hmem hend).mp
  exact .inl ⟨200, [], [.body [65]], by simp [isBody], rfl⟩

/-- A body write without a header finishes in none of the forms. -/
theorem body_before_headers_finishes :
    .push .streamEnd ∈ history (.bare 1) (run .ofNull
      [.call .recv, .call (.write true [65]), .call .writeEnd]
      ((TaskQueue.single (.bare 1)).start 1)).effects ∧
    ¬StreamForm (chunks (history (.bare 1) (run .ofNull
      [.call .recv, .call (.write true [65]), .call .writeEnd]
      ((TaskQueue.single (.bare 1)).start 1)).effects)) := by
  constructor
  · change Mark.push .streamEnd ∈ [.push (.body [65]), .push .streamEnd, .fire]
    simp
  · change ¬StreamForm [.body [65], .streamEnd]
    exact StreamForm.not_body

end FolkCore.Bridge
