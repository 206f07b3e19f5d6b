import FolkCore.Bridge.Legality
import FolkCore.Ext.Collectors
import FolkCore.Ext.Threads

/-!
# What the pool delivers

The contract of a response stream, over every run of the pool: whatever the threads, the
supervisors and the callers do, the pushes on a stream are a legal history cut somewhere,
so the two collectors agree on them, and a worker that reports success has pushed the end.
-/

namespace FolkCore.Ext

open Bridge Function Lib Pool ResponseChunk

variable {serde : SerdeJson} {cfg : WorkersConfig} {s t : State (extensionRuntime serde)}

/-- The contract of a stream, complete or cut: headers, a verdict and the end come at most
once, only the end follows a verdict, and nothing follows the end. -/
structure LegalStream (cs : List ResponseChunk) : Prop where
  headers_once : cs.countP isHeaders ≤ 1
  verdict_once : cs.countP isVerdict ≤ 1
  end_once : cs.countP isEnd ≤ 1
  verdict_then_end : ∀ before c after, cs = before ++ c :: after → c.isVerdict = true →
    after = [] ∨ after = [.streamEnd]
  end_last : ∀ before after, cs = before ++ .streamEnd :: after → after = []

theorem countP_chunks (kind : ResponseChunk → Bool) (history : List Mark) :
    (chunks history).countP kind = history.countP (Mark.pushes kind) := by
  induction history with
  | nil => rfl
  | cons m rest ih =>
      cases m with
      | fire => simpa [chunks, Mark.pushes] using ih
      | push c =>
          have hcons : chunks (.push c :: rest) = c :: chunks rest := rfl
          rw [hcons, List.countP_cons, List.countP_cons, ih]
          rfl

/-- A place among the chunks is a place in the history. -/
theorem exists_of_chunks {history : List Mark} {before after : List ResponseChunk}
    {c : ResponseChunk} (h : chunks history = before ++ c :: after) :
    ∃ first rest, history = first ++ .push c :: rest ∧ chunks rest = after := by
  rw [chunks, List.filterMap_eq_append_iff] at h
  obtain ⟨l₁, l₂, rfl, _, hsecond⟩ := h
  rw [List.filterMap_eq_cons_iff] at hsecond
  obtain ⟨skipped, m, rest, rfl, _, hm, hrest⟩ := hsecond
  cases m with
  | fire => cases hm
  | push c' =>
      cases hm
      exact ⟨l₁ ++ skipped, rest, by simp, hrest⟩

/-- The chunks of a legal history keep the contract, cut anywhere. -/
theorem legalStream_of_history {history : List Mark} (h : LegalHistory history)
    {cs : List ResponseChunk} (hcut : cs <+: chunks history) : LegalStream cs := by
  obtain ⟨cut, hcut⟩ := hcut
  have count (kind : ResponseChunk → Bool) (hone : history.countP (Mark.pushes kind) ≤ 1) :
      cs.countP kind ≤ 1 := by
    rw [← countP_chunks, ← hcut, List.countP_append] at hone
    omega
  have ended (before after : List ResponseChunk) (heq : cs = before ++ .streamEnd :: after) :
      after = [] := by
    rw [heq, List.append_assoc, List.cons_append] at hcut
    obtain ⟨first, rest, rfl, hrest⟩ := exists_of_chunks hcut.symm
    have hfire := h.end_last first rest rfl
    have hnone : chunks rest = [] := by
      rw [chunks, List.filterMap_eq_nil_iff]
      intro m hm
      rw [hfire m hm]
    exact (List.append_eq_nil_iff.mp (hrest.symm.trans hnone)).1
  refine ⟨count _ h.headers_once, count _ h.verdict_once, count _ h.end_once, ?_,
    ended⟩
  intro before c after heq hc
  have hcut' : before ++ c :: (after ++ cut) = chunks history := by
    rw [← hcut, heq, List.append_assoc, List.cons_append]
  obtain ⟨first, rest, hhistory, hrest⟩ := exists_of_chunks hcut'.symm
  obtain ⟨more, rfl⟩ := h.verdict_then_end first _ rest hhistory hc
  cases after with
  | nil => exact .inl rfl
  | cons next later =>
      have hnext : .streamEnd :: chunks more = next :: (later ++ cut) := hrest
      obtain ⟨rfl, _⟩ := List.cons.inj hnext
      have hlater := ended (before ++ [c]) later (by simp [heq])
      exact .inr (by rw [hlater])

/-- The pushes on a stream are cut from the history of its request on one thread. -/
theorem pushes_of_thread (h : Reachable (step serde cfg) (init (extensionRuntime serde) cfg) s)
    (k : StreamTx) : ∃ (history : List Mark) (p : StreamPhase),
      phaseOf history = some p ∧ p.Settled ∧ s.pushes k <+: chunks history := by
  by_cases hnone : s.pushes k = []
  · exact ⟨[], .opened false, rfl, .inl ⟨false, rfl⟩, hnone ▸ List.nil_prefix⟩
  · obtain ⟨c, hc⟩ := List.exists_mem_of_ne_nil _ hnone
    obtain ⟨w, hpushed⟩ : ∃ w, .pushed w k c ∈ s.history := by
      obtain ⟨e, he, hchunk⟩ := List.mem_filterMap.mp hc
      have hstory : e.tx? = some k := by simpa [State.story] using (List.mem_filter.mp he).2
      cases e with
      | pushed w k' c' =>
          cases hstory
          cases hchunk
          exact ⟨w, (State.mem_story rfl).mp he⟩
      | _ => cases hchunk
    obtain ⟨actions, hrun⟩ := h.exists_runs
    obtain ⟨l, hl, _⟩ := lived_of_runs hrun w
    obtain ⟨r, hr, rfl⟩ := hl.pushed k c hpushed
    have hworker : s.workers w ≠ none := by
      intro hunborn
      rw [(hl.unborn hunborn).1] at hr
      cases hr
    obtain ⟨worker, hw⟩ := Option.ne_none_iff_exists'.mp hworker
    have hleads := hl.leads worker hw
    obtain ⟨p, hphase, hsettled⟩ := (Life.ledger hleads hl.distinct).settled r hr
    refine ⟨_, p, hphase, hsettled, (hl.heard r hr).1.trans ?_⟩
    have hsends : l.sends r.streamTx <+: streamChunks r (l.outcome serde).effects :=
      ⟨worker.sends r.streamTx, by rw [streamChunks_eq, hleads.sends]⟩
    exact hsends

/-- Over every run of the pool the pushes on a stream keep the contract, and the pool's
collector and the extension's return the same on them. -/
theorem pool_streams_legal (serde : SerdeJson) (cfg : WorkersConfig)
    (s : State (extensionRuntime serde))
    (h : Reachable (step serde cfg) (init (extensionRuntime serde) cfg) s) (k : StreamTx) :
    LegalStream (s.pushes k) ∧ collectStreamToValue (s.pushes k) = collectStream (s.pushes k) := by
  obtain ⟨history, p, hphase, hsettled, hcut⟩ := pushes_of_thread h k
  refine ⟨legalStream_of_history (legalHistory_of_phase hphase hsettled) hcut, ?_⟩
  have hregular : ReturnThenEnd (chunks history) := returnThenEnd_of_runs hphase
  exact drain_agree (hregular.of_prefix hcut) .empty

/-- The stream of an answered request, with one chunk in it. -/
theorem answered_stream_legal :
    ∃ s, Reachable (step .ofNull .single) (init (extensionRuntime .ofNull) .single) s ∧
      (s.pushes 0).length = 1 ∧ LegalStream (s.pushes 0) ∧
      collectStreamToValue (s.pushes 0) = collectStream (s.pushes 0) := by
  have hrun : (runs (step .ofNull .single) (init (extensionRuntime .ofNull) .single)
      (answeredRun .ofNull ++ [.work 0 .perform])).any
        (fun s => decide ((s.pushes 0).length = 1)) = true := by decide +kernel
  obtain ⟨s, hs, htest⟩ := exists_reachable hrun
  exact ⟨s, hs, of_decide_eq_true htest, pool_streams_legal .ofNull .single s hs 0⟩

end FolkCore.Ext
