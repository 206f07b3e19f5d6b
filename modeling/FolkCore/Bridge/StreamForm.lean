import FolkCore.Bridge.Legality

/-!
# The form of finished streams

The documented forms of a response are a streamed one (headers, bodies, possibly
an error), a returned value, or an error. The flag `streamStarted` guards only
`do_write_head` and the finaliser of the dispatch loop; `do_write`,
`do_write_end` and `do_send` do not consult it. A finished stream has one of the
forms exactly when no call made on its request is out of order in that sense.
-/

namespace FolkCore.Bridge

open Lib ResponseChunk

/-- The chunks of a history in order. -/
def chunks (h : List Mark) : List ResponseChunk :=
  h.filterMap fun
    | .push c => some c
    | .fire => none

/-- The documented forms of a complete stream. -/
def StreamForm (cs : List ResponseChunk) : Prop :=
  (∃ status headers bodies, (∀ c ∈ bodies, c.isBody = true) ∧
    cs = .headers status headers :: bodies ++ [.streamEnd]) ∨
  (∃ status headers bodies e, (∀ c ∈ bodies, c.isBody = true) ∧
    cs = .headers status headers :: bodies ++ [.error e, .streamEnd]) ∨
  (∃ v, cs = [.returnValue v, .streamEnd]) ∨
  (∃ e, cs = [.error e, .streamEnd])

/-- A call out of order: a body or a bare end before the headers, or a returned
value after them. -/
def Step.outOfOrder (serde : SerdeJson) (started : Bool) : Step → Bool
  | .call (.write _ data) => !started && !data.isEmpty
  | .call .writeEnd => !started
  | .call (.send data) =>
      match serde.fromSlice data with
      | .ok v => started && (v.get "__error").isNone
      | .error _ => false
  | _ => false

/-- A finalising step is out of order by its verdict alone. -/
theorem outOfOrder_of_closing {serde : SerdeJson} {started : Bool} {s : Step}
    {v : Option ResponseChunk} (hs : s.closing serde started = some v) :
    s.outOfOrder serde started = true ↔
      started = false ∧ v = none ∨ started = true ∧ ∃ w, v = some (.returnValue w) := by
  cases s with
  | loopRecv => simp [Step.closing] at hs
  | loopFinish result =>
      have hv : v = if started then none else some (resultChunk result) := by
        simpa [Step.closing] using hs.symm
      cases started <;> simp [Step.outOfOrder, hv]
  | call c =>
      cases c with
      | send data =>
          cases hparse : serde.fromSlice data with
          | error e =>
              have hv : v = some (.error (.new ("PHP returned malformed JSON: " ++ e))) := by
                simpa [Step.closing, hparse] using hs.symm
              simp [Step.outOfOrder, hparse, hv]
          | ok w =>
              have hv : v = some (verdict w) := by
                simpa [Step.closing, hparse] using hs.symm
              cases herr : w.get "__error" <;>
                simp [Step.outOfOrder, hparse, hv, verdict, herr]
      | sendError message =>
          have hv : v = some (.error (.new message)) := by
            simpa [Step.closing] using hs.symm
          simp [Step.outOfOrder, hv]
      | writeEnd =>
          have hv : v = none := by simpa [Step.closing] using hs.symm
          cases started <;> simp [Step.outOfOrder, hv]
      | _ => simp [Step.closing] at hs

/-- The chunks of an open history: in order, or with a body in front. -/
def OpenForm (clean : Prop) (started : Bool) (h : List Mark) : Prop :=
  (clean → (started = false ∧ chunks h = []) ∨
    (started = true ∧ ∃ status headers bodies, (∀ c ∈ bodies, c.isBody = true) ∧
      chunks h = .headers status headers :: bodies)) ∧
  (¬clean → ∃ data rest, chunks h = .body data :: rest)

@[simp] theorem chunks_append (h more : List Mark) :
    chunks (h ++ more) = chunks h ++ chunks more := List.filterMap_append

theorem chunks_finish (v : Option ResponseChunk) :
    chunks (v.toList.map Mark.push ++ [.push .streamEnd, .fire]) =
      v.toList ++ [.streamEnd] := by
  cases v <;> simp [chunks]

theorem StreamForm.not_body {data : Bytes} {rest : List ResponseChunk} :
    ¬StreamForm (.body data :: rest) := by
  rintro (⟨_, _, _, _, h⟩ | ⟨_, _, _, _, _, h⟩ | ⟨_, h⟩ | ⟨_, h⟩) <;> simp at h

/-- After headers and bodies, every verdict but a returned value completes a form. -/
theorem StreamForm.headers_iff {status : UInt16} {headers : List (String × String)}
    {bodies : List ResponseChunk} (hbodies : ∀ c ∈ bodies, c.isBody = true)
    {v : Option ResponseChunk} (hv : ∀ c ∈ v, c.isVerdict = true) :
    StreamForm (.headers status headers :: bodies ++ (v.toList ++ [.streamEnd])) ↔
      ¬∃ w, v = some (.returnValue w) := by
  constructor
  · rintro hform ⟨w, rfl⟩
    have hmem : ResponseChunk.returnValue w ∈
        .headers status headers :: bodies ++ ((some (.returnValue w)).toList ++ [.streamEnd]) := by
      simp
    rcases hform with ⟨_, _, bodies', h', heq⟩ | ⟨_, _, bodies', _, h', heq⟩ | ⟨_, heq⟩ |
      ⟨_, heq⟩
    · rw [heq] at hmem
      simp only [List.cons_append, List.mem_cons, List.mem_append, reduceCtorEq,
        List.not_mem_nil, or_false, false_or] at hmem
      exact absurd (h' _ hmem) (by simp [isBody])
    · rw [heq] at hmem
      simp only [List.cons_append, List.mem_cons, List.mem_append, reduceCtorEq,
        List.not_mem_nil, or_false, false_or] at hmem
      exact absurd (h' _ hmem) (by simp [isBody])
    · simp at heq
    · simp at heq
  · intro hreturn
    cases v with
    | none => exact .inl ⟨status, headers, bodies, hbodies, rfl⟩
    | some c =>
        cases c with
        | returnValue w => exact absurd ⟨w, rfl⟩ hreturn
        | error e => exact .inr (.inl ⟨status, headers, bodies, e, hbodies, rfl⟩)
        | headers _ _ => exact absurd (hv _ rfl) (by simp [isVerdict])
        | body _ => exact absurd (hv _ rfl) (by simp [isVerdict])
        | streamEnd => exact absurd (hv _ rfl) (by simp [isVerdict])

/-- Without headers and bodies, a verdict is needed. -/
theorem StreamForm.bare_iff {v : Option ResponseChunk}
    (hv : ∀ c ∈ v, c.isVerdict = true) :
    StreamForm (v.toList ++ [.streamEnd]) ↔ v ≠ none := by
  constructor
  · rintro hform rfl
    rcases hform with ⟨_, _, _, _, h⟩ | ⟨_, _, _, _, _, h⟩ | ⟨_, h⟩ | ⟨_, h⟩ <;> simp at h
  · intro hne
    cases v with
    | none => exact absurd rfl hne
    | some c =>
        cases c with
        | returnValue w => exact .inr (.inr (.inl ⟨w, rfl⟩))
        | error e => exact .inr (.inr (.inr ⟨e, rfl⟩))
        | headers _ _ => exact absurd (hv _ rfl) (by simp [isVerdict])
        | body _ => exact absurd (hv _ rfl) (by simp [isVerdict])
        | streamEnd => exact absurd (hv _ rfl) (by simp [isVerdict])

/-- What a finalising step makes of an open history. -/
theorem OpenForm.finish {serde : SerdeJson} {clean : Prop} {started : Bool} {h : List Mark}
    (hopen : OpenForm clean started h) {s : Step} {v : Option ResponseChunk}
    (hs : s.closing serde started = some v) :
    StreamForm (chunks h ++ (v.toList ++ [.streamEnd])) ↔
      clean ∧ s.outOfOrder serde started = false := by
  have hv := closing_isVerdict hs
  rw [← Bool.not_eq_true, outOfOrder_of_closing hs]
  by_cases hclean : clean
  · rcases hopen.1 hclean with ⟨hstarted, hempty⟩ | ⟨hstarted, status, headers, bodies, hb, heq⟩
    · rw [hempty, List.nil_append, StreamForm.bare_iff hv]
      simp [hclean, hstarted]
    · rw [heq, StreamForm.headers_iff hb hv]
      simp [hclean, hstarted]
  · obtain ⟨data, rest, heq⟩ := hopen.2 hclean
    rw [heq, List.cons_append]
    simp [hclean, StreamForm.not_body]

/-- A step that reads or fails is in order. -/
theorem outOfOrder_of_quiet {serde : SerdeJson} {s : Step} {started : Bool}
    (hs : s.closing serde started = none)
    (hwrite : ∀ accepted data, s = .call (.write accepted data) → data = []) :
    s.outOfOrder serde started = false := by
  cases s with
  | loopRecv => rfl
  | loopFinish result => rfl
  | call c =>
      cases c with
      | write accepted data => simp [Step.outOfOrder, hwrite accepted data rfl]
      | send data => cases hparse : serde.fromSlice data <;> simp [Step.closing, hparse] at hs
      | writeEnd => simp [Step.closing] at hs
      | _ => rfl

theorem OpenForm.head {clean : Prop} {h : List Mark} (hopen : OpenForm clean false h)
    (status : UInt16) (headers : List (String × String)) :
    OpenForm clean true (h ++ [.push (.headers status headers)]) := by
  refine ⟨fun hclean => ?_, fun hclean => ?_⟩
  · rcases hopen.1 hclean with ⟨_, hempty⟩ | ⟨hstarted, _⟩
    · refine .inr ⟨rfl, status, headers, [], by simp, ?_⟩
      rw [chunks_append, hempty]
      rfl
    · cases hstarted
  · obtain ⟨data, rest, heq⟩ := hopen.2 hclean
    exact ⟨data, rest ++ [.headers status headers], by rw [chunks_append, heq]; rfl⟩

theorem OpenForm.body {clean : Prop} {started : Bool} {h : List Mark}
    (hopen : OpenForm clean started h) (data : Bytes) :
    OpenForm (clean ∧ started = true) started (h ++ [.push (.body data)]) := by
  have happend : chunks (h ++ [.push (.body data)]) = chunks h ++ [.body data] := by
    rw [chunks_append]
    rfl
  refine ⟨fun hclean => ?_, fun hclean => ?_⟩
  · rcases hopen.1 hclean.1 with ⟨hstarted, _⟩ | ⟨hstarted, status, headers, bodies, hb, heq⟩
    · rw [hclean.2] at hstarted
      cases hstarted
    · refine .inr ⟨hstarted, status, headers, bodies ++ [.body data], ?_, by
        rw [happend, heq]; rfl⟩
      intro c hc
      rcases List.mem_append.mp hc with hc | hc
      · exact hb c hc
      · rw [List.mem_singleton.mp hc]
        rfl
  · by_cases hbefore : clean
    · rcases hopen.1 hbefore with ⟨_, hempty⟩ | ⟨hstarted, _⟩
      · exact ⟨data, [], by rw [happend, hempty]; rfl⟩
      · exact absurd ⟨hbefore, hstarted⟩ hclean
    · obtain ⟨first, rest, heq⟩ := hopen.2 hbefore
      exact ⟨first, rest ++ [.body data], by rw [happend, heq]; rfl⟩

theorem end_not_mem_of_opened {h : List Mark} {b : Bool} (hp : phaseOf h = some (.opened b)) :
    Mark.push .streamEnd ∉ h := by
  intro hmem
  obtain ⟨before, after, rfl⟩ := List.append_of_mem hmem
  obtain ⟨u, v, _, hstep, hrest⟩ := runs_split hp
  obtain ⟨_, rfl⟩ := StreamPhase.end_step hstep
  have hrank := rank_le_of_runs hrest
  have hopened := StreamPhase.opened_rank_le b
  rw [StreamPhase.rank_ended] at hrank
  omega

end FolkCore.Bridge
