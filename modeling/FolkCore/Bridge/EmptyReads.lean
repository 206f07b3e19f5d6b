import FolkCore.Bridge.RawBody
import Mathlib.Data.List.Basic
import Mathlib.Data.List.TakeWhile

/-!
# Empty results as the sign of the end

An empty result is the only sign of the end that a handler gets from `folk_read` and
`folk_part_read`. Both readers refill the buffer from one item and answer from it
without looking at its length, so that an empty chunk is answered as the end is. What
the loop up to the first empty result obtains ends at the first empty chunk. The loop is
studied first over any reader.
-/

namespace FolkCore.Reading

variable {σ α : Type*}

/-- Read until the first empty answer, at most `fuel` times. -/
def untilEmpty (read : σ → List α × σ) : Nat → σ → Option (List α)
  | 0, _ => none
  | fuel + 1, s =>
      if (read s).1.isEmpty then some []
      else (untilEmpty read fuel (read s).2).map ((read s).1 ++ ·)

/-- What a reader answers is the front of `rest`, as long as the invariant holds, and
it answers nothing only at the end. -/
structure Reads (read : σ → List α × σ) (inv : σ → Prop) (rest : σ → List α) : Prop where
  keeps : ∀ s, inv s → (read s).1 ≠ [] → inv (read s).2
  front : ∀ s, inv s → (read s).1 ≠ [] → (read s).1 ++ rest (read s).2 = rest s
  stops : ∀ s, inv s → (read s).1 = [] → rest s = []

variable {read : σ → List α × σ} {inv : σ → Prop} {rest : σ → List α}

/-- With more fuel than there are items, the loop obtains all of them. -/
theorem Reads.untilEmpty_eq (h : Reads read inv rest) {fuel : Nat} {s : σ} (hinv : inv s)
    (hfuel : (rest s).length < fuel) : untilEmpty read fuel s = some (rest s) := by
  induction fuel generalizing s with
  | zero => exact absurd hfuel (Nat.not_lt_zero _)
  | succ fuel ih =>
      by_cases hempty : (read s).1 = []
      · simp [untilEmpty, hempty, h.stops s hinv hempty]
      · have hfront := h.front s hinv hempty
        have hpos : 0 < (read s).1.length := List.length_pos_of_ne_nil hempty
        have hlength : (read s).1.length + (rest (read s).2).length = (rest s).length := by
          rw [← List.length_append, hfront]
        have hrest : untilEmpty read fuel (read s).2 = some (rest (read s).2) := by
          apply ih (h.keeps s hinv hempty)
          omega
        simp [untilEmpty, hempty, hrest, hfront]

end FolkCore.Reading

namespace FolkCore.Bridge

open Reading

/-- A part call that is not a read of no byte. -/
def PartCall.Positive : PartCall → Prop
  | .read length => 1 ≤ length
  | _ => True

/-- A body call that is not a read of no byte. -/
def BodyCall.Positive : BodyCall → Prop
  | .part c => c.Positive
  | .read length => 1 ≤ length
  | .readAll => True

/-- The data that stands before the first other item: what is left of an open part. -/
def openData : List RequestPart → Bytes
  | .data chunk :: rest => chunk ++ openData rest
  | _ => []

/-- The data that stands before the first other item and the first empty chunk. -/
def openDataShown : List RequestPart → Bytes
  | .data chunk :: rest => if chunk.isEmpty then [] else chunk ++ openDataShown rest
  | _ => []

/-- Every chunk of a part is non-empty, up to the first item out of place; given
whether a part is open. -/
def DataNonempty : Bool → List RequestPart → Prop
  | false, .start _ :: rest => DataNonempty true rest
  | true, .data chunk :: rest => chunk ≠ [] ∧ DataNonempty true rest
  | true, .partEnd :: rest => DataNonempty false rest
  | _, _ => True

section Statement

variable (serde : SerdeJson) (st : WorkerState) (r : TaskRequest) (rest : List TaskRequest)

/-- On a raw body an empty result tells the end: after any calls, all bytes are
delivered and the channel is closed, and the loop obtains the whole body. -/
structure RawEmptyTellsEnd (chunks : List Bytes) : Prop where
  atEnd : ∀ calls : List BodyCall, (∀ c ∈ calls, c.Positive) → ∀ length, 1 ≤ length →
    let run := bodyRun serde calls (rawStart st r rest chunks)
    (doRead length run.2).1 = [] →
      rawBytes run.1 = chunks.flatten ∧ run.2.currentBody = some (.raw [])
  loop : ∀ length, 1 ≤ length → ∃ enough, ∀ fuel, enough ≤ fuel →
    untilEmpty (doRead length) fuel (rawStart st r rest chunks) = some chunks.flatten

/-- Inside a part an empty result tells the end: after any calls, the read has
consumed the part's end or the stream is over, and the loop obtains the rest of the
part. -/
structure PartEmptyTellsEnd (items : List RequestPart) : Prop where
  atEnd : ∀ calls : List PartCall, (∀ c ∈ calls, c.Positive) → ∀ length, 1 ≤ length →
    let reached := (partRun serde calls (multipartStart st r rest items)).2
    reached.currentPartState = .inPart → (doPartRead length reached).1 = [] →
      (doPartRead length reached).2.currentPartState = .partEnded ∨
        (doPartRead length reached).2.currentPartState = .done
  loop : ∀ calls : List PartCall, (∀ c ∈ calls, c.Positive) → ∀ length, 1 ≤ length →
    let reached := (partRun serde calls (multipartStart st r rest items)).2
    reached.currentPartState = .inPart →
      ∃ unread, reached.currentBody = some (.parts unread) ∧ ∃ enough, ∀ fuel, enough ≤ fuel →
        untilEmpty (doPartRead length) fuel reached =
          some (reached.currentBodyLeftover ++ openData unread)

end Statement

variable {serde : SerdeJson} {st : WorkerState} {chunks : List Bytes}
  {items : List RequestPart} {length : Nat}

theorem take_eq_nil_of_pos (hlength : 1 ≤ length) {bytes : Bytes}
    (h : bytes.take length = []) : bytes = [] := by
  rcases List.take_eq_nil_iff.mp h with hzero | hnil
  · omega
  · exact hnil

/-! ## The two readers -/

section Raw

/-- What the loop still obtains from a raw body. -/
def rawShown (st : WorkerState) : Bytes :=
  match st.currentBody with
  | some (.raw chunks) =>
      st.currentBodyLeftover ++ (chunks.takeWhile fun chunk => !chunk.isEmpty).flatten
  | _ => st.currentBodyLeftover

/-- An empty result finds the buffer empty and no chunk, or an empty chunk first. -/
theorem doRead_empty (hlength : 1 ≤ length) (hbody : st.currentBody = some (.raw chunks))
    (hempty : (doRead length st).1 = []) :
    st.currentBodyLeftover = [] ∧ (chunks = [] ∨ ∃ tail, chunks = [] :: tail) := by
  by_cases hleft : st.currentBodyLeftover = []
  · refine ⟨hleft, ?_⟩
    cases chunks with
    | nil => exact .inl rfl
    | cons chunk tail =>
        have htake : chunk.take length = [] := by
          simpa [doRead, hleft, hbody, splitLeftover] using hempty
        exact .inr ⟨tail, by rw [take_eq_nil_of_pos hlength htake]⟩
  · have htake : st.currentBodyLeftover.take length = [] := by
      simpa [doRead, hleft, splitLeftover] using hempty
    exact absurd (take_eq_nil_of_pos hlength htake) hleft

/-- The raw reader obtains what stands before the first empty chunk. -/
theorem doRead_reads (hlength : 1 ≤ length) :
    Reads (doRead length) (fun st => ∃ chunks, st.currentBody = some (.raw chunks)) rawShown where
  keeps := by
    rintro st ⟨chunks, hbody⟩ _
    have hrest := doRead_rest st length
    rw [hbody] at hrest
    cases hnow : (doRead length st).2.currentBody with
    | none => simp [hnow, RestOf] at hrest
    | some body =>
        cases body with
        | raw left => exact ⟨left, rfl⟩
        | parts items => simp [hnow, RestOf] at hrest
  front := by
    rintro st ⟨chunks, hbody⟩ hsome
    by_cases hleft : st.currentBodyLeftover = []
    · cases chunks with
      | nil => simp [doRead, hleft, hbody] at hsome
      | cons chunk tail =>
          have hchunk : chunk ≠ [] := by
            rintro rfl
            simp [doRead, hleft, hbody, splitLeftover] at hsome
          simp only [doRead, hleft, hbody, List.isEmpty_nil, if_true, splitLeftover, rawShown]
          rw [List.takeWhile_cons_of_pos (by simpa using hchunk), List.flatten_cons,
            ← List.append_assoc, List.take_append_drop, List.nil_append]
    · simp only [doRead, List.isEmpty_iff, hleft, if_false, splitLeftover, rawShown, hbody]
      rw [← List.append_assoc, List.take_append_drop]
  stops := by
    rintro st ⟨chunks, hbody⟩ hempty
    obtain ⟨hleft, hchunks⟩ := doRead_empty hlength hbody hempty
    rcases hchunks with rfl | ⟨tail, rfl⟩
    · simp [rawShown, hbody, hleft]
    · simp [rawShown, hbody, hleft]

end Raw

section Part

/-- What the loop still obtains from an open part. -/
def partShown (st : WorkerState) : Bytes :=
  match st.currentBody with
  | some (.parts items) => st.currentBodyLeftover ++ openDataShown items
  | _ => st.currentBodyLeftover

/-- A part is open, on a multipart body. -/
structure InPart (st : WorkerState) : Prop where
  state : st.currentPartState = .inPart
  body : ∃ items, st.currentBody = some (.parts items)

/-- Inside a part a read answers from the buffer, refills it, or leaves the part. -/
theorem doPartRead_cases (hstate : st.currentPartState = .inPart)
    (hbody : st.currentBody = some (.parts items)) (length : Nat) :
    (st.currentBodyLeftover ≠ [] ∧ doPartRead length st = splitLeftover length st) ∨
      (∃ chunk tail, st.currentBodyLeftover = [] ∧ items = .data chunk :: tail ∧
        doPartRead length st = splitLeftover length
          { st with currentBody := some (.parts tail), currentBodyLeftover := chunk }) ∨
      (st.currentBodyLeftover = [] ∧ openData items = [] ∧ openDataShown items = [] ∧
        (doPartRead length st).1 = [] ∧
        ((doPartRead length st).2.currentPartState = .partEnded ∨
          (doPartRead length st).2.currentPartState = .done)) := by
  by_cases hleft : st.currentBodyLeftover = []
  · refine .inr ?_
    cases items with
    | nil => simp [doPartRead, hstate, hleft, hbody, openData, openDataShown]
    | cons item tail =>
        cases item with
        | start header => simp [doPartRead, hstate, hleft, hbody, openData, openDataShown]
        | data chunk =>
            refine .inl ⟨chunk, tail, hleft, rfl, ?_⟩
            simp [doPartRead, hstate, hleft, hbody]
        | partEnd => simp [doPartRead, hstate, hleft, hbody, openData, openDataShown]
  · refine .inl ⟨hleft, ?_⟩
    simp [doPartRead, hstate, hleft]

/-- An empty result inside a part finds an empty chunk, or leaves the part. -/
theorem doPartRead_empty (hlength : 1 ≤ length) (hstate : st.currentPartState = .inPart)
    (hbody : st.currentBody = some (.parts items)) (hempty : (doPartRead length st).1 = []) :
    st.currentBodyLeftover = [] ∧ openDataShown items = [] ∧
      ((∃ tail, items = .data [] :: tail) ∨
        (doPartRead length st).2.currentPartState = .partEnded ∨
        (doPartRead length st).2.currentPartState = .done) := by
  rcases doPartRead_cases hstate hbody length with
    ⟨hleft, hread⟩ | ⟨chunk, tail, hleft, rfl, hread⟩ | ⟨hleft, _, hshown, _, hover⟩
  · rw [hread] at hempty
    exact absurd (take_eq_nil_of_pos hlength hempty) hleft
  · rw [hread] at hempty
    obtain rfl := take_eq_nil_of_pos hlength hempty
    exact ⟨hleft, rfl, .inl ⟨tail, rfl⟩⟩
  · exact ⟨hleft, hshown, .inr hover⟩

/-- The part reader obtains what stands before the first empty chunk of the part. -/
theorem doPartRead_reads (hlength : 1 ≤ length) :
    Reads (doPartRead length) InPart partShown where
  keeps := by
    rintro st ⟨hstate, items, hbody⟩ hsome
    rcases doPartRead_cases hstate hbody length with
      ⟨_, hread⟩ | ⟨chunk, tail, _, _, hread⟩ | ⟨_, _, _, hempty, _⟩
    · rw [hread]
      exact ⟨hstate, items, hbody⟩
    · rw [hread]
      exact ⟨hstate, tail, rfl⟩
    · exact absurd hempty hsome
  front := by
    rintro st ⟨hstate, items, hbody⟩ hsome
    rcases doPartRead_cases hstate hbody length with
      ⟨_, hread⟩ | ⟨chunk, tail, hleft, rfl, hread⟩ | ⟨_, _, _, hempty, _⟩
    · simp only [hread, splitLeftover, partShown, hbody]
      rw [← List.append_assoc, List.take_append_drop]
    · have hchunk : ¬ chunk.isEmpty := by
        intro hnil
        rw [hread, List.isEmpty_iff.mp hnil] at hsome
        exact hsome (List.take_nil)
      simp only [hread, splitLeftover, partShown, hbody, hleft, openDataShown, hchunk]
      rw [← List.append_assoc, List.take_append_drop]
      rfl
    · exact absurd hempty hsome
  stops := by
    rintro st ⟨hstate, items, hbody⟩ hempty
    obtain ⟨hleft, hshown, _⟩ := doPartRead_empty hlength hstate hbody hempty
    simp [partShown, hbody, hleft, hshown]

end Part

/-! ## Bodies without an empty chunk -/

theorem takeWhile_of_nonempty (h : ∀ chunk ∈ chunks, chunk ≠ []) :
    chunks.takeWhile (fun chunk => !chunk.isEmpty) = chunks := by
  apply List.takeWhile_eq_self_iff.mpr
  intro chunk hmem
  simpa using h chunk hmem

theorem dataNonempty_passes : Passes DataNonempty :=
  ⟨fun _ _ h => h, fun _ _ h => h.2, fun _ h => h⟩

/-- Without an empty chunk the loop obtains all of the open part. -/
theorem openDataShown_eq (h : DataNonempty true items) : openDataShown items = openData items := by
  induction items with
  | nil => rfl
  | cons item rest ih =>
      cases item with
      | start header => rfl
      | data chunk =>
          obtain ⟨hchunk, hrest⟩ := h
          simp [openDataShown, openData, hchunk, ih hrest]
      | partEnd => rfl

variable (serde) in
theorem rawEmptyTellsEnd_of_nonempty (st : WorkerState) (r : TaskRequest)
    (rest : List TaskRequest) (h : ∀ chunk ∈ chunks, chunk ≠ []) :
    RawEmptyTellsEnd serde st r rest chunks := by
  have hstart := rawStart_open st r rest chunks
  constructor
  · intro calls _ length hlength run hempty
    obtain ⟨hopen, hbytes⟩ := hstart.run serde calls
    obtain ⟨unreceived, hbody, hsuffix⟩ := hopen.body
    obtain ⟨hleft, hchunks⟩ := doRead_empty hlength hbody hempty
    rcases hchunks with rfl | ⟨tail, rfl⟩
    · refine ⟨?_, hbody⟩
      rw [rawStart_unread, WorkerState.unread, hbody, hleft] at hbytes
      simpa using hbytes
    · exact absurd rfl (h [] (hsuffix.subset (List.mem_cons_self ..)))
  · intro length hlength
    have hshown : rawShown (rawStart st r rest chunks) = chunks.flatten := by
      show [] ++ (chunks.takeWhile _).flatten = chunks.flatten
      rw [takeWhile_of_nonempty h, List.nil_append]
    refine ⟨chunks.flatten.length + 1, fun fuel hfuel => ?_⟩
    rw [← hshown]
    apply (doRead_reads hlength).untilEmpty_eq ⟨chunks, rfl⟩
    rw [hshown]
    omega

variable (serde) in
theorem partEmptyTellsEnd_of_nonempty (st : WorkerState) (r : TaskRequest)
    (rest : List TaskRequest) (h : DataNonempty false items) :
    PartEmptyTellsEnd serde st r rest items := by
  have hstart : OnChannel DataNonempty (multipartStart st r rest items) :=
    fun _ => ⟨items, rfl, h⟩
  -- inside a part, the items left on the channel hold no empty chunk
  have inside (calls : List PartCall)
      (hstate : (partRun serde calls (multipartStart st r rest items)).2.currentPartState =
        .inPart) :
      ∃ unread, (partRun serde calls (multipartStart st r rest items)).2.currentBody =
        some (.parts unread) ∧ DataNonempty true unread := by
    obtain ⟨unread, hbody, hdata⟩ :=
      OnChannel.run serde dataNonempty_passes hstart calls (by simp [hstate])
    exact ⟨unread, hbody, by simpa [hstate] using hdata⟩
  constructor
  · intro calls _ length hlength reached hstate hempty
    obtain ⟨unread, hbody, hdata⟩ := inside calls hstate
    obtain ⟨_, _, hend⟩ := doPartRead_empty hlength hstate hbody hempty
    rcases hend with ⟨tail, rfl⟩ | hover
    · exact absurd rfl hdata.1
    · exact hover
  · intro calls _ length hlength reached hstate
    obtain ⟨unread, hbody, hdata⟩ := inside calls hstate
    have hshown : partShown reached = reached.currentBodyLeftover ++ openData unread := by
      simp only [partShown, reached, hbody, openDataShown_eq hdata]
    refine ⟨unread, hbody, (partShown reached).length + 1, fun fuel hfuel => ?_⟩
    rw [← hshown]
    apply (doPartRead_reads hlength).untilEmpty_eq ⟨hstate, unread, hbody⟩
    omega

/-! ## Bodies with an empty chunk -/

variable (serde st) in
/-- Chunk after chunk can be read up to any place in a raw body. -/
theorem bodyRun_readChunks (before after : List Bytes) (hleft : st.currentBodyLeftover = [])
    (hbody : st.currentBody = some (.raw (before ++ after))) :
    (bodyRun serde (before.map fun chunk => .read chunk.length) st).2.currentBodyLeftover = [] ∧
      (bodyRun serde (before.map fun chunk => .read chunk.length) st).2.currentBody =
        some (.raw after) := by
  induction before generalizing st with
  | nil => exact ⟨hleft, hbody⟩
  | cons chunk before ih =>
      simp only [List.map_cons, bodyRun, BodyCall.perform]
      apply ih
      · simp [doRead, hleft, hbody, splitLeftover]
      · simp [doRead, hleft, hbody, splitLeftover]

variable (serde) in
/-- Some calls lead to where an empty chunk of the open part comes next. -/
def MeetsEmptyData (st : WorkerState) : Prop :=
  ∃ calls : List PartCall, (∀ c ∈ calls, c.Positive) ∧
    (partRun serde calls st).2.currentPartState = .inPart ∧
    (partRun serde calls st).2.currentBodyLeftover = [] ∧
    ∃ tail, (partRun serde calls st).2.currentBody = some (.parts (.data [] :: tail))

theorem MeetsEmptyData.over {c : PartCall} (hc : c.Positive)
    (h : MeetsEmptyData serde (c.perform serde st).2) : MeetsEmptyData serde st := by
  obtain ⟨calls, hpositive, hreached⟩ := h
  exact ⟨c :: calls, List.forall_mem_cons.mpr ⟨hc, hpositive⟩, hreached⟩

variable (serde) in
/-- From the place of an item, calls lead to any empty chunk behind it. -/
theorem meetsEmptyData_of_not_nonempty {inside : Bool} (h : ¬ DataNonempty inside items)
    (hbody : st.currentBody = some (.parts items)) (hleft : st.currentBodyLeftover = [])
    (hinside : inside = true → st.currentPartState = .inPart)
    (houtside : inside = false →
      st.currentPartState = .beforeFirst ∨ st.currentPartState = .partEnded) :
    MeetsEmptyData serde st := by
  induction items generalizing st inside with
  | nil =>
      cases inside
      · exact absurd trivial h
      · exact absurd trivial h
  | cons item rest ih =>
      cases inside with
      | false =>
          cases item with
          | start header =>
              have hnext : (doNextPart serde st).2 = { st with
                  currentBody := some (.parts rest)
                  currentBodyLeftover := []
                  currentPartState := .inPart } := by
                rcases houtside rfl with hstate | hstate
                · simp [doNextPart, readHeader, hbody, hstate]
                · simp [doNextPart, readHeader, hbody, hstate]
              apply MeetsEmptyData.over (c := .next) trivial
              simp only [PartCall.perform, hnext]
              have hrest : ¬ DataNonempty true rest := h
              exact ih hrest rfl rfl (fun _ => rfl) (by simp)
          | data chunk => exact absurd trivial h
          | partEnd => exact absurd trivial h
      | true =>
          have hstate := hinside rfl
          cases item with
          | start header => exact absurd trivial h
          | data chunk =>
              by_cases hchunk : chunk = []
              · subst hchunk
                exact ⟨[], by simp, hstate, hleft, rest, hbody⟩
              · have hrest : ¬ DataNonempty true rest := fun hrest => h ⟨hchunk, hrest⟩
                have hlength : 1 ≤ chunk.length := List.length_pos_of_ne_nil hchunk
                apply MeetsEmptyData.over (c := .read chunk.length) hlength
                apply ih hrest
                · simp [PartCall.perform, doPartRead, hstate, hleft, hbody, splitLeftover]
                · simp [PartCall.perform, doPartRead, hstate, hleft, hbody, splitLeftover]
                · simp [PartCall.perform, doPartRead, hstate, hleft, hbody, splitLeftover]
                · simp
          | partEnd =>
              have hrest : ¬ DataNonempty false rest := h
              apply MeetsEmptyData.over (c := .read 1) (Nat.le_refl 1)
              apply ih hrest
              · simp [PartCall.perform, doPartRead, hstate, hleft, hbody]
              · simp [PartCall.perform, doPartRead, hstate, hleft, hbody]
              · simp
              · simp [PartCall.perform, doPartRead, hstate, hleft, hbody]

/-- For every request body: an empty result of a read of at least one byte tells the
end of a raw body exactly when no chunk is empty, and the end of a part exactly when
no chunk of a part is, up to the first item out of place. -/
theorem empty_result_tells_end_iff (serde : SerdeJson) (st : WorkerState) (r : TaskRequest)
    (rest : List TaskRequest) :
    (∀ chunks, RawEmptyTellsEnd serde st r rest chunks ↔ ∀ chunk ∈ chunks, chunk ≠ []) ∧
    (∀ items, PartEmptyTellsEnd serde st r rest items ↔ DataNonempty false items) := by
  refine ⟨fun chunks => ⟨fun h => ?_, rawEmptyTellsEnd_of_nonempty serde st r rest⟩,
    fun items => ⟨fun h => ?_, partEmptyTellsEnd_of_nonempty serde st r rest⟩⟩
  · rintro chunk hmem rfl
    -- up to the first empty chunk the body can be read; the next read answers nothing
    obtain ⟨before, after, rfl, hbefore⟩ := List.eq_append_cons_of_mem hmem
    obtain ⟨hleft, hbody⟩ := bodyRun_readChunks serde (rawStart st r rest (before ++ [] :: after))
      before ([] :: after) rfl rfl
    have hpositive : ∀ c ∈ before.map fun chunk => BodyCall.read chunk.length, c.Positive := by
      intro c hc
      obtain ⟨chunk, hchunk, rfl⟩ := List.mem_map.mp hc
      exact List.length_pos_of_ne_nil fun hnil => hbefore (hnil ▸ hchunk)
    have hempty : (doRead 1 (bodyRun serde (before.map fun chunk => .read chunk.length)
        (rawStart st r rest (before ++ [] :: after))).2).1 = [] := by
      simp [doRead, hleft, hbody, splitLeftover]
    have hend := (h.atEnd _ hpositive 1 (Nat.le_refl 1) hempty).2
    simp [hbody] at hend
  · by_contra hsome
    have hmeets : MeetsEmptyData serde (multipartStart st r rest items) :=
      meetsEmptyData_of_not_nonempty serde hsome rfl rfl (by simp) (fun _ => .inl rfl)
    obtain ⟨calls, hpositive, hstate, hleft, tail, hbody⟩ := hmeets
    have hread := h.atEnd calls hpositive 1 (Nat.le_refl 1) hstate
    simp [doPartRead, hstate, hleft, hbody, splitLeftover] at hread

/-- An empty first chunk is answered as the end of the body, and so is an empty chunk
in a part: the loop obtains nothing of what follows. -/
theorem empty_chunk_taken_for_end :
    ¬ RawEmptyTellsEnd SerdeJson.ofNull (initWorkerState 1 []) (.bare 0) [] [[], [65, 66]] ∧
      ¬ PartEmptyTellsEnd SerdeJson.ofNull (initWorkerState 1 []) (.bare 0) []
          [.start ⟨some "file", none, none⟩, .data [], .data [65, 66], .partEnd] ∧
      untilEmpty (doRead 8)
        3 (rawStart (initWorkerState 1 []) (.bare 0) [] [[], [65, 66]]) = some [] := by
  refine ⟨fun h => ?_, fun h => ?_, rfl⟩
  · have hend := (h.atEnd [] (by simp) 8 (by decide) rfl).2
    simp [bodyRun, rawStart, WorkerState.accept] at hend
  · have hend := h.atEnd [.next] (by simp [PartCall.Positive]) 8 (by decide) rfl rfl
    rcases hend with hend | hend
    · cases hend
    · cases hend

end FolkCore.Bridge
