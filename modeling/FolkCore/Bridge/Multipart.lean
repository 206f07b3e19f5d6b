import FolkCore.Bridge.Parts

/-!
# The multipart cursor

What PHP sees of a multipart body is the list of replies to its part calls:
`Observed` sorts the returned bytes by the part they were returned for. The
invariant `Tracks` ties it to the cursor position, the leftover buffer and the
items still on the channel; `Ahead` says that a cursor that is not done has not
consumed an item out of place.
-/

namespace FolkCore.Bridge

/-- The three calls that move the cursor. -/
inductive PartCall where
  | next
  | read (length : Nat)
  | readAll

/-- A part call with its reply. -/
inductive PartEvent where
  | next (header : Option String)
  | read (bytes : Bytes)
  | readAll (bytes : Bytes)

variable (serde : SerdeJson)

def PartCall.perform (st : WorkerState) : PartCall → PartEvent × WorkerState
  | .next => let r := doNextPart serde st; (.next r.1, r.2)
  | .read length => let r := doPartRead length st; (.read r.1, r.2)
  | .readAll => let r := doPartReadAll st; (.readAll r.1, r.2)

/-- Perform the part calls in order. -/
def partRun : List PartCall → WorkerState → List PartEvent × WorkerState
  | [], st => ([], st)
  | c :: rest, st =>
      let first := c.perform serde st
      let tail := partRun rest first.2
      (first.1 :: tail.1, tail.2)

/-- The state of a thread that has just received a multipart request. -/
def multipartStart (st : WorkerState) (r : TaskRequest) (rest : List TaskRequest)
    (items : List RequestPart) : WorkerState :=
  st.accept { r with requestBody := some (.parts items) } rest

/-- What was returned for one part. -/
structure Segment where
  header : String
  bytes : Bytes
  all : Bool

/-- The bytes returned while no part was current, the segments, newest first, and
whether the newest one is current: it is, until a header is asked for in vain. -/
structure Observed where
  outside : Bytes
  segments : List Segment
  inside : Bool

namespace Observed

def extend (o : Observed) (bytes : Bytes) (all : Bool) : Observed :=
  match o.inside, o.segments with
  | true, segment :: older =>
      { o with
        segments := { segment with
          bytes := segment.bytes ++ bytes, all := segment.all || all } :: older }
  | _, _ => { o with outside := o.outside ++ bytes }

def add (o : Observed) : PartEvent → Observed
  | .next (some header) =>
      { o with segments := ⟨header, [], false⟩ :: o.segments, inside := true }
  | .next none => { o with inside := false }
  | .read bytes => o.extend bytes false
  | .readAll bytes => o.extend bytes true

def ofEvents (events : List PartEvent) : Observed := events.foldl add ⟨[], [], false⟩

end Observed

/-- The segment shows the part: its header, a prefix of its data, and all of it
after a read-all call. -/
structure Segment.Shows (segment : Segment) (part : Part) : Prop where
  header : segment.header = serde.toText part.1.toValue
  bytes : segment.bytes <+: part.2
  all : segment.all = true → segment.bytes = part.2

/-- The segments, oldest first, show the first parts of the list in order, and no
byte was returned outside of them. -/
def Observed.Shows (o : Observed) (parts : List Part) : Prop :=
  o.outside = [] ∧ ∃ opened unopened, parts = opened ++ unopened ∧
    List.Forall₂ (Segment.Shows serde) o.segments.reverse opened

/-- The newest segment is current and has all of its part. -/
def Observed.Whole (o : Observed) (opened : List Part) (part : Part) : Prop :=
  o.inside = true ∧ ∃ segment older, o.segments = segment :: older ∧
    segment.header = serde.toText part.1.toValue ∧ segment.bytes = part.2 ∧
    List.Forall₂ (Segment.Shows serde) older.reverse opened

/-- The newest segment is current and lacks the given bytes of its part. -/
def Observed.Lacks (o : Observed) (opened : List Part) (header : PartHeader)
    (sofar : Bytes) : Prop :=
  o.inside = true ∧ ∃ segment older, o.segments = segment :: older ∧
    segment.all = false ∧ segment.header = serde.toText header.toValue ∧
    segment.bytes = sofar ∧ List.Forall₂ (Segment.Shows serde) older.reverse opened

/-- The cursor position accounts for all parts: those opened so far, the bytes in
the leftover buffer, and the items still on the channel. -/
def Position (parts : List Part) (o : Observed) (leftover : Bytes)
    (items : List RequestPart) : PartState → Prop
  | .beforeFirst => o.inside = false ∧ o.segments = [] ∧ parts = readParts none items
  | .inPart => ∃ opened header sofar, o.Lacks serde opened header sofar ∧
      parts = opened ++ readParts (some (header, sofar ++ leftover)) items
  | .partEnded => ∃ opened part, o.Whole serde opened part ∧
      parts = opened ++ part :: readParts none items
  | .done => (o.inside = false ∧ List.Forall₂ (Segment.Shows serde) o.segments.reverse parts) ∨
      ∃ opened part, o.Whole serde opened part ∧ parts = opened ++ [part]

/-- The cursor invariant. -/
def Tracks (parts : List Part) (o : Observed) (st : WorkerState) : Prop :=
  o.outside = [] ∧ ∃ items, st.currentBody = some (.parts items) ∧
    Position serde parts o st.currentBodyLeftover items st.currentPartState

/-- Until it is done, the cursor has consumed no item out of place. -/
def Ahead (items : List RequestPart) (st : WorkerState) : Prop :=
  st.currentPartState ≠ .done → ∃ rest, st.currentBody = some (.parts rest) ∧
    offendingFrom (decide (st.currentPartState = .inPart)) rest = offendingFrom false items

variable {serde} {parts opened : List Part} {part : Part} {header : PartHeader}
  {sofar leftover : Bytes} {items : List RequestPart} {o : Observed} {st : WorkerState}

theorem Observed.Whole.shows (h : o.Whole serde opened part) :
    List.Forall₂ (Segment.Shows serde) o.segments.reverse (opened ++ [part]) := by
  obtain ⟨_, segment, older, hseg, hheader, hbytes, hold⟩ := h
  rw [hseg, List.reverse_cons]
  exact List.rel_append hold
    (.cons ⟨hheader, hbytes ▸ List.prefix_refl _, fun _ => hbytes⟩ .nil)

theorem Observed.Whole.extend_nil (h : o.Whole serde opened part) (all : Bool) :
    (o.extend [] all).Whole serde opened part ∧ (o.extend [] all).outside = o.outside := by
  obtain ⟨hinside, segment, older, hseg, hheader, hbytes, hold⟩ := h
  simp only [Observed.extend, hinside, hseg]
  exact ⟨⟨rfl, _, older, rfl, hheader, by simpa using hbytes, hold⟩, trivial⟩

theorem Observed.Lacks.shows (h : o.Lacks serde opened header sofar) (more : Bytes) :
    List.Forall₂ (Segment.Shows serde) o.segments.reverse
      (opened ++ [(header, sofar ++ more)]) := by
  obtain ⟨_, segment, older, hseg, hall, hheader, rfl, hold⟩ := h
  rw [hseg, List.reverse_cons]
  exact List.rel_append hold
    (.cons ⟨hheader, List.prefix_append _ _, by simp [hall]⟩ .nil)

/-- Bytes that were read move from what the segment lacks to what it has. -/
theorem Observed.Lacks.extend (h : o.Lacks serde opened header sofar) (bytes : Bytes) :
    (o.extend bytes false).Lacks serde opened header (sofar ++ bytes) ∧
      (o.extend bytes false).outside = o.outside := by
  obtain ⟨hinside, segment, older, hseg, hall, hheader, rfl, hold⟩ := h
  simp only [Observed.extend, hinside, hseg]
  exact ⟨⟨rfl, _, older, rfl, by simp [hall], hheader, rfl, hold⟩, trivial⟩

theorem Observed.Lacks.complete (h : o.Lacks serde opened header sofar) (bytes : Bytes)
    (all : Bool) :
    (o.extend bytes all).Whole serde opened (header, sofar ++ bytes) ∧
      (o.extend bytes all).outside = o.outside := by
  obtain ⟨hinside, segment, older, hseg, _, hheader, rfl, hold⟩ := h
  simp only [Observed.extend, hinside, hseg]
  exact ⟨⟨rfl, _, older, rfl, hheader, rfl, hold⟩, trivial⟩

theorem Observed.extend_nil_of_outside (h : o.inside = false) (all : Bool) :
    o.extend [] all = o := by
  cases o
  simp_all [Observed.extend]

theorem Tracks.start (st : WorkerState) (r : TaskRequest) (rest : List TaskRequest)
    (items : List RequestPart) :
    Tracks serde (partsOf items) ⟨[], [], false⟩ (multipartStart st r rest items) :=
  ⟨rfl, items, rfl, rfl, rfl, rfl⟩

/-- The segments of a tracked cursor show the first parts. -/
theorem Tracks.shows (h : Tracks serde parts o st) : o.Shows serde parts := by
  obtain ⟨houtside, items, _, hposition⟩ := h
  refine ⟨houtside, ?_⟩
  cases hstate : st.currentPartState with
  | beforeFirst =>
      rw [hstate] at hposition
      exact ⟨[], parts, rfl, by simp [hposition.2.1]⟩
  | inPart =>
      rw [hstate] at hposition
      obtain ⟨opened, header, sofar, hlacks, hparts⟩ := hposition
      rw [readParts_open] at hparts
      exact ⟨_, followingParts (collectPart items).2, by simpa using hparts,
        hlacks.shows (st.currentBodyLeftover ++ (collectPart items).1)⟩
  | partEnded =>
      rw [hstate] at hposition
      obtain ⟨opened, part, hwhole, hparts⟩ := hposition
      exact ⟨_, readParts none items, by simpa using hparts, hwhole.shows⟩
  | done =>
      rw [hstate] at hposition
      rcases hposition with ⟨_, hshows⟩ | ⟨opened, part, hwhole, hparts⟩
      · exact ⟨parts, [], by simp, hshows⟩
      · exact ⟨_, [], by simpa using hparts, hwhole.shows⟩

/-- A cursor that is done has opened every part. -/
theorem Tracks.done_length (h : Tracks serde parts o st) (hdone : st.currentPartState = .done) :
    o.segments.length = parts.length := by
  obtain ⟨_, items, _, hposition⟩ := h
  rw [hdone] at hposition
  rcases hposition with ⟨_, hshows⟩ | ⟨opened, part, hwhole, rfl⟩
  · simpa using hshows.length_eq
  · simpa using hwhole.shows.length_eq

/-- Reading a header opens the next part, or finds that there is none. -/
theorem Tracks.readHeader (houtside : o.outside = [])
    (hshows : List.Forall₂ (Segment.Shows serde) o.segments.reverse opened)
    (hparts : parts = opened ++ readParts none items) (hempty : st.currentBodyLeftover = []) :
    Tracks serde parts (o.add (.next (readHeader serde items st).1))
      (readHeader serde items st).2 := by
  cases items with
  | nil =>
      refine ⟨houtside, [], rfl, .inl ⟨rfl, ?_⟩⟩
      simpa [hparts, readParts, Bridge.readHeader, Observed.add] using hshows
  | cons item rest =>
      cases item with
      | start header =>
          refine ⟨houtside, rest, rfl, opened, header, [],
            ⟨rfl, _, _, rfl, rfl, rfl, rfl, hshows⟩, ?_⟩
          simpa [hempty, Bridge.readHeader, readParts] using hparts
      | data chunk =>
          refine ⟨houtside, rest, rfl, .inl ⟨rfl, ?_⟩⟩
          simpa [hparts, readParts, Bridge.readHeader, Observed.add] using hshows
      | partEnd =>
          refine ⟨houtside, rest, rfl, .inl ⟨rfl, ?_⟩⟩
          simpa [hparts, readParts, Bridge.readHeader, Observed.add] using hshows

theorem Tracks.next (h : Tracks serde parts o st) :
    Tracks serde parts (o.add (.next (doNextPart serde st).1)) (doNextPart serde st).2 := by
  obtain ⟨houtside, items, hbody, hposition⟩ := h
  cases hstate : st.currentPartState with
  | beforeFirst =>
      rw [hstate] at hposition
      obtain ⟨_, hseg, hparts⟩ := hposition
      simp only [doNextPart, hbody, hstate]
      have hopened : List.Forall₂ (Segment.Shows serde) o.segments.reverse [] := by
        simp [hseg]
      exact Tracks.readHeader houtside hopened hparts rfl
  | inPart =>
      rw [hstate] at hposition
      obtain ⟨opened, header, sofar, hlacks, hparts⟩ := hposition
      have hshows := hlacks.shows (st.currentBodyLeftover ++ (collectPart items).1)
      rw [readParts_open] at hparts
      simp only [doNextPart, hbody, hstate, drainPart_eq]
      rcases collectPart_state items with hend | hend
      · simp only [hend, decide_true]
        refine Tracks.readHeader houtside hshows ?_ rfl
        simpa [followingParts, hend] using hparts
      · simp only [hend, reduceCtorEq, decide_false]
        refine ⟨houtside, _, rfl, .inl ⟨rfl, ?_⟩⟩
        have hlast : parts = opened ++
            [(header, sofar ++ (st.currentBodyLeftover ++ (collectPart items).1))] := by
          simpa [followingParts, hend] using hparts
        exact hlast ▸ hshows
  | partEnded =>
      rw [hstate] at hposition
      obtain ⟨opened, part, hwhole, hparts⟩ := hposition
      simp only [doNextPart, hbody, hstate]
      exact Tracks.readHeader houtside hwhole.shows (by simpa using hparts) rfl
  | done =>
      rw [hstate] at hposition
      simp only [doNextPart, hbody, hstate]
      refine ⟨houtside, items, hbody, ?_⟩
      rw [hstate]
      refine .inl ⟨rfl, ?_⟩
      rcases hposition with ⟨_, hshows⟩ | ⟨opened, part, hwhole, rfl⟩
      · exact hshows
      · exact hwhole.shows

/-- Outside of a part nothing is read and nothing changes. -/
theorem Tracks.idle (h : Tracks serde parts o st) (hstate : st.currentPartState ≠ .inPart)
    (all : Bool) : Tracks serde parts (o.extend [] all) st := by
  obtain ⟨houtside, items, hbody, hposition⟩ := h
  cases hcase : st.currentPartState with
  | inPart => exact absurd hcase hstate
  | beforeFirst =>
      rw [hcase] at hposition
      rw [Observed.extend_nil_of_outside hposition.1]
      exact ⟨houtside, items, hbody, by rw [hcase]; exact hposition⟩
  | partEnded =>
      rw [hcase] at hposition
      obtain ⟨opened, part, hwhole, hparts⟩ := hposition
      obtain ⟨hwhole', hsame⟩ := hwhole.extend_nil all
      exact ⟨hsame.trans houtside, items, hbody, by rw [hcase]; exact ⟨_, _, hwhole', hparts⟩⟩
  | done =>
      rw [hcase] at hposition
      rcases hposition with ⟨hinside, hshows⟩ | ⟨opened, part, hwhole, hparts⟩
      · rw [Observed.extend_nil_of_outside hinside]
        exact ⟨houtside, items, hbody, by rw [hcase]; exact .inl ⟨hinside, hshows⟩⟩
      · obtain ⟨hwhole', hsame⟩ := hwhole.extend_nil all
        exact ⟨hsame.trans houtside, items, hbody, by
          rw [hcase]; exact .inr ⟨_, _, hwhole', hparts⟩⟩

/-- Handing out a prefix of the buffer. -/
theorem Tracks.split (houtside : o.outside = []) (hbody : st.currentBody = some (.parts items))
    (hstate : st.currentPartState = .inPart) (hlacks : o.Lacks serde opened header sofar)
    (hparts : parts = opened ++
      readParts (some (header, sofar ++ st.currentBodyLeftover)) items) (length : Nat) :
    Tracks serde parts (o.add (.read (splitLeftover length st).1))
      (splitLeftover length st).2 := by
  obtain ⟨hlacks', hsame⟩ := hlacks.extend (st.currentBodyLeftover.take length)
  refine ⟨hsame.trans houtside, items, hbody, ?_⟩
  simp only [splitLeftover, hstate]
  refine ⟨opened, header, _, hlacks', ?_⟩
  rw [List.append_assoc, List.take_append_drop]
  exact hparts

theorem Tracks.read (h : Tracks serde parts o st) (length : Nat) :
    Tracks serde parts (o.add (.read (doPartRead length st).1)) (doPartRead length st).2 := by
  by_cases hstate : st.currentPartState = .inPart
  · obtain ⟨houtside, items, hbody, hposition⟩ := id h
    rw [hstate] at hposition
    obtain ⟨opened, header, sofar, hlacks, hparts⟩ := hposition
    by_cases hleft : st.currentBodyLeftover = []
    · rw [hleft, List.append_nil] at hparts
      obtain ⟨hwhole, hsame⟩ := hlacks.complete [] false
      rw [List.append_nil] at hwhole
      cases items with
      | nil =>
          simp only [doPartRead, hstate, hleft, hbody]
          refine ⟨hsame.trans houtside, _, rfl, .inr ⟨opened, (header, sofar), hwhole, ?_⟩⟩
          simpa [readParts] using hparts
      | cons item rest =>
          cases item with
          | start other =>
              simp only [doPartRead, hstate, hleft, hbody]
              refine ⟨hsame.trans houtside, _, rfl, .inr ⟨opened, (header, sofar), hwhole, ?_⟩⟩
              simpa [readParts] using hparts
          | data chunk =>
              simp only [doPartRead, hstate, hleft, hbody]
              exact Tracks.split houtside rfl rfl hlacks hparts length
          | partEnd =>
              simp only [doPartRead, hstate, hleft, hbody]
              refine ⟨hsame.trans houtside, _, rfl, opened, (header, sofar), hwhole, ?_⟩
              simpa [readParts] using hparts
    · have hread : doPartRead length st = splitLeftover length st := by
        simp [doPartRead, hstate, hleft]
      rw [hread]
      exact Tracks.split houtside hbody hstate hlacks hparts length
  · have hread : doPartRead length st = ([], st) := by simp [doPartRead, hstate]
    rw [hread]
    exact h.idle hstate false

theorem Tracks.readAll (h : Tracks serde parts o st) :
    Tracks serde parts (o.add (.readAll (doPartReadAll st).1)) (doPartReadAll st).2 := by
  by_cases hstate : st.currentPartState = .inPart
  · obtain ⟨houtside, items, hbody, hposition⟩ := id h
    rw [hstate] at hposition
    obtain ⟨opened, header, sofar, hlacks, hparts⟩ := hposition
    obtain ⟨hwhole, hsame⟩ :=
      hlacks.complete (st.currentBodyLeftover ++ (collectPart items).1) true
    rw [readParts_open] at hparts
    simp only [doPartReadAll, hstate, hbody]
    refine ⟨hsame.trans houtside, _, rfl, ?_⟩
    rcases collectPart_state items with hend | hend
    · simp only [hend]
      exact ⟨opened, _, hwhole, by simpa [followingParts, hend] using hparts⟩
    · simp only [hend]
      exact .inr ⟨opened, _, hwhole, by simpa [followingParts, hend] using hparts⟩
  · have hread : doPartReadAll st = ([], st) := by simp [doPartReadAll, hstate]
    rw [hread]
    exact h.idle hstate true

theorem Tracks.perform (h : Tracks serde parts o st) (c : PartCall) :
    Tracks serde parts (o.add (c.perform serde st).1) (c.perform serde st).2 := by
  cases c with
  | next => exact h.next
  | read length => exact h.read length
  | readAll => exact h.readAll

variable (serde) in
/-- A cursor that is done answers nothing and receives nothing. -/
theorem perform_of_done (hdone : st.currentPartState = .done) (c : PartCall) :
    ((c.perform serde st).1 = .next none ∨ (c.perform serde st).1 = .read [] ∨
      (c.perform serde st).1 = .readAll []) ∧ (c.perform serde st).2 = st := by
  cases c with
  | next =>
      cases hbody : st.currentBody with
      | none => simp [PartCall.perform, doNextPart, hbody]
      | some body => cases body <;> simp [PartCall.perform, doNextPart, hbody, hdone]
  | read length => simp [PartCall.perform, doPartRead, hdone]
  | readAll => simp [PartCall.perform, doPartReadAll, hdone]

/-- Until the cursor is done, the property holds of what is left on the channel. -/
def OnChannel (P : Bool → List RequestPart → Prop) (st : WorkerState) : Prop :=
  st.currentPartState ≠ .done → ∃ rest, st.currentBody = some (.parts rest) ∧
    P (decide (st.currentPartState = .inPart)) rest

section OnChannel

variable {P : Bool → List RequestPart → Prop} (hP : Passes P)
include hP

theorem OnChannel.readHeader {rest : List RequestPart} (h : P false rest) :
    OnChannel P (readHeader serde rest st).2 := by
  cases rest with
  | nil => simp [OnChannel, Bridge.readHeader]
  | cons item tail =>
      cases item with
      | start header => exact fun _ => ⟨tail, rfl, hP.start header tail h⟩
      | data chunk => simp [OnChannel, Bridge.readHeader]
      | partEnd => simp [OnChannel, Bridge.readHeader]

theorem OnChannel.next (h : OnChannel P st) : OnChannel P (doNextPart serde st).2 := by
  by_cases hdone : st.currentPartState = .done
  · have hsame : (doNextPart serde st).2 = st := (perform_of_done serde hdone .next).2
    rw [hsame]
    exact h
  · obtain ⟨rest, hbody, hrest⟩ := h hdone
    cases hstate : st.currentPartState with
    | done => exact absurd hstate hdone
    | inPart =>
        rw [hstate] at hrest
        simp only [doNextPart, hbody, hstate, drainPart_eq]
        rcases collectPart_state rest with hend | hend
        · simp only [hend, decide_true]
          exact OnChannel.readHeader hP (hP.collectPart hend hrest)
        · simp [hend, OnChannel]
    | beforeFirst =>
        rw [hstate] at hrest
        simp only [doNextPart, hbody, hstate]
        exact OnChannel.readHeader hP hrest
    | partEnded =>
        rw [hstate] at hrest
        simp only [doNextPart, hbody, hstate]
        exact OnChannel.readHeader hP hrest

theorem OnChannel.read (h : OnChannel P st) (length : Nat) :
    OnChannel P (doPartRead length st).2 := by
  by_cases hstate : st.currentPartState = .inPart
  · obtain ⟨rest, hbody, hrest⟩ := h (by simp [hstate])
    rw [hstate] at hrest
    by_cases hleft : st.currentBodyLeftover = []
    · cases rest with
      | nil => simp [doPartRead, hstate, hleft, hbody, OnChannel]
      | cons item tail =>
          cases item with
          | start header => simp [doPartRead, hstate, hleft, hbody, OnChannel]
          | data chunk =>
              simp only [doPartRead, hstate, hleft, hbody]
              exact fun _ => ⟨tail, rfl, hP.data chunk tail hrest⟩
          | partEnd =>
              simp only [doPartRead, hstate, hleft, hbody]
              exact fun _ => ⟨tail, rfl, hP.partEnd tail hrest⟩
    · simp only [doPartRead, hstate, ne_eq, not_true_eq_false, if_false, List.isEmpty_iff, hleft]
      exact fun _ => ⟨rest, hbody, by simpa [splitLeftover, hstate] using hrest⟩
  · have hread : doPartRead length st = ([], st) := by simp [doPartRead, hstate]
    rw [hread]
    exact h

theorem OnChannel.readAll (h : OnChannel P st) : OnChannel P (doPartReadAll st).2 := by
  by_cases hstate : st.currentPartState = .inPart
  · obtain ⟨rest, hbody, hrest⟩ := h (by simp [hstate])
    rw [hstate] at hrest
    simp only [doPartReadAll, hstate, hbody]
    rcases collectPart_state rest with hend | hend
    · refine fun _ => ⟨_, rfl, ?_⟩
      simpa [hend] using hP.collectPart hend hrest
    · simp [OnChannel, hend]
  · have hread : doPartReadAll st = ([], st) := by simp [doPartReadAll, hstate]
    rw [hread]
    exact h

theorem OnChannel.perform (h : OnChannel P st) (c : PartCall) :
    OnChannel P (c.perform serde st).2 := by
  cases c with
  | next => exact h.next hP
  | read length => exact h.read hP length
  | readAll => exact h.readAll hP

variable (serde) in
theorem OnChannel.run (h : OnChannel P st) (calls : List PartCall) :
    OnChannel P (partRun serde calls st).2 := by
  induction calls generalizing st with
  | nil => exact h
  | cons c rest ih => exact ih (h.perform hP c)

end OnChannel

/-- A header asked for in vain leaves the cursor done. -/
theorem done_of_next_none (hbody : ∃ items, st.currentBody = some (.parts items))
    (hnone : (doNextPart serde st).1 = none) :
    (doNextPart serde st).2.currentPartState = .done := by
  have header (items : List RequestPart) (st : WorkerState)
      (h : (readHeader serde items st).1 = none) :
      (readHeader serde items st).2.currentPartState = .done := by
    unfold readHeader at h ⊢
    split at h
    · cases h
    · rfl
  obtain ⟨items, hbody⟩ := hbody
  unfold doNextPart at hnone ⊢
  simp only [hbody] at hnone ⊢
  split at hnone
  · assumption
  · split at hnone
    · exact header _ _ hnone
    · rfl
  · exact header _ _ hnone

theorem Tracks.run (h : Tracks serde parts o st) (calls : List PartCall) :
    Tracks serde parts ((partRun serde calls st).1.foldl Observed.add o)
      (partRun serde calls st).2 := by
  induction calls generalizing o st with
  | nil => exact h
  | cons c rest ih => exact ih (h.perform c)

variable (serde) in
theorem Ahead.run (h : Ahead items st) (calls : List PartCall) :
    Ahead items (partRun serde calls st).2 :=
  OnChannel.run serde (offendingFrom_passes items) h calls

/-- Every prefix of the events is the run of a prefix of the calls. -/
theorem partRun_split {calls : List PartCall} {before after : List PartEvent}
    {event : PartEvent} (h : (partRun serde calls st).1 = before ++ event :: after) :
    ∃ (first : List PartCall) (c : PartCall), (partRun serde first st).1 = before ∧
      (c.perform serde (partRun serde first st).2).1 = event := by
  induction calls generalizing st before with
  | nil => simp [partRun] at h
  | cons c rest ih =>
      cases before with
      | nil =>
          have hhead : (c.perform serde st).1 = event := (List.cons.inj h).1
          exact ⟨[], c, rfl, hhead⟩
      | cons e before =>
          obtain ⟨hhead, htail⟩ := List.cons.inj h
          obtain ⟨first, c', hfirst, hevent⟩ := ih htail
          exact ⟨c :: first, c', by simp [partRun, hhead, hfirst], hevent⟩

/-- For every multipart stream and every sequence of part calls, the segments show
the parts of the stream in order, a header is asked for in vain only when all of
them were opened, no item out of place is consumed before the cursor is done, and
a cursor that is done stays so. A well-formed stream has exactly its parts. -/
theorem multipart_cursor_shows_parts (serde : SerdeJson) (st : WorkerState)
    (r : TaskRequest) (rest : List TaskRequest) (items : List RequestPart)
    (calls : List PartCall) :
    (Observed.ofEvents (partRun serde calls (multipartStart st r rest items)).1).Shows serde
      (partsOf items) ∧
    (∀ before after,
      (partRun serde calls (multipartStart st r rest items)).1 =
        before ++ .next none :: after →
      (Observed.ofEvents before).segments.length = (partsOf items).length) ∧
    ((partRun serde calls (multipartStart st r rest items)).2.currentPartState ≠ .done →
      ∃ unread, (partRun serde calls (multipartStart st r rest items)).2.currentBody =
        some (.parts unread) ∧ offendingFrom false items <:+ unread) ∧
    ((partRun serde calls (multipartStart st r rest items)).2.currentPartState = .done →
      ∀ later : List PartCall,
        (∀ event ∈ (partRun serde later
            (partRun serde calls (multipartStart st r rest items)).2).1,
          event = .next none ∨ event = .read [] ∨ event = .readAll []) ∧
        (partRun serde later (partRun serde calls (multipartStart st r rest items)).2).2 =
          (partRun serde calls (multipartStart st r rest items)).2) ∧
    (∀ parts, items = encodeParts parts →
      partsOf items = parts.map fun part => (part.1, part.2.flatten)) := by
  have hstart : Tracks serde (partsOf items) ⟨[], [], false⟩ (multipartStart st r rest items) :=
    Tracks.start st r rest items
  have hahead : Ahead items (multipartStart st r rest items) := fun _ => ⟨items, rfl, rfl⟩
  refine ⟨(hstart.run calls).shows, ?_, ?_, ?_, ?_⟩
  · intro before after hevents
    obtain ⟨first, c, rfl, hevent⟩ := partRun_split hevents
    have htracks := hstart.run first
    cases c with
    | next =>
        obtain ⟨_, body, hbody, _⟩ := id htracks
        have hnone : (doNextPart serde (partRun serde first _).2).1 = none :=
          PartEvent.next.inj hevent
        have hdone := done_of_next_none ⟨body, hbody⟩ hnone
        have hlength := htracks.next.done_length hdone
        rw [hnone] at hlength
        exact hlength
    | read length => cases hevent
    | readAll => cases hevent
  · intro hstate
    obtain ⟨unread, hbody, hsame⟩ := hahead.run serde calls hstate
    exact ⟨unread, hbody, hsame ▸ offendingFrom_suffix _ unread⟩
  · intro hdone later
    generalize (partRun serde calls (multipartStart st r rest items)).2 = final at hdone ⊢
    induction later with
    | nil => exact ⟨by simp [partRun], rfl⟩
    | cons c later ih =>
        obtain ⟨hevent, hsame⟩ := perform_of_done serde hdone c
        simp only [partRun, hsame, List.mem_cons, forall_eq_or_imp]
        exact ⟨⟨hevent, ih.1⟩, ih.2⟩
  · rintro parts rfl
    exact partsOf_encodeParts parts

end FolkCore.Bridge
