import FolkCore.Bridge.Isolation
import FolkCore.Bridge.Multipart

/-!
# Raw reads on a multipart body

`do_read` and `do_read_all` are meant for raw bodies. On a multipart body they look
at the body kind only after the leftover buffer, which the part calls share. Here
raw reads stand anywhere between part calls: a raw read is without effect exactly
when the buffer is empty, and a run whose raw reads all find it empty answers its
part calls as if the raw reads were left out.
-/

namespace FolkCore.Bridge

/-- A call on the body of a request: a part call or a raw read. -/
inductive BodyCall where
  | part (c : PartCall)
  | read (length : Nat)
  | readAll

/-- A body call with its reply. -/
inductive BodyEvent where
  | part (event : PartEvent)
  | raw (bytes : Bytes)

def BodyCall.part? : BodyCall → Option PartCall
  | .part c => some c
  | _ => none

def BodyEvent.part? : BodyEvent → Option PartEvent
  | .part event => some event
  | .raw _ => none

variable (serde : SerdeJson)

def BodyCall.perform (st : WorkerState) : BodyCall → BodyEvent × WorkerState
  | .part c => let r := c.perform serde st; (.part r.1, r.2)
  | .read length => let r := doRead length st; (.raw r.1, r.2)
  | .readAll => let r := doReadAll st; (.raw r.1, r.2)

/-- Perform the body calls in order. -/
def bodyRun : List BodyCall → WorkerState → List BodyEvent × WorkerState
  | [], st => ([], st)
  | c :: rest, st =>
      let first := c.perform serde st
      let tail := bodyRun rest first.2
      (first.1 :: tail.1, tail.2)

/-- A raw read on this state finds the buffer empty, or asks for no byte. -/
def BodyCall.clear (st : WorkerState) : BodyCall → Prop
  | .part _ => True
  | .read length => st.currentBodyLeftover = [] ∨ length = 0
  | .readAll => st.currentBodyLeftover = []

/-- Every raw read of the run finds the buffer empty, or asks for no byte. -/
def ReadsClear : List BodyCall → WorkerState → Prop
  | [], _ => True
  | c :: rest, st => c.clear st ∧ ReadsClear rest (c.perform serde st).2

variable {serde} {st : WorkerState} {items : List RequestPart}

/-- On a multipart body a raw read is without effect exactly when it finds the
buffer empty or asks for no byte. -/
theorem doRead_parts_iff (hbody : st.currentBody = some (.parts items)) (length : Nat) :
    doRead length st = ([], st) ↔ st.currentBodyLeftover = [] ∨ length = 0 := by
  constructor
  · intro h
    by_cases hleft : st.currentBodyLeftover = []
    · exact .inl hleft
    · have hbytes : st.currentBodyLeftover.take length = [] := by
        have := congrArg Prod.fst h
        simpa [doRead, hleft, splitLeftover] using this
      rcases List.take_eq_nil_iff.mp hbytes with hzero | hnil
      · exact .inr hzero
      · exact .inl hnil
  · intro h
    by_cases hleft : st.currentBodyLeftover = []
    · simp [doRead, hleft, hbody]
    · obtain rfl : length = 0 := h.resolve_left hleft
      simp [doRead, hleft, splitLeftover]

theorem doReadAll_parts_iff (hbody : st.currentBody = some (.parts items)) :
    doReadAll st = ([], st) ↔ st.currentBodyLeftover = [] := by
  constructor
  · intro h
    have hbytes := congrArg Prod.fst h
    simpa [doReadAll, hbody] using hbytes
  · intro hleft
    have hsame : { st with currentBodyLeftover := [] } = st := by rw [← hleft]
    unfold doReadAll
    split
    · rename_i chunks hraw
      exact absurd (hraw.symm.trans hbody) nofun
    · rw [hleft, hsame]

variable (serde) in
/-- A body call leaves a multipart body multipart. -/
theorem BodyCall.perform_parts (hbody : st.currentBody = some (.parts items)) (c : BodyCall) :
    ∃ rest, (c.perform serde st).2.currentBody = some (.parts rest) := by
  have parts {body : Option RequestBody} (h : RestOf body st.currentBody) :
      ∃ rest, body = some (.parts rest) := by
    rw [hbody] at h
    match body, h with
    | some (.parts rest), _ => exact ⟨rest, rfl⟩
  cases c with
  | part c =>
      cases c with
      | next => exact parts (doNextPart_rest st).1
      | read length => exact parts (doPartRead_rest st length)
      | readAll => exact parts (doPartReadAll_rest st)
  | read length => exact parts (doRead_rest st length)
  | readAll => exact parts (doReadAll_rest st)

variable (serde) in
theorem bodyRun_parts (calls : List BodyCall) (hbody : st.currentBody = some (.parts items)) :
    ∃ rest, (bodyRun serde calls st).2.currentBody = some (.parts rest) := by
  induction calls generalizing st items with
  | nil => exact ⟨items, hbody⟩
  | cons c calls ih =>
      obtain ⟨rest, hrest⟩ := c.perform_parts serde hbody
      exact ih hrest

/-- Clear raw reads can be left out of a run. -/
theorem bodyRun_clear (calls : List BodyCall) (hbody : st.currentBody = some (.parts items))
    (hclear : ReadsClear serde calls st) :
    (bodyRun serde calls st).1.filterMap BodyEvent.part? =
        (partRun serde (calls.filterMap BodyCall.part?) st).1 ∧
      (bodyRun serde calls st).2 = (partRun serde (calls.filterMap BodyCall.part?) st).2 ∧
      ∀ bytes, .raw bytes ∈ (bodyRun serde calls st).1 → bytes = [] := by
  induction calls generalizing st items with
  | nil => exact ⟨rfl, rfl, nofun⟩
  | cons c calls ih =>
      obtain ⟨hfirst, hrest⟩ := hclear
      -- a raw read that is clear answers nothing and goes on from the same state
      have raw (hquiet : c.perform serde st = (.raw [], st)) (hpart : c.part? = none) :
          (bodyRun serde (c :: calls) st).1.filterMap BodyEvent.part? =
              (partRun serde ((c :: calls).filterMap BodyCall.part?) st).1 ∧
            (bodyRun serde (c :: calls) st).2 =
              (partRun serde ((c :: calls).filterMap BodyCall.part?) st).2 ∧
            ∀ bytes, .raw bytes ∈ (bodyRun serde (c :: calls) st).1 → bytes = [] := by
        rw [hquiet] at hrest
        obtain ⟨hevents, hstate, hraw⟩ := ih hbody hrest
        simp only [bodyRun, hquiet, List.filterMap_cons, hpart, BodyEvent.part?]
        refine ⟨hevents, hstate, fun bytes hmem => ?_⟩
        rcases List.mem_cons.mp hmem with heq | hmem
        · exact BodyEvent.raw.inj heq
        · exact hraw bytes hmem
      cases c with
      | part c =>
          obtain ⟨rest, hbody'⟩ := (BodyCall.part c).perform_parts serde hbody
          obtain ⟨hevents, hstate, hraw⟩ := ih hbody' hrest
          refine ⟨congrArg (List.cons (c.perform serde st).1) hevents, hstate, ?_⟩
          intro bytes hmem
          rcases List.mem_cons.mp hmem with heq | hmem
          · cases heq
          · exact hraw bytes hmem
      | read length =>
          apply raw ?_ rfl
          simp [BodyCall.perform, (doRead_parts_iff hbody length).mpr hfirst]
      | readAll =>
          apply raw ?_ rfl
          simp [BodyCall.perform, (doReadAll_parts_iff hbody).mpr hfirst]

/-- On every multipart request and after every sequence of body calls, a raw read is
without effect exactly when it finds the leftover buffer empty or asks for no byte.
A run whose raw reads are all such answers none of them, and answers its part calls
as the run without them does. -/
theorem raw_reads_without_effect_iff (serde : SerdeJson) (st : WorkerState) (r : TaskRequest)
    (rest : List TaskRequest) (items : List RequestPart) (calls : List BodyCall) :
    let start := multipartStart st r rest items
    let reached := (bodyRun serde calls start).2
    (∀ length, doRead length reached = ([], reached) ↔
      reached.currentBodyLeftover = [] ∨ length = 0) ∧
    (doReadAll reached = ([], reached) ↔ reached.currentBodyLeftover = []) ∧
    (ReadsClear serde calls start →
      (bodyRun serde calls start).1.filterMap BodyEvent.part? =
          (partRun serde (calls.filterMap BodyCall.part?) start).1 ∧
        reached = (partRun serde (calls.filterMap BodyCall.part?) start).2 ∧
        ∀ bytes, .raw bytes ∈ (bodyRun serde calls start).1 → bytes = []) := by
  intro start reached
  have hbody : start.currentBody = some (.parts items) := rfl
  obtain ⟨unread, hreached⟩ := bodyRun_parts serde calls hbody
  exact ⟨doRead_parts_iff hreached, doReadAll_parts_iff hreached, bodyRun_clear calls hbody⟩

/-- The stream of one part with the two bytes `AB`. -/
def twoBytePart : List RequestPart :=
  encodeParts [(⟨some "file", none, none⟩, [[65, 66]])]

/-- A raw read before the part and one after its last byte are without effect. -/
theorem raw_reads_around_part :
    ReadsClear SerdeJson.ofNull
        [.read 8, .part .next, .part (.read 2), .readAll, .part (.read 2)]
        (multipartStart (initWorkerState 1 []) (.bare 0) [] twoBytePart) ∧
      (bodyRun SerdeJson.ofNull
          [.read 8, .part .next, .part (.read 2), .readAll, .part (.read 2)]
          (multipartStart (initWorkerState 1 []) (.bare 0) [] twoBytePart)).1.filterMap
          BodyEvent.part? =
        (partRun SerdeJson.ofNull [.next, .read 2, .read 2]
          (multipartStart (initWorkerState 1 []) (.bare 0) [] twoBytePart)).1 := by
  have hclear : ReadsClear SerdeJson.ofNull
      [.read 8, .part .next, .part (.read 2), .readAll, .part (.read 2)]
      (multipartStart (initWorkerState 1 []) (.bare 0) [] twoBytePart) :=
    ⟨.inl rfl, trivial, trivial, rfl, trivial, trivial⟩
  exact ⟨hclear, ((raw_reads_without_effect_iff _ _ _ _ _ _).2.2 hclear).1⟩

/-- In the middle of a part a raw read returns the byte that the next part read would
have returned. -/
theorem raw_read_takes_part_byte :
    let start := multipartStart (initWorkerState 1 []) (.bare 0) [] twoBytePart
    let reached := (bodyRun SerdeJson.ofNull [.part .next, .part (.read 1)] start).2
    (doRead 1 reached).1 = [66] ∧ (doReadAll reached).1 = [66] ∧
      (doPartRead 1 reached).1 = [66] ∧ (doPartRead 1 (doRead 1 reached).2).1 = [] := by
  exact ⟨rfl, rfl, rfl, rfl⟩

end FolkCore.Bridge
