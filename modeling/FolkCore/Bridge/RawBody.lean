import FolkCore.Bridge.RawReads

/-!
# Reading a raw body

The position in a raw body is split over the leftover buffer and the chunks still on
the channel. `RawOpen` is the invariant of a thread that reads one: the body stays
raw, its chunks are the end of the given ones, and no part is open.
-/

namespace FolkCore.Bridge

variable (serde : SerdeJson)

/-- The state of a thread that has just received a request with a raw body. -/
def rawStart (st : WorkerState) (r : TaskRequest) (rest : List TaskRequest)
    (chunks : List Bytes) : WorkerState :=
  st.accept { r with requestBody := some (.raw chunks) } rest

/-- The bytes that the raw reads answered, in order. -/
def rawBytes : List BodyEvent → Bytes
  | [] => []
  | .raw bytes :: events => bytes ++ rawBytes events
  | .part _ :: events => rawBytes events

/-- What a part call answers when there is nothing for it. -/
def PartCall.nothing : PartCall → PartEvent
  | .next => .next none
  | .read _ => .read []
  | .readAll => .readAll []

/-- The body is raw with an end of the given chunks, and no part is open. -/
structure RawOpen (chunks : List Bytes) (st : WorkerState) : Prop where
  body : ∃ unreceived, st.currentBody = some (.raw unreceived) ∧ unreceived <:+ chunks
  state : st.currentPartState = .beforeFirst

variable {serde} {st : WorkerState} {chunks : List Bytes}

theorem rawStart_open (st : WorkerState) (r : TaskRequest) (rest : List TaskRequest)
    (chunks : List Bytes) : RawOpen chunks (rawStart st r rest chunks) :=
  ⟨⟨chunks, rfl, List.suffix_refl _⟩, rfl⟩

theorem rawStart_unread (st : WorkerState) (r : TaskRequest) (rest : List TaskRequest)
    (chunks : List Bytes) : (rawStart st r rest chunks).unread = chunks.flatten := rfl

theorem splitLeftover_length (st : WorkerState) (length : Nat) :
    (splitLeftover length st).1.length ≤ length :=
  List.length_take_le length st.currentBodyLeftover

/-- A read answers at most as many bytes as were asked for. -/
theorem doRead_length (st : WorkerState) (length : Nat) :
    (doRead length st).1.length ≤ length := by
  unfold doRead
  split
  · split
    · exact splitLeftover_length _ length
    · exact Nat.zero_le _
  · exact splitLeftover_length _ length

theorem doRead_partState (st : WorkerState) (length : Nat) :
    (doRead length st).2.currentPartState = st.currentPartState := by
  unfold doRead
  split
  · split <;> rfl
  · rfl

theorem doReadAll_partState (st : WorkerState) :
    (doReadAll st).2.currentPartState = st.currentPartState := by
  unfold doReadAll
  split <;> rfl

/-- A rest of a raw body is raw. -/
theorem RawOpen.of_rest (h : RawOpen chunks st) {st' : WorkerState}
    (hrest : RestOf st'.currentBody st.currentBody)
    (hstate : st'.currentPartState = st.currentPartState) : RawOpen chunks st' := by
  obtain ⟨⟨unreceived, hbody, hsuffix⟩, hpart⟩ := h
  refine ⟨?_, hstate.trans hpart⟩
  rw [hbody] at hrest
  cases hnow : st'.currentBody with
  | none => simp [hnow, RestOf] at hrest
  | some body =>
      cases body with
      | raw left =>
          rw [hnow] at hrest
          exact ⟨left, rfl, List.IsSuffix.trans hrest hsuffix⟩
      | parts items => simp [hnow, RestOf] at hrest

variable (serde) in
/-- On a raw body a part call answers nothing and changes nothing. -/
theorem RawOpen.part (h : RawOpen chunks st) (c : PartCall) :
    c.perform serde st = (c.nothing, st) := by
  obtain ⟨⟨unreceived, hbody, _⟩, hstate⟩ := h
  cases c with
  | next => simp [PartCall.perform, PartCall.nothing, doNextPart, hbody]
  | read length => simp [PartCall.perform, PartCall.nothing, doPartRead, hstate]
  | readAll => simp [PartCall.perform, PartCall.nothing, doPartReadAll, hstate]

variable (serde) in
/-- One call keeps the body raw and takes what it answers from the unread bytes. -/
theorem RawOpen.perform (h : RawOpen chunks st) (c : BodyCall) :
    RawOpen chunks (c.perform serde st).2 ∧
      rawBytes [(c.perform serde st).1] ++ (c.perform serde st).2.unread = st.unread := by
  cases c with
  | part c =>
      simp only [BodyCall.perform, h.part serde c]
      exact ⟨h, rfl⟩
  | read length =>
      refine ⟨h.of_rest (doRead_rest st length) (doRead_partState st length), ?_⟩
      simpa [BodyCall.perform, rawBytes] using doRead_unread st length
  | readAll =>
      refine ⟨h.of_rest (doReadAll_rest st) (doReadAll_partState st), ?_⟩
      simpa [BodyCall.perform, rawBytes] using doReadAll_unread st

theorem rawBytes_cons (event : BodyEvent) (events : List BodyEvent) :
    rawBytes (event :: events) = rawBytes [event] ++ rawBytes events := by
  cases event with
  | part event => rfl
  | raw bytes => simp [rawBytes]

variable (serde) in
/-- A run keeps the body raw; what it answered and what is unread make up what was
unread before. -/
theorem RawOpen.run (h : RawOpen chunks st) (calls : List BodyCall) :
    RawOpen chunks (bodyRun serde calls st).2 ∧
      rawBytes (bodyRun serde calls st).1 ++ (bodyRun serde calls st).2.unread = st.unread := by
  induction calls generalizing st with
  | nil => exact ⟨h, rfl⟩
  | cons c calls ih =>
      obtain ⟨hfirst, hbytes⟩ := h.perform serde c
      obtain ⟨hopen, hrun⟩ := ih hfirst
      refine ⟨hopen, ?_⟩
      calc rawBytes (bodyRun serde (c :: calls) st).1 ++ (bodyRun serde (c :: calls) st).2.unread
          = rawBytes [(c.perform serde st).1] ++
              (rawBytes (bodyRun serde calls (c.perform serde st).2).1 ++
                (bodyRun serde calls (c.perform serde st).2).2.unread) := by
            simp only [bodyRun]
            rw [rawBytes_cons, List.append_assoc]
        _ = st.unread := by rw [hrun, hbytes]

/-- For every raw body and every sequence of body calls, the bytes returned so far,
the leftover buffer and the chunks not yet received make up the whole body. A read
returns at most the bytes it asks for, reading all returns the remainder, and the part
calls answer nothing and change nothing. -/
theorem raw_body_is_partitioned (serde : SerdeJson) (st : WorkerState) (r : TaskRequest)
    (rest : List TaskRequest) (chunks : List Bytes) (calls : List BodyCall) :
    let run := bodyRun serde calls (rawStart st r rest chunks)
    ∃ unreceived, run.2.currentBody = some (.raw unreceived) ∧ unreceived <:+ chunks ∧
      rawBytes run.1 ++ (run.2.currentBodyLeftover ++ unreceived.flatten) = chunks.flatten ∧
      (∀ length, (doRead length run.2).1.length ≤ length) ∧
      (doReadAll run.2).1 = run.2.currentBodyLeftover ++ unreceived.flatten ∧
      ∀ c : PartCall, c.perform serde run.2 = (c.nothing, run.2) := by
  intro run
  obtain ⟨hopen, hbytes⟩ := (rawStart_open st r rest chunks).run serde calls
  obtain ⟨unreceived, hbody, hsuffix⟩ := hopen.body
  refine ⟨unreceived, hbody, hsuffix, ?_, doRead_length _, ?_, hopen.part serde⟩
  · rw [rawStart_unread, WorkerState.unread, hbody] at hbytes
    exact hbytes
  · simp only [doReadAll, run, hbody]

end FolkCore.Bridge
