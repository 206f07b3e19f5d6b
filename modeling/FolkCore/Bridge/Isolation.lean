import FolkCore.Bridge.Session
import FolkCore.Bridge.Parts

/-!
# One request at a time

The per-request fields of a worker state are set together by the two receives and
reset together by the finalisers. `Isolated` is the invariant that ties them: a
state is clean, or it serves the task right before the waiting ones and what it
has not read yet is the end of that task's body.
-/

namespace FolkCore.Bridge

/-- The bytes of a body that may be absent. -/
def bodyBytes (body : Option RequestBody) : Bytes := (body.map RequestBody.bytes).getD []

/-- The first body is what is left of the second after some receives. -/
def RestOf : Option RequestBody → Option RequestBody → Prop
  | none, none => True
  | some (.raw rest), some (.raw chunks) => rest <:+ chunks
  | some (.parts rest), some (.parts items) => rest <:+ items
  | _, _ => False

namespace WorkerState

/-- The bytes of the current body that no call has returned or discarded. -/
def unread (st : WorkerState) : Bytes := st.currentBodyLeftover ++ bodyBytes st.currentBody

/-- The state has no request: every per-request field has its empty value. -/
structure Clean (st : WorkerState) : Prop where
  stream : st.currentStreamTx = none
  done : st.currentDoneTx = none
  id : st.currentRequestId = none
  body : st.currentBody = none
  leftover : st.currentBodyLeftover = []
  started : st.streamStarted = false

/-- The state has request `r`: both channels, its id and a rest of its body. -/
structure Serves (st : WorkerState) (r : TaskRequest) : Prop where
  stream : st.currentStreamTx = some r.streamTx
  done : st.currentDoneTx = some r.doneTx
  id : st.currentRequestId = some r.requestId
  body : RestOf st.currentBody r.requestBody
  unread : st.unread <:+ bodyBytes r.requestBody

end WorkerState

/-- The invariant of a thread that receives `tasks`: it is clean, or it serves the
last task that it received. -/
structure Isolated (tasks : List TaskRequest) (st : WorkerState) : Prop where
  queue : st.taskRx <:+ tasks
  current : st.Clean ∨ ∃ served r, tasks = served ++ r :: st.taskRx ∧ st.Serves r

variable {serde : SerdeJson} {tasks : List TaskRequest} {st : WorkerState}

@[simp] theorem bodyBytes_none : bodyBytes none = [] := rfl

@[simp] theorem bodyBytes_raw (chunks : List Bytes) :
    bodyBytes (some (.raw chunks)) = chunks.flatten := rfl

@[simp] theorem bodyBytes_parts (items : List RequestPart) :
    bodyBytes (some (.parts items)) = items.flatMap RequestPart.bytes := rfl

theorem RestOf.refl (body : Option RequestBody) : RestOf body body := by
  cases body with
  | none => trivial
  | some body => cases body <;> exact List.suffix_refl _

theorem RestOf.trans {first second third : Option RequestBody} (h : RestOf first second)
    (h' : RestOf second third) : RestOf first third := by
  match first, second, third, h, h' with
  | none, none, none, _, _ => trivial
  | some (.raw _), some (.raw _), some (.raw _), h, h' => exact List.IsSuffix.trans h h'
  | some (.parts _), some (.parts _), some (.parts _), h, h' => exact List.IsSuffix.trans h h'

/-- What is left of a multipart body belongs to a multipart body. -/
theorem RestOf.of_parts {rest : List RequestPart} {body : Option RequestBody}
    (h : RestOf (some (.parts rest)) body) :
    ∃ items, body = some (.parts items) ∧ rest <:+ items := by
  match body, h with
  | some (.parts items), h => exact ⟨items, rfl, h⟩

theorem WorkerState.clear_clean (st : WorkerState) : st.clear.Clean :=
  ⟨rfl, rfl, rfl, rfl, rfl, rfl⟩

theorem WorkerState.accept_serves (st : WorkerState) (r : TaskRequest)
    (rest : List TaskRequest) : (st.accept r rest).Serves r :=
  ⟨rfl, rfl, rfl, RestOf.refl _, List.suffix_refl _⟩

theorem WorkerState.Clean.unread (h : st.Clean) : st.unread = [] := by
  simp [WorkerState.unread, h.leftover, h.body]

/-! ## What a body call takes from the unread bytes -/

section Unread

variable (st)

theorem splitLeftover_unread (length : Nat) :
    (splitLeftover length st).1 ++ (splitLeftover length st).2.unread = st.unread := by
  simp only [splitLeftover, WorkerState.unread, ← List.append_assoc, List.take_append_drop]

theorem doRead_unread (length : Nat) :
    (doRead length st).1 ++ (doRead length st).2.unread = st.unread := by
  unfold doRead
  split
  · rename_i hempty
    have hnil : st.currentBodyLeftover = [] := List.isEmpty_iff.mp hempty
    split
    · rename_i chunk rest hbody
      rw [splitLeftover_unread]
      simp [WorkerState.unread, hbody, hnil]
    · rfl
  · exact splitLeftover_unread st length

theorem doReadAll_unread : (doReadAll st).1 ++ (doReadAll st).2.unread = st.unread := by
  unfold doReadAll
  split
  · rename_i chunks hbody
    simp [WorkerState.unread, hbody]
  · simp [WorkerState.unread]

theorem collectPart_bytes (items : List RequestPart) :
    (collectPart items).1 ++ (collectPart items).2.2.flatMap RequestPart.bytes =
      items.flatMap RequestPart.bytes := by
  induction items with
  | nil => rfl
  | cons item rest ih =>
      cases item with
      | start header => rfl
      | data chunk => simp [collectPart, RequestPart.bytes, ← ih]
      | partEnd => rfl

theorem doPartRead_unread (length : Nat) :
    (doPartRead length st).1 ++ (doPartRead length st).2.unread = st.unread := by
  unfold doPartRead
  split
  · rfl
  · split
    · rename_i hempty
      have hnil : st.currentBodyLeftover = [] := List.isEmpty_iff.mp hempty
      split
      · rename_i items hbody
        split
        · rw [splitLeftover_unread]
          simp [WorkerState.unread, hbody, hnil, RequestPart.bytes]
        · simp [WorkerState.unread, hbody, hnil, RequestPart.bytes]
        · rename_i hdata hend
          cases items with
          | nil => simp [WorkerState.unread, hbody, hnil]
          | cons item rest =>
              cases item with
              | start header => simp [WorkerState.unread, hbody, hnil, RequestPart.bytes]
              | data chunk => exact absurd rfl (hdata chunk rest)
              | partEnd => exact absurd rfl (hend rest)
      · rfl
    · exact splitLeftover_unread st length

theorem doPartReadAll_unread :
    (doPartReadAll st).1 ++ (doPartReadAll st).2.unread = st.unread := by
  unfold doPartReadAll
  split
  · rfl
  · split
    · rename_i items hbody
      simp [WorkerState.unread, hbody, ← collectPart_bytes items]
    · simp [WorkerState.unread]

/-- A header is received from an empty buffer. -/
theorem readHeader_unread (items : List RequestPart) (hempty : st.currentBodyLeftover = []) :
    (readHeader serde items st).2.unread <:+ items.flatMap RequestPart.bytes := by
  cases items with
  | nil => simp [readHeader, WorkerState.unread, hempty]
  | cons item rest =>
      cases item with
      | start header =>
          simp [readHeader, WorkerState.unread, hempty, RequestPart.bytes]
      | data chunk =>
          simp [readHeader, WorkerState.unread, hempty, RequestPart.bytes]
      | partEnd =>
          simp [readHeader, WorkerState.unread, hempty, RequestPart.bytes]

/-- A step forward on the multipart stream only discards bytes. -/
theorem doNextPart_unread : (doNextPart serde st).2.unread <:+ st.unread := by
  cases hbody : st.currentBody with
  | none => simp [doNextPart, hbody]
  | some body =>
      cases body with
      | raw chunks => simp [doNextPart, hbody]
      | parts items =>
          have hall : items.flatMap RequestPart.bytes <:+ st.unread := by
            simp [WorkerState.unread, hbody]
          have hrest : (collectPart items).2.2.flatMap RequestPart.bytes <:+ st.unread := by
            refine List.IsSuffix.trans ?_ hall
            exact ⟨_, collectPart_bytes items⟩
          unfold doNextPart
          simp only [hbody]
          split
          · exact List.suffix_refl _
          · rw [drainPart_eq]
            rcases collectPart_state items with hend | hend
            · simp only [hend, decide_true]
              exact (readHeader_unread _ _ rfl).trans hrest
            · simp only [hend, reduceCtorEq, decide_false]
              simpa [WorkerState.unread] using hrest
          · exact (readHeader_unread _ _ rfl).trans hall

end Unread

/-! ## What a body call takes from the channel -/

section Rest

variable (st)

theorem doRead_rest (length : Nat) :
    RestOf (doRead length st).2.currentBody st.currentBody := by
  unfold doRead
  split
  · split
    · rename_i chunk rest hbody
      rw [hbody]
      exact List.suffix_cons chunk rest
    · exact RestOf.refl _
  · exact RestOf.refl _

theorem doReadAll_rest : RestOf (doReadAll st).2.currentBody st.currentBody := by
  unfold doReadAll
  split
  · rename_i chunks hbody
    rw [hbody]
    exact List.nil_suffix
  · exact RestOf.refl _

theorem doPartRead_rest (length : Nat) :
    RestOf (doPartRead length st).2.currentBody st.currentBody := by
  unfold doPartRead
  split
  · exact RestOf.refl _
  · split
    · split
      · rename_i items hbody
        rw [hbody]
        split
        · exact List.suffix_cons _ _
        · exact List.suffix_cons _ _
        · exact List.tail_suffix items
      · exact RestOf.refl _
    · exact RestOf.refl _

theorem collectPart_suffix (items : List RequestPart) : (collectPart items).2.2 <:+ items := by
  induction items with
  | nil => exact List.suffix_refl _
  | cons item rest ih =>
      cases item with
      | start header => exact List.suffix_cons _ _
      | data chunk => exact ih.trans (List.suffix_cons _ _)
      | partEnd => exact List.suffix_cons _ _

theorem doPartReadAll_rest : RestOf (doPartReadAll st).2.currentBody st.currentBody := by
  unfold doPartReadAll
  split
  · exact RestOf.refl _
  · split
    · rename_i items hbody
      rw [hbody]
      exact collectPart_suffix items
    · exact RestOf.refl _

variable (serde) in
/-- The header that is received is a `start` of the items, and the rest of them stays. -/
theorem readHeader_rest (items : List RequestPart) :
    RestOf (readHeader serde items st).2.currentBody (some (.parts items)) ∧
      ∀ text, (readHeader serde items st).1 = some text →
        ∃ header, .start header ∈ items ∧ text = serde.toText header.toValue := by
  unfold readHeader
  split
  · rename_i header rest
    refine ⟨List.suffix_cons _ _, fun text htext => ⟨header, by simp, ?_⟩⟩
    exact (Option.some.inj htext).symm
  · exact ⟨List.tail_suffix items, nofun⟩

theorem doNextPart_rest :
    RestOf (doNextPart serde st).2.currentBody st.currentBody ∧
      ∀ text, (doNextPart serde st).1 = some text →
        ∃ items header, st.currentBody = some (.parts items) ∧ .start header ∈ items ∧
          text = serde.toText header.toValue := by
  unfold doNextPart
  split
  · rename_i items hbody
    rw [hbody]
    have received {rest : List RequestPart} (hrest : rest <:+ items) (st' : WorkerState) :
        RestOf (readHeader serde rest st').2.currentBody (some (.parts items)) ∧
          ∀ text, (readHeader serde rest st').1 = some text →
            ∃ items' header, some (RequestBody.parts items) = some (.parts items') ∧
              .start header ∈ items' ∧ text = serde.toText header.toValue := by
      obtain ⟨hbody', hheader⟩ := readHeader_rest serde st' rest
      refine ⟨hbody'.trans hrest, fun text htext => ?_⟩
      obtain ⟨header, hmem, htext⟩ := hheader text htext
      exact ⟨items, header, rfl, hrest.subset hmem, htext⟩
    split
    · rw [hbody]
      exact ⟨RestOf.refl _, nofun⟩
    · split
      · rename_i rest hdrain
        obtain rfl : (collectPart items).2.2 = rest := by
          simpa [drainPart_eq] using congrArg Prod.snd hdrain
        exact received (collectPart_suffix items) _
      · rename_i rest hdrain
        obtain rfl : (collectPart items).2.2 = rest := by
          simpa [drainPart_eq] using congrArg Prod.snd hdrain
        exact ⟨collectPart_suffix items, nofun⟩
    · exact received (List.suffix_refl _) _
  · exact ⟨RestOf.refl _, nofun⟩

end Rest

/-! ## Steps and runs -/

/-- What a step that neither receives nor finalises leaves of the state: a rest of
the body, and the whole session when there is no request. -/
structure Remains (st st' : WorkerState) : Prop where
  session : st.currentStreamTx = none → st'.session = st.session
  body : RestOf st'.currentBody st.currentBody
  unread : st'.unread <:+ st.unread

theorem Remains.refl (st : WorkerState) : Remains st st :=
  ⟨fun _ => rfl, RestOf.refl _, List.suffix_refl _⟩

/-- A response call that keeps the body acts on a current request. -/
theorem Remains.of_request {st' : WorkerState} {tx : StreamTx}
    (hstream : st.currentStreamTx = some tx) (hbody : st'.currentBody = st.currentBody)
    (hleftover : st'.currentBodyLeftover = st.currentBodyLeftover) : Remains st st' := by
  refine ⟨fun hnone => absurd (hnone.symm.trans hstream) nofun, ?_, ?_⟩
  · rw [hbody]
    exact RestOf.refl _
  · rw [WorkerState.unread, hbody, hleftover]
    exact List.suffix_refl _

/-- A step receives a task, finalises, or leaves what `Remains` says. -/
theorem outcome_remains (serde : SerdeJson) (st : WorkerState) (s : Step) :
    (∃ r rest, st.taskRx = r :: rest ∧ (s.outcome serde st).state = st.accept r rest) ∨
      (s.outcome serde st).state = st.clear ∨ Remains st (s.outcome serde st).state := by
  have reading {b : Bytes} {st' : WorkerState} (hsession : st'.session = st.session)
      (hbody : RestOf st'.currentBody st.currentBody) (h : b ++ st'.unread = st.unread) :
      Remains st st' := ⟨fun _ => hsession, hbody, ⟨b, h⟩⟩
  cases s with
  | loopRecv =>
      cases hq : st.taskRx with
      | nil =>
          simp only [Step.outcome, loopRecv, Outcome.map, hq]
          exact .inr (.inr (.refl st))
      | cons r rest =>
          simp only [Step.outcome, loopRecv, Outcome.map, hq]
          exact .inl ⟨r, rest, rfl, rfl⟩
  | loopFinish result => exact .inr (.inl rfl)
  | call c =>
      cases c with
      | recv =>
          cases hq : st.taskRx with
          | nil =>
              simp only [Step.outcome, Call.outcome, doRecv, Outcome.map, hq]
              exact .inr (.inr (.refl st))
          | cons r rest =>
              simp only [Step.outcome, Call.outcome, doRecv, Outcome.map, hq]
              exact .inl ⟨r, rest, rfl, rfl⟩
      | send data =>
          simp only [Step.outcome, Call.outcome, doSend, Outcome.map]
          split
          · exact .inr (.inr (.refl st))
          · rename_i hstream
            split
            · exact .inr (.inr (.of_request hstream rfl rfl))
            · split <;> exact .inr (.inl rfl)
      | sendError message => exact .inr (.inl rfl)
      | writeHead accepted status headers =>
          simp only [Step.outcome, Call.outcome, doWriteHead, Outcome.map]
          split
          · exact .inr (.inr (.refl st))
          · rename_i hstream
            split <;> exact .inr (.inr (.of_request hstream rfl rfl))
      | write accepted data =>
          simp only [Step.outcome, Call.outcome, doWrite, Outcome.map]
          split
          · exact .inr (.inr (.refl st))
          · split <;> exact .inr (.inr (.refl st))
      | writeEnd =>
          simp only [Step.outcome, Call.outcome, doWriteEnd, Outcome.map]
          split
          · exact .inr (.inr (.refl st))
          · rename_i hstream
            split
            · exact .inr (.inr (.of_request hstream rfl rfl))
            · exact .inr (.inl rfl)
      | read length =>
          exact .inr (.inr (reading (doRead_frame st length).session (doRead_rest st length)
            (doRead_unread st length)))
      | readAll =>
          exact .inr (.inr (reading (doReadAll_frame st).session (doReadAll_rest st)
            (doReadAll_unread st)))
      | nextPart =>
          exact .inr (.inr ⟨fun _ => (doNextPart_frame serde st).session, (doNextPart_rest st).1,
            doNextPart_unread st⟩)
      | partRead length =>
          exact .inr (.inr (reading (doPartRead_frame st length).session (doPartRead_rest st length)
            (doPartRead_unread st length)))
      | partReadAll =>
          exact .inr (.inr (reading (doPartReadAll_frame st).session (doPartReadAll_rest st)
            (doPartReadAll_unread st)))

/-- What remains of a clean state is clean. -/
theorem WorkerState.Clean.remains (h : st.Clean) {st' : WorkerState}
    (hremains : Remains st st') : st'.Clean ∧ st'.taskRx = st.taskRx := by
  have hsession := hremains.session h.stream
  simp only [session, Session.mk.injEq] at hsession
  obtain ⟨hqueue, hstream, hdone, hid, hstarted⟩ := hsession
  have hunread : st'.unread = [] := by
    apply List.suffix_nil.mp
    exact h.unread ▸ hremains.unread
  have hbody := hremains.body
  rw [h.body] at hbody
  refine ⟨⟨hstream.trans h.stream, hdone.trans h.done, hid.trans h.id, ?_,
    (List.append_eq_nil_iff.mp hunread).1, hstarted.trans h.started⟩, hqueue⟩
  cases hnow : st'.currentBody with
  | none => rfl
  | some body => simp [hnow, RestOf] at hbody

variable (serde) in
/-- A clean state stays clean or takes over the next task. -/
theorem WorkerState.Clean.step (h : st.Clean) (s : Step) :
    ((s.outcome serde st).state.Clean ∧ (s.outcome serde st).state.taskRx = st.taskRx) ∨
      ∃ r rest, st.taskRx = r :: rest ∧ (s.outcome serde st).state = st.accept r rest := by
  rcases outcome_remains serde st s with haccept | hclear | hremains
  · exact .inr haccept
  · rw [hclear]
    exact .inl ⟨st.clear_clean, rfl⟩
  · exact .inl (h.remains hremains)

variable (serde) in
/-- A state that serves `r` goes on with it, forgets it, or takes over the next task. -/
theorem WorkerState.Serves.step {r : TaskRequest} (h : st.Serves r) (s : Step) :
    ((s.outcome serde st).state.Serves r ∧ (s.outcome serde st).state.taskRx = st.taskRx) ∨
      ((s.outcome serde st).state.Clean ∧ (s.outcome serde st).state.taskRx = st.taskRx) ∨
      ∃ r' rest, st.taskRx = r' :: rest ∧ (s.outcome serde st).state = st.accept r' rest := by
  have hcases := outcome_remains serde st s
  have move := busy_move serde h.stream h.done s
  generalize s.outcome serde st = o at hcases move ⊢
  cases move with
  | quiet _ _ _ _ hstate =>
      rcases hcases with haccept | hclear | hremains
      · exact .inr (.inr haccept)
      · rw [hclear]
        exact .inr (.inl ⟨st.clear_clean, rfl⟩)
      · simp only [session, Session.mk.injEq] at hstate
        obtain ⟨hqueue, hstream, hdone, hid, _⟩ := hstate
        refine .inl ⟨⟨hstream.trans h.stream, hdone.trans h.done, hid.trans h.id, ?_, ?_⟩,
          hqueue⟩
        · exact hremains.body.trans h.body
        · exact hremains.unread.trans h.unread
  | head _ _ hstate =>
      rw [hstate]
      exact .inl ⟨⟨h.stream, h.done, h.id, h.body, h.unread⟩, rfl⟩
  | body _ _ hstate =>
      rw [hstate]
      exact .inl ⟨h, rfl⟩
  | finish _ _ _ hstate =>
      rw [hstate]
      exact .inr (.inl ⟨st.clear_clean, rfl⟩)
  | replace r' rest _ hq _ hstate => exact .inr (.inr ⟨r', rest, hq, hstate⟩)

theorem Isolated.start (workerId : UInt32) : Isolated tasks (initWorkerState workerId tasks) where
  queue := List.suffix_refl _
  current := .inl ⟨rfl, rfl, rfl, rfl, rfl, rfl⟩

/-- Taking over the next task, from any state. -/
theorem Isolated.accept (hqueue : st.taskRx <:+ tasks) {r : TaskRequest}
    {rest : List TaskRequest} (hq : st.taskRx = r :: rest) : Isolated tasks (st.accept r rest) := by
  rw [hq] at hqueue
  obtain ⟨served, hserved⟩ := hqueue
  refine ⟨⟨served ++ [r], by simpa using hserved⟩, .inr ⟨served, r, hserved.symm, ?_⟩⟩
  exact st.accept_serves r rest

variable (serde) in
theorem Isolated.step (h : Isolated tasks st) (s : Step) :
    Isolated tasks (s.outcome serde st).state := by
  have clean {st' : WorkerState} (hclean : st'.Clean) (hqueue : st'.taskRx = st.taskRx) :
      Isolated tasks st' := ⟨hqueue ▸ h.queue, .inl hclean⟩
  rcases h.current with hclean | ⟨served, r, htasks, hserves⟩
  · rcases hclean.step serde s with ⟨hclean', hqueue⟩ | ⟨r, rest, hq, hstate⟩
    · exact clean hclean' hqueue
    · rw [hstate]
      exact .accept h.queue hq
  · rcases hserves.step serde s with
      ⟨hserves', hqueue⟩ | ⟨hclean, hqueue⟩ | ⟨r', rest, hq, hstate⟩
    · exact ⟨hqueue ▸ h.queue, .inr ⟨served, r, hqueue ▸ htasks, hserves'⟩⟩
    · exact clean hclean hqueue
    · rw [hstate]
      exact .accept h.queue hq

variable (serde) in
theorem Isolated.run (h : Isolated tasks st) (steps : List Step) :
    Isolated tasks (Bridge.run serde steps st).state := by
  induction steps generalizing st with
  | nil => exact h
  | cons s rest ih => exact ih (h.step serde s)

/-- A call that answers with bytes takes them off the front of the unread ones. -/
theorem reply_unread {c : Call} {b : Bytes} (h : (c.outcome serde st).reply = .bytes b) :
    b ++ (c.outcome serde st).state.unread = st.unread := by
  cases c with
  | read length =>
      cases h
      exact doRead_unread st length
  | readAll =>
      cases h
      exact doReadAll_unread st
  | partRead length =>
      cases h
      exact doPartRead_unread st length
  | partReadAll =>
      cases h
      exact doPartReadAll_unread st
  | _ => cases h

/-- A header that a call answers with stands on the multipart stream. -/
theorem reply_header {c : Call} {text : String}
    (h : (c.outcome serde st).reply = .part (some text)) :
    ∃ items header, st.currentBody = some (.parts items) ∧ .start header ∈ items ∧
      text = serde.toText header.toValue := by
  cases c with
  | nextPart => exact (doNextPart_rest st).2 text (Reply.part.inj h)
  | _ => cases h

/-- When the two senders are there together, a failed call leaves the state alone,
raises the streaming flag, or has finalised the request as a whole. -/
theorem error_state (htogether : st.currentStreamTx.isSome = st.currentDoneTx.isSome)
    {c : Call} {e : String} (h : (c.outcome serde st).reply = .unit (.error e)) :
    e ≠ "no pending done channel" ∧
      ((c.outcome serde st).state = st ∨
        (c.outcome serde st).state = { st with streamStarted := true } ∨
        (c.outcome serde st).state = st.clear) := by
  cases c with
  | send data =>
      simp only [Call.outcome, doSend, Outcome.map] at h ⊢
      split at h
      · cases h
        exact ⟨by decide, .inl rfl⟩
      · rename_i tx hstream
        split at h
        · rename_i hdone
          rw [hstream, hdone] at htogether
          cases htogether
        · split at h
          · cases h
            exact ⟨by decide, .inr (.inr rfl)⟩
          · cases h
  | writeHead accepted status headers =>
      simp only [Call.outcome, doWriteHead, Outcome.map] at h ⊢
      split at h
      · cases h
        exact ⟨by decide, .inl rfl⟩
      · split at h
        · rename_i hstarted
          cases h
          rw [if_pos hstarted]
          exact ⟨by decide, .inl rfl⟩
        · rename_i hstarted
          rw [if_neg hstarted]
          cases accepted <;> cases h
          exact ⟨by decide, .inr (.inl rfl)⟩
  | write accepted data =>
      simp only [Call.outcome, doWrite, Outcome.map] at h ⊢
      split at h
      · cases h
        exact ⟨by decide, .inl rfl⟩
      · split at h
        · cases h
        · rename_i hdata
          rw [if_neg hdata]
          cases accepted <;> cases h
          exact ⟨by decide, .inl rfl⟩
  | writeEnd =>
      simp only [Call.outcome, doWriteEnd, Outcome.map] at h ⊢
      split at h
      · cases h
        exact ⟨by decide, .inl rfl⟩
      · rename_i tx hstream
        split at h
        · rename_i hdone
          rw [hstream, hdone] at htogether
          cases htogether
        · cases h
  | _ => cases h

/-- The senders of an isolated state are there together. -/
theorem Isolated.together (h : Isolated tasks st) :
    st.currentStreamTx.isSome = st.currentDoneTx.isSome ∧
      st.currentDoneTx.isSome = st.currentRequestId.isSome := by
  rcases h.current with hclean | ⟨served, r, htasks, hserves⟩
  · rw [hclean.stream, hclean.done, hclean.id]
    exact ⟨rfl, rfl⟩
  · rw [hserves.stream, hserves.done, hserves.id]
    exact ⟨rfl, rfl⟩

theorem Isolated.clean_of_none (h : Isolated tasks st) (hnone : st.currentStreamTx = none) :
    st.Clean := by
  rcases h.current with hclean | ⟨served, r, htasks, hserves⟩
  · exact hclean
  · exact absurd (hnone.symm.trans hserves.stream) nofun

/-- After every sequence of bridge calls and loop iterations over any tasks: the two
senders and the request id are there together or not at all, without them every
per-request field is empty, no call finds the state half taken, and the bytes and
headers a body call returns are those of the task received last, whose id is the
current one. The bytes come off the front of what is unread of that body. -/
theorem request_fields_move_together (serde : SerdeJson) (workerId : UInt32)
    (tasks : List TaskRequest) (steps : List Step) :
    let st := (run serde steps (initWorkerState workerId tasks)).state
    (st.currentStreamTx.isSome = st.currentDoneTx.isSome ∧
      st.currentDoneTx.isSome = st.currentRequestId.isSome) ∧
    (st.currentRequestId = none →
      st.currentBody = none ∧ st.currentBodyLeftover = [] ∧ st.streamStarted = false) ∧
    (∀ (c : Call) (e : String), (c.outcome serde st).reply = .unit (.error e) →
      e ≠ "no pending done channel" ∧
        ((c.outcome serde st).state = st ∨
          (c.outcome serde st).state = { st with streamStarted := true } ∨
          (c.outcome serde st).state = st.clear)) ∧
    (∀ (c : Call) (b : Bytes), (c.outcome serde st).reply = .bytes b → b ≠ [] →
      ∃ served r, tasks = served ++ r :: st.taskRx ∧
        st.currentRequestId = some r.requestId ∧
        b ++ (c.outcome serde st).state.unread <:+ bodyBytes r.requestBody) ∧
    (∀ (c : Call) (text : String), (c.outcome serde st).reply = .part (some text) →
      ∃ served r items header, tasks = served ++ r :: st.taskRx ∧
        st.currentRequestId = some r.requestId ∧ r.requestBody = some (.parts items) ∧
        .start header ∈ items ∧ text = serde.toText header.toValue) := by
  intro st
  have h : Isolated tasks st := (Isolated.start workerId).run serde steps
  refine ⟨h.together, ?_, fun c e => error_state h.together.1, ?_, ?_⟩
  · intro hnone
    have hstream : st.currentStreamTx = none := by
      have htogether := h.together.1.trans h.together.2
      simpa [hnone] using htogether
    have hclean := h.clean_of_none hstream
    exact ⟨hclean.body, hclean.leftover, hclean.started⟩
  · intro c b hreply hne
    have hunread := reply_unread hreply
    rcases h.current with hclean | ⟨served, r, htasks, hserves⟩
    · rw [hclean.unread] at hunread
      exact absurd (List.append_eq_nil_iff.mp hunread).1 hne
    · refine ⟨served, r, htasks, hserves.id, ?_⟩
      rw [hunread]
      exact hserves.unread
  · intro c text hreply
    obtain ⟨rest, header, hbody, hmem, htext⟩ := reply_header hreply
    rcases h.current with hclean | ⟨served, r, htasks, hserves⟩
    · exact absurd (hclean.body.symm.trans hbody) nofun
    · obtain ⟨items, hitems, hsuffix⟩ := (hbody ▸ hserves.body).of_parts
      exact ⟨served, r, items, header, htasks, hserves.id, hitems, hsuffix.subset hmem, htext⟩

end FolkCore.Bridge
