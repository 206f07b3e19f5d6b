import FolkCore.Ext.Teardown

/-!
# The clients of the request bodies

The body of a request comes through a channel whose sender its client holds, inside of the
runtime or outside. A body call of a worker thread stands in `blocking_recv` until the client
sends the next item or drops the sender. `Attended` is the pool, also while the runtime is
dropped, together with the clients: the items of a body are those that its client sends before
it drops the sender, and a thread gets them no sooner. What a thread can wait for is then a
caller, a client or a supervisor.
-/

namespace FolkCore

/-- The body after the receive of `n` items. -/
def RequestBody.drop (n : Nat) : RequestBody → RequestBody
  | .raw chunks => .raw (chunks.drop n)
  | .parts items => .parts (items.drop n)

@[simp] theorem RequestBody.drop_zero (body : RequestBody) : body.drop 0 = body := by
  cases body <;> rfl

end FolkCore

namespace FolkCore.Bridge

/-- The items that a body still delivers. -/
def itemsLeft : Option RequestBody → Nat
  | some (.raw chunks) => chunks.length
  | some (.parts items) => items.length
  | none => 0

/-- The receives of a loop that takes the data of a part, up to the first other item or the
close. -/
def partReceives : List RequestPart → Nat
  | .data _ :: rest => partReceives rest + 1
  | _ => 1

/-- How often a call receives from the channel of the body. -/
def Call.bodyReceives (st : WorkerState) : Call → Nat
  | .read _ =>
      match st.currentBody with
      | some (.raw _) => if st.currentBodyLeftover.isEmpty then 1 else 0
      | _ => 0
  | .readAll =>
      match st.currentBody with
      | some (.raw chunks) => chunks.length + 1
      | _ => 0
  | .nextPart =>
      match st.currentBody with
      | some (.parts items) =>
          match st.currentPartState with
          | .done => 0
          | .inPart =>
              if (drainPart items).1 then partReceives items + 1 else partReceives items
          | _ => 1
      | _ => 0
  | .partRead _ =>
      match st.currentBody with
      | some (.parts _) =>
          if st.currentPartState = .inPart ∧ st.currentBodyLeftover.isEmpty then 1 else 0
      | _ => 0
  | .partReadAll =>
      match st.currentBody with
      | some (.parts items) => if st.currentPartState = .inPart then partReceives items else 0
      | _ => 0
  | _ => 0

def Step.bodyReceives (st : WorkerState) : Step → Nat
  | .call c => c.bodyReceives st
  | _ => 0

variable {serde : SerdeJson} {st : WorkerState}

@[simp] theorem itemsLeft_drop (body : Option RequestBody) (n : Nat) :
    itemsLeft (body.map (RequestBody.drop n)) = itemsLeft body - n := by
  cases body with
  | none => simp [itemsLeft]
  | some body => cases body <;> simp [itemsLeft, RequestBody.drop]

theorem map_drop_zero (body : Option RequestBody) : body.map (RequestBody.drop 0) = body := by
  cases body <;> simp

/-- Both loops over the data of a part leave what they have not received. -/
theorem part_rest (items : List RequestPart) :
    (drainPart items).2 = items.drop (partReceives items) ∧
      (collectPart items).2.2 = items.drop (partReceives items) := by
  induction items with
  | nil => exact ⟨rfl, rfl⟩
  | cons item rest ih =>
      cases item with
      | data chunk => exact ih
      | start | partEnd => exact ⟨rfl, rfl⟩

theorem readHeader_body (items : List RequestPart) :
    (readHeader serde items st).2.currentBody = some (.parts (items.drop 1)) := by
  unfold readHeader
  split
  · rfl
  · rw [List.drop_one]

theorem doNextPart_body : (doNextPart serde st).2.currentBody =
    st.currentBody.map (RequestBody.drop (Call.nextPart.bodyReceives st)) := by
  unfold doNextPart Call.bodyReceives
  cases hbody : st.currentBody with
  | none => simp [hbody]
  | some body =>
      cases body with
      | raw chunks => simp [hbody]
      | parts items =>
          obtain ⟨hrest, -⟩ := part_rest items
          cases hpart : st.currentPartState with
          | done => simp [hbody]
          | beforeFirst | partEnded => simp [readHeader_body, RequestBody.drop]
          | inPart =>
              simp only [Option.map_some]
              rcases hdrain : drainPart items with ⟨ended, rest⟩
              rw [hdrain] at hrest
              cases ended with
              | true => simp [readHeader_body, show rest = _ from hrest, RequestBody.drop]
              | false => simp [show rest = _ from hrest, RequestBody.drop]

theorem doRead_body (length : Nat) : (doRead length st).2.currentBody =
    st.currentBody.map (RequestBody.drop ((Call.read length).bodyReceives st)) := by
  unfold doRead Call.bodyReceives splitLeftover
  cases hbody : st.currentBody with
  | none => by_cases hempty : st.currentBodyLeftover.isEmpty = true <;> simp [hempty, hbody]
  | some body =>
      by_cases hempty : st.currentBodyLeftover.isEmpty = true
      · cases body with
        | raw chunks => cases chunks <;> simp [hempty, hbody, RequestBody.drop]
        | parts items => simp [hempty, hbody]
      · cases body <;> simp [hempty]

theorem doReadAll_body : (doReadAll st).2.currentBody =
    st.currentBody.map (RequestBody.drop (Call.readAll.bodyReceives st)) := by
  unfold doReadAll Call.bodyReceives
  cases st.currentBody with
  | none => simp
  | some body => cases body <;> simp [RequestBody.drop]

theorem doPartRead_body (length : Nat) : (doPartRead length st).2.currentBody =
    st.currentBody.map (RequestBody.drop ((Call.partRead length).bodyReceives st)) := by
  unfold doPartRead Call.bodyReceives splitLeftover
  by_cases hpart : st.currentPartState = .inPart
  · by_cases hempty : st.currentBodyLeftover.isEmpty = true
    · cases hbody : st.currentBody with
      | none => simp [hpart, hempty, hbody]
      | some body =>
          cases body with
          | raw chunks => simp [hpart, hempty, hbody]
          | parts items =>
              cases items with
              | nil => simp [hpart, hempty, RequestBody.drop]
              | cons item rest => cases item <;> simp [hpart, hempty, RequestBody.drop]
    · cases hbody : st.currentBody with
      | none => simp [hpart, hempty]
      | some body => cases body <;> simp [hpart, hempty]
  · cases hbody : st.currentBody with
    | none => simp [hpart, hbody]
    | some body => cases body <;> simp [hpart, hbody]

theorem doPartReadAll_body : (doPartReadAll st).2.currentBody =
    st.currentBody.map (RequestBody.drop (Call.partReadAll.bodyReceives st)) := by
  unfold doPartReadAll Call.bodyReceives
  cases hbody : st.currentBody with
  | none => by_cases hpart : st.currentPartState = .inPart <;> simp [hpart, hbody]
  | some body =>
      by_cases hpart : st.currentPartState = .inPart
      · cases body with
        | raw chunks => simp [hpart]
        | parts items => simp [hpart, part_rest, RequestBody.drop]
      · cases body <;> simp [hpart, hbody]

end FolkCore.Bridge

namespace FolkCore.Ext

open Bridge Function Lib Pool

variable {st : WorkerState}

/-- What a step does to the queue, the stream and the body of the current request: it forgets
the request, takes over the next one, or takes what it receives from the body. -/
inductive Consumes (st : WorkerState) (n : Nat) (st' : WorkerState) : Prop
  | cleared (hstate : st' = st.clear)
  | accepted {r : TaskRequest} {rest : List TaskRequest} (hqueue : st.taskRx = r :: rest)
      (hstate : st' = st.accept r rest)
  | received (hqueue : st'.taskRx = st.taskRx) (hstream : st'.currentStreamTx = st.currentStreamTx)
      (hbody : st'.currentBody = st.currentBody.map (RequestBody.drop n))

theorem Consumes.of_frame {st' : WorkerState} {n : Nat} (hframe : BodyFrame st st')
    (hbody : st'.currentBody = st.currentBody.map (RequestBody.drop n)) : Consumes st n st' := by
  have hsession := hframe.session
  simp only [WorkerState.session, Session.mk.injEq] at hsession
  exact .received hsession.1 hsession.2.1 hbody

theorem Consumes.same : Consumes st 0 st := .received rfl rfl (map_drop_zero _).symm

/-- A call that answers, or throws, and leaves the body alone. -/
theorem consumes_response (serde : SerdeJson) (hpaired : Paired st) {c : Call}
    (hnone : c.bodyReceives st = 0)
    (hstate : ∀ tx d, st.currentStreamTx = some tx → st.currentDoneTx = some d →
      (c.outcome serde st).state = st.clear ∨ (c.outcome serde st).state = st ∨
        (c.outcome serde st).state = { st with streamStarted := true })
    (hidle : st.currentStreamTx = none → (c.outcome serde st).state = st) :
    Consumes st (c.bodyReceives st) (c.outcome serde st).state := by
  rw [hnone]
  rcases hpaired with hnone | ⟨tx, d, htx, hd⟩
  · rw [hidle hnone.1]
    exact .same
  · rcases hstate tx d htx hd with heq | heq | heq
    · exact .cleared heq
    · rw [heq]
      exact .same
    · rw [heq]
      exact .received rfl rfl (map_drop_zero _).symm

theorem step_consumes (serde : SerdeJson) (hpaired : Paired st) (s : Step) :
    Consumes st (s.bodyReceives st) (s.outcome serde st).state := by
  cases s with
  | loopRecv =>
      cases hqueue : st.taskRx with
      | nil =>
          rw [show (Step.loopRecv.outcome serde st).state = st by
            simp [Step.outcome, loopRecv, Outcome.map, hqueue]]
          exact .same
      | cons r rest =>
          exact .accepted hqueue (congrArg Outcome.state (loopRecv_outcome serde hqueue))
  | loopFinish result => exact .cleared rfl
  | call c =>
      cases c with
      | recv =>
          cases hqueue : st.taskRx with
          | nil =>
              rw [show ((Step.call .recv).outcome serde st).state = st by
                simp [Step.outcome, Call.outcome, doRecv, Outcome.map, hqueue]]
              exact .same
          | cons r rest =>
              exact .accepted hqueue (congrArg Outcome.state (recv_outcome serde hqueue))
      | send data =>
          refine consumes_response serde (c := .send data) hpaired rfl
            (fun tx d htx hd => .inl ?_) fun hnone => ?_
          · cases hparse : serde.fromSlice data <;>
              simp [Call.outcome, Outcome.map, doSend, htx, hd, hparse]
          · simp [Call.outcome, Outcome.map, doSend, hnone]
      | sendError message => exact .cleared rfl
      | writeHead accepted status headers =>
          refine consumes_response serde (c := .writeHead accepted status headers) hpaired rfl
            (fun tx d htx _ => .inr ?_) fun hnone => ?_
          · by_cases hstarted : st.streamStarted = true
            · exact .inl (by simp [Call.outcome, Outcome.map, doWriteHead, htx, hstarted])
            · exact .inr (by simp [Call.outcome, Outcome.map, doWriteHead, htx, hstarted])
          · simp [Call.outcome, Outcome.map, doWriteHead, hnone]
      | write accepted data =>
          refine consumes_response serde (c := .write accepted data) hpaired rfl
            (fun tx d htx _ => .inr (.inl ?_)) fun hnone => ?_
          · by_cases hempty : data.isEmpty = true <;>
              simp [Call.outcome, Outcome.map, doWrite, htx, hempty]
          · simp [Call.outcome, Outcome.map, doWrite, hnone]
      | writeEnd =>
          refine consumes_response serde (c := .writeEnd) hpaired rfl
            (fun tx d htx hd => .inl ?_) fun hnone => ?_
          · simp [Call.outcome, Outcome.map, doWriteEnd, htx, hd]
          · simp [Call.outcome, Outcome.map, doWriteEnd, hnone]
      | read length => exact .of_frame (doRead_frame st length) (doRead_body length)
      | readAll => exact .of_frame (doReadAll_frame st) doReadAll_body
      | nextPart => exact .of_frame (doNextPart_frame serde st) doNextPart_body
      | partRead length => exact .of_frame (doPartRead_frame st length) (doPartRead_body length)
      | partReadAll => exact .of_frame (doPartReadAll_frame st) doPartReadAll_body

/-- The client of a body: it holds the sender and is going to send so many items more, or it
has dropped the sender. -/
inductive BodyClient where
  | holding (unsent : Nat)
  | gone
  deriving DecidableEq, Repr

/-- The items that are still to be sent. -/
def BodyClient.unsent : BodyClient → Nat
  | .holding n => n
  | .gone => 0

/-- The items that wait in the channel of a body. -/
def itemsWaiting (client : BodyClient) (body : Option RequestBody) : Nat :=
  itemsLeft body - client.unsent

/-- The pool and the client of the body of each call. -/
structure Attended (serde : SerdeJson) where
  pool : State (extensionRuntime serde)
  clients : StreamTx → BodyClient

/-- A client sends an item or drops its sender, or the pool takes a step. -/
inductive AttendedAction (serde : SerdeJson) where
  | send (k : StreamTx)
  | drop (k : StreamTx)
  | pool (a : Ending (extensionRuntime serde))

/-- As many items wait as the call receives, or the client has dropped the sender. -/
def bodyReady (clients : StreamTx → BodyClient) (st : WorkerState) (c : Bridge.Step) : Prop :=
  ∀ k ∈ st.currentStreamTx, clients k = .gone ∨
    c.bodyReceives st ≤ itemsWaiting (clients k) st.currentBody

instance (clients : StreamTx → BodyClient) (st : WorkerState) (c : Bridge.Step) :
    Decidable (bodyReady clients st c) :=
  inferInstanceAs (Decidable (∀ k ∈ st.currentStreamTx, _))

namespace Attended

variable {serde : SerdeJson}

/-- Any clients, which may send before the call that takes the receiver. -/
def start (cfg : WorkersConfig) (clients : StreamTx → BodyClient) : Attended serde :=
  ⟨init (extensionRuntime serde) cfg, clients⟩

/-- A call comes with what its client sends, and a body call with what it waits for. -/
def ready (s : Attended serde) : Ending (extensionRuntime serde) → Bool
  | .task (.invoke inv) =>
      match inv.arguments serde with
      | .ok (_, _, _, body) => decide ((s.clients s.pool.callCount).unsent ≤ itemsLeft body)
      | .error _ => true
  | .task (.work w (.call c)) =>
      (s.pool.workers w).all fun h : ChannelWorker => decide (bodyReady s.clients h.state c)
  | _ => true

def step (serde : SerdeJson) (cfg : WorkersConfig) (s : Attended serde) :
    AttendedAction serde → Option (Attended serde)
  | .send k =>
      match s.clients k with
      | .holding (n + 1) => some { s with clients := update s.clients k (.holding n) }
      | _ => none
  | .drop k =>
      match s.clients k with
      | .holding 0 => some { s with clients := update s.clients k .gone }
      | _ => none
  | .pool a =>
      if s.ready a then
        (endingStep cfg serde s.pool a).map fun pool => { s with pool }
      else none

end Attended

variable {serde : SerdeJson} {cfg : WorkersConfig} {h h' : ChannelWorker} {w : Nat}
  {clients clients' : StreamTx → BodyClient}

/-- A thread has all items that are still to be sent before it. -/
structure Supplies (clients : StreamTx → BodyClient) (h : ChannelWorker) : Prop where
  queue : ∀ r ∈ h.state.taskRx, (clients r.streamTx).unsent ≤ itemsLeft r.requestBody
  current : ∀ k, h.state.currentStreamTx = some k →
    (clients k).unsent ≤ itemsLeft h.state.currentBody
  idle : h.state.currentStreamTx = none → h.state.currentBody = none

theorem Supplies.fewer (hh : Supplies clients h)
    (hfewer : ∀ k, (clients' k).unsent ≤ (clients k).unsent) : Supplies clients' h where
  queue r hr := (hfewer _).trans (hh.queue r hr)
  current k hk := (hfewer k).trans (hh.current k hk)
  idle := hh.idle

theorem Supplies.of_state (hh : Supplies clients h) (hstate : h'.state = h.state) :
    Supplies clients h' := by
  constructor
  · rw [hstate]
    exact hh.queue
  · rw [hstate]
    exact hh.current
  · rw [hstate]
    exact hh.idle

/-- The thread takes a step; a body call gets what it receives. -/
theorem Supplies.acted (hh : Supplies clients h) (hpaired : Paired h.state)
    {act : ChannelWorker.ThreadAct} {op : Option StreamOp}
    (hact : h.act serde act = some (h', op))
    (hready : ∀ c, act = .call c → bodyReady clients h.state c) : Supplies clients h' := by
  cases act_move hact with
  | boot => exact hh.of_state rfl
  | perform => exact hh.of_state (performEffect_state h _ _)
  | exit => exact ⟨nofun, nofun, fun _ => rfl⟩
  | ready =>
      have hsame : SameWork h.state (doReady h.state).state :=
        .of_session (doReady_session h.state)
      have hbody : (doReady h.state).state.currentBody = h.state.currentBody := by
        unfold doReady
        split <;> rfl
      refine ⟨?_, ?_, ?_⟩
      · simpa only [hsame.queue] using hh.queue
      · simpa only [hsame.stream, hbody] using hh.current
      · simpa only [hsame.stream, hbody] using hh.idle
  | @call c =>
      cases step_consumes serde hpaired c with
      | cleared hstate =>
          refine ⟨?_, ?_, ?_⟩
          · simpa only [hstate, WorkerState.clear_taskRx] using hh.queue
          · simp [hstate, WorkerState.clear]
          · simp [hstate, WorkerState.clear]
      | @accepted r rest hqueue hstate =>
          have hr := hh.queue
          rw [hqueue] at hr
          refine ⟨fun r' hr' => ?_, fun k hk => ?_, fun hnone => ?_⟩
          · apply hr r'
            simp only [hstate, WorkerState.accept_taskRx] at hr'
            exact List.mem_cons_of_mem _ hr'
          · simp only [hstate, WorkerState.accept, Option.some.injEq] at hk ⊢
            subst hk
            exact hr r List.mem_cons_self
          · simp [hstate, WorkerState.accept] at hnone
      | received hqueue hstream hbody =>
          refine ⟨?_, fun k hk => ?_, fun hnone => ?_⟩
          · simpa only [hqueue] using hh.queue
          · have hk' : h.state.currentStreamTx = some k := hstream.symm.trans hk
            have hleft : (clients k).unsent ≤
                itemsLeft h.state.currentBody - c.bodyReceives h.state := by
              rcases hready c rfl k hk' with hgone | hgot
              · rw [hgone]
                exact Nat.zero_le _
              · have hall := hh.current k hk'
                unfold itemsWaiting at hgot
                omega
            simpa only [hbody, itemsLeft_drop] using hleft
          · have hnone' : h.state.currentStreamTx = none := hstream.symm.trans hnone
            simp only [hbody, hh.idle hnone', Option.map_none]

/-- The invariant of the pool with its clients. -/
structure Attended.Supplied (cfg : WorkersConfig) (s : Attended serde) : Prop where
  threading : Threading cfg s.pool
  requests : Pool.Everywhere
    (fun req => (s.clients req.streamTx).unsent ≤ itemsLeft req.requestBody) s.pool
  threads : ∀ w (h : ChannelWorker), s.pool.workers w = some h → Supplies s.clients h

namespace Attended

variable {s t : Attended serde}

theorem Supplied.start (cfg : WorkersConfig) (clients : StreamTx → BodyClient) :
    Supplied cfg (.start cfg clients : Attended serde) where
  threading := .init cfg
  requests := .init _ _ cfg
  threads _ _ hw := by cases hw

/-- A client that sends or goes leaves fewer items to be sent. -/
theorem Supplied.client (hs : Supplied cfg s) {k : StreamTx} {client : BodyClient}
    (hfewer : client.unsent ≤ (s.clients k).unsent) :
    Supplied cfg { s with clients := update s.clients k client } := by
  have hall (j : StreamTx) : (update s.clients k client j).unsent ≤ (s.clients j).unsent := by
    by_cases hj : j = k
    · subst hj
      simpa using hfewer
    · rw [update_of_ne hj]
  refine ⟨hs.threading, ?_, fun w h hw => (hs.threads w h hw).fewer hall⟩
  have less (req : DispatchRequest) (hreq : (s.clients req.streamTx).unsent ≤
      itemsLeft req.requestBody) : (update s.clients k client req.streamTx).unsent ≤
      itemsLeft req.requestBody := (hall _).trans hreq
  exact ⟨fun j req hreq => less req (hs.requests.calls j req hreq),
    fun req hreq => less req (hs.requests.channel req hreq),
    fun req hreq => less req (hs.requests.main req hreq),
    fun i req hreq => less req (hs.requests.slots i req hreq)⟩

/-- The threads get their tasks from the supervisors as these have the requests. -/
theorem Supplied.threaded (hs : Supplied cfg s) {a : Action (extensionRuntime serde)}
    {pool : State (extensionRuntime serde)} (hready : s.ready (.task a) = true)
    (move : Pool.Move serde cfg s.pool a pool) (hw : pool.workers w = some h) :
    Supplies s.clients h := by
  obtain ⟨_, threaded⟩ := step_threaded move w .unborn
  cases threaded with
  | kept _ hsame => exact hs.threads w h (hsame ▸ hw)
  | released _ _ _ hold hw' hreleased =>
      cases hw'.symm.trans hw
      exact (hs.threads w _ hold).of_state (released_thread hreleased).1
  | born _ hfresh _ hw' =>
      cases hw'.symm.trans hw
      obtain ⟨_, hqueue, hidle, _⟩ := isFresh_empty hfresh
      have hbody := isFresh_body hfresh
      refine ⟨fun r hr => ?_, fun k hk => ?_, fun _ => hbody⟩
      · cases hqueue.symm ▸ hr
      · cases hidle.1.symm.trans hk
  | @called i since req old new kept ha hphase hi hslot hold hw' hcall _ =>
      cases hw'.symm.trans hw
      have hreq : (s.clients req.streamTx).unsent ≤ itemsLeft req.requestBody := by
        apply hs.requests.slots i
        simp [Slot.requests, Phase.requests, hphase]
      have hthread := hs.threads w _ hold
      rcases executeStreaming_cases hcall with ⟨rfl, e, rfl⟩ | ⟨rfl, _, _, rfl⟩
      · exact hthread.of_state rfl
      · refine ⟨fun r hr => ?_, hthread.current, hthread.idle⟩
        rcases List.mem_append.mp hr with hqueued | hlast
        · exact hthread.queue r hqueued
        · rw [List.mem_singleton.mp hlast]
          exact hreq
  | @acted act old new op ha hold hact hw' =>
      subst ha
      cases hw'.symm.trans hw
      refine (hs.threads w _ hold).acted (hs.threading.staffed.good w _ hold).paired hact ?_
      rintro c rfl
      simpa [ready, hold] using hready

theorem Supplied.task (hs : Supplied cfg s) {a : Action (extensionRuntime serde)}
    {pool : State (extensionRuntime serde)} (hready : s.ready (.task a) = true)
    (move : Pool.Move serde cfg s.pool a pool) : Supplied cfg { s with pool } where
  threading := hs.threading.step move
  requests := by
    refine hs.requests.step (fun inv kind req ha hargs htx _ => ?_) move
    subst ha
    rw [htx]
    simpa [ready, hargs] using hready
  threads _ _ hw := hs.threaded hready move hw

theorem Supplied.ending (hs : Supplied cfg s) {a : Ending (extensionRuntime serde)}
    {pool : State (extensionRuntime serde)} (hready : s.ready a = true)
    (hstep : endingStep cfg serde s.pool a = some pool) : Supplied cfg { s with pool } := by
  cases a with
  | task a => exact hs.task hready (step_move hstep)
  | main =>
      refine ⟨hs.threading.ending hstep, ?_, ?_⟩
      · cases hstep
        exact ⟨hs.requests.calls, nofun, nofun, hs.requests.slots⟩
      · cases hstep
        exact hs.threads
  | slot i =>
      refine ⟨hs.threading.ending hstep, ?_, fun w h hw => ?_⟩
      · simp only [endingStep] at hstep
        split at hstep
        · cases hstep
          refine ⟨by simpa using hs.requests.calls, by simpa using hs.requests.channel,
            by simpa using hs.requests.main, fun j req hreq => ?_⟩
          rw [s.pool.supervise_slots] at hreq
          by_cases hj : j = i
          · subst hj
            rw [update_self] at hreq
            cases hreq
          · rw [update_of_ne hj] at hreq
            exact hs.requests.slots j req hreq
        · cases hstep
      · simp only [endingStep] at hstep
        split at hstep
        · next hguard =>
            cases hstep
            obtain ⟨old, hold, hstate, _⟩ := (discards_slot s.pool hguard.1).thread hw
            exact (hs.threads w old hold).of_state hstate
        · cases hstep

theorem Supplied.step (hs : Supplied cfg s) {a : AttendedAction serde}
    (hstep : s.step serde cfg a = some t) : Supplied cfg t := by
  cases a with
  | send k =>
      simp only [Attended.step] at hstep
      split at hstep
      · next n hclient =>
          cases hstep
          exact hs.client (by rw [hclient]; exact Nat.le_succ n)
      · cases hstep
  | drop k =>
      simp only [Attended.step] at hstep
      split at hstep
      · cases hstep
        exact hs.client (Nat.zero_le _)
      · cases hstep
  | pool a =>
      simp only [Attended.step] at hstep
      split at hstep
      · next hready =>
          obtain ⟨pool, hpool, rfl⟩ := Option.map_eq_some_iff.mp hstep
          exact hs.ending hready hpool
      · cases hstep

theorem supplied_of_reachable {clients : StreamTx → BodyClient}
    (hs : Reachable (Attended.step serde cfg) (.start cfg clients) s) : s.Supplied cfg :=
  hs.invariant (Supplied cfg) (.start cfg clients) fun _ _ _ h _ hstep => h.step hstep

/-- A client sends what is left and drops its sender. -/
theorem finish {k : StreamTx} {n : Nat} (hk : s.clients k = .holding n) :
    runs (Attended.step serde cfg) s (List.replicate n (.send k) ++ [.drop k]) =
      some { s with clients := update s.clients k .gone } := by
  induction n generalizing s with
  | zero => simp [Attended.step, hk]
  | succ n ih =>
      rw [List.replicate_succ, List.cons_append, runs_cons]
      simp only [Attended.step, hk, Option.bind_some]
      rw [ih (update_self _ _ _)]
      simp

/-- The body call `c` of thread `w` waits for the client of its request, which holds the sender
and fewer items wait than the call receives. When the client has sent the rest and dropped the
sender, the call goes on. -/
def AwaitsClient (cfg : WorkersConfig) (s : Attended serde) (w : Nat) (h : ChannelWorker)
    (c : Bridge.Step) : Prop :=
  ∃ k n t, h.state.currentStreamTx = some k ∧ s.clients k = .holding n ∧
    itemsWaiting (s.clients k) h.state.currentBody < c.bodyReceives h.state ∧
    runs (Attended.step serde cfg) s (List.replicate n (.send k) ++ [.drop k]) = some t ∧
    (t.step serde cfg (.pool (.task (.work w (.call c))))).isSome = true

/-- Only body calls receive from the body. -/
theorem receives_of_bodyReceives {st : WorkerState} {c : Bridge.Step}
    (hpos : 0 < c.bodyReceives st) : c.receives = false := by
  cases c with
  | loopRecv => cases hpos
  | loopFinish => rfl
  | call c =>
      cases c with
      | recv => cases hpos
      | _ => rfl

/-- A step of a thread that has what it receives is a step of the pool. -/
theorem step_work (hw : s.pool.workers w = some h) {b : ChannelWorker.ThreadAct}
    (hready : ∀ c, b = .call c → bodyReady s.clients h.state c) :
    s.step serde cfg (.pool (.task (.work w b))) =
      (work s.pool w b).map fun pool => { s with pool } := by
  have hgo : s.ready (.task (.work w b)) = true := by
    cases b with
    | call c => simpa [ready, hw] using hready c rfl
    | _ => rfl
  simp only [Attended.step, hgo, if_true]
  rfl

/-- A call that cannot begin waits for a task or for a client. -/
theorem Supplied.stuck_call (hs : Supplied cfg s) (hw : s.pool.workers w = some h)
    (hidle : h.effects = []) (hstage : h.stage = .running) {c : Bridge.Step}
    (hstuck : s.step serde cfg (.pool (.task (.work w (.call c)))) = none) :
    (c.receives = true ∧ h.state.taskRx = [] ∧
      ∃ i < cfg.count, (s.pool.slots i).handle = some w ∧ (s.pool.slots i).phase.live = true) ∨
    s.AwaitsClient cfg w h c := by
  by_cases hready : bodyReady s.clients h.state c
  · have hstep : s.step serde cfg (.pool (.task (.work w (.call c)))) =
        (work s.pool w (.call c)).map fun pool => { s with pool } :=
      step_work (b := .call c) hw fun c' hc => by
        cases hc
        exact hready
    rw [hstep, Option.map_eq_none_iff] at hstuck
    exact .inl (hs.threading.stuck_call hw hidle hstage hstuck)
  · simp only [bodyReady, Option.mem_def, not_forall, not_or, not_le, exists_prop] at hready
    obtain ⟨k, hk, hholds, hfew⟩ := hready
    have hreceives : c.receives = false :=
      receives_of_bodyReceives (Nat.zero_lt_of_lt hfew)
    cases hclient : s.clients k with
    | gone => exact absurd hclient hholds
    | holding n =>
        refine .inr ⟨k, n, _, hk, hclient, hfew, finish hclient, ?_⟩
        obtain ⟨pool, hpool⟩ := call_enabled (c := c) hw hstage hidle (by simp [hreceives])
        have hgone : bodyReady (update s.clients k .gone) h.state c := by
          intro j hj
          cases hk.symm.trans hj
          exact .inl (update_self _ _ _)
        have hstep : Attended.step serde cfg ⟨s.pool, update s.clients k .gone⟩
            (.pool (.task (.work w (.call c)))) = (work s.pool w (.call c)).map fun pool =>
              ⟨pool, update s.clients k .gone⟩ :=
          step_work (s := ⟨s.pool, update s.clients k .gone⟩) (b := .call c) hw fun c' hc => by
            cases hc
            exact hgone
        rw [hstep, hpool]
        rfl

theorem Supplied.stuck_perform (hs : Supplied cfg s) (hw : s.pool.workers w = some h)
    (hbusy : h.effects ≠ []) (hstuck : s.step serde cfg (.pool (.task (.work w .perform))) = none) :
    ∃ tx c rest t, h.effects = .send tx c :: rest ∧ (s.pool.calls tx).Listening ∧
      (s.pool.streams tx).buffer.length = 64 ∧
      s.step serde cfg (.pool (.task (.receive tx))) = some t ∧
      (t.step serde cfg (.pool (.task (.work w .perform)))).isSome = true := by
  have hperform (p : Attended serde) : p.step serde cfg (.pool (.task (.work w .perform))) =
      (work p.pool w .perform).map fun pool => { p with pool } := rfl
  have hstuck' : work s.pool w .perform = none :=
    Option.map_eq_none_iff.mp ((hperform s).symm.trans hstuck)
  obtain ⟨tx, c, rest, pool, heffects, hlistens, hfull, hread, hgoes⟩ :=
    hs.threading.stuck_perform hw hbusy hstuck'
  refine ⟨tx, c, rest, { s with pool }, heffects, hlistens, hfull, ?_, ?_⟩
  · simp [Attended.step, ready, endingStep, hread]
  · rw [hperform, Option.isSome_map]
    exact hgoes

end Attended

/-- In every reachable state of the pool and its clients, also while the runtime is dropped, a
thread that cannot go on waits for one of three parties. In an operation: for the caller of a
full stream, which has not read its 64 chunks; it can read one, and after that the thread goes
on. In a call: for a supervisor that has not ended and holds the sender of its channel, when it
receives a task; or for the client of its request, when it receives from the body. What the
client has not sent is never read. -/
theorem threads_wait_for_callers_clients_or_tasks (serde : SerdeJson) (cfg : WorkersConfig)
    (clients : StreamTx → BodyClient) (s : Attended serde)
    (hs : Reachable (Attended.step serde cfg) (.start cfg clients) s) (w : Nat)
    (h : ChannelWorker) (hw : s.pool.workers w = some h) :
    (h.effects ≠ [] → s.step serde cfg (.pool (.task (.work w .perform))) = none →
      ∃ tx c rest t, h.effects = .send tx c :: rest ∧ (s.pool.calls tx).Listening ∧
        (s.pool.streams tx).buffer.length = 64 ∧
        s.step serde cfg (.pool (.task (.receive tx))) = some t ∧
        (t.step serde cfg (.pool (.task (.work w .perform)))).isSome = true) ∧
    (h.effects = [] → h.stage = .running → ∀ c,
      s.step serde cfg (.pool (.task (.work w (.call c)))) = none →
        (c.receives = true ∧ h.state.taskRx = [] ∧ ∃ i < cfg.count,
          (s.pool.slots i).handle = some w ∧ (s.pool.slots i).phase.live = true) ∨
        s.AwaitsClient cfg w h c) ∧
    (∀ k, h.state.currentStreamTx = some k →
      (s.clients k).unsent ≤ itemsLeft h.state.currentBody) ∧
    (h.state.currentStreamTx = none → h.state.currentBody = none) := by
  have hsupplied := Attended.supplied_of_reachable hs
  have hthread := hsupplied.threads w h hw
  exact ⟨hsupplied.stuck_perform hw,
    fun hidle hstage _ => hsupplied.stuck_call hw hidle hstage, hthread.current, hthread.idle⟩

/-- The thread is between two calls. -/
def isIdling (worker : Option ChannelWorker) : Bool :=
  worker.any fun h => h.stage == .running && h.effects.isEmpty

/-- Slot 0 boots a thread, and the thread receives a request with a body. -/
def bodyRun (serde : SerdeJson) : List (AttendedAction serde) :=
  let request : List (Action (extensionRuntime serde)) :=
    [.invoke (.executeStreamed "dispatch" .null (some (.raw [[65]]))), .submit 0, .mainRecv,
      .mainForward, .supervise 0 .pollReload, .supervise 0 .pollInbox, .supervise 0 .execute,
      .work 0 (.call .loopRecv)]
  (bootRun serde ++ request).map fun a => .pool (.task a)

/-- The handler reads the body before its client has sent the only chunk. -/
theorem early_read_waits :
    ∃ s, Reachable (Attended.step .ofNull .single) (.start .single fun _ => .holding 1) s ∧
      ∃ h : ChannelWorker, s.pool.workers 0 = some h ∧
        s.AwaitsClient .single 0 h (.call (.read 8)) := by
  have hrun : (runs (Attended.step .ofNull .single) (.start .single fun _ => .holding 1)
      (bodyRun .ofNull)).any (fun s => isIdling (s.pool.workers 0) &&
        (s.step .ofNull .single (.pool (.task (.work 0
          (ChannelWorker.ThreadAct.call (.call (.read 8))))))).isNone) = true := by
    decide +kernel
  obtain ⟨s, hs, htest⟩ := exists_reachable hrun
  rw [Bool.and_eq_true, Option.isNone_iff_eq_none] at htest
  obtain ⟨hidling, hstuck⟩ := htest
  obtain ⟨h, hw, hidle⟩ := (Option.any_eq_true _ _).mp hidling
  rw [Bool.and_eq_true, List.isEmpty_iff] at hidle
  obtain ⟨-, hwaits, -⟩ :=
    threads_wait_for_callers_clients_or_tasks .ofNull .single _ s hs 0 h hw
  rcases hwaits hidle.2 (eq_of_beq hidle.1) (.call (.read 8)) hstuck with ⟨hreceives, _⟩ | hawaits
  · cases hreceives
  · exact ⟨s, hs, h, hw, hawaits⟩

/-- The runtime may be dropped in any reachable state of the pool, its tasks in any order, with
any steps of the tasks that are left, of the clients and of the threads in between. When all
tasks are gone, the task channel of each thread is closed, each of its channel operations is
performed, and each of its calls begins, but for one that receives from a body whose client
still holds the sender. -/
theorem dropped_runtime_frees_threads (serde : SerdeJson) (cfg : WorkersConfig)
    (clients : StreamTx → BodyClient) (s : Attended serde)
    (hs : Reachable (Attended.step serde cfg) (.start cfg clients) s) (hover : s.pool.Over cfg)
    (w : Nat) (h : ChannelWorker) (hw : s.pool.workers w = some h) :
    h.taskTx = false ∧
    (h.effects ≠ [] → (s.step serde cfg (.pool (.task (.work w .perform)))).isSome = true) ∧
    (h.effects = [] → h.stage = .running → ∀ c,
      (s.step serde cfg (.pool (.task (.work w (.call c))))).isSome = true ∨
        s.AwaitsClient cfg w h c) := by
  have hsupplied := Attended.supplied_of_reachable hs
  have hthreading := hsupplied.threading
  have gone {i : Nat} (hi : i < cfg.count) (hlive : (s.pool.slots i).phase.live = true) :
      False := by
    cases hlive.symm.trans (hover.slots i hi)
  refine ⟨?_, fun hbusy => ?_, fun hidle hstage c => ?_⟩
  · by_contra htx
    obtain ⟨i, hi, hhandle⟩ := hthreading.tended w h hw (by simpa using htx)
    exact gone hi (live_of_handle (hthreading.housed.tidy i) hhandle)
  · by_contra hstuck
    obtain ⟨tx, _, _, _, _, hlistens, _⟩ :=
      hsupplied.stuck_perform hw hbusy (Option.not_isSome_iff_eq_none.mp hstuck)
    exact hover.calls tx hlistens
  · by_cases hgoes : (s.step serde cfg (.pool (.task (.work w (.call c))))).isSome = true
    · exact .inl hgoes
    · rcases hsupplied.stuck_call hw hidle hstage (Option.not_isSome_iff_eq_none.mp hgoes) with
        ⟨_, _, i, hi, _, hlive⟩ | hawaits
      · exact (gone hi hlive).elim
      · exact .inr hawaits

/-- The drop of a pool of one that executes that request. -/
def dropRun (serde : SerdeJson) : List (AttendedAction serde) :=
  bodyRun serde ++ [.pool (.slot 0), .pool .main, .pool (.task (.cancel 0))]

def isCancelled : CallStage → Bool
  | .cancelled => true
  | _ => false

/-- The thread has a request, and the runtime is gone: its receive finds the channel closed, but
a read of the body still waits for the client. -/
theorem reading_thread_left :
    ∃ s, Reachable (Attended.step .ofNull .single) (.start .single fun _ => .holding 1) s ∧
      ∃ h : ChannelWorker, s.pool.workers 0 = some h ∧ h.taskTx = false ∧
        (s.step .ofNull .single (.pool (.task (.work 0
          (ChannelWorker.ThreadAct.call .loopRecv))))).isSome = true ∧
        s.AwaitsClient .single 0 h (.call (.read 8)) := by
  have hrun : (runs (Attended.step .ofNull .single) (.start .single fun _ => .holding 1)
      (dropRun .ofNull)).any (fun s => decide (s.pool.callCount = 1) &&
        isCancelled (s.pool.calls 0) && !(s.pool.slots 0).phase.live &&
        isIdling (s.pool.workers 0) &&
        (s.step .ofNull .single (.pool (.task (.work 0
          (ChannelWorker.ThreadAct.call .loopRecv))))).isSome &&
        !(s.step .ofNull .single (.pool (.task (.work 0
          (ChannelWorker.ThreadAct.call (.call (.read 8))))))).isSome) = true := by
    decide +kernel
  obtain ⟨s, hs, htest⟩ := exists_reachable hrun
  simp only [Bool.and_eq_true, decide_eq_true_eq, Bool.not_eq_true'] at htest
  obtain ⟨⟨⟨⟨⟨hcount, hcancelled⟩, hslot⟩, hidling⟩, hreceive⟩, hread⟩ := htest
  have hover : s.pool.Over .single := by
    constructor
    · intro k hlistens
      by_cases hk : k = 0
      · subst hk
        cases hcall : s.pool.calls 0 <;> simp [hcall, isCancelled, CallStage.Listening] at *
      · have hfresh :=
          (Attended.supplied_of_reachable hs).threading.ticketed.fresh k (by omega)
        rw [hfresh.1] at hlistens
        exact hlistens
    · intro i hi
      obtain rfl : i = 0 := Nat.lt_one_iff.mp hi
      exact hslot
  obtain ⟨h, hw, hidle⟩ := (Option.any_eq_true _ _).mp hidling
  rw [Bool.and_eq_true, List.isEmpty_iff] at hidle
  obtain ⟨htx, _, hcalls⟩ := dropped_runtime_frees_threads .ofNull .single _ s hs hover 0 h hw
  rcases hcalls hidle.2 (eq_of_beq hidle.1) (.call (.read 8)) with hgoes | hawaits
  · cases hread.symm.trans hgoes
  · exact ⟨s, hs, h, hw, htx, hreceive, hawaits⟩

end FolkCore.Ext
