import FolkCore.Ext.Turns
import FolkCore.Pool.Posts
import FolkCore.Pool.Requests

/-!
# Room in the task channel

`execute_streaming` sends to a channel of 8 tasks on the async thread. Its tasks are
received in the order of their sends, so a call whose done channel has fired, or was
dropped, leaves no task behind it. A call that is given up on timeout leaves its own,
and the next call is made whatever the channel holds.
-/

namespace FolkCore.Ext

open Bridge Pool Lib

variable {serde : SerdeJson} {cfg : WorkersConfig} {h h' : ChannelWorker}

/-- The done channel that an operation fires or drops. -/
def doneOf : Effect → Option DoneTx
  | .signal d => some d
  | .dropDone d => some d
  | _ => none

/-- The done channels that the thread has taken over from the task channel. -/
def ChannelWorker.taken (h : ChannelWorker) : List DoneTx :=
  h.state.currentDoneTx.toList ++ h.effects.filterMap doneOf

/-- The invariant of a worker: tasks are numbered in the order of their sends, and
received in it. -/
structure Queued (h : ChannelWorker) : Prop where
  paired : Paired h.state
  drawn : ∀ r ∈ h.state.taskRx, r.doneTx < h.nextDone
  sorted : h.state.taskRx.Pairwise fun r r' => r.doneTx < r'.doneTx
  passed : ∀ d ∈ h.taken, d < h.nextDone ∧ ∀ r ∈ h.state.taskRx, d < r.doneTx
  latest : ∀ d, h.awaited = some (.pending d) → h.nextDone = d + 1
  finished : ∀ r, h.awaited = some (.finished r) → h.state.taskRx.length < 8

theorem Queued.of_fresh (hfresh : h.isFresh = true) : Queued h.ready := by
  obtain ⟨hawaited, hqueue, hnone, heffects⟩ := isFresh_empty hfresh
  constructor
  · exact .inl hnone
  · simp [ChannelWorker.ready, hqueue]
  · simp [ChannelWorker.ready, hqueue]
  · simp [ChannelWorker.ready, ChannelWorker.taken, hnone.2, heffects]
  · simp [ChannelWorker.ready, hawaited]
  · simp [ChannelWorker.ready, hqueue]

/-- The channel shows nothing but what the invariant names. -/
theorem Queued.same (hq : Queued h) (hstate : h'.state = h.state)
    (heffects : h'.effects = h.effects) (hnext : h'.nextDone = h.nextDone)
    (hawaited : h'.awaited = h.awaited ∨ h'.awaited = none) : Queued h' := by
  have hkept {a : Awaited} (ha : h'.awaited = some a) : h.awaited = some a := by
    rcases hawaited with hsame | hnone
    · exact hsame ▸ ha
    · rw [hnone] at ha
      cases ha
  constructor
  · exact hstate ▸ hq.paired
  · rw [hstate, hnext]
    exact hq.drawn
  · rw [hstate]
    exact hq.sorted
  · rw [ChannelWorker.taken, hstate, heffects, hnext]
    exact hq.passed
  · intro d hd
    rw [hnext]
    exact hq.latest d (hkept hd)
  · intro r hr
    rw [hstate]
    exact hq.finished r (hkept hr)

/-- The thread works on: its queue shrinks, and what it takes over stood before. -/
theorem Queued.advance (hq : Queued h) (hpaired : Paired h'.state)
    (hnext : h'.nextDone = h.nextDone) (hawaited : h'.awaited = h.awaited)
    (hqueue : h'.state.taskRx <:+ h.state.taskRx)
    (htaken : ∀ d ∈ h'.taken, d ∈ h.taken ∨
      ∃ r ∈ h.state.taskRx, d = r.doneTx ∧ ∀ r' ∈ h'.state.taskRx, d < r'.doneTx) :
    Queued h' := by
  constructor
  · exact hpaired
  · intro r hr
    rw [hnext]
    exact hq.drawn r (hqueue.subset hr)
  · exact hq.sorted.sublist hqueue.sublist
  · intro d hd
    rw [hnext]
    rcases htaken d hd with hold | ⟨r, hr, rfl, hbefore⟩
    · obtain ⟨hlt, hbefore⟩ := hq.passed d hold
      exact ⟨hlt, fun r hr => hbefore r (hqueue.subset hr)⟩
    · exact ⟨hq.drawn r hr, hbefore⟩
  · intro d hd
    rw [hnext]
    exact hq.latest d (hawaited ▸ hd)
  · intro r hr
    calc h'.state.taskRx.length ≤ h.state.taskRx.length := hqueue.length_le
      _ < 8 := hq.finished r (hawaited ▸ hr)

/-- When the awaited channel is fired or dropped, no task is left. -/
theorem Queued.empty_of_resolved (hq : Queued h) {d : DoneTx} (hd : d ∈ h.taken)
    (hawaited : h.awaited = some (.pending d)) : h.state.taskRx = [] := by
  rw [List.eq_nil_iff_forall_not_mem]
  intro r hr
  have hbefore := (hq.passed d hd).2 r hr
  have hdrawn := hq.drawn r hr
  rw [hq.latest d hawaited] at hdrawn
  exact absurd hbefore (Nat.not_lt.mpr (Nat.le_of_lt_succ hdrawn))

/-- One operation on the done channel `d`. -/
theorem Queued.resolve (hq : Queued h) {e : Effect} {rest : List Effect} {d : DoneTx}
    (heffects : h.effects = e :: rest) (hdone : doneOf e = some d) (r : Except String Unit) :
    Queued { h with effects := rest, awaited := h.resolve d r } := by
  have htaken : d ∈ h.taken := by
    simp [ChannelWorker.taken, heffects, hdone]
  have hresolve : h.resolve d r = h.awaited ∨
      h.awaited = some (.pending d) ∧ h.resolve d r = some (.finished r) := by
    unfold ChannelWorker.resolve
    split
    · next d' hawaited =>
        by_cases heq : d' = d
        · rw [if_pos heq, hawaited, heq]
          exact .inr ⟨rfl, rfl⟩
        · rw [if_neg heq]
          exact .inl rfl
    · exact .inl rfl
  have hrest : Queued { h with effects := rest } := by
    refine hq.advance hq.paired rfl rfl (List.suffix_refl _) ?_
    intro d' hd'
    left
    rw [ChannelWorker.taken, heffects, List.filterMap_cons_some hdone]
    rcases List.mem_append.mp hd' with hcurrent | hlater
    · exact List.mem_append_left _ hcurrent
    · exact List.mem_append_right _ (List.mem_cons_of_mem _ hlater)
  rcases hresolve with hsame | ⟨hpending, hresolved⟩
  · rw [hsame]
    exact hrest
  · rw [hresolved]
    have hempty := hq.empty_of_resolved htaken hpending
    exact { paired := hrest.paired, drawn := hrest.drawn, sorted := hrest.sorted
            passed := hrest.passed
            latest := fun d' hd' => by cases hd'
            finished := fun _ _ => by simp [hempty] }

theorem Queued.perform (hq : Queued h) {e : Effect} {rest : List Effect}
    (heffects : h.effects = e :: rest) : Queued (h.performEffect rest e).1 := by
  have hquiet (hdone : doneOf e = none) {h' : ChannelWorker} (hstate : h'.state = h.state)
      (heffects' : h'.effects = rest) (hnext : h'.nextDone = h.nextDone)
      (hawaited : h'.awaited = h.awaited) : Queued h' := by
    apply hq.advance (hstate ▸ hq.paired) hnext hawaited (hstate ▸ List.suffix_refl _)
    intro d hd
    left
    rw [ChannelWorker.taken, hstate, heffects'] at hd
    rw [ChannelWorker.taken, heffects, List.filterMap_cons_none hdone]
    exact hd
  cases e with
  | send tx c => exact hquiet rfl rfl rfl rfl rfl
  | dropStream tx => exact hquiet rfl rfl rfl rfl rfl
  | ready => exact hquiet rfl rfl rfl rfl rfl
  | signal d => exact hq.resolve heffects rfl _
  | dropDone d => exact hq.resolve heffects rfl _

/-- The done channels of what a thread drops. -/
theorem taken_release (st : WorkerState) :
    st.release.filterMap doneOf = st.currentDoneTx.toList := by
  cases hstream : st.currentStreamTx <;> cases hdone : st.currentDoneTx <;>
    simp [WorkerState.release, hstream, hdone, List.filterMap_cons, doneOf]

theorem taken_dropTask (tasks : List TaskRequest) :
    (tasks.flatMap ChannelWorker.dropTask).filterMap doneOf =
      tasks.map TaskRequest.doneTx := by
  induction tasks with
  | nil => rfl
  | cons r rest ih =>
      rw [List.flatMap_cons, List.filterMap_append, ih]
      rfl

theorem Queued.turn (hq : Queued h) {op : Option StreamOp} (turn : Turn h h' op) :
    Queued h' := by
  have hpaired := turn.paired hq.paired
  cases turn with
  | booted => exact hq.same rfl rfl rfl (.inl rfl)
  | @quiet state effects hidle hsame heffects =>
      apply hq.advance hpaired rfl rfl (hsame.queue ▸ List.suffix_refl _)
      intro d hd
      left
      have hnone : effects.filterMap doneOf = [] := by
        rw [List.filterMap_eq_nil_iff]
        intro e he
        rw [heffects e he]
        rfl
      simpa [ChannelWorker.taken, hsame.done, hidle, hnone] using hd
  | wrote hidle hsame _ _ =>
      apply hq.advance hpaired rfl rfl (hsame.queue ▸ List.suffix_refl _)
      intro d hd
      left
      simpa [ChannelWorker.taken, hsame.done, hidle, doneOf] using hd
  | @finished tx d v effects hidle htx hd heffects =>
      apply hq.advance hpaired rfl rfl (List.suffix_refl _)
      intro d' hd'
      left
      have hsends : (v.toList.map (Effect.send tx)).filterMap doneOf = [] := by
        cases v <;> rfl
      have heq : d = d' := by
        rcases heffects with heffects | heffects <;>
          simpa [ChannelWorker.taken, WorkerState.clear, heffects, hsends, doneOf] using hd'
      simp [ChannelWorker.taken, hd, heq]
  | @accepted r rest hidle hqueue =>
      have hsorted := hq.sorted
      rw [hqueue, List.pairwise_cons] at hsorted
      apply hq.advance hpaired rfl rfl (hqueue ▸ List.suffix_cons r rest)
      intro d hd
      simp only [ChannelWorker.taken, taken_release, List.mem_append] at hd
      rcases hd with hnew | hold
      · have heq : d = r.doneTx := by simpa [WorkerState.accept] using hnew
        exact .inr ⟨r, by simp [hqueue], heq, heq ▸ hsorted.1⟩
      · exact .inl (List.mem_append_left _ hold)
  | performed heffects => exact hq.perform heffects
  | exited hidle =>
      apply hq.advance hpaired rfl rfl (List.nil_suffix)
      intro d hd
      simp only [ChannelWorker.taken, List.filterMap_append, taken_release, taken_dropTask,
        WorkerState.clear, Option.toList_none, List.nil_append, List.mem_append,
        List.mem_map] at hd
      rcases hd with hcurrent | ⟨r, hr, rfl⟩
      · exact .inl (List.mem_append_left _ hcurrent)
      · exact .inr ⟨r, hr, rfl, by simp⟩

theorem Queued.execution (hq : Queued h) (hroom : h.state.taskRx.length < 8)
    {req : DispatchRequest} {kept : Bool} (run : Execution h req h' kept) : Queued h' := by
  cases run with
  | failed =>
      exact { paired := hq.paired, drawn := hq.drawn, sorted := hq.sorted, passed := hq.passed
              latest := fun d hd => by cases hd
              finished := fun _ _ => hroom }
  | queued _ =>
      constructor
      · exact hq.paired
      · intro r hr
        rcases List.mem_append.mp hr with hold | hnew
        · exact Nat.lt_succ_of_lt (hq.drawn r hold)
        · rw [List.mem_singleton.mp hnew]
          exact Nat.lt_succ_self _
      · rw [List.pairwise_append]
        refine ⟨hq.sorted, List.pairwise_singleton _ _, ?_⟩
        intro r hr r' hr'
        rw [List.mem_singleton.mp hr']
        exact hq.drawn r hr
      · intro d hd
        obtain ⟨hlt, hbefore⟩ := hq.passed d hd
        refine ⟨Nat.lt_succ_of_lt hlt, ?_⟩
        intro r hr
        rcases List.mem_append.mp hr with hold | hnew
        · exact hbefore r hold
        · rw [List.mem_singleton.mp hnew]
          exact hlt
      · intro d hd
        cases hd
        rfl
      · intro r hr
        cases hr

/-- When an execution is given up on timeout, the task channel of its worker has room. -/
def roomOnTimeout (s : State (extensionRuntime serde)) : Action (extensionRuntime serde) → Bool
  | .supervise i b =>
      match s.expires (.supervise i b), (s.slots i).worker.bind s.workers with
      | some _, some h => decide ((ChannelWorker.state h).taskRx.length < 8)
      | _, _ => true
  | _ => true

def Executing (phase : Phase) : Prop := ∃ tx deadline, phase = .executing tx deadline

/-- The invariant of a slot: outside an execution the task channel has room. -/
structure Roomy (p : Post (extensionRuntime serde)) : Prop where
  queued : ∀ h : ChannelWorker, p.worker = some h → Queued h
  room : ∀ h : ChannelWorker, p.worker = some h → ¬Executing p.slot.phase →
    h.state.taskRx.length < 8

variable {p p' : Post (extensionRuntime serde)} {i : Nat}
  {v : View (extensionRuntime serde)} {a : Action (extensionRuntime serde)}

theorem Roomy.of_none (hworker : p.worker = none) : Roomy p := by
  constructor
  · intro h hh
    rw [hworker] at hh
    cases hh
  · intro h hh
    rw [hworker] at hh
    cases hh

theorem Roomy.of_some (hworker : p.worker = some h) (hqueued : Queued h)
    (hroom : ¬Executing p.slot.phase → h.state.taskRx.length < 8) : Roomy p := by
  constructor
  · intro h' hh'
    rw [hworker] at hh'
    cases hh'
    exact hqueued
  · intro h' hh'
    rw [hworker] at hh'
    cases hh'
    exact hroom

theorem Roomy.keep (hp : Roomy p) (hidle : ¬Executing p.slot.phase)
    (hworker : p'.worker = p.worker) : Roomy p' := by
  constructor
  · intro h hh
    exact hp.queued h (hworker ▸ hh)
  · intro h hh _
    exact hp.room h (hworker ▸ hh) hidle

/-- `terminate` leaves the task channel as it is. -/
theorem Roomy.terminate (hp : Roomy p) (hworker : p.worker = some h)
    (hidle : ¬Executing p.slot.phase) (hworker' : p'.worker = some h.terminate) : Roomy p' := by
  have hqueued : Queued h.terminate := (hp.queued h hworker).same rfl rfl rfl (.inl rfl)
  exact .of_some hworker' hqueued fun _ => hp.room h hworker hidle

theorem Roomy.supervised (hp : Roomy p) {b : SupervisorAction (extensionRuntime serde)}
    {slot' : Slot} {commands : List (Command (extensionRuntime serde))}
    (hworker : p.worker = p.slot.handle.bind v.workers) (htidy : p.slot.Tidy)
    (htimeout : ∀ tx deadline w, ∀ worker : ChannelWorker, b = .pollExecute →
      p.slot.phase = .executing tx deadline → p.slot.worker = some w →
      v.workers w = some worker → worker.pollExecute = .pending → deadline ≤ v.now →
      worker.state.taskRx.length < 8)
    (move : Slot.Move cfg i v p.slot b slot' commands) :
    Roomy ⟨slot', workerAfter (slot', commands) p.worker,
      p.log ++ commands.filterMap Command.noted⟩ := by
  unfold Slot.Tidy at htidy
  cases move with
  | boot hphase hnone => exact .of_none (by simp [workerAfter, Slot.handle, hnone])
  | spawnFailed hphase | wake hphase | bootAbandoned hphase | replaced hphase =>
      rw [hphase] at htidy
      exact .of_none (by simp [workerAfter, Slot.handle, htidy])
  | spawnPanicked hphase | bootPanicked hphase | unreachable hphase | executePanicked hphase
  | exited hphase
  | terminatePanicked hphase => exact .of_none rfl
  | listen hphase hhandle | caughtUp hphase hhandle | noReload hphase hhandle
  | inboxEmpty hphase hhandle | took hphase hhandle | kept hphase hhandle =>
      exact hp.keep (by simp [Executing, hphase])
        (by simp [workerAfter, Slot.handle, hhandle, Command.worker, List.findSome?_cons])
  | booted hphase =>
      exact hp.keep (by simp [Executing, hphase]) (by simp [workerAfter, Slot.handle])
  | bootFailed hphase hw =>
      have hfound := Post.worker_eq hworker (by simp [Slot.handle, hphase]) hw
      exact hp.terminate hfound (by simp [Executing, hphase]) rfl
  | reloaded hphase hhandle hw | reloadClosed hphase hhandle hw | inboxClosed hphase hhandle hw
  | recycled hphase hhandle hw =>
      have hfound := Post.worker_eq hworker (by simp [Slot.handle, hphase, hhandle]) hw
      exact hp.terminate hfound (by simp [Executing, hphase]) rfl
  | @spawned worker hphase hspawns =>
      have hempty := (isFresh_empty hspawns).2.1
      have hroom : (ChannelWorker.ready worker).state.taskRx.length < 8 := by
        simp [ChannelWorker.ready, hempty]
      exact .of_some rfl (Queued.of_fresh hspawns) fun _ => hroom
  | @execute req since w worker worker' kept hphase hhandle hw hcall =>
      have hfound := Post.worker_eq hworker (by simp [Slot.handle, hphase, hhandle]) hw
      have hroom := hp.room worker hfound (by simp [Executing, hphase])
      have hafter : workerAfter ({ p.slot with
          phase := .executing req.streamTx (since + cfg.execTimeout) },
          [.setWorker w worker', .hand w req.streamTx kept, .note (.executed i w req.streamTx)])
          p.worker = some worker' := by
        simp [workerAfter, Slot.handle, hhandle, Command.worker, List.findSome?_cons]
      refine .of_some hafter ?_ ?_
      · exact (hp.queued worker hfound).execution hroom (execute_execution hcall)
      · intro hidle
        exact absurd ⟨_, _, rfl⟩ hidle
  | @settled tx deadline w worker result hphase hhandle hw hresult =>
      have hfound := Post.worker_eq hworker (by simp [Slot.handle, hphase, hhandle]) hw
      have hqueued := hp.queued worker hfound
      have hroom : (ChannelWorker.state worker).taskRx.length < 8 := by
        rcases hresult with ⟨r, hready, _⟩ | ⟨hpending, htime, _⟩
        · exact hqueued.finished r (awaited_of_ready hready)
        · exact htimeout tx deadline w worker rfl hphase hhandle hw hpending htime
      have hafter : workerAfter ({ p.slot with
          info := p.slot.info.markIdle, phase := .settled tx result },
          [.setWorker w ((extensionRuntime serde).dropExecute worker), .release,
            .note (.finished i w tx result)])
          p.worker = some ((extensionRuntime serde).dropExecute worker) := by
        simp [workerAfter, Slot.handle, hhandle, Command.worker, List.findSome?_cons]
      exact .of_some hafter (hqueued.same rfl rfl rfl (.inr rfl)) fun _ => hroom

theorem Roomy.step (hp : Roomy p)
    (htimeout : ∀ tx deadline w, ∀ worker : ChannelWorker, a = .supervise i .pollExecute →
      p.slot.phase = .executing tx deadline → p.slot.worker = some w →
      v.workers w = some worker → worker.pollExecute = .pending → deadline ≤ v.now →
      worker.state.taskRx.length < 8)
    (move : Post.Move cfg i v a p p') : Roomy p' := by
  cases move with
  | same => exact hp
  | delivered req => exact ⟨hp.queued, hp.room⟩
  | @acted act worker worker' op hw hact =>
      have hqueued := hp.queued worker hw
      have turn := act_turn hqueued.paired hact
      refine .of_some rfl (hqueued.turn turn) ?_
      intro hidle
      calc (ChannelWorker.state worker').taskRx.length
          ≤ (ChannelWorker.state worker).taskRx.length := turn.length_le
        _ < 8 := hp.room worker hw hidle
  | supervised ha hworker htidy move =>
      subst ha
      apply hp.supervised hworker htidy _ move
      intro tx deadline w worker hb
      subst hb
      exact htimeout tx deadline w worker rfl

/-- In every run in which the task channel of a worker has room whenever an execution on
it is given up, `execute_streaming` finds room in it and does not block. -/
theorem send_finds_room (serde : SerdeJson) (cfg : WorkersConfig)
    (s : State (extensionRuntime serde))
    (hs : ReachableVia (step serde cfg) (fun s a => roomOnTimeout s a = true)
      (init (extensionRuntime serde) cfg) s)
    (i w : Nat) (req : DispatchRequest) (since : Nat) (h : ChannelWorker)
    (hphase : (s.slots i).phase = .dispatching req since) (hslot : (s.slots i).worker = some w)
    (hw : s.workers w = some h) :
    h.state.taskRx.length < 8 ∧ (h.executeStreaming req).isSome = true := by
  have hboth : Housed s ∧ Roomy (s.post i) := by
    apply hs.invariant (fun s => Housed s ∧ Roomy (s.post i))
    · exact ⟨Housed.init _ cfg, .of_none rfl⟩
    · rintro s a t ⟨hhoused, hroomy⟩ hallowed hstep
      have move := step_move hstep
      refine ⟨hhoused.step move, hroomy.step ?_ (step_post hhoused move i)⟩
      intro tx deadline w worker ha hphase hslot hw hpending htime
      subst ha
      have hexpires : s.expires (.supervise i .pollExecute) = some tx :=
        State.expires_of_pending hphase hslot hw hpending htime
      have hworker : (s.slots i).worker.bind s.workers = some worker := by
        rw [show (s.slots i).worker = some w from hslot]
        exact hw
      have hroom : decide (worker.state.taskRx.length < 8) = true := by
        simpa only [roomOnTimeout, hexpires, hworker] using hallowed
      exact of_decide_eq_true hroom
  have hhandle : (s.post i).slot.handle = some w := by
    simp [State.post, Slot.handle, hphase, hslot]
  have hfound : (s.post i).worker = some h := Post.worker_eq (v := s.view) rfl hhandle hw
  have hroom := hboth.2.room h hfound (by simp [Executing, State.post, hphase])
  exact ⟨hroom, execute_of_room hroom req⟩

/-- The execution of call number `k` is given up; `during` happens while it runs. -/
def timeoutRun (serde : SerdeJson) (during : List (Action (extensionRuntime serde)))
    (k : Nat) : List (Action (extensionRuntime serde)) :=
  callRun serde k ++ [.supervise 0 .execute] ++ during ++
    [.tick 30000, .supervise 0 .pollExecute, .supervise 0 .recycle, .supervise 0 .enterLoop]

/-- The handler of the first request does not come to an end. -/
def slowRun (serde : SerdeJson) : List (Action (extensionRuntime serde)) :=
  bootRun serde ++ timeoutRun serde [.work 0 (.call .loopRecv)] 0

/-- Slot 0 is about to execute a request, and its worker passes the check. -/
def dispatchingTo {R : Runtime} (check : R.Worker → DispatchRequest → Bool) (s : State R) :
    Bool :=
  match (s.slots 0).phase, (s.slots 0).worker.bind s.workers with
  | .dispatching req _, some h => check h req
  | _, _ => false

theorem exists_of_dispatchingTo {R : Runtime} {check : R.Worker → DispatchRequest → Bool}
    {s : State R} (htest : dispatchingTo check s = true) :
    ∃ w req since h, (s.slots 0).phase = .dispatching req since ∧
      (s.slots 0).worker = some w ∧ s.workers w = some h ∧ check h req = true := by
  unfold dispatchingTo at htest
  split at htest
  · next req since h hphase hworker =>
      obtain ⟨w, hslot, hw⟩ := Option.bind_eq_some_iff.mp hworker
      exact ⟨w, req, since, h, hphase, hslot, hw, htest⟩
  · cases htest

/-- With the default configuration eight more timeouts fill the channel, and the next
call of `execute_streaming` blocks. -/
theorem full_channel_blocks :
    ∃ s, Reachable (step .ofNull .single) (init (extensionRuntime .ofNull) .single) s ∧
      ∃ w req since, ∃ h : ChannelWorker, (s.slots 0).phase = .dispatching req since ∧
        (s.slots 0).worker = some w ∧ s.workers w = some h ∧
        ¬h.state.taskRx.length < 8 ∧ h.executeStreaming req = none := by
  have hrun : (runs (step .ofNull .single) (init (extensionRuntime .ofNull) .single)
      (slowRun .ofNull ++ (List.range' 1 8).flatMap (timeoutRun .ofNull []) ++
        callRun .ofNull 9)).any
        (dispatchingTo fun h req => (ChannelWorker.executeStreaming h req).isNone) = true := by
    decide +kernel
  obtain ⟨s, hs, htest⟩ := exists_reachable hrun
  obtain ⟨w, req, since, h, hphase, hslot, hw, hnone⟩ := exists_of_dispatchingTo htest
  rw [Option.isNone_iff_eq_none] at hnone
  refine ⟨s, hs, w, req, since, h, hphase, hslot, hw, ?_, hnone⟩
  intro hroom
  have hsome := execute_of_room hroom req
  rw [hnone] at hsome
  cases hsome

/-- After one timeout the next call finds room. -/
theorem send_after_timeout_finds_room :
    ∃ s, ReachableVia (step .ofNull .single) (fun s a => roomOnTimeout s a = true)
        (init (extensionRuntime .ofNull) .single) s ∧
      ∃ w req since, ∃ h : ChannelWorker, (s.slots 0).phase = .dispatching req since ∧
        (s.slots 0).worker = some w ∧ s.workers w = some h ∧
        h.state.taskRx.length < 8 ∧ (h.executeStreaming req).isSome = true := by
  have hrun : (runs (fun s a => if roomOnTimeout s a then step .ofNull .single s a else none)
      (init (extensionRuntime .ofNull) .single)
      (slowRun .ofNull ++ timeoutRun .ofNull [] 1 ++ callRun .ofNull 2)).any
        (dispatchingTo fun h _ => (ChannelWorker.state h).taskRx.length == 1) = true := by
    decide +kernel
  obtain ⟨s, hs, htest⟩ := exists_reachableVia hrun
  obtain ⟨w, req, since, h, hphase, hslot, hw, _⟩ := exists_of_dispatchingTo htest
  exact ⟨s, hs, w, req, since, h, hphase, hslot, hw,
    send_finds_room .ofNull .single s hs 0 w req since h hphase hslot hw⟩

end FolkCore.Ext
