import FolkCore.Ext.Abandoned

/-!
# A request reaches one thread once

After `execute_streaming` a request is a task in the channel of one worker, whose number
its stream carries as `owner`. `Passage` lists what a step of the pool does to the
threads and to the owners. `Recorded` runs the pool and records every task that a thread
receives; the record holds no request twice, whatever the supervisors do after a
timeout, a reload or a panic.
-/

namespace FolkCore.Ext

open Bridge Function Lib Pool

variable {serde : SerdeJson} {cfg : WorkersConfig} {p q : State (extensionRuntime serde)}
  {a : Action (extensionRuntime serde)}

/-- The thread of each handle is as it was, or new and empty. -/
def Untouched (p q : State (extensionRuntime serde)) : Prop :=
  ∀ w (h' : ChannelWorker), q.workers w = some h' →
    (∃ h : ChannelWorker, p.workers w = some h ∧ h'.state = h.state ∧ h'.effects = h.effects) ∨
      h'.state.taskRx = [] ∧ h'.state.Idle ∧ h'.effects = []

theorem Untouched.of_eq (hworkers : q.workers = p.workers) : Untouched p q := by
  intro w h' hw
  rw [hworkers] at hw
  exact .inl ⟨h', hw, rfl, rfl⟩

/-- The handle `w` gets a worker with the thread that it had, or with a new one. -/
theorem Untouched.of_update {w : Nat} {h' : ChannelWorker}
    (hworkers : q.workers = update p.workers w (some h'))
    (hthread : (∃ h : ChannelWorker, p.workers w = some h ∧ h'.state = h.state ∧
      h'.effects = h.effects) ∨ h'.state.taskRx = [] ∧ h'.state.Idle ∧ h'.effects = []) :
    Untouched p q := by
  intro w' worker hw'
  rw [hworkers] at hw'
  by_cases hne : w' = w
  · subst hne
    rw [update_self] at hw'
    cases hw'
    exact hthread
  · rw [update_of_ne hne] at hw'
    exact .inl ⟨worker, hw', rfl, rfl⟩

/-- Everything a step of the pool does to the threads and to the owners of the streams. -/
inductive Passage (p : State (extensionRuntime serde)) (a : Action (extensionRuntime serde))
    (q : State (extensionRuntime serde)) : Prop
  | aside (hnot : ∀ w act, a ≠ .work w act) (hthreads : Untouched p q)
      (howner : ∀ k, (q.streams k).owner = (p.streams k).owner)
  | executed {i w since : Nat} {req : DispatchRequest} {h h' : ChannelWorker} {kept : Bool}
      (ha : a = .supervise i .execute) (hphase : (p.slots i).phase = .dispatching req since)
      (hheld : (p.streams req.streamTx).owner = none) (hw : p.workers w = some h)
      (hexecution : Execution h req h' kept)
      (hworkers : q.workers = update p.workers w (some h'))
      (howner : ∀ k, (q.streams k).owner =
        if k = req.streamTx then some w else (p.streams k).owner)
  | worked {w : Nat} {act : ChannelWorker.ThreadAct} {h h' : ChannelWorker}
      {op : Option StreamOp} (ha : a = .work w act) (hw : p.workers w = some h)
      (hact : h.act serde act = some (h', op))
      (hworkers : q.workers = update p.workers w (some h'))
      (howner : ∀ k, (q.streams k).owner = (p.streams k).owner)

section Supervisors

variable {R : Runtime}

/-- The stream whose sender a command gives to a worker. -/
def handsOut : Command R → Bool
  | .hand _ _ _ => true
  | _ => false

theorem owner_discard (s : State R) (reqs : List DispatchRequest) (k : StreamTx) :
    ((s.discard reqs).streams k).owner = (s.streams k).owner := by
  simp only [State.discard]
  split
  · rfl
  · rfl

/-- A stream that keeps its owner is replaced. -/
theorem owner_update {streams : StreamTx → Stream} {tx : StreamTx} {st : Stream}
    (hst : st.owner = (streams tx).owner) (k : StreamTx) :
    (update streams tx st k).owner = (streams k).owner := by
  by_cases hk : k = tx
  · rw [hk, update_self]
    exact hst
  · rw [update_of_ne hk]

theorem perform_owner (s : State R) {c : Command R} (hc : handsOut c = false) (k : StreamTx) :
    ((s.perform c).streams k).owner = (s.streams k).owner := by
  cases c with
  | hand w tx kept => cases hc
  | discard reqs => exact owner_discard s reqs k
  | _ => rfl

theorem foldl_owner (commands : List (Command R)) (s : State R)
    (h : ∀ c ∈ commands, handsOut c = false) (k : StreamTx) :
    ((commands.foldl State.perform s).streams k).owner = (s.streams k).owner := by
  induction commands generalizing s with
  | nil => rfl
  | cons c rest ih =>
      rw [List.foldl_cons, ih _ fun c' hc' => h c' (List.mem_cons_of_mem c hc')]
      exact perform_owner s (h c List.mem_cons_self) k

theorem passage_supervised {i : Nat} {b : SupervisorAction (extensionRuntime serde)}
    {r : Slot × List (Command (extensionRuntime serde))} (hticketed : Ticketed cfg p)
    (hi : i < cfg.count) (move : Slot.Move cfg i p.view (p.slots i) b r.1 r.2) :
    Passage p (.supervise i b) (p.supervise i r) := by
  obtain ⟨slot', commands⟩ := r
  have aside (hthreads : Untouched p (p.supervise i (slot', commands)))
      (hkeep : ∀ c ∈ commands, handsOut c = false) :
      Passage p (.supervise i b) (p.supervise i (slot', commands)) :=
    .aside nofun hthreads (foldl_owner commands _ hkeep)
  cases move with
  | @execute req since w h h' kept hphase hworker hw hcall =>
      have hpos : 0 < p.tally cfg req.streamTx :=
        State.tally_pos_of_slot hi (by simp [Slot.requests, Phase.requests, hphase])
      refine .executed rfl hphase (hticketed.held _ hpos).2.1 hw (execute_execution hcall) rfl ?_
      intro k
      by_cases hk : k = req.streamTx
      · simp [State.supervise, State.perform, hk]
      · simp [State.supervise, State.perform, hk]
  | @spawned h hphase hspawns =>
      refine aside (.of_update rfl (.inr ?_)) (by simp [handsOut])
      obtain ⟨_, hqueue, hidle, heffects⟩ := isFresh_empty hspawns
      exact ⟨hqueue, hidle, heffects⟩
  | bootFailed _ hw | bootPanicked _ hw | reloaded _ _ hw | reloadClosed _ _ hw
  | inboxClosed _ _ hw | recycled _ _ hw | bootAbandoned _ hw | replaced _ hw | exited _ hw
  | terminatePanicked _ hw | settled _ _ hw | executePanicked _ _ hw =>
      refine aside (.of_update rfl (.inl ⟨_, hw, rfl, rfl⟩)) ?_
      simp [handsOut]
  | _ => exact aside (.of_eq rfl) (by simp [handsOut])

end Supervisors

/-- Every step of the pool is one of the listed passages. -/
theorem step_passage (hticketed : Ticketed cfg p) (move : Move serde cfg p a q) :
    Passage p a q := by
  cases move with
  | opened =>
      have hfresh := (hticketed.fresh p.callCount (Nat.le_refl _)).2.1
      refine .aside nofun (.of_eq rfl) (owner_update ?_)
      rw [hfresh]
      rfl
  | @poolGone j kind req _ _ | @withdrawn j kind req _ =>
      refine .aside nofun (.of_eq rfl) fun k => ?_
      rw [← owner_discard p [req] k]
      refine owner_update ?_ k
      rfl
  | refused | collected | judged | exhausted | streamed | cancelled =>
      exact .aside nofun (.of_eq rfl) (owner_update rfl)
  | abandoned => exact .aside nofun (.of_eq rfl) (owner_discard p _)
  | supervised hi _ move => exact passage_supervised hticketed hi move
  | worked hw hact | pushLost hw hact => exact .worked rfl hw hact rfl fun _ => rfl
  | pushed hw hact | closed hw hact => exact .worked rfl hw hact rfl (owner_update rfl)
  | _ => exact .aside nofun (.of_eq rfl) fun _ => rfl

section Threads

variable {h h' : ChannelWorker} {k : StreamTx}

/-- The task that a step of the thread receives. -/
def ChannelWorker.receipt (h : ChannelWorker) : ChannelWorker.ThreadAct → Option TaskRequest
  | .call s => if s.receives then h.state.taskRx.head? else none
  | _ => none

/-- The tasks of one request in the channel of a worker. -/
def ChannelWorker.queuedOn (h : ChannelWorker) (k : StreamTx) : Nat :=
  (h.state.taskRx.map TaskRequest.streamTx).count k

theorem outcome_receives {st : WorkerState} {s : Bridge.Step} {r : TaskRequest}
    {rest : List TaskRequest} (hs : s.receives = true) (hqueue : st.taskRx = r :: rest) :
    (s.outcome serde st).state = st.accept r rest ∧
      (s.outcome serde st).effects = st.release := by
  cases s with
  | loopRecv => simp [Step.outcome, loopRecv, Outcome.map, hqueue]
  | loopFinish result => cases hs
  | call c =>
      cases c with
      | recv => simp [Step.outcome, Call.outcome, doRecv, Outcome.map, hqueue]
      | _ => cases hs

/-- A call that receives nothing leaves the queue alone. -/
theorem outcome_queue {st : WorkerState} (hpaired : Paired st) {s : Bridge.Step}
    (hnone : s.receives = true → st.taskRx = []) :
    (s.outcome serde st).state.taskRx = st.taskRx := by
  rcases hpaired with hidle | ⟨tx, d, htx, hd⟩
  · obtain ⟨_, ⟨_, hqueue⟩ | ⟨r, rest, hs, hqueue, _⟩⟩ := idle_step serde hidle s
    · exact hqueue
    · exact absurd ((hnone hs).symm.trans hqueue) nofun
  · have move := busy_move serde htx hd s
    generalize s.outcome serde st = o at move ⊢
    cases move with
    | quiet _ _ _ _ hstate => exact WorkerState.taskRx_of_session hstate
    | head _ _ hstate | body _ _ hstate => rw [hstate]
    | finish _ _ _ hstate => rw [hstate, WorkerState.clear_taskRx]
    | replace _ _ hs hqueue => exact absurd ((hnone hs).symm.trans hqueue) nofun

/-- A step of the thread takes what it receives out of the channel. -/
theorem act_queuedOn (hpaired : Paired h.state) {act : ChannelWorker.ThreadAct}
    {op : Option StreamOp} (hact : h.act serde act = some (h', op)) (k : StreamTx) :
    h'.queuedOn k + ((h.receipt act).toList.map TaskRequest.streamTx).count k ≤
      h.queuedOn k := by
  have keep (hqueue : h'.state.taskRx = h.state.taskRx) (hreceipt : h.receipt act = none) :
      h'.queuedOn k + ((h.receipt act).toList.map TaskRequest.streamTx).count k ≤
        h.queuedOn k := by
    simp [ChannelWorker.queuedOn, hqueue, hreceipt]
  cases act_move hact with
  | boot _ => exact keep rfl rfl
  | ready _ _ => exact keep (WorkerState.taskRx_of_session (doReady_session h.state)) rfl
  | @call s _ _ _ =>
      by_cases hs : s.receives = true
      · cases hqueue : h.state.taskRx with
        | nil =>
            refine keep (outcome_queue hpaired fun _ => hqueue) ?_
            simp [ChannelWorker.receipt, hs, hqueue]
        | cons r rest =>
            simp [ChannelWorker.queuedOn, ChannelWorker.receipt, hs, hqueue,
              (outcome_receives hs hqueue).1, List.count_cons]
      · refine keep (outcome_queue hpaired fun htrue => absurd htrue hs) ?_
        simp [ChannelWorker.receipt, hs]
  | @perform e rest _ =>
      refine keep ?_ rfl
      rw [performEffect_state]
  | exit _ _ => simp [ChannelWorker.queuedOn, ChannelWorker.receipt]

end Threads

/-- A task that a thread has received. -/
structure Receipt where
  worker : Nat
  task : TaskRequest

/-- A chunk that a thread has sent, with its state when the bridge call began. -/
structure Sent where
  worker : Nat
  tx : StreamTx
  chunk : ResponseChunk
  before : WorkerState

/-- The pool with a record of its run: the state of each thread at the beginning of its
last bridge call, the tasks received and the chunks sent. -/
structure Recorded (serde : SerdeJson) where
  pool : State (extensionRuntime serde)
  began : Nat → Option WorkerState
  received : List Receipt
  sent : List Sent

namespace Recorded

def start (serde : SerdeJson) (cfg : WorkersConfig) : Recorded serde :=
  { pool := init (extensionRuntime serde) cfg, began := fun _ => none, received := []
    sent := [] }

/-- The record after a step of thread `w`. -/
def record (o : Recorded serde) (pool : State (extensionRuntime serde)) (w : Nat)
    (h : ChannelWorker) : ChannelWorker.ThreadAct → Recorded serde
  | .call s =>
      { o with
        pool
        began := update o.began w (some h.state)
        received := o.received ++ (h.receipt (.call s)).toList.map (Receipt.mk w) }
  | .perform =>
      match h.effects, o.began w with
      | .send tx c :: _, some before => { o with pool, sent := o.sent ++ [⟨w, tx, c, before⟩] }
      | _, _ => { o with pool }
  | _ => { o with pool }

/-- A step of the pool, recorded. -/
def step (serde : SerdeJson) (cfg : WorkersConfig) (o : Recorded serde)
    (a : Action (extensionRuntime serde)) : Option (Recorded serde) :=
  (Pool.step serde cfg o.pool a).map fun pool =>
    match a with
    | .work w act =>
        match o.pool.workers w with
        | some h => o.record pool w h act
        | none => { o with pool }
    | _ => { o with pool }

/-- How often the request of a stream was received. -/
def receivedOn (o : Recorded serde) (k : StreamTx) : Nat :=
  (o.received.map fun r => r.task.streamTx).count k

variable {o o' : Recorded serde}

/-- A recorded step: of the pool alone, or of a thread. -/
theorem step_cases (h : Recorded.step serde cfg o a = some o') :
    Move serde cfg o.pool a o'.pool ∧
      ((∀ w act, a ≠ .work w act) ∧ o' = { o with pool := o'.pool } ∨
        ∃ w act worker, a = .work w act ∧ o.pool.workers w = some worker ∧
          o' = o.record o'.pool w worker act) := by
  obtain ⟨pool, hstep, rfl⟩ := Option.map_eq_some_iff.mp h
  have move := Pool.step_move hstep
  have record_pool (w : Nat) (worker : ChannelWorker) (act : ChannelWorker.ThreadAct) :
      (o.record pool w worker act).pool = pool := by
    cases act with
    | perform =>
        simp only [record]
        split
        · rfl
        · rfl
    | _ => rfl
  cases a with
  | work w act =>
      simp only [Pool.step, work] at hstep
      obtain ⟨worker, hw, _⟩ := Option.bind_eq_some_iff.mp hstep
      have hpool : (o.record pool w worker act).pool = pool := record_pool w worker act
      simp only [hw]
      refine ⟨?_, .inr ⟨w, act, worker, rfl, hw, ?_⟩⟩
      · exact hpool.symm ▸ move
      · exact congrArg (fun pool => o.record pool w worker act) hpool.symm
  | _ =>
      refine ⟨move, .inl ⟨?_, rfl⟩⟩
      intro w act heq
      cases heq

theorem record_receivedOn (o : Recorded serde) (pool : State (extensionRuntime serde)) (w : Nat)
    (h : ChannelWorker) (act : ChannelWorker.ThreadAct) (k : StreamTx) :
    (o.record pool w h act).receivedOn k =
      o.receivedOn k + ((h.receipt act).toList.map TaskRequest.streamTx).count k := by
  cases act with
  | call s =>
      cases hreceipt : h.receipt (.call s) with
      | none => simp [record, receivedOn, hreceipt]
      | some r => simp [record, receivedOn, hreceipt]
  | perform =>
      simp only [record]
      split
      · rfl
      · rfl
  | _ => rfl

/-- The invariant: a task in a channel belongs to the owner of its stream, and a request
is in a channel or was received, once. -/
structure Once (cfg : WorkersConfig) (o : Recorded serde) : Prop where
  ticketed : Ticketed cfg o.pool
  staffed : Staffed Neat o.pool
  once : ∀ k, o.receivedOn k ≤ 1
  queued : ∀ k w (h : ChannelWorker), o.pool.workers w = some h → 0 < h.queuedOn k →
    (o.pool.streams k).owner = some w ∧ h.queuedOn k + o.receivedOn k ≤ 1
  owned : ∀ k, 0 < o.receivedOn k → (o.pool.streams k).owner ≠ none

theorem Once.start (serde : SerdeJson) (cfg : WorkersConfig) :
    (Recorded.start serde cfg).Once cfg where
  ticketed := Ticketed.init (extensionRuntime serde) cfg
  staffed := Staffed.init cfg
  once _ := Nat.zero_le 1
  queued k w h hw := by cases hw
  owned k h := absurd h (Nat.lt_irrefl 0)

/-- A request without an owner is in no task channel and was not received. -/
theorem Once.unowned (h : o.Once cfg) {k : StreamTx}
    (howner : (o.pool.streams k).owner = none) :
    o.receivedOn k = 0 ∧ ∀ w (worker : ChannelWorker), o.pool.workers w = some worker →
      worker.queuedOn k = 0 := by
  refine ⟨?_, fun w worker hw => ?_⟩
  · by_contra hne
    exact h.owned k (Nat.pos_of_ne_zero hne) howner
  · by_contra hne
    have hsome := (h.queued k w worker hw (Nat.pos_of_ne_zero hne)).1
    exact absurd (howner.symm.trans hsome) nofun

theorem Once.aside (h : o.Once cfg) (hticketed : Ticketed cfg q) (hstaffed : Staffed Neat q)
    (hthreads : Untouched o.pool q)
    (howner : ∀ k, (q.streams k).owner = (o.pool.streams k).owner) :
    Once cfg { o with pool := q } where
  ticketed := hticketed
  staffed := hstaffed
  once := h.once
  queued k w worker hw hpos := by
    rcases hthreads w worker hw with ⟨old, hold, hstate, _⟩ | ⟨hempty, _⟩
    · have hsame : worker.queuedOn k = old.queuedOn k := by
        rw [ChannelWorker.queuedOn, hstate, ChannelWorker.queuedOn]
      rw [hsame] at hpos ⊢
      obtain ⟨hown, hle⟩ := h.queued k w old hold hpos
      exact ⟨(howner k).trans hown, hle⟩
    · simp [ChannelWorker.queuedOn, hempty] at hpos
  owned k hpos := by
    show (q.streams k).owner ≠ none
    rw [howner]
    exact h.owned k hpos

/-- The request that `execute_streaming` puts into a channel had no owner. -/
theorem Once.executed (h : o.Once cfg) (hticketed : Ticketed cfg q) (hstaffed : Staffed Neat q)
    {w : Nat} {req : DispatchRequest} {worker worker' : ChannelWorker} {kept : Bool}
    (hheld : (o.pool.streams req.streamTx).owner = none)
    (hw : o.pool.workers w = some worker) (hexecution : Execution worker req worker' kept)
    (hworkers : q.workers = update o.pool.workers w (some worker'))
    (howner : ∀ k, (q.streams k).owner =
      if k = req.streamTx then some w else (o.pool.streams k).owner) :
    Once cfg { o with pool := q } := by
  obtain ⟨hunreceived, hunqueued⟩ := h.unowned hheld
  have hqueue (k : StreamTx) : worker'.queuedOn k ≤
      worker.queuedOn k + if k = req.streamTx then 1 else 0 := by
    cases hexecution with
    | failed => exact Nat.le_add_right _ _
    | queued =>
        by_cases hk : k = req.streamTx
        · simp [ChannelWorker.queuedOn, ChannelWorker.task, hk]
        · simp [ChannelWorker.queuedOn, ChannelWorker.task, hk, Ne.symm hk]
  refine ⟨hticketed, hstaffed, h.once, fun k w' other hw' hpos => ?_, fun k hpos => ?_⟩
  · have hbound := hqueue k
    have hother (hne : w' ≠ w) : o.pool.workers w' = some other := by
      have hold := hw'
      simp only [hworkers, update_of_ne hne] at hold
      exact hold
    have hself (heq : w' = w) : other = worker' := by
      have hnew := hw'
      simp only [hworkers, heq, update_self] at hnew
      exact (Option.some.inj hnew).symm
    by_cases hk : k = req.streamTx
    · by_cases hww : w' = w
      · refine ⟨by simp [howner, hk, hww], ?_⟩
        have hzero := hunqueued w worker hw
        show other.queuedOn k + o.receivedOn k ≤ 1
        rw [hself hww, hk, hunreceived]
        rw [hk, if_pos rfl] at hbound
        omega
      · have hzero := hunqueued w' other (hother hww)
        rw [← hk] at hzero
        omega
    · rw [if_neg hk, Nat.add_zero] at hbound
      have hsame : (q.streams k).owner = (o.pool.streams k).owner := by rw [howner, if_neg hk]
      by_cases hww : w' = w
      · rw [hself hww] at hpos ⊢
        obtain ⟨hown, hle⟩ := h.queued k w worker hw (by omega)
        refine ⟨hsame.trans (hww ▸ hown), ?_⟩
        show worker'.queuedOn k + o.receivedOn k ≤ 1
        omega
      · obtain ⟨hown, hle⟩ := h.queued k w' other (hother hww) hpos
        exact ⟨hsame.trans hown, hle⟩
  · show (q.streams k).owner ≠ none
    rw [howner]
    split
    · exact nofun
    · exact h.owned k hpos

/-- What a thread receives leaves its channel. -/
theorem Once.worked (h : o.Once cfg) (hticketed : Ticketed cfg q) (hstaffed : Staffed Neat q)
    {w : Nat} {act : ChannelWorker.ThreadAct} {worker worker' : ChannelWorker}
    {op : Option StreamOp} (hw : o.pool.workers w = some worker)
    (hact : worker.act serde act = some (worker', op))
    (hworkers : q.workers = update o.pool.workers w (some worker'))
    (howner : ∀ k, (q.streams k).owner = (o.pool.streams k).owner)
    (hpool : (o.record q w worker act).pool = q) : Once cfg (o.record q w worker act) := by
  have hpaired := (h.staffed.good w worker hw).paired
  have hreceived := o.record_receivedOn q w worker act
  have htake := act_queuedOn hpaired hact
  constructor
  · rwa [hpool]
  · rwa [hpool]
  · intro k
    rw [hreceived]
    have hone := h.once k
    by_cases hpos : 0 < worker.queuedOn k
    · have := (h.queued k w worker hw hpos).2
      have := htake k
      omega
    · have := htake k
      omega
  · intro k w' other hw' hpos
    rw [hpool, howner, hreceived]
    rw [hpool, hworkers] at hw'
    by_cases hww : w' = w
    · subst hww
      rw [update_self] at hw'
      cases hw'
      have := htake k
      obtain ⟨hown, hle⟩ := h.queued k w' worker hw (by omega)
      exact ⟨hown, by omega⟩
    · rw [update_of_ne hww] at hw'
      obtain ⟨hown, hle⟩ := h.queued k w' other hw' hpos
      refine ⟨hown, ?_⟩
      -- another thread has the request in its channel, so this one did not receive it
      have hzero : worker.queuedOn k = 0 := by
        by_contra hne
        have hself := (h.queued k w worker hw (Nat.pos_of_ne_zero hne)).1
        exact hww (Option.some.inj (hown.symm.trans hself))
      have := htake k
      omega
  · intro k hpos
    rw [hpool, howner]
    rw [hreceived] at hpos
    by_cases hold : 0 < o.receivedOn k
    · exact h.owned k hold
    · have := htake k
      have hqueued : 0 < worker.queuedOn k := by omega
      rw [(h.queued k w worker hw hqueued).1]
      exact nofun

/-- Every recorded step keeps the invariant. -/
theorem Once.step (h : o.Once cfg) (hstep : Recorded.step serde cfg o a = some o') :
    o'.Once cfg := by
  obtain ⟨move, hrecord⟩ := step_cases hstep
  have hticketed := h.ticketed.step move
  have hstaffed := Neat.step h.staffed move
  have aside (hnot : ∀ w act, a ≠ .work w act) : o' = { o with pool := o'.pool } := by
    rcases hrecord with ⟨_, heq⟩ | ⟨w, act, _, ha, _⟩
    · exact heq
    · exact absurd ha (hnot w act)
  have passage := step_passage h.ticketed move
  cases passage with
  | aside hnot hthreads howner =>
      rw [aside hnot]
      exact h.aside hticketed hstaffed hthreads howner
  | executed ha _ hheld hw hexecution hworkers howner =>
      rw [aside (by simp [ha])]
      exact h.executed hticketed hstaffed hheld hw hexecution hworkers howner
  | @worked w act worker worker' op ha hw hact hworkers howner =>
      rcases hrecord with ⟨hnot, _⟩ | ⟨w₁, act₁, worker₁, ha₁, hw₁, heq⟩
      · exact absurd ha (hnot w act)
      · rw [ha] at ha₁
        cases ha₁
        obtain rfl : worker₁ = worker := Option.some.inj (hw₁.symm.trans hw)
        rw [heq]
        exact h.worked hticketed hstaffed hw hact hworkers howner (congrArg pool heq).symm

end Recorded

end FolkCore.Ext
