import FolkCore.Ext.Turns
import FolkCore.Pool.Handles

/-!
# Spawning workers of the extension

`ExtensionRuntime` keeps the pre-connected channels of the main PHP thread in a
shared vector and creates threads when more than one worker is configured. `Hosted` is
the pool together with this state, so that the handles that `spawn` returns are those
of the source and not the runtime's choice. The sending end of the main thread's task
channel is moved: out of the vector, into a handle, and away with `terminate`.
-/

namespace FolkCore.Ext

open Bridge Function Lib Pool

/-- A thread that runs PHP: the one that started the server, or one of the runtime. -/
inductive Thread where
  | main
  | zts (workerId : UInt32)
  deriving DecidableEq, Repr

/-- `WorkerTxSide`: the runtime's ends of the channels of one thread. -/
structure WorkerTxSide where
  thread : Thread
  deriving DecidableEq, Repr

/-- `ExtensionRuntime` with the counter `NEXT_WORKER_ID`. -/
structure ExtensionRuntime where
  config : WorkersConfig
  channels : List WorkerTxSide
  nextWorkerId : UInt32

/-- A new handle with the thread at the other end of its channels. -/
structure Connection where
  handle : ChannelWorker
  thread : Thread

namespace ExtensionRuntime

def new (config : WorkersConfig) (txSides : List WorkerTxSide) : ExtensionRuntime :=
  { config, channels := txSides, nextWorkerId := 1 }

/-- `NEXT_WORKER_ID.fetch_add`. -/
def drawWorkerId (rt : ExtensionRuntime) : UInt32 × ExtensionRuntime :=
  (rt.nextWorkerId, { rt with nextWorkerId := rt.nextWorkerId + 1 })

/-- The last pair of the vector is popped. -/
def takePreconnected (rt : ExtensionRuntime) : Except String Connection × ExtensionRuntime :=
  let (workerId, rt) := rt.drawWorkerId
  match rt.channels.getLast? with
  | none => (.error s!"no more pre-connected channels (worker {workerId})", rt)
  | some side =>
      (.ok ⟨.fresh workerId false, side.thread⟩,
        { rt with channels := rt.channels.dropLast })

/-- A new thread; `cwd` is what `current_dir` gave. -/
def spawnZtsWorker (rt : ExtensionRuntime) (cwd : Option String) :
    Except String Connection × ExtensionRuntime :=
  let (workerId, rt) := rt.drawWorkerId
  match cwd with
  | none => (.error "cannot determine current directory", rt)
  | some _ => (.ok ⟨.fresh workerId true, .zts workerId⟩, rt)

def spawn (rt : ExtensionRuntime) (cwd : Option String) :
    Except String Connection × ExtensionRuntime :=
  if !rt.channels.isEmpty then rt.takePreconnected
  else if 1 < rt.config.count then rt.spawnZtsWorker cwd
  else (.error "no workers available and ZTS multi-worker not requested", rt)

end ExtensionRuntime

variable {serde : SerdeJson} {cfg : WorkersConfig}

/-- The pool, its runtime, and the thread at the other end of each handle. -/
structure Hosted (serde : SerdeJson) where
  pool : State (extensionRuntime serde)
  runtime : ExtensionRuntime
  threads : Nat → Option Thread

/-- A supervisor calls `spawn`, or a step of the pool that does not. -/
inductive HostAction (serde : SerdeJson) where
  | spawn (i : Nat) (cwd : Option String)
  | other (a : Action (extensionRuntime serde))

/-- The result of a `spawn`. -/
def returnsSpawn : Action (extensionRuntime serde) → Bool
  | .supervise _ (.spawned _) => true
  | .supervise _ .spawnFailed => true
  | _ => false

namespace Hosted

/-- `start_server`: one channel pair, for the main thread. -/
def start (serde : SerdeJson) (cfg : WorkersConfig) : Hosted serde :=
  { pool := init (extensionRuntime serde) cfg, runtime := .new cfg [⟨.main⟩]
    threads := fun _ => none }

def step (serde : SerdeJson) (cfg : WorkersConfig) (s : Hosted serde) :
    HostAction serde → Option (Hosted serde)
  | .spawn i cwd =>
      match s.runtime.spawn cwd with
      | (.ok c, rt) =>
          (Pool.step serde cfg s.pool (.supervise i (.spawned c.handle))).map fun pool =>
            { pool, runtime := rt, threads := update s.threads s.pool.handles (some c.thread) }
      | (.error _, rt) =>
          (Pool.step serde cfg s.pool (.supervise i .spawnFailed)).map fun pool =>
            { s with pool, runtime := rt }
  | .other a =>
      if returnsSpawn a then none
      else (Pool.step serde cfg s.pool a).map fun pool => { s with pool }

/-- The task channel of the main thread has a sender. -/
def MainConnected (s : Hosted serde) : Prop :=
  ⟨.main⟩ ∈ s.runtime.channels ∨
    ∃ w h, s.threads w = some .main ∧ s.pool.workers w = some h ∧ h.taskTx = true

end Hosted

/-- Everything the pool with its runtime can do. -/
inductive Hosted.Move (serde : SerdeJson) (cfg : WorkersConfig) (s : Hosted serde) :
    Hosted serde → Prop
  | connected {i : Nat} {cwd : Option String} {c : Connection} {rt : ExtensionRuntime}
      {pool : State (extensionRuntime serde)} (hspawn : s.runtime.spawn cwd = (.ok c, rt))
      (hstep : Pool.step serde cfg s.pool (.supervise i (.spawned c.handle)) = some pool) :
      Move serde cfg s
        { pool, runtime := rt, threads := update s.threads s.pool.handles (some c.thread) }
  | refused {i : Nat} {cwd : Option String} {e : String} {rt : ExtensionRuntime}
      {pool : State (extensionRuntime serde)} (hspawn : s.runtime.spawn cwd = (.error e, rt))
      (hstep : Pool.step serde cfg s.pool (.supervise i .spawnFailed) = some pool) :
      Move serde cfg s { s with pool, runtime := rt }
  | other {a : Action (extensionRuntime serde)} {pool : State (extensionRuntime serde)}
      (ha : returnsSpawn a = false) (hstep : Pool.step serde cfg s.pool a = some pool) :
      Move serde cfg s { s with pool }

variable {s t : Hosted serde}

theorem Hosted.step_move {a : HostAction serde} (h : Hosted.step serde cfg s a = some t) :
    Hosted.Move serde cfg s t := by
  cases a with
  | spawn i cwd =>
      simp only [Hosted.step] at h
      split at h
      · next c rt hspawn =>
          obtain ⟨pool, hstep, rfl⟩ := Option.map_eq_some_iff.mp h
          exact .connected hspawn hstep
      · next e rt hspawn =>
          obtain ⟨pool, hstep, rfl⟩ := Option.map_eq_some_iff.mp h
          exact .refused hspawn hstep
  | other a =>
      simp only [Hosted.step] at h
      split at h
      · cases h
      · next ha =>
          obtain ⟨pool, hstep, rfl⟩ := Option.map_eq_some_iff.mp h
          exact .other (Bool.eq_false_iff.mpr ha) hstep

/-- A step of the whole is a step of the pool. -/
theorem Hosted.Move.pool_move (move : Hosted.Move serde cfg s t) :
    ∃ a, Pool.Move serde cfg s.pool a t.pool := by
  cases move with
  | connected _ hstep => exact ⟨_, Pool.step_move hstep⟩
  | refused _ hstep => exact ⟨_, Pool.step_move hstep⟩
  | other _ hstep => exact ⟨_, Pool.step_move hstep⟩

section Closing

/-- A thread does not have the sending end of its task channel. -/
theorem act_taskTx {h h' : ChannelWorker} {act : ChannelWorker.ThreadAct}
    {op : Option StreamOp} (hact : h.act serde act = some (h', op)) : h'.taskTx = h.taskTx := by
  cases act_move hact with
  | @perform e rest _ => exact performEffect_taskTx h rest e
  | _ => rfl

variable {p q : State (extensionRuntime serde)} {a : Action (extensionRuntime serde)} {w : Nat}

/-- The worker behind handle `w` has lost its sender. -/
def Disconnected (w : Nat) (p : State (extensionRuntime serde)) : Prop :=
  ∃ h : ChannelWorker, p.workers w = some h ∧ h.taskTx = false

/-- A sender that was dropped does not come back. -/
theorem Disconnected.step (h : Disconnected w p) (hw : w < p.handles)
    (move : Pool.Move serde cfg p a q) : Disconnected w q := by
  obtain ⟨worker, hworker, hclosed⟩ := h
  have handled := step_handled move w
  unfold Disconnected
  generalize q.workers w = worker' at handled ⊢
  cases handled with
  | same => exact ⟨worker, hworker, hclosed⟩
  | spawned heq => exact absurd heq (Nat.ne_of_lt hw)
  | @executed _ _ _ old new _ _ _ hold hcall =>
      obtain rfl : old = worker := Option.some.inj (hold.symm.trans hworker)
      refine ⟨new, rfl, ?_⟩
      have execution := execute_execution hcall
      cases execution with
      | failed => exact hclosed
      | queued => exact hclosed
  | @released old new hold hreleased =>
      obtain rfl : old = worker := Option.some.inj (hold.symm.trans hworker)
      refine ⟨new, rfl, ?_⟩
      cases hreleased with
      | settled => exact hclosed
      | _ => rfl
  | @acted act old new op _ hold hact =>
      obtain rfl : old = worker := Option.some.inj (hold.symm.trans hworker)
      exact ⟨new, rfl, (act_taskTx hact).trans hclosed⟩

/-- `terminate` drops the sender in the step that is noted. -/
theorem terminated_disconnected {i j : Nat} {why : Reason}
    {b : SupervisorAction (extensionRuntime serde)}
    {r : Slot × List (Command (extensionRuntime serde))}
    (move : Slot.Move cfg i p.view (p.slots i) b r.1 r.2)
    (hnoted : .terminated j w why ∈ r.2.filterMap Command.noted) :
    Disconnected w (p.supervise i r) := by
  obtain ⟨slot', commands⟩ := r
  cases move with
  | bootFailed | reloaded | reloadClosed | inboxClosed | recycled =>
      simp only [Command.noted, List.filterMap_cons, List.filterMap_nil, List.mem_singleton,
        Event.terminated.injEq] at hnoted
      obtain ⟨_, rfl, _⟩ := hnoted
      exact ⟨_, update_self .., rfl⟩
  | _ => simp [Command.noted, List.filterMap_cons] at hnoted

end Closing

/-- The invariant of the hosted pool: a terminated handle has no sender. -/
structure Hosted.Tracked (s : Hosted serde) : Prop where
  housed : Housed s.pool
  closed : ∀ i w why, .terminated i w why ∈ s.pool.history → Disconnected w s.pool

theorem Hosted.Tracked.start (serde : SerdeJson) (cfg : WorkersConfig) :
    (Hosted.start serde cfg).Tracked where
  housed := Housed.init (extensionRuntime serde) cfg
  closed i w why h := by cases h

theorem Hosted.Tracked.step (h : s.Tracked) (move : Hosted.Move serde cfg s t) : t.Tracked := by
  obtain ⟨a, hpool⟩ := move.pool_move
  refine ⟨h.housed.step hpool, fun i w why hmem => ?_⟩
  have old (hold : .terminated i w why ∈ s.pool.history) : Disconnected w t.pool :=
    (h.closed i w why hold).step (h.housed.noted _ hold i w rfl) hpool
  generalize t.pool = pool at hpool hmem old ⊢
  cases hpool with
  | refused | poolGone | judged | exhausted | delivered | pushed =>
      exact old (by simpa using hmem)
  | supervised hi hstep move =>
      rw [State.supervise_history, List.mem_append] at hmem
      exact hmem.elim old (terminated_disconnected move)
  | _ => exact old hmem

section OneWorker

/-- The handles that an action draws. -/
def draws {R : Runtime} : Action R → Nat
  | .supervise _ (.spawned _) => 1
  | _ => 0

theorem handles_draws {p q : State (extensionRuntime serde)}
    {a : Action (extensionRuntime serde)} (move : Pool.Move serde cfg p a q) :
    q.handles = p.handles + draws a := by
  cases move with
  | @supervised i b r _ _ move =>
      obtain ⟨slot', commands⟩ := r
      rw [p.supervise_handles]
      cases move with
      | _ => rfl
  | _ => rfl

/-- With the main thread's pair in the vector, `spawn` hands it out. -/
theorem spawn_main {rt : ExtensionRuntime} (hchannels : rt.channels = [⟨.main⟩])
    (cwd : Option String) :
    rt.spawn cwd = (.ok ⟨.fresh rt.nextWorkerId false, .main⟩,
      { rt with channels := [], nextWorkerId := rt.nextWorkerId + 1 }) := by
  simp [ExtensionRuntime.spawn, ExtensionRuntime.takePreconnected,
    ExtensionRuntime.drawWorkerId, hchannels]

/-- Afterwards a runtime for one worker has nothing to hand out. -/
theorem spawn_none {rt : ExtensionRuntime} (hchannels : rt.channels = [])
    (hcount : rt.config.count ≤ 1) (cwd : Option String) :
    rt.spawn cwd = (.error "no workers available and ZTS multi-worker not requested", rt) := by
  simp [ExtensionRuntime.spawn, hchannels, Nat.not_lt.mpr hcount]

/-- The pair of the main thread is in the vector, or the first handle has it. -/
structure Hosted.Lone (cfg : WorkersConfig) (s : Hosted serde) : Prop where
  tracked : s.Tracked
  config : s.runtime.config = cfg
  pair : s.runtime.channels = [⟨.main⟩] ∧ s.pool.handles = 0 ∨
    s.runtime.channels = [] ∧ s.pool.handles = 1 ∧ s.threads 0 = some .main
  unused : ∀ w, s.pool.handles ≤ w → s.threads w = none

theorem Hosted.Lone.start (serde : SerdeJson) (cfg : WorkersConfig) :
    (Hosted.start serde cfg).Lone cfg where
  tracked := .start serde cfg
  config := rfl
  pair := .inl ⟨rfl, rfl⟩
  unused _ _ := rfl

theorem Hosted.Lone.step (hcount : cfg.count ≤ 1) (h : s.Lone cfg)
    (move : Hosted.Move serde cfg s t) : t.Lone cfg := by
  have htracked := h.tracked.step move
  have hone : s.runtime.config.count ≤ 1 := h.config ▸ hcount
  cases move with
  | @connected i cwd c rt pool hspawn hstep =>
      have hhandles : pool.handles = s.pool.handles + 1 := handles_draws (Pool.step_move hstep)
      rcases h.pair with ⟨hchannels, hzero⟩ | ⟨hchannels, _, _⟩
      · rw [spawn_main hchannels] at hspawn
        cases hspawn
        refine ⟨htracked, h.config, .inr ⟨rfl, ?_, ?_⟩, fun w hw => ?_⟩
        · rw [hhandles, hzero]
        · simp [hzero]
        · have hw' : s.pool.handles + 1 ≤ w := hhandles ▸ hw
          have hne : w ≠ s.pool.handles := by omega
          simpa [hne] using h.unused w (by omega)
      · rw [spawn_none hchannels hone] at hspawn
        cases hspawn
  | @refused i cwd e rt pool hspawn hstep =>
      have hhandles : pool.handles = s.pool.handles := handles_draws (Pool.step_move hstep)
      rcases h.pair with ⟨hchannels, _⟩ | hmoved
      · rw [spawn_main hchannels] at hspawn
        cases hspawn
      · rw [spawn_none hmoved.1 hone] at hspawn
        cases hspawn
        exact ⟨htracked, h.config, .inr (hhandles.symm ▸ hmoved), hhandles.symm ▸ h.unused⟩
  | @other a pool ha hstep =>
      have hdraws : draws a = 0 := by
        cases a with
        | supervise i b => cases b <;> simp [returnsSpawn, draws] at ha ⊢
        | _ => rfl
      have hhandles : pool.handles = s.pool.handles := by
        rw [handles_draws (Pool.step_move hstep), hdraws, Nat.add_zero]
      exact ⟨htracked, h.config, hhandles.symm ▸ h.pair, hhandles.symm ▸ h.unused⟩

theorem lone_of_reachable (hcount : cfg.count ≤ 1)
    (h : Reachable (Hosted.step serde cfg) (Hosted.start serde cfg) s) : s.Lone cfg :=
  h.invariant (Hosted.Lone cfg) (.start serde cfg) fun _ _ _ hs _ hstep =>
    hs.step hcount (Hosted.step_move hstep)

/-- The first handle is terminated: the main thread is cut off. -/
theorem Hosted.Lone.cut_off (h : s.Lone cfg) {i w : Nat} {why : Reason}
    (hterminated : .terminated i w why ∈ s.pool.history) :
    s.runtime.channels = [] ∧ s.threads w = some .main ∧ ¬s.MainConnected := by
  have hdrawn := h.tracked.housed.noted _ hterminated i w rfl
  rcases h.pair with ⟨_, hzero⟩ | ⟨hchannels, hone, hmain⟩
  · omega
  · obtain rfl : w = 0 := by omega
    refine ⟨hchannels, hmain, ?_⟩
    rintro (hmem | ⟨w', worker, hthread, hworker, hopen⟩)
    · simp [hchannels] at hmem
    · have hlt : w' < s.pool.handles := by
        by_contra hge
        exact absurd ((h.unused w' (Nat.le_of_not_lt hge)).symm.trans hthread) nofun
      obtain rfl : w' = 0 := by omega
      obtain ⟨closed, hclosed, hfalse⟩ := h.tracked.closed i 0 why hterminated
      obtain rfl : worker = closed := Option.some.inj (hworker.symm.trans hclosed)
      exact absurd (hopen.symm.trans hfalse) nofun

theorem Hosted.Lone.no_spawn (h : s.Lone cfg) (hcount : cfg.count ≤ 1)
    (hchannels : s.runtime.channels = []) {cwd : Option String} {c : Connection}
    {rt : ExtensionRuntime} : s.runtime.spawn cwd ≠ (.ok c, rt) := by
  intro hspawn
  rw [spawn_none hchannels (h.config ▸ hcount)] at hspawn
  cases hspawn

/-- The history of a hosted pool grows. -/
theorem Hosted.Move.history_mono (move : Hosted.Move serde cfg s t) {e : Event}
    (he : e ∈ s.pool.history) : e ∈ t.pool.history := by
  obtain ⟨a, hpool⟩ := move.pool_move
  generalize t.pool = pool at hpool ⊢
  cases hpool with
  | refused | poolGone | judged | exhausted | delivered | pushed => simp [he]
  | supervised =>
      rw [State.supervise_history]
      exact List.mem_append_left _ he
  | _ => exact he

theorem mem_history_later (hlater : Reachable (Hosted.step serde cfg) s t) {e : Event}
    (he : e ∈ s.pool.history) : e ∈ t.pool.history :=
  hlater.invariant (fun u => e ∈ u.pool.history) he fun _ _ _ hu _ hstep =>
    (Hosted.step_move hstep).history_mono hu

/-- The dispatch loop of a thread without senders returns when its queue is empty. -/
theorem loop_returns {h : ChannelWorker} (hclosed : h.taskTx = false)
    (hrunning : h.stage = .running) (hidle : h.effects = []) (hqueue : h.state.taskRx = []) :
    ∃ h', h.act serde (.call .loopRecv) = some (h', none) ∧
      (Step.loopRecv.outcome serde h.state).reply = .looped false := by
  refine ⟨_, if_pos ⟨hrunning, by simp [hidle], fun _ => .inr hclosed⟩, ?_⟩
  simp [Step.outcome, loopRecv, Outcome.map, hqueue]

/-- With one worker, a boot attempt that fails, by an error of `ready` or by the boot
timeout, cuts the main thread off for good: no later `spawn` returns a handle, its task
channel has no sender in any later state, and its dispatch loop returns at the next
receive from an empty queue. -/
theorem failed_boot_cuts_main_off (serde : SerdeJson) (cfg : WorkersConfig)
    (hcount : cfg.count = 1) (s : Hosted serde)
    (h : Reachable (Hosted.step serde cfg) (Hosted.start serde cfg) s) (i w : Nat)
    (hfailed : .terminated i w .boot ∈ s.pool.history) (t : Hosted serde)
    (hlater : Reachable (Hosted.step serde cfg) s t) :
    (∀ cwd c rt, t.runtime.spawn cwd ≠ (.ok c, rt)) ∧ ¬t.MainConnected ∧
    ∀ w worker, t.threads w = some .main → t.pool.workers w = some worker →
      worker.stage = .running → worker.effects = [] → worker.state.taskRx = [] →
      ∃ worker', worker.act serde (.call .loopRecv) = some (worker', none) ∧
        (Step.loopRecv.outcome serde worker.state).reply = .looped false := by
  have hlone : t.Lone cfg := lone_of_reachable (Nat.le_of_eq hcount) (h.trans hlater)
  obtain ⟨hchannels, _, hcut⟩ := hlone.cut_off (mem_history_later hlater hfailed)
  refine ⟨fun cwd c rt => hlone.no_spawn (Nat.le_of_eq hcount) hchannels, hcut, ?_⟩
  · intro w' worker hthread hworker hrunning hidle hqueue
    have hclosed : worker.taskTx = false := by
      rw [Bool.eq_false_iff]
      exact fun hopen => hcut (.inr ⟨w', worker, hthread, hworker, hopen⟩)
    exact loop_returns hclosed hrunning hidle hqueue

/-- The main thread is slower than the boot timeout. -/
def slowBootRun (serde : SerdeJson) : List (HostAction serde) :=
  [.other (.supervise 0 .enterLoop), .spawn 0 none, .other (.work 0 .boot),
    .other (.tick 30000), .other (.supervise 0 .pollReady)]

/-- The note of a failed boot. -/
def isFailedBoot : Event → Bool
  | .terminated _ w .boot => decide (w = 0)
  | _ => false

theorem exists_failed_boot {history : List Event} (h : history.any isFailedBoot = true) :
    ∃ i, .terminated i 0 .boot ∈ history := by
  obtain ⟨e, he, htest⟩ := List.any_eq_true.mp h
  cases e with
  | terminated i w why =>
      cases why with
      | boot =>
          obtain rfl : w = 0 := of_decide_eq_true htest
          exact ⟨i, he⟩
      | _ => cases htest
  | _ => cases htest

/-- The boot timeout ends the first attempt. -/
theorem slow_boot_fails :
    ∃ s i, Reachable (Hosted.step .ofNull .single) (Hosted.start .ofNull .single) s ∧
      .terminated i 0 .boot ∈ s.pool.history := by
  have hrun : (runs (Hosted.step .ofNull .single) (Hosted.start .ofNull .single)
      (slowBootRun .ofNull)).any (fun s => s.pool.history.any isFailedBoot) = true := by
    decide
  obtain ⟨s, hs, htest⟩ := exists_reachable hrun
  obtain ⟨i, hfailed⟩ := exists_failed_boot htest
  exact ⟨s, i, hs, hfailed⟩

/-- The theorem at this run. -/
theorem slow_boot_cuts_main_off :
    ∃ s i, Reachable (Hosted.step .ofNull .single) (Hosted.start .ofNull .single) s ∧
      .terminated i 0 .boot ∈ s.pool.history ∧
      (∀ cwd c rt, s.runtime.spawn cwd ≠ (.ok c, rt)) ∧ ¬s.MainConnected := by
  obtain ⟨s, i, hs, hfailed⟩ := slow_boot_fails
  obtain ⟨hspawn, hcut, _⟩ :=
    failed_boot_cuts_main_off .ofNull .single rfl s hs i 0 hfailed s .start
  exact ⟨s, i, hs, hfailed, hspawn, hcut⟩

/-- After this run the main thread is not to be had again, and its channel is closed. -/
theorem slow_boot_not_retried :
    ∃ s i, Reachable (Hosted.step .ofNull .single) (Hosted.start .ofNull .single) s ∧
      .terminated i 0 .boot ∈ s.pool.history ∧ s.threads 0 = some .main ∧
      (¬∃ t, Reachable (Hosted.step .ofNull .single) s t ∧ ∃ cwd c rt,
        t.runtime.spawn cwd = (.ok c, rt) ∧ c.thread = .main) ∧ ¬s.MainConnected := by
  obtain ⟨s, i, hs, hfailed⟩ := slow_boot_fails
  have hcount : WorkersConfig.single.count ≤ 1 := Nat.le_refl 1
  obtain ⟨_, hmain, hcut⟩ := (lone_of_reachable hcount hs).cut_off hfailed
  refine ⟨s, i, hs, hfailed, hmain, ?_, hcut⟩
  rintro ⟨t, ht, cwd, c, rt, hspawn, _⟩
  have hlone := lone_of_reachable hcount (hs.trans ht)
  exact hlone.no_spawn hcount (hlone.cut_off (mem_history_later ht hfailed)).1 hspawn

end OneWorker

end FolkCore.Ext
