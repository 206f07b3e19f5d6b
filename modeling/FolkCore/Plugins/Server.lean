import FolkCore.Lib.Transition
import FolkCore.Plugins.Registry
import FolkCore.Pool.SlotInfo

/-!
# The life of the server

`FolkServer::run` waits for the warmup, the boots, a signal and the shutdowns, while the
clock goes on, signals come and plugins take their time. A `Stage` is the point at which it
waits. What is left to do at a stage is `Stage.rest`, in terms of the registry's own
functions on the answers that are still to come; every step keeps the sum of what was done
and what is left, so a run of the server makes the calls of `bootAll` and `shutdownAll`.
-/

namespace FolkCore.Plugins

open Lib

/-- The fields of `FolkConfig` that `run` reads: its own ones, and those of the sections
`server`, `workers` and `dev`. -/
structure FolkConfig where
  shutdownTimeout : Nat
  workers : Pool.WorkersConfig
  maxConcurrentPerWorker : Nat
  warmup : Bool
  watch : Bool

/-- `WorkersConfig::normalize`: only one request at a time is supported. -/
def FolkConfig.normalize (config : FolkConfig) : FolkConfig :=
  if config.maxConcurrentPerWorker > 1 then { config with maxConcurrentPerWorker := 1 }
  else if config.maxConcurrentPerWorker = 0 then { config with maxConcurrentPerWorker := 1 }
  else config

/-- Where `run` waits. `draining` has the deadline of the timeout around `shutdown_all`. -/
inductive Stage where
  | starting
  | warming
  | pooling
  | booting (i : Nat)
  | rollingBack (e : AnyError) (i : Nat)
  | waiting
  | draining (deadline i : Nat)
  | returned (result : Outcome) (timedOut : Bool)
  | killed
  | panicked

structure Server where
  stage : Stage
  now : Nat
  config : FolkConfig
  devMode : Bool
  poolStarted : Bool
  watching : Bool
  shutdown : Bool
  calls : List Call

namespace Server

def start (config : FolkConfig) : Server :=
  { stage := .starting, now := 0, config, devMode := false, poolStarted := false
    watching := false, shutdown := false, calls := [] }

/-- What the server, its plugins and the world around can do. A `signal` is SIGTERM or
SIGINT. -/
inductive Action where
  | launch
  | warmed (result : Except String Unit)
  | startPool (watcher : Except String Unit)
  | booted (result : Outcome)
  | stopped (result : Outcome)
  | signal
  | expire
  | elapse (time : Nat)
  | panic

section Steps

variable (names : List String)

/-- The error of `boot_all` for plugin `i`. -/
def bootError (i : Nat) (e : AnyError) : AnyError :=
  e.withContext ("plugin '" ++ names.getD i "" ++ "' boot failed")

/-- `shutdown_partial(count)` goes on with its next plugin, or ends. -/
def shutdownNext (count : Nat) (more : Nat → Stage) (done : Stage) : Stage :=
  match count with
  | 0 => done
  | i + 1 => more i

/-- `boot_all` goes on with plugin `i`, or is through. -/
def bootNext (i : Nat) : Stage := if i < names.length then .booting i else .waiting

/-- After a failed boot of plugin `i` those before it are shut down, and `run` returns. -/
def rollBack (i : Nat) (e : AnyError) : Stage :=
  shutdownNext i (.rollingBack (bootError names i e))
    (.returned (.error ((bootError names i e).withContext "plugin boot failed")) false)

/-- The failed warmup and the failed watcher are only logged. The handlers for the signals
are installed when `run` waits for one; before that a signal ends the process. -/
def step (s : Server) : Action → Option Server
  | .launch =>
      match s.stage with
      | .starting => some { s with
          config := s.config.normalize
          devMode := s.config.watch
          stage := if s.config.warmup then .warming else .pooling }
      | _ => none
  | .warmed _ =>
      match s.stage with
      | .warming => some { s with stage := .pooling }
      | _ => none
  | .startPool watcher =>
      match s.stage with
      | .pooling => some { s with
          poolStarted := true
          watching := s.config.watch && watcher.isOk
          stage := bootNext names 0 }
      | _ => none
  | .booted result =>
      match s.stage with
      | .booting i => some { s with
          calls := s.calls ++ [.boot i result]
          stage := match result with
            | .ok () => bootNext names (i + 1)
            | .error e => rollBack names i e }
      | _ => none
  | .stopped result =>
      match s.stage with
      | .rollingBack e i => some { s with
          calls := s.calls ++ [.shutdown i result]
          stage := shutdownNext i (.rollingBack e)
            (.returned (.error (e.withContext "plugin boot failed")) false) }
      | .draining deadline i => some { s with
          calls := s.calls ++ [.shutdown i result]
          stage := shutdownNext i (.draining deadline) (.returned (.ok ()) false) }
      | _ => none
  | .signal =>
      match s.stage with
      | .waiting => some { s with
          shutdown := true
          stage := shutdownNext names.length (.draining (s.now + s.config.shutdownTimeout))
            (.returned (.ok ()) false) }
      | .draining _ _ | .returned (.ok ()) _ => some s
      | .killed | .panicked => none
      | _ => some { s with stage := .killed }
  | .expire =>
      match s.stage with
      | .draining deadline _ =>
          if deadline ≤ s.now then some { s with stage := .returned (.ok ()) true } else none
      | _ => none
  | .elapse time => some { s with now := s.now + time }
  | .panic =>
      match s.stage with
      | .warming | .booting _ | .rollingBack _ _ | .draining _ _ =>
          some { s with stage := .panicked }
      | _ => none

end Steps

end Server

section Sequential

variable {W Ctx : Type*}

def Call.result : Call → Outcome
  | .boot _ result => result
  | .shutdown _ result => result

/-- `run` from the outcome of `boot_all` on: the failure gets its context, and a full boot is
followed by `shutdown_all`. -/
def PluginRegistry.close (reg : PluginRegistry W Ctx) : Outcome × Calls W → Outcome × Calls W
  | (.error e, c) => (.error (e.withContext "plugin boot failed"), c)
  | (.ok (), c) => (.ok (), reg.shutdownAll c)

/-- `run` without the waits in between. -/
def PluginRegistry.lifetime (reg : PluginRegistry W Ctx) (ctx : Ctx) (c : Calls W) :
    Outcome × Calls W := reg.close (reg.bootAll ctx c)

/-- A plugin that answers what the world says next, and with success when it says nothing. -/
def scripted (name : String) : Plugin (List Outcome) Unit where
  name := name
  boot _ answers := (answers.headD (.ok ()), answers.tail)
  shutdown answers := (answers.headD (.ok ()), answers.tail)

def registryOf (names : List String) : PluginRegistry (List Outcome) Unit :=
  ⟨names.map scripted⟩

/-- What is left of `run` at a stage. -/
def Stage.rest (reg : PluginRegistry (List Outcome) Unit) :
    Stage → Calls (List Outcome) → Outcome × Calls (List Outcome)
  | .starting, c | .warming, c | .pooling, c => reg.lifetime () c
  | .booting i, c => reg.close (reg.bootLoop () (reg.plugins.zipIdx.drop i) c)
  | .rollingBack e i, c =>
      (.error (e.withContext "plugin boot failed"), reg.shutdownPartial (i + 1) c)
  | .waiting, c => (.ok (), reg.shutdownAll c)
  | .draining _ i, c => (.ok (), reg.shutdownPartial (i + 1) c)
  | .returned result _, c => (result, c)
  | .killed, c | .panicked, c => (.ok (), c)

variable {names : List String} {i : Nat} {r : Outcome} {future : List Outcome}
  {made : List Call}

@[simp] theorem registryOf_length : (registryOf names).plugins.length = names.length := by
  simp [registryOf]

theorem registryOf_get (hi : i < names.length) :
    (registryOf names).plugins[i]? = some (scripted names[i]) := by
  simp [registryOf, hi]

/-- The next answer is that of the shutdown. -/
theorem shutdownPartial_scripted (hi : i < names.length) :
    (registryOf names).shutdownPartial (i + 1) ⟨r :: future, made⟩ =
      (registryOf names).shutdownPartial i ⟨future, made ++ [.shutdown i r]⟩ :=
  (registryOf names).shutdownPartial_succ (registryOf_get hi) _

/-- The next answer is that of the boot. -/
theorem bootLoop_scripted (hi : i < names.length) :
    (registryOf names).bootLoop () ((registryOf names).plugins.zipIdx.drop i)
        ⟨r :: future, made⟩ =
      match r with
      | .ok () => (registryOf names).bootLoop () ((registryOf names).plugins.zipIdx.drop (i + 1))
          ⟨future, made ++ [.boot i (.ok ())]⟩
      | .error e => (.error (Server.bootError names i e),
          (registryOf names).shutdownPartial i ⟨future, made ++ [.boot i (.error e)]⟩) := by
  have hitem : (registryOf names).plugins.zipIdx.drop i =
      (scripted names[i], i) :: (registryOf names).plugins.zipIdx.drop (i + 1) := by
    rw [List.drop_eq_getElem_cons (by simpa using hi)]
    simp [registryOf]
  rw [hitem, PluginRegistry.bootLoop]
  cases r with
  | ok _ => rfl
  | error e => simp [Plugin.callBoot, scripted, Server.bootError, hi]

theorem rest_bootNext (hi : i ≤ names.length) (c : Calls (List Outcome)) :
    (Server.bootNext names i).rest (registryOf names) c =
      (registryOf names).close ((registryOf names).bootLoop ()
        ((registryOf names).plugins.zipIdx.drop i) c) := by
  unfold Server.bootNext
  by_cases hlt : i < names.length
  · rw [if_pos hlt]
    rfl
  · have hall : (registryOf names).plugins.zipIdx.drop i = [] :=
      List.drop_of_length_le (by simp; omega)
    rw [if_neg hlt, hall]
    rfl

/-- The shutdown loop comes to its end. -/
theorem rest_shutdownNext {more : Nat → Stage} {done : Stage} {o : Outcome}
    (hmore : ∀ i c, (more i).rest (registryOf names) c =
      (o, (registryOf names).shutdownPartial (i + 1) c))
    (hdone : ∀ c, done.rest (registryOf names) c = (o, c)) (count : Nat)
    (c : Calls (List Outcome)) :
    (Server.shutdownNext count more done).rest (registryOf names) c =
      (o, (registryOf names).shutdownPartial count c) := by
  cases count with
  | zero => exact hdone c
  | succ i => exact hmore i c

theorem rest_rollBack (e : AnyError) (c : Calls (List Outcome)) :
    (Server.rollBack names i e).rest (registryOf names) c =
      (.error ((Server.bootError names i e).withContext "plugin boot failed"),
        (registryOf names).shutdownPartial i c) :=
  rest_shutdownNext (fun _ _ => rfl) (fun _ => rfl) i c

theorem shutdownLoop_made {W Ctx : Type*} (items : List (Plugin W Ctx × Nat)) (c : Calls W) :
    c.made <+: (PluginRegistry.shutdownLoop items c).made := by
  induction items generalizing c with
  | nil => exact List.prefix_rfl
  | cons item rest ih => exact (List.prefix_append _ _).trans (ih (item.1.callShutdown item.2 c).2)

theorem bootLoop_made {W Ctx : Type*} (reg : PluginRegistry W Ctx) (ctx : Ctx)
    (items : List (Plugin W Ctx × Nat)) (c : Calls W) :
    c.made <+: (reg.bootLoop ctx items c).2.made := by
  induction items generalizing c with
  | nil => exact List.prefix_rfl
  | cons item rest ih =>
      have hcall : c.made <+: (item.1.callBoot item.2 ctx c).2.made := List.prefix_append _ _
      rw [PluginRegistry.bootLoop]
      rcases hanswer : item.1.callBoot item.2 ctx c with ⟨answer, t⟩
      rw [hanswer] at hcall
      cases answer with
      | error e => exact hcall.trans (shutdownLoop_made _ t)
      | ok _ => exact hcall.trans (ih t)

theorem close_made {W Ctx : Type*} (reg : PluginRegistry W Ctx) (o : Outcome × Calls W) :
    o.2.made <+: (reg.close o).2.made := by
  obtain ⟨r, c⟩ := o
  cases r with
  | error e => exact List.prefix_rfl
  | ok _ => exact shutdownLoop_made _ c

/-- What was done is never taken back. -/
theorem Stage.rest_made (reg : PluginRegistry (List Outcome) Unit) (stage : Stage)
    (c : Calls (List Outcome)) : c.made <+: (stage.rest reg c).2.made := by
  cases stage with
  | starting | warming | pooling | booting =>
      exact (bootLoop_made reg () _ c).trans (close_made reg _)
  | rollingBack | waiting | draining => exact shutdownLoop_made _ c
  | returned | killed | panicked => exact List.prefix_rfl

end Sequential

/-- The plugin that a stage waits for is one of the server's. -/
def Stage.Within (n : Nat) : Stage → Prop
  | .booting i => i < n
  | .rollingBack _ i => i < n
  | .draining _ i => i < n
  | _ => True

/-- The server goes on, or has returned by itself. -/
def Stage.live : Stage → Bool
  | .returned _ timedOut => !timedOut
  | .killed => false
  | .panicked => false
  | _ => true

/-- `run` without the waits, on the answers of the plugins and on what they would answer
next. -/
def Server.sequential (names : List String) (s : Server) (future : List Outcome) :
    Outcome × Calls (List Outcome) :=
  (registryOf names).lifetime () ⟨s.calls.map Call.result ++ future, []⟩

/-- The calls made so far and what is left of `run` are `run` without the waits. -/
structure Server.Follows (names : List String) (s : Server) : Prop where
  within : s.stage.Within names.length
  rest : s.stage.live = true → ∀ future,
    s.sequential names future = s.stage.rest (registryOf names) ⟨future, s.calls⟩
  made : ∀ future, s.calls <+: (s.sequential names future).2.made
  result : ∀ r timedOut, s.stage = .returned r timedOut → ∀ future,
    (s.sequential names future).1 = r

namespace Server

variable {names : List String} {config : FolkConfig} {s t : Server}

/-- The steps of the server, with the stages at which they can be taken. -/
inductive Move (names : List String) (s : Server) : Action → Server → Prop
  | launched (hstage : s.stage = .starting) :
      Move names s .launch { s with
        config := s.config.normalize
        devMode := s.config.watch
        stage := if s.config.warmup then .warming else .pooling }
  | warmed {result : Except String Unit} (hstage : s.stage = .warming) :
      Move names s (.warmed result) { s with stage := .pooling }
  | poolStarted {watcher : Except String Unit} (hstage : s.stage = .pooling) :
      Move names s (.startPool watcher) { s with
        poolStarted := true
        watching := s.config.watch && watcher.isOk
        stage := bootNext names 0 }
  | booted {i : Nat} (hstage : s.stage = .booting i) :
      Move names s (.booted (.ok ())) { s with
        calls := s.calls ++ [.boot i (.ok ())], stage := bootNext names (i + 1) }
  | bootFailed {i : Nat} {e : AnyError} (hstage : s.stage = .booting i) :
      Move names s (.booted (.error e)) { s with
        calls := s.calls ++ [.boot i (.error e)], stage := rollBack names i e }
  | rolledBack {e : AnyError} {i : Nat} {result : Outcome} (hstage : s.stage = .rollingBack e i) :
      Move names s (.stopped result) { s with
        calls := s.calls ++ [.shutdown i result]
        stage := shutdownNext i (.rollingBack e)
          (.returned (.error (e.withContext "plugin boot failed")) false) }
  | drained {deadline i : Nat} {result : Outcome} (hstage : s.stage = .draining deadline i) :
      Move names s (.stopped result) { s with
        calls := s.calls ++ [.shutdown i result]
        stage := shutdownNext i (.draining deadline) (.returned (.ok ()) false) }
  | signalled (hstage : s.stage = .waiting) :
      Move names s .signal { s with
        shutdown := true
        stage := shutdownNext names.length (.draining (s.now + s.config.shutdownTimeout))
          (.returned (.ok ()) false) }
  | ignored : Move names s .signal s
  | killed : Move names s .signal { s with stage := .killed }
  | expired {deadline i : Nat} (hstage : s.stage = .draining deadline i) :
      Move names s .expire { s with stage := .returned (.ok ()) true }
  | elapsed {time : Nat} : Move names s (.elapse time) { s with now := s.now + time }
  | panicked : Move names s .panic { s with stage := .panicked }

theorem step_move {a : Action} (hstep : s.step names a = some t) : Move names s a t := by
  cases a with
  | launch =>
      cases hstage : s.stage <;> simp only [step, hstage, reduceCtorEq] at hstep
      cases hstep
      exact .launched hstage
  | warmed result =>
      cases hstage : s.stage <;> simp only [step, hstage, reduceCtorEq] at hstep
      cases hstep
      exact .warmed hstage
  | startPool watcher =>
      cases hstage : s.stage <;> simp only [step, hstage, reduceCtorEq] at hstep
      cases hstep
      exact .poolStarted hstage
  | booted result =>
      cases hstage : s.stage <;> simp only [step, hstage, reduceCtorEq] at hstep
      cases hstep
      cases result with
      | ok _ => exact .booted hstage
      | error e => exact .bootFailed hstage
  | stopped result =>
      cases hstage : s.stage <;> simp only [step, hstage, reduceCtorEq] at hstep
      · cases hstep
        exact .rolledBack hstage
      · cases hstep
        exact .drained hstage
  | signal =>
      simp only [step] at hstep
      split at hstep
      · next hstage =>
          cases hstep
          exact .signalled hstage
      · cases hstep
        exact .ignored
      · cases hstep
        exact .ignored
      · cases hstep
      · cases hstep
      · cases hstep
        exact .killed
  | expire =>
      cases hstage : s.stage <;> simp only [step, hstage, reduceCtorEq] at hstep
      split at hstep
      · cases hstep
        exact .expired hstage
      · cases hstep
  | elapse time =>
      cases hstep
      exact .elapsed
  | panic =>
      simp only [step] at hstep
      split at hstep <;> cases hstep <;> exact .panicked

/-- A state from which `run` goes on as without the waits. -/
theorem Follows.of_rest (hwithin : t.stage.Within names.length)
    (hrest : ∀ future, t.sequential names future =
      t.stage.rest (registryOf names) ⟨future, t.calls⟩) : t.Follows names where
  within := hwithin
  rest _ := hrest
  made future := by
    rw [hrest future]
    exact t.stage.rest_made (registryOf names) ⟨future, t.calls⟩
  result r timedOut hstage future := by
    rw [hrest future, hstage]
    rfl

/-- A step without a call of a plugin leaves as much to do as before. -/
theorem Follows.quiet (h : s.Follows names) (hlive : s.stage.live = true)
    (hcalls : t.calls = s.calls) (hwithin : t.stage.Within names.length)
    (hrest : ∀ c, t.stage.rest (registryOf names) c = s.stage.rest (registryOf names) c) :
    t.Follows names := by
  apply Follows.of_rest hwithin
  intro future
  rw [sequential, hcalls, hrest]
  exact h.rest hlive future

/-- A call of a plugin that has ended takes the next answer. -/
theorem Follows.called (h : s.Follows names) (hlive : s.stage.live = true) {c : Call}
    (hcalls : t.calls = s.calls ++ [c]) (hwithin : t.stage.Within names.length)
    (hrest : ∀ future, t.stage.rest (registryOf names) ⟨future, s.calls ++ [c]⟩ =
      s.stage.rest (registryOf names) ⟨c.result :: future, s.calls⟩) : t.Follows names := by
  apply Follows.of_rest hwithin
  intro future
  rw [hcalls, hrest, ← h.rest hlive (c.result :: future)]
  simp [sequential, hcalls]

/-- The server is stopped where it is. -/
theorem Follows.cut (h : s.Follows names) (hcalls : t.calls = s.calls)
    (hwithin : t.stage.Within names.length) (hlive : t.stage.live = false)
    (hresult : ∀ r timedOut, t.stage = .returned r timedOut → ∀ future,
      (s.sequential names future).1 = r) : t.Follows names where
  within := hwithin
  rest hlive' := by
    rw [hlive] at hlive'
    cases hlive'
  made future := by
    rw [sequential, hcalls]
    exact h.made future
  result r timedOut hstage future := by
    rw [sequential, hcalls]
    exact hresult r timedOut hstage future

theorem bootNext_within (i : Nat) : (bootNext names i).Within names.length := by
  unfold bootNext
  split
  · assumption
  · trivial

theorem shutdownNext_within {count : Nat} {more : Nat → Stage} {done : Stage}
    (hmore : ∀ i < count, (more i).Within names.length) (hdone : done.Within names.length) :
    (shutdownNext count more done).Within names.length := by
  cases count with
  | zero => exact hdone
  | succ i => exact hmore i (Nat.lt_succ_self i)

/-- The end of a boot. -/
theorem Follows.booted (h : s.Follows names) {i : Nat} (hstage : s.stage = .booting i)
    (result : Outcome)
    (hnext : t.stage = match result with
      | .ok () => bootNext names (i + 1)
      | .error e => rollBack names i e)
    (hcalls : t.calls = s.calls ++ [.boot i result]) : t.Follows names := by
  have hi : i < names.length := by simpa [hstage, Stage.Within] using h.within
  apply h.called (by rw [hstage]; rfl) hcalls
  · rw [hnext]
    cases result with
    | ok _ => exact bootNext_within (i + 1)
    | error e => exact shutdownNext_within (fun j hj => hj.trans hi) trivial
  · intro future
    rw [hstage, hnext, Stage.rest, Call.result, bootLoop_scripted hi]
    cases result with
    | ok _ => exact rest_bootNext hi _
    | error e => exact rest_rollBack e _

/-- The end of a shutdown in one of the two loops, whose stages are `more`. -/
theorem Follows.stopped (h : s.Follows names) {i : Nat} {result o : Outcome}
    {more : Nat → Stage} {done : Stage} (hnext : t.stage = shutdownNext i more done)
    (hcalls : t.calls = s.calls ++ [.shutdown i result]) (hi : i < names.length)
    (hlive : s.stage.live = true) (hwithin : ∀ j < i, (more j).Within names.length)
    (hend : done.Within names.length)
    (hrest : ∀ c, s.stage.rest (registryOf names) c =
      (o, (registryOf names).shutdownPartial (i + 1) c))
    (hmore : ∀ j c, (more j).rest (registryOf names) c =
      (o, (registryOf names).shutdownPartial (j + 1) c))
    (hdone : ∀ c, done.rest (registryOf names) c = (o, c)) : t.Follows names := by
  apply h.called hlive hcalls
  · rw [hnext]
    exact shutdownNext_within hwithin hend
  · intro future
    rw [hrest, hnext, Call.result, shutdownPartial_scripted hi]
    exact rest_shutdownNext hmore hdone i _

protected theorem Follows.step (h : s.Follows names) {a : Action}
    (hstep : s.step names a = some t) : t.Follows names := by
  cases step_move hstep with
  | launched hstage =>
      refine h.quiet (by rw [hstage]; rfl) rfl ?_ fun c => ?_
      · cases s.config.warmup <;> trivial
      · rw [hstage]
        cases s.config.warmup <;> rfl
  | warmed hstage => exact h.quiet (by rw [hstage]; rfl) rfl trivial fun c => by rw [hstage]; rfl
  | poolStarted hstage =>
      refine h.quiet (by rw [hstage]; rfl) rfl (bootNext_within 0) fun c => ?_
      rw [hstage, rest_bootNext (Nat.zero_le _)]
      rfl
  | booted hstage => exact h.booted hstage (.ok ()) rfl rfl
  | @bootFailed i e hstage => exact h.booted hstage (.error e) rfl rfl
  | @rolledBack e i result hstage =>
      have hi : i < names.length := by simpa [hstage, Stage.Within] using h.within
      exact h.stopped rfl rfl hi (by rw [hstage]; rfl) (fun j hj => hj.trans hi) trivial
        (fun c => by rw [hstage]; rfl) (fun _ _ => rfl) fun _ => rfl
  | @drained deadline i result hstage =>
      have hi : i < names.length := by simpa [hstage, Stage.Within] using h.within
      exact h.stopped rfl rfl hi (by rw [hstage]; rfl) (fun j hj => hj.trans hi) trivial
        (fun c => by rw [hstage]; rfl) (fun _ _ => rfl) fun _ => rfl
  | signalled hstage =>
      refine h.quiet (by rw [hstage]; rfl) rfl ?_ fun c => ?_
      · exact shutdownNext_within (fun j hj => hj) trivial
      · rw [hstage, Stage.rest, rest_shutdownNext (fun _ _ => rfl) (fun _ => rfl),
          PluginRegistry.shutdownAll, registryOf_length]
  | ignored => exact h
  | killed | panicked => exact h.cut rfl trivial rfl (by simp)
  | expired hstage =>
      refine h.cut rfl trivial rfl ?_
      intro r timedOut hreturned future
      cases hreturned
      rw [h.rest (by rw [hstage]; rfl), hstage]
      rfl
  | elapsed => exact ⟨h.within, h.rest, h.made, h.result⟩

theorem Follows.start (names : List String) (config : FolkConfig) :
    (Server.start config).Follows names := by
  apply Follows.of_rest
  · trivial
  · intro future
    rfl

open PluginRegistry (booted)

/-- What has happened when `run` waits at a stage. -/
def Expects (names : List String) (s : Server) : Prop :=
  match s.stage with
  | .starting => s.calls = [] ∧ s.shutdown = false
  | .warming => s.calls = [] ∧ s.shutdown = false ∧ s.config.maxConcurrentPerWorker = 1
  | .pooling => s.calls = [] ∧ s.shutdown = false ∧ s.config.maxConcurrentPerWorker = 1
  | .booting i => s.calls = booted i ∧ s.poolStarted = true ∧ s.shutdown = false ∧
      s.config.maxConcurrentPerWorker = 1
  | .waiting => s.calls = booted names.length ∧ s.poolStarted = true ∧
      s.config.maxConcurrentPerWorker = 1
  | .rollingBack _ _ => ∃ j e, .boot j (.error e) ∈ s.calls
  | .draining deadline _ => s.shutdown = true ∧ deadline ≤ s.now + s.config.shutdownTimeout
  | _ => True

/-- The order of the steps of `run` towards each other. -/
structure Orderly (names : List String) (s : Server) : Prop where
  flagged : s.shutdown = true → booted names.length <+: s.calls
  shut : ∀ i r, .shutdown i r ∈ s.calls →
    s.shutdown = true ∨ ∃ j e, .boot j (.error e) ∈ s.calls
  pooled : s.calls ≠ [] → s.poolStarted = true ∧ s.config.maxConcurrentPerWorker = 1
  expects : s.Expects names

theorem normalize_maxConcurrentPerWorker (config : FolkConfig) :
    config.normalize.maxConcurrentPerWorker = 1 := by
  unfold FolkConfig.normalize
  split
  · rfl
  · split
    · rfl
    · omega

theorem Orderly.quiet (h : s.Orderly names) (hcalls : t.calls = s.calls)
    (hshutdown : t.shutdown = s.shutdown)
    (hpool : s.calls ≠ [] → t.poolStarted = s.poolStarted ∧ t.config = s.config)
    (hexpects : t.Expects names) : t.Orderly names where
  flagged := by
    rw [hcalls, hshutdown]
    exact h.flagged
  shut := by
    rw [hcalls, hshutdown]
    exact h.shut
  pooled := by
    rw [hcalls]
    intro hne
    obtain ⟨hstarted, hconfig⟩ := hpool hne
    rw [hstarted, hconfig]
    exact h.pooled hne
  expects := hexpects

/-- A call of a plugin ends. -/
theorem Orderly.called (h : s.Orderly names) {c : Call} (hcalls : t.calls = s.calls ++ [c])
    (hshutdown : t.shutdown = s.shutdown)
    (hpooled : t.poolStarted = true ∧ t.config.maxConcurrentPerWorker = 1)
    (hshut : ∀ i r, c = .shutdown i r →
      s.shutdown = true ∨ ∃ j e, .boot j (.error e) ∈ s.calls)
    (hexpects : t.Expects names) : t.Orderly names where
  flagged := by
    rw [hcalls, hshutdown]
    exact fun hset => (h.flagged hset).trans (List.prefix_append _ _)
  shut := by
    intro i r hmem
    rw [hcalls, List.mem_append, List.mem_singleton] at hmem
    have hbefore : s.shutdown = true ∨ ∃ j e, .boot j (.error e) ∈ s.calls := by
      rcases hmem with hold | hnew
      · exact h.shut i r hold
      · exact hshut i r hnew.symm
    rw [hshutdown, hcalls]
    rcases hbefore with hset | ⟨j, e, hfailed⟩
    · exact .inl hset
    · exact .inr ⟨j, e, List.mem_append_left _ hfailed⟩
  pooled _ := hpooled
  expects := hexpects

theorem expects_bootNext {i : Nat} (hstage : t.stage = bootNext names i)
    (hcalls : t.calls = booted i) (hi : i ≤ names.length) (hpool : t.poolStarted = true)
    (hshutdown : t.shutdown = false) (hmax : t.config.maxConcurrentPerWorker = 1) :
    t.Expects names := by
  unfold bootNext at hstage
  split at hstage
  · simp only [Expects, hstage]
    exact ⟨hcalls, hpool, hshutdown, hmax⟩
  · have hall : i = names.length := by omega
    simp only [Expects, hstage]
    exact ⟨hall ▸ hcalls, hpool, hmax⟩

theorem expects_rollBack {i count : Nat} {e e' err : AnyError}
    (hstage : t.stage = shutdownNext count (.rollingBack e) (.returned (.error e') false))
    (hfailed : .boot i (.error err) ∈ t.calls) : t.Expects names := by
  cases count with
  | zero =>
      simp only [shutdownNext] at hstage
      simp only [Expects, hstage]
  | succ j =>
      simp only [shutdownNext] at hstage
      simp only [Expects, hstage]
      exact ⟨i, err, hfailed⟩

theorem expects_draining {count deadline : Nat}
    (hstage : t.stage = shutdownNext count (.draining deadline) (.returned (.ok ()) false))
    (hshutdown : t.shutdown = true) (hdeadline : deadline ≤ t.now + t.config.shutdownTimeout) :
    t.Expects names := by
  cases count with
  | zero =>
      simp only [shutdownNext] at hstage
      simp only [Expects, hstage]
  | succ j =>
      simp only [shutdownNext] at hstage
      simp only [Expects, hstage]
      exact ⟨hshutdown, hdeadline⟩

/-- The end of a boot. -/
theorem Orderly.booted (hfollows : s.Follows names) (h : s.Orderly names) {i : Nat}
    (hstage : s.stage = .booting i) (result : Outcome)
    (hnext : t.stage = match result with
      | .ok () => bootNext names (i + 1)
      | .error e => rollBack names i e)
    (hcalls : t.calls = s.calls ++ [.boot i result]) (hshutdown : t.shutdown = s.shutdown)
    (hpool : t.poolStarted = s.poolStarted) (hconfig : t.config = s.config) :
    t.Orderly names := by
  have hi : i < names.length := by simpa [hstage, Stage.Within] using hfollows.within
  have hexpects := h.expects
  simp only [Expects, hstage] at hexpects
  obtain ⟨hbooted, hstarted, hflag, hmax⟩ := hexpects
  refine h.called hcalls hshutdown (by rw [hpool, hconfig]; exact ⟨hstarted, hmax⟩)
    (fun _ _ hc => by cases hc) ?_
  cases result with
  | ok _ =>
      refine expects_bootNext hnext ?_ hi (hpool.trans hstarted) (hshutdown.trans hflag)
        (by rw [hconfig]; exact hmax)
      rw [hcalls, PluginRegistry.booted_succ, ← hbooted]
  | error e =>
      have hfailed : .boot i (.error e) ∈ t.calls := by
        rw [hcalls]
        exact List.mem_append_right _ List.mem_cons_self
      exact expects_rollBack hnext hfailed

/-- The end of a shutdown after a failed boot. -/
theorem Orderly.rolledBack (h : s.Orderly names) {e : AnyError} {i : Nat} {result : Outcome}
    (hstage : s.stage = .rollingBack e i) : Orderly names { s with
      calls := s.calls ++ [.shutdown i result]
      stage := shutdownNext i (.rollingBack e)
        (.returned (.error (e.withContext "plugin boot failed")) false) } := by
  have hexpects := h.expects
  simp only [Expects, hstage] at hexpects
  obtain ⟨j, err, hfailed⟩ := hexpects
  refine h.called rfl rfl (h.pooled (List.ne_nil_of_mem hfailed))
    (fun _ _ _ => .inr ⟨j, err, hfailed⟩) ?_
  exact expects_rollBack rfl (List.mem_append_left _ hfailed)

/-- The end of a shutdown after the signal. -/
theorem Orderly.drained (hfollows : s.Follows names) (h : s.Orderly names) {deadline i : Nat}
    {result : Outcome} (hstage : s.stage = .draining deadline i) : Orderly names { s with
      calls := s.calls ++ [.shutdown i result]
      stage := shutdownNext i (.draining deadline) (.returned (.ok ()) false) } := by
  have hi : i < names.length := by simpa [hstage, Stage.Within] using hfollows.within
  have hexpects := h.expects
  simp only [Expects, hstage] at hexpects
  obtain ⟨hshutdown, hdeadline⟩ := hexpects
  have hne : s.calls ≠ [] := by
    intro hnone
    have hbooted := h.flagged hshutdown
    have hnil : names = [] := by simpa [hnone, PluginRegistry.booted] using hbooted
    rw [hnil] at hi
    exact Nat.not_lt_zero i hi
  exact h.called rfl rfl (h.pooled hne) (fun _ _ _ => .inl hshutdown)
    (expects_draining rfl hshutdown hdeadline)

/-- The clock goes on. -/
theorem Orderly.elapsed (h : s.Orderly names) (time : Nat) :
    Orderly names { s with now := s.now + time } := by
  have hexpects := h.expects
  refine h.quiet rfl rfl (fun _ => ⟨rfl, rfl⟩) ?_
  cases hstage : s.stage with
  | draining deadline i =>
      simp only [Expects, hstage] at hexpects ⊢
      exact ⟨hexpects.1, hexpects.2.trans (Nat.add_le_add_right (Nat.le_add_right _ _) _)⟩
  | returned | killed | panicked => simp only [Expects]
  | _ => simpa only [Expects, hstage] using hexpects

protected theorem Orderly.step (hfollows : s.Follows names) (h : s.Orderly names) {a : Action}
    (hstep : s.step names a = some t) : t.Orderly names := by
  have hexpects := h.expects
  cases step_move hstep with
  | launched hstage =>
      simp only [Expects, hstage] at hexpects
      refine h.quiet rfl rfl (fun hne => absurd hexpects.1 hne) ?_
      have hmax := normalize_maxConcurrentPerWorker s.config
      cases s.config.warmup with
      | true => exact ⟨hexpects.1, hexpects.2, hmax⟩
      | false => exact ⟨hexpects.1, hexpects.2, hmax⟩
  | warmed hstage =>
      simp only [Expects, hstage] at hexpects
      exact h.quiet rfl rfl (fun _ => ⟨rfl, rfl⟩) hexpects
  | poolStarted hstage =>
      simp only [Expects, hstage] at hexpects
      obtain ⟨hnone, hshutdown, hmax⟩ := hexpects
      exact h.quiet rfl rfl (fun hne => absurd hnone hne)
        (expects_bootNext rfl hnone (Nat.zero_le _) rfl hshutdown hmax)
  | booted hstage => exact h.booted hfollows hstage (.ok ()) rfl rfl rfl rfl rfl
  | @bootFailed i e hstage => exact h.booted hfollows hstage (.error e) rfl rfl rfl rfl rfl
  | rolledBack hstage => exact h.rolledBack hstage
  | drained hstage => exact h.drained hfollows hstage
  | signalled hstage =>
      simp only [Expects, hstage] at hexpects
      obtain ⟨hcalls, hpool, hmax⟩ := hexpects
      refine ⟨fun _ => ?_, fun _ _ _ => .inl rfl, fun _ => ⟨hpool, hmax⟩, ?_⟩
      · exact hcalls ▸ List.prefix_rfl
      · exact expects_draining rfl rfl le_rfl
  | ignored => exact h
  | killed | expired | panicked => exact h.quiet rfl rfl (fun _ => ⟨rfl, rfl⟩) trivial
  | elapsed => exact h.elapsed _

theorem Orderly.start (names : List String) (config : FolkConfig) :
    (Server.start config).Orderly names where
  flagged h := by cases h
  shut _ _ h := by cases h
  pooled h := absurd rfl h
  expects := ⟨rfl, rfl⟩

theorem follows_of_reachable (h : Reachable (Server.step names) (.start config) s) :
    s.Follows names ∧ s.Orderly names :=
  h.invariant (fun s => s.Follows names ∧ s.Orderly names)
    ⟨.start names config, .start names config⟩
    fun _ _ _ hs _ hstep => ⟨hs.1.step hstep, hs.2.step hs.1 hstep⟩

/-- Once the signal has come, `run` returns when its timeout is over, whatever the plugin that
it waits for does. -/
theorem draining_returns (h : s.Orderly names) (deadline i : Nat)
    (hstage : s.stage = .draining deadline i) :
    ∃ t, runs (Server.step names) s [.elapse s.config.shutdownTimeout, .expire] = some t ∧
      t.stage = .returned (.ok ()) true ∧ t.calls = s.calls := by
  have hexpects := h.expects
  simp only [Expects, hstage] at hexpects
  refine ⟨{ s with now := s.now + s.config.shutdownTimeout, stage := .returned (.ok ()) true },
    ?_, rfl, rfl⟩
  simp [Server.step, hstage, hexpects.2]

/-- In every run of the server, with plugins that answer anything at any time, signals at any
time and a timeout that may cut the shutdown short: the calls of the plugins are those of
`boot_all`, and after a full boot of `shutdown_all`, on the same answers, all of them when
`run` returns in time; it returns what these return. The pool is started before any call, and
the plugins see the shutdown flag before they are shut down, unless a boot failed; and a
shutdown that does not come to its end does not keep `run` from returning. -/
theorem server_runs_registry (config : FolkConfig) (names : List String) (s : Server)
    (h : Reachable (Server.step names) (.start config) s) :
    s.calls <+: (s.sequential names []).2.made ∧
    (∀ r timedOut, s.stage = .returned r timedOut → r = (s.sequential names []).1 ∧
      (timedOut = false → s.calls = (s.sequential names []).2.made)) ∧
    (s.shutdown = true → booted names.length <+: s.calls) ∧
    (∀ i r, .shutdown i r ∈ s.calls →
      s.shutdown = true ∨ ∃ j e, .boot j (.error e) ∈ s.calls) ∧
    (s.calls ≠ [] → s.poolStarted = true ∧ s.config.maxConcurrentPerWorker = 1) ∧
    (∀ deadline i, s.stage = .draining deadline i →
      ∃ t, runs (Server.step names) s [.elapse s.config.shutdownTimeout, .expire] = some t ∧
        t.stage = .returned (.ok ()) true ∧ t.calls = s.calls) := by
  obtain ⟨hfollows, horderly⟩ := follows_of_reachable h
  refine ⟨hfollows.made [], ?_, horderly.flagged, horderly.shut, horderly.pooled,
    draining_returns horderly⟩
  intro r timedOut hstage
  refine ⟨(hfollows.result r timedOut hstage []).symm, ?_⟩
  rintro rfl
  rw [hfollows.rest (by rw [hstage]; rfl), hstage]
  rfl

/-- The second of two plugins fails its boot; the first is shut down, and `run` fails. -/
theorem failed_boot_rolled_back :
    ∃ s, Reachable (Server.step ["a", "b"]) (.start ⟨30, .single, 4, false, true⟩) s ∧
      s.stage = .returned (.error ⟨["plugin boot failed", "plugin 'b' boot failed", "e"]⟩) false ∧
      s.calls = (s.sequential ["a", "b"] []).2.made ∧ s.shutdown = false := by
  have hrun : runs (Server.step ["a", "b"]) (.start ⟨30, .single, 4, false, true⟩)
      [.launch, .startPool (.error "no paths"), .booted (.ok ()), .booted (.error ⟨["e"]⟩),
        .stopped (.ok ())] = some _ := rfl
  have hreach := reachable_of_runs hrun
  exact ⟨_, hreach, rfl, ((server_runs_registry _ _ _ hreach).2.1 _ _ rfl).2 rfl, rfl⟩

end Server

end FolkCore.Plugins
