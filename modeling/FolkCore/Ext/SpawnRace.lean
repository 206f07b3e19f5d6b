import FolkCore.Ext.Spawn
import Mathlib.Data.Finset.Card

/-!
# Concurrent calls of `spawn`

The supervisors call `spawn` at the same time. A call is a sequence of atomic steps:
it looks whether the vector of pre-connected channels is empty, draws a worker id, and
pops a channel or starts a thread. `SpawnRace` interleaves any number of calls. What
one call does alone is `ExtensionRuntime.spawn`.
-/

namespace FolkCore.Ext

open Bridge Function Lib Pool

/-- Where a call of `spawn` stands. -/
inductive SpawnCall where
  | unbegun
  | taking
  | popping (workerId : UInt32)
  | creating
  | starting (workerId : UInt32)
  | returned (r : Except String Connection)

/-- The atomic steps of call `k`; `cwd` is what `current_dir` gives. -/
inductive SpawnStep where
  | check (k : Nat)
  | draw (k : Nat)
  | pop (k : Nat)
  | start (k : Nat) (cwd : Option String)

/-- The runtime, the calls of `spawn`, and the ids of the threads that were started. -/
structure SpawnRace where
  runtime : ExtensionRuntime
  calls : Nat → SpawnCall
  ztsThreads : List UInt32

/-- The check of the vector under its lock. -/
def ExtensionRuntime.checked (rt : ExtensionRuntime) : SpawnCall :=
  if !rt.channels.isEmpty then .taking
  else if 1 < rt.config.count then .creating
  else .returned (.error "no workers available and ZTS multi-worker not requested")

theorem ExtensionRuntime.checked_cases (rt : ExtensionRuntime) :
    rt.checked = .taking ∧ rt.channels ≠ [] ∨
      rt.checked = .creating ∧ rt.channels = [] ∧ 1 < rt.config.count ∨
      ∃ e, rt.checked = .returned (.error e) ∧ rt.channels = [] ∧ rt.config.count ≤ 1 := by
  by_cases hchannels : rt.channels = []
  · by_cases hcount : 1 < rt.config.count
    · exact .inr (.inl ⟨by simp [checked, hchannels, hcount], hchannels, hcount⟩)
    · exact .inr (.inr ⟨_, by simp [checked, hchannels, hcount]; rfl, hchannels, by omega⟩)
  · exact .inl ⟨by simp [checked, hchannels], hchannels⟩

namespace SpawnRace

/-- The runtime of `start_server`, before any call. -/
def init (cfg : WorkersConfig) : SpawnRace :=
  { runtime := .new cfg [⟨.main⟩], calls := fun _ => .unbegun, ztsThreads := [] }

def setCall (s : SpawnRace) (k : Nat) (call : SpawnCall) : SpawnRace :=
  { s with calls := update s.calls k call }

/-- `pop` under the lock, with the id already drawn. -/
def pop (s : SpawnRace) (k : Nat) (workerId : UInt32) : SpawnRace :=
  match s.runtime.channels.getLast? with
  | none =>
      s.setCall k (.returned (.error s!"no more pre-connected channels (worker {workerId})"))
  | some side =>
      { s with runtime := { s.runtime with channels := s.runtime.channels.dropLast } }.setCall k
        (.returned (.ok ⟨.fresh workerId false, side.thread⟩))

/-- The start of a thread, with the id already drawn. -/
def start (s : SpawnRace) (k : Nat) (workerId : UInt32) (cwd : Option String) : SpawnRace :=
  match cwd with
  | none => s.setCall k (.returned (.error "cannot determine current directory"))
  | some _ =>
      { s with ztsThreads := s.ztsThreads ++ [workerId] }.setCall k
        (.returned (.ok ⟨.fresh workerId true, .zts workerId⟩))

/-- One atomic step of one of `n` calls. -/
def step (n : Nat) (s : SpawnRace) : SpawnStep → Option SpawnRace
  | .check k =>
      match s.calls k with
      | .unbegun => if k < n then some (s.setCall k s.runtime.checked) else none
      | _ => none
  | .draw k =>
      let (workerId, rt) := s.runtime.drawWorkerId
      match s.calls k with
      | .taking => some ({ s with runtime := rt }.setCall k (.popping workerId))
      | .creating => some ({ s with runtime := rt }.setCall k (.starting workerId))
      | _ => none
  | .pop k =>
      match s.calls k with
      | .popping workerId => some (s.pop k workerId)
      | _ => none
  | .start k cwd =>
      match s.calls k with
      | .starting workerId => some (s.start k workerId cwd)
      | _ => none

@[simp] theorem setCall_runtime (s : SpawnRace) (k : Nat) (call : SpawnCall) :
    (s.setCall k call).runtime = s.runtime := rfl

@[simp] theorem setCall_ztsThreads (s : SpawnRace) (k : Nat) (call : SpawnCall) :
    (s.setCall k call).ztsThreads = s.ztsThreads := rfl

@[simp] theorem setCall_calls (s : SpawnRace) (k : Nat) (call : SpawnCall) :
    (s.setCall k call).calls = update s.calls k call := rfl

/-- What the steps can do. -/
inductive Move (n : Nat) (s : SpawnRace) : SpawnStep → SpawnRace → Prop
  | checked {k : Nat} (hcall : s.calls k = .unbegun) (hk : k < n) :
      Move n s (.check k) (s.setCall k s.runtime.checked)
  | drewToPop {k : Nat} (hcall : s.calls k = .taking) :
      Move n s (.draw k) ({ s with runtime := s.runtime.drawWorkerId.2 }.setCall k
        (.popping s.runtime.nextWorkerId))
  | drewToStart {k : Nat} (hcall : s.calls k = .creating) :
      Move n s (.draw k) ({ s with runtime := s.runtime.drawWorkerId.2 }.setCall k
        (.starting s.runtime.nextWorkerId))
  | popped {k : Nat} {workerId : UInt32} {side : WorkerTxSide}
      (hcall : s.calls k = .popping workerId)
      (hside : s.runtime.channels.getLast? = some side) :
      Move n s (.pop k)
        ({ s with runtime :=
            { s.runtime with channels := s.runtime.channels.dropLast } }.setCall k
          (.returned (.ok ⟨.fresh workerId false, side.thread⟩)))
  | popFailed {k : Nat} {workerId : UInt32} {e : String}
      (hcall : s.calls k = .popping workerId) (hnone : s.runtime.channels = []) :
      Move n s (.pop k) (s.setCall k (.returned (.error e)))
  | started {k : Nat} {workerId : UInt32} {path : String}
      (hcall : s.calls k = .starting workerId) :
      Move n s (.start k (some path))
        ({ s with ztsThreads := s.ztsThreads ++ [workerId] }.setCall k
          (.returned (.ok ⟨.fresh workerId true, .zts workerId⟩)))
  | noDirectory {k : Nat} {workerId : UInt32} {e : String}
      (hcall : s.calls k = .starting workerId) :
      Move n s (.start k none) (s.setCall k (.returned (.error e)))

theorem step_move {n : Nat} {s t : SpawnRace} {a : SpawnStep} (h : s.step n a = some t) :
    Move n s a t := by
  cases a with
  | check k =>
      simp only [step] at h
      split at h
      · next hcall =>
          split at h
          · next hk =>
              cases h
              exact .checked hcall hk
          · cases h
      · cases h
  | draw k =>
      simp only [step, ExtensionRuntime.drawWorkerId] at h
      split at h
      · next hcall =>
          cases h
          exact .drewToPop hcall
      · next hcall =>
          cases h
          exact .drewToStart hcall
      · cases h
  | pop k =>
      simp only [step, pop] at h
      split at h
      · next workerId hcall =>
          split at h
          · next hnone =>
              cases h
              exact .popFailed hcall (List.getLast?_eq_none_iff.mp hnone)
          · next side hside =>
              cases h
              exact .popped hcall hside
      · cases h
  | start k cwd =>
      simp only [step, start] at h
      split at h
      · next workerId hcall =>
          cases cwd with
          | none =>
              cases h
              exact .noDirectory hcall
          | some path =>
              cases h
              exact .started hcall
      · cases h

/-- The steps of a call that is left alone. -/
def alone (k : Nat) (cwd : Option String) (s : SpawnRace) : List SpawnStep :=
  match s.runtime.checked with
  | .taking => [.check k, .draw k, .pop k]
  | .creating => [.check k, .draw k, .start k cwd]
  | _ => [.check k]

/-- A call that is left alone does what `spawn` does in one step. -/
theorem runs_alone {n : Nat} {s : SpawnRace} {k : Nat} (hcall : s.calls k = .unbegun)
    (hk : k < n) (cwd : Option String) :
    ∃ t, runs (step n) s (s.alone k cwd) = some t ∧
      t.calls k = .returned (s.runtime.spawn cwd).1 ∧ t.runtime = (s.runtime.spawn cwd).2 := by
  cases hchannels : s.runtime.channels.getLast? with
  | some side =>
      have hne : s.runtime.channels.isEmpty = false := by
        cases hlist : s.runtime.channels with
        | nil => simp [hlist] at hchannels
        | cons side rest => rfl
      simp [alone, ExtensionRuntime.checked, hne, step, hcall, hk, setCall, pop,
        ExtensionRuntime.drawWorkerId, hchannels, ExtensionRuntime.spawn,
        ExtensionRuntime.takePreconnected]
  | none =>
      have hempty : s.runtime.channels = [] := List.getLast?_eq_none_iff.mp hchannels
      by_cases hcount : 1 < s.runtime.config.count
      · cases cwd with
        | none =>
            simp [alone, ExtensionRuntime.checked, hempty, hcount, step, hcall, hk, setCall,
              start, ExtensionRuntime.drawWorkerId, ExtensionRuntime.spawn,
              ExtensionRuntime.spawnZtsWorker]
        | some path =>
            simp [alone, ExtensionRuntime.checked, hempty, hcount, step, hcall, hk, setCall,
              start, ExtensionRuntime.drawWorkerId, ExtensionRuntime.spawn,
              ExtensionRuntime.spawnZtsWorker]
      · simp [alone, ExtensionRuntime.checked, hempty, hcount, step, hcall, hk, setCall,
          ExtensionRuntime.spawn]

/-! ## The check and the pop -/

end SpawnRace

/-- The call has seen a pre-connected channel and has not popped yet. -/
def SpawnCall.claims : SpawnCall → Bool
  | .taking => true
  | .popping _ => true
  | _ => false

/-- The call whose step it is. -/
def SpawnStep.caller : SpawnStep → Nat
  | .check k => k
  | .draw k => k
  | .pop k => k
  | .start k _ => k

/-- The working directory is readable. -/
def SpawnStep.readable : SpawnStep → Bool
  | .start _ cwd => cwd.isSome
  | _ => true

namespace SpawnRace

/-- No call checks the vector while another one that saw the channel in it has not
popped yet. -/
def undisturbed (n : Nat) (s : SpawnRace) : SpawnStep → Bool
  | .check _ => s.runtime.channels.isEmpty || (List.range n).all fun j => !(s.calls j).claims
  | _ => true

/-- The steps of the runs in which no two calls claim the channel. -/
def calm (n : Nat) (s : SpawnRace) (a : SpawnStep) : Bool := s.undisturbed n a && a.readable

/-- The invariant of such a run: the channel has one claimant at most, and no call has
failed. -/
structure Orderly (n : Nat) (s : SpawnRace) : Prop where
  count : 1 < s.runtime.config.count
  limited : ∀ k, s.calls k ≠ .unbegun → k < n
  channels : s.runtime.channels = [⟨.main⟩] ∨
    s.runtime.channels = [] ∧ ∀ k, (s.calls k).claims = false
  alone : ∀ j k, (s.calls j).claims = true → (s.calls k).claims = true → j = k
  succeeded : ∀ k e, s.calls k ≠ .returned (.error e)

variable {n : Nat} {s t : SpawnRace} {a : SpawnStep}

theorem Orderly.init (n : Nat) {cfg : WorkersConfig} (hcount : 1 < cfg.count) :
    Orderly n (SpawnRace.init cfg) where
  count := hcount
  limited k h := absurd rfl h
  channels := .inl rfl
  alone j k h := by cases h
  succeeded k e h := by cases h

/-- A flag that the new call does not raise was up before. -/
theorem flag_before {s : SpawnRace} {flag : SpawnCall → Bool} {call : SpawnCall} {j k : Nat}
    (hcall : flag call = false) (hj : flag (update s.calls k call j) = true) :
    flag (s.calls j) = true := by
  by_cases hjk : j = k
  · subst hjk
    simp [hcall] at hj
  · simpa [hjk] using hj

/-- A claimed channel is in the vector. -/
theorem Orderly.claimed (h : Orderly n s) {k : Nat} (hclaims : (s.calls k).claims = true) :
    s.runtime.channels = [⟨.main⟩] := by
  rcases h.channels with hmain | ⟨_, hfree⟩
  · exact hmain
  · exact absurd (hclaims.symm.trans (hfree k)) nofun

/-- No other call claims the channel that a call claims. -/
theorem Orderly.others (h : Orderly n s) {k : Nat} (hclaims : (s.calls k).claims = true) (j : Nat)
    (hj : j ≠ k) : (s.calls j).claims = false :=
  Bool.eq_false_iff.mpr fun hclaims' => hj (h.alone j k hclaims' hclaims)

/-- No call claims the channel when a call checks that finds it. -/
theorem Orderly.unclaimed (h : Orderly n s) {k : Nat} (hcalm : calm n s (.check k) = true)
    (hmain : s.runtime.channels = [⟨.main⟩]) (j : Nat) : (s.calls j).claims = false := by
  by_cases hj : s.calls j = .unbegun
  · rw [hj]
    rfl
  · have hall : ∀ j < n, (s.calls j).claims = false := by
      simpa [calm, undisturbed, hmain, SpawnStep.readable] using hcalm
    exact hall j (h.limited j hj)

/-- One call goes on, and the channel keeps one claimant at most. -/
theorem Orderly.goOn (h : Orderly n s) {k : Nat} {call : SpawnCall} {rt : ExtensionRuntime}
    {threads : List UInt32} (hconfig : rt.config = s.runtime.config) (hk : k < n)
    (hok : ∀ e, call ≠ .returned (.error e))
    (hchannels :
      rt.channels = [⟨.main⟩] ∧ (call.claims = true → ∀ j ≠ k, (s.calls j).claims = false) ∨
      rt.channels = [] ∧ call.claims = false ∧ ∀ j ≠ k, (s.calls j).claims = false) :
    Orderly n ⟨rt, update s.calls k call, threads⟩ where
  count := hconfig.symm ▸ h.count
  limited := by
    apply (forall_update_iff s.calls fun j c => c ≠ .unbegun → j < n).mpr
    exact ⟨fun _ => hk, fun j _ => h.limited j⟩
  channels := by
    rcases hchannels with ⟨hmain, _⟩ | ⟨hnone, hcall, hfree⟩
    · exact .inl hmain
    · refine .inr ⟨hnone, ?_⟩
      exact (forall_update_iff s.calls fun _ c => c.claims = false).mpr ⟨hcall, hfree⟩
  alone i j hi hj := by
    by_cases hcall : call.claims = true
    · have only {i : Nat} (hi : (update s.calls k call i).claims = true) : i = k := by
        by_contra hik
        have hfree : (s.calls i).claims = false := by
          rcases hchannels with ⟨_, hfree⟩ | ⟨_, _, hfree⟩
          · exact hfree hcall i hik
          · exact hfree i hik
        simp [hik, hfree] at hi
      exact (only hi).trans (only hj).symm
    · have hfree := Bool.eq_false_iff.mpr hcall
      exact h.alone i j (flag_before hfree hi) (flag_before hfree hj)
  succeeded := by
    apply (forall_update_iff s.calls fun _ c => ∀ e, c ≠ .returned (.error e)).mpr
    exact ⟨hok, fun j _ => h.succeeded j⟩

theorem Orderly.step (h : Orderly n s) (hcalm : calm n s a = true) (move : Move n s a t) :
    Orderly n t := by
  have begun {k : Nat} {call : SpawnCall} (hcall : s.calls k = call) (hbegun : call ≠ .unbegun) :
      k < n := h.limited k (hcall.symm ▸ hbegun)
  -- a call without a claim goes on and leaves the vector as it is
  have aside {k : Nat} {call : SpawnCall} {rt : ExtensionRuntime} {threads : List UInt32}
      (hk : k < n) (hconfig : rt.config = s.runtime.config)
      (hchannels : rt.channels = s.runtime.channels) (hok : ∀ e, call ≠ .returned (.error e))
      (hcall : call.claims = false) : Orderly n ⟨rt, update s.calls k call, threads⟩ := by
    refine h.goOn hconfig hk hok ?_
    rcases h.channels with hmain | ⟨hnone, hfree⟩
    · exact .inl ⟨hchannels.trans hmain, fun hclaims => absurd (hclaims.symm.trans hcall) nofun⟩
    · exact .inr ⟨hchannels.trans hnone, hcall, fun j _ => hfree j⟩
  cases move with
  | @checked k hcall hk =>
      rcases s.runtime.checked_cases with ⟨hnext, hsome⟩ | ⟨hnext, _⟩ | ⟨e, _, _, hcount⟩
      · have hmain := h.channels.resolve_right fun hnone => hsome hnone.1
        rw [hnext]
        exact h.goOn rfl hk (by simp) (.inl ⟨hmain, fun _ j _ => h.unclaimed hcalm hmain j⟩)
      · rw [hnext]
        exact aside hk rfl rfl (by simp) rfl
      · exact absurd h.count (Nat.not_lt.mpr hcount)
  | @drewToPop k hcall =>
      have hclaims : (s.calls k).claims = true := by simp [hcall, SpawnCall.claims]
      refine h.goOn rfl (begun hcall (by simp)) (by simp) (.inl ⟨h.claimed hclaims, ?_⟩)
      exact fun _ => h.others hclaims
  | @drewToStart k hcall => exact aside (begun hcall (by simp)) rfl rfl (by simp) rfl
  | @popped k w side hcall hside =>
      have hclaims : (s.calls k).claims = true := by simp [hcall, SpawnCall.claims]
      refine h.goOn rfl (begun hcall (by simp)) (by simp) (.inr ⟨?_, rfl, h.others hclaims⟩)
      simp [h.claimed hclaims]
  | @popFailed k w e hcall hnone =>
      have hclaims : (s.calls k).claims = true := by simp [hcall, SpawnCall.claims]
      exact absurd (hnone.symm.trans (h.claimed hclaims)) nofun
  | @started k w path hcall => exact aside (begun hcall (by simp)) rfl rfl (by simp) rfl
  | noDirectory hcall => simp [calm, SpawnStep.readable] at hcalm

theorem orderly_of_calm {cfg : WorkersConfig} (hcount : 1 < cfg.count)
    (hs : ReachableVia (step n) (fun s a => calm n s a = true) (SpawnRace.init cfg) s) :
    Orderly n s :=
  hs.invariant (Orderly n) (Orderly.init n hcount) fun _ _ _ h ok hstep =>
    h.step ok (step_move hstep)

/-- By calm steps of its own, the call can return a handle. -/
def Returns (n k : Nat) (s : SpawnRace) : Prop :=
  ∃ t c, ReachableVia (step n) (fun s a => calm n s a = true ∧ a.caller = k) s t ∧
    t.calls k = .returned (.ok c)

theorem Returns.after {k : Nat} (hcalm : calm n s a = true) (hcaller : a.caller = k)
    (hstep : s.step n a = some t) (h : Returns n k t) : Returns n k s := by
  obtain ⟨u, c, hlater, hreturned⟩ := h
  exact ⟨u, c, .trans (.next .start ⟨hcalm, hcaller⟩ hstep) hlater, hreturned⟩

theorem Orderly.pops (h : Orderly n s) {k : Nat} {w : UInt32} (hcall : s.calls k = .popping w) :
    Returns n k s := by
  have hmain := h.claimed (k := k) (by simp [hcall, SpawnCall.claims])
  have hstep : s.step n (.pop k) = some (s.pop k w) := by simp [SpawnRace.step, hcall]
  have hreturned : Returns n k (s.pop k w) :=
    ⟨_, ⟨.fresh w false, .main⟩, .start, by simp [pop, hmain]⟩
  exact hreturned.after rfl rfl hstep

theorem starts {k : Nat} {w : UInt32} (hcall : s.calls k = .starting w) : Returns n k s := by
  have hstep : s.step n (.start k (some "")) = some (s.start k w (some "")) := by
    simp [step, hcall]
  have hreturned : Returns n k (s.start k w (some "")) :=
    ⟨_, ⟨.fresh w true, .zts w⟩, .start, by simp [start]⟩
  exact hreturned.after rfl rfl hstep

/-- A call that has begun can return a handle by its own steps. -/
theorem Orderly.returns (h : Orderly n s) {k : Nat} (hbegun : s.calls k ≠ .unbegun) :
    Returns n k s := by
  cases hcall : s.calls k with
  | unbegun => exact absurd hcall hbegun
  | taking =>
      have hstep : s.step n (.draw k) =
          some ({ s with runtime := s.runtime.drawWorkerId.2 }.setCall k
            (.popping s.runtime.nextWorkerId)) := by
        simp [SpawnRace.step, hcall, ExtensionRuntime.drawWorkerId]
      have hreturns := (h.step rfl (step_move hstep)).pops (k := k) (update_self ..)
      exact hreturns.after rfl rfl hstep
  | popping w => exact h.pops hcall
  | creating =>
      have hstep : s.step n (.draw k) =
          some ({ s with runtime := s.runtime.drawWorkerId.2 }.setCall k
            (.starting s.runtime.nextWorkerId)) := by
        simp [SpawnRace.step, hcall, ExtensionRuntime.drawWorkerId]
      have hreturns := starts (n := n) (k := k) (w := s.runtime.nextWorkerId)
        (s := { s with runtime := s.runtime.drawWorkerId.2 }.setCall k
          (.starting s.runtime.nextWorkerId)) (update_self ..)
      exact hreturns.after rfl rfl hstep
  | starting w => exact starts hcall
  | returned r =>
      cases r with
      | error e => exact absurd hcall (h.succeeded k e)
      | ok c => exact ⟨s, c, .start, hcall⟩

/-- With more than one worker configured and a readable directory, in every run in which
no call checks the vector while another one claims the channel: no call fails, and every
call that has begun can return a handle by its own steps. -/
theorem calm_spawns_succeed (n : Nat) (cfg : WorkersConfig) (hcount : 1 < cfg.count)
    (s : SpawnRace)
    (hs : ReachableVia (step n) (fun s a => calm n s a = true) (SpawnRace.init cfg) s) :
    (∀ k e, s.calls k ≠ .returned (.error e)) ∧
    ∀ k, s.calls k ≠ .unbegun → Returns n k s := by
  have horderly := orderly_of_calm hcount hs
  exact ⟨horderly.succeeded, fun k => horderly.returns⟩

/-- The second of two calls checks after the first has popped. -/
theorem second_spawn_succeeds :
    ∃ s, ReachableVia (step 2) (fun s a => calm 2 s a = true) (SpawnRace.init .pair) s ∧
      s.ztsThreads = [2] ∧ ∀ k e, s.calls k ≠ .returned (.error e) := by
  have hrun : (runs (fun s a => if calm 2 s a then step 2 s a else none) (SpawnRace.init .pair)
      [.check 0, .draw 0, .pop 0, .check 1, .draw 1, .start 1 (some "/srv/app")]).any
        (fun s => decide (s.ztsThreads = [2])) = true := by decide
  obtain ⟨s, hs, hthreads⟩ := exists_reachableVia hrun
  have hsucceeded := (calm_spawns_succeed 2 .pair (by decide) s hs).1
  exact ⟨s, hs, of_decide_eq_true hthreads, hsucceeded⟩

/-- The call has failed for want of a pre-connected channel. -/
def failedToPop (call : SpawnCall) : Bool :=
  match call with
  | .returned (.error e) => decide (e = "no more pre-connected channels (worker 2)")
  | _ => false

/-- Two calls see the channel before one of them pops it; the other fails. -/
theorem second_pop_fails :
    ∃ s, Reachable (step 2) (SpawnRace.init .pair) s ∧
      s.calls 1 = .returned (.error "no more pre-connected channels (worker 2)") := by
  have hrun : (runs (step 2) (SpawnRace.init .pair)
      [.check 0, .check 1, .draw 0, .draw 1, .pop 0, .pop 1]).any
        (fun s => failedToPop (s.calls 1)) = true := by decide
  obtain ⟨s, hs, hfailed⟩ := exists_reachable hrun
  refine ⟨s, hs, ?_⟩
  unfold failedToPop at hfailed
  split at hfailed
  · next e hcall => rw [hcall, of_decide_eq_true hfailed]
  · cases hfailed

end SpawnRace

end FolkCore.Ext
