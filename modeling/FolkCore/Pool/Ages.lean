import FolkCore.Pool.Lifecycle

/-!
# The age of a worker

The lifecycle branch reads the age of a worker off `created_at`, which is set when the
supervisor is first polled and when a worker was replaced, but not when a boot fails and is
tried again. `Timed` notes the clock at every spawn beside the pool. A worker is
recycled for age as much too early as its record was old when it was spawned.
-/

namespace FolkCore.Pool

open Function

/-- The pool, with the clock at the spawn of each handle. -/
structure Timed (R : Runtime) where
  pool : State R
  spawnedAt : Nat → Option Nat

variable {R : Runtime}

namespace Timed

def init (R : Runtime) (cfg : WorkersConfig) : Timed R := ⟨Pool.init R cfg, fun _ => none⟩

/-- A spawn is noted under the handle that it returns. -/
def note (s : Timed R) : Action R → Nat → Option Nat
  | .supervise _ (.spawned _) => update s.spawnedAt s.pool.handles (some s.pool.now)
  | _ => s.spawnedAt

def step (serde : SerdeJson) (cfg : WorkersConfig) (s : Timed R) (a : Action R) :
    Option (Timed R) :=
  (Pool.step serde cfg s.pool a).map fun t => ⟨t, s.note a⟩

/-- A spawn of slot `i` finds a record that is at most `slack` old. -/
def freshAtSpawn (i slack : Nat) (s : Timed R) : Action R → Bool
  | .supervise j (.spawned _) =>
      decide (j ≠ i) || decide (s.pool.now ≤ (s.pool.slots i).info.createdAt + slack)
  | _ => true

end Timed

/-- The phase terminates handle `w` by the lifecycle policies. -/
def Phase.retires (w : Nat) : Phase → Bool
  | .terminating w' .lifecycle => decide (w' = w)
  | _ => false

variable {serde : SerdeJson} {cfg : WorkersConfig} {i w slack : Nat}

theorem Phase.retires_iff {phase : Phase} :
    phase.retires w = true ↔ phase = .terminating w .lifecycle := by
  cases phase with
  | terminating w' why => cases why <;> simp [Phase.retires]
  | _ => simp [Phase.retires]

/-- The record keeps its date, or is made when the slot has no handle. -/
theorem Slot.Move.createdAt {v : View R} {slot slot' : Slot} {a : SupervisorAction R}
    {commands : List (Command R)} (move : Slot.Move cfg i v slot a slot' commands)
    (htidy : slot.Tidy) :
    slot'.info.createdAt = slot.info.createdAt ∨
      slot'.info.createdAt = v.now ∧ slot'.handle = none := by
  cases move with
  | boot hphase hworker =>
      unfold Slot.current
      split
      · exact .inl rfl
      · exact .inr ⟨rfl, hworker⟩
  | replaced hphase =>
      unfold Slot.Tidy at htidy
      rw [hphase] at htidy
      exact .inr ⟨rfl, htidy⟩
  | _ => exact .inl rfl

theorem now_le {s t : State R} {a : Action R} (move : Move serde cfg s a t) : s.now ≤ t.now := by
  cases move with
  | ticked => exact Nat.le_add_right _ _
  | supervised => simp
  | _ => exact Nat.le_refl _

variable {s t : Timed R}

theorem Timed.note_of_lt (a : Action R) (hw : w < s.pool.handles) :
    s.note a w = s.spawnedAt w := by
  have hne : w ≠ s.pool.handles := Nat.ne_of_lt hw
  unfold note
  split
  · exact update_of_ne hne _ _
  · rfl

/-- The invariant: the record of slot `i` is at most `slack` older than its worker. -/
structure Aged (i slack : Nat) (s : Timed R) : Prop where
  disciplined : Disciplined i s.pool
  past : (s.pool.slots i).info.createdAt ≤ s.pool.now
  spawned : ∀ w, (s.pool.slots i).handle = some w → ∃ clock, s.spawnedAt w = some clock ∧
    clock ≤ (s.pool.slots i).info.createdAt + slack

theorem Aged.init (R : Runtime) (cfg : WorkersConfig) (i slack : Nat) :
    Aged i slack (Timed.init R cfg) where
  disciplined := Disciplined.init R cfg i
  past := Nat.le_refl 0
  spawned w h := by cases h

/-- What one step of the supervisor does to the date of its record. -/
theorem Aged.step (h : Aged i slack s) {a : Action R} (hfresh : s.freshAtSpawn i slack a = true)
    (hstep : s.step serde cfg a = some t) : Aged i slack t := by
  obtain ⟨pool, hpool, rfl⟩ := Option.map_eq_some_iff.mp hstep
  have hmove := step_move hpool
  have hpost := step_post h.disciplined.housed hmove i
  have hkept {w : Nat} (hhandle : (s.pool.slots i).handle = some w) :
      ∃ clock, s.note a w = some clock ∧ clock ≤ (s.pool.slots i).info.createdAt + slack := by
    rw [Timed.note_of_lt a (h.disciplined.housed.bound i w hhandle)]
    exact h.spawned w hhandle
  have hboth : (pool.post i).slot.info.createdAt ≤ s.pool.now ∧
      ∀ w, (pool.post i).slot.handle = some w → ∃ clock, s.note a w = some clock ∧
        clock ≤ (pool.post i).slot.info.createdAt + slack := by
    generalize pool.post i = p at hpost ⊢
    cases hpost with
    | same => exact ⟨h.past, fun w => hkept⟩
    | delivered req => exact ⟨h.past, fun w => hkept⟩
    | acted => exact ⟨h.past, fun w => hkept⟩
    | @supervised _ r ha _ htidy move =>
        obtain ⟨slot', commands⟩ := r
        subst ha
        rcases move.createdAt htidy with hsame | ⟨hnow, hnone⟩
        · refine ⟨hsame ▸ h.past, fun w hhandle => ?_⟩
          rw [hsame]
          rcases move.spawn_handle htidy with ⟨_, hnone | hold⟩ | ⟨hspawn, hnew⟩
          · exact absurd (hnone.symm.trans hhandle) nofun
          · exact hkept (hold ▸ hhandle)
          · -- the handle is fresh: the step is the spawn, and the condition is about it
            cases move with
            | spawned =>
                obtain rfl : s.pool.handles = w := Option.some.inj (hnew.symm.trans hhandle)
                have hle : s.pool.now ≤ (s.pool.slots i).info.createdAt + slack := by
                  simpa [Timed.freshAtSpawn] using hfresh
                exact ⟨s.pool.now, update_self .., hle⟩
            | _ => simp [Command.isSpawn] at hspawn
        · exact ⟨Nat.le_of_eq hnow, fun w hhandle => absurd (hnone.symm.trans hhandle) nofun⟩
  exact ⟨h.disciplined.step hmove, hboth.1.trans (now_le hmove), hboth.2⟩

/-- In every run in which each spawn of slot `i` finds a record at most `slack` old, a
worker that the lifecycle branch terminates has finished at least `max_jobs`
executions, or it was spawned at least `ttl` before, but for `slack`. -/
theorem retired_worker_was_due (R : Runtime) (serde : SerdeJson) (cfg : WorkersConfig)
    (i slack : Nat) (s t : Timed R)
    (hs : Lib.ReachableVia (Timed.step serde cfg)
      (fun s a => s.freshAtSpawn i slack a = true) (Timed.init R cfg) s)
    (hstep : s.step serde cfg (.supervise i .recycle) = some t) (w : Nat)
    (hphase : (t.pool.slots i).phase = .terminating w .lifecycle) :
    cfg.maxJobs ≤ (s.pool.log i).countP (finishesOn w) ∨
      ∃ clock, s.spawnedAt w = some clock ∧ clock + cfg.ttl ≤ s.pool.now + slack := by
  have haged : Aged i slack s :=
    hs.invariant (Aged i slack) (Aged.init R cfg i slack) fun _ _ _ h ok hstep => h.step ok hstep
  obtain ⟨pool, hpool, rfl⟩ := Option.map_eq_some_iff.mp hstep
  cases step_move hpool with
  | @supervised _ _ r _ _ move =>
      obtain ⟨slot', commands⟩ := r
      have hslot : slot'.phase = .terminating w .lifecycle := by simpa using hphase
      cases move with
      | kept => cases hslot
      | @recycled tx result w' h hsettled hworker hw htest hrecyclable =>
          obtain ⟨rfl, hwhy⟩ := Phase.terminating.inj hslot
          have hhandle : (s.pool.slots i).handle = some w' := by
            simp [Slot.handle, hsettled, hworker]
          have hpending : (s.pool.slots i).reloadPending s.pool.view.generation = false := by
            by_contra hpending
            simp [hpending] at hwhy
          rw [hpending, Bool.false_or] at htest
          simp only [SlotInfo.shouldRecycle, Bool.or_eq_true, decide_eq_true_eq] at htest
          rcases htest with hjobs | hage
          · exact .inl ((haged.disciplined.counted w' hhandle).1 ▸ hjobs)
          · obtain ⟨clock, hclock, hle⟩ := haged.spawned w' hhandle
            have hpast := haged.past
            have hage' : cfg.ttl ≤ s.pool.now - (s.pool.slots i).info.createdAt := hage
            exact .inr ⟨clock, hclock, by omega⟩

/-- The last step of a run terminates handle 0 of slot 0 by the lifecycle policies. -/
def Timed.retiresNext (cfg : WorkersConfig) (s : Timed .basic) : Bool :=
  (s.step .ofNull cfg (.supervise 0 .recycle)).any fun t => (t.pool.slots 0).phase.retires 0

theorem Timed.exists_retired {s : Timed .basic} (h : s.retiresNext cfg = true) :
    ∃ t, s.step .ofNull cfg (.supervise 0 .recycle) = some t ∧
      (t.pool.slots 0).phase = .terminating 0 .lifecycle := by
  obtain ⟨t, hstep, hphase⟩ := (Option.any_eq_true ..).mp h
  exact ⟨t, hstep, Phase.retires_iff.mp hphase⟩

/-- A worker that was spawned at once is recycled after `ttl`. -/
theorem hour_old_worker_retired :
    ∃ s t : Timed .basic, s.step .ofNull .single (.supervise 0 .recycle) = some t ∧
      (t.pool.slots 0).phase = .terminating 0 .lifecycle ∧
      (1000 ≤ (s.pool.log 0).countP (finishesOn 0) ∨
        ∃ clock, s.spawnedAt 0 = some clock ∧ clock + 3600000 ≤ s.pool.now + 0) := by
  have hrun : (Lib.runs
      (fun s a => if s.freshAtSpawn 0 0 a then s.step .ofNull .single a else none)
      (Timed.init .basic .single)
      (oneCall .basic () ++ [.tick 3600000, .supervise 0 .pollExecute])).any
        (Timed.retiresNext .single) = true := by decide
  obtain ⟨s, hs, htest⟩ := Lib.exists_reachableVia hrun
  obtain ⟨t, hstep, hphase⟩ := Timed.exists_retired htest
  exact ⟨s, t, hstep, hphase,
    retired_worker_was_due .basic .ofNull .single 0 0 s t hs hstep 0 hphase⟩

/-- A worker whose boot failed for an hour is recycled for age after its first request,
in the moment in which it was spawned. -/
theorem new_worker_retired_for_age :
    ∃ s t : Timed .basic, Lib.Reachable (Timed.step .ofNull .single) (Timed.init .basic .single) s ∧
      s.step .ofNull .single (.supervise 0 .recycle) = some t ∧
      (t.pool.slots 0).phase = .terminating 0 .lifecycle ∧
      (s.pool.log 0).countP (finishesOn 0) = 1 ∧ s.spawnedAt 0 = some s.pool.now ∧
      ¬(WorkersConfig.single.maxJobs ≤ (s.pool.log 0).countP (finishesOn 0) ∨
        ∃ clock, s.spawnedAt 0 = some clock ∧ clock + WorkersConfig.single.ttl ≤ s.pool.now) := by
  have hrun : (Lib.runs (Timed.step .ofNull .single) (Timed.init .basic .single)
      ([.supervise 0 .enterLoop, .supervise 0 .spawnFailed, .tick 3600000, .supervise 0 .wake] ++
        oneCall .basic () ++ [.supervise 0 .pollExecute])).any
        (fun s => s.retiresNext .single && (decide ((s.pool.log 0).countP (finishesOn 0) = 1) &&
          decide (s.spawnedAt 0 = some s.pool.now))) = true := by decide
  obtain ⟨s, hs, htest⟩ := Lib.exists_reachable hrun
  simp only [Bool.and_eq_true, decide_eq_true_eq] at htest
  obtain ⟨hretires, hjobs, hspawned⟩ := htest
  obtain ⟨t, hstep, hphase⟩ := Timed.exists_retired hretires
  refine ⟨s, t, hs, hstep, hphase, hjobs, hspawned, ?_⟩
  rintro (hmax | ⟨clock, hclock, hold⟩)
  · rw [hjobs] at hmax
    exact absurd hmax (by decide)
  · obtain rfl : s.pool.now = clock := Option.some.inj (hspawned.symm.trans hclock)
    simp [WorkersConfig.single] at hold

end FolkCore.Pool
