import FolkCore.Pool.Posts

/-!
# The life of one handle

A worker outlives its slot: after `terminate` or the drop of its handle the thread may
still run and push. `Handled` lists what can happen to the worker behind a handle,
whoever owns it; `step_handled` says that every step of the pool is such a move for
every handle.
-/

namespace FolkCore.Pool

open Function

variable {R : Runtime} {serde : SerdeJson} {cfg : WorkersConfig} {s t : State R} {w : Nat}

/-- What a supervisor leaves of a worker without a new request. -/
inductive Released (h : R.Worker) : R.Worker → Prop
  | terminated : Released h (R.terminate h)
  | dropped : Released h (R.dropHandle h)
  | settled : Released h (R.dropExecute h)
  | panicked : Released h (R.dropHandle (R.dropExecute h))

/-- The worker behind handle `w` after a step, with the number of the next handle. -/
inductive Handled (cfg : WorkersConfig) (s : State R) (a : Action R) (w next : Nat) :
    Option R.Worker → Prop
  | same : Handled cfg s a w next (s.workers w)
  | spawned {h : R.Worker} (hw : w = s.handles) (hnext : w < next)
      (hspawns : R.spawns h = true) : Handled cfg s a w next (some (R.ready h))
  | executed {i : Nat} {req : DispatchRequest} {since : Nat} {h h' : R.Worker} {kept : Bool}
      (hi : i < cfg.count) (hphase : (s.slots i).phase = .dispatching req since)
      (hw : s.workers w = some h) (hcall : R.executeStreaming h req = some (h', kept)) :
      Handled cfg s a w next (some h')
  | released {h h' : R.Worker} (hw : s.workers w = some h) (hreleased : Released h h') :
      Handled cfg s a w next (some h')
  | acted {act : R.Act} {h h' : R.Worker} {op : Option StreamOp} (ha : a = .work w act)
      (hw : s.workers w = some h) (hact : R.act h act = some (h', op)) :
      Handled cfg s a w next (some h')

/-- The step writes the worker of one handle. -/
theorem Handled.of_update {a : Action R} {w' next : Nat} {worker : R.Worker}
    (hworkers : t.workers = update s.workers w' (some worker))
    (h : w = w' → Handled cfg s a w next (some worker)) :
    Handled cfg s a w next (t.workers w) := by
  by_cases hw : w = w'
  · have hnew : t.workers w = some worker := by rw [hworkers, hw, update_self]
    exact hnew ▸ h hw
  · have hold : t.workers w = s.workers w := by rw [hworkers, update_of_ne hw]
    exact hold ▸ .same

theorem handled_supervised {i : Nat} {a : SupervisorAction R} {r : Slot × List (Command R)}
    (hi : i < cfg.count) (move : Slot.Move cfg i s.view (s.slots i) a r.1 r.2) :
    Handled cfg s (.supervise i a) w (s.supervise i r).handles ((s.supervise i r).workers w) := by
  obtain ⟨slot', commands⟩ := r
  cases move with
  | spawned hphase hspawns =>
      apply Handled.of_update rfl
      intro hw
      refine .spawned hw ?_ hspawns
      rw [hw, s.supervise_handles]
      exact Nat.lt_succ_self _
  | bootFailed hphase hw | reloaded hphase _ hw | reloadClosed hphase _ hw
  | inboxClosed hphase _ hw | recycled hphase _ hw =>
      apply Handled.of_update rfl
      rintro rfl
      exact .released hw .terminated
  | bootPanicked hphase hw | bootAbandoned hphase hw | replaced hphase hw | exited hphase hw
  | terminatePanicked hphase hw =>
      apply Handled.of_update rfl
      rintro rfl
      exact .released hw .dropped
  | execute hphase _ hw hcall =>
      apply Handled.of_update rfl
      rintro rfl
      exact .executed hi hphase hw hcall
  | settled hphase _ hw _ =>
      apply Handled.of_update rfl
      rintro rfl
      exact .released hw .settled
  | executePanicked hphase _ hw =>
      apply Handled.of_update rfl
      rintro rfl
      exact .released hw .panicked
  | _ => exact .same

/-- Every step of the pool is a move of every handle. -/
theorem step_handled {a : Action R} (move : Move serde cfg s a t) (w : Nat) :
    Handled cfg s a w t.handles (t.workers w) := by
  cases move with
  | supervised hi _ move => exact handled_supervised hi move
  | worked hw hact | pushed hw hact _ _ _ _ | pushLost hw hact _ _ _ | closed hw hact _ _ =>
      apply Handled.of_update rfl
      rintro rfl
      exact .acted rfl hw hact
  | _ => exact .same

theorem handles_le {a : Action R} (move : Move serde cfg s a t) : s.handles ≤ t.handles := by
  cases move with
  | @supervised i _ r _ _ _ =>
      rw [s.supervise_handles i r]
      exact Nat.le_add_right _ _
  | _ => exact Nat.le_refl _

/-- The numbers not yet drawn name no worker, and every worker has the property. -/
structure Staffed (good : R.Worker → Prop) (s : State R) : Prop where
  drawn : ∀ w, s.handles ≤ w → s.workers w = none
  good : ∀ w h, s.workers w = some h → good h

theorem Staffed.init {good : R.Worker → Prop} (cfg : WorkersConfig) :
    Staffed good (init R cfg) where
  drawn _ _ := rfl
  good w h hw := by cases hw

/-- A property of new workers that every operation keeps holds of all workers. -/
theorem Staffed.step {good : R.Worker → Prop} (hs : Staffed good s) {a : Action R}
    (hspawned : ∀ h, R.spawns h = true → good (R.ready h))
    (hexecuted : ∀ h req h' kept, good h → R.executeStreaming h req = some (h', kept) → good h')
    (hreleased : ∀ h h', good h → Released h h' → good h')
    (hacted : ∀ h act h' op, good h → R.act h act = some (h', op) → good h')
    (move : Move serde cfg s a t) : Staffed good t := by
  have hold {w : Nat} (hw : t.handles ≤ w) : s.workers w = none :=
    hs.drawn w (Nat.le_trans (handles_le move) hw)
  constructor
  · intro w hw
    have handled := step_handled move w
    generalize t.workers w = worker at handled ⊢
    cases handled with
    | same => exact hold hw
    | spawned _ hnext _ => exact absurd hnext (Nat.not_lt.mpr hw)
    | executed _ _ hsome _ | released hsome _ | acted _ hsome _ =>
        rw [hold hw] at hsome
        cases hsome
  · intro w worker hworker
    have handled := step_handled move w
    generalize t.workers w = value at handled hworker
    cases handled with
    | same => exact hs.good w worker hworker
    | spawned _ _ hspawns =>
        cases hworker
        exact hspawned _ hspawns
    | executed _ _ hsome hcall =>
        cases hworker
        exact hexecuted _ _ _ _ (hs.good w _ hsome) hcall
    | released hsome hleft =>
        cases hworker
        exact hreleased _ _ (hs.good w _ hsome) hleft
    | acted _ hsome hact =>
        cases hworker
        exact hacted _ _ _ _ (hs.good w _ hsome) hact

end FolkCore.Pool
