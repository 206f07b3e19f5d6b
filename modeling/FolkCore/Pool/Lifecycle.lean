import FolkCore.Pool.Generations

/-!
# The life of a worker in its slot

A supervisor keeps two records in step by hand: the local `worker` and the
`SlotInfo`. `Slot.Orderly` ties the state and the job counter of the info to the
phase, `Counted` ties the counter to the executions in the log, and `Ended` says that
a spawned handle was terminated or is the one the slot still has.
-/

namespace FolkCore.Pool

variable {R : Runtime} {serde : SerdeJson} {cfg : WorkersConfig} {s t : State R} {i w : Nat}

/-- The state that the info of a supervisor has in a phase, where it matters. -/
def Slot.expected (slot : Slot) : Option SlotState :=
  match slot.phase with
  | .loopTop => some (if slot.worker.isSome then .idle else .spawning)
  | .spawning | .readying _ _ | .terminating _ .boot | .sleeping _ => some .spawning
  | .select _ | .selectInbox _ | .settled _ _ => some .idle
  | .dispatching _ _ | .executing _ _ => some .busy
  | .terminating _ _ | .exited | .panicked => none

/-- The info is in the state of the phase, and a slot without a ready worker has
handled no job. -/
structure Slot.Orderly (slot : Slot) : Prop where
  state : ∀ st, slot.expected = some st → slot.info.state = st
  fresh : slot.expected = some .spawning → slot.info.jobsHandled = 0

/-- The execution in progress, which the job counter does not count yet. -/
def Phase.running : Phase → Nat
  | .executing _ _ => 1
  | _ => 0

/-- The event finishes an execution on handle `w`. -/
def finishesOn (w : Nat) : Event → Bool
  | .finished _ w' _ _ => decide (w' = w)
  | _ => false

/-- The handle that the slot has and has not terminated. -/
def Slot.unterminated (slot : Slot) : Option Nat :=
  match slot.phase with
  | .readying w _ => some w
  | .terminating _ _ => none
  | _ => slot.worker

section Supervisors

variable {v : View R} {slot slot' : Slot} {a : SupervisorAction R}
  {commands : List (Command R)}

/-- The same info serves in a phase that expects the same state or none. -/
theorem Slot.Orderly.same (h : slot.Orderly) (hinfo : slot'.info = slot.info)
    (hexpected : slot'.expected = slot.expected ∨ slot'.expected = none) : slot'.Orderly := by
  rcases hexpected with heq | hnone
  · exact ⟨fun st hst => hinfo ▸ h.state st (heq ▸ hst), fun hst => hinfo ▸ h.fresh (heq ▸ hst)⟩
  · exact ⟨fun st hst => absurd (hnone.symm.trans hst) nofun,
      fun hst => absurd (hnone.symm.trans hst) nofun⟩

/-- The record of a slot that the supervisor has not polled yet is as good as its own. -/
theorem Slot.Orderly.current_eq (h : slot.Orderly) (hexpected : slot.expected = some .spawning)
    (now : Nat) :
    (slot.current now).state = .spawning ∧ (slot.current now).jobsHandled = 0 := by
  unfold Slot.current
  split
  · exact ⟨h.state _ hexpected, h.fresh hexpected⟩
  · exact ⟨rfl, rfl⟩

theorem Slot.Move.orderly (move : Slot.Move cfg i v slot a slot' commands) (htidy : slot.Tidy)
    (h : slot.Orderly) : slot'.Orderly := by
  unfold Slot.Tidy at htidy
  cases move with
  | booted hphase => exact ⟨by simp [Slot.expected, SlotInfo.markReady], by simp [Slot.expected]⟩
  | took hphase => exact ⟨by simp [Slot.expected, SlotInfo.markBusy], by simp [Slot.expected]⟩
  | settled hphase hworker =>
      have hbusy : slot.info.state = .busy := h.state .busy (by simp [Slot.expected, hphase])
      exact ⟨by simp [Slot.expected, SlotInfo.markIdle, hbusy], by simp [Slot.expected]⟩
  | replaced hphase =>
      rw [hphase] at htidy
      exact ⟨by simp [Slot.expected, SlotInfo.new, htidy], by simp [SlotInfo.new]⟩
  | wake hphase =>
      rw [hphase] at htidy
      exact h.same rfl (.inl (by simp [Slot.expected, hphase, htidy]))
  | recycled hphase =>
      refine h.same rfl (.inr ?_)
      by_cases hpending : slot.reloadPending v.generation = true
      · simp [Slot.expected, hpending]
      · simp [Slot.expected, hpending]
  | boot hphase hworker =>
      obtain ⟨hstate, hjobs⟩ := h.current_eq (by simp [Slot.expected, hphase, hworker]) v.now
      exact ⟨fun st hst => hstate.trans (Option.some.inj hst), fun _ => hjobs⟩
  | listen hphase hworker | caughtUp hphase hworker | noReload hphase hworker
  | inboxEmpty hphase hworker | execute hphase hworker | kept hphase hworker =>
      exact h.same rfl (.inl (by simp [Slot.expected, hphase, hworker]))
  | spawned hphase | spawnFailed hphase | bootFailed hphase | bootAbandoned hphase =>
      exact h.same rfl (.inl (by simp [Slot.expected, hphase]))
  | _ => exact h.same rfl (.inr rfl)

/-- The jobs on a handle: finished executions are counted, a running one is not. -/
def Counted (w : Nat) (slot : Slot) (log : List Event) : Prop :=
  log.countP (finishesOn w) = slot.info.jobsHandled ∧
    log.countP (startsOn w) = slot.info.jobsHandled + slot.phase.running

/-- Events that neither start nor finish on the handle leave the count alone. -/
theorem Counted.keep {log events : List Event} (h : Counted w slot log)
    (hjobs : slot'.info.jobsHandled = slot.info.jobsHandled)
    (hrunning : slot'.phase.running = slot.phase.running)
    (hevents : ∀ e ∈ events, finishesOn w e = false ∧ startsOn w e = false) :
    Counted w slot' (log ++ events) := by
  have hfinishes : events.countP (finishesOn w) = 0 :=
    List.countP_eq_zero.mpr fun e he => by simp [(hevents e he).1]
  have hstarts : events.countP (startsOn w) = 0 :=
    List.countP_eq_zero.mpr fun e he => by simp [(hevents e he).2]
  constructor
  · rw [List.countP_append, hfinishes, hjobs]
    exact h.1
  · rw [List.countP_append, hstarts, hjobs, hrunning]
    exact h.2

/-- A handle that no event names has no jobs. -/
theorem Counted.start {log : List Event} (hjobs : slot.info.jobsHandled = 0)
    (hrunning : slot.phase.running = 0) (hlog : ∀ e ∈ log, ∀ j, e.handle? ≠ some (j, w)) :
    Counted w slot log := by
  constructor
  · rw [hjobs]
    apply List.countP_eq_zero.mpr
    intro e he hfinishes
    cases e <;> simp [finishesOn] at hfinishes
    subst hfinishes
    exact hlog _ he _ rfl
  · rw [hjobs, hrunning]
    apply List.countP_eq_zero.mpr
    intro e he hstarts
    cases e <;> simp [startsOn] at hstarts
    subst hstarts
    exact hlog _ he _ rfl

theorem Slot.Move.counted (move : Slot.Move cfg i v slot a slot' commands) (htidy : slot.Tidy)
    (horderly : slot.Orderly) {log : List Event}
    (hlog : ∀ e ∈ log, ∀ j w, e.handle? = some (j, w) → w < v.handles)
    (h : ∀ w, slot.handle = some w → Counted w slot log) (hhandle : slot'.handle = some w) :
    Counted w slot' (log ++ commands.filterMap Command.noted) := by
  rcases move.spawn_handle htidy with ⟨hspawn, hnone | hsame⟩ | ⟨hspawn, hfresh⟩
  · exact absurd (hnone.symm.trans hhandle) nofun
  · have hcounted := h w (hsame ▸ hhandle)
    cases move with
    | spawned => simp [Command.isSpawn] at hspawn
    | @execute req _ w' _ _ _ hphase hworker =>
        obtain rfl : w' = w := by simpa [Slot.handle, hworker] using hhandle
        constructor
        · simpa [Command.noted, List.filterMap_cons, finishesOn] using hcounted.1
        · have hstarts := hcounted.2
          simp [Command.noted, List.filterMap_cons, startsOn, Phase.running, hphase] at hstarts ⊢
          exact hstarts
    | @settled tx _ w' _ result hphase hworker =>
        obtain rfl : w' = w := by simpa [Slot.handle, hworker] using hhandle
        constructor
        · have hfinishes := hcounted.1
          simp [Command.noted, List.filterMap_cons, finishesOn, SlotInfo.markIdle] at hfinishes ⊢
          exact hfinishes
        · have hstarts := hcounted.2
          simp [Command.noted, List.filterMap_cons, startsOn, SlotInfo.markIdle, Phase.running,
            hphase] at hstarts ⊢
          exact hstarts
    | boot hphase hworker => simp [Slot.handle, hworker] at hhandle
    | listen hphase | spawnFailed hphase | booted hphase | bootFailed hphase
    | wake hphase | reloaded hphase | caughtUp hphase | noReload hphase | reloadClosed hphase
    | took hphase | inboxEmpty hphase | inboxClosed hphase | recycled hphase | kept hphase
    | bootAbandoned hphase =>
        refine hcounted.keep rfl (by simp [Phase.running, hphase]) ?_
        simp [Command.noted, finishesOn, startsOn]
    | replaced hphase =>
        unfold Slot.Tidy at htidy
        rw [hphase] at htidy
        simp [Slot.handle, htidy] at hhandle
    | _ => cases hhandle
  · cases move with
    | spawned hphase =>
        have hw : v.handles = w := Option.some.inj hhandle
        have hjobs := horderly.fresh (by simp [Slot.expected, hphase])
        refine (Counted.start hjobs ?_ ?_).keep rfl (by simp [Phase.running, hphase]) ?_
        · simp [Phase.running, hphase]
        · intro e he j hej
          exact absurd (hlog e he j w hej) (by omega)
        · simp [Command.noted, List.filterMap_cons, finishesOn, startsOn]
    | _ => simp [Command.isSpawn] at hspawn

/-- The slot keeps its handle, terminates it or panics. -/
theorem Slot.Move.ends (move : Slot.Move cfg i v slot a slot' commands) (htidy : slot.Tidy)
    (hhandle : slot.unterminated = some w) :
    slot'.unterminated = some w ∨ (∃ why, .terminated i w why ∈ commands.filterMap Command.noted) ∨
      slot'.phase = .panicked := by
  cases move with
  | spawnPanicked | bootPanicked | unreachable | executePanicked | terminatePanicked =>
      exact .inr (.inr rfl)
  | @bootFailed w' _ _ hphase =>
      obtain rfl : w' = w := by simpa [Slot.unterminated, hphase] using hhandle
      exact .inr (.inl ⟨.boot, by simp [Command.noted, List.filterMap_cons]⟩)
  | @reloaded w' _ hphase hworker | @reloadClosed w' _ hphase hworker
  | @inboxClosed _ w' _ hphase hworker | @recycled _ _ w' _ hphase hworker =>
      obtain rfl : w' = w := by simpa [Slot.unterminated, hphase, hworker] using hhandle
      exact .inr (.inl ⟨_, by simp only [Command.noted, List.filterMap_cons]; exact .head _⟩)
  | exited hphase | bootAbandoned hphase | replaced hphase =>
      simp [Slot.unterminated, hphase] at hhandle
  | spawned hphase =>
      unfold Slot.Tidy at htidy
      rw [hphase] at htidy
      simp [Slot.unterminated, hphase, htidy] at hhandle
  | boot hphase | listen hphase | spawnFailed hphase | booted hphase | wake hphase
  | caughtUp hphase | noReload hphase | took hphase | inboxEmpty hphase | execute hphase
  | settled hphase | kept hphase =>
      exact .inl (by simpa [Slot.unterminated, hphase] using hhandle)

/-- A handle just spawned is the one the slot has. -/
theorem Slot.Move.spawns (move : Slot.Move cfg i v slot a slot' commands)
    (hspawned : .spawned i w ∈ commands.filterMap Command.noted) :
    slot'.unterminated = some w := by
  cases move with
  | spawned hphase =>
      have hw : w = v.handles := by simpa [Command.noted, List.filterMap_cons] using hspawned
      simp [Slot.unterminated, hw]
  | _ => simp [Command.noted, List.filterMap_cons] at hspawned

/-- A worker is installed when its `ready` has succeeded. -/
theorem Slot.Move.installs (move : Slot.Move cfg i v slot a slot' commands)
    (hworker : slot'.worker = some w) :
    slot.worker = some w ∨ a = .pollReady ∧ ∃ deadline h, slot.phase = .readying w deadline ∧
      v.workers w = some h ∧ R.pollReady h = .ready (.ok ()) := by
  cases move with
  | @booted w' deadline h hphase hw hready =>
      obtain rfl : w' = w := Option.some.inj hworker
      exact .inr ⟨rfl, deadline, h, hphase, hw, hready⟩
  | boot | listen | spawned | spawnFailed | wake | caughtUp | noReload | took | inboxEmpty
  | execute | settled | kept | bootAbandoned | replaced => exact .inl hworker
  | _ => cases hworker

/-- A supervisor that panicked makes no step. -/
theorem Slot.Move.not_panicked (move : Slot.Move cfg i v slot a slot' commands) :
    slot.phase ≠ .panicked := by
  intro hpanicked
  cases move <;> simp_all

/-- A request is started on the handle that the slot keeps. -/
theorem Slot.Move.starts_eq_zero (move : Slot.Move cfg i v slot a slot' commands)
    (hhandle : slot'.handle ≠ some w) : starts w commands = 0 := by
  cases move with
  | @execute req _ w' _ _ _ hphase hworker =>
      have hne : w' ≠ w := fun heq => hhandle (by simp [Slot.handle, hworker, heq])
      simp [starts, Command.noted, List.filterMap_cons, startsOn, hne]
  | _ => rfl

/-- A slot may start a job unless it has just finished one or terminates its worker. -/
def Phase.mayStart : Phase → Nat
  | .settled _ _ => 0
  | .terminating _ _ => 0
  | _ => 1

theorem Phase.running_le (phase : Phase) : phase.running ≤ phase.mayStart := by
  cases phase <;> simp [Phase.running, Phase.mayStart]

/-- A recyclable worker that has reached `max_jobs` does not get to another start. -/
theorem Slot.Move.room (move : Slot.Move cfg i v slot a slot' commands) (htidy : slot.Tidy)
    (horderly : slot.Orderly) (hrecyclable : ∀ h, v.workers w = some h → R.isRecyclable h = true)
    (hroom : slot.handle = some w →
      slot.info.jobsHandled + slot.phase.mayStart ≤ max 1 cfg.maxJobs)
    (hhandle : slot'.handle = some w) :
    slot'.info.jobsHandled + slot'.phase.mayStart ≤ max 1 cfg.maxJobs := by
  rcases move.spawn_handle htidy with ⟨hspawn, hnone | hsame⟩ | ⟨hspawn, hfresh⟩
  · exact absurd (hnone.symm.trans hhandle) nofun
  · have hle := hroom (hsame ▸ hhandle)
    cases move with
    | spawned => simp [Command.isSpawn] at hspawn
    | @kept tx result w' h hphase hworker hw htest =>
        obtain rfl : w' = w := by simpa [Slot.handle, hworker] using hhandle
        have hnot := htest.resolve_right (by simp [hrecyclable h hw])
        simp only [SlotInfo.shouldRecycle, Bool.or_eq_false_iff, decide_eq_false_iff_not] at hnot
        simp only [Phase.mayStart]
        omega
    | settled hphase =>
        simp only [hphase, Phase.mayStart] at hle
        simp only [Phase.mayStart, SlotInfo.markIdle]
        omega
    | replaced hphase =>
        unfold Slot.Tidy at htidy
        rw [hphase] at htidy
        simp [Slot.handle, htidy] at hhandle
    | bootAbandoned hphase =>
        unfold Slot.Tidy at htidy
        rw [hphase] at htidy
        simp [Slot.handle, htidy] at hhandle
    | bootFailed hphase | reloaded hphase | reloadClosed hphase | inboxClosed hphase
    | recycled hphase =>
        simp only [Phase.mayStart]
        omega
    | boot hphase hworker => simp [Slot.handle, hworker] at hhandle
    | listen hphase | spawnFailed hphase | booted hphase | wake hphase | caughtUp hphase
    | noReload hphase | took hphase | inboxEmpty hphase | execute hphase =>
        simpa [Phase.mayStart, hphase, SlotInfo.markReady, SlotInfo.markBusy] using hle
    | _ => cases hhandle
  · cases move with
    | spawned hphase =>
        have hjobs := horderly.fresh (by simp [Slot.expected, hphase])
        simp only [hjobs, Phase.mayStart]
        omega
    | _ => simp [Command.isSpawn] at hspawn

end Supervisors

/-- The invariant of one slot: its info, its job counter and its handles. -/
structure Disciplined (i : Nat) (s : State R) : Prop where
  housed : Housed s
  orderly : (s.slots i).Orderly
  counted : ∀ w, (s.slots i).handle = some w → Counted w (s.slots i) (s.log i)
  ended : ∀ w, .spawned i w ∈ s.log i → (∃ why, .terminated i w why ∈ s.log i) ∨
    (s.slots i).unterminated = some w ∨ (s.slots i).phase = .panicked

theorem Disciplined.init (R : Runtime) (cfg : WorkersConfig) (i : Nat) :
    Disciplined i (init R cfg) where
  housed := Housed.init R cfg
  orderly := ⟨fun st hst => Option.some.inj hst, fun _ => rfl⟩
  counted w h := by cases h
  ended w h := by cases h

theorem Housed.log_bound (h : Housed s) :
    ∀ e ∈ s.log i, ∀ j w, e.handle? = some (j, w) → w < s.view.handles :=
  fun e he j w hew => h.noted e (List.mem_of_mem_filter he) j w hew

theorem Disciplined.step (h : Disciplined i s) {a : Action R} (move : Move serde cfg s a t) :
    Disciplined i t := by
  have hpost := step_post h.housed move i
  have hall : (t.post i).slot.Orderly ∧
      (∀ w, (t.post i).slot.handle = some w → Counted w (t.post i).slot (t.post i).log) ∧
      ∀ w, .spawned i w ∈ (t.post i).log → (∃ why, .terminated i w why ∈ (t.post i).log) ∨
        (t.post i).slot.unterminated = some w ∨ (t.post i).slot.phase = .panicked := by
    generalize t.post i = p at hpost ⊢
    cases hpost with
    | same => exact ⟨h.orderly, h.counted, h.ended⟩
    | delivered req => exact ⟨h.orderly.same rfl (.inl rfl), h.counted, h.ended⟩
    | acted => exact ⟨h.orderly, h.counted, h.ended⟩
    | @supervised _ r _ _ htidy move =>
        refine ⟨move.orderly htidy h.orderly, fun w hw => ?_, fun w hw => ?_⟩
        · exact move.counted htidy h.orderly h.housed.log_bound h.counted hw
        · rcases List.mem_append.mp hw with hold | hnew
          · rcases h.ended w hold with ⟨why, hwhy⟩ | hhas | hpanicked
            · exact .inl ⟨why, List.mem_append_left _ hwhy⟩
            · rcases move.ends htidy hhas with hkeeps | ⟨why, hwhy⟩ | hpanicked
              · exact .inr (.inl hkeeps)
              · exact .inl ⟨why, List.mem_append_right _ hwhy⟩
              · exact .inr (.inr hpanicked)
            · exact absurd hpanicked move.not_panicked
          · exact .inr (.inl (move.spawns hnew))
  exact ⟨h.housed.step move, hall.1, hall.2.1, hall.2.2⟩

/-- The worker behind handle `w`, if there is one, is recyclable. -/
def recyclableHandle (w : Nat) (s : State R) : Bool := (s.workers w).all R.isRecyclable

/-- The invariant of a run in which handle `w` is recyclable. -/
structure Capped (cfg : WorkersConfig) (i w : Nat) (s : State R) : Prop where
  count : (s.log i).countP (startsOn w) ≤ max 1 cfg.maxJobs
  room : (s.slots i).handle = some w →
    (s.slots i).info.jobsHandled + (s.slots i).phase.mayStart ≤ max 1 cfg.maxJobs

theorem Capped.init (R : Runtime) (cfg : WorkersConfig) (i w : Nat) :
    Capped cfg i w (init R cfg) where
  count := Nat.zero_le _
  room h := by cases h

theorem Capped.step (h : Capped cfg i w s) (hdisciplined : Disciplined i s)
    (hrecyclable : recyclableHandle w s = true) {a : Action R} (move : Move serde cfg s a t) :
    Capped cfg i w t := by
  have hnext := hdisciplined.step move
  have hpost := step_post hdisciplined.housed move i
  have hboth : ((t.post i).slot.handle = some w →
      (t.post i).slot.info.jobsHandled + (t.post i).slot.phase.mayStart ≤ max 1 cfg.maxJobs) ∧
      ((t.post i).slot.handle ≠ some w →
        (t.post i).log.countP (startsOn w) = (s.log i).countP (startsOn w)) := by
    generalize t.post i = p at hpost ⊢
    cases hpost with
    | same => exact ⟨h.room, fun _ => rfl⟩
    | delivered req => exact ⟨h.room, fun _ => rfl⟩
    | acted => exact ⟨h.room, fun _ => rfl⟩
    | @supervised _ r _ _ htidy move =>
        refine ⟨fun hhandle => ?_, fun hhandle => ?_⟩
        · refine move.room htidy hdisciplined.orderly (fun worker hworker => ?_) h.room hhandle
          have hw : s.workers w = some worker := hworker
          simpa [recyclableHandle, hw] using hrecyclable
        · have hzero := move.starts_eq_zero hhandle
          simp only [starts] at hzero
          rw [List.countP_append, hzero]
          rfl
  refine ⟨?_, hboth.1⟩
  by_cases hhandle : (t.slots i).handle = some w
  · have hrunning := (t.slots i).phase.running_le
    calc (t.log i).countP (startsOn w)
        = (t.slots i).info.jobsHandled + (t.slots i).phase.running :=
          (hnext.counted w hhandle).2
      _ ≤ (t.slots i).info.jobsHandled + (t.slots i).phase.mayStart :=
          Nat.add_le_add_left hrunning _
      _ ≤ max 1 cfg.maxJobs := hboth.1 hhandle
  · calc (t.log i).countP (startsOn w) = (s.log i).countP (startsOn w) := hboth.2 hhandle
      _ ≤ max 1 cfg.maxJobs := h.count

/-- Earlier in the run, `ready` on handle `w` of slot `i` returned successfully. -/
def Readied (serde : SerdeJson) (cfg : WorkersConfig) (i w : Nat) (s : State R) : Prop :=
  ∃ before after deadline worker,
    Lib.Reachable (step serde cfg) (init R cfg) before ∧
    (before.slots i).phase = .readying w deadline ∧ before.workers w = some worker ∧
    R.pollReady worker = .ready (.ok ()) ∧
    step serde cfg before (.supervise i .pollReady) = some after ∧
    Lib.Reachable (step serde cfg) after s

/-- An installed worker was ready before. -/
theorem readied_of_installed (hs : Lib.Reachable (step serde cfg) (init R cfg) s)
    (hworker : (s.slots i).worker = some w) : Readied serde cfg i w s := by
  induction hs with
  | start => cases hworker
  | @next s t a reached _ hstep ih =>
      -- a step that does not install the worker only prolongs the run
      have later (hold : (s.slots i).worker = some w) : Readied serde cfg i w t := by
        obtain ⟨before, after, deadline, worker, hbefore, hphase, hw, hready, hpoll, hafter⟩ :=
          ih hold
        exact ⟨before, after, deadline, worker, hbefore, hphase, hw, hready, hpoll,
          .next hafter trivial hstep⟩
      cases step_move hstep with
      | @supervised j b r hj hb move =>
          by_cases hji : i = j
          · subst hji
            have hnew : r.1.worker = some w := by simpa using hworker
            rcases move.installs hnew with hold | ⟨rfl, deadline, worker, hphase, hw, hready⟩
            · exact later hold
            · exact ⟨s, _, deadline, worker, reached, hphase, hw, hready, hstep, .start⟩
          · exact later (by simpa [hji] using hworker)
      | @delivered req attempt _ _ _ _ _ =>
          apply later
          by_cases hi : i = (s.next + attempt) % cfg.count
          · simpa [hi] using hworker
          · simpa [hi] using hworker
      | _ => exact later hworker

end FolkCore.Pool
