import FolkCore.Pool.Handles
import FolkCore.Pool.Replies

/-!
# Reload generations

`trigger_reload` bumps a generation. A supervisor reads it without marking it seen
when it boots a worker and after each request, and marks it seen in its `select!`.
What it has seen is never newer than the generation its worker was booted at, so a
worker that waits without an unseen change is current, and a worker that was left
behind starts at most one more request.
-/

namespace FolkCore.Pool

variable {R : Runtime} {serde : SerdeJson} {cfg : WorkersConfig} {s t : State R} {i w : Nat}

/-- The supervisor has a worker or boots one. -/
def Slot.manned (slot : Slot) : Bool :=
  match slot.phase with
  | .spawning => true
  | .readying _ _ => true
  | _ => slot.worker.isSome

/-- The order of the generations that a supervisor has seen and booted at. -/
structure Slot.UpToDate (slot : Slot) (generation : Nat) : Prop where
  seen_le : slot.seenGeneration ≤ generation
  boot_le : slot.bootGeneration ≤ generation
  seen_le_boot : slot.manned = true → slot.seenGeneration ≤ slot.bootGeneration

theorem Slot.UpToDate.mono {slot : Slot} {g g' : Nat} (h : slot.UpToDate g) (hle : g ≤ g') :
    slot.UpToDate g' :=
  ⟨h.seen_le.trans hle, h.boot_le.trans hle, h.seen_le_boot⟩

/-- The `recyclable` that a supervisor carries through its `select!`. -/
def Phase.recyclable : Phase → Bool
  | .select recyclable => recyclable
  | .selectInbox recyclable => recyclable
  | _ => true

/-- The requests that a supervisor may still start before it looks at the generation:
one, when it is past the reload branch of its `select!` or holds a request. -/
def Phase.allowance : Phase → Nat
  | .selectInbox _ => 1
  | .dispatching _ _ => 1
  | _ => 0

/-- The requests that handle `w` may still start on the word of its supervisor. -/
def Slot.allowance (slot : Slot) (w : Nat) : Nat :=
  if slot.handle = some w then slot.phase.allowance else 0

theorem Slot.allowance_le (slot : Slot) (w : Nat) : slot.allowance w ≤ 1 := by
  unfold Slot.allowance
  split
  · cases slot.phase <;> simp [Phase.allowance]
  · exact Nat.zero_le 1

/-- The event starts a request on handle `w`. -/
def startsOn (w : Nat) : Event → Bool
  | .executed _ w' _ => decide (w' = w)
  | _ => false

/-- The starts on handle `w` that the commands note. -/
def starts (w : Nat) (commands : List (Command R)) : Nat :=
  (commands.filterMap Command.noted).countP (startsOn w)

section Supervisors

variable {v : View R} {slot slot' : Slot} {a : SupervisorAction R}
  {commands : List (Command R)}

theorem Slot.Move.upToDate (move : Slot.Move cfg i v slot a slot' commands)
    (h : slot.UpToDate v.generation) : slot'.UpToDate v.generation := by
  obtain ⟨hseen, hboot, hmanned⟩ := h
  cases move with
  | boot hphase hworker => exact ⟨hseen, Nat.le_refl _, fun _ => hseen⟩
  | spawned hphase | spawnFailed hphase | booted hphase =>
      exact ⟨hseen, hboot, fun _ => hmanned (by simp [Slot.manned, hphase])⟩
  | reloaded hphase => exact ⟨Nat.le_refl _, hboot, by simp [Slot.manned]⟩
  | caughtUp hphase hworker _ _ hle => exact ⟨Nat.le_refl _, hboot, fun _ => hle⟩
  | bootFailed hphase | reloadClosed hphase | inboxClosed hphase | recycled hphase
  | spawnPanicked hphase | bootPanicked hphase | unreachable hphase | executePanicked hphase
  | exited hphase
  | terminatePanicked hphase =>
      exact ⟨hseen, hboot, by simp [Slot.manned]⟩
  | listen hphase | wake hphase | noReload hphase | took hphase | inboxEmpty hphase
  | execute hphase | settled hphase | kept hphase | bootAbandoned hphase
  | replaced hphase =>
      refine ⟨hseen, hboot, fun hm => hmanned ?_⟩
      simpa [Slot.manned, hphase] using hm

/-- With recyclable workers the flag of the `select!` is up. -/
theorem Slot.Move.recyclable (move : Slot.Move cfg i v slot a slot' commands)
    (hrecyclable : ∀ h, slot.handle.bind v.workers = some h → R.isRecyclable h = true)
    (hflag : slot.phase.recyclable = true) : slot'.phase.recyclable = true := by
  cases move with
  | listen hphase hworker hw =>
      exact hrecyclable _ (by simp [Slot.handle, hphase, hworker, hw])
  | booted hphase hw => exact hrecyclable _ (by simp [Slot.handle, hphase, hw])
  | noReload hphase | inboxEmpty hphase => simpa [Phase.recyclable, hphase] using hflag
  | _ => rfl

/-- A handle that is not fresh stays with the generation it was booted at. -/
theorem Slot.Move.keeps_handle (move : Slot.Move cfg i v slot a slot' commands)
    (htidy : slot.Tidy) (hw : w ≠ v.handles) (hhandle : slot'.handle = some w) :
    slot.handle = some w ∧ slot'.bootGeneration = slot.bootGeneration := by
  unfold Slot.Tidy at htidy
  cases move with
  | boot hphase hworker => simp [Slot.handle, hworker] at hhandle
  | spawned hphase => exact absurd (Option.some.inj hhandle).symm hw
  | spawnPanicked hphase | bootPanicked hphase | unreachable hphase | executePanicked hphase
  | exited hphase
  | terminatePanicked hphase => cases hhandle
  | bootAbandoned hphase | replaced hphase =>
      rw [hphase] at htidy
      simp [Slot.handle, htidy] at hhandle
  | reloaded hphase hworker | reloadClosed hphase hworker | inboxClosed hphase hworker
  | recycled hphase hworker =>
      refine ⟨?_, rfl⟩
      simpa [Slot.handle, hphase, hworker] using hhandle
  | listen hphase | spawnFailed hphase | booted hphase | bootFailed hphase | wake hphase
  | caughtUp hphase | noReload hphase | took hphase | inboxEmpty hphase | execute hphase
  | settled hphase | kept hphase =>
      refine ⟨?_, rfl⟩
      simpa [Slot.handle, hphase] using hhandle

/-- A worker left behind starts no more than its allowance. The supervisor looks at
the generation in the reload branch and after each request. -/
theorem Slot.Move.starts_le (move : Slot.Move cfg i v slot a slot' commands)
    (hcurrent : slot.UpToDate v.generation) (hflag : slot.phase.recyclable = true)
    (hstale : slot.handle = some w → slot.bootGeneration < v.generation) :
    starts w commands + slot'.allowance w ≤ slot.allowance w := by
  have quiet (hstarts : starts w commands = 0) (hphase : slot'.phase.allowance = 0) :
      starts w commands + slot'.allowance w ≤ slot.allowance w := by
    have hzero : slot'.allowance w = 0 := by simp [Slot.allowance, hphase]
    omega
  cases move with
  | @noReload recyclable w' h hphase hworker hw' hquiet =>
      obtain rfl : recyclable = true := by simpa [Phase.recyclable, hphase] using hflag
      have hseen := hcurrent.seen_le_boot (by simp [Slot.manned, hphase, hworker])
      have hle := (hquiet rfl).1
      have hhandle : slot.handle ≠ some w := fun heq => by
        have := hstale heq
        omega
      have hhandle' : ({ slot with phase := .selectInbox true }).handle ≠ some w := by
        simpa [Slot.handle, hphase] using hhandle
      simp [Slot.allowance, hhandle', starts]
  | took hphase hworker =>
      simp [starts, startsOn, Command.noted, Slot.allowance, Slot.handle, hphase, hworker,
        Phase.allowance]
  | @execute req since w' h h' kept hphase hworker _ _ =>
      have hstarts : starts w [.setWorker w' h', .hand w' req.streamTx kept,
          .note (.executed i w' req.streamTx)] = if w' = w then 1 else 0 := by
        simp [starts, Command.noted, startsOn, List.filterMap_cons, List.countP_cons]
      rw [hstarts]
      simp [Slot.allowance, Slot.handle, hphase, hworker, Phase.allowance]
  | _ => exact quiet rfl rfl

end Supervisors

theorem generation_le {a : Action R} (move : Move serde cfg s a t) :
    s.generation ≤ t.generation := by
  cases move with
  | reloaded => exact Nat.le_succ _
  | supervised => simp
  | _ => exact Nat.le_refl _

/-- The worker of slot `i`, if there is one, is recyclable. -/
def recyclableSlot (i : Nat) (s : State R) : Bool := (s.post i).worker.all R.isRecyclable

/-- The invariant of a run in which slot `i` has recyclable workers. -/
structure Watched (i : Nat) (s : State R) : Prop where
  housed : Housed s
  current : (s.slots i).UpToDate s.generation
  flag : (s.slots i).phase.recyclable = true

theorem Watched.init (R : Runtime) (cfg : WorkersConfig) (i : Nat) :
    Watched i (init R cfg) where
  housed := Housed.init R cfg
  current := ⟨Nat.le_refl _, Nat.le_refl _, fun _ => Nat.le_refl _⟩
  flag := rfl

theorem recyclable_of_slot (h : recyclableSlot i s = true) {worker : R.Worker}
    (hworker : (s.slots i).handle.bind s.view.workers = some worker) :
    R.isRecyclable worker = true := by
  have hpost : (s.post i).worker = some worker := hworker
  simpa [recyclableSlot, hpost] using h

theorem Watched.step (h : Watched i s) (hrecyclable : recyclableSlot i s = true)
    {a : Action R} (move : Move serde cfg s a t) : Watched i t := by
  have hpost := step_post h.housed move i
  have hboth : (t.post i).slot.UpToDate s.generation ∧
      (t.post i).slot.phase.recyclable = true := by
    generalize t.post i = p at hpost ⊢
    cases hpost with
    | same => exact ⟨h.current, h.flag⟩
    | delivered req =>
        exact ⟨⟨h.current.seen_le, h.current.boot_le, h.current.seen_le_boot⟩, h.flag⟩
    | acted => exact ⟨h.current, h.flag⟩
    | supervised _ _ _ move =>
        exact ⟨move.upToDate h.current,
          move.recyclable (fun _ => recyclable_of_slot hrecyclable) h.flag⟩
  exact ⟨h.housed.step move, hboth.1.mono (generation_le move), hboth.2⟩

/-- The invariant of a run after handle `w` of slot `i`, booted at `b`, was left
behind with `n` starts. -/
structure LeftBehind (i w b n : Nat) (s : State R) : Prop where
  drawn : w < s.handles
  booted : (s.slots i).handle = some w → (s.slots i).bootGeneration = b
  exceeded : b < s.generation
  bound : (s.log i).countP (startsOn w) + (s.slots i).allowance w ≤ n + 1

theorem LeftBehind.step {b n : Nat} (h : LeftBehind i w b n s) (hwatched : Watched i s)
    {a : Action R} (move : Move serde cfg s a t) : LeftBehind i w b n t := by
  have hpost := step_post hwatched.housed move i
  have hboth : ((t.post i).slot.handle = some w → (t.post i).slot.bootGeneration = b) ∧
      (t.post i).log.countP (startsOn w) + (t.post i).slot.allowance w ≤ n + 1 := by
    generalize t.post i = p at hpost ⊢
    cases hpost with
    | same => exact ⟨h.booted, h.bound⟩
    | delivered req => exact ⟨h.booted, h.bound⟩
    | acted => exact ⟨h.booted, h.bound⟩
    | @supervised _ r _ _ htidy move =>
        have hfresh : w ≠ s.view.handles := Nat.ne_of_lt h.drawn
        have hstale (hhandle : (s.slots i).handle = some w) :
            (s.slots i).bootGeneration < s.view.generation := by
          rw [h.booted hhandle]
          exact h.exceeded
        constructor
        · intro hhandle
          obtain ⟨hold, hsame⟩ := move.keeps_handle htidy hfresh hhandle
          exact hsame.trans (h.booted hold)
        · have hstarts : starts w r.2 + r.1.allowance w ≤ (s.slots i).allowance w :=
            move.starts_le hwatched.current hwatched.flag hstale
          calc (s.log i ++ r.2.filterMap Command.noted).countP (startsOn w) + r.1.allowance w
              = (s.log i).countP (startsOn w) + (starts w r.2 + r.1.allowance w) := by
                rw [List.countP_append, starts, Nat.add_assoc]
            _ ≤ (s.log i).countP (startsOn w) + (s.slots i).allowance w :=
                Nat.add_le_add_left hstarts _
            _ ≤ n + 1 := h.bound
  exact ⟨Nat.lt_of_lt_of_le h.drawn (handles_le move), hboth.1,
    Nat.lt_of_lt_of_le h.exceeded (generation_le move), hboth.2⟩

end FolkCore.Pool
