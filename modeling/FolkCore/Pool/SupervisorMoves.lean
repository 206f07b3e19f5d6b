import FolkCore.Pool.Supervisor

/-!
# Everything a supervisor can do

`Slot.Move` lists the transitions of `slot_supervisor` with their guards, the slot
they leave and their commands. `Slot.step_move` says that a step is one of them;
every invariant of the pool reads the supervisor through this list.
-/

namespace FolkCore.Pool

variable {R : Runtime} {cfg : WorkersConfig} {i : Nat} {v : View R} {slot : Slot}

namespace Slot

inductive Move (cfg : WorkersConfig) (i : Nat) (v : View R) (slot : Slot) :
    SupervisorAction R → Slot → List (Command R) → Prop
  | boot (hphase : slot.phase = .loopTop) (hworker : slot.worker = none) :
      Move cfg i v slot .enterLoop
        { slot with
          polled := true
          info := slot.current v.now
          bootGeneration := v.generation
          phase := .spawning } []
  | listen {w : Nat} {h : R.Worker} (hphase : slot.phase = .loopTop)
      (hworker : slot.worker = some w) (hw : v.workers w = some h) :
      Move cfg i v slot .enterLoop { slot with phase := .select (R.isRecyclable h) } []
  | spawned {h : R.Worker} (hphase : slot.phase = .spawning) (hspawns : R.spawns h = true) :
      Move cfg i v slot (.spawned h)
        { slot with phase := .readying v.handles (v.now + cfg.bootTimeout) }
        [.spawn (R.ready h), .note (.spawned i v.handles)]
  | spawnFailed (hphase : slot.phase = .spawning) :
      Move cfg i v slot .spawnFailed
        { slot with phase := .sleeping (v.now + retryDelay) } []
  | spawnPanicked (hphase : slot.phase = .spawning) :
      Move cfg i v slot .spawnPanicked
        { slot with worker := none, inbox := [], phase := .panicked } [.discard slot.inbox]
  | booted {w deadline : Nat} {h : R.Worker} (hphase : slot.phase = .readying w deadline)
      (hw : v.workers w = some h) (hready : R.pollReady h = .ready (.ok ())) :
      Move cfg i v slot .pollReady
        { slot with
          info := slot.info.markReady (R.id h)
          worker := some w
          phase := .select (R.isRecyclable h) } []
  | bootFailed {w deadline : Nat} {h : R.Worker} (hphase : slot.phase = .readying w deadline)
      (hw : v.workers w = some h)
      (hready : (∃ e, R.pollReady h = .ready (.error e)) ∨
        R.pollReady h = .pending ∧ deadline ≤ v.now) :
      Move cfg i v slot .pollReady
        { slot with worker := none, phase := .terminating w .boot }
        [.setWorker w (R.terminate h), .note (.terminated i w .boot)]
  | bootPanicked {w deadline : Nat} {h : R.Worker}
      (hphase : slot.phase = .readying w deadline) (hw : v.workers w = some h) :
      Move cfg i v slot .pollReady
        { slot with worker := none, inbox := [], phase := .panicked }
        [.setWorker w (R.dropHandle h), .discard slot.inbox]
  | wake {wakeAt : Nat} (hphase : slot.phase = .sleeping wakeAt) (htime : wakeAt ≤ v.now) :
      Move cfg i v slot .wake { slot with phase := .loopTop } []
  | reloaded {w : Nat} {h : R.Worker} (hphase : slot.phase = .select true)
      (hworker : slot.worker = some w) (hw : v.workers w = some h)
      (hseen : slot.seenGeneration < v.generation)
      (hboot : slot.bootGeneration < v.generation) :
      Move cfg i v slot .pollReload
        { slot with
          seenGeneration := v.generation
          worker := none
          phase := .terminating w .reload }
        [.setWorker w (R.terminate h), .note (.terminated i w .reload)]
  | caughtUp {w : Nat} {h : R.Worker} (hphase : slot.phase = .select true)
      (hworker : slot.worker = some w) (hw : v.workers w = some h)
      (hseen : slot.seenGeneration < v.generation)
      (hboot : v.generation ≤ slot.bootGeneration) :
      Move cfg i v slot .pollReload
        { slot with seenGeneration := v.generation, phase := .loopTop } []
  | noReload {recyclable : Bool} {w : Nat} {h : R.Worker}
      (hphase : slot.phase = .select recyclable) (hworker : slot.worker = some w)
      (hw : v.workers w = some h)
      (hquiet : recyclable = true → v.generation ≤ slot.seenGeneration ∧ v.reloadOpen = true) :
      Move cfg i v slot .pollReload { slot with phase := .selectInbox recyclable } []
  | reloadClosed {w : Nat} {h : R.Worker} (hphase : slot.phase = .select true)
      (hworker : slot.worker = some w) (hw : v.workers w = some h)
      (hseen : v.generation ≤ slot.seenGeneration) (hclosed : v.reloadOpen = false) :
      Move cfg i v slot .pollReload
        { slot with worker := none, phase := .terminating w .shutdown }
        [.setWorker w (R.terminate h), .note (.terminated i w .shutdown)]
  | took {recyclable : Bool} {w : Nat} {h : R.Worker} {req : DispatchRequest}
      {rest : List DispatchRequest} (hphase : slot.phase = .selectInbox recyclable)
      (hworker : slot.worker = some w) (hw : v.workers w = some h)
      (hinbox : slot.inbox = req :: rest) :
      Move cfg i v slot .pollInbox
        { slot with
          inbox := rest
          info := slot.info.markBusy
          phase := .dispatching req v.now } [.note (.took i w req.streamTx)]
  | unreachable {recyclable : Bool} (hphase : slot.phase = .selectInbox recyclable)
      (hworker : slot.worker = none) (hinbox : slot.inbox ≠ []) :
      Move cfg i v slot .pollInbox
        { slot with worker := none, inbox := [], phase := .panicked } [.discard slot.inbox]
  | inboxEmpty {recyclable : Bool} {w : Nat} {h : R.Worker}
      (hphase : slot.phase = .selectInbox recyclable) (hworker : slot.worker = some w)
      (hw : v.workers w = some h) (hinbox : slot.inbox = []) (hopen : v.inboxOpen = true) :
      Move cfg i v slot .pollInbox { slot with phase := .select recyclable } []
  | inboxClosed {recyclable : Bool} {w : Nat} {h : R.Worker}
      (hphase : slot.phase = .selectInbox recyclable) (hworker : slot.worker = some w)
      (hw : v.workers w = some h) (hinbox : slot.inbox = []) (hclosed : v.inboxOpen = false) :
      Move cfg i v slot .pollInbox
        { slot with worker := none, phase := .terminating w .shutdown }
        [.setWorker w (R.terminate h), .note (.terminated i w .shutdown)]
  | execute {req : DispatchRequest} {since w : Nat} {h h' : R.Worker} {kept : Bool}
      (hphase : slot.phase = .dispatching req since) (hworker : slot.worker = some w)
      (hw : v.workers w = some h) (hcall : R.executeStreaming h req = some (h', kept)) :
      Move cfg i v slot .execute
        { slot with phase := .executing req.streamTx (since + cfg.execTimeout) }
        [.setWorker w h', .hand w req.streamTx kept, .note (.executed i w req.streamTx)]
  | settled {tx : StreamTx} {deadline w : Nat} {h : R.Worker} {result : ExecResult}
      (hphase : slot.phase = .executing tx deadline) (hworker : slot.worker = some w)
      (hw : v.workers w = some h)
      (hresult : (∃ r, R.pollExecute h = .ready r ∧ result = .done r) ∨
        R.pollExecute h = .pending ∧ deadline ≤ v.now ∧ result = .elapsed) :
      Move cfg i v slot .pollExecute
        { slot with info := slot.info.markIdle, phase := .settled tx result }
        [.setWorker w (R.dropExecute h), .release, .note (.finished i w tx result)]
  | executePanicked {tx : StreamTx} {deadline w : Nat} {h : R.Worker}
      (hphase : slot.phase = .executing tx deadline) (hworker : slot.worker = some w)
      (hw : v.workers w = some h) :
      Move cfg i v slot .pollExecute
        { slot with worker := none, inbox := [], phase := .panicked }
        [.setWorker w (R.dropHandle (R.dropExecute h)), .release, .discard slot.inbox]
  | recycled {tx : StreamTx} {result : ExecResult} {w : Nat} {h : R.Worker}
      (hphase : slot.phase = .settled tx result) (hworker : slot.worker = some w)
      (hw : v.workers w = some h)
      (htest : (slot.reloadPending v.generation || slot.info.shouldRecycle cfg v.now) = true)
      (hrecyclable : R.isRecyclable h = true) :
      Move cfg i v slot .recycle
        { slot with
          worker := none
          phase := .terminating w
            (if slot.reloadPending v.generation then .reload else .lifecycle) }
        [.setWorker w (R.terminate h), .note (.terminated i w
          (if slot.reloadPending v.generation then .reload else .lifecycle))]
  | kept {tx : StreamTx} {result : ExecResult} {w : Nat} {h : R.Worker}
      (hphase : slot.phase = .settled tx result) (hworker : slot.worker = some w)
      (hw : v.workers w = some h)
      (htest : (slot.reloadPending v.generation || slot.info.shouldRecycle cfg v.now) = false ∨
        R.isRecyclable h = false) :
      Move cfg i v slot .recycle { slot with phase := .loopTop } []
  | bootAbandoned {w : Nat} {h : R.Worker} (hphase : slot.phase = .terminating w .boot)
      (hw : v.workers w = some h) :
      Move cfg i v slot .pollTerminate
        { slot with phase := .sleeping (v.now + retryDelay) } [.setWorker w (R.dropHandle h)]
  | replaced {w : Nat} {why : Reason} {h : R.Worker}
      (hphase : slot.phase = .terminating w why) (hw : v.workers w = some h)
      (hwhy : why = .reload ∨ why = .lifecycle) :
      Move cfg i v slot .pollTerminate
        { slot with info := .new v.now, phase := .loopTop } [.setWorker w (R.dropHandle h)]
  | exited {w : Nat} {h : R.Worker} (hphase : slot.phase = .terminating w .shutdown)
      (hw : v.workers w = some h) :
      Move cfg i v slot .pollTerminate
        { slot with worker := none, inbox := [], phase := .exited }
        [.setWorker w (R.dropHandle h), .discard slot.inbox]
  | terminatePanicked {w : Nat} {why : Reason} {h : R.Worker}
      (hphase : slot.phase = .terminating w why) (hw : v.workers w = some h) :
      Move cfg i v slot .pollTerminate
        { slot with worker := none, inbox := [], phase := .panicked }
        [.setWorker w (R.dropHandle h), .discard slot.inbox]

/-- A step on the installed worker finds it. -/
theorem withWorker_eq_some {α : Type} {f : Nat → R.Worker → Option α} {a : α}
    (h : slot.withWorker v f = some a) :
    ∃ w hw, slot.worker = some w ∧ v.workers w = some hw ∧ f w hw = some a := by
  obtain ⟨w, hworker, hrest⟩ := Option.bind_eq_some_iff.mp h
  obtain ⟨hw, hv, hf⟩ := Option.bind_eq_some_iff.mp hrest
  exact ⟨w, hw, hworker, hv, hf⟩

theorem move_of_enterLoop {r : Slot × List (Command R)} (hphase : slot.phase = .loopTop)
    (h : slot.enterLoop v = some r) : Move cfg i v slot .enterLoop r.1 r.2 := by
  unfold enterLoop at h
  split at h
  · next hworker =>
      cases h
      exact .boot hphase hworker
  · next w hworker =>
      obtain ⟨worker, hw, rfl⟩ := Option.map_eq_some_iff.mp h
      exact .listen hphase hworker hw

theorem move_of_pollReady {w deadline : Nat} {worker : R.Worker}
    {r : Slot × List (Command R)} (hphase : slot.phase = .readying w deadline)
    (hw : v.workers w = some worker) (h : slot.pollReady i v w deadline worker = some r) :
    Move cfg i v slot .pollReady r.1 r.2 := by
  unfold pollReady at h
  split at h
  · next hready =>
      cases h
      exact .booted hphase hw hready
  · next e hready =>
      cases h
      exact .bootFailed hphase hw (.inl ⟨e, hready⟩)
  · next hready =>
      split at h
      · next htime =>
          cases h
          exact .bootFailed hphase hw (.inr ⟨hready, htime⟩)
      · cases h
  · cases h
    exact .bootPanicked hphase hw

theorem move_of_pollReload {recyclable : Bool} {w : Nat} {worker : R.Worker}
    (hphase : slot.phase = .select recyclable) (hworker : slot.worker = some w)
    (hw : v.workers w = some worker) :
    Move cfg i v slot .pollReload (slot.pollReload i v recyclable w worker).1
      (slot.pollReload i v recyclable w worker).2 := by
  unfold pollReload
  split
  · next hrecyclable =>
      subst hrecyclable
      split
      · next hseen =>
          split
          · next hboot => exact .reloaded hphase hworker hw hseen hboot
          · next hboot => exact .caughtUp hphase hworker hw hseen (Nat.le_of_not_lt hboot)
      · next hseen =>
          have hle := Nat.le_of_not_lt hseen
          split
          · next hopen => exact .noReload hphase hworker hw fun _ => ⟨hle, hopen⟩
          · next hclosed =>
              exact .reloadClosed hphase hworker hw hle (Bool.eq_false_iff.mpr hclosed)
  · next hrecyclable =>
      exact .noReload hphase hworker hw fun htrue => absurd htrue hrecyclable

theorem move_of_pollInbox {recyclable : Bool} {w : Nat} {worker : R.Worker}
    (hphase : slot.phase = .selectInbox recyclable) (hworker : slot.worker = some w)
    (hw : v.workers w = some worker) :
    Move cfg i v slot .pollInbox (slot.pollInbox i v recyclable w worker).1
      (slot.pollInbox i v recyclable w worker).2 := by
  unfold pollInbox
  split
  · next req rest hinbox => exact .took hphase hworker hw hinbox
  · next hinbox =>
      split
      · next hopen => exact .inboxEmpty hphase hworker hw hinbox hopen
      · next hclosed =>
          exact .inboxClosed hphase hworker hw hinbox (Bool.eq_false_iff.mpr hclosed)

theorem move_of_pollExecute {tx : StreamTx} {deadline w : Nat} {worker : R.Worker}
    {r : Slot × List (Command R)} (hphase : slot.phase = .executing tx deadline)
    (hworker : slot.worker = some w) (hw : v.workers w = some worker)
    (h : slot.pollExecute i v tx deadline w worker = some r) :
    Move cfg i v slot .pollExecute r.1 r.2 := by
  unfold pollExecute at h
  split at h
  · next result hpoll =>
      cases h
      exact .settled hphase hworker hw (.inl ⟨result, hpoll, rfl⟩)
  · next hpoll =>
      split at h
      · next htime =>
          cases h
          exact .settled hphase hworker hw (.inr ⟨hpoll, htime, rfl⟩)
      · cases h
  · cases h
    exact .executePanicked hphase hworker hw

theorem move_of_recycle {tx : StreamTx} {result : ExecResult} {w : Nat} {worker : R.Worker}
    (hphase : slot.phase = .settled tx result) (hworker : slot.worker = some w)
    (hw : v.workers w = some worker) :
    Move cfg i v slot .recycle (slot.recycle cfg i v w worker).1
      (slot.recycle cfg i v w worker).2 := by
  unfold recycle
  split
  · next htest =>
      split
      · next hrecyclable => exact .recycled hphase hworker hw htest hrecyclable
      · next hrecyclable =>
          exact .kept hphase hworker hw (.inr (Bool.eq_false_iff.mpr hrecyclable))
  · next htest => exact .kept hphase hworker hw (.inl (Bool.eq_false_iff.mpr htest))

theorem move_of_pollTerminate {w : Nat} {why : Reason} {worker : R.Worker}
    {r : Slot × List (Command R)} (hphase : slot.phase = .terminating w why)
    (hw : v.workers w = some worker) (h : slot.pollTerminate v w why worker = some r) :
    Move cfg i v slot .pollTerminate r.1 r.2 := by
  unfold pollTerminate at h
  split at h
  · cases h
  · cases h
    exact .terminatePanicked hphase hw
  · cases why with
    | boot =>
        cases h
        exact .bootAbandoned hphase hw
    | reload =>
        cases h
        exact .replaced hphase hw (.inl rfl)
    | lifecycle =>
        cases h
        exact .replaced hphase hw (.inr rfl)
    | shutdown =>
        cases h
        exact .exited hphase hw

/-- Every step of a supervisor is one of the listed moves. -/
theorem step_move {a : SupervisorAction R} {r : Slot × List (Command R)}
    (h : slot.step cfg i v a = some r) : Move cfg i v slot a r.1 r.2 := by
  unfold step at h
  split at h
  · next hphase => exact move_of_enterLoop hphase h
  · next worker hphase =>
      unfold spawned at h
      split at h
      · next hspawns =>
          cases h
          exact .spawned hphase hspawns
      · cases h
  · next hphase =>
      cases h
      exact .spawnFailed hphase
  · next hphase =>
      cases h
      exact .spawnPanicked hphase
  · next w deadline hphase =>
      obtain ⟨worker, hw, hpoll⟩ := Option.bind_eq_some_iff.mp h
      exact move_of_pollReady hphase hw hpoll
  · next wakeAt hphase =>
      split at h
      · next htime =>
          cases h
          exact .wake hphase htime
      · cases h
  · next recyclable hphase =>
      obtain ⟨w, worker, hworker, hw, heq⟩ := withWorker_eq_some h
      cases heq
      exact move_of_pollReload hphase hworker hw
  · next recyclable hphase =>
      split at h
      · next hlost =>
          cases h
          exact .unreachable hphase hlost.1 hlost.2
      · obtain ⟨w, worker, hworker, hw, heq⟩ := withWorker_eq_some h
        cases heq
        exact move_of_pollInbox hphase hworker hw
  · next req since hphase =>
      obtain ⟨w, worker, hworker, hw, heq⟩ := withWorker_eq_some h
      obtain ⟨⟨h', kept⟩, hcall, rfl⟩ := Option.map_eq_some_iff.mp heq
      exact .execute hphase hworker hw hcall
  · next tx deadline hphase =>
      obtain ⟨w, worker, hworker, hw, heq⟩ := withWorker_eq_some h
      exact move_of_pollExecute hphase hworker hw heq
  · next tx result hphase =>
      obtain ⟨w, worker, hworker, hw, heq⟩ := withWorker_eq_some h
      cases heq
      exact move_of_recycle hphase hworker hw
  · next w why hphase =>
      obtain ⟨worker, hw, hpoll⟩ := Option.bind_eq_some_iff.mp h
      exact move_of_pollTerminate hphase hw hpoll
  · cases h

end Slot

end FolkCore.Pool
