import FolkCore.Pool.Moves

/-!
# The life of one slot

Handles are numbered by their spawn, and a supervisor owns at most one. A slot seen
alone is its local variables, the worker behind its handle and the events it noted.
`Post.Move` lists what can happen to it; `step_post` says that every step of the
pool is such a move for every slot: no other supervisor reaches its worker.
-/

namespace FolkCore.Pool

open Function

variable {R : Runtime} {serde : SerdeJson} {cfg : WorkersConfig} {s t : State R}

/-- The slot and the handle that an event is about. -/
def Event.handle? : Event → Option (Nat × Nat)
  | .spawned i w => some (i, w)
  | .took i w _ => some (i, w)
  | .executed i w _ => some (i, w)
  | .finished i w _ _ => some (i, w)
  | .terminated i w _ => some (i, w)
  | _ => none

/-- The event is a note of the supervisor of slot `i`. -/
def Event.ofSlot (i : Nat) (e : Event) : Bool := decide (e.handle?.map Prod.fst = some i)

/-- The notes of one supervisor. -/
def State.log (s : State R) (i : Nat) : List Event := s.history.filter (Event.ofSlot i)

namespace Slot

/-- The handle that a supervisor owns: installed, or being booted or terminated. -/
def handle (slot : Slot) : Option Nat :=
  match slot.phase with
  | .readying w _ => some w
  | .terminating w _ => some w
  | _ => slot.worker

/-- The local `worker` is present exactly between a boot and a termination. -/
def Tidy (slot : Slot) : Prop :=
  match slot.phase with
  | .loopTop => True
  | .spawning | .readying _ _ | .terminating _ _ | .sleeping _ | .exited | .panicked =>
      slot.worker = none
  | .select _ | .selectInbox _ | .dispatching _ _ | .executing _ _ | .settled _ _ =>
      slot.worker.isSome = true

end Slot

namespace Command

/-- The handle whose worker the command replaces. -/
def target : Command R → Option Nat
  | .setWorker w _ => some w
  | _ => none

def isSpawn : Command R → Bool
  | .spawn _ => true
  | _ => false

/-- The worker that the command leaves behind its handle. -/
def worker : Command R → Option R.Worker
  | .setWorker _ h => some h
  | .spawn h => some h
  | _ => none

end Command

section Supervisors

variable {i : Nat} {v : View R} {slot slot' : Slot} {a : SupervisorAction R}
  {commands : List (Command R)}

theorem Slot.Move.tidy (move : Slot.Move cfg i v slot a slot' commands) (h : slot.Tidy) :
    slot'.Tidy := by
  unfold Slot.Tidy at h
  cases move with
  | boot hphase hworker => exact hworker
  | listen hphase hworker hw => simp [Slot.Tidy, hworker]
  | spawned hphase | spawnFailed hphase =>
      rw [hphase] at h
      exact h
  | caughtUp hphase | wake hphase | kept hphase | replaced hphase => trivial
  | noReload hphase hworker | took hphase hworker | inboxEmpty hphase hworker
  | execute hphase hworker | settled hphase hworker => simp [Slot.Tidy, hworker]
  | bootAbandoned hphase =>
      rw [hphase] at h
      exact h
  | _ => rfl

/-- A supervisor writes to the worker of its own handle only. -/
theorem Slot.Move.target (move : Slot.Move cfg i v slot a slot' commands) {w : Nat}
    (hw : w ∈ commands.filterMap Command.target) : slot.handle = some w := by
  cases move with
  | bootFailed hphase | bootPanicked hphase | bootAbandoned hphase | replaced hphase
  | exited hphase | terminatePanicked hphase =>
      simp only [List.filterMap_cons, Command.target, List.filterMap_nil,
        List.mem_singleton] at hw
      simp [Slot.handle, hphase, hw]
  | reloaded hphase hworker | reloadClosed hphase hworker | inboxClosed hphase hworker
  | execute hphase hworker | settled hphase hworker | executePanicked hphase hworker
  | recycled hphase hworker =>
      simp only [List.filterMap_cons, Command.target, List.filterMap_nil,
        List.mem_singleton] at hw
      simp [Slot.handle, hphase, hworker, hw]
  | _ => simp [Command.target] at hw

/-- Its notes carry its number and its own handle, or the one just spawned. -/
theorem Slot.Move.note_handle (move : Slot.Move cfg i v slot a slot' commands) {e : Event}
    (he : e ∈ commands.filterMap Command.noted) :
    ∃ w, e.handle? = some (i, w) ∧
      (slot.handle = some w ∨ w = v.handles ∧ commands.any Command.isSpawn = true) := by
  cases move with
  | spawned hphase =>
      simp only [List.filterMap_cons, Command.noted, List.filterMap_nil,
        List.mem_singleton] at he
      subst he
      exact ⟨v.handles, rfl, .inr ⟨rfl, rfl⟩⟩
  | bootFailed hphase =>
      simp only [List.filterMap_cons, Command.noted, List.filterMap_nil,
        List.mem_singleton] at he
      subst he
      exact ⟨_, rfl, .inl (by simp [Slot.handle, hphase])⟩
  | reloaded hphase hworker | reloadClosed hphase hworker | inboxClosed hphase hworker
  | took hphase hworker | execute hphase hworker | settled hphase hworker
  | recycled hphase hworker =>
      simp only [List.filterMap_cons, Command.noted, List.filterMap_nil,
        List.mem_singleton] at he
      subst he
      exact ⟨_, rfl, .inl (by simp [Slot.handle, hphase, hworker])⟩
  | _ => simp [Command.noted] at he

/-- Only a spawn uses the fresh handle. -/
theorem Slot.Move.spawn_handle (move : Slot.Move cfg i v slot a slot' commands)
    (h : slot.Tidy) :
    commands.countP Command.isSpawn = 0 ∧ (slot'.handle = none ∨ slot'.handle = slot.handle) ∨
      commands.countP Command.isSpawn = 1 ∧ slot'.handle = some v.handles := by
  unfold Slot.Tidy at h
  cases move with
  | boot hphase hworker => exact .inl ⟨rfl, .inl hworker⟩
  | listen hphase | wake hphase | caughtUp hphase | noReload hphase | took hphase
  | inboxEmpty hphase | execute hphase | settled hphase | kept hphase | spawnFailed hphase =>
      exact .inl ⟨rfl, .inr (by simp [Slot.handle, hphase])⟩
  | spawned hphase => exact .inr ⟨rfl, rfl⟩
  | booted hphase | bootFailed hphase => exact .inl ⟨rfl, .inr (by simp [Slot.handle, hphase])⟩
  | reloaded hphase hworker | reloadClosed hphase hworker | inboxClosed hphase hworker
  | recycled hphase hworker =>
      exact .inl ⟨rfl, .inr (by simp [Slot.handle, hphase, hworker])⟩
  | bootAbandoned hphase | replaced hphase =>
      rw [hphase] at h
      exact .inl ⟨rfl, .inl h⟩
  | _ => exact .inl ⟨rfl, .inl rfl⟩

end Supervisors

namespace State

theorem foldl_handles (commands : List (Command R)) (s : State R) :
    (commands.foldl perform s).handles = s.handles + commands.countP Command.isSpawn := by
  induction commands generalizing s with
  | nil => rfl
  | cons c rest ih =>
      rw [List.foldl_cons, ih]
      cases c with
      | spawn h =>
          rw [List.countP_cons_of_pos (by rfl)]
          simp only [perform]
          omega
      | _ => simp [perform, Command.isSpawn]

/-- The workers of other handles stay as they are. -/
theorem foldl_workers (commands : List (Command R)) (s : State R) {w : Nat}
    (hw : w < s.handles) (h : w ∉ commands.filterMap Command.target) :
    (commands.foldl perform s).workers w = s.workers w := by
  induction commands generalizing s with
  | nil => rfl
  | cons c rest ih =>
      rw [List.foldl_cons]
      cases c with
      | setWorker w' worker =>
          simp only [List.filterMap_cons, Command.target, List.mem_cons, not_or] at h
          calc (rest.foldl perform (s.perform (.setWorker w' worker))).workers w
              = (s.perform (.setWorker w' worker)).workers w := ih _ hw h.2
            _ = s.workers w := update_of_ne h.1 _ _
      | spawn worker =>
          calc (rest.foldl perform (s.perform (.spawn worker))).workers w
              = (s.perform (.spawn worker)).workers w := ih _ (Nat.lt_succ_of_lt hw) h
            _ = s.workers w := update_of_ne (Nat.ne_of_lt hw) _ _
      | hand w' tx kept => exact ih _ hw h
      | discard reqs => exact ih _ hw h
      | release => exact ih _ hw h
      | note e => exact ih _ hw h

theorem supervise_handles (s : State R) (i : Nat) (r : Slot × List (Command R)) :
    (s.supervise i r).handles = s.handles + r.2.countP Command.isSpawn :=
  foldl_handles r.2 { s with slots := update s.slots i r.1 }

theorem supervise_workers (s : State R) (i : Nat) (r : Slot × List (Command R)) {w : Nat}
    (hw : w < s.handles) (h : w ∉ r.2.filterMap Command.target) :
    (s.supervise i r).workers w = s.workers w :=
  foldl_workers r.2 { s with slots := update s.slots i r.1 } hw h

end State

/-- The invariant: handles are drawn in order and owned by one slot. -/
structure Housed (s : State R) : Prop where
  tidy : ∀ i, (s.slots i).Tidy
  bound : ∀ i w, (s.slots i).handle = some w → w < s.handles
  distinct : ∀ i j w, (s.slots i).handle = some w → (s.slots j).handle = some w → i = j
  noted : ∀ e ∈ s.history, ∀ i w, e.handle? = some (i, w) → w < s.handles

theorem Housed.init (R : Runtime) (cfg : WorkersConfig) : Housed (init R cfg) where
  tidy i := trivial
  bound i w h := by cases h
  distinct i j w h := by cases h
  noted e h := by cases h

theorem Housed.supervised (h : Housed s) {i : Nat} {a : SupervisorAction R}
    {r : Slot × List (Command R)} (move : Slot.Move cfg i s.view (s.slots i) a r.1 r.2) :
    Housed (s.supervise i r) := by
  have htidy := h.tidy i
  have hhandles := s.supervise_handles i r
  have hle : s.handles ≤ (s.supervise i r).handles := by omega
  have hown {w : Nat} (hw : r.1.handle = some w) : w < (s.supervise i r).handles ∧
      ∀ j, (s.slots j).handle = some w → j = i := by
    rcases move.spawn_handle htidy with ⟨_, hnone | hsame⟩ | ⟨hone, hfresh⟩
    · rw [hnone] at hw
      cases hw
    · rw [hsame] at hw
      exact ⟨Nat.lt_of_lt_of_le (h.bound i w hw) hle, fun j hj => h.distinct j i w hj hw⟩
    · rw [hfresh] at hw
      cases hw
      refine ⟨?_, fun j hj => absurd (h.bound j _ hj) (Nat.lt_irrefl _)⟩
      rw [hhandles, hone]
      exact Nat.lt_succ_self _
  constructor
  · intro j
    rw [s.supervise_slots]
    by_cases hj : j = i
    · subst hj
      rw [update_self]
      exact move.tidy htidy
    · rw [update_of_ne hj]
      exact h.tidy j
  · intro j w hw
    rw [s.supervise_slots] at hw
    by_cases hj : j = i
    · subst hj
      rw [update_self] at hw
      exact (hown hw).1
    · rw [update_of_ne hj] at hw
      exact Nat.lt_of_lt_of_le (h.bound j w hw) hle
  · intro j k w hj hk
    rw [s.supervise_slots] at hj hk
    by_cases hji : j = i
    · subst hji
      rw [update_self] at hj
      by_cases hki : k = j
      · exact hki.symm
      · rw [update_of_ne hki] at hk
        exact ((hown hj).2 k hk).symm
    · rw [update_of_ne hji] at hj
      by_cases hki : k = i
      · subst hki
        rw [update_self] at hk
        exact (hown hk).2 j hj
      · rw [update_of_ne hki] at hk
        exact h.distinct j k w hj hk
  · intro e he j w hew
    rw [s.supervise_history, List.mem_append] at he
    rcases he with hold | hnew
    · exact Nat.lt_of_lt_of_le (h.noted e hold j w hew) hle
    · obtain ⟨w', hew', howner | ⟨rfl, hspawn⟩⟩ := move.note_handle hnew
      · rw [hew'] at hew
        cases hew
        exact Nat.lt_of_lt_of_le (h.bound i w howner) hle
      · rw [hew'] at hew
        cases hew
        have hpos : 0 < r.2.countP Command.isSpawn :=
          List.countP_pos_iff.mpr (List.any_eq_true.mp hspawn)
        rw [hhandles]
        exact Nat.lt_add_of_pos_right hpos

/-- A step that spawns nothing and leaves phases and installed handles alone. -/
theorem Housed.aside (h : Housed s) (hhandles : t.handles = s.handles)
    (hslots : ∀ i, (t.slots i).phase = (s.slots i).phase ∧
      (t.slots i).worker = (s.slots i).worker) (events : List Event)
    (hhistory : t.history = s.history ++ events)
    (hevents : ∀ e ∈ events, e.handle? = none) : Housed t := by
  have hhandle (i : Nat) : (t.slots i).handle = (s.slots i).handle := by
    simp [Slot.handle, (hslots i).1, (hslots i).2]
  constructor
  · intro i
    simpa [Slot.Tidy, (hslots i).1, (hslots i).2] using h.tidy i
  · intro i w hw
    rw [hhandles]
    exact h.bound i w (hhandle i ▸ hw)
  · intro i j w hi hj
    exact h.distinct i j w (hhandle i ▸ hi) (hhandle j ▸ hj)
  · intro e he i w hew
    rw [hhistory, List.mem_append] at he
    rw [hhandles]
    rcases he with hold | hnew
    · exact h.noted e hold i w hew
    · rw [hevents e hnew] at hew
      cases hew

theorem Housed.step (h : Housed s) {a : Action R} (move : Move serde cfg s a t) :
    Housed t := by
  cases move with
  | refused _ | poolGone _ _ | judged _ _ _ | exhausted _ _ _ | pushed _ _ _ _ _ _ =>
      exact h.aside rfl (fun _ => ⟨rfl, rfl⟩) _ rfl (by simp [Event.handle?])
  | @delivered req attempt _ _ _ _ _ =>
      refine h.aside rfl (fun i => ?_) _ rfl (by simp [Event.handle?])
      by_cases hi : i = (s.next + attempt) % cfg.count
      · simp [hi]
      · simp [hi]
  | supervised _ _ move => exact h.supervised move
  | _ => exact h.aside rfl (fun _ => ⟨rfl, rfl⟩) [] (by simp) (by simp)

/-- One slot: its local variables, the worker behind its handle, its notes. -/
structure Post (R : Runtime) where
  slot : Slot
  worker : Option R.Worker
  log : List Event

def State.post (s : State R) (i : Nat) : Post R :=
  ⟨s.slots i, (s.slots i).handle.bind s.workers, s.log i⟩

/-- The worker behind the handle of a slot after its supervisor's commands. -/
def workerAfter (r : Slot × List (Command R)) (old : Option R.Worker) : Option R.Worker :=
  r.1.handle.bind fun _ => (r.2.findSome? Command.worker).or old

inductive Post.Move (cfg : WorkersConfig) (i : Nat) (v : View R) (a : Action R) (p : Post R) :
    Post R → Prop
  | same : Move cfg i v a p p
  | delivered (req : DispatchRequest) :
      Move cfg i v a p
        ⟨{ p.slot with inbox := p.slot.inbox ++ [req] }, p.worker, p.log⟩
  | acted {act : R.Act} {h h' : R.Worker} {op : Option StreamOp} (hw : p.worker = some h)
      (hact : R.act h act = some (h', op)) : Move cfg i v a p ⟨p.slot, some h', p.log⟩
  | supervised {b : SupervisorAction R} {r : Slot × List (Command R)}
      (ha : a = .supervise i b) (hworker : p.worker = p.slot.handle.bind v.workers)
      (htidy : p.slot.Tidy) (move : Slot.Move cfg i v p.slot b r.1 r.2) :
      Move cfg i v a p
        ⟨r.1, workerAfter r p.worker, p.log ++ r.2.filterMap Command.noted⟩

theorem Post.Move.of_post {i : Nat} {v : View R} {a : Action R} {p p' : Post R}
    (hmove : Post.Move cfg i v a p p') (heq : t.post i = p') :
    Post.Move cfg i v a p (t.post i) :=
  heq ▸ hmove

theorem Post.worker_eq {p : Post R} {v : View R} {w : Nat} {worker : R.Worker}
    (hworker : p.worker = p.slot.handle.bind v.workers) (hhandle : p.slot.handle = some w)
    (hw : v.workers w = some worker) : p.worker = some worker := by
  rw [hworker, hhandle]
  exact hw

theorem log_append {i : Nat} (events : List Event) (ht : t.history = s.history ++ events)
    (h : ∀ e ∈ events, e.ofSlot i = false) : t.log i = s.log i := by
  have hnone : events.filter (Event.ofSlot i) = [] := by
    simpa [List.filter_eq_nil_iff] using h
  simp [State.log, ht, hnone]

/-- The supervisor's own step. -/
theorem post_supervised (h : Housed s) {i : Nat} {b : SupervisorAction R}
    {r : Slot × List (Command R)} (move : Slot.Move cfg i s.view (s.slots i) b r.1 r.2) :
    (s.supervise i r).post i = ⟨r.1, workerAfter r (s.post i).worker,
      s.log i ++ r.2.filterMap Command.noted⟩ := by
  have hlog : (r.2.filterMap Command.noted).filter (Event.ofSlot i) =
      r.2.filterMap Command.noted := by
    rw [List.filter_eq_self]
    intro e he
    obtain ⟨w, hw, _⟩ := move.note_handle he
    simp [Event.ofSlot, hw]
  have hworker : r.1.handle.bind (s.supervise i r).workers =
      workerAfter r (s.post i).worker := by
    obtain ⟨slot', commands⟩ := r
    have htidy := h.tidy i
    unfold Slot.Tidy at htidy
    cases move with
    | boot hphase hworker | listen hphase hworker | reloaded hphase hworker
    | caughtUp hphase hworker | noReload hphase hworker | reloadClosed hphase hworker
    | took hphase hworker | inboxEmpty hphase hworker | inboxClosed hphase hworker
    | execute hphase hworker | settled hphase hworker | executePanicked hphase hworker
    | recycled hphase hworker | kept hphase hworker | unreachable hphase hworker =>
        simp [workerAfter, State.post, State.supervise, State.perform, Slot.handle, hphase,
          hworker, Command.worker, List.findSome?_cons]
    | spawned hphase | spawnFailed hphase | spawnPanicked hphase | booted hphase
    | bootFailed hphase | bootPanicked hphase | wake hphase | bootAbandoned hphase
    | replaced hphase | exited hphase | terminatePanicked hphase =>
        rw [hphase] at htidy
        simp [workerAfter, State.post, State.supervise, State.perform, Slot.handle, hphase,
          htidy, Command.worker, State.view, List.findSome?_cons]
  simp [State.post, State.log, hlog, hworker]

theorem Post.Move.of_same {i : Nat} {v : View R} {a : Action R} (hslot : t.slots i = s.slots i)
    (hworker : ∀ w, (s.slots i).handle = some w → t.workers w = s.workers w)
    (hlog : t.log i = s.log i) : Post.Move cfg i v a (s.post i) (t.post i) := by
  refine .of_post .same ?_
  have hbind : (s.slots i).handle.bind t.workers = (s.slots i).handle.bind s.workers := by
    cases hw : (s.slots i).handle with
    | none => rfl
    | some w => exact hworker w hw
  simp [State.post, hslot, hbind, hlog]

/-- A worker's step is a step of the slot that owns its handle. -/
theorem post_acted {i w : Nat} {act : R.Act} {a : Action R} {worker worker' : R.Worker}
    {op : Option StreamOp} (hw : s.workers w = some worker)
    (hact : R.act worker act = some (worker', op))
    (hworkers : t.workers = update s.workers w (some worker')) (hslots : t.slots = s.slots)
    (hlog : t.log i = s.log i) : Post.Move cfg i s.view a (s.post i) (t.post i) := by
  by_cases howner : (s.slots i).handle = some w
  · have hfound : (s.post i).worker = some worker := by simp [State.post, howner, hw]
    refine .of_post (.acted hfound hact) ?_
    simp [State.post, hslots, howner, hworkers, hlog]
  · apply Post.Move.of_same (congrFun hslots i)
    · intro w' hw'
      have hne : w' ≠ w := fun heq => howner (heq ▸ hw')
      rw [hworkers, update_of_ne hne]
    · exact hlog

/-- Every step of the pool is a move of every slot. -/
theorem step_post (h : Housed s) {a : Action R} (move : Move serde cfg s a t) (i : Nat) :
    Post.Move cfg i s.view a (s.post i) (t.post i) := by
  cases move with
  | refused _ | poolGone _ _ | judged _ _ _ | exhausted _ _ _ =>
      exact .of_same rfl (fun _ _ => rfl) (log_append _ rfl (by simp [Event.ofSlot, Event.handle?]))
  | @delivered req attempt _ _ _ _ _ =>
      have hlog : (deliver s ((s.next + attempt) % cfg.count) req).log i = s.log i :=
        log_append _ rfl (by simp [Event.ofSlot, Event.handle?])
      by_cases hi : i = (s.next + attempt) % cfg.count
      · refine .of_post (.delivered req) ?_
        simp [State.post, hi, Slot.handle, State.log, Event.ofSlot, Event.handle?]
      · exact .of_same (by simp [hi]) (fun _ _ => rfl) hlog
  | @supervised j b r hj hstep move =>
      by_cases hji : j = i
      · subst hji
        exact .of_post (.supervised rfl rfl (h.tidy j) move) (post_supervised h move)
      · have hij : i ≠ j := fun heq => hji heq.symm
        apply Post.Move.of_same
        · rw [s.supervise_slots, update_of_ne hij]
        · intro w hw
          apply s.supervise_workers j r (h.bound i w hw)
          intro htarget
          exact hij (h.distinct i j w hw (move.target htarget))
        · apply log_append _ (s.supervise_history j r)
          intro e he
          obtain ⟨w, hew, _⟩ := move.note_handle he
          simp [Event.ofSlot, hew, hji]
  | worked hw hact => exact post_acted hw hact rfl rfl rfl
  | pushed hw hact _ _ _ _ =>
      exact post_acted hw hact rfl rfl
        (log_append _ rfl (by simp [Event.ofSlot, Event.handle?]))
  | pushLost hw hact _ _ _ => exact post_acted hw hact rfl rfl rfl
  | closed hw hact _ _ => exact post_acted hw hact rfl rfl rfl
  | _ => exact .of_same rfl (fun _ _ => rfl) rfl

end FolkCore.Pool
