import FolkCore.Pool.Posts
import FolkCore.Pool.Replies

/-!
# Shutdown

When the pool is dropped, `pool_main` leaves its receive loop and waits for the
supervisors; it keeps their inbox senders while it waits. A supervisor that waits in
its `select!` learns of the shutdown through the reload channel, which it polls only
for a recyclable worker. With any other worker the two tasks wait for each other.
-/

namespace FolkCore.Pool

open Function Lib

variable {R : Runtime} {serde : SerdeJson} {cfg : WorkersConfig} {s t : State R} {i : Nat}

/-- The supervisor stands at one of the polls of its `select!`. -/
def Slot.Selecting (slot : Slot) (recyclable : Bool) : Prop :=
  slot.phase = .select recyclable ∨ slot.phase = .selectInbox recyclable

/-- The two polls of the `select!` of supervisor `i`. -/
def Polls (i : Nat) (a : Action R) : Prop :=
  a = .supervise i .pollReload ∨ a = .supervise i .pollInbox

/-- The polls of its `select!` lead supervisor `i` to a shutdown exit. -/
def Exits (serde : SerdeJson) (cfg : WorkersConfig) (i : Nat) (s : State R) : Prop :=
  ∃ t, ReachableVia (step serde cfg) (fun _ a => Polls i a) s t ∧
    ∃ w, (t.slots i).phase = .terminating w .shutdown

/-- `pool_main` awaits supervisor `i`, which sits in its `select!` with an empty inbox. -/
structure Entangled (i : Nat) (recyclable : Bool) (s : State R) : Prop where
  main : s.main = .awaiting
  selecting : (s.slots i).Selecting recyclable
  inbox : (s.slots i).inbox = []

/-- The invariant: a handle has a worker, and `pool_main` leaves its receive loop only
after the pool was dropped. -/
structure Attended (s : State R) : Prop where
  housed : Housed s
  worker : ∀ i, (s.post i).slot.handle.isSome = true → (s.post i).worker.isSome = true
  closed : s.main = .awaiting → s.poolOpen = false

theorem Attended.init (R : Runtime) (cfg : WorkersConfig) : Attended (init R cfg) where
  housed := Housed.init R cfg
  worker i h := by cases h
  closed h := by cases h

/-- The worker behind a handle is not lost while a slot has the handle. -/
theorem Post.Move.worker {v : View R} {a : Action R} {p p' : Post R}
    (move : Post.Move cfg i v a p p')
    (h : p.slot.handle.isSome = true → p.worker.isSome = true)
    (hhandle : p'.slot.handle.isSome = true) : p'.worker.isSome = true := by
  cases move with
  | same => exact h hhandle
  | delivered req => exact h hhandle
  | acted => rfl
  | @supervised _ r _ _ htidy move =>
      obtain ⟨w, hw⟩ := Option.isSome_iff_exists.mp hhandle
      have hafter : workerAfter r p.worker = (r.2.findSome? Command.worker).or p.worker := by
        rw [workerAfter, hw]
        rfl
      rw [hafter, Option.isSome_or, Bool.or_eq_true]
      rcases move.spawn_handle htidy with ⟨_, hnone | hsame⟩ | ⟨hspawn, _⟩
      · exact absurd (hnone.symm.trans hw) (Option.some_ne_none w).symm
      · exact .inr (h (hsame ▸ hhandle))
      · left
        have hpos : 0 < r.2.countP Command.isSpawn := by omega
        obtain ⟨c, hc, hspawns⟩ := List.countP_pos_iff.mp hpos
        apply List.findSome?_isSome_iff.mpr
        refine ⟨c, hc, ?_⟩
        cases c <;> simp_all [Command.isSpawn, Command.worker]

theorem Move.awaiting_closed {a : Action R} (move : Move serde cfg s a t)
    (h : s.main = .awaiting → s.poolOpen = false) (hmain : t.main = .awaiting) :
    t.poolOpen = false := by
  cases move with
  | opened hopen | reloaded hopen => exact absurd (h hmain) (by simp [hopen])
  | poolDropped => rfl
  | mainLeft _ _ hclosed => exact hclosed
  | supervised => simpa using h (by simpa using hmain)
  | mainTook | skipped | delivered | buried | abandoned | joined => cases hmain
  | _ => exact h hmain

theorem Attended.step (h : Attended s) {a : Action R} (move : Move serde cfg s a t) :
    Attended t where
  housed := h.housed.step move
  worker i := (step_post h.housed move i).worker (h.worker i)
  closed := move.awaiting_closed h.closed

theorem attended_of_reachable (h : Reachable (step serde cfg) (Pool.init R cfg) s) :
    Attended s :=
  h.invariant Attended (Attended.init R cfg) fun _ _ _ hs _ hstep => hs.step (step_move hstep)

/-- A selecting supervisor finds its worker. -/
theorem Attended.installed (h : Attended s) {recyclable : Bool}
    (hselecting : (s.slots i).Selecting recyclable) :
    ∃ w worker, (s.slots i).worker = some w ∧ s.workers w = some worker := by
  have htidy := h.housed.tidy i
  have hsome : (s.slots i).worker.isSome = true := by
    unfold Slot.Tidy at htidy
    rcases hselecting with hphase | hphase
    · rwa [hphase] at htidy
    · rwa [hphase] at htidy
  obtain ⟨w, hw⟩ := Option.isSome_iff_exists.mp hsome
  have hhandle : (s.slots i).handle = some w := by
    rcases hselecting with hphase | hphase
    · simp [Slot.handle, hphase, hw]
    · simp [Slot.handle, hphase, hw]
  have hworker := h.worker i (by simp [State.post, hhandle])
  obtain ⟨worker, hfound⟩ := Option.isSome_iff_exists.mp hworker
  exact ⟨w, worker, hw, by simpa [State.post, hhandle] using hfound⟩

section Recyclable

variable (serde) in
/-- The poll of the inbox finds nothing and goes back to the reload branch. -/
theorem Entangled.rewind (h : Entangled i true s) (hattended : Attended s) (hi : i < cfg.count) :
    ∃ t, ReachableVia (Pool.step serde cfg) (fun _ a => Polls i a) s t ∧
      t.slots i = { s.slots i with phase := .select true } ∧ t.poolOpen = s.poolOpen ∧
      t.generation = s.generation ∧ t.workers = s.workers := by
  rcases h.selecting with hphase | hphase
  · refine ⟨s, .start, ?_, rfl, rfl, rfl⟩
    rw [← hphase]
  · obtain ⟨w, worker, hw, hworker⟩ := hattended.installed h.selecting
    have hstep : Pool.step serde cfg s (.supervise i .pollInbox) =
        some (s.supervise i ({ s.slots i with phase := .select true }, [])) := by
      simp [Pool.step, hi, Slot.step, hphase, Slot.withWorker, hw, State.view, hworker,
        Slot.pollInbox, h.inbox, h.main]
    refine ⟨_, .next .start (.inr rfl) hstep, ?_, rfl, rfl, rfl⟩
    simp

/-- The reload branch of a closed channel leads out of the `select!`, to the shutdown
exit unless an unseen generation comes first. -/
theorem Slot.Move.leaves_select {v : View R} {slot slot' : Slot} {a : SupervisorAction R}
    {commands : List (Command R)} (move : Slot.Move cfg i v slot a slot' commands)
    (hselect : slot.phase = .select true) (hclosed : v.reloadOpen = false) :
    (∀ recyclable, ¬slot'.Selecting recyclable) ∧
      (v.generation ≤ slot.seenGeneration → ∃ w, slot'.phase = .terminating w .shutdown) := by
  cases move with
  | reloaded _ _ _ hseen | caughtUp _ _ _ hseen =>
      exact ⟨by simp [Slot.Selecting], fun hle => absurd hseen (Nat.not_lt.mpr hle)⟩
  | @noReload recyclable _ _ hphase _ _ hquiet =>
      obtain rfl : recyclable = true := by simpa [hphase] using hselect
      exact absurd (hclosed.symm.trans (hquiet rfl).2) nofun
  | @reloadClosed w _ _ _ _ _ _ => exact ⟨by simp [Slot.Selecting], fun _ => ⟨w, rfl⟩⟩
  | boot hphase | listen hphase | spawned hphase | spawnFailed hphase | spawnPanicked hphase
  | booted hphase | bootFailed hphase | bootPanicked hphase | wake hphase | took hphase
  | unreachable hphase | inboxEmpty hphase | inboxClosed hphase | execute hphase | settled hphase
  | executePanicked hphase | recycled hphase | kept hphase | bootAbandoned hphase
  | replaced hphase | exited hphase | terminatePanicked hphase =>
      exact absurd (hphase.symm.trans hselect) nofun

variable (serde) in
theorem exists_leaves_select (hphase : (s.slots i).phase = .select true) (hi : i < cfg.count)
    (hclosed : s.poolOpen = false) {w : Nat} {worker : R.Worker}
    (hw : (s.slots i).worker = some w) (hworker : s.workers w = some worker) :
    ∃ t, step serde cfg s (.supervise i .pollReload) = some t ∧
      (∀ recyclable, ¬(t.slots i).Selecting recyclable) ∧
      (s.generation ≤ (s.slots i).seenGeneration →
        ∃ w, (t.slots i).phase = .terminating w .shutdown) := by
  have hstep : step serde cfg s (.supervise i .pollReload) =
      some (s.supervise i ((s.slots i).pollReload i s.view true w worker)) := by
    simp [Pool.step, hi, Slot.step, hphase, Slot.withWorker, hw, State.view, hworker]
  refine ⟨_, hstep, ?_⟩
  rw [State.supervise_slots, update_self]
  have hview : s.view.workers w = some worker := hworker
  have move : Slot.Move cfg i s.view (s.slots i) .pollReload _ _ :=
    Slot.move_of_pollReload hphase hw hview
  exact move.leaves_select hphase hclosed

/-- A reload is to be served before the closed channel is found, or is being served. -/
def Slot.Delayed (slot : Slot) (generation : Nat) : Prop :=
  slot.Selecting true ∧ slot.inbox = [] ∧ slot.seenGeneration < generation ∨
    slot.phase = .loopTop ∨ ∃ w, slot.phase = .terminating w .reload

/-- No poll takes a supervisor past its reload. -/
theorem Slot.Move.delayed {v : View R} {slot slot' : Slot} {a : SupervisorAction R}
    {commands : List (Command R)} (move : Slot.Move cfg i v slot a slot' commands)
    (ha : a = .pollReload ∨ a = .pollInbox) (hopen : v.inboxOpen = true)
    (h : slot.Delayed v.generation) : slot'.Delayed v.generation := by
  have selects {recyclable : Bool}
      (hphase : slot.phase = .select recyclable ∨ slot.phase = .selectInbox recyclable) :
      recyclable = true ∧ slot.inbox = [] ∧ slot.seenGeneration < v.generation := by
    rcases h with ⟨hselecting, hinbox, hunseen⟩ | hloop | ⟨w, hterminating⟩
    · refine ⟨?_, hinbox, hunseen⟩
      rcases hphase with hphase | hphase
      · simpa [Slot.Selecting, hphase] using hselecting
      · simpa [Slot.Selecting, hphase] using hselecting
    · simp [hloop] at hphase
    · simp [hterminating] at hphase
  cases move with
  | reloaded => exact .inr (.inr ⟨_, rfl⟩)
  | caughtUp => exact .inr (.inl rfl)
  | noReload hphase _ _ hquiet =>
      obtain ⟨hflag, _, hunseen⟩ := selects (.inl hphase)
      exact absurd (hquiet hflag).1 (Nat.not_le.mpr hunseen)
  | reloadClosed hphase _ _ hseen =>
      exact absurd hseen (Nat.not_le.mpr (selects (.inl hphase)).2.2)
  | took hphase _ _ hrequest =>
      exact absurd ((selects (.inr hphase)).2.1.symm.trans hrequest) (List.cons_ne_nil _ _).symm
  | unreachable hphase _ hrequest => exact absurd (selects (.inr hphase)).2.1 hrequest
  | inboxEmpty hphase =>
      obtain ⟨rfl, hinbox, hunseen⟩ := selects (.inr hphase)
      exact .inl ⟨.inl rfl, hinbox, hunseen⟩
  | inboxClosed _ _ _ _ hclosed => simp [hopen] at hclosed
  | _ => simp at ha

/-- With a reload to serve the polls of the `select!` do not lead to the exit. -/
theorem Entangled.not_exits_delayed (h : Entangled i true s)
    (hunseen : (s.slots i).seenGeneration < s.generation) : ¬Exits serde cfg i s := by
  rintro ⟨t, hpolls, w, hphase⟩
  have hdelayed : t.main = .awaiting ∧ (t.slots i).Delayed t.generation := by
    refine hpolls.invariant (fun u => u.main = .awaiting ∧ (u.slots i).Delayed u.generation)
      ⟨h.main, .inl ⟨h.selecting, h.inbox, hunseen⟩⟩ ?_
    intro u a u' ⟨hmain, hu⟩ ha hstep
    have hopen : u.view.inboxOpen = true := by simp [State.view, hmain]
    obtain ⟨b, rfl, hb⟩ : ∃ b, a = .supervise i b ∧ (b = .pollReload ∨ b = .pollInbox) := by
      rcases ha with rfl | rfl
      · exact ⟨_, rfl, .inl rfl⟩
      · exact ⟨_, rfl, .inr rfl⟩
    cases step_move hstep with
    | @supervised _ _ r _ _ move =>
        have hnext : r.1.Delayed u.generation := move.delayed hb hopen hu
        simpa [hmain] using hnext
  simp [Slot.Delayed, Slot.Selecting, hphase] at hdelayed

end Recyclable

/-- Without the reload branch a supervisor with an empty, open inbox goes around. -/
theorem Slot.Move.circles {v : View R} {slot slot' : Slot} {a : SupervisorAction R}
    {commands : List (Command R)} (move : Slot.Move cfg i v slot a slot' commands)
    (hselecting : slot.Selecting false) (hinbox : slot.inbox = [])
    (hopen : v.inboxOpen = true) : slot'.Selecting false ∧ slot'.inbox = [] := by
  have hphases : slot.phase = .select false ∨ slot.phase = .selectInbox false := hselecting
  cases move with
  | @noReload recyclable _ _ hphase =>
      obtain rfl : recyclable = false := by simpa [hphase] using hphases
      exact ⟨.inr rfl, hinbox⟩
  | @inboxEmpty recyclable _ _ hphase =>
      obtain rfl : recyclable = false := by simpa [hphase] using hphases
      exact ⟨.inl rfl, hinbox⟩
  | took _ _ _ hrequest => exact absurd (hinbox.symm.trans hrequest) nofun
  | unreachable _ _ hrequest => exact absurd hinbox hrequest
  | inboxClosed _ _ _ _ hclosed => exact absurd (hopen.symm.trans hclosed) nofun
  | boot hphase | listen hphase | spawned hphase | spawnFailed hphase | spawnPanicked hphase
  | booted hphase | bootFailed hphase | bootPanicked hphase | wake hphase | reloaded hphase
  | caughtUp hphase | reloadClosed hphase | execute hphase | settled hphase
  | executePanicked hphase | recycled hphase | kept hphase | bootAbandoned hphase
  | replaced hphase | exited hphase | terminatePanicked hphase =>
      simp [hphase] at hphases

/-- Nothing moves a pair that waits for each other. -/
theorem Entangled.step (h : Entangled i false s) (hi : i < cfg.count) {a : Action R}
    (move : Move serde cfg s a t) : Entangled i false t := by
  have hlive : (s.slots i).phase.live = true := by
    rcases h.selecting with hphase | hphase
    · rw [hphase]
      rfl
    · rw [hphase]
      rfl
  have hmain := h.main
  cases move with
  | mainTook hm | mainLeft hm | skipped hm | delivered hm | buried hm | abandoned hm =>
      exact absurd (hm.symm.trans hmain) nofun
  | joined _ hslots => exact absurd (hslots i hi) (by simp [hlive])
  | @supervised j _ r _ _ move =>
      by_cases hj : i = j
      · subst hj
        have hopen : s.view.inboxOpen = true := by simp [State.view, hmain]
        have hslot : (s.supervise i r).slots i = r.1 := by rw [s.supervise_slots, update_self]
        obtain ⟨hselecting, hinbox⟩ := move.circles h.selecting h.inbox hopen
        exact ⟨(s.supervise_main i r).trans hmain, hslot ▸ hselecting, hslot ▸ hinbox⟩
      · have hslot : (s.supervise j r).slots i = s.slots i := by
          rw [s.supervise_slots, update_of_ne hj]
        exact ⟨(s.supervise_main j r).trans hmain, hslot ▸ h.selecting, hslot ▸ h.inbox⟩
  | _ => exact ⟨h.main, h.selecting, h.inbox⟩

theorem Entangled.forever (h : Entangled i false s) (hi : i < cfg.count)
    (hnext : Reachable (Pool.step serde cfg) s t) : Entangled i false t :=
  hnext.invariant (Entangled i false) h fun _ _ _ hs _ hstep => hs.step hi (step_move hstep)

theorem Entangled.not_exits (h : Entangled i false s) (hi : i < cfg.count) :
    ¬Exits serde cfg i s := by
  rintro ⟨t, hpolls, w, hphase⟩
  have hselecting := (h.forever hi hpolls.reachable).selecting
  simp [Slot.Selecting, hphase] at hselecting

/-- While `pool_main` awaits the supervisors, one that sits in its `select!` with an
empty inbox has an enabled shutdown exit if and only if it polls the reload channel, that
is, if its worker is recyclable, and has no reload to serve first. With a worker that is
not recyclable, and only then, both tasks wait for each other for ever. -/
theorem waiting_supervisor_exits_iff (R : Runtime) (serde : SerdeJson) (cfg : WorkersConfig)
    (s : State R) (h : Reachable (step serde cfg) (init R cfg) s) (i : Nat) (hi : i < cfg.count)
    (recyclable : Bool) (hwaits : Entangled i recyclable s) :
    (Exits serde cfg i s ↔
      recyclable = true ∧ s.generation ≤ (s.slots i).seenGeneration) ∧
    ((∀ t, Reachable (step serde cfg) s t → Entangled i recyclable t) ↔ recyclable = false) := by
  cases recyclable with
  | false =>
      constructor
      · simpa using hwaits.not_exits hi
      · simpa using fun t ht => hwaits.forever hi ht
  | true =>
      have hattended := attended_of_reachable h
      obtain ⟨w, worker, hw, hworker⟩ := hattended.installed hwaits.selecting
      obtain ⟨u, hpolls, hslot, hopen, hgeneration, hworkers⟩ :=
        hwaits.rewind serde hattended hi
      have hclosed : u.poolOpen = false := hopen.trans (hattended.closed hwaits.main)
      have hinstalled : (u.slots i).worker = some w := by rw [hslot, ← hw]
      have hselect : (u.slots i).phase = .select true := by rw [hslot]
      obtain ⟨t, hstep, hleft, hexit⟩ :=
        exists_leaves_select serde hselect hi hclosed hinstalled (hworkers ▸ hworker)
      have hall : ReachableVia (step serde cfg) (fun _ a => Polls i a) s t :=
        .next hpolls (.inl rfl) hstep
      constructor
      · constructor
        · intro hexits
          refine ⟨rfl, ?_⟩
          by_contra hunseen
          exact hwaits.not_exits_delayed (Nat.not_le.mp hunseen) hexits
        · rintro ⟨-, hseen⟩
          have hquiet : u.generation ≤ (u.slots i).seenGeneration := by
            rw [hgeneration, hslot]
            exact hseen
          exact ⟨t, hall, hexit hquiet⟩
      · refine iff_of_false (fun hforever => ?_) nofun
        exact hleft true (hforever t hall.reachable).selecting

/-- The supervisor boots its worker, the pool is dropped, `pool_main` leaves its loop. -/
def dropRun (R : Runtime) (worker : R.Worker) : List (Action R) :=
  [.supervise 0 .enterLoop, .supervise 0 (.spawned worker), .supervise 0 .pollReady,
    .dropPool, .mainRecv]

/-- The test of the two tasks, for runs. -/
def entangled (recyclable : Bool) (s : State R) : Bool :=
  match s.main, (s.slots 0).phase with
  | .awaiting, .select r => r == recyclable && (s.slots 0).inbox.isEmpty && !s.poolOpen
  | _, _ => false

theorem entangled_sound {recyclable : Bool} (h : entangled recyclable s = true) :
    Entangled 0 recyclable s ∧ s.poolOpen = false := by
  unfold entangled at h
  split at h
  · next r hmain hphase =>
      simp only [Bool.and_eq_true, beq_iff_eq, List.isEmpty_iff, Bool.not_eq_true'] at h
      obtain ⟨⟨rfl, hinbox⟩, hclosed⟩ := h
      exact ⟨⟨hmain, .inl hphase, hinbox⟩, hclosed⟩
  · cases h

/-- A recyclable worker lets its supervisor exit. -/
theorem recyclable_supervisor_exits :
    ∃ s, Reachable (step .ofNull .single) (init .basic .single) s ∧ Entangled 0 true s ∧
      Exits .ofNull .single 0 s := by
  have hrun : (runs (step .ofNull .single) (init .basic .single) (dropRun .basic ())).any
      (fun s => entangled true s && decide (s.generation ≤ (s.slots 0).seenGeneration)) = true := by
    decide
  obtain ⟨s, hs, htest⟩ := exists_reachable hrun
  rw [Bool.and_eq_true, decide_eq_true_eq] at htest
  have hwaits := (entangled_sound htest.1).1
  have hiff := waiting_supervisor_exits_iff .basic .ofNull .single s hs 0 (by decide) true hwaits
  exact ⟨s, hs, hwaits, hiff.1.mpr ⟨rfl, htest.2⟩⟩

/-- A runtime whose workers cannot be restarted, as the one on the main thread. -/
def Runtime.pinned : Runtime := { Runtime.basic with isRecyclable := fun _ => false }

/-- With such a worker the dropped pool never shuts down. -/
theorem pinned_worker_blocks_shutdown :
    ∃ s, Reachable (step .ofNull .single) (init .pinned .single) s ∧ s.poolOpen = false ∧
      Entangled 0 false s ∧ ¬Exits .ofNull .single 0 s ∧
      ∀ t, Reachable (step .ofNull .single) s t → t.main = .awaiting := by
  have hrun : (runs (step .ofNull .single) (init .pinned .single) (dropRun .pinned ())).any
      (entangled false) = true := by
    decide
  obtain ⟨s, hs, htest⟩ := exists_reachable hrun
  obtain ⟨hwaits, hclosed⟩ := entangled_sound htest
  have hcount : 0 < WorkersConfig.single.count := by decide
  exact ⟨s, hs, hclosed, hwaits, hwaits.not_exits hcount, fun t ht =>
    (hwaits.forever hcount ht).main⟩

end FolkCore.Pool
