import FolkCore.Pool.Dispatch
import FolkCore.Pool.Permits

/-!
# Draining the queues at shutdown

A dropped pool still has requests in its channels. `pool_main` forwards what it has
buffered, but a supervisor polls the closed reload channel before its inbox, and it
ends without looking into the inbox. `sparesRequests` rules out the steps after which
this branch meets a request; in such runs nothing that was accepted is lost.
-/

namespace FolkCore.Pool

open Function Lib

variable {R : Runtime} {serde : SerdeJson} {cfg : WorkersConfig} {s t : State R} {i k : Nat}

/-- The supervisor has taken an exit. -/
def Phase.stopped : Phase → Bool
  | .terminating _ .shutdown => true
  | .exited => true
  | .panicked => true
  | _ => false

def Poll.panics {α : Type} : Poll α → Bool
  | .panicked => true
  | _ => false

def Poll.succeeds : Poll (Except String Unit) → Bool
  | .ready (.ok _) => true
  | _ => false

/-- The task of supervisor `i` panics: in the code of the runtime, or at `unreachable!()`. -/
def State.unwinds (s : State R) (i : Nat) (a : SupervisorAction R) : Bool :=
  match (s.slots i).phase, a with
  | .spawning, .spawnPanicked => true
  | .readying w _, .pollReady => (s.workers w).any fun h => (R.pollReady h).panics
  | .selectInbox _, .pollInbox => (s.slots i).worker.isNone
  | .executing _ _, .pollExecute =>
      ((s.slots i).worker.bind s.workers).any fun h => (R.pollExecute h).panics
  | .terminating w _, .pollTerminate => (s.workers w).any fun h => (R.pollTerminate h).panics
  | _, _ => false

/-- Supervisor `i` has seen the last reload, so that its next poll of the reload channel of a
dropped pool finds it closed. -/
def State.caughtUp (s : State R) (i : Nat) : Bool :=
  decide (s.generation ≤ (s.slots i).seenGeneration)

/-- Supervisor `i` stands before the poll of the reload channel. -/
def State.listens (s : State R) (i : Nat) : Bool :=
  match (s.slots i).phase with
  | .select true => s.caughtUp i
  | _ => false

/-- Supervisor `i` comes to the poll of the reload channel, which it skips for a worker that
is not recyclable. -/
def State.arrives (s : State R) (i : Nat) (a : SupervisorAction R) : Bool :=
  match (s.slots i).phase, a with
  | .loopTop, .enterLoop =>
      s.caughtUp i && ((s.slots i).worker.bind s.workers).any R.isRecyclable
  | .readying w _, .pollReady =>
      s.caughtUp i && (s.workers w).any fun h => R.isRecyclable h && (R.pollReady h).succeeds
  | _, _ => false

/-- Supervisor `i` is on its way out of the dropped pool. -/
def State.leaving (s : State R) (i : Nat) : Bool :=
  match (s.slots i).phase with
  | .terminating _ .shutdown => true
  | _ => !s.poolOpen && s.listens i

/-- Once the pool is dropped no supervisor stands before the poll of the reload channel with
a request in its inbox and `pool_main` hands none to a supervisor on its way out; no
supervisor panics with a request in its inbox, and `pool_main` finds an open inbox. -/
def sparesRequests (cfg : WorkersConfig) (s : State R) : Action R → Bool
  | .dropPool =>
      (List.range cfg.count).all fun i => !s.listens i || (s.slots i).inbox.isEmpty
  | .supervise i a =>
      !(s.unwinds i a || !s.poolOpen && s.arrives i a) || (s.slots i).inbox.isEmpty
  | .mainForward =>
      match s.main with
      | .forwarding _ attempt =>
          decide (attempt < cfg.count) && !s.leaving ((s.next + attempt) % cfg.count)
      | _ => true
  | _ => true

/-- The request is with the pool and has not been executed. -/
def State.Pending (cfg : WorkersConfig) (s : State R) (k : Nat) : Prop :=
  0 < Pool.tally k s.requestCh ∨ 0 < Pool.tally k s.main.requests ∨
    ∃ i < cfg.count, 0 < Pool.tally k (s.slots i).requests

def State.Executed (s : State R) (k : Nat) : Prop := ∃ i w, .executed i w k ∈ s.history

section Supervisors

variable {v : View R} {slot slot' : Slot} {a : SupervisorAction R}
  {commands : List (Command R)}

/-- A supervisor that has stopped has an empty inbox, or it has just found the reload channel
closed. -/
theorem Slot.Move.stops (move : Slot.Move cfg i v slot a slot' commands)
    (hstopped : slot'.phase.stopped = true) :
    slot'.inbox = [] ∨ slot'.inbox = slot.inbox ∧ slot.phase = .select true ∧
      v.generation ≤ slot.seenGeneration ∧ v.reloadOpen = false := by
  cases move with
  | spawnPanicked | bootPanicked | unreachable | executePanicked | terminatePanicked | exited =>
      exact .inl rfl
  | reloadClosed hphase _ _ hseen hclosed => exact .inr ⟨rfl, hphase, hseen, hclosed⟩
  | inboxClosed _ _ _ hinbox => exact .inl hinbox
  | recycled =>
      split at hstopped
      · cases hstopped
      · cases hstopped
  | _ => cases hstopped

/-- A request that leaves a slot was executed, unless the supervisor panics or exits
with requests in its inbox. -/
theorem Slot.Move.gone_executed (move : Slot.Move cfg i v slot a slot' commands)
    (hpanicked : slot'.phase = .panicked → slot.inbox = [])
    (hinbox : slot.phase.stopped = true → slot.inbox = [])
    (hgone : 0 < (commands.flatMap Command.gone).count k) :
    ∃ w, .executed i w k ∈ commands.filterMap Command.noted := by
  rw [List.count_pos_iff] at hgone
  cases move with
  | spawnPanicked | bootPanicked | unreachable | executePanicked | terminatePanicked =>
      have hempty := hpanicked rfl
      simp [Command.gone, hempty] at hgone
  | exited hphase =>
      have hempty := hinbox (by simp [hphase, Phase.stopped])
      simp [Command.gone, hempty] at hgone
  | @execute req _ w _ _ _ _ =>
      have hk : k = req.streamTx := by simpa [Command.gone] using hgone
      exact ⟨w, by simp [Command.noted, List.filterMap_cons, hk]⟩
  | _ => simp [Command.gone] at hgone

end Supervisors

/-- A supervisor that a step leaves panicked was unwound. -/
theorem unwinds_of_panicked {a : SupervisorAction R} {r : Slot × List (Command R)}
    (hstep : (s.slots i).step cfg i s.view a = some r) (hpanicked : r.1.phase = .panicked) :
    s.unwinds i a = true := by
  have move := Slot.step_move hstep
  obtain ⟨slot', commands⟩ := r
  cases move with
  | spawnPanicked hphase => simp [State.unwinds, hphase]
  | unreachable hphase hworker => simp [State.unwinds, hphase, hworker]
  | @bootPanicked w deadline worker hphase hw =>
      have hworker : s.workers w = some worker := hw
      cases hpoll : R.pollReady worker with
      | panicked => simp [State.unwinds, hphase, hworker, hpoll, Poll.panics]
      | pending =>
          simp [Slot.step, hphase, hw, Slot.pollReady, hpoll, Slot.terminate] at hstep
      | ready r =>
          cases r with
          | ok u => simp [Slot.step, hphase, hw, Slot.pollReady, hpoll] at hstep
          | error e =>
              simp [Slot.step, hphase, hw, Slot.pollReady, hpoll, Slot.terminate] at hstep
  | @executePanicked tx deadline w worker hphase hslot hw =>
      have hworker : s.workers w = some worker := hw
      cases hpoll : R.pollExecute worker with
      | panicked => simp [State.unwinds, hphase, hslot, hworker, hpoll, Poll.panics]
      | pending =>
          simp [Slot.step, hphase, hslot, hw, Slot.withWorker, Slot.pollExecute, hpoll,
            Slot.settle] at hstep
      | ready r =>
          simp [Slot.step, hphase, hslot, hw, Slot.withWorker, Slot.pollExecute, hpoll,
            Slot.settle] at hstep
  | @terminatePanicked w why worker hphase hw =>
      have hworker : s.workers w = some worker := hw
      cases hpoll : R.pollTerminate worker with
      | panicked => simp [State.unwinds, hphase, hworker, hpoll, Poll.panics]
      | pending => simp [Slot.step, hphase, hw, Slot.pollTerminate, hpoll] at hstep
      | ready r =>
          cases why <;> simp [Slot.step, hphase, hw, Slot.pollTerminate, hpoll, Slot.stop] at hstep
  | _ => cases hpanicked

/-- A supervisor comes to the poll of the reload channel by an arrival, or from an inbox that
it has found empty. -/
theorem arrives_of_select {a : SupervisorAction R} {slot' : Slot} {commands : List (Command R)}
    (move : Slot.Move cfg i s.view (s.slots i) a slot' commands)
    (hphase : slot'.phase = .select true) (hseen : s.generation ≤ slot'.seenGeneration) :
    slot'.inbox = (s.slots i).inbox ∧ (s.arrives i a = true ∨ (s.slots i).inbox = []) := by
  cases move with
  | @listen w worker hbefore hworker hw =>
      have hfound : s.workers w = some worker := hw
      have hrecyclable : R.isRecyclable worker = true := by simpa using hphase
      refine ⟨rfl, .inl ?_⟩
      simpa [State.arrives, State.caughtUp, hbefore, hworker, hfound, hrecyclable] using hseen
  | @booted w deadline worker hbefore hw hready =>
      have hfound : s.workers w = some worker := hw
      have hrecyclable : R.isRecyclable worker = true := by simpa using hphase
      refine ⟨rfl, .inl ?_⟩
      simpa [State.arrives, State.caughtUp, hbefore, hfound, hrecyclable, hready, Poll.succeeds]
        using hseen
  | inboxEmpty _ _ _ hinbox => exact ⟨rfl, .inr hinbox⟩
  | recycled =>
      split at hphase
      · cases hphase
      · cases hphase
  | _ => cases hphase

/-- The invariant of a drain: a supervisor that has stopped, or that is about to find the
reload channel of the dropped pool closed, has an empty inbox. -/
structure Draining (cfg : WorkersConfig) (s : State R) : Prop where
  metered : Metered cfg s
  empty : ∀ i < cfg.count, (s.slots i).phase.stopped = true → (s.slots i).inbox = []
  idle : s.poolOpen = false → ∀ i < cfg.count, s.listens i = true → (s.slots i).inbox = []
  silent : s.poolOpen = false → ∀ k, (s.calls k).requests = []
  left : s.main = .awaiting ∨ s.main = .exited → s.poolOpen = false ∧ s.requestCh = []
  joined : s.main = .exited → ∀ i < cfg.count, (s.slots i).phase.live = false

theorem Draining.init (R : Runtime) (cfg : WorkersConfig) : Draining cfg (init R cfg) where
  metered := Metered.init R cfg
  empty i _ h := by cases h
  idle h := by cases h
  silent h := by cases h
  left h := by simp [Pool.init] at h
  joined h := by cases h

theorem Phase.stopped_of_not_live {phase : Phase} (h : phase.live = false) :
    phase.stopped = true := by
  cases phase with
  | exited => rfl
  | panicked => rfl
  | _ => cases h

theorem requests_update {calls : Nat → CallStage} (h : ∀ k, (calls k).requests = [])
    {stage : CallStage} (hstage : stage.requests = []) (j : Nat) :
    (update calls k stage j).requests = [] := by
  by_cases hj : j = k
  · rw [hj, update_self]
    exact hstage
  · rw [update_of_ne hj]
    exact h j

theorem State.listens_iff :
    s.listens i = true ↔ (s.slots i).phase = .select true ∧
      s.generation ≤ (s.slots i).seenGeneration := by
  unfold State.listens State.caughtUp
  split
  · next hphase => simp [hphase]
  · next hphase => exact iff_of_false nofun fun hlistens => hphase hlistens.1

/-- A step that leaves the channels, `pool_main` and the slots alone. -/
theorem Draining.aside (h : Draining cfg s) (hmetered : Metered cfg t)
    (hopen : t.poolOpen = s.poolOpen) (hch : t.requestCh = s.requestCh)
    (hmain : t.main = s.main) (hslots : t.slots = s.slots)
    (hgeneration : s.poolOpen = false → t.generation = s.generation)
    (hsilent : s.poolOpen = false → ∀ k, (t.calls k).requests = []) : Draining cfg t where
  metered := hmetered
  empty := by simpa only [hslots] using h.empty
  idle hclosed := by
    rw [hopen] at hclosed
    simpa only [State.listens_iff, hslots, hgeneration hclosed] using h.idle hclosed
  silent := by simpa only [hopen] using hsilent
  left := by simpa only [hmain, hopen, hch] using h.left
  joined := by simpa only [hmain, hslots] using h.joined

/-- A caller that has a request to send keeps the pool open. -/
theorem Draining.open_of_sending (h : Draining cfg s) {kind : CallKind} {req : DispatchRequest}
    (hcall : s.calls k = .sending kind req) : s.poolOpen = true := by
  by_contra hopen
  have hnone := h.silent (Bool.eq_false_iff.mpr hopen) k
  simp [hcall] at hnone

theorem Draining.submitted (h : Draining cfg s) {kind : CallKind} {req : DispatchRequest}
    (hcall : s.calls k = .sending kind req)
    (hmetered : Metered cfg ({ s with requestCh := s.requestCh ++ [req] }.setCall k kind.listen)) :
    Draining cfg ({ s with requestCh := s.requestCh ++ [req] }.setCall k kind.listen) where
  metered := hmetered
  empty := h.empty
  idle := h.idle
  silent hclosed := absurd (h.open_of_sending hcall) (by simpa using hclosed)
  left hmain := absurd (h.left hmain).1 (by simp [h.open_of_sending hcall])
  joined := h.joined

/-- The pool is dropped while no supervisor before its reload channel has a request. -/
theorem Draining.poolDropped (h : Draining cfg s)
    (hmetered : Metered cfg { s with poolOpen := false })
    (ok : sparesRequests cfg s .dropPool = true)
    (hcalls : ∀ k < s.callCount, (s.calls k).borrows = false) :
    Draining cfg { s with poolOpen := false } where
  metered := hmetered
  empty := h.empty
  idle _ i hi hlistens := by
    have hspared := List.all_eq_true.mp ok i (List.mem_range.mpr hi)
    have hbefore : s.listens i = true := hlistens
    simpa [hbefore] using hspared
  silent _ k := by
    show (s.calls k).requests = []
    cases hcall : s.calls k with
    | sending kind req =>
        have hborrows := hcalls k (h.metered.ticketed.known (by simp [hcall]))
        simp [hcall, CallStage.borrows] at hborrows
    | _ => rfl
  left hmain := ⟨rfl, (h.left hmain).2⟩
  joined := h.joined

section Main

/-- A step of `pool_main` between two requests. -/
theorem Draining.forwards (h : Draining cfg s) {requestCh : List DispatchRequest}
    {main : MainPhase} {dead : Nat → Bool} (hawaiting : main ≠ .awaiting)
    (hexited : main ≠ .exited) (hmetered : Metered cfg { s with main, requestCh, dead }) :
    Draining cfg { s with main, requestCh, dead } where
  metered := hmetered
  empty := h.empty
  idle := h.idle
  silent := h.silent
  left hmain := (hmain.elim hawaiting hexited).elim
  joined hmain := absurd hmain hexited

theorem Draining.mainLeft (h : Draining cfg s) (hch : s.requestCh = [])
    (hclosed : s.poolOpen = false) (hmetered : Metered cfg { s with main := .awaiting }) :
    Draining cfg { s with main := .awaiting } where
  metered := hmetered
  empty := h.empty
  idle := h.idle
  silent := h.silent
  left _ := ⟨hclosed, hch⟩
  joined hmain := by cases hmain

theorem Draining.joins (h : Draining cfg s) (hmain : s.main = .awaiting)
    (hslots : ∀ i < cfg.count, (s.slots i).phase.live = false)
    (hmetered : Metered cfg { s with main := .exited }) :
    Draining cfg { s with main := .exited } where
  metered := hmetered
  empty := h.empty
  idle := h.idle
  silent := h.silent
  left _ := h.left (.inl hmain)
  joined _ := hslots

/-- `pool_main` hands a request to a supervisor that is not on its way out. -/
theorem Draining.delivered (h : Draining cfg s) {req : DispatchRequest} {chosen : Nat}
    (hlive : (s.slots chosen).phase.live = true) (hstays : s.leaving chosen = false)
    (hmetered : Metered cfg (deliver s chosen req)) : Draining cfg (deliver s chosen req) := by
  constructor
  · exact hmetered
  · intro j hj hstopped
    by_cases hjc : j = chosen
    · subst hjc
      simp only [deliver, State.note, update_self] at hstopped
      unfold State.leaving at hstays
      split at hstays
      · cases hstays
      · next hphase =>
          cases hp : (s.slots j).phase <;> simp_all [Phase.stopped, Phase.live]
    · simpa [hjc] using h.empty j hj (by simpa [hjc] using hstopped)
  · intro hclosed j hj hlistens
    rw [State.listens_iff] at hlistens
    by_cases hjc : j = chosen
    · subst hjc
      simp only [deliver, State.note, update_self] at hclosed hlistens
      have hbefore := State.listens_iff.mpr hlistens
      simp [State.leaving, hlistens.1, hclosed, hbefore] at hstays
    · simp only [deliver, State.note, update_of_ne hjc] at hlistens ⊢
      exact h.idle hclosed j hj (State.listens_iff.mpr hlistens)
  · exact h.silent
  · exact fun hleft => by simp at hleft
  · exact fun hexited => by cases hexited

end Main

section Supervise

variable {a : SupervisorAction R} {r : Slot × List (Command R)}

/-- A supervisor panics with an empty inbox. -/
theorem inbox_of_panicked (ok : sparesRequests cfg s (.supervise i a) = true)
    (hstep : (s.slots i).step cfg i s.view a = some r) (hpanicked : r.1.phase = .panicked) :
    (s.slots i).inbox = [] := by
  simpa [sparesRequests, unwinds_of_panicked hstep hpanicked] using ok

/-- An allowed exit finds the inbox empty. -/
theorem Draining.stops_empty (h : Draining cfg s) (hi : i < cfg.count)
    (hstep : (s.slots i).step cfg i s.view a = some r) (hstopped : r.1.phase.stopped = true) :
    r.1.inbox = [] := by
  rcases (Slot.step_move hstep).stops hstopped with hempty | ⟨hinbox, hphase, hseen, hclosed⟩
  · exact hempty
  · rw [hinbox]
    exact h.idle hclosed i hi (State.listens_iff.mpr ⟨hphase, hseen⟩)

/-- A supervisor of the dropped pool comes to its reload channel with an empty inbox. -/
theorem inbox_of_listens (ok : sparesRequests cfg s (.supervise i a) = true)
    (hstep : (s.slots i).step cfg i s.view a = some r) (hclosed : s.poolOpen = false)
    (hphase : r.1.phase = .select true) (hseen : s.generation ≤ r.1.seenGeneration) :
    r.1.inbox = [] := by
  obtain ⟨hinbox, harrives⟩ := arrives_of_select (Slot.step_move hstep) hphase hseen
  rw [hinbox]
  rcases harrives with harrives | hempty
  · simpa [sparesRequests, harrives, hclosed] using ok
  · exact hempty

theorem Draining.supervised (h : Draining cfg s) (hi : i < cfg.count)
    (ok : sparesRequests cfg s (.supervise i a) = true)
    (hstep : (s.slots i).step cfg i s.view a = some r)
    (hmetered : Metered cfg (s.supervise i r)) : Draining cfg (s.supervise i r) := by
  constructor
  · exact hmetered
  · intro j hj hstopped
    rw [s.supervise_slots] at hstopped ⊢
    by_cases hji : j = i
    · subst hji
      rw [update_self] at hstopped ⊢
      exact h.stops_empty hi hstep hstopped
    · rw [update_of_ne hji] at hstopped ⊢
      exact h.empty j hj hstopped
  · intro hclosed j hj hlistens
    simp only [State.supervise_poolOpen] at hclosed
    simp only [State.listens_iff, s.supervise_slots, State.supervise_generation] at hlistens ⊢
    by_cases hji : j = i
    · subst hji
      rw [update_self] at hlistens ⊢
      exact inbox_of_listens ok hstep hclosed hlistens.1 hlistens.2
    · rw [update_of_ne hji] at hlistens ⊢
      exact h.idle hclosed j hj (State.listens_iff.mpr hlistens)
  · simpa using h.silent
  · simpa using h.left
  · intro hexited
    have hdown := h.joined (by simpa using hexited) i hi
    exact absurd hdown (by simp [(Slot.step_move hstep).live])

end Supervise

/-- `pool_main` finds an open inbox, of a supervisor that stays. -/
theorem forwards_of_spares {req : DispatchRequest} {attempt : Nat}
    (ok : sparesRequests cfg s .mainForward = true) (hmain : s.main = .forwarding req attempt) :
    attempt < cfg.count ∧ s.leaving ((s.next + attempt) % cfg.count) = false := by
  simpa [sparesRequests, hmain] using ok

/-- Every allowed step keeps the invariant. -/
theorem Draining.step (h : Draining cfg s) {a : Action R} (ok : sparesRequests cfg s a = true)
    (move : Move serde cfg s a t) : Draining cfg t := by
  have hmetered := h.metered.step move
  cases move with
  | refused | poolGone | judged | exhausted | collected | withdrawn | cancelled =>
      refine h.aside hmetered rfl rfl rfl rfl (fun _ => rfl) fun hclosed => ?_
      exact requests_update (h.silent hclosed) rfl
  | opened hopen =>
      refine h.aside hmetered rfl rfl rfl rfl (fun _ => rfl) fun hclosed => ?_
      exact absurd (hopen.symm.trans hclosed) nofun
  | submitted hcall => exact h.submitted hcall hmetered
  | reloaded hopen =>
      refine h.aside hmetered rfl rfl rfl rfl (fun hclosed => ?_) h.silent
      exact absurd (hopen.symm.trans hclosed) nofun
  | streamed | ticked | worked | pushed | pushLost | closed =>
      exact h.aside hmetered rfl rfl rfl rfl (fun _ => rfl) h.silent
  | poolDropped _ hcalls => exact h.poolDropped hmetered ok hcalls
  | mainTook | skipped | buried => exact h.forwards nofun nofun hmetered
  | mainLeft _ hch hclosed => exact h.mainLeft hch hclosed hmetered
  | delivered hmain _ _ hlive =>
      exact h.delivered hlive (forwards_of_spares ok hmain).2 hmetered
  | abandoned hmain hattempt =>
      exact absurd (forwards_of_spares ok hmain).1 (Nat.not_lt.mpr hattempt)
  | joined hmain hslots => exact h.joins hmain hslots hmetered
  | supervised hi hstep _ => exact h.supervised hi ok hstep hmetered

/-- The request is with the pool or was executed. -/
def State.Kept (cfg : WorkersConfig) (s : State R) (k : Nat) : Prop :=
  s.Pending cfg k ∨ s.Executed k

theorem State.Kept.mono (h : s.Kept cfg k) (events : List Event)
    (hhistory : t.history = s.history ++ events) (hpending : s.Pending cfg k → t.Kept cfg k) :
    t.Kept cfg k := by
  rcases h with hheld | ⟨i, w, hmem⟩
  · exact hpending hheld
  · refine .inr ⟨i, w, ?_⟩
    rw [hhistory]
    exact List.mem_append_left events hmem

/-- Where the queues are the same, so is what they hold. -/
theorem State.Kept.aside (h : s.Kept cfg k) (hch : t.requestCh = s.requestCh)
    (hmain : t.main.requests = s.main.requests) (hslots : t.slots = s.slots)
    (events : List Event) (hhistory : t.history = s.history ++ events) : t.Kept cfg k := by
  refine h.mono events hhistory fun hpending => .inl ?_
  simpa only [State.Pending, hch, hmain, hslots] using hpending

theorem State.Kept.delivered (h : s.Kept cfg k) {req : DispatchRequest} {attempt chosen : Nat}
    (hmain : s.main = .forwarding req attempt) (hchosen : chosen < cfg.count) :
    (deliver s chosen req).Kept cfg k := by
  refine h.mono [.delivered chosen req.streamTx] rfl fun hpending => .inl ?_
  rcases hpending with hch | hheld | ⟨j, hj, hslot⟩
  · exact .inl hch
  · refine .inr (.inr ⟨chosen, hchosen, ?_⟩)
    rw [hmain] at hheld
    simp only [deliver, State.note, update_self, Slot.requests, tally_append, MainPhase.requests]
      at hheld ⊢
    omega
  · refine .inr (.inr ⟨j, hj, ?_⟩)
    by_cases hjc : j = chosen
    · subst hjc
      simp only [deliver, State.note, update_self, Slot.requests, tally_append] at hslot ⊢
      omega
    · simpa [hjc] using hslot

/-- A supervisor's allowed step executes what leaves its slot. -/
theorem State.Kept.supervised (h : s.Kept cfg k) (hdraining : Draining cfg s)
    (hi : i < cfg.count) {a : SupervisorAction R} {r : Slot × List (Command R)}
    (ok : sparesRequests cfg s (.supervise i a) = true)
    (hstep : (s.slots i).step cfg i s.view a = some r) : (s.supervise i r).Kept cfg k := by
  have move := Slot.step_move hstep
  refine h.mono _ (s.supervise_history i r) fun hpending => ?_
  rcases hpending with hch | hheld | ⟨j, hj, hslot⟩
  · exact .inl (.inl (by simpa using hch))
  · exact .inl (.inr (.inl (by simpa using hheld)))
  · by_cases hji : j = i
    · subst hji
      by_cases hstay : 0 < Pool.tally k r.1.requests
      · refine .inl (.inr (.inr ⟨j, hj, ?_⟩))
        rwa [s.supervise_slots, update_self]
      · have hgone : 0 < (r.2.flatMap Command.gone).count k := by
          have := move.tally k
          omega
        obtain ⟨w, hmem⟩ := move.gone_executed (inbox_of_panicked ok hstep)
          (hdraining.empty j hj) hgone
        refine .inr ⟨j, w, ?_⟩
        rw [s.supervise_history]
        exact List.mem_append_right s.history hmem
    · refine .inl (.inr (.inr ⟨j, hj, ?_⟩))
      rwa [s.supervise_slots, update_of_ne hji]

/-- Every allowed step keeps a request that the pool has. -/
theorem State.Kept.step (h : s.Kept cfg k) (hdraining : Draining cfg s) {a : Action R}
    (ok : sparesRequests cfg s a = true) (move : Move serde cfg s a t) : t.Kept cfg k := by
  cases move with
  | refused | poolGone | judged | exhausted | pushed => exact h.aside rfl rfl rfl _ rfl
  | opened | collected | streamed | withdrawn | cancelled | reloaded | poolDropped | ticked
  | worked | pushLost | closed => exact h.aside rfl rfl rfl [] (by simp)
  | submitted =>
      refine h.mono [] (by simp) fun hpending => .inl ?_
      refine hpending.imp (fun hch => ?_) id
      simp only [State.setCall, tally_append]
      omega
  | mainTook hmain hch =>
      refine h.mono [] (by simp) fun hpending => .inl ?_
      rcases hpending with hheld | hheld | hslot
      · rw [hch] at hheld
        simp only [State.Pending, MainPhase.requests, tally_cons, tally_nil] at hheld ⊢
        omega
      · simp [hmain, MainPhase.requests] at hheld
      · exact .inr (.inr hslot)
  | mainLeft hmain | joined hmain | skipped hmain | buried hmain =>
      exact h.aside rfl (by simp [hmain, MainPhase.requests]) rfl [] (by simp)
  | delivered hmain hattempt =>
      exact h.delivered hmain (Nat.mod_lt _ (Nat.zero_lt_of_lt hattempt))
  | abandoned hmain hattempt =>
      exact absurd (forwards_of_spares ok hmain).1 (Nat.not_lt.mpr hattempt)
  | supervised hi hstep _ => exact h.supervised hdraining hi ok hstep

/-- A caller comes to listen by the step that puts its request into the channel. -/
theorem Move.listens {a : Action R} (move : Move serde cfg s a t) (h : (t.calls k).Listening) :
    (s.calls k).Listening ∨ ∃ kind req, s.calls k = .sending kind req ∧
      t.requestCh = s.requestCh ++ [req] := by
  have other {j : Nat} {stage : CallStage} (hcalls : t.calls = update s.calls j stage)
      (hself : k = j → stage.Listening → (s.calls k).Listening) : (s.calls k).Listening := by
    by_cases hk : k = j
    · apply hself hk
      rwa [hcalls, hk, update_self] at h
    · rwa [hcalls, update_of_ne hk] at h
  cases move with
  | refused | opened | poolGone | judged | exhausted | withdrawn | cancelled =>
      exact .inl (other rfl fun _ hstage => hstage.elim)
  | collected hcall => exact .inl (other rfl fun hk _ => by simp [hk, hcall, CallStage.Listening])
  | @submitted j kind req hcall _ =>
      by_cases hk : k = j
      · exact .inr ⟨kind, req, hk ▸ hcall, rfl⟩
      · exact .inl (other rfl fun heq => absurd heq hk)
  | supervised => exact .inl (by simpa using h)
  | _ => exact .inl h

/-- The invariant of a run in which every exit finds its queue drained. -/
structure Accounted (cfg : WorkersConfig) (s : State R) : Prop where
  draining : Draining cfg s
  kept : ∀ k, (s.calls k).Listening → s.Kept cfg k

theorem Accounted.init (R : Runtime) (cfg : WorkersConfig) : Accounted cfg (init R cfg) where
  draining := Draining.init R cfg
  kept _ h := h.elim

theorem Accounted.step (h : Accounted cfg s) {a : Action R} (ok : sparesRequests cfg s a = true)
    (move : Move serde cfg s a t) : Accounted cfg t where
  draining := h.draining.step ok move
  kept k hlistens := by
    rcases move.listens hlistens with hbefore | ⟨kind, req, hcall, hch⟩
    · exact (h.kept k hbefore).step h.draining ok move
    · refine .inl (.inl ?_)
      have htx := h.draining.metered.ticketed.sending k kind req hcall
      simp [hch, htx]

/-- When `pool_main` has returned, the queues are empty. -/
theorem Draining.not_pending (h : Draining cfg s) (hexited : s.main = .exited) :
    ¬s.Pending cfg k := by
  rintro (hch | hmain | ⟨i, hi, hslot⟩)
  · simp [(h.left (.inr hexited)).2] at hch
  · simp [hexited, MainPhase.requests] at hmain
  · have hlive := h.joined hexited i hi
    have hinbox := h.empty i hi (Phase.stopped_of_not_live hlive)
    have hphase : (s.slots i).phase.requests = [] := by
      cases hp : (s.slots i).phase with
      | dispatching req since => simp [hp, Phase.live] at hlive
      | _ => rfl
    simp [Slot.requests, hinbox, hphase] at hslot

/-- In every run whose steps spare the queued requests: a stopped supervisor has an empty inbox; an
accepted request stays with the pool until it is executed; and it has been executed
when `pool_main` returns. -/
theorem drained_exits_lose_nothing (R : Runtime) (serde : SerdeJson) (cfg : WorkersConfig)
    (s : State R)
    (h : ReachableVia (step serde cfg) (fun s a => sparesRequests cfg s a = true) (init R cfg) s) :
    (∀ i < cfg.count, (s.slots i).phase.stopped = true → (s.slots i).inbox = []) ∧
    ∀ k, (s.calls k).Listening → ∀ t,
      ReachableVia (step serde cfg) (fun s a => sparesRequests cfg s a = true) s t →
      (t.Pending cfg k ∨ t.Executed k) ∧ (t.main = .exited → t.Executed k) := by
  have haccounted : Accounted cfg s :=
    h.invariant (Accounted cfg) (Accounted.init R cfg) fun _ _ _ hs ok hstep =>
      hs.step ok (step_move hstep)
  refine ⟨haccounted.draining.empty, fun k hlistens t ht => ?_⟩
  have hlater : Draining cfg t ∧ t.Kept cfg k := by
    refine ht.invariant (fun u => Draining cfg u ∧ u.Kept cfg k)
      ⟨haccounted.draining, haccounted.kept k hlistens⟩ fun _ _ _ hu ok hstep => ?_
    exact ⟨hu.1.step ok (step_move hstep), hu.2.step hu.1 ok (step_move hstep)⟩
  refine ⟨hlater.2, fun hexited => ?_⟩
  exact hlater.2.resolve_left (hlater.1.not_pending hexited)

section Runs

/-- A streaming call has returned its receiver. -/
def CallStage.isStreaming : CallStage → Bool
  | .streaming => true
  | _ => false

theorem CallStage.eq_of_isStreaming {stage : CallStage} (h : stage.isStreaming = true) :
    stage = .streaming := by
  cases stage with
  | streaming => rfl
  | _ => cases h

def MainPhase.isExited : MainPhase → Bool
  | .exited => true
  | _ => false

theorem MainPhase.eq_of_isExited {main : MainPhase} (h : main.isExited = true) :
    main = .exited := by
  cases main with
  | exited => rfl
  | _ => cases h

def Event.isExecution : Event → Bool
  | .executed _ _ _ => true
  | _ => false

/-- A request is accepted and executed; afterwards the pool is dropped and ends. -/
def servedRun (R : Runtime) (worker : R.Worker) : List (Action R) :=
  [.invoke (.executeStreamed "dispatch" .null none), .submit 0, .mainRecv, .mainForward,
    .supervise 0 .enterLoop, .supervise 0 (.spawned worker), .supervise 0 .pollReady]

def serveAndDrop (R : Runtime) : List (Action R) :=
  [.supervise 0 .pollReload, .supervise 0 .pollInbox, .supervise 0 .execute,
    .supervise 0 .pollExecute, .supervise 0 .recycle, .supervise 0 .enterLoop, .dropPool,
    .supervise 0 .pollReload, .supervise 0 .pollTerminate, .mainRecv, .mainJoin]

/-- A request accepted before the drop is executed when the pool has ended. -/
theorem served_request_executed :
    ∃ s t, ReachableVia (step .ofNull .single) (fun s a => sparesRequests .single s a = true)
        (init .basic .single) s ∧ s.calls 0 = .streaming ∧
      ReachableVia (step .ofNull .single) (fun s a => sparesRequests .single s a = true) s t ∧
      t.main = .exited ∧ t.Executed 0 := by
  have hrun : (runs (fun s a =>
        if sparesRequests .single s a then step .ofNull .single s a else none)
      (init .basic .single) (servedRun .basic ())).any (fun s => (s.calls 0).isStreaming &&
        (runs (fun s a =>
            if sparesRequests .single s a then step .ofNull .single s a else none)
          s (serveAndDrop .basic)).any fun t => t.main.isExited) = true := by
    decide
  obtain ⟨s, hs, htest⟩ := exists_reachableVia hrun
  rw [Bool.and_eq_true] at htest
  obtain ⟨t, ht, hexited⟩ := exists_reachableVia htest.2
  have hstreaming := CallStage.eq_of_isStreaming htest.1
  have hmain := MainPhase.eq_of_isExited hexited
  have hlistens : (s.calls 0).Listening := by rw [hstreaming]; trivial
  have hall := (drained_exits_lose_nothing .basic .ofNull .single s hs).2 0 hlistens t ht
  exact ⟨s, t, hs, hstreaming, ht, hmain, hall.2 hmain⟩

/-- A request is accepted, the pool is dropped and `pool_main` forwards the request to
the supervisor, which has booted its worker and polls the reload channel. -/
def lostRun (R : Runtime) (worker : R.Worker) : List (Action R) :=
  [.invoke (.executeStreamed "dispatch" .null none), .submit 0, .dropPool, .mainRecv,
    .mainForward, .supervise 0 .enterLoop, .supervise 0 (.spawned worker),
    .supervise 0 .pollReady, .supervise 0 .pollReload]

/-- The supervisor exits with the request in its inbox; `pool_main` returns and the
request was never executed. -/
theorem queued_request_lost :
    ∃ s t, Reachable (step .ofNull .single) (init .basic .single) s ∧ s.calls 0 = .streaming ∧
      (s.slots 0).phase.stopped = true ∧ (s.slots 0).inbox.length = 1 ∧
      Reachable (step .ofNull .single) s t ∧ t.main = .exited ∧ ¬t.Executed 0 := by
  have hrun : (runs (step .ofNull .single) (init .basic .single) (lostRun .basic ())).any
      (fun s => ((s.calls 0).isStreaming && (s.slots 0).phase.stopped &&
        decide ((s.slots 0).inbox.length = 1)) &&
        (runs (step .ofNull .single) s [.supervise 0 .pollTerminate, .mainRecv, .mainJoin]).any
          fun t => t.main.isExited && t.history.all fun e => !e.isExecution) = true := by
    decide
  obtain ⟨s, hs, htest⟩ := exists_reachable hrun
  rw [Bool.and_eq_true, Bool.and_eq_true, Bool.and_eq_true, decide_eq_true_eq] at htest
  obtain ⟨⟨⟨hstreaming, hstopped⟩, hinbox⟩, hlater⟩ := htest
  obtain ⟨t, ht, hend⟩ := exists_reachable hlater
  rw [Bool.and_eq_true] at hend
  refine ⟨s, t, hs, CallStage.eq_of_isStreaming hstreaming, hstopped, hinbox, ht,
    MainPhase.eq_of_isExited hend.1, ?_⟩
  rintro ⟨i, w, hmem⟩
  have hnot := List.all_eq_true.mp hend.2 _ hmem
  simp [Event.isExecution] at hnot

end Runs

end FolkCore.Pool
