import FolkCore.Pool.Replies

/-!
# Permits

A permit of the semaphore travels inside a `DispatchRequest` from the caller to the
supervisor that executes it. It returns when the value is dropped: by the caller,
by `pool_main`, with an inbox, at the end of an execution or by unwinding. Free
permits and those in use add up to `config.count` in every reachable state.
-/

namespace FolkCore.Pool

open Function Finset

variable {R : Runtime} {serde : SerdeJson} {cfg : WorkersConfig} {s t : State R}

/-- A supervisor keeps the permit of a request until its execution has settled. -/
def Phase.inUse : Phase → Nat
  | .dispatching _ _ => 1
  | .executing _ _ => 1
  | _ => 0

/-- The permits of a slot: those of its inbox and that of the request in execution. -/
def Slot.inUse (slot : Slot) : Nat := slot.inbox.length + slot.phase.inUse

/-- The permits in use: with callers that have not sent their request, in the request
channel, in the hands of `pool_main`, and in the slots. -/
def State.inUse (cfg : WorkersConfig) (s : State R) : Nat :=
  ∑ k ∈ range s.callCount, (s.calls k).requests.length + s.requestCh.length +
    s.main.requests.length + ∑ i ∈ range cfg.count, (s.slots i).inUse

/-- The permits that a command returns. -/
def Command.returned : Command R → Nat
  | .discard reqs => reqs.length
  | .release => 1
  | _ => 0

theorem State.perform_permits (s : State R) (c : Command R) :
    (s.perform c).permits = s.permits + c.returned := by
  cases c <;> rfl

theorem State.foldl_permits (commands : List (Command R)) (s : State R) :
    (commands.foldl State.perform s).permits =
      s.permits + (commands.map Command.returned).sum := by
  induction commands generalizing s with
  | nil => rfl
  | cons c rest ih =>
      rw [List.foldl_cons, ih, State.perform_permits, List.map_cons, List.sum_cons, add_assoc]

@[simp] theorem State.supervise_permits (s : State R) (i : Nat)
    (r : Slot × List (Command R)) :
    (s.supervise i r).permits = s.permits + (r.2.map Command.returned).sum :=
  State.foldl_permits r.2 { s with slots := update s.slots i r.1 }

/-- A supervisor's step keeps its permits or returns them. -/
theorem Slot.Move.inUse {i : Nat} {v : View R} {slot slot' : Slot} {a : SupervisorAction R}
    {commands : List (Command R)} (move : Slot.Move cfg i v slot a slot' commands) :
    slot'.inUse + (commands.map Command.returned).sum = slot.inUse := by
  cases move with
  | took hphase _ _ hinbox =>
      simp [Slot.inUse, Phase.inUse, Command.returned, hphase, hinbox]
  | spawnPanicked hphase | bootPanicked hphase | unreachable hphase | exited hphase
  | terminatePanicked hphase =>
      simp [Slot.inUse, Phase.inUse, Command.returned, hphase]
  | executePanicked hphase =>
      simp [Slot.inUse, Phase.inUse, Command.returned, hphase, Nat.add_comm]
  | boot hphase | listen hphase | spawned hphase | spawnFailed hphase | booted hphase
  | bootFailed hphase | wake hphase | reloaded hphase | caughtUp hphase | noReload hphase
  | reloadClosed hphase | inboxEmpty hphase | inboxClosed hphase | execute hphase
  | settled hphase | recycled hphase | kept hphase | bootAbandoned hphase | replaced hphase =>
      simp [Slot.inUse, Phase.inUse, Command.returned, hphase]

/-- A call that changes its stage moves its permit to the request channel or back to
the semaphore. -/
theorem State.permits_call {k : Nat} (hk : k < s.callCount) {stage : CallStage}
    (hcalls : t.calls = update s.calls k stage) (hcount : t.callCount = s.callCount)
    (hmain : t.main = s.main) (hslots : t.slots = s.slots)
    (hpermit : t.permits + stage.requests.length + t.requestCh.length =
      s.permits + (s.calls k).requests.length + s.requestCh.length) :
    t.permits + t.inUse cfg = s.permits + s.inUse cfg := by
  have hsum := Lib.sum_replace s.calls (fun c => c.requests.length) hk stage
  simp only [State.inUse, hcalls, hcount, hmain, hslots]
  omega

/-- Replacing a slot moves the permits of that slot and of `pool_main`. -/
theorem State.inUse_slot {i : Nat} (hi : i < cfg.count) {slot' : Slot}
    (hcalls : t.calls = s.calls) (hcount : t.callCount = s.callCount)
    (hch : t.requestCh = s.requestCh) (hslots : t.slots = update s.slots i slot') :
    t.inUse cfg + s.main.requests.length + (s.slots i).inUse =
      s.inUse cfg + t.main.requests.length + slot'.inUse := by
  have hsum := Lib.sum_replace s.slots Slot.inUse hi slot'
  simp only [State.inUse, hcalls, hcount, hch, hslots]
  omega

variable (cfg) in
/-- A new call adds its own permits. -/
theorem State.inUse_new {stage : CallStage}
    (hcalls : t.calls = update s.calls s.callCount stage)
    (hcount : t.callCount = s.callCount + 1) (hch : t.requestCh = s.requestCh)
    (hmain : t.main = s.main) (hslots : t.slots = s.slots) :
    t.inUse cfg = s.inUse cfg + stage.requests.length := by
  have hold : ∑ k ∈ range s.callCount, (update s.calls s.callCount stage k).requests.length =
      ∑ k ∈ range s.callCount, (s.calls k).requests.length := by
    apply sum_congr rfl
    intro k hk
    rw [update_of_ne (mem_range.mp hk).ne]
  simp only [State.inUse, hcalls, hcount, hch, hmain, hslots, sum_range_succ, hold, update_self]
  omega

/-- A step moves permits between places and the semaphore without loss or gain. -/
theorem Move.permits (hticketed : Ticketed cfg s) {a : Action R}
    (move : Move serde cfg s a t) :
    t.permits + t.inUse cfg = s.permits + s.inUse cfg := by
  have known {k : Nat} (hborn : s.calls k ≠ .unborn) : k < s.callCount := hticketed.known hborn
  cases move with
  | @refused _ e _ =>
      have hnew := State.inUse_new cfg (s := s)
        (t := { s with callCount := s.callCount + 1 }.answer s.callCount (.error e))
        rfl rfl rfl rfl rfl
      simpa [CallStage.requests] using congrArg (s.permits + ·) hnew
  | @opened _ kind req _ hpermit _ _ _ =>
      have hnew := State.inUse_new cfg (s := s)
        (t := ({ s with permits := s.permits - 1, callCount := s.callCount + 1 }.setStream
          s.callCount ⟨none, true, true, []⟩).setCall s.callCount (.sending kind req))
        rfl rfl rfl rfl rfl
      rw [hnew]
      simp only [State.setCall, State.setStream, CallStage.requests_sending, List.length_singleton]
      omega
  | @poolGone k kind req hcall _ =>
      refine State.permits_call (known (k := k) (by simp [hcall])) rfl rfl rfl rfl ?_
      simp [hcall, CallStage.requests]
  | @submitted k kind req hcall _ =>
      have hlisten : kind.listen.requests = [] := by cases kind <;> rfl
      refine State.permits_call (known (k := k) (by simp [hcall])) rfl rfl rfl rfl ?_
      simp only [hlisten, hcall, CallStage.requests_sending, State.setCall, List.length_append,
        List.length_singleton, List.length_nil]
      omega
  | @collected k _ _ _ _ _ hcall _ _ | @judged k _ _ _ _ _ hcall _ _
  | @exhausted k _ _ hcall _ _ | @withdrawn k _ _ hcall =>
      refine State.permits_call (known (k := k) (by simp [hcall])) rfl rfl rfl rfl ?_
      simp [hcall, CallStage.requests]
  | @cancelled k hcall =>
      have hborn : s.calls k ≠ .unborn := by
        intro heq
        rw [heq] at hcall
        exact hcall
      refine State.permits_call (known hborn) rfl rfl rfl rfl ?_
      cases hstage : s.calls k <;> simp [hstage, CallStage.Listening] at hcall <;>
        simp [CallStage.requests]
  | streamed _ _ | reloaded _ | poolDropped _ _ | ticked | worked _ _ | pushed _ _ _ _ _ _
  | pushLost _ _ _ _ _ | closed _ _ _ _ => rfl
  | mainTook hmain hch =>
      simp only [State.inUse, hmain, hch, MainPhase.requests, List.length_cons, List.length_nil]
      omega
  | mainLeft hmain _ _ | skipped hmain _ _ | buried hmain _ _ _ | joined hmain _ =>
      simp [State.inUse, hmain, MainPhase.requests]
  | @delivered req attempt hmain hattempt _ _ _ =>
      have hslot := State.inUse_slot (s := s)
        (t := deliver s ((s.next + attempt) % cfg.count) req)
        (Nat.mod_lt _ (Nat.zero_lt_of_lt hattempt)) rfl rfl rfl rfl
      simp only [hmain, MainPhase.requests, Slot.inUse, List.length_append, List.length_singleton,
        List.length_nil, deliver, State.note] at hslot ⊢
      omega
  | abandoned hmain _ =>
      simp only [State.inUse, State.discard, hmain, MainPhase.requests, List.length_singleton,
        List.length_nil]
      omega
  | @supervised i _ r hi _ move =>
      have hslot := State.inUse_slot (s := s) (t := s.supervise i r) hi
        (s.supervise_calls i r) (s.supervise_callCount i r) (s.supervise_requestCh i r)
        (s.supervise_slots i r)
      have hmove := move.inUse
      rw [State.supervise_main] at hslot
      rw [State.supervise_permits]
      omega

/-- The invariant: requests have tickets, and the permits add up. -/
structure Metered (cfg : WorkersConfig) (s : State R) : Prop where
  ticketed : Ticketed cfg s
  sum : s.permits + s.inUse cfg = cfg.count

theorem Metered.init (R : Runtime) (cfg : WorkersConfig) : Metered cfg (init R cfg) where
  ticketed := Ticketed.init R cfg
  sum := by simp [State.inUse, Pool.init, MainPhase.requests, Slot.inUse, Slot.start, Phase.inUse]

theorem Metered.step (h : Metered cfg s) {a : Action R} (move : Move serde cfg s a t) :
    Metered cfg t where
  ticketed := h.ticketed.step move
  sum := (move.permits h.ticketed).trans h.sum

/-- In every reachable state, free permits and permits in use add up to the
configured count. -/
theorem permits_conserved (R : Runtime) (serde : SerdeJson) (cfg : WorkersConfig) (s : State R)
    (h : Lib.Reachable (step serde cfg) (init R cfg) s) :
    s.permits + s.inUse cfg = cfg.count := by
  have hmetered : Metered cfg s :=
    h.invariant (Metered cfg) (Metered.init R cfg) fun _ _ _ hs _ hstep =>
      hs.step (step_move hstep)
  exact hmetered.sum

/-- A request in an inbox of a pool of two holds one of the two permits. -/
theorem inbox_holds_permit :
    ∃ s, Lib.Reachable (step .ofNull .pair) (init .basic .pair) s ∧
      (s.slots 0).inbox.length = 1 ∧ s.permits = 1 ∧ s.permits + s.inUse .pair = 2 := by
  have hrun : (Lib.runs (step .ofNull .pair) (init .basic .pair)
      [.invoke (.executeValue "dispatch" .null), .submit 0, .mainRecv, .mainForward]).any
        (fun s => decide ((s.slots 0).inbox.length = 1) && decide (s.permits = 1)) = true := by
    decide
  obtain ⟨s, hs, htest⟩ := Lib.exists_reachable hrun
  rw [Bool.and_eq_true, decide_eq_true_eq, decide_eq_true_eq] at htest
  exact ⟨s, hs, htest.1, htest.2, permits_conserved .basic .ofNull .pair s hs⟩

end FolkCore.Pool
