import FolkCore.Pool.System
import FolkCore.Pool.SupervisorMoves

/-!
# What the commands of a supervisor change

A supervisor's step writes its slot and then performs commands. They leave the
callers, `pool_main` and the clock alone (`Frame`), touch a stream only when its
sender is handed out or dropped, and append to the history.
-/

namespace FolkCore.Pool

open Function

variable {R : Runtime} {cfg : WorkersConfig}

/-- The part of the state that no command writes. -/
structure Frame where
  now : Nat
  poolOpen : Bool
  generation : Nat
  requestCh : List DispatchRequest
  main : MainPhase
  next : Nat
  dead : Nat → Bool
  slots : Nat → Slot
  calls : Nat → CallStage
  callCount : Nat

namespace Command

/-- The streams whose sender leaves the pool with the command. -/
def gone : Command R → List StreamTx
  | .hand _ tx _ => [tx]
  | .discard reqs => reqs.map DispatchRequest.streamTx
  | _ => []

def noted : Command R → Option Event
  | .note e => some e
  | _ => none

end Command

namespace State

def frame (s : State R) : Frame :=
  ⟨s.now, s.poolOpen, s.generation, s.requestCh, s.main, s.next, s.dead, s.slots, s.calls,
    s.callCount⟩

theorem perform_frame (s : State R) (c : Command R) : (s.perform c).frame = s.frame := by
  cases c with
  | setWorker w h => rfl
  | spawn h => rfl
  | hand w tx kept => rfl
  | discard reqs => rfl
  | release => rfl
  | note e => rfl

theorem foldl_frame (commands : List (Command R)) (s : State R) :
    (commands.foldl perform s).frame = s.frame := by
  induction commands generalizing s with
  | nil => rfl
  | cons c rest ih => rw [List.foldl_cons, ih, perform_frame]

theorem perform_history (s : State R) (c : Command R) :
    (s.perform c).history = s.history ++ c.noted.toList := by
  cases c with
  | note e => rfl
  | _ => simp [perform, Command.noted, discard, setStream]

theorem foldl_history (commands : List (Command R)) (s : State R) :
    (commands.foldl perform s).history = s.history ++ commands.filterMap Command.noted := by
  induction commands generalizing s with
  | nil => simp
  | cons c rest ih =>
      rw [List.foldl_cons, ih, perform_history]
      cases hc : c.noted with
      | none => simp [hc]
      | some e => simp [hc]

/-- A command that does not move the sender of a stream leaves the stream alone. -/
theorem perform_streams (s : State R) (c : Command R) {tx : StreamTx} (h : tx ∉ c.gone) :
    (s.perform c).streams tx = s.streams tx := by
  cases c with
  | hand w tx' kept =>
      have hne : tx ≠ tx' := by simpa [Command.gone] using h
      simp [perform, setStream, hne]
  | discard reqs =>
      simp only [Command.gone] at h
      simp only [perform, discard, if_neg h]
  | _ => rfl

theorem foldl_streams (commands : List (Command R)) (s : State R) {tx : StreamTx}
    (h : ∀ c ∈ commands, tx ∉ c.gone) :
    (commands.foldl perform s).streams tx = s.streams tx := by
  induction commands generalizing s with
  | nil => rfl
  | cons c rest ih =>
      have hrest : ∀ c ∈ rest, tx ∉ c.gone := fun c' hc' => h c' (List.mem_cons_of_mem c hc')
      rw [List.foldl_cons, ih _ hrest]
      exact perform_streams s c (h c List.mem_cons_self)

section Supervise

variable (s : State R) (i : Nat) (r : Slot × List (Command R))

theorem supervise_frame :
    (s.supervise i r).frame = { s.frame with slots := update s.slots i r.1 } :=
  foldl_frame r.2 { s with slots := update s.slots i r.1 }

@[simp] theorem supervise_now : (s.supervise i r).now = s.now :=
  congrArg Frame.now (s.supervise_frame i r)

@[simp] theorem supervise_poolOpen : (s.supervise i r).poolOpen = s.poolOpen :=
  congrArg Frame.poolOpen (s.supervise_frame i r)

@[simp] theorem supervise_generation : (s.supervise i r).generation = s.generation :=
  congrArg Frame.generation (s.supervise_frame i r)

@[simp] theorem supervise_requestCh : (s.supervise i r).requestCh = s.requestCh :=
  congrArg Frame.requestCh (s.supervise_frame i r)

@[simp] theorem supervise_main : (s.supervise i r).main = s.main :=
  congrArg Frame.main (s.supervise_frame i r)

@[simp] theorem supervise_next : (s.supervise i r).next = s.next :=
  congrArg Frame.next (s.supervise_frame i r)

@[simp] theorem supervise_dead : (s.supervise i r).dead = s.dead :=
  congrArg Frame.dead (s.supervise_frame i r)

@[simp] theorem supervise_slots : (s.supervise i r).slots = update s.slots i r.1 :=
  congrArg Frame.slots (s.supervise_frame i r)

@[simp] theorem supervise_calls : (s.supervise i r).calls = s.calls :=
  congrArg Frame.calls (s.supervise_frame i r)

@[simp] theorem supervise_callCount : (s.supervise i r).callCount = s.callCount :=
  congrArg Frame.callCount (s.supervise_frame i r)

@[simp] theorem supervise_history :
    (s.supervise i r).history = s.history ++ r.2.filterMap Command.noted :=
  foldl_history r.2 { s with slots := update s.slots i r.1 }

theorem supervise_streams {tx : StreamTx} (h : ∀ c ∈ r.2, tx ∉ c.gone) :
    (s.supervise i r).streams tx = s.streams tx :=
  foldl_streams r.2 { s with slots := update s.slots i r.1 } h

end Supervise

end State

end FolkCore.Pool
