import FolkCore.Lib.Transition
import Mathlib.Logic.Function.Basic

/-!
# The process around the servers

`start_server` may be called again, by `Folk\Server::start` or by an embedding program. Its
statics are set once (`OnceLock::set`), the worker state of the main thread at every call.
Servers are numbered by the calls that got past the current directory; a number stands for
the channels and the registry that the call creates, and for the runtime of its thread.
-/

namespace FolkCore.Ext

open Function Lib

/-- Where the thread `folk-tokio` of a server stands: the system refused it, it builds its
runtime, it panicked over that, it is past the set of `TOKIO_HANDLE`, `run` is going on, or the
runtime is dropped. -/
inductive ServerThread where
  | refused
  | building
  | failed
  | atBarrier
  | serving
  | stopped
  deriving DecidableEq, Repr

/-- The thread has a runtime, or had one. -/
def ServerThread.cameUp : ServerThread → Bool
  | .atBarrier => true
  | .serving => true
  | .stopped => true
  | _ => false

/-- The statics `PROJECT_ROOT`, `REGISTRY` and `TOKIO_HANDLE`, the server that the worker state
of the main thread is connected to, and the one at whose barrier the main thread stands. -/
structure Process where
  projectRoot : Option String
  registry : Option Nat
  tokioHandle : Option Nat
  mainWorker : Option Nat
  waiting : Option Nat
  count : Nat
  threads : Nat → ServerThread

/-- `OnceLock::set`: a second value is dropped. -/
def setOnce {α : Type} (cell : Option α) (value : α) : Option α := cell.or (some value)

namespace Process

def start : Process :=
  { projectRoot := none, registry := none, tokioHandle := none, mainWorker := none
    waiting := none, count := 0, threads := fun _ => .building }

/-- A call of `start_server` up to its barrier, with what the system answers; a step of a
server's thread; and the barrier, at which both go on. -/
inductive Action where
  | startServer (currentDir : Option String) (spawned : Bool)
  | build (i : Nat) (ok : Bool)
  | meet
  | stop (i : Nat)

/-- `start_server` up to its barrier: without a current directory nothing is done, and without
a thread the error comes after the statics were set. -/
def startServer (p : Process) (currentDir : Option String) (spawned : Bool) : Process :=
  match currentDir with
  | none => p
  | some dir =>
      { p with
        projectRoot := setOnce p.projectRoot dir
        mainWorker := some p.count
        registry := setOnce p.registry p.count
        count := p.count + 1
        threads := update p.threads p.count (if spawned then .building else .refused)
        waiting := if spawned then some p.count else none }

/-- The end of `Builder::build`: its `expect` panics before the barrier. -/
def build (p : Process) (i : Nat) (ok : Bool) : Process :=
  if ok then
    { p with
      tokioHandle := setOnce p.tokioHandle i
      threads := update p.threads i .atBarrier }
  else { p with threads := update p.threads i .failed }

def step (p : Process) : Action → Option Process
  | .startServer currentDir spawned =>
      if p.waiting = none then some (p.startServer currentDir spawned) else none
  | .build i ok =>
      if i < p.count ∧ p.threads i = .building then some (p.build i ok) else none
  | .meet =>
      match p.waiting with
      | some i =>
          if p.threads i = .atBarrier then
            some { p with waiting := none, threads := update p.threads i .serving }
          else none
      | none => none
  | .stop i =>
      if i < p.count ∧ p.threads i = .serving then
        some { p with threads := update p.threads i .stopped }
      else none

/-- `call_method`: the registry that it asks, and the runtime that drives the call. -/
def callMethod (p : Process) : Except String (Nat × Nat) :=
  match p.registry with
  | none => .error "server not started"
  | some registry =>
      match p.tokioHandle with
      | none => .error "runtime not available"
      | some handle => .ok (registry, handle)

/-- The numbers below `i` belong to calls that failed: the system refused the thread. -/
def Refused (p : Process) (i : Nat) : Prop := ∀ j < i, p.threads j = .refused

/-- The invariant: who set the statics, and which servers can be on their way. -/
structure Settled (p : Process) : Prop where
  registry : p.registry = if p.count = 0 then none else some 0
  mainWorker : p.mainWorker = if p.count = 0 then none else some (p.count - 1)
  waiting : ∀ i, p.waiting = some i → i + 1 = p.count
  pending : ∀ i < p.count, p.threads i = .building ∨ p.threads i = .failed ∨
    p.threads i = .atBarrier → p.waiting = some i
  unset : p.tokioHandle = none → ∀ i < p.count, (p.threads i).cameUp = false
  handle : ∀ i, p.tokioHandle = some i →
    i < p.count ∧ (p.threads i).cameUp = true ∧ p.Refused i

variable {p q : Process} {a : Action}

theorem Settled.start : Settled .start where
  registry := rfl
  mainWorker := rfl
  waiting i h := by cases h
  pending i h := absurd h (Nat.not_lt_zero i)
  unset _ i h := absurd h (Nat.not_lt_zero i)
  handle i h := by cases h

theorem Settled.startServer (h : p.Settled) (hwaiting : p.waiting = none)
    (currentDir : Option String) (spawned : Bool) : (p.startServer currentDir spawned).Settled := by
  cases currentDir with
  | none => exact h
  | some dir =>
      have old {i : Nat} (hi : i ≠ p.count) :
          (p.startServer (some dir) spawned).threads i = p.threads i := update_of_ne hi _ _
      have new : (p.startServer (some dir) spawned).threads p.count =
          if spawned then .building else .refused := update_self _ _ _
      refine ⟨?_, rfl, fun i hi => ?_, fun i hi hpending => ?_, fun hunset i hi => ?_,
        fun i hi => ?_⟩
      · show p.registry.or (some p.count) = some 0
        rw [h.registry]
        split
        · next hzero => simp [hzero]
        · rfl
      · cases spawned with
        | true =>
            cases hi
            rfl
        | false => cases hi
      · by_cases hnew : i = p.count
        · subst hnew
          rw [new] at hpending
          cases spawned with
          | true => rfl
          | false => simp at hpending
        · have hlt : i < p.count := Nat.lt_of_le_of_ne (Nat.le_of_lt_succ hi) hnew
          rw [old hnew] at hpending
          cases hwaiting.symm.trans (h.pending i hlt hpending)
      · by_cases hnew : i = p.count
        · subst hnew
          rw [new]
          cases spawned <;> rfl
        · rw [old hnew]
          exact h.unset hunset i (Nat.lt_of_le_of_ne (Nat.le_of_lt_succ hi) hnew)
      · obtain ⟨hlt, hup, hrefused⟩ := h.handle i hi
        refine ⟨Nat.lt_succ_of_lt hlt, by rwa [old (Nat.ne_of_lt hlt)], fun j hj => ?_⟩
        rw [old (Nat.ne_of_lt (Nat.lt_trans hj hlt))]
        exact hrefused j hj

/-- The main thread stands at the barrier of a server whose thread is not yet there, so that
all earlier calls have come to an end. -/
theorem Settled.alone (h : p.Settled) {i : Nat} (hwaiting : p.waiting = some i) {j : Nat}
    (hj : j < p.count) (hne : j ≠ i) :
    p.threads j = .refused ∨ p.threads j = .serving ∨ p.threads j = .stopped := by
  have hnot : ¬(p.threads j = .building ∨ p.threads j = .failed ∨ p.threads j = .atBarrier) := by
    intro hpending
    exact hne (Option.some.inj ((h.pending j hj hpending).symm.trans hwaiting))
  cases hthread : p.threads j <;> simp [hthread] at hnot ⊢

/-- A thread that was granted goes on. -/
theorem Settled.handle_kept (h : p.Settled) {i : Nat} {thread : ServerThread}
    (hgranted : p.threads i ≠ .refused)
    (hup : (p.threads i).cameUp = true → thread.cameUp = true) (k : Nat)
    (hk : p.tokioHandle = some k) : k < p.count ∧
      (update p.threads i thread k).cameUp = true ∧
      ∀ j < k, update p.threads i thread j = .refused := by
  obtain ⟨hlt, hup', hrefused⟩ := h.handle k hk
  refine ⟨hlt, ?_, fun j hj => ?_⟩
  · by_cases hne : k = i
    · subst hne
      rw [update_self]
      exact hup hup'
    · rwa [update_of_ne hne]
  · have hne : j ≠ i := by
      rintro rfl
      exact hgranted (hrefused j hj)
    rw [update_of_ne hne]
    exact hrefused j hj

theorem Settled.build (h : p.Settled) {i : Nat} (hi : i < p.count)
    (hthread : p.threads i = .building) (ok : Bool) : (p.build i ok).Settled := by
  have hwaiting := h.pending i hi (.inl hthread)
  have hgranted : p.threads i ≠ .refused := by simp [hthread]
  have hup {thread : ServerThread} : (p.threads i).cameUp = true → thread.cameUp = true := by
    simp [hthread, ServerThread.cameUp]
  have pending (thread : ServerThread) (j : Nat) (hj : j < p.count)
      (hpending : update p.threads i thread j = .building ∨
        update p.threads i thread j = .failed ∨ update p.threads i thread j = .atBarrier) :
      p.waiting = some j := by
    by_cases hne : j = i
    · exact hne ▸ hwaiting
    · rw [update_of_ne hne] at hpending
      exact h.pending j hj hpending
  cases ok with
  | false =>
      refine ⟨h.registry, h.mainWorker, h.waiting, pending .failed, fun hunset j hj => ?_,
        h.handle_kept hgranted hup⟩
      show (update p.threads i .failed j).cameUp = false
      by_cases hne : j = i
      · rw [hne, update_self]
        rfl
      · rw [update_of_ne hne]
        exact h.unset hunset j hj
  | true =>
      refine ⟨h.registry, h.mainWorker, h.waiting, pending .atBarrier, fun hunset => ?_,
        fun k hk => ?_⟩
      · have hset : p.tokioHandle.or (some i) = none := hunset
        cases hhandle : p.tokioHandle <;> simp [hhandle] at hset
      · have hset : p.tokioHandle.or (some i) = some k := hk
        cases hhandle : p.tokioHandle with
        | some k' =>
            obtain rfl : k' = k := by simpa [hhandle] using hset
            exact h.handle_kept hgranted hup k' hhandle
        | none =>
            -- the first runtime: no call before it was granted a thread
            obtain rfl : i = k := by simpa [hhandle] using hset
            refine ⟨hi, ?_, fun j hj => ?_⟩
            · show (update p.threads i .atBarrier i).cameUp = true
              rw [update_self]
              rfl
            have hne : j ≠ i := Nat.ne_of_lt hj
            have hlt : j < p.count := Nat.lt_trans hj hi
            have hdown := h.unset hhandle j hlt
            show update p.threads i .atBarrier j = .refused
            rw [update_of_ne hne]
            rcases h.alone hwaiting hlt hne with hrefused | hserving | hstopped
            · exact hrefused
            · simp [hserving, ServerThread.cameUp] at hdown
            · simp [hstopped, ServerThread.cameUp] at hdown

/-- A server that is up goes on. -/
theorem Settled.up (h : p.Settled) {i : Nat} {waiting : Option Nat} {thread : ServerThread}
    (hup : (p.threads i).cameUp = true) (hthread : thread = .serving ∨ thread = .stopped)
    (hwaiting : ∀ j, waiting = some j → p.waiting = some j)
    (hpending : ∀ j < p.count, j ≠ i → p.waiting = some j → waiting = some j) :
    ({ p with waiting, threads := update p.threads i thread } : Process).Settled := by
  have hgranted : p.threads i ≠ .refused := by
    intro hrefused
    simp [hrefused, ServerThread.cameUp] at hup
  have hup' : thread.cameUp = true := by rcases hthread with rfl | rfl <;> rfl
  refine ⟨h.registry, h.mainWorker, fun j hj => h.waiting j (hwaiting j hj), fun j hj hp => ?_,
    fun hunset j hj => ?_, h.handle_kept hgranted fun _ => hup'⟩
  · by_cases hne : j = i
    · subst hne
      change update p.threads j thread j = _ ∨ update p.threads j thread j = _ ∨
        update p.threads j thread j = _ at hp
      rw [update_self] at hp
      rcases hthread with rfl | rfl <;> simp at hp
    · refine hpending j hj hne (h.pending j hj ?_)
      change update p.threads i thread j = _ ∨ update p.threads i thread j = _ ∨
        update p.threads i thread j = _ at hp
      rwa [update_of_ne hne] at hp
  · by_cases hi : i < p.count
    · cases (h.unset hunset i hi).symm.trans hup
    · have hne : j ≠ i := by
        rintro rfl
        exact hi hj
      show (update p.threads i thread j).cameUp = false
      rw [update_of_ne hne]
      exact h.unset hunset j hj

theorem Settled.step (h : p.Settled) (hstep : p.step a = some q) : q.Settled := by
  cases a with
  | startServer currentDir spawned =>
      simp only [Process.step] at hstep
      split at hstep
      · next hwaiting =>
          cases hstep
          exact h.startServer hwaiting currentDir spawned
      · cases hstep
  | build i ok =>
      simp only [Process.step] at hstep
      split at hstep
      · next hguard =>
          cases hstep
          exact h.build hguard.1 hguard.2 ok
      · cases hstep
  | meet =>
      simp only [Process.step] at hstep
      split at hstep
      · next i hwaiting =>
          split at hstep
          · next hthread =>
              cases hstep
              refine h.up (by rw [hthread]; rfl) (.inl rfl) nofun fun j _ hne hj => ?_
              exact absurd (Option.some.inj (hj.symm.trans hwaiting)) hne
          · cases hstep
      · cases hstep
  | stop i =>
      simp only [Process.step] at hstep
      split at hstep
      · next hguard =>
          cases hstep
          exact h.up (by rw [hguard.2]; rfl) (.inr rfl) (fun _ => id) fun _ _ _ => id
      · cases hstep

theorem settled_of_reachable (h : Reachable step start p) : p.Settled :=
  h.invariant Settled .start fun _ _ _ hp _ hstep => hp.step hstep

/-- Main stands at the barrier of a server whose thread has panicked. -/
def Deadlocked (p : Process) (i : Nat) : Prop := p.waiting = some i ∧ p.threads i = .failed

theorem Deadlocked.step {i : Nat} (h : p.Deadlocked i) (hstep : p.step a = some q) :
    q.Deadlocked i ∧ q.count = p.count := by
  obtain ⟨hwaiting, hfailed⟩ := h
  cases a with
  | startServer currentDir spawned => simp [Process.step, hwaiting] at hstep
  | meet => simp [Process.step, hwaiting, hfailed] at hstep
  | build j ok =>
      simp only [Process.step] at hstep
      split at hstep
      · next hguard =>
          have hne : i ≠ j := by
            rintro rfl
            cases hguard.2.symm.trans hfailed
          cases hstep
          cases ok with
          | true => exact ⟨⟨hwaiting, (update_of_ne hne _ _).trans hfailed⟩, rfl⟩
          | false => exact ⟨⟨hwaiting, (update_of_ne hne _ _).trans hfailed⟩, rfl⟩
      · cases hstep
  | stop j =>
      simp only [Process.step] at hstep
      split at hstep
      · next hguard =>
          have hne : i ≠ j := by
            rintro rfl
            cases hguard.2.symm.trans hfailed
          cases hstep
          exact ⟨⟨hwaiting, (update_of_ne hne _ _).trans hfailed⟩, rfl⟩
      · cases hstep

/-- In every run of the process, with any number of calls of `start_server` and any answers of
the system: `folk_call` asks the registry of the first call, even if its server never came up,
and the main thread works for the last one. It fails exactly as long as no call was made, or
none was granted a runtime; the runtime that drives it is that of the first call that was
granted a thread. A runtime that cannot be built leaves the main thread at its barrier for
ever. -/
theorem folk_call_asks_first_server (p : Process) (h : Reachable step start p) :
    (p.callMethod = .error "server not started" ↔ p.count = 0) ∧
    (p.callMethod = .error "runtime not available" ↔
      0 < p.count ∧ ∀ i < p.count, (p.threads i).cameUp = false) ∧
    (∀ registry handle, p.callMethod = .ok (registry, handle) → registry = 0 ∧
      handle < p.count ∧ (p.threads handle).cameUp = true ∧ p.Refused handle) ∧
    (∀ i, p.mainWorker = some i → i + 1 = p.count) ∧
    (∀ i, p.Deadlocked i → ∀ q, Reachable step p q → q.Deadlocked i ∧ q.count = p.count) := by
  have hs := settled_of_reachable h
  have hregistry := hs.registry
  refine ⟨?_, ?_, ?_, ?_, ?_⟩
  · by_cases hzero : p.count = 0
    · simp [callMethod, hregistry, hzero]
    · cases hhandle : p.tokioHandle <;> simp [callMethod, hregistry, hzero, hhandle]
  · by_cases hzero : p.count = 0
    · simp [callMethod, hregistry, hzero]
    · cases hhandle : p.tokioHandle with
      | none =>
          have hdown := hs.unset hhandle
          simpa [callMethod, hregistry, hzero, hhandle, Nat.pos_iff_ne_zero] using hdown
      | some k =>
          obtain ⟨hlt, hup, _⟩ := hs.handle k hhandle
          simp only [callMethod, hregistry, hzero, if_false, hhandle]
          exact ⟨nofun, fun ⟨_, hdown⟩ => absurd hup (by simp [hdown k hlt])⟩
  · intro registry handle hcall
    by_cases hzero : p.count = 0
    · simp [callMethod, hregistry, hzero] at hcall
    · cases hhandle : p.tokioHandle with
      | none => simp [callMethod, hregistry, hzero, hhandle] at hcall
      | some k =>
          simp only [callMethod, hregistry, hzero, if_false, hhandle] at hcall
          cases hcall
          exact ⟨rfl, hs.handle _ hhandle⟩
  · intro i hi
    rw [hs.mainWorker] at hi
    split at hi
    · cases hi
    · cases hi
      omega
  · intro i hdead q hq
    refine hq.invariant (fun q => q.Deadlocked i ∧ q.count = p.count) ⟨hdead, rfl⟩ ?_
    rintro s b t ⟨hs, hcount⟩ _ hstep
    obtain ⟨ht, hcount'⟩ := hs.step hstep
    exact ⟨ht, hcount'.trans hcount⟩

/-- The system refused the thread of the first call. The second brings a server up, and
`folk_call` still asks the registry of the first, which no plugin has. -/
theorem second_server_not_asked :
    ∃ p, Reachable step start p ∧ p.threads 1 = .serving ∧ p.mainWorker = some 1 ∧
      p.callMethod = .ok (0, 1) ∧ p.Refused 1 := by
  have hrun : runs step start [.startServer (some "/srv/app") false,
      .startServer (some "/srv/app") true, .build 1 true, .meet] = some _ := rfl
  have hreach := reachable_of_runs hrun
  obtain ⟨_, _, _, hrefused⟩ := (folk_call_asks_first_server _ hreach).2.2.1 0 1 rfl
  exact ⟨_, hreach, rfl, rfl, rfl, hrefused⟩

end Process

end FolkCore.Ext
