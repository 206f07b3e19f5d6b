import FolkCore.Data.Protocol
import FolkCore.Lib.RwLock

/-!
# The method registry

`InProcessRegistry` keeps the handlers of the plugins by name, behind tokio's lock, which is
fair. A handler is asynchronous code that may itself call, register and list methods. `call`
drops its guard before it runs the handler, so a handler never runs under the lock.
-/

namespace FolkCore.Ext

open Function Lib Lib.RwLock

/-- The code of a handler or of a plugin, up to its calls of the registry: it returns, or it
goes on with what the call gave. Code that panics or is cancelled is dropped by its task. -/
inductive Program where
  | ret (r : Except String Bytes)
  | call (method : String) (payload : Bytes) (k : Except String Bytes → Program)
  | registerRaw (name : String) (handler : Bytes → Program) (k : Program)
  | methods (k : List String → Program)

abbrev RpcHandler := Bytes → Program

/-- `HashMap<String, RpcHandler>`. -/
abbrev Handlers := AList fun _ : String => RpcHandler

/-- A task: the code it runs, and the calls that wait for what this code returns. -/
structure RpcTask where
  program : Program
  frames : List (Except String Bytes → Program)

namespace RpcTask

/-- A handler returns to the call below it. -/
def own (t : RpcTask) (_ : Unit) : Option RpcTask :=
  match t.program, t.frames with
  | .ret r, k :: frames => some ⟨k r, frames⟩
  | _, _ => none

/-- `call`, `register_raw` and `methods` of `InProcessRegistry`, each under its guard. -/
def wants (t : RpcTask) : Option (Section Handlers RpcTask) :=
  match t.program with
  | .ret _ => none
  | .call method payload k =>
      some (.read fun handlers =>
        match handlers.lookup method with
        | none => ⟨k (.error ("method not found: " ++ method)), t.frames⟩
        | some handler => ⟨handler payload, k :: t.frames⟩)
  | .registerRaw name handler k =>
      some (.write fun handlers => (handlers.insert name handler, ⟨k, t.frames⟩))
  | .methods k => some (.read fun handlers => ⟨k handlers.keys, t.frames⟩)

/-- The task has returned to the code that started it. -/
def Finished (t : RpcTask) : Prop := t.frames = [] ∧ ∃ r, t.program = .ret r

end RpcTask

/-- `call_method`, given which of the statics `start_server` has set so far. -/
def callMethod (registry handle : Bool) (method : String) (payload : Bytes) : Program :=
  if registry then
    if handle then .call method payload .ret else .ret (.error "runtime not available")
  else .ret (.error "server not started")

/-- `folk_call` of a PHP thread, which blocks on the call. -/
def folkCall (registry handle : Bool) (method : String) (payload : Bytes) : RpcTask :=
  ⟨callMethod registry handle method payload,
    [fun r => .ret (r.mapError fun e => "folk_call(" ++ method ++ "): " ++ e)]⟩

/-- What the section of a task registers. -/
def RpcTask.puts (t : RpcTask) : Option (String × RpcHandler) :=
  match t.program with
  | .registerRaw name handler _ => some (name, handler)
  | _ => none

/-- The handler registered last under a name. -/
abbrev lastRegistered (method : String) (log : List (Turn Handlers RpcTask)) :
    Option RpcHandler :=
  lastPut RpcTask.puts method log

/-- What a call finds is what was registered last. -/
theorem lookup_registered (method : String) (log : List (Turn Handlers RpcTask)) :
    (replay RpcTask.wants ∅ log).lookup method = lastRegistered method log := by
  apply lookup_replay
  · intro task sec handlers hwants
    cases hprogram : task.program <;>
      simp only [RpcTask.wants, hprogram, Option.some.injEq, reduceCtorEq] at hwants <;>
      simp [← hwants, RpcTask.puts, hprogram, Section.result]
  · intro task hwants
    cases hprogram : task.program <;> simp [RpcTask.wants, hprogram] at hwants
    simp [RpcTask.puts, hprogram]

/-- The registry with its tasks. -/
abbrev RegistryState := RwLock.State Handlers RpcTask

abbrev registryStep : RegistryState → RwLock.Action RpcTask Unit → Option RegistryState :=
  RwLock.step RpcTask.own RpcTask.wants

/-- What a call becomes, given the handler that it finds. -/
def RpcTask.called (t : RpcTask) (method : String) (payload : Bytes)
    (k : Except String Bytes → Program) : Option RpcHandler → RpcTask
  | none => ⟨k (.error ("method not found: " ++ method)), t.frames⟩
  | some handler => ⟨handler payload, k :: t.frames⟩

/-- In every run, with any tasks that call and register methods and with handlers that do so
themselves, every call runs the handler registered last under its name, or fails because
none was, and `methods` lists exactly the names registered. -/
theorem calls_find_last_registered (s : RegistryState)
    (h : Reachable registryStep (RwLock.init ∅) s) (before after : List (Turn Handlers RpcTask))
    (turn : Turn Handlers RpcTask) (hlog : s.log = before ++ turn :: after) :
    (∀ method payload k, turn.task.program = .call method payload k →
      (turn.task.wants.map fun sec => sec.next turn.content) =
        some (turn.task.called method payload k (lastRegistered method before))) ∧
    ∀ k, turn.task.program = .methods k →
      ∃ names : List String, names.Nodup ∧
        (∀ name, name ∈ names ↔ (lastRegistered name before).isSome = true) ∧
        (turn.task.wants.map fun sec => sec.next turn.content) =
          some ⟨k names, turn.task.frames⟩ := by
  have hcontent : turn.content = replay RpcTask.wants ∅ before :=
    (sound_of_reachable h).serial before turn after hlog
  constructor
  · intro method payload k hcall
    have hfound : turn.content.lookup method = lastRegistered method before := by
      rw [hcontent, lookup_registered]
    rw [← hfound]
    simp only [RpcTask.wants, hcall, Option.map_some, Section.next]
    cases turn.content.lookup method <;> rfl
  · intro k hmethods
    refine ⟨turn.content.keys, turn.content.keys_nodup, ?_, ?_⟩
    · intro name
      rw [← lookup_registered, ← hcontent, AList.lookup_isSome, AList.mem_keys]
    · simp only [RpcTask.wants, hmethods, Option.map_some, Section.next]

/-- A plugin registers `ping`, whose handler registers `pong`. -/
def registerPing : RpcTask :=
  ⟨.registerRaw "ping" (fun payload =>
    .registerRaw "pong" (fun payload => .ret (.ok payload)) (.ret (.ok payload))) (.ret (.ok [])),
    []⟩

/-- A PHP thread calls `ping`, and the handler is about to register `pong`. -/
def pingRun : List (RwLock.Action RpcTask Unit) :=
  [.start 0 registerPing, .ask 0, .grant, .leave 0, .start 1 (folkCall true true "ping" [7]),
    .ask 1, .grant, .leave 1, .ask 1]

def Program.isCall : Program → Bool
  | .call _ _ _ => true
  | _ => false

theorem Program.exists_of_isCall {p : Program} (h : p.isCall = true) :
    ∃ method payload k, p = .call method payload k := by
  cases p with
  | call method payload k => exact ⟨method, payload, k, rfl⟩
  | _ => cases h

/-- The call of `ping` runs the handler that the turn before registered. -/
theorem ping_found :
    ∃ (s : RegistryState) (first last : Turn Handlers RpcTask),
      Reachable registryStep (RwLock.init ∅) s ∧ s.log = [first, last] ∧
      ∃ method payload k, last.task.program = .call method payload k ∧
        (last.task.wants.map fun sec => sec.next last.content) =
          some (last.task.called method payload k (lastRegistered method [first])) := by
  have hrun : (runs registryStep (RwLock.init ∅) pingRun).any (fun s =>
      s.log.length == 2 && s.log.getLast?.any fun turn => turn.task.program.isCall) = true := by
    decide
  obtain ⟨s, hs, htest⟩ := exists_reachable hrun
  rw [Bool.and_eq_true, beq_iff_eq] at htest
  obtain ⟨first, last, hlog⟩ := List.length_eq_two.mp htest.1
  have hcall : last.task.program.isCall = true := by simpa [hlog] using htest.2
  obtain ⟨method, payload, k, hprogram⟩ := Program.exists_of_isCall hcall
  exact ⟨s, first, last, hs, hlog, method, payload, k, hprogram,
    (calls_find_last_registered s hs [first] [] last hlog).1 method payload k hprogram⟩

/-- A task that is not finished goes on, whatever the other tasks do: its own step, or the
end of its call of the registry. -/
def RpcTask.Follows (t' t : RpcTask) : Prop :=
  t.own () = some t' ∨ ∃ sec seen, t.wants = some sec ∧ t' = sec.next seen

/-- The steps of the lock, and those of one task. -/
def ofLockOr (i : Nat) : RwLock.Action RpcTask Unit → Bool
  | .own j _ => i == j
  | .ask j => i == j
  | a => a.ofLock

theorem ofLockOr_of_ofLock {i : Nat} {a : RwLock.Action RpcTask Unit} (h : a.ofLock = true) :
    ofLockOr i a = true := by
  cases a with
  | grant | leave => rfl
  | _ => cases h

/-- Code that wants nothing from the registry returns. -/
theorem RpcTask.own_of_wants_none {t : RpcTask} (h : t.wants = none) (hopen : ¬t.Finished) :
    ∃ t', t.own () = some t' := by
  match t with
  | ⟨.ret r, []⟩ => exact absurd ⟨rfl, r, rfl⟩ hopen
  | ⟨.ret r, k :: frames⟩ => exact ⟨_, rfl⟩
  | ⟨.call _ _ _, _⟩ | ⟨.registerRaw _ _ _, _⟩ | ⟨.methods _, _⟩ => cases h

/-- No reachable state has a deadlock, however handlers call and register methods while they
run: a task that is not finished comes to its next point by its own steps, those of the lock
and those of the guards and waiters before it alone. -/
theorem registry_never_deadlocks (s : RegistryState)
    (h : Reachable registryStep (RwLock.init ∅) s) (i : Nat) (task : RpcTask)
    (st : Standing Handlers) (hi : s.tasks i = some (task, st)) (hopen : ¬task.Finished) :
    ∃ actions t task', actions.length ≤ s.guards.length + 2 * s.queue.length + 4 ∧
      (∀ a ∈ actions, ofLockOr i a = true) ∧ runs registryStep s actions = some t ∧
      t.tasks i = some (task', .outside) ∧ task'.Follows task := by
  have hsound : Sound RpcTask.wants ∅ s := sound_of_reachable h
  -- the end of a call that waits or is under its guard
  have finish {u : RegistryState} (hu : Sound RpcTask.wants ∅ u) {st : Standing Handlers}
      {sec : Section Handlers RpcTask} (hui : u.tasks i = some (task, st)) (hst : st ≠ .outside)
      (hwants : task.wants = some sec) :
      ∃ actions t task', actions.length ≤ u.guards.length + 2 * u.queue.length + 1 ∧
        (∀ a ∈ actions, ofLockOr i a = true) ∧ runs registryStep u actions = some t ∧
        t.tasks i = some (task', .outside) ∧ task'.Follows task := by
    obtain ⟨actions, t, seen, hlength, hlock, hrun, hout⟩ := hu.finishes hui hst hwants
    exact ⟨actions, t, _, hlength, fun a ha => ofLockOr_of_ofLock (hlock a ha), hrun, hout,
      .inr ⟨sec, seen, hwants, rfl⟩⟩
  cases hwants : task.wants with
  | none =>
      obtain ⟨task', hown⟩ := RpcTask.own_of_wants_none hwants hopen
      have hst : st = .outside := by simpa [hwants] using hsound.wanting i task st hi
      subst hst
      refine ⟨[.own i ()], { s with tasks := update s.tasks i (some (task', .outside)) }, task',
        by simp, by simp [ofLockOr], ?_, update_self _ _ _, .inl hown⟩
      simp [registryStep, RwLock.step, hi, hown]
  | some sec =>
      by_cases hst : st = .outside
      · subst hst
        have hask : registryStep s (.ask i) = some { s with
            queue := s.queue ++ [(i, sec.access)]
            tasks := update s.tasks i (some (task, .waiting)) } := by
          simp [registryStep, RwLock.step, hi, hwants]
        obtain ⟨actions, t, task', hlength, hallowed, hrun, hout, hfollows⟩ :=
          finish (hsound.asked hi hwants) (update_self _ _ _) (by simp) hwants
        refine ⟨.ask i :: actions, t, task', ?_, ?_, by simpa [hask] using hrun, hout, hfollows⟩
        · simp only [List.length_append, List.length_singleton] at hlength
          rw [List.length_cons]
          omega
        · simpa [ofLockOr] using hallowed
      · obtain ⟨actions, t, task', hlength, hrest⟩ := finish hsound hi hst hwants
        exact ⟨actions, t, task', by omega, hrest⟩

/-- The handler of `ping`, run by the call of a PHP thread, waits for the lock to register
`pong`; the registration comes to its end. -/
theorem handler_registers :
    ∃ s : RegistryState, Reachable registryStep (RwLock.init ∅) s ∧
      ∃ task st, s.tasks 1 = some (task, st) ∧ task.frames.length = 2 ∧
        ∃ actions t task', actions.length ≤ s.guards.length + 2 * s.queue.length + 4 ∧
          (∀ a ∈ actions, ofLockOr 1 a = true) ∧ runs registryStep s actions = some t ∧
          t.tasks 1 = some (task', .outside) ∧ task'.Follows task := by
  have hrun : (runs registryStep (RwLock.init ∅) pingRun).any (fun s =>
      (s.tasks 1).any fun entry => entry.1.frames.length == 2) = true := by decide
  obtain ⟨s, hs, htest⟩ := exists_reachable hrun
  obtain ⟨⟨task, st⟩, hi, hframes⟩ := (Option.any_eq_true _ _).mp htest
  have hlength : task.frames.length = 2 := by simpa using hframes
  have hopen : ¬task.Finished := by
    rintro ⟨hnone, _⟩
    simp [hnone] at hlength
  exact ⟨s, hs, task, st, hi, hlength, registry_never_deadlocks s hs 1 task st hi hopen⟩

end FolkCore.Ext
