import FolkCore.Lib.RwLock

/-!
# The health registry

`HealthRegistryImpl` keeps the health checks of the plugins by name, behind tokio's lock.
`check_all` copies the checks under its guard, drops the guard, and then runs them all at
once; they may end in any order, and plugins may register meanwhile.
-/

namespace FolkCore.Plugins

open Function Lib Lib.RwLock

variable {C S : Type*}

/-- One future of `join_all`: a check that runs, or the status it gave. -/
structure CheckFuture (C S : Type*) where
  name : String
  check : C
  status : Option S

/-- `HashMap<String, HealthCheckFn>`. -/
abbrev Checks (C : Type*) := AList fun _ : String => C

/-- A task of the registry, a call of `register` or of `check_all`. -/
inductive HealthTask (C S : Type*) where
  | register (pluginName : String) (check : C)
  | registered
  | checkAll
  | joining (futures : List (CheckFuture C S))
  | reported (statuses : AList fun _ : String => S)

/-- What a task does by itself: the `j`-th check ends with a status, or all have ended and
the statuses are collected. -/
inductive Joining (S : Type*) where
  | complete (j : Nat) (status : S)
  | collect

namespace HealthTask

def own : HealthTask C S → Joining S → Option (HealthTask C S)
  | .joining futures, .complete j status =>
      match futures[j]? with
      | some ⟨name, check, none⟩ => some (.joining (futures.set j ⟨name, check, some status⟩))
      | _ => none
  | .joining futures, .collect =>
      if futures.all fun f => f.status.isSome then
        some (.reported (futures.filterMap fun f => f.status.map fun s => ⟨f.name, s⟩).toAList)
      else none
  | _, _ => none

/-- `register` inserts under the write guard; `check_all` takes its snapshot under the read
guard. -/
def wants : HealthTask C S → Option (Section (Checks C) (HealthTask C S))
  | .register pluginName check =>
      some (.write fun checks => (checks.insert pluginName check, .registered))
  | .checkAll =>
      some (.read fun checks => .joining (checks.entries.map fun e => ⟨e.1, e.2, none⟩))
  | _ => none

def puts : HealthTask C S → Option (String × C)
  | .register pluginName check => some (pluginName, check)
  | _ => none

end HealthTask

/-- The check registered last under a name. -/
abbrev lastCheck (pluginName : String) (log : List (Turn (Checks C) (HealthTask C S))) :
    Option C :=
  lastPut HealthTask.puts pluginName log

abbrev HealthState (C S : Type*) := RwLock.State (Checks C) (HealthTask C S)

abbrev healthStep : HealthState C S → RwLock.Action (HealthTask C S) (Joining S) →
    Option (HealthState C S) :=
  RwLock.step HealthTask.own HealthTask.wants

section Reports

variable {gives : C → S → Prop} {s t : HealthState C S} {i : Nat}
  {log : List (Turn (Checks C) (HealthTask C S))}

/-- A step is honest when a check ends with a status it can give, and a task starts with a
call. -/
def Honest (gives : C → S → Prop) (s : HealthState C S) :
    RwLock.Action (HealthTask C S) (Joining S) → Prop
  | .start _ task => task = .checkAll ∨ ∃ pluginName check, task = .register pluginName check
  | .own i (.complete j status) => ∀ futures st f, s.tasks i = some (.joining futures, st) →
      futures[j]? = some f → gives f.check status
  | _ => True

/-- What holds of the checks that the snapshot of a task has copied. -/
def FromSnapshot (i : Nat) (log : List (Turn (Checks C) (HealthTask C S)))
    (holds : Checks C → Prop) : Prop :=
  ∃ before turn after, log = before ++ turn :: after ∧ turn.id = i ∧ turn.task = .checkAll ∧
    holds turn.content

theorem FromSnapshot.snoc {holds : Checks C → Prop} (h : FromSnapshot i log holds)
    (turn : Turn (Checks C) (HealthTask C S)) : FromSnapshot i (log ++ [turn]) holds := by
  obtain ⟨before, first, after, rfl, hrest⟩ := h
  exact ⟨before, first, after ++ [turn], by simp, hrest⟩

/-- The futures are the checks of the snapshot, and those that have ended gave their status. -/
def Runs (gives : C → S → Prop) (futures : List (CheckFuture C S)) (checks : Checks C) : Prop :=
  (futures.map fun f => (⟨f.name, f.check⟩ : Sigma fun _ : String => C)) = checks.entries ∧
    ∀ f ∈ futures, ∀ status, f.status = some status → gives f.check status

/-- One status for each check, which the check gave. -/
def Answers (gives : C → S → Prop) (statuses : AList fun _ : String => S) (checks : Checks C) :
    Prop :=
  ∀ pluginName, (checks.lookup pluginName = none ∧ statuses.lookup pluginName = none) ∨
    ∃ check status, checks.lookup pluginName = some check ∧
      statuses.lookup pluginName = some status ∧ gives check status

/-- The invariant of a task. -/
def Explained (gives : C → S → Prop) (i : Nat) (log : List (Turn (Checks C) (HealthTask C S))) :
    HealthTask C S → Prop
  | .joining futures => FromSnapshot i log (Runs gives futures)
  | .reported statuses => FromSnapshot i log (Answers gives statuses)
  | _ => True

theorem Explained.snoc {task : HealthTask C S} (h : Explained gives i log task)
    (turn : Turn (Checks C) (HealthTask C S)) : Explained gives i (log ++ [turn]) task := by
  cases task with
  | joining futures => exact FromSnapshot.snoc h turn
  | reported statuses => exact FromSnapshot.snoc h turn
  | _ => trivial

/-- Collecting the statuses keeps their names. -/
theorem collect_answers (futures : List (CheckFuture C S))
    (hall : ∀ f ∈ futures, f.status.isSome = true)
    (hgives : ∀ f ∈ futures, ∀ status, f.status = some status → gives f.check status)
    (pluginName : String) :
    let checks := futures.map fun f => (⟨f.name, f.check⟩ : Sigma fun _ : String => C)
    let statuses := futures.filterMap fun f =>
      f.status.map fun s => (⟨f.name, s⟩ : Sigma fun _ : String => S)
    (checks.dlookup pluginName = none ∧ statuses.dlookup pluginName = none) ∨
      ∃ check status, checks.dlookup pluginName = some check ∧
        statuses.dlookup pluginName = some status ∧ gives check status := by
  induction futures with
  | nil => exact .inl ⟨rfl, rfl⟩
  | cons f rest ih =>
      obtain ⟨status, hstatus⟩ := Option.isSome_iff_exists.mp (hall f (by simp))
      have hgive := hgives f (by simp) status hstatus
      have hrest := ih (fun f hf => hall f (by simp [hf])) fun f hf => hgives f (by simp [hf])
      by_cases hname : f.name = pluginName
      · subst hname
        exact .inr ⟨f.check, status, by simp, by simp [hstatus], hgive⟩
      · simpa [List.filterMap_cons, hstatus, List.dlookup_cons_ne, Ne.symm hname] using hrest

/-- A check that ends leaves the checks as they are. -/
theorem Runs.complete {futures : List (CheckFuture C S)} {checks : Checks C}
    (h : Runs gives futures checks) {j : Nat} {pluginName : String} {check : C} {status : S}
    (hj : futures[j]? = some ⟨pluginName, check, none⟩) (hgive : gives check status) :
    Runs gives (futures.set j ⟨pluginName, check, some status⟩) checks := by
  obtain ⟨hsame, hgiven⟩ := h
  constructor
  · obtain ⟨hlt, hget⟩ := List.getElem?_eq_some_iff.mp hj
    have hlength : j < (futures.map fun f =>
        (⟨f.name, f.check⟩ : Sigma fun _ : String => C)).length := by
      rwa [List.length_map]
    have hentry : (futures.map fun f =>
        (⟨f.name, f.check⟩ : Sigma fun _ : String => C))[j] = ⟨pluginName, check⟩ := by
      rw [List.getElem_map, hget]
    rw [← hsame, List.map_set, ← hentry]
    exact List.set_getElem_self _
  · intro f hf status' hstatus
    rcases List.mem_or_eq_of_mem_set hf with hold | rfl
    · exact hgiven f hold status' hstatus
    · cases hstatus
      exact hgive

theorem Runs.collect {futures : List (CheckFuture C S)} {checks : Checks C}
    (h : Runs gives futures checks) (hall : (futures.all fun f => f.status.isSome) = true) :
    Answers gives
      (futures.filterMap fun f =>
        f.status.map fun s => (⟨f.name, s⟩ : Sigma fun _ : String => S)).toAList checks := by
  intro pluginName
  rw [AList.lookup_to_alist, AList.lookup, ← h.1]
  exact collect_answers futures (List.all_eq_true.mp hall) h.2 pluginName

theorem Explained.own {task task' : HealthTask C S} {c : Joining S} {st : Standing (Checks C)}
    (h : Explained gives i log task) (hi : s.tasks i = some (task, st))
    (hhonest : Honest gives s (.own i c)) (hown : task.own c = some task') :
    Explained gives i log task' := by
  cases task with
  | joining futures =>
      obtain ⟨before, turn, after, hlog, hid, htask, hruns⟩ := h
      cases c with
      | complete j status =>
          simp only [HealthTask.own] at hown
          split at hown
          · next pluginName check hj =>
              cases hown
              exact ⟨before, turn, after, hlog, hid, htask,
                hruns.complete hj (hhonest futures st _ hi hj)⟩
          · cases hown
      | collect =>
          simp only [HealthTask.own] at hown
          split at hown
          · next hall =>
              cases hown
              exact ⟨before, turn, after, hlog, hid, htask, hruns.collect hall⟩
          · cases hown
  | _ => cases c <;> cases hown

/-- Under its guard `check_all` begins with the checks that it sees. -/
theorem Explained.left {task : HealthTask C S} {seen : Checks C}
    {sec : Section (Checks C) (HealthTask C S)} (hwants : task.wants = some sec) :
    Explained gives i (log ++ [⟨i, task, seen⟩]) (sec.next seen) := by
  cases task with
  | register pluginName check =>
      cases hwants
      trivial
  | checkAll =>
      cases hwants
      refine ⟨log, ⟨i, .checkAll, seen⟩, [], rfl, rfl, rfl, ?_, ?_⟩
      · rw [List.map_map]
        exact List.map_id seen.entries
      · intro f hf status hstatus
        obtain ⟨entry, _, rfl⟩ := List.mem_map.mp hf
        cases hstatus
  | _ => cases hwants

/-- The invariant. -/
def AllExplained (gives : C → S → Prop) (s : HealthState C S) : Prop :=
  ∀ i task st, s.tasks i = some (task, st) → Explained gives i s.log task

theorem AllExplained.step (h : AllExplained gives s)
    {a : RwLock.Action (HealthTask C S) (Joining S)} (hhonest : Honest gives s a)
    (move : RwLock.Move HealthTask.own HealthTask.wants s a t) : AllExplained gives t := by
  -- the other tasks stay as they are, and the log only grows
  have keep {j i : Nat} {entry : Option (HealthTask C S × Standing (Checks C))}
      {task : HealthTask C S} {st : Standing (Checks C)} (hne : j ≠ i)
      (hj : update s.tasks i entry j = some (task, st)) : Explained gives j s.log task := by
    rw [update_of_ne hne] at hj
    exact h j task st hj
  intro j task st hj
  cases move with
  | @started i task' hi =>
      by_cases hne : j = i
      · subst hne
        obtain ⟨rfl, _⟩ : task' = task ∧ _ := by simpa using hj
        rcases hhonest with rfl | ⟨pluginName, check, rfl⟩ <;> trivial
      · exact keep hne hj
  | @owned i c before after hi hown =>
      by_cases hne : j = i
      · subst hne
        obtain ⟨rfl, _⟩ : after = task ∧ _ := by simpa using hj
        exact (h j before _ hi).own hi hhonest hown
      · exact keep hne hj
  | @asked i before sec hi _ =>
      by_cases hne : j = i
      · subst hne
        obtain ⟨rfl, _⟩ : before = task ∧ _ := by simpa using hj
        exact h j before _ hi
      · exact keep hne hj
  | @admitted i _ _ before _ hi _ =>
      by_cases hne : j = i
      · subst hne
        obtain ⟨rfl, _⟩ : before = task ∧ _ := by simpa using hj
        exact h j before _ hi
      · exact keep hne hj
  | @left i before seen sec hi hwants =>
      by_cases hne : j = i
      · subst hne
        obtain ⟨rfl, _⟩ : sec.next seen = task ∧ _ := by simpa using hj
        exact Explained.left hwants
      · exact (keep hne hj).snoc _
  | @gone i _ hi | @gaveUp i _ hi =>
      by_cases hne : j = i
      · subst hne
        simp at hj
      · exact keep hne hj

end Reports

/-- What a task registers is what its section puts into the map. -/
theorem lookup_checks (pluginName : String) (log : List (Turn (Checks C) (HealthTask C S))) :
    (replay HealthTask.wants ∅ log).lookup pluginName = lastCheck pluginName log := by
  apply lookup_replay
  · intro task sec checks hwants
    cases task <;> cases hwants <;> rfl
  · intro task hwants
    cases task with
    | register | checkAll => cases hwants
    | _ => rfl

/-- In every run, with any tasks that register and check and with checks that end in any
order, what `check_all` returns has exactly one status for each plugin that was registered
when it took its snapshot, and the check registered last for the plugin gave it. -/
theorem check_all_reports_snapshot {C S : Type*} (gives : C → S → Prop) (s : HealthState C S)
    (h : ReachableVia healthStep (Honest gives) (RwLock.init ∅) s) (i : Nat)
    (statuses : AList fun _ : String => S) (st : Standing (Checks C))
    (hi : s.tasks i = some (.reported statuses, st)) :
    ∃ before turn after, s.log = before ++ turn :: after ∧ turn.id = i ∧
      turn.task = .checkAll ∧ ∀ pluginName : String,
        (lastCheck pluginName before = none ∧ statuses.lookup pluginName = none) ∨
          ∃ check status, lastCheck pluginName before = some check ∧
            statuses.lookup pluginName = some status ∧ gives check status := by
  have hinit : AllExplained gives (RwLock.init ∅) := by
    intro i task st hi
    cases hi
  have hall : AllExplained gives s := h.invariant (AllExplained gives) hinit
    fun _ _ _ hs ok hstep => hs.step ok (step_move hstep)
  obtain ⟨before, turn, after, hlog, hid, htask, hanswers⟩ := hall i _ st hi
  refine ⟨before, turn, after, hlog, hid, htask, ?_⟩
  intro pluginName
  have hcontent : turn.content = replay HealthTask.wants ∅ before :=
    (sound_of_reachable h.reachable).serial before turn after hlog
  rw [← lookup_checks, ← hcontent]
  exact hanswers pluginName

section Samples

/-- Checks named by numbers, each of which gives its own number. -/
def honestTest (s : HealthState Nat Nat) : RwLock.Action (HealthTask Nat Nat) (Joining Nat) → Bool
  | .start _ .checkAll => true
  | .start _ (.register _ _) => true
  | .start _ _ => false
  | .own i (.complete j status) =>
      match s.tasks i with
      | some (.joining futures, _) => (futures[j]?).all fun f => f.check == status
      | _ => true
  | _ => true

/-- What a task has reported. -/
def HealthTask.report? : HealthTask Nat Nat → Option (AList fun _ : String => Nat)
  | .reported statuses => some statuses
  | _ => none

theorem HealthTask.eq_of_report {task : HealthTask Nat Nat} {statuses : AList fun _ : String => Nat}
    (h : task.report? = some statuses) : task = .reported statuses := by
  cases task with
  | reported => rw [Option.some.inj h]
  | _ => cases h

theorem honest_of_test {s : HealthState Nat Nat}
    {a : RwLock.Action (HealthTask Nat Nat) (Joining Nat)} (h : honestTest s a = true) :
    Honest (fun check status => check = status) s a := by
  match a with
  | .start _ .checkAll => exact .inl rfl
  | .start _ (.register pluginName check) => exact .inr ⟨pluginName, check, rfl⟩
  | .start _ .registered | .start _ (.joining _) | .start _ (.reported _) => cases h
  | .own i (.complete j status) =>
      intro futures st f hi hj
      simpa [honestTest, hi, hj] using h
  | .own _ .collect | .ask _ | .grant | .leave _ | .drop _ => trivial

/-- `queue` is registered again while the checks run: the report still has the status of the
check that the snapshot holds. -/
theorem late_registration_not_reported :
    ∃ (s : HealthState Nat Nat) (statuses : AList fun _ : String => Nat)
        (st : Standing (Checks Nat)),
      ReachableVia healthStep (Honest fun check status => check = status) (RwLock.init ∅) s ∧
      s.tasks 1 = some (.reported statuses, st) ∧
      ∃ before turn after, s.log = before ++ turn :: after ∧ turn.id = 1 ∧
        turn.task = .checkAll ∧ ∀ pluginName : String,
          (lastCheck pluginName before = none ∧ statuses.lookup pluginName = none) ∨
            ∃ check status, lastCheck pluginName before = some check ∧
              statuses.lookup pluginName = some status ∧ check = status := by
  have hrun : (runs (fun s a => if honestTest s a then healthStep s a else none)
      (RwLock.init ∅) [.start 0 (.register "queue" 3), .ask 0, .grant, .leave 0,
        .start 1 .checkAll, .ask 1, .grant, .leave 1, .start 2 (.register "queue" 4), .ask 2,
        .grant, .leave 2, .own 1 (.complete 0 3), .own 1 .collect]).any (fun s =>
      (s.tasks 1).any fun entry => entry.1.report?.any fun statuses =>
        statuses.lookup "queue" == some 3) = true := by decide
  obtain ⟨s, hs, htest⟩ := exists_reachableVia hrun
  have hreach := hs.mono fun _ _ => honest_of_test
  obtain ⟨⟨task, st⟩, hi, hreported⟩ := (Option.any_eq_true _ _).mp htest
  obtain ⟨statuses, hreport, _⟩ := (Option.any_eq_true _ _).mp hreported
  cases HealthTask.eq_of_report hreport
  exact ⟨s, statuses, st, hreach, hi, check_all_reports_snapshot _ s hreach 1 statuses st hi⟩

end Samples

end FolkCore.Plugins
