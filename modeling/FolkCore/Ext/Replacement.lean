import FolkCore.Ext.Turns
import FolkCore.Pool.Posts
import FolkCore.Pool.Replies

/-!
# Workers that are gone

`execute_streaming` on a `ChannelWorkerHandle` fails when the thread has dropped its
task receiver or the done sender. The supervisor logs the error and decides about a
replacement by the reload generation, `max_jobs` and `ttl` alone, so the handle stays
installed unless one of them asks for a new worker.
-/

namespace FolkCore.Ext

open Pool Lib

variable {serde : SerdeJson} {cfg : WorkersConfig}

/-- `execute_streaming` on handle `w` has returned an error. -/
def failsOn (w : Nat) : Event → Bool
  | .finished _ w' _ (.done (.error _)) => w' == w
  | _ => false

/-- The supervisor takes a request for handle `w`, or calls `execute_streaming` on it. -/
def uses (w : Nat) : Event → Bool
  | .took _ w' _ => w' == w
  | .executed _ w' _ => w' == w
  | _ => false

/-- Only threads that can be joined and started again are spawned. -/
def recyclableOnly : Action (extensionRuntime serde) → Bool
  | .supervise _ (.spawned h) => ChannelWorker.threadHandle h
  | _ => true

/-- After a failed execution one of the recycle triggers is up. -/
def recyclesFailed (cfg : WorkersConfig) (s : State (extensionRuntime serde)) :
    Action (extensionRuntime serde) → Bool
  | .supervise i .recycle =>
      match (s.slots i).phase with
      | .settled _ (.done (.error _)) =>
          (s.slots i).reloadPending s.generation || (s.slots i).info.shouldRecycle cfg s.now
      | _ => true
  | _ => true

def Terminating (phase : Phase) : Prop := ∃ w why, phase = .terminating w why

def Failed (phase : Phase) : Prop := ∃ tx e, phase = .settled tx (.done (.error e))

/-- The invariant of a slot: its handle can be recycled, and it has failed only if it is
about to be replaced. -/
structure Replacing (p : Post (extensionRuntime serde)) : Prop where
  recyclable : ∀ h : ChannelWorker, p.worker = some h → ¬Terminating p.slot.phase →
    h.threadHandle = true
  clean : ∀ w, p.slot.handle = some w → ¬Terminating p.slot.phase → ¬Failed p.slot.phase →
    ∀ e ∈ p.log, failsOn w e = false
  order : p.log.Pairwise fun a b => ∀ w, failsOn w a = true → uses w b = false

variable {p p' : Post (extensionRuntime serde)} {i : Nat}
  {v : View (extensionRuntime serde)} {a : Action (extensionRuntime serde)}

theorem act_threadHandle {h h' : ChannelWorker} {act : ChannelWorker.ThreadAct}
    {op : Option StreamOp} (hact : h.act serde act = some (h', op)) :
    h'.threadHandle = h.threadHandle := by
  cases act_move hact with
  | @perform e rest _ => exact performEffect_threadHandle h rest e
  | _ => rfl

theorem execute_threadHandle {h h' : ChannelWorker} {req : DispatchRequest} {kept : Bool}
    (hcall : h.executeStreaming req = some (h', kept)) : h'.threadHandle = h.threadHandle := by
  cases execute_execution hcall with
  | failed => rfl
  | queued _ => rfl

/-- Adding a note that is neither a failure nor a use. -/
theorem order_quiet {log : List Event}
    (h : log.Pairwise fun a b => ∀ w, failsOn w a = true → uses w b = false) {e : Event}
    (he : ∀ w, uses w e = false) :
    (log ++ [e]).Pairwise fun a b => ∀ w, failsOn w a = true → uses w b = false := by
  rw [List.pairwise_append]
  refine ⟨h, List.pairwise_singleton _ _, ?_⟩
  intro a _ b hb w _
  rw [List.mem_singleton.mp hb]
  exact he w

/-- Adding a use of a handle that has not failed. -/
theorem order_use {log : List Event}
    (h : log.Pairwise fun a b => ∀ w, failsOn w a = true → uses w b = false) {e : Event}
    {w : Nat} (he : ∀ w', uses w' e = true → w' = w) (hclean : ∀ e ∈ log, failsOn w e = false) :
    (log ++ [e]).Pairwise fun a b => ∀ w, failsOn w a = true → uses w b = false := by
  rw [List.pairwise_append]
  refine ⟨h, List.pairwise_singleton _ _, ?_⟩
  intro a ha b hb w' hfails
  rw [List.mem_singleton.mp hb, Bool.eq_false_iff]
  intro huse
  rw [he w' huse, hclean a ha] at hfails
  cases hfails

theorem Replacing.no_handle (h : Replacing p) (hhandle : p'.slot.handle = none)
    (hworker : p'.worker = none) (hlog : p'.log = p.log) : Replacing p' := by
  constructor
  · intro worker hw
    rw [hworker] at hw
    cases hw
  · intro w hw
    rw [hhandle] at hw
    cases hw
  · rw [hlog]
    exact h.order

/-- The slot keeps its handle and its worker. -/
theorem Replacing.keep (h : Replacing p) (hterminating : ¬Terminating p.slot.phase)
    (hfailed : ¬Failed p.slot.phase) (hhandle : p'.slot.handle = p.slot.handle)
    (hworker : p'.worker = p.worker) (hlog : p'.log = p.log) : Replacing p' := by
  constructor
  · intro w hw _
    exact h.recyclable w (hworker ▸ hw) hterminating
  · intro w hw _ _
    rw [hlog]
    exact h.clean w (hhandle ▸ hw) hterminating hfailed
  · rw [hlog]
    exact h.order

/-- The slot keeps or gets the handle `w`, and notes an event about it. -/
theorem Replacing.noted (h : Replacing p) {w : Nat} {e : Event}
    (hhandle : p'.slot.handle = some w) (hlog : p'.log = p.log ++ [e])
    (hrecyclable : ∀ worker : ChannelWorker, p'.worker = some worker →
      worker.threadHandle = true)
    (hclean : ∀ e ∈ p.log, failsOn w e = false) (huses : ∀ w', uses w' e = true → w' = w)
    (hfails : ¬Failed p'.slot.phase → failsOn w e = false) : Replacing p' := by
  constructor
  · intro worker hw _
    exact hrecyclable worker hw
  · intro w' hw' _ hfailed e' he'
    rw [hhandle] at hw'
    cases hw'
    rw [hlog] at he'
    rcases List.mem_append.mp he' with hold | hnew
    · exact hclean e' hold
    · rw [List.mem_singleton.mp hnew]
      exact hfails hfailed
  · rw [hlog]
    exact order_use h.order huses hclean

theorem Replacing.terminating (h : Replacing p) {w : Nat} {why : Reason}
    (hphase : p'.slot.phase = .terminating w why)
    (hlog : p'.log = p.log ++ [.terminated i w why]) : Replacing p' := by
  constructor
  · intro _ _ hnot
    exact absurd ⟨w, why, hphase⟩ hnot
  · intro _ _ hnot
    exact absurd ⟨w, why, hphase⟩ hnot
  · rw [hlog]
    exact order_quiet h.order fun _ => rfl

theorem Replacing.supervised (h : Replacing p) {b : SupervisorAction (extensionRuntime serde)}
    {slot' : Slot} {commands : List (Command (extensionRuntime serde))}
    (hworker : p.worker = p.slot.handle.bind v.workers) (htidy : p.slot.Tidy)
    (hfresh : ∀ e ∈ p.log, failsOn v.handles e = false)
    (hspawn : ∀ worker : ChannelWorker, b = .spawned worker → worker.threadHandle = true)
    (hrecycle : b = .recycle → Failed p.slot.phase →
      (p.slot.reloadPending v.generation || p.slot.info.shouldRecycle cfg v.now) = true)
    (move : Slot.Move cfg i v p.slot b slot' commands) :
    Replacing ⟨slot', workerAfter (slot', commands) p.worker,
      p.log ++ commands.filterMap Command.noted⟩ := by
  unfold Slot.Tidy at htidy
  cases move with
  | boot hphase hnone =>
      exact h.no_handle hnone (by simp [workerAfter, Slot.handle, hnone]) (by simp)
  | spawnFailed hphase | wake hphase | bootAbandoned hphase | replaced hphase =>
      rw [hphase] at htidy
      exact h.no_handle htidy (by simp [workerAfter, Slot.handle, htidy])
        (by simp [Command.noted])
  | spawnPanicked hphase | bootPanicked hphase | unreachable hphase | executePanicked hphase
  | exited hphase
  | terminatePanicked hphase =>
      exact h.no_handle rfl rfl (by simp [Command.noted])
  | bootFailed hphase | reloaded hphase | reloadClosed hphase | inboxClosed hphase
  | recycled hphase =>
      exact h.terminating rfl rfl
  | listen hphase hhandle | caughtUp hphase hhandle | noReload hphase hhandle
  | inboxEmpty hphase hhandle =>
      exact h.keep (by simp [Terminating, hphase]) (by simp [Failed, hphase])
        (by simp [Slot.handle, hphase]) (by simp [workerAfter, Slot.handle, hhandle]) (by simp)
  | booted hphase =>
      exact h.keep (by simp [Terminating, hphase]) (by simp [Failed, hphase])
        (by simp [Slot.handle, hphase]) (by simp [workerAfter, Slot.handle]) (by simp)
  | @spawned worker hphase hspawns =>
      refine h.noted rfl rfl ?_ hfresh (by simp [uses]) (fun _ => rfl)
      intro worker' hw'
      cases hw'
      exact hspawn worker rfl
  | @took recyclable w worker req rest hphase hhandle hw hinbox =>
      have hterminating : ¬Terminating p.slot.phase := by simp [Terminating, hphase]
      have hclean := h.clean w (by simp [Slot.handle, hphase, hhandle]) hterminating
        (by simp [Failed, hphase])
      refine h.noted hhandle rfl ?_ hclean (fun w' huse => (beq_iff_eq.mp huse).symm)
        (fun _ => rfl)
      intro worker' hw'
      refine h.recyclable worker' ?_ hterminating
      simpa [workerAfter, Slot.handle, hhandle, Command.worker, List.findSome?_cons] using hw'
  | @execute req since w worker worker' kept hphase hhandle hw hcall =>
      have hterminating : ¬Terminating p.slot.phase := by simp [Terminating, hphase]
      have hclean := h.clean w (by simp [Slot.handle, hphase, hhandle]) hterminating
        (by simp [Failed, hphase])
      have hfound := Post.worker_eq hworker (by simp [Slot.handle, hphase, hhandle]) hw
      refine h.noted hhandle rfl ?_ hclean (fun w' huse => (beq_iff_eq.mp huse).symm)
        (fun _ => rfl)
      intro worker'' hw''
      have hsame : some worker' = some worker'' := by
        simpa [workerAfter, Slot.handle, hhandle, Command.worker, List.findSome?_cons] using hw''
      cases hsame
      rw [execute_threadHandle hcall]
      exact h.recyclable worker hfound hterminating
  | @settled tx deadline w worker result hphase hhandle hw hresult =>
      have hterminating : ¬Terminating p.slot.phase := by simp [Terminating, hphase]
      have hclean := h.clean w (by simp [Slot.handle, hphase, hhandle]) hterminating
        (by simp [Failed, hphase])
      have hfound := Post.worker_eq hworker (by simp [Slot.handle, hphase, hhandle]) hw
      refine h.noted hhandle rfl ?_ hclean (by simp [uses]) ?_
      · intro worker' hw'
        have hsame : some ((extensionRuntime serde).dropExecute worker) = some worker' := by
          simpa [workerAfter, Slot.handle, hhandle, Command.worker, List.findSome?_cons] using hw'
        cases hsame
        exact h.recyclable worker hfound hterminating
      · intro hfailed
        cases result with
        | elapsed => rfl
        | done r =>
            cases r with
            | ok u => rfl
            | error e => exact absurd ⟨tx, e, rfl⟩ hfailed
  | @kept tx result w worker hphase hhandle hw htest =>
      have hterminating : ¬Terminating p.slot.phase := by simp [Terminating, hphase]
      have hfound := Post.worker_eq hworker (by simp [Slot.handle, hphase, hhandle]) hw
      have hfailed : ¬Failed p.slot.phase := by
        intro hfailed
        rcases htest with hquiet | hfixed
        · rw [hrecycle rfl hfailed] at hquiet
          cases hquiet
        · have hrecyclable : (extensionRuntime serde).isRecyclable worker = true :=
            h.recyclable worker hfound hterminating
          rw [hrecyclable] at hfixed
          cases hfixed
      exact h.keep hterminating hfailed (by simp [Slot.handle, hphase])
        (by simp [workerAfter, Slot.handle, hhandle]) (by simp)

theorem Replacing.step (h : Replacing p)
    (hfresh : ∀ e ∈ p.log, failsOn v.handles e = false) (hspawn : recyclableOnly a = true)
    (hrecycle : a = .supervise i .recycle → Failed p.slot.phase →
      (p.slot.reloadPending v.generation || p.slot.info.shouldRecycle cfg v.now) = true)
    (move : Post.Move cfg i v a p p') : Replacing p' := by
  cases move with
  | same => exact h
  | delivered req => exact ⟨h.recyclable, h.clean, h.order⟩
  | @acted act worker worker' op hw hact =>
      refine ⟨?_, h.clean, h.order⟩
      intro worker'' hw'' hterminating
      cases hw''
      rw [act_threadHandle hact]
      exact h.recyclable worker hw hterminating
  | @supervised b r ha hworker htidy move =>
      subst ha
      apply h.supervised hworker htidy hfresh _ _ move
      · intro worker hb
        subst hb
        exact hspawn
      · intro hb
        subst hb
        exact hrecycle rfl

/-- In every run with recyclable workers in which a recycle trigger is up whenever an
execution has failed, no supervisor takes a request for a failed handle or executes on it
again. -/
theorem failed_handle_not_used (serde : SerdeJson) (cfg : WorkersConfig)
    (s : State (extensionRuntime serde))
    (h : ReachableVia (step serde cfg)
      (fun s a => (recyclableOnly a && recyclesFailed cfg s a) = true)
      (init (extensionRuntime serde) cfg) s) (i : Nat) :
    (s.log i).Pairwise fun a b => ∀ w, failsOn w a = true → uses w b = false := by
  have hboth : Housed s ∧ Replacing (s.post i) := by
    apply h.invariant (fun s => Housed s ∧ Replacing (s.post i))
    · refine ⟨Housed.init _ cfg, ?_⟩
      constructor
      · intro _ hw
        cases hw
      · intro _ hw
        cases hw
      · exact List.Pairwise.nil
    · rintro s a t ⟨hhoused, hreplacing⟩ hallowed hstep
      rw [Bool.and_eq_true] at hallowed
      have move := step_move hstep
      refine ⟨hhoused.step move, hreplacing.step ?_ hallowed.1 ?_ (step_post hhoused move i)⟩
      · intro e he
        rw [Bool.eq_false_iff]
        intro hfails
        have hmem : e ∈ s.history := List.mem_of_mem_filter he
        cases e with
        | finished j w tx r =>
            cases r with
            | elapsed => cases hfails
            | done r =>
                cases r with
                | ok u => cases hfails
                | error e =>
                    have hbound := hhoused.noted _ hmem j w rfl
                    rw [beq_iff_eq.mp hfails] at hbound
                    exact Nat.lt_irrefl _ hbound
        | _ => cases hfails
      · rintro rfl ⟨tx, e, hphase⟩
        have htest := hallowed.2
        simp only [recyclesFailed, show (s.slots i).phase = _ from hphase] at htest
        exact htest
  exact hboth.2.order

/-- The first request of a pool of two: slot 0 boots a thread, which exits while it
executes the request; the supervisor sees the error. -/
def failedRun (serde : SerdeJson) : List (Action (extensionRuntime serde)) :=
  bootRun serde ++ callRun serde 0 ++ [.supervise 0 .execute, .work 0 .exit,
    .work 0 .perform, .work 0 .perform, .supervise 0 .pollExecute]

/-- The supervisor goes on, and a later request comes to slot 0. -/
def reuseRun (serde : SerdeJson) : List (Action (extensionRuntime serde)) :=
  failedRun serde ++ [.supervise 0 .recycle, .supervise 0 .enterLoop,
    .invoke (.executeValue "dispatch" .null), .submit 1, .mainRecv, .mainForward] ++
    callRun serde 2 ++ [.supervise 0 .execute]

/-- With the default configuration the handle of a thread that is gone is used again. -/
theorem gone_worker_used_again :
    ∃ s, ReachableVia (step .ofNull .pair) (fun _ a => recyclableOnly a = true)
        (init (extensionRuntime .ofNull) .pair) s ∧
      ¬(s.log 0).Pairwise fun a b => ∀ w, failsOn w a = true → uses w b = false := by
  have hrun : (runs (fun s a => if recyclableOnly a then step .ofNull .pair s a else none)
      (init (extensionRuntime .ofNull) .pair) (reuseRun .ofNull)).any
        (fun s => (s.log 0)[3]?.any (failsOn 0) && (s.log 0)[4]?.any (uses 0)) = true := by
    decide
  obtain ⟨s, hs, htest⟩ := exists_reachableVia hrun
  refine ⟨s, hs, ?_⟩
  intro hpairwise
  rw [Bool.and_eq_true] at htest
  obtain ⟨a, b, hfails, huses, hpair⟩ := pairwise_at hpairwise (by decide) htest.1 htest.2
  rw [hpair 0 hfails] at huses
  cases huses

/-- With `max_jobs` set to one the failed handle is replaced before the next request. -/
theorem gone_worker_replaced :
    ∃ s, ReachableVia (step .ofNull { WorkersConfig.pair with maxJobs := 1 })
        (fun s a => (recyclableOnly a &&
          recyclesFailed { WorkersConfig.pair with maxJobs := 1 } s a) = true)
        (init (extensionRuntime .ofNull) { WorkersConfig.pair with maxJobs := 1 }) s ∧
      (s.slots 0).worker = none ∧
      (s.log 0).Pairwise fun a b => ∀ w, failsOn w a = true → uses w b = false := by
  have hrun : (runs (fun s a => if recyclableOnly a &&
        recyclesFailed { WorkersConfig.pair with maxJobs := 1 } s a
        then step .ofNull { WorkersConfig.pair with maxJobs := 1 } s a else none)
      (init (extensionRuntime .ofNull) { WorkersConfig.pair with maxJobs := 1 })
      (failedRun .ofNull ++ [.supervise 0 .recycle])).any
        (fun s => (s.slots 0).worker.isNone) = true := by decide
  obtain ⟨s, hs, htest⟩ := exists_reachableVia hrun
  exact ⟨s, hs, Option.isNone_iff_eq_none.mp htest, failed_handle_not_used .ofNull _ s hs 0⟩

end FolkCore.Ext
