import FolkCore.Bridge.Arrivals
import FolkCore.Ext.Turns
import FolkCore.Pool.Handles

/-!
# The life of a thread

The bridge is verified for one thread that finds its tasks in the channel when it starts.
In the pool tasks arrive while the thread runs, its handle is given up and its script may
end. `Life` is what one thread has gone through; `Leads` says that its worker state and its
channel operations are those of the bridge run with the same calls on all the tasks that
arrived.
-/

namespace FolkCore.Ext

open Bridge Pool

variable {serde : SerdeJson} {h h' : ChannelWorker}

/-- What a thread has gone through: the state it started with, the tasks that were put
into its channel, the bridge calls it made and the operations it performed. -/
structure Life where
  start : WorkerState
  arrived : List TaskRequest
  script : List Bridge.Step
  performed : List Effect

/-- The operations that a history records. -/
def speaks : Effect → Bool
  | .send _ _ => true
  | .signal _ => true
  | _ => false

/-- `execute_streaming` puts a task into the channel while the thread has its receiver. -/
theorem executeStreaming_cases {req : DispatchRequest} {kept : Bool}
    (hcall : h.executeStreaming req = some (h', kept)) :
    kept = false ∧ (∃ e, h' = { h with awaited := some (.finished (.error e)) }) ∨
      kept = true ∧ h.taskTx = true ∧ h.stage ≠ .exited ∧
        h' = { h with
          state := { h.state with taskRx := h.state.taskRx ++ [h.task req] }
          nextDone := h.nextDone + 1
          awaited := some (.pending h.nextDone) } := by
  unfold ChannelWorker.executeStreaming at hcall
  split at hcall
  · cases hcall
    exact .inl ⟨rfl, _, rfl⟩
  · next htx =>
      split at hcall
      · cases hcall
        exact .inl ⟨rfl, _, rfl⟩
      · next hstage =>
          split at hcall
          · cases hcall
            exact .inr ⟨rfl, by simpa using htx, hstage, rfl⟩
          · cases hcall

namespace Life

variable {l : Life}

/-- The thread before its first call, with every task that will arrive. -/
def begin (l : Life) : WorkerState := l.start.extend l.start.readyTx l.arrived

/-- The bridge run that makes the calls of the thread. -/
def outcome (serde : SerdeJson) (l : Life) : Outcome (List Reply) := run serde l.script l.begin

/-- The life after one more act. -/
def after (l : Life) (h : ChannelWorker) : ChannelWorker.ThreadAct → Life
  | .call s => { l with script := l.script ++ [s] }
  | .perform => { l with performed := l.performed ++ h.effects.take 1 }
  | _ => l

/-- The life of the thread leads to its state: the bridge run has the same state, up to
the ready flag, and the same sends and signals, performed or pending. -/
structure Leads (serde : SerdeJson) (l : Life) (h : ChannelWorker) : Prop where
  idle : l.start.Idle
  empty : l.start.taskRx = []
  drawn : ∀ r ∈ l.arrived, r.doneTx < h.nextDone
  dones : (l.arrived.map TaskRequest.doneTx).Nodup
  spoken : (l.performed ++ h.effects).filter speaks = (l.outcome serde).effects.filter speaks
  state : h.stage ≠ .exited → h.state = (l.outcome serde).state.extend h.state.readyTx []
  fed : h.taskTx = true → Fed serde l.script l.begin

theorem begin_taskRx (hempty : l.start.taskRx = []) : l.begin.taskRx = l.arrived := by
  simp [begin, hempty]

/-- A new handle has a thread without a past. -/
theorem Leads.born (hfresh : h.isFresh = true) : Leads serde ⟨h.state, [], [], []⟩ h.ready := by
  obtain ⟨_, hqueue, hidle, heffects⟩ := isFresh_empty hfresh
  refine ⟨hidle, hqueue, nofun, List.nodup_nil, ?_, fun _ => ?_, fun _ => trivial⟩
  · simp [ChannelWorker.ready, heffects, outcome]
  · simp [ChannelWorker.ready, outcome, begin, WorkerState.extend]

/-- The handle is used without a new task. -/
theorem Leads.released {h h' : (extensionRuntime serde).Worker} (hl : l.Leads serde h)
    (hreleased : Released h h') : l.Leads serde h' := by
  obtain ⟨hidle, hempty, hdrawn, hdones, hspoken, hstate, hfed⟩ := hl
  cases hreleased with
  | terminated => exact ⟨hidle, hempty, hdrawn, hdones, hspoken, hstate, nofun⟩
  | dropped => exact ⟨hidle, hempty, hdrawn, hdones, hspoken, hstate, nofun⟩
  | settled => exact ⟨hidle, hempty, hdrawn, hdones, hspoken, hstate, hfed⟩
  | panicked => exact ⟨hidle, hempty, hdrawn, hdones, hspoken, hstate, nofun⟩

theorem outcome_snoc (l : Life) (s : Bridge.Step) :
    ({ l with script := l.script ++ [s] } : Life).outcome serde =
      ⟨(l.outcome serde).reply ++ [(s.outcome serde (l.outcome serde).state).reply],
        (s.outcome serde (l.outcome serde).state).state,
        (l.outcome serde).effects ++ (s.outcome serde (l.outcome serde).state).effects⟩ :=
  run_snoc serde l.script s l.begin

/-- A bridge call of the thread is the next call of the run. -/
theorem Leads.call (hl : l.Leads serde h) {s : Bridge.Step} (hstage : h.stage = .running)
    (heffects : h.effects = [])
    (hreceives : s.receives = true → h.state.taskRx.isEmpty = false ∨ h.taskTx = false) :
    Leads serde { l with script := l.script ++ [s] }
      { h with
        state := (s.outcome serde h.state).state
        effects := (s.outcome serde h.state).effects } := by
  have hstate : h.state = (l.outcome serde).state.extend h.state.readyTx [] :=
    hl.state (by simp [hstage])
  have hcall : s.outcome serde h.state =
      (s.outcome serde (l.outcome serde).state).extend h.state.readyTx [] := by
    have hextend := outcome_extend serde (l.outcome serde).state h.state.readyTx [] (s := s)
      fun _ => .inr rfl
    rwa [← hstate] at hextend
  refine ⟨hl.idle, hl.empty, hl.drawn, hl.dones, ?_, fun _ => ?_, fun htx => ?_⟩
  · have hspoken := hl.spoken
    rw [heffects, List.append_nil] at hspoken
    rw [outcome_snoc, hcall, List.filter_append, List.filter_append, hspoken]
    rfl
  · rw [outcome_snoc, hcall]
    simp [Outcome.extend, WorkerState.extend]
  · refine fed_snoc.mpr ⟨hl.fed htx, fun hs (hnil : (l.outcome serde).state.taskRx = []) => ?_⟩
    have hqueue : h.state.taskRx = (l.outcome serde).state.taskRx := by
      rw [hstate]
      simp
    rcases hreceives hs with hfull | hclosed
    · rw [hqueue, hnil] at hfull
      cases hfull
    · cases htx.symm.trans hclosed

theorem Leads.act (hl : l.Leads serde h) {act : ChannelWorker.ThreadAct} {op : Option StreamOp}
    (hact : h.act serde act = some (h', op)) : (l.after h act).Leads serde h' := by
  cases act_move hact with
  | boot hstage =>
      refine ⟨hl.idle, hl.empty, hl.drawn, hl.dones, hl.spoken, fun _ => hl.state ?_, hl.fed⟩
      rw [hstage]
      exact nofun
  | ready hstage heffects =>
      refine ⟨hl.idle, hl.empty, hl.drawn, hl.dones, ?_, fun _ => ?_, hl.fed⟩
      · have hnone : (doReady h.state).effects.filter speaks = [] := by
          rw [List.filter_eq_nil_iff]
          intro e he
          rw [doReady_effects h.state e he]
          exact nofun
        have hspoken := hl.spoken
        rw [heffects] at hspoken
        simpa [after, hnone] using hspoken
      · have hstate : h.state = (l.outcome serde).state.extend h.state.readyTx [] :=
          hl.state (by rw [hstage]; exact nofun)
        by_cases hready : h.state.readyTx = true
        · simp only [doReady, hready, if_true]
          rw [hstate]
          rfl
        · simp only [doReady, hready]
          exact hstate
  | call hstage heffects hreceives => exact hl.call hstage heffects hreceives
  | @perform e rest heffects =>
      have hspoken := hl.spoken
      rw [heffects] at hspoken
      cases e with
      | _ =>
          refine ⟨hl.idle, hl.empty, hl.drawn, hl.dones, ?_, hl.state, hl.fed⟩
          show ((l.performed ++ h.effects.take 1) ++ rest).filter speaks =
            (l.outcome serde).effects.filter speaks
          rw [heffects]
          simpa using hspoken
  | exit hstage heffects =>
      refine ⟨hl.idle, hl.empty, hl.drawn, hl.dones, ?_, fun hexited => absurd rfl hexited, hl.fed⟩
      have hnone : (h.state.release ++ h.state.taskRx.flatMap ChannelWorker.dropTask).filter
          speaks = [] := by
        rw [List.filter_eq_nil_iff]
        intro e he
        rcases List.mem_append.mp he with hreleased | hdropped
        · rcases List.mem_append.mp hreleased with hstream | hdone
          · obtain ⟨tx, _, rfl⟩ := List.mem_map.mp hstream
            exact nofun
          · obtain ⟨d, _, rfl⟩ := List.mem_map.mp hdone
            exact nofun
        · obtain ⟨r, _, hr⟩ := List.mem_flatMap.mp hdropped
          rcases List.mem_cons.mp hr with rfl | hr
          · exact nofun
          · rw [List.mem_singleton.mp hr]
            exact nofun
      have hspoken := hl.spoken
      rw [heffects] at hspoken
      rw [List.filter_append, hnone]
      simpa [after] using hspoken

/-- The run would have found the new task behind the others. -/
theorem Leads.arrive (hl : l.Leads serde h) (htx : h.taskTx = true) (hstage : h.stage ≠ .exited)
    (req : DispatchRequest) :
    Leads serde { l with arrived := l.arrived ++ [h.task req] }
      { h with
        state := { h.state with taskRx := h.state.taskRx ++ [h.task req] }
        nextDone := h.nextDone + 1
        awaited := some (.pending h.nextDone) } := by
  obtain ⟨hrun, hfed⟩ := run_extend (hl.fed htx) l.start.readyTx [h.task req]
  have hbegin : ({ l with arrived := l.arrived ++ [h.task req] } : Life).begin =
      l.begin.extend l.start.readyTx [h.task req] := by
    simp [begin, WorkerState.extend]
  have houtcome : ({ l with arrived := l.arrived ++ [h.task req] } : Life).outcome serde =
      (l.outcome serde).extend l.start.readyTx [h.task req] := by
    rw [outcome, hbegin]
    exact hrun
  refine ⟨hl.idle, hl.empty, ?_, ?_, ?_, fun _ => ?_, fun _ => ?_⟩
  · intro r hr
    rcases List.mem_append.mp hr with hold | hnew
    · exact Nat.lt_succ_of_lt (hl.drawn r hold)
    · rw [List.mem_singleton.mp hnew]
      exact Nat.lt_succ_self _
  · rw [List.map_append, List.nodup_append]
    refine ⟨hl.dones, List.nodup_singleton _, ?_⟩
    rintro d hd d' hd' rfl
    obtain ⟨r, hr, rfl⟩ := List.mem_map.mp hd
    have heq : r.doneTx = h.nextDone := by simpa [ChannelWorker.task] using hd'
    exact absurd heq (Nat.ne_of_lt (hl.drawn r hr))
  · rw [houtcome]
    exact hl.spoken
  · rw [houtcome]
    have hstate := hl.state hstage
    calc { h.state with taskRx := h.state.taskRx ++ [h.task req] }
        = h.state.extend h.state.readyTx [h.task req] := rfl
      _ = ((l.outcome serde).state.extend h.state.readyTx []).extend h.state.readyTx
            [h.task req] := by rw [← hstate]
      _ = _ := by simp [Outcome.extend]
  · rw [hbegin]
    exact hfed

end Life

end FolkCore.Ext
