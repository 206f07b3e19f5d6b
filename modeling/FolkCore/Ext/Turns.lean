import FolkCore.Ext.ChannelWorker

/-!
# Everything a worker thread can do

`ActMove` reads the step function of a thread once, act by act. `Turn` lists the steps
of a thread that holds the channels of one request or of none (`Paired`), as far as its
task channel, its current request and its pending channel operations are concerned; the
bridge calls enter through `busy_move` and `idle_step`.
-/

namespace FolkCore.Ext

open Bridge Pool

variable {serde : SerdeJson} {h h' : ChannelWorker} {op : Option StreamOp}

/-- The acts of a thread with their guards and the workers they lead to. -/
inductive ActMove (serde : SerdeJson) (h : ChannelWorker) :
    ChannelWorker.ThreadAct → ChannelWorker → Option StreamOp → Prop
  | boot (hstage : h.stage = .booting) :
      ActMove serde h .boot { h with stage := .running } none
  | ready (hstage : h.stage = .running) (hidle : h.effects = []) :
      ActMove serde h .ready
        { h with state := (doReady h.state).state, effects := (doReady h.state).effects } none
  | call {s : Bridge.Step} (hstage : h.stage = .running) (hidle : h.effects = [])
      (hreceives : s.receives = true → h.state.taskRx.isEmpty = false ∨ h.taskTx = false) :
      ActMove serde h (.call s)
        { h with
          state := (s.outcome serde h.state).state
          effects := (s.outcome serde h.state).effects } none
  | perform {e : Effect} {rest : List Effect} (heffects : h.effects = e :: rest) :
      ActMove serde h .perform (h.performEffect rest e).1 (h.performEffect rest e).2
  | exit (hstage : h.stage ≠ .exited) (hidle : h.effects = []) :
      ActMove serde h .exit
        { h with
          stage := .exited
          state := { h.state.clear with taskRx := [] }
          effects := h.state.release ++ h.state.taskRx.flatMap ChannelWorker.dropTask } none

/-- Every step of a thread is one of the listed acts. -/
theorem act_move {a : ChannelWorker.ThreadAct} (hact : h.act serde a = some (h', op)) :
    ActMove serde h a h' op := by
  cases a with
  | boot =>
      simp only [ChannelWorker.act] at hact
      split at hact
      · next hstage =>
          cases hact
          exact .boot hstage
      · cases hact
  | ready =>
      simp only [ChannelWorker.act] at hact
      split at hact
      · next hguard =>
          cases hact
          exact .ready hguard.1 (List.isEmpty_iff.mp hguard.2)
      · cases hact
  | call s =>
      simp only [ChannelWorker.act] at hact
      split at hact
      · next hguard =>
          cases hact
          exact .call hguard.1 (List.isEmpty_iff.mp hguard.2.1) hguard.2.2
      · cases hact
  | perform =>
      simp only [ChannelWorker.act] at hact
      split at hact
      · next e rest heffects =>
          rw [Option.some.injEq, Prod.ext_iff] at hact
          obtain ⟨rfl, rfl⟩ := hact
          exact .perform heffects
      · cases hact
  | exit =>
      simp only [ChannelWorker.act] at hact
      split at hact
      · next hguard =>
          cases hact
          exact .exit hguard.1 (List.isEmpty_iff.mp hguard.2)
      · cases hact

/-- `do_ready` leaves the request of the thread alone. -/
theorem doReady_session (st : WorkerState) : (doReady st).state.session = st.session := by
  unfold doReady
  split
  · rfl
  · rfl

theorem doReady_effects (st : WorkerState) : ∀ e ∈ (doReady st).effects, e = .ready := by
  unfold doReady
  split
  · simp
  · simp

/-- A thread has both channels of its current request, or no request. -/
def Paired (st : WorkerState) : Prop :=
  st.Idle ∨ ∃ tx d, st.currentStreamTx = some tx ∧ st.currentDoneTx = some d

/-- The queue and the current request stay as they are. -/
structure SameWork (st st' : WorkerState) : Prop where
  queue : st'.taskRx = st.taskRx
  stream : st'.currentStreamTx = st.currentStreamTx
  done : st'.currentDoneTx = st.currentDoneTx

theorem SameWork.of_session {st st' : WorkerState} (hsession : st'.session = st.session) :
    SameWork st st' := by
  simp only [WorkerState.session, Session.mk.injEq] at hsession
  exact ⟨hsession.1, hsession.2.1, hsession.2.2.1⟩

theorem SameWork.paired {st st' : WorkerState} (hsame : SameWork st st') (hpaired : Paired st) :
    Paired st' := by
  unfold Paired WorkerState.Idle
  rw [hsame.stream, hsame.done]
  exact hpaired

inductive Turn (h : ChannelWorker) : ChannelWorker → Option StreamOp → Prop
  | booted : Turn h { h with stage := .running } none
  | quiet {state : WorkerState} {effects : List Effect} (hidle : h.effects = [])
      (hsame : SameWork h.state state) (heffects : ∀ e ∈ effects, e = .ready) :
      Turn h { h with state, effects } none
  | wrote {state : WorkerState} {tx : StreamTx} {c : ResponseChunk} (hidle : h.effects = [])
      (hsame : SameWork h.state state) (htx : h.state.currentStreamTx = some tx)
      (hc : c.isHeaders = true ∨ c.isBody = true) :
      Turn h { h with state, effects := [.send tx c] } none
  | finished {tx : StreamTx} {d : DoneTx} {v : Option ResponseChunk} {effects : List Effect}
      (hidle : h.effects = []) (htx : h.state.currentStreamTx = some tx)
      (hd : h.state.currentDoneTx = some d)
      (heffects : effects = v.toList.map (.send tx) ++
          [.send tx .streamEnd, .signal d, .dropStream tx] ∨
        effects = v.toList.map (.send tx) ++
          [.send tx .streamEnd, .dropStream tx, .signal d]) :
      Turn h { h with state := h.state.clear, effects } none
  | accepted {r : TaskRequest} {rest : List TaskRequest} (hidle : h.effects = [])
      (hqueue : h.state.taskRx = r :: rest) :
      Turn h { h with state := h.state.accept r rest, effects := h.state.release } none
  | performed {e : Effect} {rest : List Effect} (heffects : h.effects = e :: rest) :
      Turn h (h.performEffect rest e).1 (h.performEffect rest e).2
  | exited (hidle : h.effects = []) :
      Turn h { h with
        stage := .exited
        state := { h.state.clear with taskRx := [] }
        effects := h.state.release ++ h.state.taskRx.flatMap ChannelWorker.dropTask } none

theorem turn_of_call (hpaired : Paired h.state) (hidle : h.effects = []) (s : Bridge.Step) :
    Turn h { h with
      state := (s.outcome serde h.state).state
      effects := (s.outcome serde h.state).effects } none := by
  rcases hpaired with hnone | ⟨tx, d, htx, hd⟩
  · obtain ⟨heffects, ⟨hstill, hqueue⟩ | ⟨r, rest, _, hqueue, hstate⟩⟩ :=
      idle_step serde hnone s
    · apply Turn.quiet hidle
      · exact ⟨hqueue, hstill.1.trans hnone.1.symm, hstill.2.trans hnone.2.symm⟩
      · simp [heffects]
    · have hrelease : h.state.release = [] := by simp [WorkerState.release, hnone.1, hnone.2]
      rw [heffects, hstate, ← hrelease]
      exact .accepted hidle hqueue
  · have move := busy_move serde htx hd s
    generalize s.outcome serde h.state = o at move ⊢
    cases move with
    | quiet _ _ _ heffects hstate =>
        exact .quiet hidle (.of_session hstate) (by simp [heffects])
    | head _ heffects hstate =>
        rw [heffects, hstate]
        exact .wrote hidle ⟨rfl, rfl, rfl⟩ htx (.inl rfl)
    | body _ heffects hstate =>
        rw [heffects, hstate]
        exact .wrote hidle ⟨rfl, rfl, rfl⟩ htx (.inr rfl)
    | finish v _ heffects hstate =>
        rw [hstate]
        exact .finished hidle htx hd heffects
    | replace r rest _ hqueue heffects hstate =>
        have hrelease : h.state.release = [.dropStream tx, .dropDone d] := by
          simp [WorkerState.release, htx, hd]
        rw [heffects, hstate, ← hrelease]
        exact .accepted hidle hqueue

/-- Every step of a thread is one of the listed turns. -/
theorem act_turn (hpaired : Paired h.state) {a : ChannelWorker.ThreadAct}
    (hact : h.act serde a = some (h', op)) : Turn h h' op := by
  cases act_move hact with
  | boot _ => exact .booted
  | ready _ hidle =>
      exact .quiet hidle (.of_session (doReady_session h.state)) (doReady_effects h.state)
  | call _ hidle _ => exact turn_of_call hpaired hidle _
  | perform heffects => exact .performed heffects
  | exit _ hidle => exact .exited hidle

/-- One channel operation leaves the state of the thread alone. -/
@[simp] theorem performEffect_state (h : ChannelWorker) (rest : List Effect) (e : Effect) :
    (h.performEffect rest e).1.state = h.state := by
  cases e with
  | _ => rfl

@[simp] theorem performEffect_effects (h : ChannelWorker) (rest : List Effect) (e : Effect) :
    (h.performEffect rest e).1.effects = rest := by
  cases e with
  | _ => rfl

@[simp] theorem performEffect_taskTx (h : ChannelWorker) (rest : List Effect) (e : Effect) :
    (h.performEffect rest e).1.taskTx = h.taskTx := by
  cases e with
  | _ => rfl

@[simp] theorem performEffect_threadHandle (h : ChannelWorker) (rest : List Effect)
    (e : Effect) : (h.performEffect rest e).1.threadHandle = h.threadHandle := by
  cases e with
  | _ => rfl

theorem Turn.paired (turn : Turn h h' op) (hpaired : Paired h.state) : Paired h'.state := by
  cases turn with
  | booted => exact hpaired
  | quiet _ hsame _ => exact hsame.paired hpaired
  | wrote _ hsame _ _ => exact hsame.paired hpaired
  | finished _ _ _ _ => exact .inl h.state.clear_idle
  | @accepted r rest _ _ => exact .inr ⟨r.streamTx, r.doneTx, rfl, rfl⟩
  | performed _ =>
      rw [performEffect_state]
      exact hpaired
  | exited _ => exact .inl ⟨rfl, rfl⟩

/-- Only the supervisor adds tasks. -/
theorem Turn.length_le (turn : Turn h h' op) :
    h'.state.taskRx.length ≤ h.state.taskRx.length := by
  cases turn with
  | booted => exact Nat.le_refl _
  | quiet _ hsame _ => exact Nat.le_of_eq (congrArg List.length hsame.queue)
  | wrote _ hsame _ _ => exact Nat.le_of_eq (congrArg List.length hsame.queue)
  | finished _ _ _ _ => exact Nat.le_refl _
  | accepted _ hqueue => simp [hqueue]
  | performed _ => simp
  | exited _ => exact Nat.zero_le _

/-- A new worker holds nothing. -/
theorem isFresh_empty (hfresh : h.isFresh = true) :
    h.awaited = none ∧ h.state.taskRx = [] ∧ h.state.Idle ∧ h.effects = [] := by
  simp only [ChannelWorker.isFresh, Bool.and_eq_true, List.isEmpty_iff,
    Option.isNone_iff_eq_none] at hfresh
  obtain ⟨⟨⟨⟨⟨⟨⟨⟨_, hawaited⟩, _⟩, _⟩, hqueue⟩, hstream⟩, hdone⟩, heffects⟩, _⟩ := hfresh
  exact ⟨hawaited, hqueue, ⟨hstream, hdone⟩, heffects⟩

theorem isFresh_body (hfresh : h.isFresh = true) : h.state.currentBody = none := by
  simp only [ChannelWorker.isFresh, Bool.and_eq_true, Option.isNone_iff_eq_none] at hfresh
  exact hfresh.2

theorem awaited_of_ready {r : Except String Unit} (hready : h.pollExecute = .ready r) :
    h.awaited = some (.finished r) := by
  unfold ChannelWorker.pollExecute at hready
  split at hready
  · next r' hawaited =>
      cases hready
      exact hawaited
  · cases hready

/-- `execute_streaming` leaves the current request and the operations alone. -/
inductive Execution (h : ChannelWorker) (req : DispatchRequest) : ChannelWorker → Bool → Prop
  | failed {e : String} :
      Execution h req { h with awaited := some (.finished (.error e)) } false
  | queued (hroom : h.state.taskRx.length < 8) :
      Execution h req { h with
        state := { h.state with taskRx := h.state.taskRx ++ [h.task req] }
        nextDone := h.nextDone + 1
        awaited := some (.pending h.nextDone) } true

theorem execute_execution {req : DispatchRequest} {kept : Bool}
    (hcall : h.executeStreaming req = some (h', kept)) : Execution h req h' kept := by
  unfold ChannelWorker.executeStreaming at hcall
  split at hcall
  · cases hcall
    exact .failed
  · split at hcall
    · cases hcall
      exact .failed
    · split at hcall
      · next hroom =>
          cases hcall
          exact .queued hroom
      · cases hcall

/-- `execute_streaming` gets past its send when the task channel has room. -/
theorem execute_of_room (hroom : h.state.taskRx.length < 8) (req : DispatchRequest) :
    (h.executeStreaming req).isSome = true := by
  unfold ChannelWorker.executeStreaming
  split
  · rfl
  · split
    · rfl
    · rfl

end FolkCore.Ext
