import FolkCore.Ext.Collectors
import FolkCore.Ext.Turns
import FolkCore.Lib.Staged

/-!
# `execute` and its worker thread

`ChannelWorkerHandle::execute` opens a local stream of capacity 64, awaits
`execute_streaming`, and reads the stream only then. The thread pushes the chunks of
the response before it signals the end, and a push waits while the stream is full.
-/

namespace FolkCore.Ext

open Bridge Lib Pool

/-- The arguments of `execute`, and the local stream that it opens. -/
structure ExecuteCall where
  method : String
  payload : Value
  requestId : RequestId
  streamTx : StreamTx

/-- What `execute` passes on to `execute_streaming`. -/
def ExecuteCall.request (call : ExecuteCall) : DispatchRequest :=
  { requestId := call.requestId, method := call.method, payload := call.payload
    streamTx := call.streamTx, requestBody := none }

/-- Where `execute` stands: before its first poll, in the await of `execute_streaming`, in
`collect_stream_to_value`, or returned with the error of one or the result of the other. -/
inductive ExecuteStage where
  | called
  | streaming
  | collecting (acc : Gathered)
  | failed (e : String)
  | returned (r : Except WorkerError Value)

/-- The stream's receiver is a local variable of `execute`. -/
def ExecuteStage.done : ExecuteStage → Bool
  | .failed _ => true
  | .returned _ => true
  | _ => false

/-- The handle with its thread, the bridge steps that the thread has still to make, and
the local stream. -/
structure ExecuteState where
  handle : ChannelWorker
  script : List Step
  stage : ExecuteStage
  senderOpen : Bool
  buffer : List ResponseChunk

inductive ExecuteAction where
  | poll
  | thread

namespace ExecuteState

/-- `execute` goes on by one await. -/
def poll (call : ExecuteCall) (s : ExecuteState) : Option ExecuteState :=
  match s.stage with
  | .called =>
      (s.handle.executeStreaming call.request).map fun r =>
        { s with handle := r.1, stage := .streaming, senderOpen := r.2, buffer := [] }
  | .streaming =>
      match s.handle.pollExecute with
      | .ready (.ok ()) => some { s with stage := .collecting .empty }
      | .ready (.error e) => some { s with stage := .failed e, buffer := [] }
      | _ => none
  | .collecting acc =>
      match s.buffer with
      | c :: rest =>
          match acc.take c with
          | .inl acc => some { s with buffer := rest, stage := .collecting acc }
          | .inr r => some { s with buffer := [], stage := .returned r }
      | [] =>
          if s.senderOpen then none else some { s with stage := .returned (.ok acc.finish) }
  | _ => none

/-- The channel operation of the thread on the local stream. A push waits while the
stream is full and is lost when the receiver is gone. -/
def operate (s : ExecuteState) (handle : ChannelWorker) : Option StreamOp → Option ExecuteState
  | some (.push _ c) =>
      if s.stage.done then some { s with handle }
      else if s.buffer.length < 64 then some { s with handle, buffer := s.buffer ++ [c] }
      else none
  | some (.close _) => some { s with handle, senderOpen := false }
  | none => some { s with handle }

/-- The thread performs its next channel operation, or makes the next bridge step. -/
def thread (serde : SerdeJson) (s : ExecuteState) : Option ExecuteState :=
  match s.handle.effects with
  | _ :: _ => (s.handle.act serde .perform).bind fun r => s.operate r.1 r.2
  | [] =>
      match s.script with
      | step :: rest =>
          (s.handle.act serde (.call step)).map fun r => { s with handle := r.1, script := rest }
      | [] => none

def step (serde : SerdeJson) (call : ExecuteCall) (s : ExecuteState) :
    ExecuteAction → Option ExecuteState
  | .poll => s.poll call
  | .thread => s.thread serde

end ExecuteState

/-- A worker whose thread waits for a task. -/
structure IdleWorker where
  handle : ChannelWorker
  taskTx : handle.taskTx = true
  running : handle.stage = .running
  effects : handle.effects = []
  idle : handle.state.Idle
  taskRx : handle.state.taskRx = []

/-- The steps of a thread that receives the request of `call` and finalises it. -/
structure Handler (serde : SerdeJson) (w : IdleWorker) (call : ExecuteCall) where
  receive : Step
  work : List Step
  receives : receive.receives = true
  works : ∀ s ∈ work, s.receives = false
  finalises :
    (run serde work (w.handle.state.accept (w.handle.task call.request) [])).state.Idle

variable {serde : SerdeJson} {w : IdleWorker} {call : ExecuteCall}

namespace Handler

def script (handler : Handler serde w call) : List Step := handler.receive :: handler.work

/-- The channel operations of the handler, from the task it receives on. -/
def log (handler : Handler serde w call) : List Effect :=
  (run serde handler.script
    { w.handle.state with taskRx := [w.handle.task call.request] }).effects

/-- The chunks that the handler emits for the request. -/
def chunks (handler : Handler serde w call) : List ResponseChunk :=
  streamChunks (w.handle.task call.request) handler.log

/-- `execute` is called and the thread waits. -/
def start (handler : Handler serde w call) : ExecuteState :=
  { handle := w.handle, script := handler.script, stage := .called, senderOpen := false
    buffer := [] }

end Handler

section Emission

variable {st : WorkerState} {tx : StreamTx} {d : DoneTx} {work : List Step}

/-- Without a request and without a receive nothing is operated. -/
theorem run_idle_effects (hidle : st.Idle) (hwork : ∀ s ∈ work, s.receives = false) :
    (run serde work st).effects = [] := by
  induction work generalizing st with
  | nil => rfl
  | cons s rest ih =>
      obtain ⟨heffects, ⟨hstill, _⟩ | ⟨_, _, hreceives, _⟩⟩ := idle_step serde hidle s
      · rw [run]
        simp only [heffects, List.nil_append]
        exact ih hstill fun s' hs' => hwork s' (List.mem_cons_of_mem s hs')
      · rw [hwork s List.mem_cons_self] at hreceives
        cases hreceives

/-- Steps that finalise the held request push its chunks, and then signal its end and
drop its sender. -/
theorem run_emits (htx : st.currentStreamTx = some tx) (hd : st.currentDoneTx = some d)
    (hwork : ∀ s ∈ work, s.receives = false) (hidle : (run serde work st).state.Idle) :
    ∃ (cs : List ResponseChunk) (tail : List Effect),
      (run serde work st).effects = cs.map (.send tx) ++ tail ∧
      (tail = [.signal d, .dropStream tx] ∨ tail = [.dropStream tx, .signal d]) := by
  induction work generalizing st with
  | nil =>
      have hnone := hidle.1
      rw [run_nil] at hnone
      rw [hnone] at htx
      cases htx
  | cons s rest ih =>
      have hs := hwork s List.mem_cons_self
      have hrest : ∀ s' ∈ rest, s'.receives = false :=
        fun s' hs' => hwork s' (List.mem_cons_of_mem s hs')
      have move := busy_move serde htx hd s
      rw [run] at hidle ⊢
      simp only at hidle ⊢
      generalize s.outcome serde st = o at move hidle ⊢
      cases move with
      | quiet _ _ _ heffects hstate =>
          have hsame := SameWork.of_session hstate
          obtain ⟨cs, tail, hrun, htail⟩ :=
            ih (hsame.stream.trans htx) (hsame.done.trans hd) hrest hidle
          exact ⟨cs, tail, by rw [heffects, List.nil_append, hrun], htail⟩
      | head _ heffects hstate =>
          obtain ⟨cs, tail, hrun, htail⟩ :=
            ih (by rw [hstate, htx]) (by rw [hstate, hd]) hrest hidle
          exact ⟨_ :: cs, tail, by rw [heffects, hrun]; rfl, htail⟩
      | body _ heffects hstate =>
          obtain ⟨cs, tail, hrun, htail⟩ :=
            ih (by rw [hstate, htx]) (by rw [hstate, hd]) hrest hidle
          exact ⟨_ :: cs, tail, by rw [heffects, hrun]; rfl, htail⟩
      | finish v _ heffects hstate =>
          have hsilent : (run serde rest o.state).effects = [] :=
            run_idle_effects (by rw [hstate]; exact st.clear_idle) hrest
          rw [hsilent, List.append_nil]
          rcases heffects with heffects | heffects
          · exact ⟨v.toList ++ [.streamEnd], _, by simp [heffects], .inl rfl⟩
          · exact ⟨v.toList ++ [.streamEnd], _, by simp [heffects], .inr rfl⟩
      | replace _ _ hreceives =>
          rw [hs] at hreceives
          cases hreceives

end Emission

theorem receive_outcome (serde : SerdeJson) {st : WorkerState} {s : Step}
    (hs : s.receives = true) {r : TaskRequest} {rest : List TaskRequest}
    (hq : st.taskRx = r :: rest) :
    (s.outcome serde st).state = st.accept r rest ∧
      (s.outcome serde st).effects = st.release := by
  cases s with
  | loopRecv =>
      rw [loopRecv_outcome serde hq]
      exact ⟨rfl, rfl⟩
  | loopFinish result => cases hs
  | call c =>
      cases c with
      | recv =>
          rw [recv_outcome serde hq]
          exact ⟨rfl, rfl⟩
      | _ => cases hs

/-- The chunks of a request, from the operations on its stream. -/
theorem streamChunks_sends (r : TaskRequest) (cs : List ResponseChunk) :
    streamChunks r (cs.map (.send r.streamTx)) = cs := by
  induction cs with
  | nil => rfl
  | cons c rest ih =>
      have hcons : streamChunks r (.send r.streamTx c :: rest.map (.send r.streamTx)) =
          c :: streamChunks r (rest.map (.send r.streamTx)) := by
        simp [streamChunks, history, Bridge.chunks, Effect.mark]
      rw [List.map_cons, hcons, ih]

/-- What a channel operation is to the two parties of a staged hand-over. -/
def opOf : Effect → Option (Staged.Op ResponseChunk)
  | .send _ c => some (.push c)
  | .signal _ => some .signal
  | .dropStream _ => some .close
  | _ => none

/-- `collect_stream_to_value` as a collector. -/
def gatherer : Collector ResponseChunk Gathered (Except WorkerError Value) where
  start := .empty
  take := Gathered.take
  finish acc := .ok acc.finish

theorem gatherer_drain (chunks : List ResponseChunk) (acc : Gathered) :
    gatherer.drain chunks acc = acc.drain chunks := by
  induction chunks generalizing acc with
  | nil => rfl
  | cons c rest ih =>
      simp only [Collector.drain, Gathered.drain, gatherer]
      cases acc.take c with
      | inl acc' => exact ih acc'
      | inr r => rfl

namespace Handler

variable (handler : Handler serde w call)

/-- The operations of a handler: its chunks, and then the signal and the close. -/
theorem log_form : ∃ tail : List Effect,
    handler.log = handler.chunks.map (.send call.streamTx) ++ tail ∧
      (tail = [.signal w.handle.nextDone, .dropStream call.streamTx] ∨
        tail = [.dropStream call.streamTx, .signal w.handle.nextDone]) := by
  have hqueue : WorkerState.taskRx
      { w.handle.state with taskRx := [w.handle.task call.request] } =
        [w.handle.task call.request] := rfl
  obtain ⟨hstate, heffects⟩ := receive_outcome serde handler.receives hqueue
  have hrelease : WorkerState.release
      { w.handle.state with taskRx := [w.handle.task call.request] } = [] := by
    simp [WorkerState.release, w.idle.1, w.idle.2]
  obtain ⟨cs, tail, hrun, htail⟩ :=
    run_emits rfl rfl handler.works handler.finalises
  have hlog : handler.log = cs.map (.send call.streamTx) ++ tail := by
    rw [log, script, run]
    simp only [heffects, hrelease, List.nil_append, hstate]
    exact hrun
  have htail' : streamChunks (w.handle.task call.request) tail = [] := by
    rcases htail with rfl | rfl
    · simp [streamChunks, history, Bridge.chunks, Effect.mark, List.filterMap_cons]
    · simp [streamChunks, history, Bridge.chunks, Effect.mark, List.filterMap_cons]
  have hchunks : handler.chunks = cs := by
    rw [chunks, hlog, streamChunks_append, htail', List.append_nil]
    exact streamChunks_sends (w.handle.task call.request) cs
  exact ⟨tail, hchunks ▸ hlog, htail⟩

end Handler

section Simulation

/-- The operations of the thread still to come: the pending ones and those of its script. -/
def ExecuteState.todo (serde : SerdeJson) (s : ExecuteState) : List Effect :=
  s.handle.effects ++ (run serde s.script s.handle.state).effects

/-- The done channel has fired. -/
def signalledOf : Option Awaited → Bool
  | some (.finished (.ok ())) => true
  | _ => false

def ExecuteStage.staged : ExecuteStage → Staged.Stage Gathered (Except WorkerError Value)
  | .collecting acc => .draining acc
  | .returned r => .returned r
  | _ => .waiting

/-- The execution as a staged hand-over. -/
def ExecuteState.staged (serde : SerdeJson) (s : ExecuteState) :
    Staged.State ResponseChunk Gathered (Except WorkerError Value) :=
  { todo := (s.todo serde).filterMap opOf
    signalled := signalledOf s.handle.awaited
    senderOpen := s.senderOpen
    buffer := s.buffer
    stage := s.stage.staged }

/-- An operation of the request with the stream `tx` and the done channel `d`. -/
def Serves (tx : StreamTx) (d : DoneTx) (e : Effect) : Prop :=
  (∃ c, e = .send tx c) ∨ e = .signal d ∨ e = .dropStream tx

/-- An execution whose task is sent. -/
structure Underway (serde : SerdeJson) (tx : StreamTx) (d : DoneTx) (s : ExecuteState) :
    Prop where
  running : s.handle.stage = .running
  serves : ∀ e ∈ s.todo serde, Serves tx d e
  awaited : s.handle.awaited = some (.pending d) ∨
    s.handle.awaited = some (.finished (.ok ()))
  receives : ∀ step rest, s.script = step :: rest → step.receives = true →
    s.handle.state.taskRx ≠ []
  works : ∀ step ∈ s.script.tail, step.receives = false
  called : s.stage ≠ .called
  failed : ∀ e, s.stage ≠ .failed e

variable {s t : ExecuteState} {tx : StreamTx} {d : DoneTx}

/-- A poll changes the stage and the buffer only. -/
theorem Underway.polled (h : Underway serde tx d s) {stage : ExecuteStage}
    {buffer : List ResponseChunk} (hcalled : stage ≠ .called)
    (hfailed : ∀ e, stage ≠ .failed e) : Underway serde tx d { s with stage, buffer } where
  running := h.running
  serves := h.serves
  awaited := h.awaited
  receives := h.receives
  works := h.works
  called := hcalled
  failed := hfailed

/-- A channel operation of the thread takes one operation off the pending ones. -/
theorem Underway.operated (h : Underway serde tx d s) {rest : List Effect}
    {awaited : Option Awaited} {buffer : List ResponseChunk} {senderOpen : Bool}
    (hserves : ∀ e ∈ rest ++ (run serde s.script s.handle.state).effects, Serves tx d e)
    (hawaited : awaited = some (.pending d) ∨ awaited = some (.finished (.ok ()))) :
    Underway serde tx d
      { s with handle := { s.handle with effects := rest, awaited }, buffer, senderOpen } where
  running := h.running
  serves := hserves
  awaited := hawaited
  receives := h.receives
  works := h.works
  called := h.called
  failed := h.failed

/-- A poll of `execute` is a step of the consumer. -/
theorem Underway.poll (h : Underway serde tx d s) (hstep : s.poll call = some t) :
    Underway serde tx d t ∧ t.script = s.script ∧
      Staged.step gatherer 64 (s.staged serde) .consumer = some (t.staged serde) := by
  unfold ExecuteState.poll at hstep
  split at hstep
  · next hstage => exact absurd hstage h.called
  · next hstage =>
      split at hstep
      · next hready =>
          cases hstep
          have hsignal := awaited_of_ready hready
          refine ⟨h.polled (by simp) (by simp), rfl, ?_⟩
          simp [Staged.step, ExecuteState.staged, ExecuteStage.staged, hstage, hsignal,
            signalledOf, gatherer, ExecuteState.todo]
      · next e hready =>
          have hfailed := awaited_of_ready hready
          rcases h.awaited with hpending | hfinished
          · rw [hpending] at hfailed
            cases hfailed
          · rw [hfinished] at hfailed
            cases hfailed
      · cases hstep
  · next acc hstage =>
      split at hstep
      · next c rest hbuffer =>
          split at hstep
          · next acc' htake =>
              cases hstep
              refine ⟨h.polled (by simp) (by simp), rfl, ?_⟩
              simp [Staged.step, ExecuteState.staged, ExecuteStage.staged, hstage, hbuffer,
                gatherer, htake, ExecuteState.todo]
          · next r htake =>
              cases hstep
              refine ⟨h.polled (by simp) (by simp), rfl, ?_⟩
              simp [Staged.step, ExecuteState.staged, ExecuteStage.staged, hstage, hbuffer,
                gatherer, htake, ExecuteState.todo]
      · next hbuffer =>
          split at hstep
          · cases hstep
          · next hclosed =>
              cases hstep
              refine ⟨h.polled (by simp) (by simp), rfl, ?_⟩
              simp [Staged.step, ExecuteState.staged, ExecuteStage.staged, hstage, hbuffer,
                gatherer, hclosed, ExecuteState.todo]
  · cases hstep

/-- A bridge step of the thread moves its operations from the script to the pending ones. -/
theorem Underway.bridgeStep (h : Underway serde tx d s) (hidle : s.handle.effects = [])
    {b : Step} {rest : List Step} (hscript : s.script = b :: rest) {handle : ChannelWorker}
    {op : Option StreamOp} (hact : s.handle.act serde (.call b) = some (handle, op)) :
    Underway serde tx d { s with handle, script := rest } ∧
      ExecuteState.staged serde { s with handle, script := rest } = s.staged serde := by
  cases act_move hact with
  | call hrunning _ _ =>
      let t : ExecuteState :=
        { s with
          handle := { s.handle with
            state := (b.outcome serde s.handle.state).state
            effects := (b.outcome serde s.handle.state).effects }
          script := rest }
      have htodo : t.todo serde = s.todo serde := by
        simp [t, ExecuteState.todo, hidle, hscript, run]
      have hworks : ∀ step ∈ rest, step.receives = false := by simpa [hscript] using h.works
      refine ⟨⟨hrunning, htodo ▸ h.serves, h.awaited, ?_, ?_, h.called, h.failed⟩, ?_⟩
      · intro step more heq hreceives
        rw [hworks step (by simp [show rest = step :: more from heq])] at hreceives
        cases hreceives
      · intro step hstep
        exact hworks step (List.mem_of_mem_tail hstep)
      · change t.staged serde = s.staged serde
        simp only [ExecuteState.staged, htodo, t]

/-- A channel operation of the thread is a step of the producer. -/
theorem Underway.perform (h : Underway serde tx d s) {e : Effect} {rest : List Effect}
    (heffects : s.handle.effects = e :: rest)
    (hoperate : s.operate (s.handle.performEffect rest e).1 (s.handle.performEffect rest e).2 =
      some t) :
    Underway serde tx d t ∧ t.script = s.script ∧
      Staged.step gatherer 64 (s.staged serde) .producer = some (t.staged serde) := by
  have htodo : s.todo serde = e :: (rest ++ (run serde s.script s.handle.state).effects) := by
    rw [ExecuteState.todo, heffects, List.cons_append]
  have hserves : ∀ e' ∈ rest ++ (run serde s.script s.handle.state).effects, Serves tx d e' := by
    intro e' he'
    exact h.serves e' (htodo ▸ List.mem_cons_of_mem e he')
  rcases h.serves e (htodo ▸ List.mem_cons_self) with ⟨c, rfl⟩ | rfl | rfl
  · simp only [ChannelWorker.performEffect, ExecuteState.operate] at hoperate
    split at hoperate
    · next hdone =>
        cases hoperate
        refine ⟨h.operated hserves h.awaited, rfl, ?_⟩
        cases hstage : s.stage with
        | returned r =>
            simp [Staged.step, ExecuteState.staged, heffects, opOf, hstage,
              ExecuteStage.staged, ExecuteState.todo]
        | failed error => exact absurd hstage (h.failed error)
        | _ => simp [hstage, ExecuteStage.done] at hdone
    · next hlive =>
        split at hoperate
        · next hroom =>
            cases hoperate
            refine ⟨h.operated hserves h.awaited, rfl, ?_⟩
            cases hstage : s.stage with
            | returned r => simp [hstage, ExecuteStage.done] at hlive
            | _ =>
                simp [Staged.step, ExecuteState.staged, heffects, opOf, hstage,
                  ExecuteStage.staged, ExecuteState.todo, hroom]
        · cases hoperate
  · cases hoperate
    have hresolved : s.handle.resolve d (.ok ()) = some (.finished (.ok ())) := by
      rcases h.awaited with hpending | hfinished
      · simp [ChannelWorker.resolve, hpending]
      · simp [ChannelWorker.resolve, hfinished]
    refine ⟨h.operated hserves (.inr hresolved), rfl, ?_⟩
    simp [Staged.step, ExecuteState.staged, heffects, opOf,
      ExecuteState.todo, ChannelWorker.performEffect, hresolved, signalledOf]
  · cases hoperate
    refine ⟨h.operated hserves h.awaited, rfl, ?_⟩
    simp [Staged.step, ExecuteState.staged, heffects, opOf,
      ExecuteState.todo, ChannelWorker.performEffect]

/-- A step of the execution is a step of one party, or a bridge step of the thread. -/
theorem Underway.step (h : Underway serde tx d s) {a : ExecuteAction}
    (hstep : s.step serde call a = some t) : Underway serde tx d t ∧
      (t.staged serde = s.staged serde ∧ t.script.length < s.script.length ∨
        t.script = s.script ∧
          ∃ p, Staged.step gatherer 64 (s.staged serde) p = some (t.staged serde)) := by
  cases a with
  | poll =>
      obtain ⟨hunder, hscript, hstaged⟩ := h.poll hstep
      exact ⟨hunder, .inr ⟨hscript, .consumer, hstaged⟩⟩
  | thread =>
      simp only [ExecuteState.step, ExecuteState.thread] at hstep
      split at hstep
      · next e rest heffects =>
          obtain ⟨⟨handle, op⟩, hact, hoperate⟩ := Option.bind_eq_some_iff.mp hstep
          have hmove := act_move hact
          generalize hperform : ChannelWorker.ThreadAct.perform = act at hmove
          cases hmove with
          | @perform e' rest' heffects' =>
              rw [heffects] at heffects'
              obtain ⟨rfl, rfl⟩ := List.cons.inj heffects'
              obtain ⟨hunder, hscript, hstaged⟩ := h.perform heffects hoperate
              exact ⟨hunder, .inr ⟨hscript, .producer, hstaged⟩⟩
          | _ => cases hperform
      · next hidle =>
          split at hstep
          · next b rest hscript =>
              obtain ⟨⟨handle, op⟩, hact, rfl⟩ := Option.map_eq_some_iff.mp hstep
              obtain ⟨hunder, hstaged⟩ := h.bridgeStep hidle hscript hact
              exact ⟨hunder, .inl ⟨hstaged, by simp [hscript]⟩⟩
          · cases hstep

/-- Where a party of the hand-over can go on, so can the execution. -/
theorem Underway.enabled (h : Underway serde tx d s) {p : Staged.Party}
    (hp : (Staged.step gatherer 64 (s.staged serde) p).isSome) (call : ExecuteCall) :
    ∃ a, (s.step serde call a).isSome := by
  cases p with
  | consumer =>
      refine ⟨.poll, ?_⟩
      cases hstage : s.stage with
      | called => exact absurd hstage h.called
      | failed e => exact absurd hstage (h.failed e)
      | returned r => simp [Staged.step, ExecuteState.staged, hstage, ExecuteStage.staged] at hp
      | streaming =>
          rcases h.awaited with hpending | hfinished
          · simp [Staged.step, ExecuteState.staged, hstage, ExecuteStage.staged, hpending,
              signalledOf] at hp
          · simp [ExecuteState.step, ExecuteState.poll, hstage, ChannelWorker.pollExecute,
              hfinished]
      | collecting acc =>
          cases hbuffer : s.buffer with
          | nil =>
              simp only [Staged.step, ExecuteState.staged, hstage, ExecuteStage.staged,
                hbuffer] at hp
              simp only [ExecuteState.step, ExecuteState.poll, hstage, hbuffer]
              split at hp
              · cases hp
              · next hclosed => simp [hclosed]
          | cons c rest =>
              simp only [ExecuteState.step, ExecuteState.poll, hstage, hbuffer]
              split <;> rfl
  | producer =>
      refine ⟨.thread, ?_⟩
      simp only [ExecuteState.step, ExecuteState.thread]
      cases heffects : s.handle.effects with
      | nil =>
          cases hscript : s.script with
          | nil =>
              simp [Staged.step, ExecuteState.staged, ExecuteState.todo, heffects, hscript] at hp
          | cons b rest =>
              have hready : b.receives = true →
                  s.handle.state.taskRx.isEmpty = false ∨ s.handle.taskTx = false := by
                intro hreceives
                exact .inl (List.isEmpty_eq_false_iff.mpr (h.receives b rest hscript hreceives))
              simp only [ChannelWorker.act, h.running, heffects, List.isEmpty_nil, true_and]
              rw [if_pos hready]
              rfl
      | cons e rest =>
          have hmem : e ∈ s.todo serde := by simp [ExecuteState.todo, heffects]
          simp only [ChannelWorker.act, heffects, Option.bind_some]
          rcases h.serves e hmem with ⟨c, rfl⟩ | rfl | rfl
          · simp only [ChannelWorker.performEffect, ExecuteState.operate]
            split
            · rfl
            · next hlive =>
                split
                · rfl
                · next hfull =>
                    cases hstage : s.stage with
                    | returned r => simp [hstage, ExecuteStage.done] at hlive
                    | _ =>
                        simp [Staged.step, ExecuteState.staged, heffects, opOf, hstage,
                          ExecuteStage.staged, ExecuteState.todo, hfull] at hp
          · rfl
          · rfl

/-- What is left to do of the hand-over and of the script. -/
def ExecuteState.measure (serde : SerdeJson) (s : ExecuteState) : Nat :=
  (s.staged serde).measure + s.script.length

theorem Underway.measure_lt (h : Underway serde tx d s) {a : ExecuteAction}
    (hstep : s.step serde call a = some t) :
    Underway serde tx d t ∧ t.measure serde < s.measure serde := by
  unfold ExecuteState.measure
  obtain ⟨hunder, ⟨hsame, hscript⟩ | ⟨hscript, p, hstaged⟩⟩ := h.step hstep
  · rw [hsame]
    exact ⟨hunder, by omega⟩
  · rw [hscript]
    have hlt := Staged.measure_lt (Staged.step_move hstaged)
    exact ⟨hunder, by omega⟩

end Simulation

namespace Handler

variable (handler : Handler serde w call)

/-- `execute` has sent its task and awaits the done channel. -/
def sent : ExecuteState :=
  { handle := { w.handle with
      state := { w.handle.state with taskRx := [w.handle.task call.request] }
      nextDone := w.handle.nextDone + 1
      awaited := some (.pending w.handle.nextDone) }
    script := handler.script, stage := .streaming, senderOpen := true, buffer := [] }

theorem start_poll : handler.start.step serde call .poll = some handler.sent := by
  have hrunning : w.handle.stage ≠ .exited := by simp [w.running]
  simp [ExecuteState.step, ExecuteState.poll, start, ChannelWorker.executeStreaming, w.taskTx,
    hrunning, w.taskRx, sent]

/-- The thread waits for a task, so the first step is the send. -/
theorem start_step {a : ExecuteAction} {t : ExecuteState}
    (h : handler.start.step serde call a = some t) : t = handler.sent := by
  cases a with
  | poll =>
      rw [handler.start_poll] at h
      exact (Option.some.inj h).symm
  | thread =>
      simp [ExecuteState.step, ExecuteState.thread, start, script, w.effects, ChannelWorker.act,
        handler.receives, w.taskRx, w.taskTx] at h

theorem sent_todo : handler.sent.todo serde = handler.log := by
  simp [ExecuteState.todo, sent, w.effects, log]

theorem underway_sent :
    Underway serde call.streamTx w.handle.nextDone handler.sent := by
  refine ⟨w.running, ?_, .inl rfl, ?_, handler.works, by simp [sent], by simp [sent]⟩
  · intro e he
    rw [sent_todo] at he
    obtain ⟨tail, hlog, htail⟩ := handler.log_form
    rw [hlog, List.mem_append, List.mem_map] at he
    rcases he with ⟨c, _, rfl⟩ | he
    · exact .inl ⟨c, rfl⟩
    · right
      rcases htail with rfl | rfl
      · simpa using he
      · simpa [or_comm] using he
  · intro step rest _ _
    simp [sent]

/-- The hand-over that the handler's operations make. -/
theorem sent_staged : ∃ tail, Staged.Closing tail ∧
    handler.sent.staged serde = Staged.start (handler.chunks.map .push ++ tail) := by
  obtain ⟨tail, hlog, htail⟩ := handler.log_form
  refine ⟨tail.filterMap opOf, ?_, ?_⟩
  · rcases htail with rfl | rfl
    · exact ⟨by simp [opOf], by simp [opOf], by simp [opOf], by simp [opOf]⟩
    · exact ⟨by simp [opOf], by simp [opOf], by simp [opOf], by simp [opOf]⟩
  · have hpushes : (handler.chunks.map (Effect.send call.streamTx)).filterMap opOf =
        handler.chunks.map .push := by
      rw [List.filterMap_map]
      exact List.filterMap_eq_map (f := Staged.Op.push) ▸ rfl
    rw [ExecuteState.staged, sent_todo, hlog, List.filterMap_append, hpushes]
    rfl

/-- Every state of the execution is the start or a state of the hand-over. -/
theorem reachable_staged {s : ExecuteState}
    (h : Reachable (ExecuteState.step serde call) handler.start s) : s = handler.start ∨
      Underway serde call.streamTx w.handle.nextDone s ∧
        Reachable (Staged.step gatherer 64) (handler.sent.staged serde) (s.staged serde) := by
  apply h.invariant (fun s => s = handler.start ∨
    Underway serde call.streamTx w.handle.nextDone s ∧
      Reachable (Staged.step gatherer 64) (handler.sent.staged serde) (s.staged serde))
  · exact .inl rfl
  · rintro s a t (rfl | ⟨hunder, hreach⟩) _ hstep
    · rw [handler.start_step hstep]
      exact .inr ⟨handler.underway_sent, .start⟩
    · obtain ⟨hunder', ⟨hsame, _⟩ | ⟨_, p, hstaged⟩⟩ := hunder.step hstep
      · exact .inr ⟨hunder', hsame ▸ hreach⟩
      · exact .inr ⟨hunder', .next hreach trivial hstaged⟩

/-- No reachable state before the return is stuck, what is returned is the collected value,
and no run goes on for ever. -/
structure Completes : Prop where
  goes_on : ∀ s, Reachable (ExecuteState.step serde call) handler.start s →
    s.stage.done = false → ∃ a, (s.step serde call a).isSome
  value : ∀ s, Reachable (ExecuteState.step serde call) handler.start s →
    s.stage.done = true → s.stage = .returned (collectStreamToValue handler.chunks)
  bounded : ∃ bound, ∀ actions t,
    runs (ExecuteState.step serde call) handler.start actions = some t →
    actions.length ≤ bound

theorem bounded : ∃ bound, ∀ actions t,
    runs (ExecuteState.step serde call) handler.start actions = some t →
    actions.length ≤ bound := by
  refine ⟨handler.sent.measure serde + 1, ?_⟩
  intro actions t hrun
  cases actions with
  | nil => exact Nat.zero_le _
  | cons a rest =>
      obtain ⟨u, hu, hrest⟩ := Option.bind_eq_some_iff.mp hrun
      rw [handler.start_step hu] at hrest
      have hle := runs_length_le (Underway serde call.streamTx w.handle.nextDone)
        (ExecuteState.measure serde) (fun _ _ _ h hstep => h.measure_lt hstep)
        handler.underway_sent hrest
      rw [List.length_cons]
      omega

theorem value {s : ExecuteState}
    (h : Reachable (ExecuteState.step serde call) handler.start s)
    (hdone : s.stage.done = true) :
    s.stage = .returned (collectStreamToValue handler.chunks) := by
  rcases handler.reachable_staged h with rfl | ⟨hunder, hreach⟩
  · cases hdone
  · obtain ⟨tail, htail, hstart⟩ := handler.sent_staged
    rw [hstart] at hreach
    cases hstage : s.stage with
    | returned r =>
        have hreturned : (s.staged serde).stage = .returned r := by
          simp [ExecuteState.staged, hstage, ExecuteStage.staged]
        have heq := Staged.returned_eq htail hreach hreturned
        rw [heq, gatherer_drain]
        rfl
    | failed e => exact absurd hstage (hunder.failed e)
    | _ => simp [hstage, ExecuteStage.done] at hdone

/-- A response of at most 64 chunks gets through. -/
theorem goes_on_of_fits (hfits : handler.chunks.length ≤ 64) {s : ExecuteState}
    (h : Reachable (ExecuteState.step serde call) handler.start s)
    (hdone : s.stage.done = false) : ∃ a, (s.step serde call a).isSome := by
  rcases handler.reachable_staged h with rfl | ⟨hunder, hreach⟩
  · exact ⟨.poll, by rw [handler.start_poll]; rfl⟩
  · obtain ⟨tail, htail, hstart⟩ := handler.sent_staged
    rw [hstart] at hreach
    have hlive (r : Except WorkerError Value) : (s.staged serde).stage ≠ .returned r := by
      cases hstage : s.stage with
      | returned r => simp [hstage, ExecuteStage.done] at hdone
      | _ => simp [ExecuteState.staged, hstage, ExecuteStage.staged]
    obtain ⟨p, hp⟩ := (Staged.inv_of_reachable htail hreach).enabled hfits hlive
    exact hunder.enabled hp call

/-- A longer response wedges: the thread waits for room in the stream, and `execute`
waits for the end of the response before it makes room. -/
theorem wedges_of_overflow (hfull : 64 < handler.chunks.length) :
    ∃ s, Reachable (ExecuteState.step serde call) handler.start s ∧ s.stage = .streaming ∧
      Halted (ExecuteState.step serde call) s := by
  obtain ⟨s, hreach, hhalted⟩ : ∃ s, Reachable (ExecuteState.step serde call) handler.sent s ∧
      Halted (ExecuteState.step serde call) s :=
    exists_halted (Underway serde call.streamTx w.handle.nextDone) (ExecuteState.measure serde)
      (fun _ _ _ h hstep => h.measure_lt hstep) handler.underway_sent
  have hfirst : Reachable (ExecuteState.step serde call) handler.start handler.sent :=
    .next .start trivial handler.start_poll
  refine ⟨s, hfirst.trans hreach, ?_, hhalted⟩
  rcases handler.reachable_staged (hfirst.trans hreach) with rfl | ⟨hunder, hstaged⟩
  · have hpoll := hhalted .poll
    rw [handler.start_poll] at hpoll
    cases hpoll
  · obtain ⟨tail, htail, hstart⟩ := handler.sent_staged
    rw [hstart] at hstaged
    have hwaiting := Staged.waiting_of_overflow htail hfull hstaged
    cases hstage : s.stage with
    | streaming => rfl
    | called => exact absurd hstage hunder.called
    | failed e => exact absurd hstage (hunder.failed e)
    | collecting acc => simp [ExecuteState.staged, hstage, ExecuteStage.staged] at hwaiting
    | returned r => simp [ExecuteState.staged, hstage, ExecuteStage.staged] at hwaiting

theorem not_completes_of_overflow (hfull : 64 < handler.chunks.length) :
    ¬handler.Completes := by
  intro hcompletes
  obtain ⟨s, hreach, hstreaming, hhalted⟩ := handler.wedges_of_overflow hfull
  obtain ⟨a, ha⟩ := hcompletes.goes_on s hreach (by rw [hstreaming]; rfl)
  rw [hhalted a] at ha
  cases ha

end Handler

/-- `execute` gets through a response, and then returns its collected value, exactly when
the handler emits at most as many chunks as the local stream holds. -/
theorem execute_completes_iff (handler : Handler serde w call) :
    handler.Completes ↔ handler.chunks.length ≤ 64 := by
  constructor
  · intro hcompletes
    by_contra hfull
    exact handler.not_completes_of_overflow (Nat.lt_of_not_le hfull) hcompletes
  · intro hfits
    exact ⟨fun _ h hdone => handler.goes_on_of_fits hfits h hdone,
      fun _ h hdone => handler.value h hdone, handler.bounded⟩

section Responses

/-- One iteration of `run_dispatch_loop` is a handler. -/
def Handler.ofBehaviour (serde : SerdeJson) (w : IdleWorker) (call : ExecuteCall)
    (b : Behaviour) : Handler serde w call where
  receive := .loopRecv
  work := b.calls.map .call ++ [.loopFinish b.result]
  receives := rfl
  works := by
    intro s hs
    rw [List.mem_append, List.mem_map, List.mem_singleton] at hs
    rcases hs with ⟨c, hc, rfl⟩ | rfl
    · cases c with
      | recv => exact absurd hc b.no_recv
      | _ => rfl
    · rfl
  finalises := by
    rw [run_snoc]
    exact WorkerState.clear_idle _

/-- The operations of such a handler are those of the iteration. -/
theorem Handler.ofBehaviour_log (serde : SerdeJson) (w : IdleWorker) (call : ExecuteCall)
    (b : Behaviour) : (Handler.ofBehaviour serde w call b).log =
      (dispatchIteration serde b
        { w.handle.state with taskRx := [w.handle.task call.request] }).effects := rfl

/-- A response of `n` chunks of one byte each and the end. -/
def Behaviour.bytes (n : Nat) : Behaviour where
  calls := List.replicate n (.write true [65]) ++ [.writeEnd]
  no_recv := by simp
  result := .ok .null

/-- A thread that has never had a request. -/
def IdleWorker.new : IdleWorker where
  handle := { ChannelWorker.fresh 1 true with stage := .running }
  taskTx := rfl
  running := rfl
  effects := rfl
  idle := ⟨rfl, rfl⟩
  taskRx := rfl

def ExecuteCall.sample : ExecuteCall :=
  { method := "dispatch", payload := .null, requestId := 0, streamTx := 0 }

/-- 64 bytes written one by one: with the end there are 65 chunks. -/
theorem byte_writes_wedge :
    ¬(Handler.ofBehaviour .ofNull .new .sample (Behaviour.bytes 64)).Completes :=
  Handler.not_completes_of_overflow _ (by decide +kernel)

/-- One byte less fills the stream exactly. -/
example : (Handler.ofBehaviour .ofNull .new .sample (Behaviour.bytes 63)).chunks.length = 64 := by
  decide +kernel

end Responses

end FolkCore.Ext
