import FolkCore.Bridge.PathAgreement
import FolkCore.Ext.Attribution
import FolkCore.Ext.Lives
import FolkCore.Pool.Answers

/-!
# The threads of the pool

Along a run of the pool every thread leads a `Life` of its own, whatever the other
threads, the supervisors and the callers do in between. What it sends reaches the stream
of the request as long as the caller listens, so the pushes on a stream are the first of
the chunks that one bridge run sends on it.
-/

namespace FolkCore.Ext

open Bridge Function Lib Pool

variable {serde : SerdeJson} {cfg : WorkersConfig} {s t : State (extensionRuntime serde)}
  {a : Action (extensionRuntime serde)} {w : Nat} {k : StreamTx}

/-- The chunk that an operation on a stream pushes on the stream `k`. -/
def chunkOn (k : StreamTx) : StreamOp → Option ResponseChunk
  | .push tx c => if tx = k then some c else none
  | .close _ => none

section Pushes

variable {R : Runtime} {p q : State R} {b : Action R}

theorem pushes_append {events : List Event} (hq : q.history = p.history ++ events)
    (hnone : ∀ e ∈ events, e.chunk? = none) (k : StreamTx) : q.pushes k = p.pushes k := by
  have hrest : (events.filter fun e => e.tx? = some k).filterMap Event.chunk? = [] := by
    rw [List.filterMap_eq_nil_iff]
    intro e he
    exact hnone e (List.mem_of_mem_filter he)
  rw [State.pushes, State.story, hq, List.filter_append, List.filterMap_append, hrest,
    List.append_nil]
  rfl

/-- A worker's step pushes what its operation says, while the caller listens. -/
theorem pushes_worked {act : R.Act} {h h' : R.Worker} {op : Option StreamOp}
    (move : Move serde cfg p (.work w act) q) (hw : p.workers w = some h)
    (hact : R.act h act = some (h', op)) (k : StreamTx) :
    q.pushes k = p.pushes k ++
      if (p.streams k).receiverOpen then (op.bind (chunkOn k)).toList else [] := by
  have sameOp {h₁ h₁' : R.Worker} {op₁ : Option StreamOp} (hw₁ : p.workers w = some h₁)
      (hact₁ : R.act h₁ act = some (h₁', op₁)) : op = op₁ := by
    cases hw.symm.trans hw₁
    exact congrArg Prod.snd (Option.some.inj (hact.symm.trans hact₁))
  cases move with
  | worked hw₁ hact₁ =>
      cases sameOp hw₁ hact₁
      simp [State.pushes, State.story]
  | @pushed _ _ _ _ tx c hw₁ hact₁ _ _ hreceiver _ =>
      cases sameOp hw₁ hact₁
      by_cases hk : tx = k
      · subst hk
        simp [State.pushes, State.story, Event.tx?, Event.chunk?, chunkOn, hreceiver]
      · simp [State.pushes, State.story, Event.tx?, chunkOn, hk]
  | @pushLost _ _ _ _ tx c hw₁ hact₁ _ _ hreceiver =>
      cases sameOp hw₁ hact₁
      by_cases hk : tx = k
      · subst hk
        simp [State.pushes, State.story, hreceiver]
      · simp [State.pushes, State.story, chunkOn, hk]
  | closed hw₁ hact₁ _ _ =>
      cases sameOp hw₁ hact₁
      simp [State.pushes, State.story, chunkOn]

/-- Only the worker that was given the sender pushes on a stream. -/
theorem pushes_aside (move : Move serde cfg p b q)
    (hnot : ∀ w act, b = .work w act → (p.streams k).owner ≠ some w) :
    q.pushes k = p.pushes k := by
  cases move with
  | refused | poolGone | judged | exhausted | delivered =>
      exact pushes_append rfl (by simp [Event.chunk?]) k
  | @supervised i _ r _ _ move =>
      refine pushes_append (p.supervise_history i r) ?_ k
      intro e he
      obtain ⟨_, hhandle, _⟩ := move.note_handle he
      cases e with
      | pushed => cases hhandle
      | _ => rfl
  | @pushed w' act _ _ tx c _ _ howner' _ _ _ =>
      have hne : tx ≠ k := by
        rintro rfl
        exact hnot w' act rfl howner'
      simp [State.pushes, State.story, Event.tx?, hne]
  | _ => exact pushes_append (List.append_nil _).symm (by simp) k

theorem pushes_owned (move : Move serde cfg p b q) (hnot : ∀ act, b ≠ .work w act)
    (howner : (p.streams k).owner = some w) : q.pushes k = p.pushes k := by
  apply pushes_aside move
  rintro w' act hb howner'
  cases howner.symm.trans howner'
  exact hnot act hb

end Pushes

/-- The step does not call `execute_streaming` on handle `w`. -/
def Aside (s : State (extensionRuntime serde)) (a : Action (extensionRuntime serde)) (w : Nat) :
    Prop :=
  (∀ act, a ≠ .work w act) ∧ ∀ i, a = .supervise i .execute → (s.slots i).worker ≠ some w

theorem Aside.of_supervise {i : Nat} {b : SupervisorAction (extensionRuntime serde)}
    (hb : b ≠ .execute) : Aside s (.supervise i b) w := by
  constructor
  · intro act h
    cases h
  · intro j h
    cases h
    exact absurd rfl hb

/-- The life after a call of `execute_streaming`. -/
def Life.called (l : Life) (h : ChannelWorker) (req : DispatchRequest) (kept : Bool) : Life :=
  if kept then { l with arrived := l.arrived ++ [h.task req] } else l

/-- Everything a step of the pool does to the thread behind handle `w` and to its life. -/
inductive Threaded (cfg : WorkersConfig) (s t : State (extensionRuntime serde))
    (a : Action (extensionRuntime serde)) (w : Nat) (l : Life) : Life → Prop
  | kept (haside : Aside s a w) (hw : t.workers w = s.workers w) : Threaded cfg s t a w l l
  | released {i : Nat} {b : SupervisorAction (extensionRuntime serde)} {h h' : ChannelWorker}
      (haside : Aside s a w) (ha : a = .supervise i b) (hhandle : (s.slots i).handle = some w)
      (hw : s.workers w = some h) (hw' : t.workers w = some h')
      (hreleased : Released (R := extensionRuntime serde) h h') : Threaded cfg s t a w l l
  | born {h : ChannelWorker} (haside : Aside s a w) (hfresh : h.isFresh = true)
      (hw : w = s.handles) (hw' : t.workers w = some h.ready) :
      Threaded cfg s t a w l ⟨h.state, [], [], []⟩
  | called {i since : Nat} {req : DispatchRequest} {h h' : ChannelWorker} {kept : Bool}
      (ha : a = .supervise i .execute) (hphase : (s.slots i).phase = .dispatching req since)
      (hi : i < cfg.count) (hslot : (s.slots i).worker = some w) (hw : s.workers w = some h)
      (hw' : t.workers w = some h') (hcall : h.executeStreaming req = some (h', kept))
      (howner : (t.streams req.streamTx).owner = some w) :
      Threaded cfg s t a w l (l.called h req kept)
  | acted {act : ChannelWorker.ThreadAct} {h h' : ChannelWorker} {op : Option StreamOp}
      (ha : a = .work w act) (hw : s.workers w = some h)
      (hact : h.act serde act = some (h', op)) (hw' : t.workers w = some h') :
      Threaded cfg s t a w l (l.after h act)

/-- The step writes the worker of handle `w'`. -/
theorem Threaded.of_update {l : Life} {w' : Nat} {worker : ChannelWorker}
    (hworkers : t.workers = update s.workers w' (some worker))
    (hself : w = w' → ∃ l', Threaded cfg s t a w l l') (hother : w ≠ w' → Aside s a w) :
    ∃ l', Threaded cfg s t a w l l' := by
  by_cases hw : w = w'
  · exact hself hw
  · exact ⟨l, .kept (hother hw) (by rw [hworkers, update_of_ne hw])⟩

theorem threaded_supervised {i : Nat} {b : SupervisorAction (extensionRuntime serde)}
    {r : Slot × List (Command (extensionRuntime serde))} (hi : i < cfg.count)
    (move : Slot.Move cfg i s.view (s.slots i) b r.1 r.2) (w : Nat) (l : Life) :
    ∃ l', Threaded cfg s (s.supervise i r) (.supervise i b) w l l' := by
  obtain ⟨slot', commands⟩ := r
  -- the handle of the slot is given up or left by `execute_streaming`
  have release {w' : Nat} {h h' : (extensionRuntime serde).Worker}
      (hworkers : (s.supervise i (slot', commands)).workers = update s.workers w' (some h'))
      (haside : Aside s (.supervise i b) w) (htarget : w' ∈ commands.filterMap Command.target)
      (hw : s.workers w' = some h) (hreleased : Released h h') :
      ∃ l', Threaded cfg s (s.supervise i (slot', commands)) (.supervise i b) w l l' := by
    refine Threaded.of_update hworkers ?_ fun _ => haside
    rintro rfl
    exact ⟨l, .released haside rfl (move.target htarget) hw
      ((congrFun hworkers w).trans (update_self _ _ _)) hreleased⟩
  cases move with
  | @spawned h hphase hspawns =>
      refine Threaded.of_update rfl ?_ fun _ => .of_supervise (by simp)
      rintro rfl
      exact ⟨_, .born (.of_supervise (by simp)) hspawns rfl (update_self _ _ _)⟩
  | bootFailed hphase hw | reloaded hphase _ hw | reloadClosed hphase _ hw
  | inboxClosed hphase _ hw | recycled hphase _ hw =>
      exact release rfl (.of_supervise (by simp)) (by simp [Command.target]) hw .terminated
  | bootPanicked hphase hw | bootAbandoned hphase hw | replaced hphase hw | exited hphase hw
  | terminatePanicked hphase hw =>
      exact release rfl (.of_supervise (by simp)) (by simp [Command.target]) hw .dropped
  | settled hphase _ hw _ =>
      exact release rfl (.of_supervise (by simp)) (by simp [Command.target]) hw .settled
  | executePanicked hphase _ hw =>
      exact release rfl (.of_supervise (by simp)) (by simp [Command.target]) hw .panicked
  | @execute req since w' h h' kept hphase hslot hw hcall =>
      refine Threaded.of_update rfl ?_ fun hne => ⟨by simp, ?_⟩
      · rintro rfl
        refine ⟨_, .called rfl hphase hi hslot hw (update_self _ _ _) hcall ?_⟩
        simp [State.supervise, State.perform]
      · rintro j hj hown
        cases hj
        exact hne (Option.some.inj (hown.symm.trans hslot))
  | _ => exact ⟨l, .kept (.of_supervise (by simp)) rfl⟩

/-- Every step of the pool is one of these for every handle. -/
theorem step_threaded (move : Move serde cfg s a t) (w : Nat) (l : Life) :
    ∃ l', Threaded cfg s t a w l l' := by
  have act {w' : Nat} {b : ChannelWorker.ThreadAct} {h h' : ChannelWorker} {op : Option StreamOp}
      (ha : a = .work w' b) (hw : s.workers w' = some h) (hact : h.act serde b = some (h', op))
      (hworkers : t.workers = update s.workers w' (some h')) :
      ∃ l', Threaded cfg s t a w l l' := by
    refine Threaded.of_update hworkers ?_ fun hne => ⟨?_, fun i hi => ?_⟩
    · rintro rfl
      exact ⟨_, .acted ha hw hact ((congrFun hworkers w).trans (update_self _ _ _))⟩
    · intro c hc
      cases ha.symm.trans hc
      exact hne rfl
    · cases ha.symm.trans hi
  cases move with
  | supervised hi _ move => exact threaded_supervised hi move w l
  | worked hw hact | pushed hw hact | pushLost hw hact | closed hw hact =>
      exact act rfl hw hact rfl
  | _ => exact ⟨l, .kept ⟨by simp, by simp⟩ rfl⟩

/-- The chunks that the thread has sent on the stream `k`. -/
def Life.sends (l : Life) (k : StreamTx) : List ResponseChunk := l.performed.filterMap (sentOn k)

theorem Life.sends_after {l : Life} {h h' : ChannelWorker} {act : ChannelWorker.ThreadAct}
    {op : Option StreamOp} (hact : h.act serde act = some (h', op)) (k : StreamTx) :
    (l.after h act).sends k = l.sends k ++ (op.bind (chunkOn k)).toList := by
  cases act_move hact with
  | boot | ready | call | exit => simp [after, sends]
  | @perform e rest heffects =>
      have hsends : (l.after h .perform).sends k = l.sends k ++ (sentOn k e).toList := by
        simp only [after, heffects, List.take_succ_cons, List.take_zero, sends,
          List.filterMap_append]
        cases hsent : sentOn k e with
        | none => simp [hsent]
        | some c => simp [hsent]
      rw [hsends]
      cases e with
      | _ => rfl

theorem Life.arrived_after (l : Life) (h : ChannelWorker) (act : ChannelWorker.ThreadAct) :
    (l.after h act).arrived = l.arrived := by
  cases act with
  | _ => rfl

/-- The bridge call that an action makes on the thread behind handle `w`. -/
def callOf (w : Nat) : Action (extensionRuntime serde) → Option Bridge.Step
  | .work w' (.call s) => if w' = w then some s else none
  | _ => none

/-- The calls of thread `w` in a run. -/
def callsOf (w : Nat) (actions : List (Action (extensionRuntime serde))) : List Bridge.Step :=
  actions.filterMap (callOf w)

theorem callOf_of_not (hnot : ∀ act, a ≠ .work w act) : callOf w a = none := by
  cases a with
  | work w' act =>
      have hne : w' ≠ w := fun heq => hnot act (heq ▸ rfl)
      cases act with
      | call s => simp [callOf, hne]
      | _ => rfl
  | _ => rfl

/-- The invariant of the thread behind handle `w`, with its life. -/
structure Lived (w : Nat) (s : State (extensionRuntime serde)) (l : Life) : Prop where
  unborn : s.workers w = none → l.arrived = [] ∧ l.script = []
  leads : ∀ h : ChannelWorker, s.workers w = some h → l.Leads serde h
  owned : ∀ r ∈ l.arrived, (s.streams r.streamTx).owner = some w
  distinct : (l.arrived.map TaskRequest.streamTx).Nodup
  pushed : ∀ k c, .pushed w k c ∈ s.history → ∃ r ∈ l.arrived, r.streamTx = k
  heard : ∀ r ∈ l.arrived, s.pushes r.streamTx <+: l.sends r.streamTx ∧
    ((s.streams r.streamTx).receiverOpen = true → s.pushes r.streamTx = l.sends r.streamTx)

/-- A new thread has no past. -/
def Life.unborn : Life := ⟨initWorkerState 0 [], [], [], []⟩

theorem Lived.init (w : Nat) : Lived w (init (extensionRuntime serde) cfg) .unborn where
  unborn _ := ⟨rfl, rfl⟩
  leads h hw := by cases hw
  owned _ hr := by cases hr
  distinct := List.nodup_nil
  pushed _ _ hc := by cases hc
  heard _ hr := by cases hr

/-- A stream keeps its owner, and a caller that is gone does not come back. -/
theorem owned_stream (hticketed : Ticketed cfg s) (move : Move serde cfg s a t)
    (howner : (s.streams k).owner = some w) : (t.streams k).owner = some w ∧
      ((t.streams k).receiverOpen = true → (s.streams k).receiverOpen = true) := by
  have howner' : (t.streams k).owner = some w := by
    cases step_passage hticketed move with
    | aside _ _ hsame => rw [hsame, howner]
    | worked _ _ _ _ hsame => rw [hsame, howner]
    | @executed _ _ _ req _ _ _ _ _ hheld _ _ _ hgiven =>
        have hne : k ≠ req.streamTx := by
          rintro rfl
          exact absurd (howner.symm.trans hheld) nofun
        rw [hgiven, if_neg hne, howner]
  refine ⟨howner', fun hreceiver => ?_⟩
  have request := step_request hticketed move k
  change (s.request k).stream.receiverOpen = true
  replace hreceiver : (t.request k).stream.receiverOpen = true := hreceiver
  replace howner' : (t.request k).stream.owner = some w := howner'
  generalize t.request k = r' at request hreceiver howner'
  cases request with
  | opened => cases howner'
  | poolGone | withdrawn | judged | exhausted | cancelled => cases hreceiver
  | _ => exact hreceiver

/-- A step that is none of the thread's leaves what it has sent and what is in its streams. -/
theorem Lived.heard_aside {l : Life} (hl : Lived w s l) (hticketed : Ticketed cfg s)
    (move : Move serde cfg s a t) (hnot : ∀ act, a ≠ .work w act) {r : TaskRequest}
    (hr : r ∈ l.arrived) : t.pushes r.streamTx <+: l.sends r.streamTx ∧
      ((t.streams r.streamTx).receiverOpen = true → t.pushes r.streamTx = l.sends r.streamTx) := by
  have howner := hl.owned r hr
  obtain ⟨hpre, hsame⟩ := hl.heard r hr
  rw [pushes_owned move hnot howner]
  exact ⟨hpre, fun hreceiver => hsame ((owned_stream hticketed move howner).2 hreceiver)⟩

theorem Lived.pushed_aside {l : Life} (hl : Lived w s l) (move : Move serde cfg s a t)
    (hnot : ∀ act, a ≠ .work w act) {c : ResponseChunk} (hc : .pushed w k c ∈ t.history) :
    ∃ r ∈ l.arrived, r.streamTx = k := by
  rcases move.pushes hc with hold | ⟨act, _, _, ha, _⟩
  · exact hl.pushed k c hold
  · exact absurd ha (hnot act)

theorem Lived.keep {l : Life} (hl : Lived w s l) (hticketed : Ticketed cfg s)
    (move : Move serde cfg s a t) (hnot : ∀ act, a ≠ .work w act)
    (hunborn : t.workers w = none → s.workers w = none)
    (hleads : ∀ h : ChannelWorker, t.workers w = some h → l.Leads serde h) : Lived w t l where
  unborn hnone := hl.unborn (hunborn hnone)
  leads := hleads
  owned r hr := (owned_stream hticketed move (hl.owned r hr)).1
  distinct := hl.distinct
  pushed _ _ hc := hl.pushed_aside move hnot hc
  heard _ hr := hl.heard_aside hticketed move hnot hr

/-- The chunks of a request's history are the sends on its stream. -/
theorem streamChunks_eq (r : TaskRequest) (log : List Effect) :
    streamChunks r log = log.filterMap (sentOn r.streamTx) := by
  rw [streamChunks, chunks, history, List.filterMap_filterMap]
  congr 1
  funext e
  cases e with
  | send tx c =>
      by_cases htx : tx = r.streamTx
      · simp [Effect.mark, sentOn, htx]
      · simp [Effect.mark, sentOn, htx]
  | signal d =>
      by_cases hd : d = r.doneTx
      · simp [Effect.mark, sentOn, hd]
      · simp [Effect.mark, sentOn, hd]
  | _ => rfl

section Queues

variable {l : Life} {h : ChannelWorker}

/-- The tasks that came to a thread, with channels of their own. -/
def Life.queue (hleads : l.Leads serde h)
    (hdistinct : (l.arrived.map TaskRequest.streamTx).Nodup) : TaskQueue :=
  ⟨l.arrived, hdistinct, hleads.dones⟩

theorem Life.ledger (hleads : l.Leads serde h)
    (hdistinct : (l.arrived.map TaskRequest.streamTx).Nodup) :
    Ledger (Life.queue hleads hdistinct) (l.outcome serde).effects (l.outcome serde).state := by
  have hstart : Ledger (Life.queue hleads hdistinct) [] l.begin :=
    .of_idle hleads.idle (Life.begin_taskRx hleads.empty)
  have hrun := hstart.run serde l.script
  rwa [List.nil_append] at hrun

/-- A run sends on the streams of the tasks that came. -/
theorem Life.Leads.sends_on (hleads : l.Leads serde h)
    (hdistinct : (l.arrived.map TaskRequest.streamTx).Nodup) {c : ResponseChunk}
    (hmem : .send k c ∈ (l.outcome serde).effects) : ∃ r ∈ l.arrived, r.streamTx = k := by
  have hstart : Ledger (Life.queue hleads hdistinct) [] l.begin :=
    .of_idle hleads.idle (Life.begin_taskRx hleads.empty)
  exact hstart.sends_run l.script hmem

/-- What the thread has sent and has still to send on a stream are the sends of the run. -/
theorem Life.Leads.sends (hleads : l.Leads serde h) (k : StreamTx) :
    l.sends k ++ h.sends k = (l.outcome serde).effects.filterMap (sentOn k) := by
  have hsent (log : List Effect) :
      log.filterMap (sentOn k) = (log.filter speaks).filterMap (sentOn k) := by
    rw [List.filterMap_filter]
    congr 1
    funext e
    cases e with
    | _ => rfl
  rw [Life.sends, ChannelWorker.sends, ← List.filterMap_append, hsent, hleads.spoken, ← hsent]

end Queues

theorem Lived.act {l : Life} (hl : Lived w s l) (hticketed : Ticketed cfg s)
    (move : Move serde cfg s a t) {act : ChannelWorker.ThreadAct} {h h' : ChannelWorker}
    {op : Option StreamOp} (ha : a = .work w act) (hw : s.workers w = some h)
    (hact : h.act serde act = some (h', op)) (hw' : t.workers w = some h') :
    Lived w t (l.after h act) := by
  subst ha
  have hleads := hl.leads h hw
  refine ⟨fun hnone => ?_, fun h₁ hh₁ => ?_, ?_, ?_, fun k c hc => ?_, ?_⟩
  · exact absurd (hw'.symm.trans hnone) nofun
  · cases hw'.symm.trans hh₁
    exact hleads.act hact
  · rw [l.arrived_after]
    exact fun r hr => (owned_stream hticketed move (hl.owned r hr)).1
  · rw [l.arrived_after]
    exact hl.distinct
  · rw [l.arrived_after]
    rcases move.pushes hc with hold | ⟨act', h₁, h₁', ha, hh₁, hpush⟩
    · exact hl.pushed k c hold
    · cases ha
      cases hw.symm.trans hh₁
      have hact' : h.act serde act = some (h₁', some (.push k c)) := hpush
      obtain ⟨_, rest, heffects⟩ := act_push hact'
      -- the thread sends on the stream of a task that it received
      have hmem : Effect.send k c ∈ (l.outcome serde).effects := by
        have hspeaks : Effect.send k c ∈ (l.performed ++ h.effects).filter speaks := by
          simp [heffects, speaks]
        rw [hleads.spoken] at hspeaks
        exact List.mem_of_mem_filter hspeaks
      exact hleads.sends_on hl.distinct hmem
  · rw [l.arrived_after]
    intro r hr
    obtain ⟨hpre, hsame⟩ := hl.heard r hr
    rw [Life.sends_after hact, pushes_worked move hw hact]
    by_cases hreceiver : (s.streams r.streamTx).receiverOpen = true
    · rw [if_pos hreceiver, hsame hreceiver]
      exact ⟨List.prefix_rfl, fun _ => rfl⟩
    · rw [if_neg hreceiver, List.append_nil]
      refine ⟨hpre.trans (List.prefix_append _ _), fun hopen => ?_⟩
      exact absurd ((owned_stream hticketed move (hl.owned r hr)).2 hopen) hreceiver

/-- A new task comes to the thread: nothing was sent on its stream before. -/
theorem Lived.arrive {l : Life} (hl : Lived w s l) (hticketed : Ticketed cfg s)
    (hone : ∀ k, (s.request k).OneWriter k) (move : Move serde cfg s a t)
    (hnot : ∀ act, a ≠ .work w act) {req : DispatchRequest} {h h' : ChannelWorker}
    (hheld : (s.streams req.streamTx).owner = none) (hw : s.workers w = some h)
    (hw' : t.workers w = some h')
    (howner : (t.streams req.streamTx).owner = some w)
    (hleads' : Life.Leads serde { l with arrived := l.arrived ++ [h.task req] } h') :
    Lived w t { l with arrived := l.arrived ++ [h.task req] } := by
  have hleads := hl.leads h hw
  have hfresh : ∀ r ∈ l.arrived, r.streamTx ≠ req.streamTx := by
    intro r hr heq
    have howned := hl.owned r hr
    rw [heq, hheld] at howned
    cases howned
  refine ⟨fun hnone => ?_, fun h₁ hh₁ => ?_, fun r hr => ?_, ?_, fun k c hc => ?_, fun r hr => ?_⟩
  · exact absurd (hw'.symm.trans hnone) nofun
  · cases hw'.symm.trans hh₁
    exact hleads'
  · rcases List.mem_append.mp hr with hold | hnew
    · exact (owned_stream hticketed move (hl.owned r hold)).1
    · rw [List.mem_singleton.mp hnew]
      exact howner
  · rw [List.map_append, List.nodup_append]
    refine ⟨hl.distinct, List.nodup_singleton _, ?_⟩
    rintro k hk k' hk' rfl
    obtain ⟨r, hr, rfl⟩ := List.mem_map.mp hk
    exact hfresh r hr (List.mem_singleton.mp hk')
  · obtain ⟨r, hr, hk⟩ := hl.pushed_aside move hnot hc
    exact ⟨r, List.mem_append_left _ hr, hk⟩
  · rcases List.mem_append.mp hr with hold | hnew
    · exact hl.heard_aside hticketed move hnot hold
    · rw [List.mem_singleton.mp hnew]
      have hpushes : t.pushes req.streamTx = [] := by
        rw [pushes_aside move fun _ _ _ hown => absurd (hheld.symm.trans hown) nofun,
          State.pushes, List.filterMap_eq_nil_iff]
        intro e he
        cases e with
        | pushed w' k c =>
            have hstory : Event.tx? (.pushed w' k c) = some req.streamTx := by
              simpa [State.story] using (List.mem_filter.mp he).2
            cases hstory
            exact absurd (hheld.symm.trans (hone _ w' c he)) nofun
        | _ => rfl
      have hsends : l.sends req.streamTx = [] := by
        have hrun : (l.outcome serde).effects.filterMap (sentOn req.streamTx) = [] := by
          rw [List.filterMap_eq_nil_iff]
          intro e he
          cases e with
          | send k c =>
              obtain ⟨r, hr, rfl⟩ := hleads.sends_on hl.distinct he
              simp [sentOn, hfresh r hr]
          | _ => rfl
        have hall := hleads.sends req.streamTx
        rw [hrun] at hall
        exact (List.append_eq_nil_iff.mp hall).1
      exact ⟨by simp [ChannelWorker.task, hpushes], fun _ => hpushes.trans hsends.symm⟩

theorem Threaded.script {l l' : Life} (threaded : Threaded cfg s t a w l l')
    (hborn : w = s.handles → l.script = []) :
    l'.script = l.script ++ (callOf w a).toList := by
  have same (hnot : ∀ act, a ≠ .work w act) : l.script = l.script ++ (callOf w a).toList := by
    rw [callOf_of_not hnot, Option.toList_none, List.append_nil]
  cases threaded with
  | kept haside | released haside => exact same haside.1
  | born haside _ hw => rw [callOf_of_not haside.1, hborn hw]; rfl
  | @called i since req h h' kept ha =>
      subst ha
      have hscript : (l.called h req kept).script = l.script := by
        unfold Life.called
        split
        · rfl
        · rfl
      rw [hscript]
      exact same nofun
  | @acted act h h' op ha =>
      subst ha
      cases act with
      | call s => simp [Life.after, callOf]
      | _ => simp [Life.after, callOf]

/-- Every step of the pool leads the life of the thread on. -/
theorem Lived.step {l l' : Life} (hl : Lived w s l) (hticketed : Ticketed cfg s)
    (hstaffed : ∀ w, s.handles ≤ w → s.workers w = none)
    (hone : ∀ k, (s.request k).OneWriter k) (move : Move serde cfg s a t)
    (threaded : Threaded cfg s t a w l l') : Lived w t l' := by
  cases threaded with
  | kept haside hw =>
      refine hl.keep hticketed move haside.1 (fun hnone => hw ▸ hnone) fun h hh => ?_
      exact hl.leads h (hw ▸ hh)
  | released haside _ _ hw hw' hreleased =>
      refine hl.keep hticketed move haside.1 (fun hnone => ?_) fun h hh => ?_
      · exact absurd (hw'.symm.trans hnone) nofun
      · cases hw'.symm.trans hh
        exact (hl.leads _ hw).released hreleased
  | @born h haside hfresh hhandle hw' =>
      obtain ⟨harrived, _⟩ := hl.unborn (hstaffed w (Nat.le_of_eq hhandle.symm))
      refine ⟨fun _ => ⟨rfl, rfl⟩, fun h₁ hh₁ => ?_, nofun, List.nodup_nil, fun k c hc => ?_, nofun⟩
      · cases hw'.symm.trans hh₁
        exact .born hfresh
      · have := hl.pushed_aside move haside.1 hc
        rwa [harrived] at this
  | @called i since req h h' kept ha hphase hi _ hw hw' hcall howner =>
      have hleads := hl.leads h hw
      have hnot : ∀ act, a ≠ .work w act := by
        intro act hact
        cases ha.symm.trans hact
      rcases executeStreaming_cases hcall with ⟨rfl, e, rfl⟩ | ⟨rfl, htx, hstage, rfl⟩
      · refine hl.keep hticketed move hnot (fun hnone => ?_) fun h₁ hh₁ => ?_
        · exact absurd (hw'.symm.trans hnone) nofun
        · cases hw'.symm.trans hh₁
          exact ⟨hleads.idle, hleads.empty, hleads.drawn, hleads.dones, hleads.spoken,
            hleads.state, hleads.fed⟩
      · have hpos : 0 < s.tally cfg req.streamTx :=
          State.tally_pos_of_slot hi (by simp [Slot.requests, Phase.requests, hphase])
        exact hl.arrive hticketed hone move hnot (hticketed.held _ hpos).2.1 hw hw' howner
          (hleads.arrive htx hstage req)
  | acted ha hw hact hw' => exact hl.act hticketed move ha hw hact hw'

theorem lived_of_runs {actions : List (Action (extensionRuntime serde))}
    (hrun : runs (step serde cfg) (init (extensionRuntime serde) cfg) actions = some s) (w : Nat) :
    ∃ l : Life, Lived w s l ∧ l.script = callsOf w actions := by
  induction actions using List.reverseRecOn generalizing s with
  | nil =>
      cases hrun
      exact ⟨.unborn, .init w, rfl⟩
  | append_singleton actions a ih =>
      rw [runs_append, Option.bind_eq_some_iff] at hrun
      obtain ⟨p, hp, hlast⟩ := hrun
      have hstep : step serde cfg p a = some s := by simpa using hlast
      obtain ⟨l, hl, hscript⟩ := ih hp
      have hreach := reachable_of_runs hp
      have hticketed := ticketed_of_reachable hreach
      have hstaffed : Staffed Neat p :=
        hreach.invariant (Staffed Neat) (.init cfg) fun _ _ _ h _ hstep =>
          Neat.step h (step_move hstep)
      obtain ⟨l', threaded⟩ := step_threaded (step_move hstep) w l
      refine ⟨l', hl.step hticketed hstaffed.drawn (fun k => (heard_of_reachable hreach k).2)
        (step_move hstep) threaded, ?_⟩
      have hborn (hw : w = p.handles) : l.script = [] :=
        (hl.unborn (hstaffed.drawn w (Nat.le_of_eq hw.symm))).2
      rw [threaded.script hborn, hscript, callsOf, callsOf, List.filterMap_append]
      cases hcall : callOf w a with
      | none => simp [hcall]
      | some call => simp [hcall]

/-- In every run of the pool, the thread behind a handle has made a run of bridge calls:
the calls of its own actions, on all the tasks that came to it, whenever they came. Until
its script ends its worker state is that of the run, up to the ready flag, and what is in
its streams was sent by the run, in the same order and without a gap. -/
theorem threads_make_bridge_runs (serde : SerdeJson) (cfg : WorkersConfig)
    (actions : List (Action (extensionRuntime serde))) (s : State (extensionRuntime serde))
    (hrun : runs (step serde cfg) (init (extensionRuntime serde) cfg) actions = some s) (w : Nat)
    (h : ChannelWorker) (hw : s.workers w = some h) :
    ∃ (q : TaskQueue) (st : WorkerState), st.Idle ∧ st.taskRx = q.tasks ∧
      (h.stage ≠ .exited → h.state =
        { (run serde (callsOf w actions) st).state with readyTx := h.state.readyTx }) ∧
      (∀ r ∈ q.tasks, (s.streams r.streamTx).owner = some w ∧ s.pushes r.streamTx <+:
        streamChunks r (run serde (callsOf w actions) st).effects) ∧
      ∀ k c, .pushed w k c ∈ s.history → ∃ r ∈ q.tasks, r.streamTx = k := by
  obtain ⟨l, hl, hscript⟩ := lived_of_runs hrun w
  have hleads := hl.leads h hw
  have hbegin := Life.begin_taskRx hleads.empty
  refine ⟨Life.queue hleads hl.distinct, l.begin, hleads.idle, hbegin, ?_, ?_, hl.pushed⟩
  · intro hstage
    have hstate := hleads.state hstage
    rw [Life.outcome, hscript] at hstate
    simpa [WorkerState.extend] using hstate
  · intro r hr
    have hsends : l.sends r.streamTx <+: (l.outcome serde).effects.filterMap
        (sentOn r.streamTx) := ⟨h.sends r.streamTx, hleads.sends r.streamTx⟩
    rw [Life.outcome, hscript, ← streamChunks_eq] at hsends
    exact ⟨hl.owned r hr, (hl.heard r hr).1.trans hsends⟩

/-- A worker whose thread runs. -/
def isRunning (worker : Option ChannelWorker) : Bool := worker.any fun h => h.stage == .running

/-- Thread 0 receives a request and answers it with `do_send`, as the run of these calls. -/
theorem answering_thread_makes_run :
    ∃ s, runs (step .ofNull .single) (init (extensionRuntime .ofNull) .single)
        (answeredRun .ofNull) = some s ∧
      ∃ (h : ChannelWorker) (q : TaskQueue) (st : WorkerState), s.workers 0 = some h ∧
        st.Idle ∧ st.taskRx = q.tasks ∧ h.state =
          { (run .ofNull [.loopRecv, .call (.send [])] st).state with
            readyTx := h.state.readyTx } := by
  have hrun : (runs (step .ofNull .single) (init (extensionRuntime .ofNull) .single)
      (answeredRun .ofNull)).any (fun s => isRunning (s.workers 0)) = true := by decide +kernel
  obtain ⟨s, hs, htest⟩ := (Option.any_eq_true _ _).mp hrun
  obtain ⟨h, hw, hstage⟩ := (Option.any_eq_true _ _).mp htest
  obtain ⟨q, st, hidle, hqueue, hstate, _⟩ :=
    threads_make_bridge_runs .ofNull .single (answeredRun .ofNull) s hs 0 h hw
  refine ⟨s, hs, h, q, st, hw, hidle, hqueue, hstate ?_⟩
  rw [eq_of_beq hstage]
  exact nofun

end FolkCore.Ext
