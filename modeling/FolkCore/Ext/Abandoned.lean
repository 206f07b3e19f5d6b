import FolkCore.Ext.Turns
import FolkCore.Pool.Handles
import FolkCore.Pool.Replies

/-!
# Requests given up on timeout

When `exec_timeout` elapses, the supervisor drops the `execute_streaming` future and
the permit. The stream sender is in the task channel or with the thread by then, and
nobody tells the thread: it goes on pushing, and a caller that collects the response
may still succeed. The results here say when it does not: the thread must be through
with the request, or its caller gone.
-/

namespace FolkCore.Ext

open Bridge Pool Lib

variable {serde : SerdeJson} {cfg : WorkersConfig} {h h' : ChannelWorker} {k : StreamTx}
  {reports : ResponseChunk → Bool}

/-- What an operation pushes on the stream `k`. -/
def sentOn (k : StreamTx) : Effect → Option ResponseChunk
  | .send tx c => if tx = k then some c else none
  | _ => none

/-- The chunks that the thread still has to push on the stream `k`. -/
def ChannelWorker.sends (h : ChannelWorker) (k : StreamTx) : List ResponseChunk :=
  h.effects.filterMap (sentOn k)

/-- The chunk is an error or an end that counts as a report of the timeout. -/
def isReport (reports : ResponseChunk → Bool) (c : ResponseChunk) : Bool :=
  isFinal c && reports c

/-- The thread is through with the request of stream `k`: it neither waits in the task
channel nor is current, and nothing but a report is still to be pushed. -/
def Through (reports : ResponseChunk → Bool) (k : StreamTx) (h : ChannelWorker) : Prop :=
  (∀ r ∈ h.state.taskRx, r.streamTx ≠ k) ∧ h.state.currentStreamTx ≠ some k ∧
    ∀ c ∈ h.sends k, isReport reports c = true

instance : Decidable (Through reports k h) := inferInstanceAs (Decidable (_ ∧ _ ∧ _))

/-- Nothing is sent on a stream after the drop of its sender. -/
def Closing (effects : List Effect) : Prop :=
  effects.Pairwise fun e e' => ∀ tx c, e = .dropStream tx → e' ≠ .send tx c

/-- The invariant of a worker: the operations of a call close a stream last. -/
structure Neat (h : ChannelWorker) : Prop where
  paired : Paired h.state
  closing : Closing h.effects

def noSend (e : Effect) : Prop := ∀ tx c, e ≠ .send tx c

theorem closing_of_noSend {effects : List Effect} (hnone : ∀ e ∈ effects, noSend e) :
    Closing effects := by
  apply List.pairwise_of_forall_mem_list
  intro e _ e' he' tx c _
  exact hnone e' he' tx c

theorem sent_of_noSend {effects : List Effect} (hnone : ∀ e ∈ effects, noSend e) :
    effects.filterMap (sentOn k) = [] := by
  rw [List.filterMap_eq_nil_iff]
  intro e he
  cases e with
  | send tx c => exact absurd rfl (hnone _ he tx c)
  | _ => rfl

theorem release_noSend (st : WorkerState) : ∀ e ∈ st.release, noSend e := by
  intro e he tx c heq
  subst heq
  simp [WorkerState.release] at he

theorem exit_noSend (st : WorkerState) :
    ∀ e ∈ st.release ++ st.taskRx.flatMap ChannelWorker.dropTask, noSend e := by
  intro e he
  rcases List.mem_append.mp he with hcurrent | hqueued
  · exact release_noSend st e hcurrent
  · intro tx c heq
    subst heq
    simp [ChannelWorker.dropTask] at hqueued

theorem Neat.of_fresh (hfresh : h.isFresh = true) : Neat h.ready := by
  obtain ⟨_, _, hnone, heffects⟩ := isFresh_empty hfresh
  refine ⟨.inl hnone, ?_⟩
  rw [show h.ready.effects = [] from heffects]
  exact List.Pairwise.nil

theorem Neat.turn (hneat : Neat h) {op : Option StreamOp} (turn : Turn h h' op) : Neat h' := by
  refine ⟨turn.paired hneat.paired, ?_⟩
  cases turn with
  | booted => exact hneat.closing
  | quiet _ _ heffects =>
      apply closing_of_noSend
      intro e he tx c heq
      rw [heffects e he] at heq
      cases heq
  | wrote _ _ _ _ => exact List.pairwise_singleton _ _
  | @finished tx d v effects _ _ _ heffects =>
      rcases heffects with rfl | rfl <;> cases v <;> simp [Closing]
  | accepted _ _ => exact closing_of_noSend (release_noSend h.state)
  | performed heffects =>
      have hclosing := hneat.closing
      rw [heffects] at hclosing
      rw [performEffect_effects]
      exact hclosing.of_cons
  | exited _ => exact closing_of_noSend (exit_noSend h.state)

/-- What a turn with the operation `op` does to the pushes still to be made. -/
def Leaves (k : StreamTx) (h h' : ChannelWorker) : Option StreamOp → Prop
  | none => h'.sends k = h.sends k
  | some (.push tx c) => h.sends k = if tx = k then c :: h'.sends k else h'.sends k
  | some (.close tx) => h'.sends k = h.sends k ∧ (tx = k → h'.sends k = [])

theorem Through.of_leaves {op : Option StreamOp} (hthrough : Through reports k h)
    (hleaves : Leaves k h h' op) (hqueue : ∀ r ∈ h'.state.taskRx, r ∈ h.state.taskRx)
    (hcurrent : h'.state.currentStreamTx ≠ some k) : Through reports k h' := by
  obtain ⟨hwaiting, _, hsends⟩ := hthrough
  refine ⟨fun r hr => hwaiting r (hqueue r hr), hcurrent, ?_⟩
  intro c hc
  apply hsends
  cases op with
  | none =>
      rw [← (show h'.sends k = h.sends k from hleaves)]
      exact hc
  | some op =>
      cases op with
      | push tx c' =>
          rw [show h.sends k = _ from hleaves]
          by_cases htx : tx = k
          · rw [if_pos htx]
            exact List.mem_cons_of_mem c' hc
          · rw [if_neg htx]
            exact hc
      | close tx =>
          rw [← hleaves.1]
          exact hc

/-- The operations of other requests. -/
theorem sends_of_idle (hidle : h.effects = []) {effects : List Effect}
    (hnone : effects.filterMap (sentOn k) = []) (heffects : h'.effects = effects) :
    Leaves k h h' none := by
  simp [Leaves, ChannelWorker.sends, hidle, heffects, hnone]

/-- One operation takes its own chunk off the pushes still to be made. -/
theorem Neat.perform_leaves (hneat : Neat h) {e : Effect} {rest : List Effect}
    (heffects : h.effects = e :: rest) :
    Leaves k h (h.performEffect rest e).1 (h.performEffect rest e).2 := by
  have hafter : (h.performEffect rest e).1.sends k = rest.filterMap (sentOn k) := by
    rw [ChannelWorker.sends, performEffect_effects]
  have hbefore : h.sends k = (e :: rest).filterMap (sentOn k) := by
    rw [ChannelWorker.sends, heffects]
  have hother (hnone : sentOn k e = none) : (h.performEffect rest e).1.sends k = h.sends k := by
    calc (h.performEffect rest e).1.sends k = rest.filterMap (sentOn k) := hafter
      _ = (e :: rest).filterMap (sentOn k) := (List.filterMap_cons_none hnone).symm
      _ = h.sends k := hbefore.symm
  cases e with
  | send tx c =>
      change h.sends k = if tx = k then c :: _ else _
      by_cases htx : tx = k
      · have hsome : sentOn k (.send tx c) = some c := by simp [sentOn, htx]
        rw [if_pos htx]
        calc h.sends k = (Effect.send tx c :: rest).filterMap (sentOn k) := hbefore
          _ = c :: rest.filterMap (sentOn k) := List.filterMap_cons_some hsome
          _ = c :: (h.performEffect rest (.send tx c)).1.sends k := by rw [hafter]
      · have hnone : sentOn k (.send tx c) = none := by simp [sentOn, htx]
        rw [if_neg htx]
        exact (hother hnone).symm
  | dropStream tx =>
      refine ⟨hother rfl, ?_⟩
      intro htx
      have hclosing := hneat.closing
      rw [heffects] at hclosing
      rw [hafter, List.filterMap_eq_nil_iff]
      intro e' he'
      have hlater := (List.pairwise_cons.mp hclosing).1 e' he'
      cases e' with
      | send tx' c =>
          have hne : tx' ≠ k := by
            rintro rfl
            exact hlater tx c rfl (by rw [htx])
          simp [sentOn, hne]
      | _ => rfl
  | signal d => exact hother rfl
  | dropDone d => exact hother rfl
  | ready => exact hother rfl

theorem Turn.leaves {op : Option StreamOp} (turn : Turn h h' op) (hneat : Neat h)
    (hthrough : Through reports k h) : Through reports k h' ∧ Leaves k h h' op := by
  obtain ⟨hwaiting, hcurrent, _⟩ := id hthrough
  have hother {tx : StreamTx} (htx : h.state.currentStreamTx = some tx) : tx ≠ k := by
    intro heq
    rw [heq] at htx
    exact hcurrent htx
  have assemble (hleaves : Leaves k h h' op)
      (hqueue : ∀ r ∈ h'.state.taskRx, r ∈ h.state.taskRx)
      (hcurrent' : h'.state.currentStreamTx ≠ some k) :
      Through reports k h' ∧ Leaves k h h' op :=
    ⟨hthrough.of_leaves hleaves hqueue hcurrent', hleaves⟩
  cases turn with
  | booted => exact assemble rfl (fun r hr => hr) hcurrent
  | @quiet state effects hidle hsame heffects =>
      refine assemble (sends_of_idle hidle ?_ rfl) ?_ ?_
      · rw [List.filterMap_eq_nil_iff]
        intro e he
        rw [heffects e he]
        rfl
      · rw [hsame.queue]
        exact fun r hr => hr
      · rw [hsame.stream]
        exact hcurrent
  | wrote hidle hsame htx _ =>
      refine assemble (sends_of_idle hidle ?_ rfl) ?_ ?_
      · simp [sentOn, hother htx]
      · rw [hsame.queue]
        exact fun r hr => hr
      · rw [hsame.stream]
        exact hcurrent
  | @finished tx d v effects hidle htx _ heffects =>
      refine assemble (sends_of_idle hidle ?_ rfl) (fun r hr => hr) (by simp [WorkerState.clear])
      rcases heffects with rfl | rfl <;> cases v <;>
        simp [sentOn, hother htx, List.filterMap_cons]
  | @accepted r rest hidle hqueue =>
      have hfirst : r.streamTx ≠ k := hwaiting r (by simp [hqueue])
      have hnone := sent_of_noSend (k := k) (release_noSend h.state)
      refine assemble (sends_of_idle hidle hnone rfl) ?_ ?_
      · intro r' hr'
        rw [hqueue]
        exact List.mem_cons_of_mem r hr'
      · simpa [WorkerState.accept] using hfirst
  | @performed e rest heffects =>
      have hstate := performEffect_state h rest e
      refine assemble (hneat.perform_leaves heffects) ?_ ?_
      · rw [hstate]
        exact fun r hr => hr
      · rw [hstate]
        exact hcurrent
  | exited hidle =>
      have hnone := sent_of_noSend (k := k) (exit_noSend h.state)
      exact assemble (sends_of_idle hidle hnone rfl) (by simp) (by simp [WorkerState.clear])

/-- What is on the stream or will still come on it. -/
def outlook (k : StreamTx) (st : Stream) (h : ChannelWorker) : List ResponseChunk :=
  st.buffer ++ if st.senderOpen then h.sends k else []

/-- The first error or end of the chunks is an error. -/
def fails (chunks : List ResponseChunk) : Bool :=
  (chunks.find? isFinal).any ResponseChunk.isError

/-- The request can do no more harm: the thread is through with it, and a caller that
collects the response comes to an error. -/
structure Over (reports : ResponseChunk → Bool) (k : StreamTx) (r : Request)
    (h : ChannelWorker) : Prop where
  through : Through reports k h
  failing : r.call.borrows = true → fails (outlook k r.stream h) = true

/-- The test for it. -/
def isOver (reports : ResponseChunk → Bool) (k : StreamTx) (r : Request)
    (h : ChannelWorker) : Bool :=
  decide (Through reports k h) && (!r.call.borrows || fails (outlook k r.stream h))

theorem Over.of_test {r : Request} (htest : isOver reports k r h = true) :
    Over reports k r h := by
  rw [isOver, Bool.and_eq_true, decide_eq_true_eq, Bool.or_eq_true] at htest
  refine ⟨htest.1, ?_⟩
  intro hborrows
  rcases htest.2 with hnot | hfails
  · rw [hborrows] at hnot
    cases hnot
  · exact hfails

/-- The event delivers no chunk but a report, and no success. -/
def silent (reports : ResponseChunk → Bool) : Event → Bool
  | .pushed _ _ c => isReport reports c
  | .answered _ ok => !ok
  | _ => true

theorem silent_of_passes {e : Event} (he : e.passes = true) : silent reports e = true := by
  cases e with
  | pushed w tx c => cases he
  | answered tx ok => cases he
  | _ => rfl

theorem Over.worker {r : Request} (hover : Over reports k r h) (hthrough : Through reports k h')
    (hsends : h'.sends k = h.sends k) : Over reports k r h' where
  through := hthrough
  failing := by
    rw [outlook, hsends]
    exact hover.failing

/-- The request gets at most one new event, and it is silent. -/
def Quietly (reports : ResponseChunk → Bool) (r r' : Request) : Prop :=
  ∃ e : Option Event, r'.story = r.story ++ e.toList ∧ ∀ e' ∈ e, silent reports e' = true

theorem Quietly.none {r r' : Request} (hstory : r'.story = r.story) : Quietly reports r r' :=
  ⟨.none, by simp [hstory], by simp⟩

theorem Quietly.one {r r' : Request} {e : Event} (hstory : r'.story = r.story ++ [e])
    (he : silent reports e = true) : Quietly reports r r' :=
  ⟨some e, by simp [hstory], by simpa using he⟩

/-- A caller that collects or sends holds the receiver. -/
def Listens (r : Request) : Prop := r.call.borrows = true → r.stream.receiverOpen = true

theorem Listens.step {r r' : Request} {works drops expires : Prop} (hr : Listens r)
    (move : Request.Move serde k works drops expires r r') : Listens r' := by
  intro hborrows
  cases move with
  | same | passed _ _ _ | executed _ _ _ _ _ | discarded _ _ | pushed _ _ _ _ _ _
  | closed _ _ _ _ _ => exact hr hborrows
  | refused _ _ | poolGone _ | withdrawn _ | judged _ _ _ | exhausted _ _ _ | cancelled _ =>
      cases hborrows
  | opened _ _ _ _ => rfl
  | submitted hcall => exact hr (by rw [hcall]; rfl)
  | collected hcall _ _ => exact hr (by rw [hcall]; rfl)
  | streamed hcall _ => exact hr hborrows

/-- After the receiver is gone nothing is delivered and nobody answers. -/
theorem closed_quietly {r r' : Request} {works drops expires : Prop}
    (hclosed : r.stream.receiverOpen = false) (hlistens : Listens r)
    (move : Request.Move serde k works drops expires r r') :
    Quietly reports r r' ∧ (r'.story ≠ [] → r'.stream.receiverOpen = false) := by
  have hnot {p : Prop} (hborrows : r.call.borrows = true) : p := by
    rw [hlistens hborrows] at hclosed
    cases hclosed
  cases move with
  | same => exact ⟨.none rfl, fun _ => hclosed⟩
  | passed e he _ => exact ⟨.one rfl (silent_of_passes he), fun _ => hclosed⟩
  | refused _ _ => exact ⟨.one rfl rfl, fun _ => hclosed⟩
  | opened _ _ _ hstory => exact ⟨.none rfl, fun hne => absurd hstory hne⟩
  | submitted hcall => exact hnot (by rw [hcall]; rfl)
  | poolGone _ => exact ⟨.one rfl rfl, fun _ => rfl⟩
  | withdrawn _ => exact ⟨.none rfl, fun _ => rfl⟩
  | collected hcall _ _ => exact hnot (by rw [hcall]; rfl)
  | judged hcall _ _ => exact hnot (by rw [hcall]; rfl)
  | exhausted hcall _ _ => exact hnot (by rw [hcall]; rfl)
  | streamed _ _ => exact ⟨.none rfl, fun _ => hclosed⟩
  | cancelled _ => exact ⟨.none rfl, fun _ => rfl⟩
  | executed _ _ _ _ _ => exact ⟨.one rfl rfl, fun _ => hclosed⟩
  | discarded _ _ => exact ⟨.none rfl, fun _ => hclosed⟩
  | pushed _ _ _ _ hreceiver _ =>
      rw [hreceiver] at hclosed
      cases hclosed
  | closed _ _ _ _ _ => exact ⟨.none rfl, fun _ => hclosed⟩

/-- The caller takes a chunk that leaves it collecting. -/
theorem fails_of_take {acc acc' : Collected} {c : ResponseChunk} {rest : List ResponseChunk}
    (htake : acc.take c = .inl acc') (hfails : fails (c :: rest) = true) :
    fails rest = true := by
  rw [fails, List.find?_cons_of_neg (by simp [take_inl htake])] at hfails
  exact hfails

/-- The caller takes the chunk that decides its call. -/
theorem error_of_take {acc : Collected} {c : ResponseChunk} {rest : List ResponseChunk}
    {result : Except WorkerError Value} (htake : acc.take c = .inr result)
    (hfails : fails (c :: rest) = true) : ∃ e, result = .error e := by
  cases c with
  | error e =>
      cases htake
      exact ⟨e, rfl⟩
  | streamEnd => cases hfails
  | headers status headers => cases htake
  | body data => cases htake
  | returnValue v => cases htake

/-- A request that is over stays so while no worker moves. -/
theorem Over.idle {r r' : Request} {works drops expires : Prop} (hover : Over reports k r h)
    (howner : r.stream.owner ≠ none) (hidle : ¬works)
    (move : Request.Move serde k works drops expires r r') :
    Quietly reports r r' ∧ (r'.story ≠ [] → r'.stream.receiverOpen = false ∨
      r'.stream.owner = r.stream.owner ∧ Over reports k r' h) := by
  cases move with
  | same => exact ⟨.none rfl, fun _ => .inr ⟨rfl, hover⟩⟩
  | passed e he _ =>
      exact ⟨.one rfl (silent_of_passes he), fun _ => .inr ⟨rfl, hover.through, hover.failing⟩⟩
  | refused _ _ =>
      exact ⟨.one rfl rfl, fun _ => .inr ⟨rfl, hover.through, fun hborrows => by cases hborrows⟩⟩
  | opened _ _ _ hstory => exact ⟨.none rfl, fun hne => absurd hstory hne⟩
  | submitted hcall =>
      exact ⟨.none rfl, fun _ => .inr ⟨rfl, hover.through,
        fun _ => hover.failing (by rw [hcall]; rfl)⟩⟩
  | poolGone _ => exact ⟨.one rfl rfl, fun _ => .inl rfl⟩
  | withdrawn _ => exact ⟨.none rfl, fun _ => .inl rfl⟩
  | @collected kind acc acc' c rest hcall hbuffer htake =>
      refine ⟨.none rfl, fun _ => .inr ⟨rfl, hover.through, fun _ => ?_⟩⟩
      have hfails := hover.failing (by rw [hcall]; rfl)
      rw [outlook, hbuffer] at hfails
      exact fails_of_take htake hfails
  | @judged kind acc c rest result hcall hbuffer htake =>
      have hfails := hover.failing (by rw [hcall]; rfl)
      rw [outlook, hbuffer] at hfails
      obtain ⟨e, rfl⟩ := error_of_take htake hfails
      exact ⟨.one rfl rfl, fun _ => .inl rfl⟩
  | exhausted hcall hbuffer hclosed =>
      -- the buffer cannot run dry: the error is still to come
      have hfails := hover.failing (by rw [hcall]; rfl)
      rw [outlook, hbuffer, hclosed] at hfails
      cases hfails
  | streamed hcall _ =>
      refine ⟨.none rfl, fun _ => .inr ⟨rfl, hover.through, fun hborrows => ?_⟩⟩
      rw [hcall] at hborrows
      cases hborrows
  | cancelled _ => exact ⟨.none rfl, fun _ => .inl rfl⟩
  | executed _ _ _ hnone _ => exact absurd hnone howner
  | discarded hnone _ => exact absurd hnone howner
  | pushed _ _ _ _ _ hworks => exact absurd hworks hidle
  | closed _ _ _ _ hworks => exact absurd hworks hidle

variable {s t : State (extensionRuntime serde)} {a : Action (extensionRuntime serde)}

/-- The caller of the request is gone, or the request is over. -/
def Harmless (reports : ResponseChunk → Bool) (k : StreamTx)
    (s : State (extensionRuntime serde)) : Prop :=
  (s.streams k).receiverOpen = false ∨
    ∃ w, ∃ h : ChannelWorker, (s.streams k).owner = some w ∧ s.workers w = some h ∧
      Over reports k (s.request k) h

/-- A step of the callers, `pool_main` or a supervisor gives the thread no part of a
request that was handed out before. -/
theorem idle_worker {w : Nat} (hw : s.workers w = some h)
    (howner : (s.streams k).owner = some w) (hthrough : Through reports k h)
    (hidle : ¬a.isWork = true) (hticketed : Ticketed cfg s) (hstaffed : Staffed Neat s)
    (move : Move serde cfg s a t) :
    ∃ h' : ChannelWorker, t.workers w = some h' ∧ Through reports k h' ∧
      h'.sends k = h.sends k := by
  have handled := step_handled move w
  generalize t.workers w = value at handled ⊢
  cases handled with
  | same => exact ⟨h, hw, hthrough, rfl⟩
  | spawned hfresh _ _ =>
      rw [hstaffed.drawn w hfresh.ge] at hw
      cases hw
  | @executed i req since worker worker' kept hi hphase hworker hcall =>
      rw [hw] at hworker
      cases hworker
      have hne : req.streamTx ≠ k := by
        rintro rfl
        have hpos : 0 < Pool.tally req.streamTx (s.slots i).requests := by
          simp [Slot.requests, Phase.requests, hphase]
        rw [(hticketed.held _ (State.tally_pos_of_slot hi hpos)).2.1] at howner
        cases howner
      cases execute_execution hcall with
      | failed => exact ⟨_, rfl, hthrough, rfl⟩
      | queued _ =>
          refine ⟨_, rfl, ⟨?_, hthrough.2⟩, rfl⟩
          intro r hr
          rcases List.mem_append.mp hr with hold | hnew
          · exact hthrough.1 r hold
          · rw [List.mem_singleton.mp hnew]
            exact hne
  | released hworker hreleased =>
      rw [hw] at hworker
      cases hworker
      cases hreleased with
      | terminated => exact ⟨_, rfl, hthrough, rfl⟩
      | dropped => exact ⟨_, rfl, hthrough, rfl⟩
      | settled => exact ⟨_, rfl, hthrough, rfl⟩
      | panicked => exact ⟨_, rfl, hthrough, rfl⟩
  | acted ha _ _ =>
      rw [ha] at hidle
      exact absurd rfl hidle

/-- Only a push on the stream changes what is still to be pushed on it. -/
theorem Leaves.sends_eq {op : Option StreamOp} (hleaves : Leaves k h h' op)
    (hother : ∀ c, op ≠ some (.push k c)) : h'.sends k = h.sends k := by
  cases op with
  | none => exact hleaves
  | some op =>
      cases op with
      | push tx c =>
          have hne : tx ≠ k := by
            rintro rfl
            exact hother c rfl
          have hsends : h.sends k = h'.sends k := by simpa [Leaves, hne] using hleaves
          exact hsends.symm
      | close tx => exact hleaves.1

/-- A thread's step, seen from the owner `w` of the stream. -/
theorem acted_worker {w w' : Nat} {act : ChannelWorker.ThreadAct} {worker worker' : ChannelWorker}
    {op : Option StreamOp} (hw : s.workers w = some h) (hthrough : Through reports k h)
    (hstaffed : Staffed Neat s) (hworker : s.workers w' = some worker)
    (hact : worker.act serde act = some (worker', op)) :
    ∃ h' : ChannelWorker, Function.update s.workers w' (some worker') w = some h' ∧
      Through reports k h' ∧ (w' = w → Leaves k h h' op) ∧
      ((∀ c, op ≠ some (.push k c)) → h'.sends k = h.sends k) := by
  by_cases hsame : w' = w
  · subst hsame
    rw [hw] at hworker
    cases hworker
    have hneat := hstaffed.good w' h hw
    have turn := act_turn hneat.paired hact
    obtain ⟨hthrough', hleaves⟩ := turn.leaves hneat hthrough
    exact ⟨worker', Function.update_self _ _ _, hthrough', fun _ => hleaves, hleaves.sends_eq⟩
  · have hold : Function.update s.workers w' (some worker') w = s.workers w :=
      Function.update_of_ne (Ne.symm hsame) _ _
    exact ⟨h, hold.trans hw, hthrough, fun heq => absurd heq hsame, fun _ => rfl⟩

/-- A thread's step that leaves the request alone. -/
theorem Over.aside {w : Nat} (hover : Over reports k (s.request k) h)
    (howner : (s.streams k).owner = some w) (hrequest : t.request k = s.request k)
    (hw : t.workers w = some h') (hthrough : Through reports k h')
    (hsends : h'.sends k = h.sends k) :
    Quietly reports (s.request k) (t.request k) ∧ Harmless reports k t := by
  have hstream : t.streams k = s.streams k := congrArg Request.stream hrequest
  refine ⟨.none (congrArg Request.story hrequest), .inr ⟨w, h', ?_, hw, ?_⟩⟩
  · rw [hstream]
    exact howner
  · rw [hrequest]
    exact hover.worker hthrough hsends

/-- A request that is over stays so when a thread moves. -/
theorem Over.worked {w : Nat} (hover : Over reports k (s.request k) h)
    (hstaffed : Staffed Neat s) (howner : (s.streams k).owner = some w)
    (hw : s.workers w = some h) (hwork : a.isWork = true) (move : Move serde cfg s a t) :
    Quietly reports (s.request k) (t.request k) ∧ Harmless reports k t := by
  have hthrough := hover.through
  cases move with
  | worked hworker hact =>
      obtain ⟨h', hw', hthrough', _, hsends⟩ := acted_worker hw hthrough hstaffed hworker hact
      exact hover.aside howner rfl hw' hthrough' (hsends (by simp))
  | @pushed w' act worker worker' tx c hworker hact htx hsender _ _ =>
      obtain ⟨h', hw', hthrough', hleaves, hsends⟩ :=
        acted_worker hw hthrough hstaffed hworker hact
      by_cases hk : tx = k
      · -- the chunk moves from the pushes still to be made to the buffer
        subst hk
        have hsame : w' = w := Option.some.inj (htx.symm.trans howner)
        have hpush : h.sends tx = c :: h'.sends tx := by simpa [Leaves] using hleaves hsame
        have hreport := hthrough.2.2 c (by simp [hpush])
        refine ⟨.one ?_ (show silent reports (.pushed w' tx c) = true from hreport), ?_⟩
        · simp [State.request, State.story, Event.tx?]
        · refine .inr ⟨w, h', by simpa using howner, hw', hthrough', ?_⟩
          intro hborrows
          have hfails := hover.failing hborrows
          simpa [outlook, State.request, hsender, hpush] using hfails
      · refine hover.aside howner ?_ hw' hthrough' (hsends (by simp [hk]))
        simp [State.request, State.story, Event.tx?, hk, Ne.symm hk]
  | @pushLost w' act worker worker' tx c hworker hact htx hsender hreceiver =>
      obtain ⟨h', hw', hthrough', _, hsends⟩ := acted_worker hw hthrough hstaffed hworker hact
      by_cases hk : tx = k
      · subst hk
        exact ⟨.none rfl, .inl hreceiver⟩
      · exact hover.aside howner rfl hw' hthrough' (hsends (by simp [hk]))
  | @closed w' act worker worker' tx hworker hact htx hsender =>
      obtain ⟨h', hw', hthrough', hleaves, hsends⟩ :=
        acted_worker hw hthrough hstaffed hworker hact
      have hsame := hsends (by simp)
      by_cases hk : tx = k
      · -- every push on the stream has been made
        subst hk
        obtain ⟨_, hempty⟩ := hleaves (Option.some.inj (htx.symm.trans howner))
        have hnone : h.sends tx = [] := hsame.symm.trans (hempty rfl)
        refine ⟨.none rfl, .inr ⟨w, h', by simpa using howner, hw', hthrough', ?_⟩⟩
        intro hborrows
        have hfails := hover.failing hborrows
        simpa [outlook, State.request, hsender, hnone] using hfails
      · refine hover.aside howner ?_ hw' hthrough' hsame
        simp [State.request, State.story, Ne.symm hk]
  | _ => cases hwork

theorem Harmless.step (hs : Harmless reports k s) (hlistens : Listens (s.request k))
    (hticketed : Ticketed cfg s) (hstaffed : Staffed Neat s) (move : Move serde cfg s a t) :
    Quietly reports (s.request k) (t.request k) ∧ (t.story k ≠ [] → Harmless reports k t) := by
  have hmove := step_request hticketed move k
  rcases hs with hclosed | ⟨w, h, howner, hw, hover⟩
  · obtain ⟨hquiet, hnext⟩ := closed_quietly hclosed hlistens hmove
    exact ⟨hquiet, fun hne => .inl (hnext hne)⟩
  · by_cases hwork : a.isWork = true
    · obtain ⟨hquiet, hnext⟩ := hover.worked hstaffed howner hw hwork move
      exact ⟨hquiet, fun _ => hnext⟩
    · have howned : (s.request k).stream.owner ≠ none := by
        simp [State.request, howner]
      obtain ⟨hquiet, hnext⟩ := hover.idle howned hwork hmove
      refine ⟨hquiet, ?_⟩
      intro hne
      rcases hnext hne with hclosed | ⟨hsame, hover'⟩
      · exact .inl hclosed
      · obtain ⟨h', hw', hthrough, hsends⟩ :=
          idle_worker hw howner hover.through hwork hticketed hstaffed move
        exact .inr ⟨w, h', hsame.trans howner, hw', hover'.worker hthrough hsends⟩

/-- When an execution is given up on timeout, the caller of its request is gone, or the
thread is through with it and leaves a collecting caller an error. -/
def harmlessTimeout (reports : ResponseChunk → Bool) (s : State (extensionRuntime serde))
    (a : Action (extensionRuntime serde)) : Bool :=
  match s.expires a with
  | none => true
  | some k =>
      !(s.streams k).receiverOpen ||
        match (s.streams k).owner.bind s.workers with
        | some h => isOver reports k (s.request k) h
        | none => false

theorem harmless_of_timeout (htest : harmlessTimeout reports s a = true)
    (hexpires : s.expires a = some k) : Harmless reports k s := by
  simp only [harmlessTimeout, hexpires, Bool.or_eq_true, Bool.not_eq_true'] at htest
  rcases htest with hclosed | hover
  · exact .inl hclosed
  · split at hover
    · next h hworker =>
        obtain ⟨w, howner, hw⟩ := Option.bind_eq_some_iff.mp hworker
        exact .inr ⟨w, h, howner, hw, Over.of_test hover⟩
    · cases hover

/-- The invariant of a request over the runs whose timeouts are harmless. -/
structure Silenced (reports : ResponseChunk → Bool) (k : StreamTx)
    (s : State (extensionRuntime serde)) : Prop where
  listens : Listens (s.request k)
  order : (s.story k).Pairwise fun e e' => e.isElapsed = true → silent reports e' = true
  after : (∃ e ∈ s.story k, e.isElapsed = true) → Harmless reports k s

theorem Silenced.init (cfg : WorkersConfig) :
    Silenced reports k (init (extensionRuntime serde) cfg) where
  listens h := by cases h
  order := List.Pairwise.nil
  after := by
    rintro ⟨e, he, _⟩
    cases he

/-- The new event of a step comes after all earlier ones. -/
theorem order_snoc {story : List Event} {e : Option Event}
    (horder : story.Pairwise fun e e' => e.isElapsed = true → silent reports e' = true)
    (hnew : ∀ e' ∈ e, (∃ e₀ ∈ story, e₀.isElapsed = true) → silent reports e' = true) :
    (story ++ e.toList).Pairwise fun e e' => e.isElapsed = true → silent reports e' = true := by
  rw [List.pairwise_append]
  refine ⟨horder, ?_, ?_⟩
  · cases e with
    | none => exact List.Pairwise.nil
    | some e => exact List.pairwise_singleton _ _
  · intro e₀ he₀ e' he' helapsed
    exact hnew e' (Option.mem_toList.mp he') ⟨e₀, he₀, helapsed⟩

theorem Silenced.step (hs : Silenced reports k s) (hticketed : Ticketed cfg s)
    (hstaffed : Staffed Neat s)
    (hexpires : s.expires a = some k → Harmless reports k s)
    (move : Move serde cfg s a t) : Silenced reports k t := by
  have hmove := step_request hticketed move k
  have hlistens := hs.listens.step hmove
  by_cases hold : ∃ e ∈ s.story k, e.isElapsed = true
  · obtain ⟨⟨e, hstory, hsilent⟩, hnext⟩ :=
      (hs.after hold).step hs.listens hticketed hstaffed move
    have hstory' : t.story k = s.story k ++ e.toList := hstory
    refine ⟨hlistens, ?_, ?_⟩
    · rw [hstory']
      exact order_snoc hs.order fun e' he' _ => hsilent e' he'
    · rintro ⟨e', he', _⟩
      exact hnext (List.ne_nil_of_mem he')
  · obtain ⟨e, hstory, helapsed⟩ := hmove.story
    have hstory' : t.story k = s.story k ++ e.toList := hstory
    refine ⟨hlistens, ?_, ?_⟩
    · rw [hstory']
      exact order_snoc hs.order fun _ _ hsome => absurd hsome hold
    · rintro ⟨e', he', hlate⟩
      -- only the step itself can have given the request up
      have hnew : e' ∈ e := by
        rw [hstory', List.mem_append] at he'
        rcases he' with hearlier | hnew
        · exact absurd ⟨e', hearlier, hlate⟩ hold
        · exact Option.mem_toList.mp hnew
      have hharmless := hexpires (helapsed e' hnew hlate)
      exact (hharmless.step hs.listens hticketed hstaffed move).2 (List.ne_nil_of_mem he')

theorem Neat.step {a : Action (extensionRuntime serde)} (hs : Staffed Neat s)
    (move : Move serde cfg s a t) : Staffed Neat t := by
  apply hs.step _ _ _ _ move
  · intro h hspawns
    exact Neat.of_fresh hspawns
  · intro h req h' kept hneat hcall
    cases execute_execution hcall with
    | failed => exact ⟨hneat.paired, hneat.closing⟩
    | queued _ => exact ⟨hneat.paired, hneat.closing⟩
  · intro h h' hneat hreleased
    cases hreleased with
    | _ => exact ⟨hneat.paired, hneat.closing⟩
  · intro h act h' op hneat hact
    exact hneat.turn (act_turn hneat.paired hact)

/-- In every run in which a request is given up only when its caller is gone or its
thread through with it, nothing is pushed on its stream afterwards but errors and ends
that report the timeout, and its call does not succeed. -/
theorem abandoned_request_silent (serde : SerdeJson) (cfg : WorkersConfig)
    (reports : ResponseChunk → Bool) (s : State (extensionRuntime serde))
    (hs : ReachableVia (step serde cfg) (fun s a => harmlessTimeout reports s a = true)
      (init (extensionRuntime serde) cfg) s) (k : StreamTx) :
    s.history.Pairwise fun e e' => ∀ i w, e = .finished i w k .elapsed →
      (∀ w' c, e' = .pushed w' k c → isFinal c = true ∧ reports c = true) ∧
        e' ≠ .answered k true := by
  have hall : Ticketed cfg s ∧ Staffed Neat s ∧ Silenced reports k s := by
    apply hs.invariant (fun s => Ticketed cfg s ∧ Staffed Neat s ∧ Silenced reports k s)
    · exact ⟨Ticketed.init _ cfg, Staffed.init cfg, Silenced.init cfg⟩
    · rintro s a t ⟨hticketed, hstaffed, hsilenced⟩ hallowed hstep
      have move := step_move hstep
      exact ⟨hticketed.step move, Neat.step hstaffed move,
        hsilenced.step hticketed hstaffed (harmless_of_timeout hallowed) move⟩
  have horder := hall.2.2.order
  rw [State.story, List.pairwise_filter] at horder
  apply horder.imp
  intro e e' hpair i w heq
  subst heq
  constructor
  · rintro w' c rfl
    have hsilent := hpair (by simp [Event.tx?]) (by simp [Event.tx?]) rfl
    exact Bool.and_eq_true_iff.mp hsilent
  · rintro rfl
    have hsilent := hpair (by simp [Event.tx?]) (by simp [Event.tx?]) rfl
    cases hsilent

/-- The first request of a pool of one is received and not yet answered. -/
def receivedRun (serde : SerdeJson) : List (Action (extensionRuntime serde)) :=
  bootRun serde ++ callRun serde 0 ++ [.supervise 0 .execute, .work 0 (.call .loopRecv)]

/-- The execution is given up. -/
def giveUp (serde : SerdeJson) : List (Action (extensionRuntime serde)) :=
  [.tick 30000, .supervise 0 .pollExecute]

def elapsedOn (k : StreamTx) : Event → Bool
  | .finished _ _ tx .elapsed => tx == k
  | _ => false

def succeedsOn (k : StreamTx) : Event → Bool
  | .answered tx ok => tx == k && ok
  | _ => false

theorem eq_of_elapsedOn {e : Event} (htest : elapsedOn k e = true) :
    ∃ i w, e = .finished i w k .elapsed := by
  cases e with
  | finished i w tx r =>
      cases r with
      | elapsed => exact ⟨i, w, by rw [beq_iff_eq.mp htest]⟩
      | done r => cases htest
  | _ => cases htest

theorem eq_of_succeedsOn {e : Event} (htest : succeedsOn k e = true) : e = .answered k true := by
  cases e with
  | answered tx ok =>
      rw [succeedsOn, Bool.and_eq_true, beq_iff_eq] at htest
      rw [htest.1, htest.2]
  | _ => cases htest

/-- A handler that returns after the timeout makes the call a success. -/
theorem abandoned_call_succeeds :
    ∃ s, Reachable (step .ofNull .single) (init (extensionRuntime .ofNull) .single) s ∧
      (∃ reply, s.calls 0 = .returned (.ok reply)) ∧
      ∀ reports : ResponseChunk → Bool,
        ¬s.history.Pairwise fun e e' => ∀ i w, e = .finished i w 0 .elapsed →
          (∀ w' c, e' = .pushed w' 0 c → isFinal c = true ∧ reports c = true) ∧
            e' ≠ .answered 0 true := by
  have hrun : (runs (step .ofNull .single) (init (extensionRuntime .ofNull) .single)
      (receivedRun .ofNull ++ giveUp .ofNull ++ [.work 0 (.call (.loopFinish (.ok .null))),
        .work 0 .perform, .work 0 .perform, .receive 0, .receive 0])).any
        (fun s => (s.calls 0).succeeded &&
          (s.history[4]?.any (elapsedOn 0) && s.history[7]?.any (succeedsOn 0))) = true := by
    decide +kernel
  obtain ⟨s, hs, htest⟩ := exists_reachable hrun
  rw [Bool.and_eq_true, Bool.and_eq_true] at htest
  refine ⟨s, hs, CallStage.exists_of_succeeded htest.1, ?_⟩
  intro reports hpairwise
  obtain ⟨e, e', helapsed, hsucceeds, hpair⟩ :=
    pairwise_at hpairwise (by decide) htest.2.1 htest.2.2
  obtain ⟨i, w, heq⟩ := eq_of_elapsedOn helapsed
  exact (hpair i w heq).2 (eq_of_succeedsOn hsucceeds)

/-- A handler that has pushed its error before the timeout leaves the call a failure. -/
theorem abandoned_error_silent :
    ∃ s, ReachableVia (step .ofNull .single)
        (fun s a => harmlessTimeout (fun _ => false) s a = true)
        (init (extensionRuntime .ofNull) .single) s ∧
      s.history.any (elapsedOn 0) = true ∧
      s.history.Pairwise fun e e' => ∀ i w, e = .finished i w 0 .elapsed →
        (∀ w' c, e' = .pushed w' 0 c → isFinal c = true ∧ false = true) ∧
          e' ≠ .answered 0 true := by
  have hrun : (runs (fun s a => if harmlessTimeout (fun _ => false) s a
        then step .ofNull .single s a else none)
      (init (extensionRuntime .ofNull) .single)
      (receivedRun .ofNull ++ [.work 0 (.call (.loopFinish (.error "fatal"))),
        .work 0 .perform, .work 0 .perform] ++ giveUp .ofNull ++ [.receive 0])).any
        (fun s => s.history.any (elapsedOn 0)) = true := by decide +kernel
  obtain ⟨s, hs, htest⟩ := exists_reachableVia hrun
  exact ⟨s, hs, htest, abandoned_request_silent .ofNull .single (fun _ => false) s hs 0⟩

end FolkCore.Ext
