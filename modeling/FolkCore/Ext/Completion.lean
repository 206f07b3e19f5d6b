import FolkCore.Ext.StreamContract

/-!
# A worker that reports success has answered

`execute_streaming` returns `Ok` when the done channel of its task fires. A bridge run
fires it after the end of the stream only, so when a supervisor sees the success the
stream of the request is complete, whatever its thread, its other tasks and the reloads
did before.
-/

namespace FolkCore.Ext

open Bridge Function Lib Pool

variable {serde : SerdeJson} {cfg : WorkersConfig} {s t : State (extensionRuntime serde)}
  {a : Action (extensionRuntime serde)} {w : Nat} {k : StreamTx} {l l' : Life}
  {h h' : ChannelWorker}

/-- The thread has fired the done channel of the task of stream `k`. -/
def Life.Done (l : Life) (k : StreamTx) : Prop :=
  ∃ r ∈ l.arrived, r.streamTx = k ∧ .signal r.doneTx ∈ l.performed

/-- What the handle waits for is the task of stream `k`, and a success is its signal. -/
structure Awaits (l : Life) (h : ChannelWorker) (k : StreamTx) : Prop where
  pending : ∀ d, h.awaited = some (.pending d) →
    ∃ r ∈ l.arrived, r.streamTx = k ∧ r.doneTx = d
  finished : h.awaited = some (.finished (.ok ())) → l.Done k

theorem Life.Done.called (hdone : l.Done k) (h : ChannelWorker) (req : DispatchRequest)
    (kept : Bool) : (l.called h req kept).Done k := by
  obtain ⟨r, hr, hk, hfired⟩ := hdone
  unfold Life.called
  split
  · exact ⟨r, List.mem_append_left _ hr, hk, hfired⟩
  · exact ⟨r, hr, hk, hfired⟩

theorem Life.Done.after (hdone : l.Done k) (h : ChannelWorker) (act : ChannelWorker.ThreadAct) :
    (l.after h act).Done k := by
  obtain ⟨r, hr, hk, hfired⟩ := hdone
  cases act with
  | perform => exact ⟨r, hr, hk, List.mem_append_left _ hfired⟩
  | _ => exact ⟨r, hr, hk, hfired⟩

theorem resolve_cases (h : ChannelWorker) (d : DoneTx) (r : Except String Unit) :
    h.resolve d r = h.awaited ∨
      h.awaited = some (.pending d) ∧ h.resolve d r = some (.finished r) := by
  unfold ChannelWorker.resolve
  split
  · next d' hawaited =>
      by_cases hd : d' = d
      · rw [if_pos hd]
        exact .inr ⟨hd ▸ hawaited, rfl⟩
      · rw [if_neg hd]
        exact .inl rfl
  · exact .inl rfl

/-- The handle waits for the same. -/
theorem Awaits.same (hawaits : Awaits l h k) (hawaited : h'.awaited = h.awaited)
    (harrived : l'.arrived = l.arrived) (hdone : l.Done k → l'.Done k) : Awaits l' h' k := by
  constructor
  · intro d hd
    rw [harrived]
    exact hawaits.pending d (hawaited ▸ hd)
  · intro hfinished
    exact hdone (hawaits.finished (hawaited ▸ hfinished))

/-- A thread's step resolves what the handle waits for as a success with its signal only. -/
theorem Awaits.act (hawaits : Awaits l h k) {act : ChannelWorker.ThreadAct}
    {op : Option StreamOp} (hact : h.act serde act = some (h', op)) :
    Awaits (l.after h act) h' k := by
  have hsame (hawaited : h'.awaited = h.awaited) : Awaits (l.after h act) h' k :=
    hawaits.same hawaited (l.arrived_after h act) fun hdone => hdone.after h act
  cases act_move hact with
  | boot | ready | call | exit => exact hsame rfl
  | @perform e rest heffects =>
      cases e with
      | send | dropStream | ready => exact hsame rfl
      | signal d =>
          rcases resolve_cases h d (.ok ()) with hkept | ⟨hpending, hfinished⟩
          · exact hsame hkept
          · refine ⟨fun d' hd' => ?_, fun _ => ?_⟩
            · cases hfinished.symm.trans hd'
            · obtain ⟨r, hr, hk, rfl⟩ := hawaits.pending d hpending
              exact ⟨r, hr, hk, by simp [Life.after, heffects]⟩
      | dropDone d =>
          rcases resolve_cases h d (.error "worker dropped done channel") with hkept | ⟨_, hfailed⟩
          · exact hsame hkept
          · refine ⟨fun d' hd' => ?_, fun hfinished => ?_⟩
            · cases hfailed.symm.trans hd'
            · cases hfailed.symm.trans hfinished

/-- The call of `execute_streaming` for stream `k`. -/
theorem Awaits.called {req : DispatchRequest} {kept : Bool}
    (hcall : h.executeStreaming req = some (h', kept)) :
    Awaits (l.called h req kept) h' req.streamTx := by
  rcases executeStreaming_cases hcall with ⟨rfl, e, rfl⟩ | ⟨rfl, _, _, rfl⟩
  · exact ⟨nofun, nofun⟩
  · refine ⟨fun d hd => ⟨h.task req, List.mem_append_right _ List.mem_cons_self, rfl, ?_⟩, nofun⟩
    cases hd
    rfl

/-- A delivery concerns the inbox of a slot alone. -/
theorem deliver_slot (s : State (extensionRuntime serde)) (chosen : Nat) (req : DispatchRequest)
    (i : Nat) : ((deliver s chosen req).slots i).phase = (s.slots i).phase ∧
      ((deliver s chosen req).slots i).worker = (s.slots i).worker := by
  by_cases hi : i = chosen
  · simp [hi]
  · simp [hi]

/-- A request in execution was so before and its supervisor rests, or is called now. -/
theorem executing_before (move : Move serde cfg s a t) {i deadline : Nat}
    (hphase : (t.slots i).phase = .executing k deadline) (hslot : (t.slots i).worker = some w) :
    ((s.slots i).phase = .executing k deadline ∧ (s.slots i).worker = some w ∧
        ∀ b, a ≠ .supervise i b) ∨
      a = .supervise i .execute ∧ (s.slots i).worker = some w ∧
        ∃ req since, (s.slots i).phase = .dispatching req since ∧ req.streamTx = k := by
  cases move with
  | @delivered req attempt =>
      obtain ⟨hsame, hsame'⟩ := deliver_slot s ((s.next + attempt) % cfg.count) req i
      rw [hsame] at hphase
      rw [hsame'] at hslot
      refine .inl ⟨hphase, hslot, ?_⟩
      intro b hb
      cases hb
  | @supervised j b r _ _ move =>
      rw [s.supervise_slots] at hphase hslot
      by_cases hi : i = j
      · subst hi
        rw [update_self] at hphase hslot
        obtain ⟨slot', commands⟩ := r
        cases move with
        | execute hdispatching hworker =>
            cases hphase
            exact .inr ⟨rfl, hslot, _, _, hdispatching, rfl⟩
        | _ => cases hphase
      · rw [update_of_ne hi] at hphase hslot
        refine .inl ⟨hphase, hslot, ?_⟩
        rintro b' heq
        cases heq
        exact hi rfl
  | _ =>
      refine .inl ⟨hphase, hslot, ?_⟩
      intro b hb
      cases hb

/-- A success is noted when the handle of the slot shows it. -/
theorem finished_before (move : Move serde cfg s a t) {i : Nat} {r : Except String Unit}
    (hmem : .finished i w k (.done r) ∈ t.history) :
    .finished i w k (.done r) ∈ s.history ∨ ∃ deadline, ∃ h : ChannelWorker,
      a = .supervise i .pollExecute ∧ (s.slots i).phase = .executing k deadline ∧
        (s.slots i).worker = some w ∧ s.workers w = some h ∧
        h.awaited = some (.finished r) := by
  cases move with
  | refused | poolGone | judged | exhausted | delivered | pushed =>
      exact .inl (by simpa using hmem)
  | @supervised j b r' _ _ move =>
      rw [s.supervise_history, List.mem_append] at hmem
      rcases hmem with hold | hnew
      · exact .inl hold
      · obtain ⟨slot', commands⟩ := r'
        cases move with
        | settled hphase hworker hw hresult =>
            simp only [List.filterMap_cons, Command.noted, List.filterMap_nil,
              List.mem_singleton] at hnew
            cases hnew
            rcases hresult with ⟨r, hready, hresult⟩ | ⟨_, _, hresult⟩
            · cases hresult
              exact .inr ⟨_, _, rfl, hphase, hworker, hw, awaited_of_ready hready⟩
            · cases hresult
        | spawned | bootFailed | reloaded | reloadClosed | inboxClosed | recycled | took
        | execute =>
            simp only [List.filterMap_cons, Command.noted, List.filterMap_nil,
              List.mem_singleton] at hnew
            cases hnew
        | _ => simp [Command.noted] at hnew
  | _ => exact .inl hmem

/-- The invariant of handle `w`: its slot waits for its own request, and every success
noted was a signal of the thread. -/
structure Reported (w : Nat) (s : State (extensionRuntime serde)) (l : Life) : Prop where
  lived : Lived w s l
  awaits : ∀ i k deadline, ∀ h : ChannelWorker, (s.slots i).phase = .executing k deadline →
    (s.slots i).worker = some w → s.workers w = some h → Awaits l h k
  finished : ∀ i k, .finished i w k (.done (.ok ())) ∈ s.history → l.Done k

theorem handle_of_executing {i deadline : Nat} (hphase : (s.slots i).phase = .executing k deadline)
    (hslot : (s.slots i).worker = some w) : (s.slots i).handle = some w := by
  rw [Slot.handle, hphase]
  exact hslot

theorem Reported.awaits_step (hl : Reported w s l) (hhoused : Housed s)
    (move : Move serde cfg s a t) (threaded : Threaded cfg s t a w l l') (i deadline : Nat)
    (h' : ChannelWorker) (hphase : (t.slots i).phase = .executing k deadline)
    (hslot : (t.slots i).worker = some w) (hw' : t.workers w = some h') : Awaits l' h' k := by
  rcases executing_before move hphase hslot with ⟨hbefore, hworker, hrests⟩ |
    ⟨ha, hworker, req, since, hdispatching, rfl⟩
  · have hhandle := handle_of_executing hbefore hworker
    cases threaded with
    | kept _ hw => exact hl.awaits i k deadline h' hbefore hworker (hw ▸ hw')
    | released _ ha hreleased =>
        -- a supervisor touches its own handle only
        cases hhoused.distinct i _ w hhandle hreleased
        exact absurd ha (hrests _)
    | born _ _ hnew => exact absurd (hhoused.bound i w hhandle) (by omega)
    | @called j _ _ _ _ _ ha hdispatching _ howner =>
        have hother : (s.slots j).handle = some w := by
          rw [Slot.handle, hdispatching]
          exact howner
        cases hhoused.distinct i j w hhandle hother
        exact absurd ha (hrests _)
    | acted _ hw hact hnew =>
        cases hnew.symm.trans hw'
        exact (hl.awaits i k deadline _ hbefore hworker hw).act hact
  · cases threaded with
    | kept haside | released haside | born haside => exact absurd hworker (haside.2 i ha)
    | called ha' hdispatching' _ _ _ hnew hcall =>
        cases ha.symm.trans ha'
        cases hdispatching.symm.trans hdispatching'
        cases hnew.symm.trans hw'
        exact .called hcall
    | acted ha' => cases ha.symm.trans ha'

theorem Reported.finished_step (hl : Reported w s l)
    (hstaffed : ∀ w, s.handles ≤ w → s.workers w = none) (move : Move serde cfg s a t)
    (threaded : Threaded cfg s t a w l l') (i : Nat)
    (hmem : .finished i w k (.done (.ok ())) ∈ t.history) : l'.Done k := by
  have hdone : l.Done k := by
    rcases finished_before move hmem with hold | ⟨deadline, h, _, hphase, hslot, hw, hawaited⟩
    · exact hl.finished i k hold
    · exact (hl.awaits i k deadline h hphase hslot hw).finished hawaited
  cases threaded with
  | kept | released => exact hdone
  | born _ _ hnew =>
      obtain ⟨r, hr, _⟩ := hdone
      rw [(hl.lived.unborn (hstaffed w (Nat.le_of_eq hnew.symm))).1] at hr
      cases hr
  | called => exact hdone.called _ _ _
  | acted => exact hdone.after _ _

theorem reported_of_reachable
    (hs : Reachable (step serde cfg) (init (extensionRuntime serde) cfg) s) (w : Nat) :
    ∃ l : Life, Reported w s l := by
  induction hs with
  | start =>
      refine ⟨.unborn, .init w, fun i k deadline h hphase => ?_, fun i k hmem => ?_⟩
      · cases hphase
      · cases hmem
  | @next p q a reached _ hstep ih =>
      obtain ⟨l, hl⟩ := ih
      have move := step_move hstep
      have hstaffed : Staffed Neat p :=
        reached.invariant (Staffed Neat) (.init cfg) fun _ _ _ h _ hstep =>
          Neat.step h (step_move hstep)
      have hhoused : Housed p :=
        reached.invariant Housed (.init _ cfg) fun _ _ _ h _ hstep => h.step (step_move hstep)
      obtain ⟨l', threaded⟩ := step_threaded move w l
      refine ⟨l', ?_, ?_, ?_⟩
      · exact hl.lived.step (ticketed_of_reachable reached) hstaffed.drawn
          (fun k => (heard_of_reachable reached k).2) move threaded
      · exact fun i k deadline h => hl.awaits_step hhoused move threaded i deadline h
      · exact fun i k => hl.finished_step hstaffed.drawn move threaded i

/-- A history records what speaks. -/
theorem history_speaks (r : TaskRequest) (log : List Effect) :
    history r (log.filter speaks) = history r log := by
  rw [history, history, List.filterMap_filter]
  congr 1
  funext e
  cases e with
  | _ => rfl

/-- The done channel fires after the end of the stream. -/
theorem Life.Done.sent (hdone : l.Done k) (hleads : l.Leads serde h)
    (hdistinct : (l.arrived.map TaskRequest.streamTx).Nodup) : .streamEnd ∈ l.sends k := by
  obtain ⟨r, hr, rfl, hfired⟩ := hdone
  obtain ⟨p, hphase, hsettled⟩ := (Life.ledger hleads hdistinct).settled r hr
  obtain ⟨before, after, hperformed⟩ := List.append_of_mem hfired
  have hhistory : history r (l.outcome serde).effects =
      history r before ++ .fire :: history r (after ++ h.effects) := by
    rw [← history_speaks, ← hleads.spoken, history_speaks, hperformed, List.append_assoc,
      history_append]
    simp [history, Effect.mark]
  have hend := (legalHistory_of_phase hphase hsettled).fire_after_end _ _ hhistory
  obtain ⟨e, he, hmark⟩ := List.mem_filterMap.mp hend
  refine List.mem_filterMap.mpr ⟨e, hperformed ▸ List.mem_append_left _ he, ?_⟩
  cases e with
  | send tx c =>
      by_cases htx : tx = r.streamTx
      · simpa [Effect.mark, sentOn, htx] using hmark
      · simp [Effect.mark, htx] at hmark
  | signal d => simp [Effect.mark] at hmark
  | _ => cases hmark

/-- Over every run of the pool, a request whose execution is reported as a success has a
complete stream as long as its caller listens: the last chunk pushed on it is the end. -/
theorem finished_stream_complete (serde : SerdeJson) (cfg : WorkersConfig)
    (s : State (extensionRuntime serde))
    (h : Reachable (step serde cfg) (init (extensionRuntime serde) cfg) s) (i w : Nat)
    (k : StreamTx) (hfinished : .finished i w k (.done (.ok ())) ∈ s.history)
    (hlistens : (s.streams k).receiverOpen = true) :
    ∃ before, s.pushes k = before ++ [.streamEnd] := by
  obtain ⟨l, hl⟩ := reported_of_reachable h w
  have hdone := hl.finished i k hfinished
  obtain ⟨r, hr, rfl, _⟩ := id hdone
  have hborn : s.workers w ≠ none := by
    intro hunborn
    rw [(hl.lived.unborn hunborn).1] at hr
    cases hr
  obtain ⟨worker, hw⟩ := Option.ne_none_iff_exists'.mp hborn
  have hsent := hdone.sent (hl.lived.leads worker hw) hl.lived.distinct
  rw [← (hl.lived.heard r hr).2 hlistens] at hsent
  obtain ⟨before, after, heq⟩ := List.append_of_mem hsent
  have hlast := (pool_streams_legal serde cfg s h r.streamTx).1.end_last before after heq
  exact ⟨before, by rw [heq, hlast]⟩

/-- Thread 0 answers with `do_send`, and its supervisor sees the done channel fire. -/
def completedRun (serde : SerdeJson) : List (Action (extensionRuntime serde)) :=
  answeredRun serde ++ [.work 0 .perform, .work 0 .perform, .work 0 .perform, .work 0 .perform,
    .supervise 0 .pollExecute]

def isSuccess (i w : Nat) (k : StreamTx) : Event → Bool
  | .finished i' w' k' (.done (.ok ())) => i' == i && w' == w && k' == k
  | _ => false

theorem eq_of_isSuccess {i w : Nat} {k : StreamTx} {e : Event} (h : isSuccess i w k e = true) :
    e = .finished i w k (.done (.ok ())) := by
  cases e with
  | finished i' w' k' r =>
      rcases r with (e | _) | _
      · cases h
      · simp only [isSuccess, Bool.and_eq_true, beq_iff_eq] at h
        obtain ⟨⟨rfl, rfl⟩, rfl⟩ := h
        rfl
      · cases h
  | _ => cases h

/-- The caller of the first request finds a complete stream. -/
theorem completed_stream_complete :
    ∃ s, Reachable (step .ofNull .single) (init (extensionRuntime .ofNull) .single) s ∧
      .finished 0 0 0 (.done (.ok ())) ∈ s.history ∧
      ∃ before, s.pushes 0 = before ++ [.streamEnd] := by
  have hrun : (runs (step .ofNull .single) (init (extensionRuntime .ofNull) .single)
      (completedRun .ofNull)).any
        (fun s => s.history.any (isSuccess 0 0 0) && (s.streams 0).receiverOpen) = true := by
    decide +kernel
  obtain ⟨s, hs, htest⟩ := exists_reachable hrun
  rw [Bool.and_eq_true, List.any_eq_true] at htest
  obtain ⟨⟨e, he, hsuccess⟩, hlistens⟩ := htest
  rw [eq_of_isSuccess hsuccess] at he
  exact ⟨s, hs, he, finished_stream_complete .ofNull .single s hs 0 0 0 he hlistens⟩

end FolkCore.Ext
