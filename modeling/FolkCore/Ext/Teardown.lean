import FolkCore.Ext.Blocking

/-!
# The drop of the runtime

When `FolkServer::run` has returned, the thread of the server leaves `block_on` and drops the
tokio runtime: the tasks of the callers, of the pool and of its supervisors end at the point
where they stand, one after another and in any order, while the worker threads run on. What a
task owns is dropped with it, so that in the end no thread is held up by the server.
-/

namespace FolkCore.Pool

open Function

variable {R : Runtime} (cfg : WorkersConfig)

/-- The supervisor stands in the blocking send of `execute_streaming`. -/
def Slot.blocked (slot : Slot) (v : View R) : Bool :=
  match slot.phase with
  | .dispatching req _ =>
      (slot.worker.bind v.workers).any fun h => (R.executeStreaming h req).isNone
  | _ => false

/-- What the drop of a supervisor leaves of its worker. An execution has its future, too. -/
def Slot.dropWorker (slot : Slot) (h : R.Worker) : R.Worker :=
  match slot.phase with
  | .executing _ _ => R.dropHandle (R.dropExecute h)
  | _ => R.dropHandle h

/-- The handle of a slot with its worker. -/
def Slot.held (slot : Slot) (v : View R) : Option (Nat × R.Worker) :=
  slot.handle.bind fun w => (v.workers w).map fun h => (w, h)

/-- The drop of a supervisor where it stands. -/
def Slot.drop (slot : Slot) (v : View R) : Slot × List (Command R) :=
  ({ slot with worker := none, inbox := [], phase := .exited },
    ((slot.held v).map fun p => .setWorker p.1 (slot.dropWorker p.2)).toList ++
      [.discard slot.requests] ++
      match slot.phase with
      | .executing _ _ => [.release]
      | _ => [])

/-- The drop of `pool_main` where it stands. -/
def State.dropMain (s : State R) : State R :=
  { s.discard (s.requestCh ++ s.main.requests) with requestCh := [], main := .exited }

/-- What happens while the runtime is dropped. The tasks that are still there may take a last
step; a caller ends by `cancel`. -/
inductive Ending (R : Runtime) where
  | task (a : Action R)
  | main
  | slot (i : Nat)

def endingStep (serde : SerdeJson) (s : State R) : Ending R → Option (State R)
  | .task a => step serde cfg s a
  | .main => some s.dropMain
  | .slot i =>
      if i < cfg.count ∧ (s.slots i).phase.live = true ∧ (s.slots i).blocked s.view = false then
        some (s.supervise i ((s.slots i).drop s.view))
      else none

/-- Every task is gone: no caller listens, and no supervisor runs. -/
structure State.Over (s : State R) : Prop where
  calls : ∀ k, ¬(s.calls k).Listening
  slots : ∀ i < cfg.count, (s.slots i).phase.live = false

end FolkCore.Pool

namespace FolkCore.Ext

open Bridge Function Lib Pool

variable {serde : SerdeJson} {cfg : WorkersConfig} {s t : State (extensionRuntime serde)}
  {h : ChannelWorker} {w : Nat}

/-- Everything the drop of a task does: it drops requests, it ends a slot, and it gives a
handle up. -/
structure Discards (cfg : WorkersConfig) (s t : State (extensionRuntime serde))
    (reqs : List DispatchRequest) : Prop where
  calls : t.calls = s.calls
  callCount : t.callCount = s.callCount
  handles : t.handles = s.handles
  history : t.history = s.history
  streams : t.streams = (s.discard reqs).streams
  tally : ∀ tx, t.tally cfg tx + Pool.tally tx reqs ≤ s.tally cfg tx
  slots : ∀ i, t.slots i = s.slots i ∨ (t.slots i).phase = .exited ∧ (t.slots i).worker = none
  workers : ∀ w, (t.workers w = s.workers w ∧ ∀ h, s.workers w = some h →
      ∀ i, (s.slots i).handle = some w → t.slots i = s.slots i) ∨
    ∃ h h' : ChannelWorker, s.workers w = some h ∧ t.workers w = some h' ∧
      h'.state = h.state ∧ h'.effects = h.effects ∧ h'.taskTx = false

theorem discard_frame {R : Runtime} (p : State R) (reqs : List DispatchRequest) (tx : StreamTx) :
    ((p.discard reqs).streams tx).owner = (p.streams tx).owner ∧
      ((p.discard reqs).streams tx).receiverOpen = (p.streams tx).receiverOpen ∧
      ((p.discard reqs).streams tx).buffer = (p.streams tx).buffer ∧
      (tx ∉ reqs.map DispatchRequest.streamTx →
        (p.discard reqs).streams tx = p.streams tx) := by
  simp only [State.discard]
  split
  · next hmem => exact ⟨rfl, rfl, rfl, fun hnot => absurd hmem hnot⟩
  · exact ⟨rfl, rfl, rfl, fun _ => rfl⟩

theorem tally_pos {reqs : List DispatchRequest} {tx : StreamTx} :
    0 < Pool.tally tx reqs ↔ tx ∈ reqs.map DispatchRequest.streamTx :=
  List.count_pos_iff

namespace Discards

variable {reqs : List DispatchRequest}

theorem stream (hd : Discards cfg s t reqs) (tx : StreamTx) :
    (t.streams tx).owner = (s.streams tx).owner ∧
      (t.streams tx).receiverOpen = (s.streams tx).receiverOpen ∧
      (t.streams tx).buffer = (s.streams tx).buffer ∧
      (tx ∉ reqs.map DispatchRequest.streamTx → t.streams tx = s.streams tx) := by
  rw [hd.streams]
  exact discard_frame s reqs tx

/-- A slot that has a handle afterwards had it before. -/
theorem handle (hd : Discards cfg s t reqs) {i : Nat} (hhandle : (t.slots i).handle = some w) :
    t.slots i = s.slots i := by
  rcases hd.slots i with hsame | ⟨hphase, hworker⟩
  · exact hsame
  · simp [Slot.handle, hphase, hworker] at hhandle

theorem ticketed (hd : Discards cfg s t reqs) (hs : Ticketed cfg s) : Ticketed cfg t := by
  apply hs.advance hd.callCount
  · intro tx
    exact (Nat.le_add_right _ _).trans (hd.tally tx)
  · intro tx hpos
    have hkept : tx ∉ reqs.map DispatchRequest.streamTx := by
      intro hmem
      have hone := hs.unique tx
      have htally := hd.tally tx
      have hreq := tally_pos.mpr hmem
      omega
    rw [(hd.stream tx).2.2.2 hkept]
    exact ⟨rfl, rfl⟩
  · intro i tx deadline hphase
    rcases hd.slots i with hsame | ⟨hexited, _⟩
    · exact hs.running i tx deadline (hsame ▸ hphase)
    · cases hexited.symm.trans hphase
  · intro k kind req hcall
    exact hd.calls ▸ hcall
  · intro k hk
    have hkept : k ∉ reqs.map DispatchRequest.streamTx := by
      intro hmem
      have hpos : 0 < s.tally cfg k :=
        (tally_pos.mpr hmem).trans_le ((Nat.le_add_left _ _).trans (hd.tally k))
      exact absurd (hs.held k hpos).1 (Nat.not_lt.mpr hk)
    exact ⟨congrFun hd.calls k, (hd.stream k).2.2.2 hkept, by rw [State.story, hd.history]; rfl⟩

theorem housed (hd : Discards cfg s t reqs) (hs : Housed s) : Housed t where
  tidy i := by
    rcases hd.slots i with hsame | ⟨hphase, hworker⟩
    · rw [hsame]
      exact hs.tidy i
    · simpa [Slot.Tidy, hphase] using hworker
  bound i w hhandle := by
    rw [hd.handles]
    exact hs.bound i w (hd.handle hhandle ▸ hhandle)
  distinct i j w hi hj :=
    hs.distinct i j w (hd.handle hi ▸ hi) (hd.handle hj ▸ hj)
  noted := by
    rw [hd.history, hd.handles]
    exact hs.noted

/-- The thread behind a handle goes on as before. -/
theorem thread (hd : Discards cfg s t reqs) {h' : ChannelWorker} (hw' : t.workers w = some h') :
    ∃ h : ChannelWorker, s.workers w = some h ∧ h'.state = h.state ∧ h'.effects = h.effects := by
  rcases hd.workers w with ⟨hsame, _⟩ | ⟨h, h₁, hw, hw₁, hstate, heffects, _⟩
  · exact ⟨h', hsame ▸ hw', rfl, rfl⟩
  · cases hw₁.symm.trans hw'
    exact ⟨h, hw, hstate, heffects⟩

theorem threading (hd : Discards cfg s t reqs) (hs : Threading cfg s) : Threading cfg t where
  ticketed := hd.ticketed hs.ticketed
  housed := hd.housed hs.housed
  staffed := by
    refine ⟨fun w hw => ?_, fun w h' hw' => ?_⟩
    · have hnone := hs.staffed.drawn w (hd.handles ▸ hw)
      rcases hd.workers w with ⟨hsame, _⟩ | ⟨h, _, hsome, _⟩
      · exact hsame.trans hnone
      · cases hnone.symm.trans hsome
    · obtain ⟨h, hw, hstate, heffects⟩ := hd.thread hw'
      obtain ⟨hpaired, hclosing⟩ := hs.staffed.good w h hw
      exact ⟨by rw [hstate]; exact hpaired, by rw [heffects]; exact hclosing⟩
  held w h' hw' := by
    obtain ⟨h, hw, hstate, heffects⟩ := hd.thread hw'
    apply (hs.held w h hw).aside hstate heffects
    intro k howner
    have hkept : k ∉ reqs.map DispatchRequest.streamTx := by
      intro hmem
      have hpos : 0 < s.tally cfg k :=
        (tally_pos.mpr hmem).trans_le ((Nat.le_add_left _ _).trans (hd.tally k))
      cases howner.symm.trans (hs.ticketed.held k hpos).2.1
    rw [(hd.stream k).2.2.2 hkept]
    exact ⟨howner, id⟩
  tended w h' hw' htx := by
    rcases hd.workers w with ⟨hsame, hslots⟩ | ⟨_, h₁, _, hw₁, _, _, hclosed⟩
    · have hw : s.workers w = some h' := hsame ▸ hw'
      obtain ⟨i, hi, hhandle⟩ := hs.tended w h' hw htx
      exact ⟨i, hi, by rw [hslots h' hw i hhandle]; exact hhandle⟩
    · cases hw₁.symm.trans hw'
      cases hclosed.symm.trans htx
  narrow k := by
    rw [(hd.stream k).2.2.1]
    exact hs.narrow k
  heard k := by
    obtain ⟨_, hreceiver, hbuffer, _⟩ := hd.stream k
    refine (hs.heard k).aside (congrFun hd.calls k) hreceiver hbuffer ?_
    show (t.story k).filterMap Event.chunk? = (s.story k).filterMap Event.chunk?
    rw [State.story, hd.history]
    rfl

end Discards

theorem discards_main (cfg : WorkersConfig) (s : State (extensionRuntime serde)) :
    Discards cfg s s.dropMain (s.requestCh ++ s.main.requests) where
  calls := rfl
  callCount := rfl
  handles := rfl
  history := rfl
  streams := rfl
  tally tx := by
    simp only [State.tally, State.dropMain, State.discard, MainPhase.requests, tally_append,
      tally_nil]
    omega
  slots _ := .inl rfl
  workers _ := .inl ⟨rfl, fun _ _ _ _ => rfl⟩

theorem dropWorker_thread (slot : Slot) (h : ChannelWorker) :
    ∃ h' : ChannelWorker, slot.dropWorker (R := extensionRuntime serde) h = h' ∧
      h'.state = h.state ∧ h'.effects = h.effects ∧ h'.taskTx = false := by
  unfold Slot.dropWorker
  split
  · exact ⟨_, rfl, rfl, rfl, rfl⟩
  · exact ⟨_, rfl, rfl, rfl, rfl⟩

/-- The drop of a supervisor writes to the worker of its handle only. -/
theorem drop_workers (s : State (extensionRuntime serde)) (i : Nat) (slot : Slot) (w : Nat) :
    slot.handle ≠ some w ∧ (s.supervise i (slot.drop s.view)).workers w = s.workers w ∨
      s.workers w = none ∧ (s.supervise i (slot.drop s.view)).workers w = none ∨
      ∃ h h' : ChannelWorker, s.workers w = some h ∧
        (s.supervise i (slot.drop s.view)).workers w = some h' ∧ h'.state = h.state ∧
        h'.effects = h.effects ∧ h'.taskTx = false := by
  have unheld (hheld : slot.held s.view = none) :
      (s.supervise i (slot.drop s.view)).workers = s.workers := by
    unfold Slot.drop
    rw [hheld]
    cases slot.phase <;> rfl
  cases hhandle : slot.handle with
  | none =>
      have hheld : slot.held s.view = none := by rw [Slot.held, hhandle]; rfl
      exact .inl ⟨nofun, congrFun (unheld hheld) w⟩
  | some w' =>
      cases hw' : s.workers w' with
      | none =>
          have hheld : slot.held s.view = none := by
            rw [Slot.held, hhandle, Option.bind_some]
            exact Option.map_eq_none_iff.mpr hw'
          have hsame := congrFun (unheld hheld) w
          by_cases hw : w = w'
          · subst hw
            exact .inr (.inl ⟨hw', hsame.trans hw'⟩)
          · exact .inl ⟨fun heq => hw (Option.some.inj heq).symm, hsame⟩
      | some h =>
          have hheld : slot.held s.view = some (w', h) := by
            rw [Slot.held, hhandle, Option.bind_some]
            exact Option.map_eq_some_iff.mpr ⟨h, hw', rfl⟩
          have hworkers : (s.supervise i (slot.drop s.view)).workers =
              update s.workers w' (some (slot.dropWorker h)) := by
            unfold Slot.drop
            rw [hheld]
            cases slot.phase <;> rfl
          obtain ⟨h', hdropped, hthread⟩ := dropWorker_thread slot h
          rw [hworkers, hdropped]
          by_cases hw : w = w'
          · subst hw
            exact .inr (.inr ⟨h, h', hw', update_self _ _ _, hthread⟩)
          · exact .inl ⟨fun heq => hw (Option.some.inj heq).symm, update_of_ne hw _ _⟩

theorem drop_streams {slot : Slot} (s : State (extensionRuntime serde)) (i : Nat) :
    (s.supervise i (slot.drop s.view)).streams = (s.discard slot.requests).streams := by
  unfold Slot.drop
  cases slot.held s.view with
  | none => cases slot.phase <;> rfl
  | some p => cases slot.phase <;> rfl

theorem drop_noted {slot : Slot} (v : View (extensionRuntime serde)) :
    (slot.drop v).2.filterMap Command.noted = [] ∧ (slot.drop v).2.countP Command.isSpawn = 0 := by
  unfold Slot.drop
  cases slot.held v with
  | none => cases slot.phase <;> exact ⟨rfl, rfl⟩
  | some p => cases slot.phase <;> exact ⟨rfl, rfl⟩

theorem discards_slot (s : State (extensionRuntime serde)) {i : Nat} (hi : i < cfg.count) :
    Discards cfg s (s.supervise i ((s.slots i).drop s.view)) (s.slots i).requests where
  calls := s.supervise_calls i _
  callCount := s.supervise_callCount i _
  handles := by rw [s.supervise_handles, (drop_noted s.view).2, Nat.add_zero]
  history := by rw [s.supervise_history, (drop_noted s.view).1, List.append_nil]
  streams := drop_streams s i
  tally tx := by
    have hreplace := tally_replace tx hi
      (congrFun (s.supervise_calls i ((s.slots i).drop s.view)) tx) (s.supervise_requestCh i _)
      (s.supervise_slots i _)
    rw [s.supervise_main] at hreplace
    have hnone : ((s.slots i).drop s.view).1.requests = [] := rfl
    rw [hnone, tally_nil] at hreplace
    omega
  slots j := by
    rw [s.supervise_slots]
    by_cases hj : j = i
    · subst hj
      rw [update_self]
      exact .inr ⟨rfl, rfl⟩
    · exact .inl (update_of_ne hj _ _)
  workers w := by
    rcases drop_workers s i (s.slots i) w with ⟨hne, hsame⟩ | ⟨hnone, hnone'⟩ | hgiven
    · refine .inl ⟨hsame, fun _ _ j hj => ?_⟩
      rw [s.supervise_slots, update_of_ne]
      rintro rfl
      exact hne hj
    · refine .inl ⟨hnone'.trans hnone.symm, fun h hw => ?_⟩
      cases hnone.symm.trans hw
    · exact .inr hgiven

theorem Threading.ending (hs : Threading cfg s) {a : Ending (extensionRuntime serde)}
    (hstep : endingStep cfg serde s a = some t) : Threading cfg t := by
  cases a with
  | task a => exact hs.step (step_move hstep)
  | main =>
      cases hstep
      exact (discards_main cfg s).threading hs
  | slot i =>
      simp only [endingStep] at hstep
      split at hstep
      · next hguard =>
          cases hstep
          exact (discards_slot s hguard.1).threading hs
      · cases hstep

end FolkCore.Ext
