import FolkCore.Ext.SpawnRace
import Mathlib.Algebra.Group.Nat.Defs

/-!
# Worker ids

The main thread's bridge has id 1 by itself, while the handles draw their ids from a
shared counter, in any order and some for calls that fail. No thread is started with
id 1 because a call creates a thread only when the vector is empty, and the call that
emptied it had drawn an id. So the guard of `run_dispatch_loop` lets the main thread
alone join the others.
-/

namespace FolkCore.Ext

open Bridge Function Lib Pool

/-- The id of a call that holds one, or of the handle it returned. -/
def SpawnCall.workerId? : SpawnCall → Option UInt32
  | .popping workerId => some workerId
  | .starting workerId => some workerId
  | .returned (.ok c) => some c.handle.workerId
  | _ => none

/-- The call draws no id any more. -/
def SpawnCall.passed : SpawnCall → Bool
  | .unbegun => false
  | .taking => false
  | .creating => false
  | _ => true

/-- The call returned a handle that is connected to the main thread. -/
def SpawnCall.onMain : SpawnCall → Bool
  | .returned (.ok c) => decide (c.thread = .main)
  | _ => false

/-- The id with which the bridge of a thread is initialised. -/
def Thread.bridgeId : Thread → UInt32
  | .main => 1
  | .zts workerId => workerId

/-- The closed task channel ends `run_dispatch_loop`; worker #1 joins the ZTS workers
first. -/
def loopJoins (st : WorkerState) : Bool := st.taskRx.isEmpty && decide (st.workerId = 1)

namespace SpawnRace

/-- The threads that run PHP. -/
def threads (s : SpawnRace) : List Thread := .main :: s.ztsThreads.map .zts

/-- The calls that draw no id any more. -/
def passedCalls (n : Nat) (s : SpawnRace) : Finset Nat :=
  (Finset.range n).filter fun k => (s.calls k).passed = true

/-- The invariant: `d` ids were drawn, in order, and are held by different calls; an
empty vector was emptied by a call with an id, and a thread has an id above 1. -/
structure Numbered (n d : Nat) (s : SpawnRace) : Prop where
  limited : ∀ k, s.calls k ≠ .unbegun → k < n
  next : s.runtime.nextWorkerId = UInt32.ofNat (d + 1)
  drawn_le : d ≤ (s.passedCalls n).card
  ids : ∀ k w, (s.calls k).workerId? = some w → 1 ≤ w.toNat ∧ w.toNat ≤ d
  distinct : ∀ j k w, (s.calls j).workerId? = some w → (s.calls k).workerId? = some w → j = k
  channels : s.runtime.channels = [⟨.main⟩] ∧ (∀ k, (s.calls k).onMain = false) ∨
    s.runtime.channels = [] ∧ 1 ≤ d ∧
      ∀ j k, (s.calls j).onMain = true → (s.calls k).onMain = true → j = k
  creating : ∀ k, s.calls k = .creating → s.runtime.channels = []
  starting : ∀ k w, s.calls k = .starting w → 2 ≤ w.toNat
  zts : ∀ w ∈ s.ztsThreads, 2 ≤ w.toNat

variable {n d : Nat} {s t : SpawnRace} {a : SpawnStep}

theorem Numbered.init (n : Nat) (cfg : WorkersConfig) : Numbered n 0 (SpawnRace.init cfg) where
  limited k h := absurd rfl h
  next := rfl
  drawn_le := Nat.zero_le _
  ids k w h := by cases h
  distinct j k w h := by cases h
  channels := .inl ⟨rfl, fun _ => rfl⟩
  creating k h := by cases h
  starting k w h := by cases h
  zts w h := by cases h

/-- A call that has not passed leaves an id to draw below the number of calls. -/
theorem Numbered.drawn_lt (h : Numbered n d s) {k : Nat} (hk : k < n)
    (hpassed : (s.calls k).passed = false) : d < n := by
  have hnot : k ∉ s.passedCalls n := by simp [passedCalls, hpassed]
  have hsub : insert k (s.passedCalls n) ⊆ Finset.range n := by
    apply Finset.insert_subset (Finset.mem_range.mpr hk)
    exact Finset.filter_subset _ _
  have hcard := Finset.card_le_card hsub
  rw [Finset.card_insert_of_notMem hnot, Finset.card_range] at hcard
  have := h.drawn_le
  omega

/-- The calls that passed stay so. -/
theorem passedCalls_subset {k : Nat} {call : SpawnCall} {rt : ExtensionRuntime}
    {threads : List UInt32} (hpassed : (s.calls k).passed = true → call.passed = true) :
    s.passedCalls n ⊆ passedCalls n ⟨rt, update s.calls k call, threads⟩ := by
  intro j hj
  simp only [passedCalls, Finset.mem_filter] at hj ⊢
  refine ⟨hj.1, ?_⟩
  by_cases hjk : j = k
  · subst hjk
    simpa using hpassed hj.2
  · simpa [hjk] using hj.2

/-- One call goes on with no id or with an id that no other call holds. The vector is left
alone, or emptied by the call that gets a handle on the main thread. -/
theorem Numbered.advance (h : Numbered n d s) {d' k : Nat} {call : SpawnCall}
    {rt : ExtensionRuntime} {threads : List UInt32} (hle : d ≤ d') (hk : k < n)
    (hnext : rt.nextWorkerId = UInt32.ofNat (d' + 1))
    (hdrawn : d' ≤ (passedCalls n ⟨rt, update s.calls k call, threads⟩).card)
    (hrange : ∀ w, call.workerId? = some w → 1 ≤ w.toNat ∧ w.toNat ≤ d')
    (hfresh : ∀ w, call.workerId? = some w → ∀ j, (s.calls j).workerId? = some w → j = k)
    (hchannels : rt.channels = s.runtime.channels ∧ call.onMain = false ∨
      s.runtime.channels = [⟨.main⟩] ∧ rt.channels = [] ∧ 1 ≤ d')
    (hcreating : call = .creating → rt.channels = [])
    (hstarting : ∀ w, call = .starting w → 2 ≤ w.toNat) (hzts : ∀ w ∈ threads, 2 ≤ w.toNat) :
    Numbered n d' ⟨rt, update s.calls k call, threads⟩ where
  limited := by
    apply (forall_update_iff s.calls fun j c => c ≠ .unbegun → j < n).mpr
    exact ⟨fun _ => hk, fun j _ => h.limited j⟩
  next := hnext
  drawn_le := hdrawn
  ids := by
    apply (forall_update_iff s.calls fun _ c =>
      ∀ w, c.workerId? = some w → 1 ≤ w.toNat ∧ w.toNat ≤ d').mpr
    refine ⟨hrange, fun j _ w hw => ?_⟩
    have := h.ids j w hw
    omega
  distinct i j w hi hj := by
    by_cases hik : i = k
    · by_cases hjk : j = k
      · exact hik.trans hjk.symm
      · subst hik
        exact (hfresh w (by simpa using hi) j (by simpa [hjk] using hj)).symm
    · by_cases hjk : j = k
      · subst hjk
        exact hfresh w (by simpa using hj) i (by simpa [hik] using hi)
      · exact h.distinct i j w (by simpa [hik] using hi) (by simpa [hjk] using hj)
  channels := by
    rcases hchannels with ⟨hsame, hcall⟩ | ⟨hmain, hempty, hone⟩
    · have old {j : Nat} (hj : (update s.calls k call j).onMain = true) :
          (s.calls j).onMain = true := flag_before hcall hj
      rcases h.channels with ⟨hmain, hnone⟩ | ⟨hempty, hone, honce⟩
      · refine .inl ⟨hsame.trans hmain, fun j => Bool.eq_false_iff.mpr fun hj => ?_⟩
        exact absurd (old hj) (by simp [hnone j])
      · exact .inr ⟨hsame.trans hempty, hone.trans hle,
          fun i j hi hj => honce i j (old hi) (old hj)⟩
    · have hnone : ∀ j, (s.calls j).onMain = false := by
        rcases h.channels with ⟨_, hnone⟩ | ⟨hempty', _⟩
        · exact hnone
        · exact absurd (hmain.symm.trans hempty') nofun
      have only {j : Nat} (hj : (update s.calls k call j).onMain = true) : j = k := by
        by_contra hjk
        simp [hjk, hnone j] at hj
      exact .inr ⟨hempty, hone, fun i j hi hj => (only hi).trans (only hj).symm⟩
  creating := by
    have hkept : s.runtime.channels = [] → rt.channels = [] := by
      intro hempty
      rcases hchannels with ⟨hsame, _⟩ | ⟨_, hempty', _⟩
      · exact hsame.trans hempty
      · exact hempty'
    apply (forall_update_iff s.calls fun _ c => c = .creating → rt.channels = []).mpr
    exact ⟨hcreating, fun j _ hj => hkept (h.creating j hj)⟩
  starting := by
    apply (forall_update_iff s.calls fun _ c => ∀ w, c = .starting w → 2 ≤ w.toNat).mpr
    exact ⟨hstarting, fun j _ => h.starting j⟩
  zts := hzts

/-- A step of a call that draws no id. -/
theorem Numbered.goOn (h : Numbered n d s) {k : Nat} {call : SpawnCall} {rt : ExtensionRuntime}
    {threads : List UInt32} (hk : k < n) (hnext : rt.nextWorkerId = s.runtime.nextWorkerId)
    (hpassed : (s.calls k).passed = true → call.passed = true)
    (hid : ∀ w, call.workerId? = some w → (s.calls k).workerId? = some w)
    (hchannels : rt.channels = s.runtime.channels ∧ call.onMain = false ∨
      s.runtime.channels = [⟨.main⟩] ∧ rt.channels = [] ∧ 1 ≤ d)
    (hcreating : call = .creating → rt.channels = []) (hstarting : ∀ w, call ≠ .starting w)
    (hzts : ∀ w ∈ threads, 2 ≤ w.toNat) :
    Numbered n d ⟨rt, update s.calls k call, threads⟩ := by
  refine h.advance le_rfl hk (hnext.trans h.next) ?_ ?_ ?_ hchannels hcreating ?_ hzts
  · exact h.drawn_le.trans (Finset.card_le_card (passedCalls_subset hpassed))
  · exact fun w hw => h.ids k w (hid w hw)
  · exact fun w hw j hj => h.distinct j k w hj (hid w hw)
  · exact fun w hw => absurd hw (hstarting w)

/-- A step of a call that draws an id: it is the next in order. -/
theorem Numbered.draw (h : Numbered n d s) (hn : n < 2 ^ 32) {k : Nat} {call : SpawnCall}
    (hk : k < n) (hbefore : (s.calls k).passed = false)
    (hcall : call = .popping s.runtime.nextWorkerId ∨
      call = .starting s.runtime.nextWorkerId ∧ s.runtime.channels = []) :
    Numbered n (d + 1) ⟨s.runtime.drawWorkerId.2, update s.calls k call, s.ztsThreads⟩ := by
  have hlt : d < n := h.drawn_lt hk hbefore
  have hdrawn : s.runtime.nextWorkerId.toNat = d + 1 := by
    rw [h.next]
    exact UInt32.toNat_ofNat_of_lt' (by simp only [UInt32.size]; omega)
  have hid : call.workerId? = some s.runtime.nextWorkerId := by
    rcases hcall with rfl | ⟨rfl, _⟩
    · rfl
    · rfl
  have hpassed : call.passed = true := by
    rcases hcall with rfl | ⟨rfl, _⟩
    · rfl
    · rfl
  have hmain : call.onMain = false := by
    rcases hcall with rfl | ⟨rfl, _⟩
    · rfl
    · rfl
  refine h.advance (Nat.le_succ d) hk ?_ ?_ ?_ ?_ (.inl ⟨rfl, hmain⟩) ?_ ?_ h.zts
  · show s.runtime.nextWorkerId + 1 = UInt32.ofNat (d + 1 + 1)
    rw [UInt32.ofNat_add (d + 1) 1, h.next]
    rfl
  · have hnot : k ∉ s.passedCalls n := by simp [passedCalls, hbefore]
    have hsub : insert k (s.passedCalls n) ⊆
        passedCalls n ⟨s.runtime.drawWorkerId.2, update s.calls k call, s.ztsThreads⟩ := by
      apply Finset.insert_subset
      · simp [passedCalls, hk, hpassed]
      · exact passedCalls_subset fun _ => hpassed
    have hcard := Finset.card_le_card hsub
    rw [Finset.card_insert_of_notMem hnot] at hcard
    have := h.drawn_le
    omega
  · intro w hw
    obtain rfl : s.runtime.nextWorkerId = w := Option.some.inj (hid.symm.trans hw)
    omega
  · intro w hw j hj
    -- an id that is held was drawn before
    obtain rfl : s.runtime.nextWorkerId = w := Option.some.inj (hid.symm.trans hw)
    have hle := (h.ids j _ hj).2
    omega
  · intro hcreating
    rcases hcall with rfl | ⟨rfl, _⟩
    · cases hcreating
    · cases hcreating
  · intro w hw
    rcases hcall with rfl | ⟨rfl, hempty⟩
    · cases hw
    · cases hw
      -- the vector was emptied by a call with an id
      rcases h.channels with ⟨hfull, _⟩ | ⟨_, hone, _⟩
      · exact absurd (hfull.symm.trans hempty) nofun
      · omega

theorem Numbered.step (h : Numbered n d s) (hn : n < 2 ^ 32) (move : Move n s a t) :
    ∃ d', Numbered n d' t := by
  have begun {k : Nat} {call : SpawnCall} (hcall : s.calls k = call) (hbegun : call ≠ .unbegun) :
      k < n := h.limited k (hcall.symm ▸ hbegun)
  cases move with
  | @checked k hcall hk =>
      have hbefore : (s.calls k).passed = true → s.runtime.checked.passed = true := by
        simp [hcall, SpawnCall.passed]
      rcases s.runtime.checked_cases with ⟨hnext, _⟩ | ⟨hnext, hempty, _⟩ | ⟨e, hnext, _⟩
      · rw [hnext] at hbefore ⊢
        exact ⟨d, h.goOn hk rfl hbefore (fun w hw => by cases hw) (.inl ⟨rfl, rfl⟩) (by simp)
          (by simp) h.zts⟩
      · rw [hnext] at hbefore ⊢
        exact ⟨d, h.goOn hk rfl hbefore (fun w hw => by cases hw) (.inl ⟨rfl, rfl⟩)
          (fun _ => hempty) (by simp) h.zts⟩
      · rw [hnext] at hbefore ⊢
        exact ⟨d, h.goOn hk rfl hbefore (fun w hw => by cases hw) (.inl ⟨rfl, rfl⟩) (by simp)
          (by simp) h.zts⟩
  | @drewToPop k hcall =>
      refine ⟨d + 1, h.draw hn (begun hcall (by simp)) ?_ (.inl rfl)⟩
      simp [hcall, SpawnCall.passed]
  | @drewToStart k hcall =>
      refine ⟨d + 1, h.draw hn (begun hcall (by simp)) ?_ (.inr ⟨rfl, h.creating k hcall⟩)⟩
      simp [hcall, SpawnCall.passed]
  | @popped k w side hcall hside =>
      have hid : (s.calls k).workerId? = some w := by simp [hcall, SpawnCall.workerId?]
      have hdrawn := h.ids k w hid
      refine ⟨d, h.goOn (begun hcall (by simp)) rfl (fun _ => rfl) ?_ (.inr ?_) (by simp) (by simp)
        h.zts⟩
      · rintro w' ⟨⟩
        exact hid
      · rcases h.channels with ⟨hmain, _⟩ | ⟨hempty, _⟩
        · exact ⟨hmain, by simp [hmain], by omega⟩
        · simp [hempty] at hside
  | @popFailed k w e hcall hnone =>
      exact ⟨d, h.goOn (begun hcall (by simp)) rfl (fun _ => rfl) (fun w hw => by cases hw)
        (.inl ⟨rfl, rfl⟩) (by simp) (by simp) h.zts⟩
  | @started k w path hcall =>
      have hid : (s.calls k).workerId? = some w := by simp [hcall, SpawnCall.workerId?]
      refine ⟨d, h.goOn (begun hcall (by simp)) rfl (fun _ => rfl) ?_ (.inl ⟨rfl, rfl⟩) (by simp)
        (by simp) ?_⟩
      · rintro w' ⟨⟩
        exact hid
      · intro w' hw'
        rcases List.mem_append.mp hw' with hold | hnew
        · exact h.zts w' hold
        · obtain rfl := List.mem_singleton.mp hnew
          exact h.starting k w' hcall
  | @noDirectory k w e hcall =>
      exact ⟨d, h.goOn (begun hcall (by simp)) rfl (fun _ => rfl) (fun w hw => by cases hw)
        (.inl ⟨rfl, rfl⟩) (by simp) (by simp) h.zts⟩

theorem numbered_of_reachable {cfg : WorkersConfig} (hn : n < 2 ^ 32)
    (hs : Reachable (step n) (SpawnRace.init cfg) s) : ∃ d, Numbered n d s :=
  hs.invariant (fun s => ∃ d, Numbered n d s) ⟨0, .init n cfg⟩ fun _ _ _ h _ hstep =>
    h.elim fun _ h => h.step hn (step_move hstep)

end SpawnRace

section Joining

variable (serde : SerdeJson)

/-- No bridge call changes the id of its thread. -/
theorem outcome_workerId (st : WorkerState) (s : Step) :
    (s.outcome serde st).state.workerId = st.workerId := by
  cases s with
  | loopRecv =>
      simp only [Step.outcome, loopRecv, Outcome.map]
      split <;> rfl
  | loopFinish result => rfl
  | call c =>
      cases c with
      | recv =>
          simp only [Step.outcome, Call.outcome, doRecv, Outcome.map]
          split <;> rfl
      | send data =>
          simp only [Step.outcome, Call.outcome, doSend, Outcome.map]
          split
          · rfl
          · split
            · rfl
            · split <;> rfl
      | sendError message => rfl
      | writeHead accepted status headers =>
          simp only [Step.outcome, Call.outcome, doWriteHead, Outcome.map]
          split
          · rfl
          · split <;> rfl
      | write accepted data =>
          simp only [Step.outcome, Call.outcome, doWrite, Outcome.map]
          split
          · rfl
          · split <;> rfl
      | writeEnd =>
          simp only [Step.outcome, Call.outcome, doWriteEnd, Outcome.map]
          split
          · rfl
          · split <;> rfl
      | read length => exact (doRead_frame st length).workerId
      | readAll => exact (doReadAll_frame st).workerId
      | nextPart => exact (doNextPart_frame serde st).workerId
      | partRead length => exact (doPartRead_frame st length).workerId
      | partReadAll => exact (doPartReadAll_frame st).workerId

theorem run_workerId (steps : List Step) (st : WorkerState) :
    (run serde steps st).state.workerId = st.workerId := by
  induction steps generalizing st with
  | nil => rfl
  | cons s rest ih => exact (ih _).trans (outcome_workerId serde st s)

end Joining

open SpawnRace in
/-- In every race of fewer than `2 ^ 32` calls of `spawn`: one handle at most is
connected to the main thread, returned handles have different worker ids, no thread is
started with id 1, and only the main thread can come to join the others in
`run_dispatch_loop`, whatever tasks it receives and whatever bridge calls it makes. -/
theorem worker_ids_of_race (n : Nat) (hn : n < 2 ^ 32) (cfg : WorkersConfig) (s : SpawnRace)
    (hs : Reachable (step n) (SpawnRace.init cfg) s) :
    (∀ j k, (s.calls j).onMain = true → (s.calls k).onMain = true → j = k) ∧
    (∀ j k c c', s.calls j = .returned (.ok c) → s.calls k = .returned (.ok c') → j ≠ k →
      c.handle.workerId ≠ c'.handle.workerId) ∧
    1 ∉ s.ztsThreads ∧
    ∀ thread ∈ s.threads, ∀ serde tasks steps,
      loopJoins (run serde steps (initWorkerState thread.bridgeId tasks)).state = true →
        thread = .main := by
  obtain ⟨d, h⟩ := numbered_of_reachable hn hs
  have hone : 1 ∉ s.ztsThreads := fun hmem => absurd (h.zts 1 hmem) (by decide)
  refine ⟨?_, ?_, hone, ?_⟩
  · rcases h.channels with ⟨_, hnone⟩ | ⟨_, _, honce⟩
    · intro j k hj
      exact absurd (hj.symm.trans (hnone j)) nofun
    · exact honce
  · intro j k c c' hj hk hjk heq
    apply hjk
    apply h.distinct j k c.handle.workerId
    · simp [hj, SpawnCall.workerId?]
    · simp [hk, SpawnCall.workerId?, heq]
  · intro thread hthread serde tasks steps hjoins
    rcases List.mem_cons.mp hthread with rfl | hzts
    · rfl
    · obtain ⟨w, hw, rfl⟩ := List.mem_map.mp hzts
      have hid : w = 1 := by
        have hclosed : (run serde steps (initWorkerState w tasks)).state.workerId = 1 := by
          simp only [loopJoins, Thread.bridgeId, Bool.and_eq_true] at hjoins
          exact of_decide_eq_true hjoins.2
        exact (run_workerId serde steps _).symm.trans hclosed
      exact absurd (hid ▸ hw) hone

/-- The main thread's handle has id 2 here, and the call that drew id 1 fails; the third
call starts a thread with id 3. -/
theorem overtaken_call_burns_first_id :
    ∃ s, Reachable (SpawnRace.step 3) (SpawnRace.init .pair) s ∧ (s.calls 0).onMain = true ∧
      (s.calls 0).workerId? = some 2 ∧ s.ztsThreads = [3] ∧
      (∀ k, (s.calls k).onMain = true → k = 0) ∧ 1 ∉ s.ztsThreads := by
  have hrun : (runs (SpawnRace.step 3) (SpawnRace.init .pair)
      [.check 0, .check 1, .draw 1, .draw 0, .pop 0, .pop 1, .check 2, .draw 2,
        .start 2 (some "/srv/app")]).any
        (fun s => (s.calls 0).onMain && (decide ((s.calls 0).workerId? = some 2) &&
          decide (s.ztsThreads = [3]))) = true := by decide
  obtain ⟨s, hs, htest⟩ := exists_reachable hrun
  simp only [Bool.and_eq_true, decide_eq_true_eq] at htest
  obtain ⟨hmain, hid, hthreads⟩ := htest
  obtain ⟨honce, _, hone, _⟩ := worker_ids_of_race 3 (by decide) .pair s hs
  exact ⟨s, hs, hmain, hid, hthreads, fun k hk => honce k 0 hk hmain, hone⟩

end FolkCore.Ext
