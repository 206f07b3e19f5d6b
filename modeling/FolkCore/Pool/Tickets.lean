import FolkCore.Pool.Moves
import Mathlib.Algebra.BigOperators.Group.Finset.Basic
import Mathlib.Algebra.Order.BigOperators.Group.Finset
import Mathlib.Tactic.Abel

/-!
# Every request is in one place

`dispatch_streamed` opens a fresh stream for each request, and the request then
moves: from its caller to the request channel, to `pool_main`, to an inbox, to a
supervisor. `State.tally` counts the places that hold the request of a stream. It
is at most one, and as long as it is one the sender has not been given away.
-/

namespace FolkCore.Lib

open Function Finset

variable {α M : Type*} [AddCommMonoid M]

/-- Sums over a table with one entry replaced; the old entry is moved to the left, so that
nothing is subtracted. -/
theorem sum_replace (f : Nat → α) (g : α → M) {i n : Nat} (hi : i < n) (x : α) :
    ∑ j ∈ range n, g (update f i x j) + g (f i) = ∑ j ∈ range n, g (f j) + g x := by
  have hmem : i ∈ range n := mem_range.mpr hi
  have hrest : ∑ j ∈ (range n).erase i, g (update f i x j) =
      ∑ j ∈ (range n).erase i, g (f j) := by
    apply sum_congr rfl
    intro j hj
    rw [update_of_ne (ne_of_mem_erase hj)]
  calc ∑ j ∈ range n, g (update f i x j) + g (f i)
      = g (update f i x i) + ∑ j ∈ (range n).erase i, g (update f i x j) + g (f i) := by
        rw [add_sum_erase _ (fun j => g (update f i x j)) hmem]
    _ = g (f i) + ∑ j ∈ (range n).erase i, g (f j) + g x := by
        rw [hrest, update_self]
        abel
    _ = ∑ j ∈ range n, g (f j) + g x := by rw [add_sum_erase _ (fun j => g (f j)) hmem]

end FolkCore.Lib

namespace FolkCore.Pool

open Function Finset

variable {R : Runtime} {serde : SerdeJson} {cfg : WorkersConfig} {s t : State R}

/-- The request an event is about. -/
def Event.tx? : Event → Option StreamTx
  | .delivered _ tx => some tx
  | .spawned _ _ => none
  | .took _ _ tx => some tx
  | .executed _ _ tx => some tx
  | .finished _ _ tx _ => some tx
  | .terminated _ _ _ => none
  | .pushed _ tx _ => some tx
  | .answered tx _ => some tx

/-- The events about one request. -/
def State.story (s : State R) (tx : StreamTx) : List Event :=
  s.history.filter fun e => e.tx? = some tx

theorem State.mem_story {e : Event} {tx : StreamTx} (h : e.tx? = some tx) :
    e ∈ s.story tx ↔ e ∈ s.history := by
  simp [State.story, h]

def CallStage.requests : CallStage → List DispatchRequest
  | .sending _ req => [req]
  | _ => []

@[simp] theorem CallStage.requests_sending (kind : CallKind) (req : DispatchRequest) :
    (CallStage.sending kind req).requests = [req] := rfl

def MainPhase.requests : MainPhase → List DispatchRequest
  | .forwarding req _ => [req]
  | _ => []

def Phase.requests : Phase → List DispatchRequest
  | .dispatching req _ => [req]
  | _ => []

def Slot.requests (slot : Slot) : List DispatchRequest := slot.inbox ++ slot.phase.requests

/-- How many of the requests belong to a stream. -/
def tally (tx : StreamTx) (reqs : List DispatchRequest) : Nat :=
  (reqs.map DispatchRequest.streamTx).count tx

@[simp] theorem tally_nil (tx : StreamTx) : tally tx [] = 0 := rfl

@[simp] theorem tally_cons (tx : StreamTx) (req : DispatchRequest)
    (reqs : List DispatchRequest) :
    tally tx (req :: reqs) = tally tx reqs + if req.streamTx = tx then 1 else 0 := by
  simp [tally, List.count_cons]

@[simp] theorem tally_append (tx : StreamTx) (reqs reqs' : List DispatchRequest) :
    tally tx (reqs ++ reqs') = tally tx reqs + tally tx reqs' := by
  simp [tally]

/-- How many places of the pool hold the request of a stream. -/
def State.tally (cfg : WorkersConfig) (s : State R) (tx : StreamTx) : Nat :=
  Pool.tally tx (s.calls tx).requests + Pool.tally tx s.requestCh +
    Pool.tally tx s.main.requests +
    ∑ i ∈ range cfg.count, Pool.tally tx (s.slots i).requests

/-- The invariant: requests are unique, a request in some place has its sender, and
the numbers not yet drawn are unused. -/
structure Ticketed (cfg : WorkersConfig) (s : State R) : Prop where
  unique : ∀ tx, s.tally cfg tx ≤ 1
  held : ∀ tx, 0 < s.tally cfg tx → tx < s.callCount ∧
    (s.streams tx).owner = none ∧ (s.streams tx).senderOpen = true
  running : ∀ i tx deadline, (s.slots i).phase = .executing tx deadline → tx < s.callCount
  sending : ∀ k kind req, s.calls k = .sending kind req → req.streamTx = k
  fresh : ∀ k, s.callCount ≤ k →
    s.calls k = .unborn ∧ s.streams k = .unopened ∧ s.story k = []

theorem Ticketed.init (R : Runtime) (cfg : WorkersConfig) : Ticketed cfg (init R cfg) where
  unique tx := by
    simp [State.tally, Pool.init, CallStage.requests, MainPhase.requests, Slot.requests,
      Slot.start, Phase.requests]
  held tx h := by
    simp [State.tally, Pool.init, CallStage.requests, MainPhase.requests, Slot.requests,
      Slot.start, Phase.requests] at h
  running i tx deadline h := by cases h
  sending k kind req h := by cases h
  fresh k _ := ⟨rfl, rfl, rfl⟩

/-- A step that draws no number and moves or drops requests. -/
theorem Ticketed.advance (h : Ticketed cfg s) (hcount : t.callCount = s.callCount)
    (htally : ∀ tx, t.tally cfg tx ≤ s.tally cfg tx)
    (hstreams : ∀ tx, 0 < t.tally cfg tx → (t.streams tx).owner = (s.streams tx).owner ∧
      (t.streams tx).senderOpen = (s.streams tx).senderOpen)
    (hrunning : ∀ i tx deadline, (t.slots i).phase = .executing tx deadline →
      tx < s.callCount)
    (hsending : ∀ k kind req, t.calls k = .sending kind req → s.calls k = .sending kind req)
    (hfresh : ∀ k, s.callCount ≤ k →
      t.calls k = s.calls k ∧ t.streams k = s.streams k ∧ t.story k = s.story k) :
    Ticketed cfg t where
  unique tx := (htally tx).trans (h.unique tx)
  held tx htx := by
    obtain ⟨hlt, howner, hopen⟩ := h.held tx (htx.trans_le (htally tx))
    obtain ⟨howner', hopen'⟩ := hstreams tx htx
    exact ⟨hcount ▸ hlt, howner'.trans howner, hopen'.trans hopen⟩
  running i tx deadline hphase := hcount ▸ hrunning i tx deadline hphase
  sending k kind req hk := h.sending k kind req (hsending k kind req hk)
  fresh k hk := by
    rw [hcount] at hk
    obtain ⟨hcall, hstream, hstory⟩ := h.fresh k hk
    obtain ⟨hcall', hstream', hstory'⟩ := hfresh k hk
    exact ⟨hcall'.trans hcall, hstream'.trans hstream, hstory'.trans hstory⟩

theorem State.story_append (events : List Event) {tx : StreamTx}
    (ht : t.history = s.history ++ events) (h : ∀ e ∈ events, e.tx? ≠ some tx) :
    t.story tx = s.story tx := by
  have hnone : events.filter (fun e => e.tx? = some tx) = [] := by
    simpa [List.filter_eq_nil_iff] using h
  simp [State.story, ht, hnone]

section Supervisors

variable {i : Nat} {v : View R} {slot slot' : Slot} {a : SupervisorAction R}
  {commands : List (Command R)}

/-- A supervisor's step keeps its requests, hands one out or drops them all. -/
theorem Slot.Move.tally (move : Slot.Move cfg i v slot a slot' commands) (tx : StreamTx) :
    Pool.tally tx slot'.requests + (commands.flatMap Command.gone).count tx =
      Pool.tally tx slot.requests := by
  cases move with
  | took hphase _ _ hinbox =>
      simp [Slot.requests, Phase.requests, Command.gone, hphase, hinbox]
  | execute hphase _ _ _ =>
      simp [Slot.requests, Phase.requests, Command.gone, hphase, List.count_cons, Nat.add_comm]
  | spawnPanicked hphase | bootPanicked hphase _ | unreachable hphase _ _
  | executePanicked hphase _ _
  | exited hphase _ | terminatePanicked hphase _ =>
      simp [Slot.requests, Phase.requests, Command.gone, hphase, Pool.tally]
  | boot hphase | listen hphase | spawned hphase | spawnFailed hphase | booted hphase
  | bootFailed hphase | wake hphase | reloaded hphase | caughtUp hphase | noReload hphase
  | reloadClosed hphase | inboxEmpty hphase | inboxClosed hphase | settled hphase
  | recycled hphase | kept hphase | bootAbandoned hphase | replaced hphase =>
      simp [Slot.requests, Phase.requests, Command.gone, hphase]

theorem Slot.Move.executing (move : Slot.Move cfg i v slot a slot' commands) {tx : StreamTx}
    {deadline : Nat} (h : slot'.phase = .executing tx deadline) :
    0 < Pool.tally tx slot.requests := by
  cases move with
  | execute hphase _ _ _ =>
      cases h
      simp [Slot.requests, Phase.requests, hphase]
  | _ => cases h

/-- A supervisor notes events about the request it holds or executes. -/
theorem Slot.Move.noted (move : Slot.Move cfg i v slot a slot' commands) {e : Event}
    (he : e ∈ commands.filterMap Command.noted) {tx : StreamTx} (htx : e.tx? = some tx) :
    0 < Pool.tally tx slot.requests ∨ ∃ deadline, slot.phase = .executing tx deadline := by
  cases move with
  | @took _ w _ req _ hphase _ _ hinbox =>
      have hevent : e = .took i w req.streamTx := by simpa [Command.noted] using he
      subst hevent
      cases htx
      exact .inl (by simp [Slot.requests, hinbox])
  | @execute req _ w _ _ _ hphase _ _ _ =>
      have hevent : .executed i w req.streamTx = e := by simpa [Command.noted] using he
      subst hevent
      cases htx
      exact .inl (by simp [Slot.requests, Phase.requests, hphase])
  | @settled tx' _ w _ result hphase _ _ _ =>
      have hevent : .finished i w tx' result = e := by simpa [Command.noted] using he
      subst hevent
      cases htx
      exact .inr ⟨_, hphase⟩
  | spawned | bootFailed | reloaded | reloadClosed | inboxClosed | recycled =>
      simp only [List.filterMap_cons, Command.noted, List.filterMap_nil,
        List.mem_singleton] at he
      subst he
      cases htx
  | _ => simp [Command.noted] at he

end Supervisors

theorem tally_replace (tx : StreamTx) {i : Nat} {slot' : Slot} (hi : i < cfg.count)
    (hcalls : t.calls tx = s.calls tx) (hch : t.requestCh = s.requestCh)
    (hslots : t.slots = update s.slots i slot') :
    t.tally cfg tx + Pool.tally tx s.main.requests + Pool.tally tx (s.slots i).requests =
      s.tally cfg tx + Pool.tally tx t.main.requests + Pool.tally tx slot'.requests := by
  have hsum := Lib.sum_replace s.slots (fun slot => Pool.tally tx slot.requests) hi slot'
  simp only [State.tally, hcalls, hch, hslots]
  omega

theorem Ticketed.known (h : Ticketed cfg s) {k : Nat} (hk : s.calls k ≠ .unborn) :
    k < s.callCount := by
  by_contra hge
  exact hk (h.fresh k (Nat.le_of_not_lt hge)).1

theorem State.tally_pos_of_slot {i : Nat} (hi : i < cfg.count)
    {tx : StreamTx} (htx : 0 < Pool.tally tx (s.slots i).requests) : 0 < s.tally cfg tx := by
  have hle : Pool.tally tx (s.slots i).requests ≤
      ∑ j ∈ range cfg.count, Pool.tally tx (s.slots j).requests :=
    single_le_sum (f := fun j => Pool.tally tx (s.slots j).requests)
      (fun _ _ => Nat.zero_le _) (mem_range.mpr hi)
  unfold State.tally
  omega

theorem Ticketed.supervised (h : Ticketed cfg s) {i : Nat} {a : SupervisorAction R}
    {r : Slot × List (Command R)} (hi : i < cfg.count)
    (move : Slot.Move cfg i s.view (s.slots i) a r.1 r.2) :
    Ticketed cfg (s.supervise i r) := by
  have htally (tx : StreamTx) : (s.supervise i r).tally cfg tx +
      (r.2.flatMap Command.gone).count tx = s.tally cfg tx := by
    have hslot := move.tally tx
    have hreplace := tally_replace tx hi (congrFun (s.supervise_calls i r) tx)
      (s.supervise_requestCh i r) (s.supervise_slots i r)
    simp only [State.supervise_main] at hreplace
    omega
  have hstay {tx : StreamTx} (hgone : (r.2.flatMap Command.gone).count tx = 0) :
      (s.supervise i r).streams tx = s.streams tx := by
    apply s.supervise_streams i r
    intro c hc hmem
    rw [List.count_eq_zero] at hgone
    exact hgone (List.mem_flatMap.mpr ⟨c, hc, hmem⟩)
  apply h.advance (s.supervise_callCount i r)
  · intro tx
    have := htally tx
    omega
  · intro tx htx
    have hgone : (r.2.flatMap Command.gone).count tx = 0 := by
      have := htally tx
      have := h.unique tx
      omega
    rw [hstay hgone]
    exact ⟨rfl, rfl⟩
  · intro j tx deadline hphase
    by_cases hj : j = i
    · rw [hj, s.supervise_slots, update_self] at hphase
      exact (h.held tx (State.tally_pos_of_slot hi (move.executing hphase))).1
    · rw [s.supervise_slots, update_of_ne hj] at hphase
      exact h.running j tx deadline hphase
  · intro k kind req hk
    rwa [s.supervise_calls] at hk
  · intro k hk
    have hzero : s.tally cfg k = 0 := by
      by_contra hne
      exact absurd (h.held k (Nat.pos_of_ne_zero hne)).1 (Nat.not_lt.mpr hk)
    have hgone : (r.2.flatMap Command.gone).count k = 0 := by
      have := htally k
      omega
    refine ⟨by rw [s.supervise_calls], hstay hgone, ?_⟩
    apply State.story_append _ (s.supervise_history i r)
    intro e he htx
    rcases move.noted he htx with hheld | ⟨deadline, hphase⟩
    · have := State.tally_pos_of_slot hi hheld
      omega
    · exact absurd (h.running i k deadline hphase) (Nat.not_lt.mpr hk)

theorem Ticketed.refused (h : Ticketed cfg s) (e : CallError) :
    Ticketed cfg ({ s with callCount := s.callCount + 1 }.answer s.callCount (.error e)) := by
  obtain ⟨hcall, _, _⟩ := h.fresh s.callCount le_rfl
  have htally (tx : StreamTx) :
      ({ s with callCount := s.callCount + 1 }.answer s.callCount (.error e)).tally cfg tx =
        s.tally cfg tx := by
    by_cases htx : tx = s.callCount
    · simp [State.tally, htx, hcall, CallStage.requests]
    · simp [State.tally, htx]
  constructor
  · intro tx
    exact (htally tx).trans_le (h.unique tx)
  · intro tx htx
    rw [htally] at htx
    obtain ⟨hlt, howner, hopen⟩ := h.held tx htx
    exact ⟨Nat.lt_succ_of_lt hlt, by simpa [Nat.ne_of_lt hlt] using ⟨howner, hopen⟩⟩
  · intro i tx deadline hphase
    exact Nat.lt_succ_of_lt (h.running i tx deadline hphase)
  · intro k kind req hk
    by_cases hne : k = s.callCount
    · subst hne
      simp at hk
    · apply h.sending k kind req
      simpa [hne] using hk
  · intro k hk
    have hk' : s.callCount + 1 ≤ k := hk
    have hne : k ≠ s.callCount := by omega
    obtain ⟨hcall', hstream', hstory'⟩ := h.fresh k (by omega)
    refine ⟨by simpa [hne] using hcall', by simpa [hne] using hstream', ?_⟩
    rw [← hstory']
    apply State.story_append [.answered s.callCount false] rfl
    simpa [Event.tx?] using hne.symm

theorem Ticketed.opened (h : Ticketed cfg s) {kind : CallKind} {req : DispatchRequest}
    (htx : req.streamTx = s.callCount) :
    Ticketed cfg
      (({ s with permits := s.permits - 1, callCount := s.callCount + 1 }.setStream
        s.callCount ⟨none, true, true, []⟩).setCall s.callCount (.sending kind req)) := by
  obtain ⟨hcall, _, _⟩ := h.fresh s.callCount le_rfl
  have hzero : s.tally cfg s.callCount = 0 := by
    by_contra hne
    exact lt_irrefl _ (h.held _ (Nat.pos_of_ne_zero hne)).1
  have htally (tx : StreamTx) (hne : tx ≠ s.callCount) :
      (({ s with permits := s.permits - 1, callCount := s.callCount + 1 }.setStream
        s.callCount ⟨none, true, true, []⟩).setCall s.callCount
          (.sending kind req)).tally cfg tx = s.tally cfg tx := by
    simp [State.tally, hne]
  constructor
  · intro tx
    by_cases hne : tx = s.callCount
    · subst hne
      simp only [State.tally, hcall, CallStage.requests, tally_nil] at hzero
      simp only [State.tally, State.setCall, State.setStream, update_self,
        CallStage.requests, tally_cons, tally_nil, htx, if_true]
      omega
    · exact (htally tx hne).trans_le (h.unique tx)
  · intro tx hpos
    by_cases hne : tx = s.callCount
    · simp [hne]
    · rw [htally tx hne] at hpos
      obtain ⟨hlt, howner, hopen⟩ := h.held tx hpos
      exact ⟨Nat.lt_succ_of_lt hlt, by simpa [hne] using ⟨howner, hopen⟩⟩
  · intro i tx deadline hphase
    exact Nat.lt_succ_of_lt (h.running i tx deadline hphase)
  · intro k kind' req' hk
    by_cases hne : k = s.callCount
    · subst hne
      simp only [State.setCall, update_self, CallStage.sending.injEq] at hk
      exact hk.2 ▸ htx
    · apply h.sending k kind' req'
      simpa [hne] using hk
  · intro k hk
    have hk' : s.callCount + 1 ≤ k := hk
    have hne : k ≠ s.callCount := by omega
    obtain ⟨hcall', hstream', hstory'⟩ := h.fresh k (by omega)
    exact ⟨by simpa [hne] using hcall', by simpa [hne] using hstream', hstory'⟩

/-- A step of a caller that holds no request afterwards: it reads, returns or hangs
up, and may drop a request it has not sent. -/
theorem Ticketed.caller (h : Ticketed cfg s) {k : Nat} (hborn : s.calls k ≠ .unborn)
    {stage : CallStage} (hstage : stage.requests = [])
    (hcalls : t.calls = update s.calls k stage) (hcount : t.callCount = s.callCount)
    (hch : t.requestCh = s.requestCh) (hmain : t.main = s.main) (hslots : t.slots = s.slots)
    (hstreams : ∀ tx ≠ k, t.streams tx = s.streams tx)
    (hkeep : (s.calls k).requests = [] → (t.streams k).owner = (s.streams k).owner ∧
      (t.streams k).senderOpen = (s.streams k).senderOpen)
    (events : List Event) (hhistory : t.history = s.history ++ events)
    (hevents : ∀ e ∈ events, e.tx? = some k) : Ticketed cfg t := by
  have hlt := h.known hborn
  apply h.advance hcount
  · intro tx
    by_cases hne : tx = k
    · simp [State.tally, hne, hcalls, hch, hmain, hslots, hstage]
    · simp [State.tally, hne, hcalls, hch, hmain, hslots]
  · intro tx hpos
    by_cases hne : tx = k
    · subst hne
      apply hkeep
      cases hcall : s.calls tx with
      | sending kind req =>
          have hone := h.unique tx
          simp only [State.tally, hcall, CallStage.requests_sending, tally_cons, tally_nil,
            h.sending tx kind req hcall, if_true] at hone
          simp only [State.tally, hcalls, hch, hmain, hslots, update_self, hstage,
            tally_nil] at hpos
          omega
      | _ => rfl
    · rw [hstreams tx hne]
      exact ⟨rfl, rfl⟩
  · rw [hslots]
    exact h.running
  · intro k' kind req hk'
    rw [hcalls] at hk'
    by_cases hne : k' = k
    · subst hne
      rw [update_self] at hk'
      simp [hk'] at hstage
    · rwa [update_of_ne hne] at hk'
  · intro k' hk'
    have hne : k' ≠ k := by omega
    refine ⟨by simp [hcalls, hne], hstreams k' hne, ?_⟩
    apply State.story_append events hhistory
    intro e he
    rw [hevents e he]
    simpa using hne.symm

theorem Ticketed.submitted (h : Ticketed cfg s) {k : Nat} {kind : CallKind}
    {req : DispatchRequest} (hcall : s.calls k = .sending kind req) :
    Ticketed cfg ({ s with requestCh := s.requestCh ++ [req] }.setCall k kind.listen) := by
  have htx := h.sending k kind req hcall
  have hlt := h.known (k := k) (by simp [hcall])
  have hlisten : kind.listen.requests = [] := by cases kind <;> rfl
  apply h.advance
  · rfl
  · intro tx
    by_cases hne : tx = k
    · simp only [State.tally, State.setCall, hne, update_self, hlisten, hcall,
        CallStage.requests_sending, tally_append, tally_cons, tally_nil]
      omega
    · simp [State.tally, hne, htx, Ne.symm hne]
  · intro tx _
    exact ⟨rfl, rfl⟩
  · exact h.running
  · intro k' kind' req' hk'
    by_cases hne : k' = k
    · subst hne
      simp only [State.setCall, update_self] at hk'
      simp [hk', CallStage.requests] at hlisten
    · simpa [hne] using hk'
  · intro k' hk'
    have hne : k' ≠ k := by omega
    exact ⟨by simp [hne], rfl, rfl⟩

theorem Ticketed.congr (h : Ticketed cfg s) (hcalls : t.calls = s.calls)
    (hcount : t.callCount = s.callCount) (hch : t.requestCh = s.requestCh)
    (hmain : t.main.requests = s.main.requests) (hslots : t.slots = s.slots)
    (hstreams : t.streams = s.streams) (hhistory : t.history = s.history) :
    Ticketed cfg t := by
  apply h.advance hcount
  · intro tx
    simp [State.tally, hcalls, hch, hmain, hslots]
  · intro tx _
    rw [hstreams]
    exact ⟨rfl, rfl⟩
  · rw [hslots]
    exact h.running
  · rw [hcalls]
    exact fun _ _ _ hk => hk
  · intro k _
    simp [hcalls, hstreams, State.story, hhistory]

theorem Ticketed.mainTook (h : Ticketed cfg s) {req : DispatchRequest}
    {rest : List DispatchRequest} (hmain : s.main = .receiving)
    (hch : s.requestCh = req :: rest) :
    Ticketed cfg { s with main := .forwarding req 0, requestCh := rest } := by
  apply h.advance
  · rfl
  · intro tx
    simp only [State.tally, hmain, hch, MainPhase.requests, tally_cons, tally_nil]
    omega
  · exact fun _ _ => ⟨rfl, rfl⟩
  · exact h.running
  · exact fun _ _ _ hk => hk
  · exact fun _ _ => ⟨rfl, rfl, rfl⟩

theorem Ticketed.delivered (h : Ticketed cfg s) {req : DispatchRequest} {attempt chosen : Nat}
    (hmain : s.main = .forwarding req attempt) (hchosen : chosen < cfg.count) :
    Ticketed cfg (deliver s chosen req) := by
  have htally (tx : StreamTx) : (deliver s chosen req).tally cfg tx = s.tally cfg tx := by
    have hreplace := tally_replace (s := s) (t := deliver s chosen req) tx hchosen rfl rfl rfl
    simp only [deliver, State.note, hmain, MainPhase.requests, Slot.requests, tally_append,
      tally_cons, tally_nil] at hreplace ⊢
    omega
  apply h.advance
  · rfl
  · exact fun tx => (htally tx).le
  · exact fun _ _ => ⟨rfl, rfl⟩
  · intro j tx deadline hphase
    apply h.running j tx deadline
    by_cases hj : j = chosen
    · subst hj
      simpa using hphase
    · simpa [hj] using hphase
  · exact fun _ _ _ hk => hk
  · intro k hk
    refine ⟨rfl, rfl, ?_⟩
    apply State.story_append [.delivered chosen req.streamTx] rfl
    intro e he htx
    rw [List.mem_singleton.mp he] at htx
    cases htx
    have hpos : 0 < s.tally cfg req.streamTx := by
      simp only [State.tally, hmain, MainPhase.requests, tally_cons, tally_nil, if_true]
      omega
    exact absurd (h.held _ hpos).1 (Nat.not_lt.mpr hk)

theorem Ticketed.abandoned (h : Ticketed cfg s) {req : DispatchRequest} {attempt : Nat}
    (hmain : s.main = .forwarding req attempt) :
    Ticketed cfg { s.discard [req] with main := .receiving } := by
  have htally (tx : StreamTx) : ({ s.discard [req] with main := .receiving }).tally cfg tx +
      (if req.streamTx = tx then 1 else 0) = s.tally cfg tx := by
    simp only [State.tally, State.discard, hmain, MainPhase.requests, tally_cons, tally_nil]
    omega
  have hpos : 0 < s.tally cfg req.streamTx := by
    have := htally req.streamTx
    simp only [if_true] at this
    omega
  apply h.advance
  · rfl
  · intro tx
    have := htally tx
    omega
  · intro tx htx
    have hne : tx ≠ req.streamTx := by
      intro heq
      have htotal := htally tx
      have hone := h.unique tx
      simp only [heq, if_true] at htotal htx hone
      omega
    simp [hne]
  · exact h.running
  · exact fun _ _ _ hk => hk
  · intro k hk
    have hne : k ≠ req.streamTx := by
      intro heq
      exact absurd (h.held _ hpos).1 (Nat.not_lt.mpr (heq ▸ hk))
    exact ⟨rfl, by simp [hne], rfl⟩

/-- A worker changes a stream that was given to it. -/
theorem Ticketed.acted (h : Ticketed cfg s) {w : Nat} {tx : StreamTx} {st : Stream}
    (howner : (s.streams tx).owner = some w) {workers : Nat → Option R.Worker}
    (events : List Event) (hevents : ∀ e ∈ events, e.tx? = some tx) :
    Ticketed cfg { s with
      workers := workers
      streams := update s.streams tx st
      history := s.history ++ events } := by
  apply h.advance
  · rfl
  · exact fun _ => le_rfl
  · intro tx' hpos
    have hne : tx' ≠ tx := by
      intro heq
      have hnone := (h.held tx' hpos).2.1
      rw [heq, howner] at hnone
      cases hnone
    simp [hne]
  · exact h.running
  · exact fun _ _ _ hk => hk
  · intro k hk
    have hne : k ≠ tx := by
      intro heq
      have hstream := (h.fresh k hk).2.1
      rw [heq] at hstream
      rw [hstream] at howner
      cases howner
    refine ⟨rfl, by simp [hne], ?_⟩
    apply State.story_append events rfl
    intro e he
    rw [hevents e he]
    simpa using hne.symm

/-- Every step keeps the invariant. -/
theorem Ticketed.step (h : Ticketed cfg s) {a : Action R} (move : Move serde cfg s a t) :
    Ticketed cfg t := by
  cases move with
  | refused hargs => exact h.refused _
  | opened _ _ htx _ _ => exact h.opened htx
  | @poolGone k kind req hcall _ =>
      refine h.caller (k := k) (by simp [hcall]) ?_ rfl rfl rfl rfl rfl ?_ ?_
        [.answered k false] rfl (by simp [Event.tx?])
      · rfl
      · intro tx hne
        simp [hne, h.sending k kind req hcall]
      · simp [hcall]
  | submitted hcall _ => exact h.submitted hcall
  | @collected k _ _ acc' _ _ hcall _ _ =>
      refine h.caller (k := k) (by simp [hcall]) ?_ rfl rfl rfl rfl rfl ?_ ?_ [] (by simp) (by simp)
      · rfl
      · intro tx hne
        simp [hne]
      · simp
  | @judged k _ _ _ _ r hcall _ _ =>
      refine h.caller (k := k) (by simp [hcall]) ?_ rfl rfl rfl rfl rfl ?_ ?_
        [.answered k _] rfl (by simp [Event.tx?])
      · rfl
      · intro tx hne
        simp [hne]
      · simp
  | @exhausted k _ _ hcall _ _ =>
      refine h.caller (k := k) (by simp [hcall]) ?_ rfl rfl rfl rfl rfl ?_ ?_
        [.answered k _] rfl (by simp [Event.tx?])
      · rfl
      · intro tx hne
        simp [hne]
      · simp
  | @streamed k _ _ hcall _ =>
      refine h.caller (k := k) (by simp [hcall]) (show CallStage.streaming.requests = [] from rfl)
        ?_ rfl rfl rfl rfl ?_ ?_
        [] (by simp) (by simp)
      · simp [← hcall]
      · intro tx hne
        simp [hne]
      · simp
  | @withdrawn k kind req hcall =>
      refine h.caller (k := k) (by simp [hcall]) ?_ rfl rfl rfl rfl rfl ?_ ?_ [] (by simp) (by simp)
      · rfl
      · intro tx hne
        simp [hne, h.sending k kind req hcall]
      · simp [hcall]
  | @cancelled k hcall =>
      have hborn : s.calls k ≠ .unborn := by
        intro heq
        rw [heq] at hcall
        exact hcall
      refine h.caller hborn ?_ rfl rfl rfl rfl rfl ?_ ?_ [] (by simp) (by simp)
      · rfl
      · intro tx hne
        simp [hne]
      · simp
  | reloaded _ | poolDropped _ _ | ticked | worked _ _ | pushLost _ _ _ _ _ =>
      exact h.congr rfl rfl rfl rfl rfl rfl rfl
  | mainTook hmain hch => exact h.mainTook hmain hch
  | mainLeft hmain _ _ | skipped hmain _ _ | buried hmain _ _ _ | joined hmain _ =>
      exact h.congr rfl rfl rfl (by rw [hmain]; rfl) rfl rfl rfl
  | delivered hmain hattempt _ _ _ =>
      exact h.delivered hmain (Nat.mod_lt _ (Nat.zero_lt_of_lt hattempt))
  | abandoned hmain _ => exact h.abandoned hmain
  | supervised hi _ move => exact h.supervised hi move
  | @pushed w _ _ _ tx c _ _ howner _ _ _ =>
      exact h.acted howner [.pushed w tx c] (by simp [Event.tx?])
  | closed _ _ howner _ =>
      simpa using h.acted howner [] (by simp)

/-- The invariant holds in every reachable state. -/
theorem ticketed_of_reachable (h : Lib.Reachable (Pool.step serde cfg) (Pool.init R cfg) s) :
    Ticketed cfg s :=
  h.invariant (Ticketed cfg) (Ticketed.init R cfg) fun _ _ _ hs _ hstep =>
    hs.step (step_move hstep)

end FolkCore.Pool
