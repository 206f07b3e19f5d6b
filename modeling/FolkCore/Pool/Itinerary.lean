import FolkCore.Pool.Replies

/-!
# The itinerary of a request

Every request takes the same way through the pool: it is delivered to one slot, taken by
its supervisor, executed on the worker installed there, and its execution settles. Only
that worker pushes on its stream, and only once it executes the request; the caller gets one
answer. `Itinerary` reads the events about a request in their order and refuses any other.
-/

namespace FolkCore.Pool

open Function Finset Lib

variable {R : Runtime} {serde : SerdeJson} {cfg : WorkersConfig} {s t : State R} {k : Nat}

/-- How far a request has come. -/
inductive Leg where
  | waiting
  | delivered (slot : Nat)
  | taken (slot w : Nat)
  | executing (slot w : Nat)
  | finished (slot w : Nat)
  deriving DecidableEq, Repr

/-- The worker that was given the request. -/
def Leg.worker? : Leg → Option Nat
  | .executing _ w => some w
  | .finished _ w => some w
  | _ => none

/-- The slot that was given the request. -/
def Leg.slot? : Leg → Option Nat
  | .waiting => none
  | .delivered i => some i
  | .taken i _ => some i
  | .executing i _ => some i
  | .finished i _ => some i

structure Itinerary where
  leg : Leg
  answered : Bool

def Itinerary.start : Itinerary := ⟨.waiting, false⟩

/-- Read the next event about the request. -/
def Itinerary.read (p : Itinerary) : Event → Option Itinerary
  | .delivered i _ => if p.leg = .waiting then some { p with leg := .delivered i } else none
  | .took i w _ => if p.leg = .delivered i then some { p with leg := .taken i w } else none
  | .executed i w _ => if p.leg = .taken i w then some { p with leg := .executing i w } else none
  | .finished i w _ _ =>
      if p.leg = .executing i w then some { p with leg := .finished i w } else none
  | .pushed w _ _ => if p.leg.worker? = some w then some p else none
  | .answered _ _ => if p.answered then none else some { p with answered := true }
  | .spawned _ _ => none
  | .terminated _ _ _ => none

/-- What the state of a slot says about the leg of a request that it holds. -/
inductive Slot.Holds (slot : Slot) (i k : Nat) : Leg → Prop
  | inbox (h : k ∈ slot.inbox.map DispatchRequest.streamTx) : Holds slot i k (.delivered i)
  | dispatching {req : DispatchRequest} {since w : Nat}
      (hphase : slot.phase = .dispatching req since) (hworker : slot.worker = some w)
      (htx : req.streamTx = k) : Holds slot i k (.taken i w)
  | executing {deadline w : Nat} (hphase : slot.phase = .executing k deadline)
      (hworker : slot.worker = some w) : Holds slot i k (.executing i w)

/-- The request is with its caller, in the channel or in the hands of `pool_main`. -/
def State.Unplaced (s : State R) (k : Nat) : Prop :=
  k ∈ (s.calls k).requests.map DispatchRequest.streamTx ∨
    k ∈ s.requestCh.map DispatchRequest.streamTx ∨
    k ∈ s.main.requests.map DispatchRequest.streamTx

/-- What the state of the pool says about the leg of a request. -/
inductive Place (cfg : WorkersConfig) (s : State R) (k : Nat) : Leg → Prop
  | waiting (h : s.Unplaced k) : Place cfg s k .waiting
  | slot {i : Nat} {leg : Leg} (hi : i < cfg.count) (h : (s.slots i).Holds i k leg) :
      Place cfg s k leg

/-- The state agrees with what was read of a request. -/
structure Agrees (cfg : WorkersConfig) (s : State R) (k : Nat) (p : Itinerary) : Prop where
  place : ∀ leg, Place cfg s k leg → p.leg = leg
  owner : ∀ w, (s.streams k).owner = some w → p.leg.worker? = some w
  answered : p.answered = true → ∃ r, s.calls k = .returned r

theorem Slot.Holds.slot {slot : Slot} {i : Nat} {leg : Leg} (h : slot.Holds i k leg) :
    leg.slot? = some i := by
  cases h <;> rfl

/-- The worker of a request never changes. -/
theorem Itinerary.worker_of_read {p p' : Itinerary} {e : Event} (h : p.read e = some p') {w : Nat}
    (hw : p.leg.worker? = some w) : p'.leg.worker? = some w := by
  cases e with
  | delivered i | took i | executed i | finished i =>
      simp only [Itinerary.read, Option.ite_none_right_eq_some] at h
      obtain ⟨hleg, heq⟩ := h
      rw [hleg] at hw
      cases heq
      first
        | exact hw
        | cases hw
  | pushed | answered =>
      simp only [Itinerary.read, Option.ite_none_right_eq_some, Option.ite_none_left_eq_some] at h
      obtain ⟨_, heq⟩ := h
      cases heq
      exact hw
  | _ => cases h

section Supervisors

variable {i : Nat} {v : View R} {slot slot' : Slot} {a : SupervisorAction R}
  {commands : List (Command R)}

/-- A supervisor notes an event about a request that it holds, and the event is read at the
leg at which it holds the request. -/
theorem Slot.Move.reads (move : Slot.Move cfg i v slot a slot' commands)
    (hunique : Pool.tally k slot.requests ≤ 1) {before : Leg}
    (hbefore : ∀ leg, slot.Holds i k leg → before = leg) {e : Event}
    (he : e ∈ commands.filterMap Command.noted) (hk : e.tx? = some k) :
    ∃ after : Leg, before.slot? = some i ∧
      (∀ answered, Itinerary.read ⟨before, answered⟩ e = some ⟨after, answered⟩) ∧
      ∀ leg, slot'.Holds i k leg → after = leg := by
  cases move with
  | @took recyclable w h req rest hphase hworker hw hinbox =>
      have hevent : e = .took i w req.streamTx := by simpa [Command.noted] using he
      subst hevent
      cases hk
      have hheld := hbefore _ (.inbox (by simp [hinbox]))
      subst hheld
      have hrest : req.streamTx ∉ rest.map DispatchRequest.streamTx := by
        simp only [Slot.requests, hinbox, hphase, Phase.requests, List.append_nil, tally_cons,
          if_true] at hunique
        rw [← List.count_eq_zero]
        exact Nat.le_zero.mp (Nat.le_of_succ_le_succ hunique)
      refine ⟨.taken i w, rfl, fun _ => by simp [Itinerary.read], ?_⟩
      intro leg hleg
      cases hleg with
      | inbox h => exact absurd h hrest
      | dispatching hphase' hworker' _ =>
          cases hworker.symm.trans hworker'
          rfl
      | executing hphase' => cases hphase'
  | @execute req since w h h' kept hphase hworker hw hcall =>
      have hevent : e = .executed i w req.streamTx := by
        simpa [List.filterMap_cons, Command.noted] using he
      subst hevent
      cases hk
      have hheld := hbefore _ (.dispatching hphase hworker rfl)
      subst hheld
      refine ⟨.executing i w, rfl, fun _ => by simp [Itinerary.read], ?_⟩
      intro leg hleg
      cases hleg with
      | inbox h => cases hbefore _ (.inbox h)
      | dispatching hphase' => cases hphase'
      | executing hphase' hworker' =>
          cases hworker.symm.trans hworker'
          rfl
  | @settled tx deadline w h result hphase hworker hw hresult =>
      have hevent : e = .finished i w tx result := by
        simpa [List.filterMap_cons, Command.noted] using he
      subst hevent
      cases hk
      have hheld := hbefore _ (.executing hphase hworker)
      subst hheld
      refine ⟨.finished i w, rfl, fun _ => by simp [Itinerary.read], ?_⟩
      intro leg hleg
      cases hleg with
      | inbox h => cases hbefore _ (.inbox h)
      | dispatching hphase' => cases hphase'
      | executing hphase' => cases hphase'
  | spawned | bootFailed | reloaded | reloadClosed | inboxClosed | recycled =>
      simp only [List.filterMap_cons, Command.noted, List.filterMap_nil, List.mem_singleton] at he
      subst he
      cases hk
  | _ => simp [List.filterMap_cons, Command.noted] at he

/-- A supervisor notes at most one event at a time. -/
theorem Slot.Move.noted_eq (move : Slot.Move cfg i v slot a slot' commands) {e : Event}
    (he : e ∈ commands.filterMap Command.noted) : commands.filterMap Command.noted = [e] := by
  cases move with
  | took | execute | settled | spawned | bootFailed | reloaded | reloadClosed | inboxClosed
  | recycled =>
      simp only [List.filterMap_cons, Command.noted, List.filterMap_nil, List.mem_singleton] at he
      simp [List.filterMap_cons, Command.noted, he]
  | _ => simp [List.filterMap_cons, Command.noted] at he

/-- A slot in another phase holds what is in its inbox. -/
theorem Slot.Holds.of_inbox {leg : Leg} (h : slot'.Holds i k leg)
    (hinbox : slot'.inbox = slot.inbox)
    (hdispatching : ∀ req since, slot'.phase ≠ .dispatching req since)
    (hexecuting : ∀ deadline, slot'.phase ≠ .executing k deadline) : slot.Holds i k leg := by
  cases h with
  | inbox h => exact .inbox (hinbox ▸ h)
  | dispatching hphase => exact absurd hphase (hdispatching _ _)
  | executing hphase => exact absurd hphase (hexecuting _)

/-- A request that a supervisor holds after a step about which it noted nothing, it held
before at the same leg. -/
theorem Slot.Move.holds (move : Slot.Move cfg i v slot a slot' commands) {leg : Leg}
    (h : slot'.Holds i k leg) (hnone : ∀ e ∈ commands.filterMap Command.noted, e.tx? ≠ some k) :
    slot.Holds i k leg := by
  cases move with
  | @took _ w _ req rest _ _ _ hinbox =>
      have hother : req.streamTx ≠ k := by
        simpa [Command.noted, Event.tx?] using hnone
      cases h with
      | inbox h =>
          refine .inbox ?_
          rw [hinbox, List.map_cons]
          exact List.mem_cons_of_mem _ h
      | dispatching hphase _ htx =>
          cases hphase
          exact absurd htx hother
      | executing hphase => cases hphase
  | @execute req _ _ _ _ _ _ _ _ _ =>
      have hother : req.streamTx ≠ k := by
        simpa [List.filterMap_cons, Command.noted, Event.tx?] using hnone
      refine h.of_inbox rfl ?_ ?_
      · intro _ _ hphase
        cases hphase
      · intro _ hphase
        cases hphase
        exact hother rfl
  | spawnPanicked | bootPanicked | unreachable | executePanicked | exited
  | terminatePanicked =>
      cases h with
      | inbox h => cases h
      | dispatching hphase => cases hphase
      | executing hphase => cases hphase
  | _ =>
      refine h.of_inbox rfl ?_ ?_
      · intro _ _ hphase
        cases hphase
      · intro _ hphase
        cases hphase

end Supervisors

/-- The sender of a stream is given away by the execution of its request. -/
theorem Request.Move.owner {works drops expires : Prop} {r r' : Request}
    (move : Request.Move serde k works drops expires r r') {w : Nat}
    (hw : r'.stream.owner = some w) :
    r.stream.owner = some w ∨ ∃ i, r'.story = r.story ++ [.executed i w k] := by
  cases move with
  | executed i w' =>
      cases hw
      exact .inr ⟨i, rfl⟩
  | opened => cases hw
  | _ => exact .inl hw

/-- A returned call stays returned. -/
theorem Request.Move.returned {works drops expires : Prop} {r r' : Request}
    (move : Request.Move serde k works drops expires r r') {result : Except CallError CallReply}
    (h : r.call = .returned result) : r'.call = .returned result := by
  cases move with
  | refused _ hcall | opened _ _ hcall | submitted hcall | poolGone hcall | withdrawn hcall
  | collected hcall | judged hcall | exhausted hcall => cases hcall.symm.trans h
  | cancelled hcall =>
      rw [h] at hcall
      cases hcall
  | _ => exact h

/-- One step of the pool, seen from one request: it notes nothing about the request, or one
event that its itinerary reads. -/
def Travels (cfg : WorkersConfig) (s t : State R) (k : Nat) (p : Itinerary) : Prop :=
  (t.story k = s.story k ∧ Agrees cfg t k p) ∨
    ∃ e p', t.story k = s.story k ++ [e] ∧ p.read e = some p' ∧ Agrees cfg t k p'

/-- The caller and the stream follow from the move of the request, so the places of the
request are what is left to show. -/
theorem Agrees.stay {p : Itinerary} (h : Agrees cfg s k p) {works drops expires : Prop}
    (hmove : Request.Move serde k works drops expires (s.request k) (t.request k))
    (hstory : t.story k = s.story k) (hplace : ∀ leg, Place cfg t k leg → p.leg = leg) :
    Travels cfg s t k p := by
  refine .inl ⟨hstory, hplace, ?_, ?_⟩
  · intro w hw
    rcases hmove.owner hw with hbefore | ⟨i, hnew⟩
    · exact h.owner w hbefore
    · have hlength : (t.story k).length = (s.story k).length + 1 := by
        rw [show t.story k = s.story k ++ [.executed i w k] from hnew, List.length_append,
          List.length_singleton]
      rw [hstory] at hlength
      omega
  · intro hanswered
    obtain ⟨result, hresult⟩ := h.answered hanswered
    exact ⟨result, hmove.returned hresult⟩

theorem Agrees.go {p p' : Itinerary} (h : Agrees cfg s k p) {works drops expires : Prop}
    (hmove : Request.Move serde k works drops expires (s.request k) (t.request k)) {e : Event}
    (hstory : t.story k = s.story k ++ [e]) (hread : p.read e = some p')
    (hplace : ∀ leg, Place cfg t k leg → p'.leg = leg)
    (hanswered : p'.answered = true → ∃ r, t.calls k = .returned r) :
    Travels cfg s t k p := by
  refine .inr ⟨e, p', hstory, hread, hplace, ?_, hanswered⟩
  intro w hw
  rcases hmove.owner hw with hbefore | ⟨i, hnew⟩
  · exact Itinerary.worker_of_read hread (h.owner w hbefore)
  · -- the event is the execution itself
    have hevent : [e] = [.executed i w k] := List.append_cancel_left (hstory.symm.trans hnew)
    cases hevent
    simp only [Itinerary.read, Option.ite_none_right_eq_some] at hread
    obtain ⟨_, heq⟩ := hread
    cases heq
    rfl

theorem Ticketed.slot_unique (h : Ticketed cfg s) {i : Nat} (hi : i < cfg.count) (k : Nat) :
    Pool.tally k (s.slots i).requests ≤ 1 := by
  have hle : Pool.tally k (s.slots i).requests ≤
      ∑ j ∈ range cfg.count, Pool.tally k (s.slots j).requests :=
    single_le_sum (f := fun j => Pool.tally k (s.slots j).requests)
      (fun _ _ => Nat.zero_le _) (mem_range.mpr hi)
  have hone := h.unique k
  unfold State.tally at hone
  omega

section Steps

variable {p : Itinerary}

theorem Place.before {leg : Leg} (h : Place cfg t k leg) (hslots : t.slots = s.slots)
    (hunplaced : t.Unplaced k → s.Unplaced k) : Place cfg s k leg := by
  cases h with
  | waiting h => exact .waiting (hunplaced h)
  | slot hi h => exact .slot hi (hslots ▸ h)

/-- The caller's answer is read while its call has not returned. -/
theorem Agrees.answer (h : Agrees cfg s k p) {works drops expires : Prop}
    (hmove : Request.Move serde k works drops expires (s.request k) (t.request k)) (ok : Bool)
    (hcall : ∀ r, s.calls k ≠ .returned r) (hreturned : ∃ r, t.calls k = .returned r)
    (hstory : t.story k = s.story k ++ [.answered k ok])
    (hslots : t.slots = s.slots) (hunplaced : t.Unplaced k → s.Unplaced k) :
    Travels cfg s t k p := by
  have hopen : p.answered = false := by
    rw [Bool.eq_false_iff]
    intro hanswered
    obtain ⟨r, hr⟩ := h.answered hanswered
    exact hcall r hr
  have hread : p.read (.answered k ok) = some ⟨p.leg, true⟩ := by simp [Itinerary.read, hopen]
  refine h.go hmove hstory hread ?_ fun _ => hreturned
  intro leg hleg
  exact h.place leg (hleg.before hslots hunplaced)

/-- A step of a caller: its answer, if any, is its own. -/
theorem Agrees.called (h : Agrees cfg s k p) {works drops expires : Prop}
    (hmove : Request.Move serde k works drops expires (s.request k) (t.request k))
    {k' : Nat} {stage : CallStage} (hcalls : t.calls = update s.calls k' stage)
    (hrequests : stage.requests = []) (hch : t.requestCh = s.requestCh) (hmain : t.main = s.main)
    (hslots : t.slots = s.slots)
    (hhistory : t.history = s.history ∨ ∃ ok, t.history = s.history ++ [.answered k' ok] ∧
      (∀ r, s.calls k' ≠ .returned r) ∧ ∃ r, stage = .returned r) : Travels cfg s t k p := by
  have hunplaced : t.Unplaced k → s.Unplaced k := by
    unfold State.Unplaced
    rw [hcalls, hch, hmain]
    by_cases hk : k = k'
    · subst hk
      rw [update_self, hrequests]
      exact fun h => .inr (h.resolve_left nofun)
    · rw [update_of_ne hk]
      exact id
  have stay (hstory : t.story k = s.story k) : Travels cfg s t k p :=
    h.stay hmove hstory fun leg hleg => h.place leg (hleg.before hslots hunplaced)
  rcases hhistory with hsame | ⟨ok, hhistory, hcall, r, rfl⟩
  · exact stay (by rw [State.story, hsame, State.story])
  · by_cases hk : k = k'
    · subst hk
      exact h.answer hmove ok hcall ⟨r, by rw [hcalls, update_self]⟩
        (by simp [State.story, hhistory, Event.tx?]) hslots hunplaced
    · refine stay (State.story_append [.answered k' ok] hhistory ?_)
      simpa [Event.tx?] using Ne.symm hk

/-- A supervisor's step leaves the other places where they are. -/
theorem Place.supervised {i : Nat} {r : Slot × List (Command R)} {leg : Leg}
    (h : Place cfg (s.supervise i r) k leg) :
    Place cfg s k leg ∧ leg.slot? ≠ some i ∨ r.1.Holds i k leg ∨
      s.Unplaced k ∧ leg = .waiting := by
  cases h with
  | waiting h => exact .inr (.inr ⟨by simpa [State.Unplaced] using h, rfl⟩)
  | @slot j _ hj h =>
      rw [s.supervise_slots] at h
      by_cases hne : j = i
      · subst hne
        rw [update_self] at h
        exact .inr (.inl h)
      · rw [update_of_ne hne] at h
        refine .inl ⟨.slot hj h, ?_⟩
        rw [h.slot]
        simpa using hne

theorem Agrees.supervised (hticketed : Ticketed cfg s) (h : Agrees cfg s k p) {i : Nat}
    {a : SupervisorAction R} {r : Slot × List (Command R)} (hi : i < cfg.count)
    (move : Slot.Move cfg i s.view (s.slots i) a r.1 r.2) {works drops expires : Prop}
    (hmove : Request.Move serde k works drops expires (s.request k)
      ((s.supervise i r).request k)) :
    Travels cfg s (s.supervise i r) k p := by
  by_cases hnote : ∃ e ∈ r.2.filterMap Command.noted, e.tx? = some k
  · obtain ⟨e, he, hk⟩ := hnote
    obtain ⟨after, hslot, hread, hafter⟩ := move.reads (hticketed.slot_unique hi k)
      (fun leg hheld => h.place leg (.slot hi hheld)) he hk
    have hstory : (s.supervise i r).story k = s.story k ++ [e] := by
      rw [State.story, s.supervise_history, move.noted_eq he]
      simp [State.story, hk]
    refine h.go hmove hstory (hread p.answered) ?_ ?_
    · intro leg hleg
      rcases hleg.supervised with ⟨hplace, hother⟩ | hheld | ⟨hunplaced, rfl⟩
      · exact absurd (h.place leg hplace ▸ hslot) hother
      · exact hafter leg hheld
      · rw [h.place _ (.waiting hunplaced)] at hslot
        cases hslot
    · intro hanswered
      obtain ⟨result, hresult⟩ := h.answered hanswered
      exact ⟨result, hmove.returned hresult⟩
  · have hnone : ∀ e ∈ r.2.filterMap Command.noted, e.tx? ≠ some k :=
      fun e he hk => hnote ⟨e, he, hk⟩
    refine h.stay hmove (State.story_append _ (s.supervise_history i r) hnone) ?_
    intro leg hleg
    rcases hleg.supervised with ⟨hplace, _⟩ | hheld | ⟨hunplaced, rfl⟩
    · exact h.place leg hplace
    · exact h.place leg (.slot hi (move.holds hheld hnone))
    · exact h.place _ (.waiting hunplaced)

/-- `pool_main` puts the request at the end of an inbox. -/
theorem Agrees.delivered (hticketed : Ticketed cfg s) (h : Agrees cfg s k p)
    {req : DispatchRequest} {attempt j : Nat} (hmain : s.main = .forwarding req attempt)
    {works drops expires : Prop}
    (hmove : Request.Move serde k works drops expires (s.request k) ((deliver s j req).request k)) :
    Travels cfg s (deliver s j req) k p := by
  -- a slot holds what it held, or the request in its inbox
  have hheld (i : Nat) (leg : Leg) (hh : ((deliver s j req).slots i).Holds i k leg) :
      (s.slots i).Holds i k leg ∨ k = req.streamTx ∧ leg = .delivered j := by
    by_cases hij : i = j
    · subst hij
      rw [show (deliver s i req).slots i =
        { s.slots i with inbox := (s.slots i).inbox ++ [req] } from update_self ..] at hh
      cases hh with
      | inbox hmem =>
          rw [List.map_append, List.mem_append] at hmem
          rcases hmem with hmem | hmem
          · exact .inl (.inbox hmem)
          · exact .inr ⟨by simpa using hmem, rfl⟩
      | dispatching hphase hworker htx => exact .inl (.dispatching hphase hworker htx)
      | executing hphase hworker => exact .inl (.executing hphase hworker)
    · rw [show (deliver s j req).slots i = s.slots i from update_of_ne hij ..] at hh
      exact .inl hh
  by_cases hk : k = req.streamTx
  · subst hk
    have hwaiting : p.leg = .waiting :=
      h.place _ (.waiting (.inr (.inr (by simp [hmain, MainPhase.requests]))))
    have hread : p.read (.delivered j req.streamTx) = some ⟨.delivered j, p.answered⟩ := by
      simp [Itinerary.read, hwaiting]
    refine h.go hmove (by simp [deliver, State.story, State.note, Event.tx?]) hread ?_ ?_
    · intro leg hleg
      cases hleg with
      | waiting hunplaced =>
          -- the request would be in two places
          have hone := hticketed.unique req.streamTx
          simp only [State.tally, hmain, MainPhase.requests, tally_cons, if_true] at hone
          rcases hunplaced with hmem | hmem | hmem
          · have := List.count_pos_iff.mpr hmem
            simp only [deliver, State.note, Pool.tally] at this hone
            omega
          · have := List.count_pos_iff.mpr hmem
            simp only [deliver, State.note, Pool.tally] at this hone
            omega
          · cases hmem
      | slot hi hh =>
          rcases hheld _ _ hh with hbefore | ⟨_, rfl⟩
          · have hleg := h.place _ (.slot hi hbefore)
            rw [hwaiting] at hleg
            subst hleg
            cases hbefore.slot
          · rfl
    · intro hanswered
      obtain ⟨result, hresult⟩ := h.answered hanswered
      exact ⟨result, hmove.returned hresult⟩
  · refine h.stay hmove ?_ ?_
    · refine State.story_append [.delivered j req.streamTx] rfl ?_
      simpa [Event.tx?] using Ne.symm hk
    · intro leg hleg
      cases hleg with
      | waiting hunplaced =>
          refine h.place _ (.waiting ?_)
          rcases hunplaced with hmem | hmem | hmem
          · exact .inl hmem
          · exact .inr (.inl hmem)
          · cases hmem
      | slot hi hh =>
          rcases hheld _ _ hh with hbefore | ⟨heq, _⟩
          · exact h.place _ (.slot hi hbefore)
          · exact absurd heq hk

/-- The owner of the stream pushes. -/
theorem Agrees.pushed (h : Agrees cfg s k p) {works drops expires : Prop}
    (hmove : Request.Move serde k works drops expires (s.request k) (t.request k))
    {w tx : Nat} {c : ResponseChunk} (howner : (s.streams tx).owner = some w)
    (hhistory : t.history = s.history ++ [.pushed w tx c]) (hslots : t.slots = s.slots)
    (hunplaced : t.Unplaced k → s.Unplaced k) : Travels cfg s t k p := by
  by_cases hk : k = tx
  · subst hk
    have hread : p.read (.pushed w k c) = some p := by simp [Itinerary.read, h.owner w howner]
    refine h.go hmove (by simp [State.story, hhistory, Event.tx?]) hread ?_ ?_
    · intro leg hleg
      exact h.place leg (hleg.before hslots hunplaced)
    · intro hanswered
      obtain ⟨result, hresult⟩ := h.answered hanswered
      exact ⟨result, hmove.returned hresult⟩
  · refine h.stay hmove (State.story_append _ hhistory ?_) ?_
    · simpa [Event.tx?] using Ne.symm hk
    · intro leg hleg
      exact h.place leg (hleg.before hslots hunplaced)

theorem Agrees.step (hticketed : Ticketed cfg s) (h : Agrees cfg s k p) {a : Action R}
    (move : Move serde cfg s a t) (hstart : k = s.callCount → p = .start) :
    Travels cfg s t k p := by
  have hmove := step_request hticketed move k
  -- a step that notes nothing about the request, and adds no place to it
  have stay (hstory : t.story k = s.story k) (hslots : t.slots = s.slots)
      (hunplaced : t.Unplaced k → s.Unplaced k) : Travels cfg s t k p :=
    h.stay hmove hstory fun leg hleg => h.place leg (hleg.before hslots hunplaced)
  cases move with
  | refused hargs =>
      obtain ⟨hcall, _, _⟩ := hticketed.fresh s.callCount le_rfl
      exact h.called hmove rfl rfl rfl rfl rfl (.inr ⟨false, rfl, by simp [hcall], _, rfl⟩)
  | @opened inv kind req _ _ htx _ _ =>
      obtain ⟨hcall, _, _⟩ := hticketed.fresh s.callCount le_rfl
      by_cases hk : k = s.callCount
      · subst hk
        refine h.stay hmove rfl ?_
        intro leg hleg
        cases hleg with
        | waiting => rw [hstart rfl]; rfl
        | slot hi hheld => exact h.place leg (.slot hi hheld)
      · exact stay rfl rfl (by simp [State.Unplaced, hk])
  | poolGone hcall _ =>
      exact h.called hmove rfl rfl rfl rfl rfl (.inr ⟨false, rfl, by simp [hcall], _, rfl⟩)
  | @submitted k' kind req hcall _ =>
      have htx := hticketed.sending k' kind req hcall
      refine stay rfl rfl ?_
      unfold State.Unplaced
      by_cases hk : k = k'
      · subst hk
        rw [hcall]
        exact fun _ => .inl (by simp [htx])
      · simp [hk, htx]
  | collected hcall _ _ => exact h.called hmove rfl rfl rfl rfl rfl (.inl rfl)
  | judged hcall _ _ | exhausted hcall _ _ =>
      exact h.called hmove rfl rfl rfl rfl rfl (.inr ⟨_, rfl, by simp [hcall], _, rfl⟩)
  | withdrawn _ | cancelled _ => exact h.called hmove rfl rfl rfl rfl rfl (.inl rfl)
  | mainTook hmain hch =>
      refine stay rfl rfl ?_
      rintro (hmem | hmem | hmem)
      · exact .inl hmem
      · exact .inr (.inl (by rw [hch]; exact List.mem_cons_of_mem _ hmem))
      · exact .inr (.inl (by rw [hch]; exact List.mem_cons.mpr (.inl (List.mem_singleton.mp hmem))))
  | mainLeft hmain _ _ | joined hmain _ | abandoned hmain _ =>
      refine stay rfl rfl ?_
      rintro (hmem | hmem | hmem)
      · exact .inl hmem
      · exact .inr (.inl hmem)
      · cases hmem
  | skipped hmain _ _ | buried hmain _ _ _ =>
      exact stay rfl rfl (by simp [State.Unplaced, hmain, MainPhase.requests])
  | delivered hmain _ _ _ _ => exact h.delivered hticketed hmain hmove
  | supervised hi _ move => exact h.supervised hticketed hi move hmove
  | pushed _ _ howner _ _ _ => exact h.pushed hmove howner rfl rfl id
  | _ => exact stay rfl rfl id

end Steps

/-- The story of a request, read so far. -/
structure Followed (cfg : WorkersConfig) (s : State R) (k : Nat) : Prop where
  ticketed : Ticketed cfg s
  story : ∃ p, runs Itinerary.read .start (s.story k) = some p ∧ Agrees cfg s k p

theorem Followed.init (R : Runtime) (cfg : WorkersConfig) (k : Nat) :
    Followed cfg (init R cfg) k where
  ticketed := .init R cfg
  story := by
    refine ⟨.start, rfl, ?_, nofun, nofun⟩
    intro leg hleg
    cases hleg with
    | waiting => rfl
    | slot _ h =>
        cases h with
        | inbox h => cases h
        | dispatching hphase => cases hphase
        | executing hphase => cases hphase

theorem Followed.step (h : Followed cfg s k) {a : Action R} (ht : step serde cfg s a = some t) :
    Followed cfg t k := by
  have move := step_move ht
  obtain ⟨p, hruns, hagrees⟩ := h.story
  have hstart (hk : k = s.callCount) : p = .start := by
    obtain ⟨_, _, hstory⟩ := h.ticketed.fresh k hk.ge
    rw [hstory, runs_nil] at hruns
    exact (Option.some.inj hruns).symm
  refine ⟨h.ticketed.step move, ?_⟩
  rcases hagrees.step h.ticketed move hstart with
    ⟨hstory, hagrees'⟩ | ⟨e, p', hstory, hread, hagrees'⟩
  · exact ⟨p, hstory ▸ hruns, hagrees'⟩
  · refine ⟨p', ?_, hagrees'⟩
    rw [hstory, runs_append, hruns]
    simp [hread]

/-- In every reachable state the events about a request are read by its itinerary: one slot is
given it, takes it and executes it on one worker, only that worker pushes on its stream, and
its call is answered once. The places that hold the request are where its itinerary is. -/
theorem requests_follow_itinerary (R : Runtime) (serde : SerdeJson) (cfg : WorkersConfig)
    (s : State R) (h : Reachable (step serde cfg) (init R cfg) s) (k : Nat) :
    ∃ p, runs Itinerary.read .start (s.story k) = some p ∧ Agrees cfg s k p :=
  (h.invariant (fun u => Followed cfg u k) (.init R cfg k) fun _ _ _ hu _ hstep =>
    hu.step hstep).story

/-- The answered call has been given to worker 0 of slot 0, and was executed there. -/
theorem answered_call_executed_once :
    ∃ s, Reachable (step .ofNull .single) (init .replying .single) s ∧
      ∃ p, runs Itinerary.read .start (s.story 0) = some p ∧
        p.leg = .executing 0 0 ∧ p.answered = true := by
  have hrun : (runs (step .ofNull .single) (init .replying .single)
      (oneCall .replying [] ++ [.work 0 (), .work 0 (), .work 0 (), .receive 0, .receive 0])).any
        (fun s => (runs Itinerary.read .start (s.story 0)).any fun p =>
          decide (p.leg = .executing 0 0) && p.answered) = true := by decide
  obtain ⟨s, hs, htest⟩ := exists_reachable hrun
  obtain ⟨p, hp, _⟩ := requests_follow_itinerary .replying .ofNull .single s hs 0
  rw [hp, Option.any_some, Bool.and_eq_true] at htest
  exact ⟨s, hs, p, hp, of_decide_eq_true htest.1, htest.2⟩

end FolkCore.Pool
