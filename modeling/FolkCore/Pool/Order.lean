import FolkCore.Pool.Replies

/-!
# Requests are served in order

A request enters the request channel when its caller's `send` is done. `pool_main` takes
the channel from the front and appends to the inboxes, and a supervisor works off its
inbox one request at a time. So each slot serves the requests it was given in the order in
which their callers sent them.
-/

namespace FolkCore.Pool

open Function Lib
open scoped List

variable {R : Runtime} {serde : SerdeJson} {cfg : WorkersConfig} {s t : State R} {i : Nat}

/-- The call that an action sends. -/
def Action.sent? : Action R → Option StreamTx
  | .submit k => some k
  | _ => none

/-- The calls whose `request_tx.send` was done, in the order of the sends. -/
def submits (actions : List (Action R)) : List StreamTx := actions.filterMap Action.sent?

def Event.arrival? : Event → Option StreamTx
  | .delivered _ tx => some tx
  | _ => none

/-- The requests that `pool_main` put into an inbox, in order. -/
def State.arrivals (s : State R) : List StreamTx := s.history.filterMap Event.arrival?

/-- The requests on their way to a slot, before those that have arrived. -/
def State.line (s : State R) : List StreamTx :=
  s.arrivals ++ (s.main.requests ++ s.requestCh).map DispatchRequest.streamTx

section Queue

theorem State.arrivals_append (events : List Event) (ht : t.history = s.history ++ events)
    (h : ∀ e ∈ events, e.arrival? = none) : t.arrivals = s.arrivals := by
  have hnone : events.filterMap Event.arrival? = [] := List.filterMap_eq_nil_iff.mpr h
  rw [State.arrivals, ht, List.filterMap_append, hnone, List.append_nil, State.arrivals]

/-- A supervisor delivers nothing. -/
theorem Slot.Move.arrival {v : View R} {slot slot' : Slot} {a : SupervisorAction R}
    {commands : List (Command R)} (move : Slot.Move cfg i v slot a slot' commands) :
    ∀ e ∈ commands.filterMap Command.noted, e.arrival? = none := by
  cases move <;> simp [Command.noted, Event.arrival?]

/-- A step sends one request at most to the end of the line; `pool_main` serves the line
from its front and may drop a request. -/
theorem Move.line (hticketed : Ticketed cfg s) {a : Action R} (move : Move serde cfg s a t) :
    t.line <+ s.line ++ a.sent?.toList := by
  have keep {p : State R} (hline : p.line = s.line) {sent : List StreamTx} :
      p.line <+ s.line ++ sent := hline ▸ List.sublist_append_left _ _
  cases move with
  | refused | poolGone | judged | exhausted | pushed =>
      exact keep (by simp [State.line, State.arrivals, Event.arrival?])
  | @submitted k kind req hcall _ =>
      have htx := hticketed.sending k kind req hcall
      simp [State.line, State.arrivals, Action.sent?, htx]
  | mainTook hmain hch => exact keep (by simp [State.line, State.arrivals, hmain, hch,
      MainPhase.requests])
  | mainLeft hmain _ _ | joined hmain _ | skipped hmain _ _ | buried hmain _ _ _ =>
      exact keep (by simp [State.line, State.arrivals, hmain, MainPhase.requests])
  | delivered hmain _ _ _ _ =>
      exact keep (by simp [State.line, State.arrivals, Event.arrival?, hmain,
        MainPhase.requests])
  | abandoned hmain _ =>
      simp [State.line, State.arrivals, hmain, MainPhase.requests, Action.sent?]
  | supervised _ _ move =>
      apply keep
      rw [State.line, State.line, s.supervise_main, s.supervise_requestCh,
        State.arrivals_append _ (s.supervise_history _ _) move.arrival]
  | _ => exact keep rfl

/-- Only a new call begins to send. -/
theorem Move.sending {a : Action R} (move : Move serde cfg s a t) {k : Nat} {kind : CallKind}
    {req : DispatchRequest} (h : t.calls k = .sending kind req) :
    s.calls k = .sending kind req ∨ k = s.callCount := by
  have moved {k' : Nat} {stage : CallStage} (ht : t.calls = update s.calls k' stage)
      (hstage : stage ≠ .sending kind req) : s.calls k = .sending kind req := by
    have hne : k ≠ k' := by
      rintro rfl
      rw [ht, update_self] at h
      exact hstage h
    rwa [ht, update_of_ne hne] at h
  cases move with
  | refused => exact .inl (moved rfl nofun)
  | opened =>
      by_cases hk : k = s.callCount
      · exact .inr hk
      · exact .inl (by simpa [hk] using h)
  | @submitted _ kind' => exact .inl (moved rfl (by cases kind' <;> nofun))
  | poolGone | collected | judged | exhausted | withdrawn | cancelled =>
      exact .inl (moved rfl nofun)
  | supervised => exact .inl (by rwa [State.supervise_calls] at h)
  | _ => exact .inl h

theorem Move.callCount {a : Action R} (move : Move serde cfg s a t) :
    s.callCount ≤ t.callCount := by
  cases move with
  | refused | opened => exact Nat.le_succ _
  | supervised => exact (State.supervise_callCount _ _ _).ge
  | _ => exact le_rfl

/-- A call sends once. -/
theorem Move.sent {a : Action R} (move : Move serde cfg s a t) {k : Nat}
    (h : a.sent? = some k) : (∃ kind req, s.calls k = .sending kind req) ∧
      ∀ kind req, t.calls k ≠ .sending kind req := by
  cases move with
  | poolGone hcall =>
      cases h
      exact ⟨⟨_, _, hcall⟩, by simp⟩
  | @submitted k' kind _ hcall =>
      cases h
      exact ⟨⟨_, _, hcall⟩, by cases kind <;> simp [CallKind.listen]⟩
  | _ => cases h

/-- The invariant of the line: it follows the order of the sends, and none is repeated. -/
structure InLine (sent : List StreamTx) (s : State R) : Prop where
  order : s.line <+ sent
  once : sent.Nodup
  past : ∀ k ∈ sent, k < s.callCount ∧ ∀ kind req, s.calls k ≠ .sending kind req

theorem InLine.init (R : Runtime) (cfg : WorkersConfig) : InLine [] (init R cfg) where
  order := .slnil
  once := .nil
  past := nofun

theorem InLine.step {sent : List StreamTx} (hticketed : Ticketed cfg s) (h : InLine sent s)
    {a : Action R} (move : Move serde cfg s a t) : InLine (sent ++ a.sent?.toList) t where
  order := (move.line hticketed).trans (h.order.append_right _)
  once := by
    cases ha : a.sent? with
    | none => simpa using h.once
    | some k =>
        obtain ⟨⟨kind, req, hcall⟩, _⟩ := move.sent ha
        have hnew : k ∉ sent := fun hk => (h.past k hk).2 kind req hcall
        rw [Option.toList_some, ← List.concat_eq_append]
        exact h.once.concat hnew
  past k hk := by
    rcases List.mem_append.mp hk with hold | hnew
    · obtain ⟨hlt, hpast⟩ := h.past k hold
      refine ⟨hlt.trans_le move.callCount, ?_⟩
      intro kind req hsending
      rcases move.sending hsending with hbefore | heq
      · exact hpast kind req hbefore
      · exact hlt.ne heq
    · obtain ⟨⟨kind, req, hcall⟩, hdone⟩ := move.sent (Option.mem_toList.mp hnew)
      exact ⟨(hticketed.known (by simp [hcall])).trans_le move.callCount, hdone⟩

end Queue

section Lanes

/-- What has happened to the requests of one slot, stage by stage. -/
structure Lane where
  delivered : List StreamTx
  taken : List StreamTx
  executed : List StreamTx
  finished : List StreamTx

/-- Write an event of slot `i` into its lane. -/
def Lane.note (i : Nat) (l : Lane) : Event → Lane
  | .delivered j tx => if j = i then { l with delivered := l.delivered ++ [tx] } else l
  | .took j _ tx => if j = i then { l with taken := l.taken ++ [tx] } else l
  | .executed j _ tx => if j = i then { l with executed := l.executed ++ [tx] } else l
  | .finished j _ tx _ => if j = i then { l with finished := l.finished ++ [tx] } else l
  | _ => l

/-- The lane of slot `i`, read off the history. -/
def State.lane (s : State R) (i : Nat) : Lane := s.history.foldl (Lane.note i) ⟨[], [], [], []⟩

theorem State.lane_append (events : List Event) (ht : t.history = s.history ++ events) :
    t.lane i = events.foldl (Lane.note i) (s.lane i) := by
  rw [State.lane, ht, List.foldl_append, State.lane]

/-- What a phase says about the request in execution. -/
def Lane.Phased (l : Lane) : Phase → Prop
  | .dispatching req _ => l.taken = l.executed ++ [req.streamTx] ∧ l.executed = l.finished
  | .executing tx _ => l.taken = l.executed ∧ l.executed = l.finished ++ [tx]
  | .panicked => l.taken = l.executed ∧
      (l.executed = l.finished ∨ ∃ tx, l.executed = l.finished ++ [tx])
  | _ => l.taken = l.executed ∧ l.executed = l.finished

/-- The invariant of a slot: the inbox holds what was delivered and not taken, and the
request in execution is the last one taken. -/
structure Lane.Ordered (l : Lane) (slot : Slot) : Prop where
  inbox : ∃ lost, l.delivered = l.taken ++ slot.inbox.map DispatchRequest.streamTx ++ lost ∧
    (slot.phase.live = true → lost = [])
  phased : l.Phased slot.phase

theorem Lane.Ordered.init : Lane.Ordered ⟨[], [], [], []⟩ .start where
  inbox := ⟨[], rfl, fun _ => rfl⟩
  phased := ⟨rfl, rfl⟩

theorem Lane.Ordered.move {l : Lane} {v : View R} {slot slot' : Slot} {a : SupervisorAction R}
    {commands : List (Command R)} (h : l.Ordered slot)
    (move : Slot.Move cfg i v slot a slot' commands) :
    ((commands.filterMap Command.noted).foldl (Lane.note i) l).Ordered slot' := by
  obtain ⟨⟨lost, hinbox, hlost⟩, hphased⟩ := h
  cases move with
  | took hphase _ _ hslot =>
      rw [hphase] at hlost hphased
      cases hlost rfl
      refine ⟨⟨[], ?_, fun _ => rfl⟩, ?_⟩
      · simp [Command.noted, Lane.note, hinbox, hslot]
      · simpa [List.filterMap_cons, Command.noted, Lane.note, Lane.Phased] using hphased
  | execute hphase _ _ _ =>
      rw [hphase] at hlost hphased
      cases hlost rfl
      refine ⟨⟨[], ?_, fun _ => rfl⟩, ?_⟩
      · simp [List.filterMap_cons, Command.noted, Lane.note, hinbox]
      · simpa [List.filterMap_cons, Command.noted, Lane.note, Lane.Phased] using hphased
  | settled hphase _ _ _ =>
      rw [hphase] at hlost hphased
      cases hlost rfl
      refine ⟨⟨[], ?_, fun _ => rfl⟩, ?_⟩
      · simp [List.filterMap_cons, Command.noted, Lane.note, hinbox]
      · simpa [List.filterMap_cons, Command.noted, Lane.note, Lane.Phased] using hphased
  | executePanicked hphase =>
      rw [hphase] at hphased
      exact ⟨⟨slot.inbox.map DispatchRequest.streamTx ++ lost, by
        simp [List.filterMap_cons, Command.noted, hinbox], by simp [Phase.live]⟩, hphased.1,
        .inr ⟨_, hphased.2⟩⟩
  | spawnPanicked hphase | bootPanicked hphase | unreachable hphase
  | terminatePanicked hphase =>
      rw [hphase] at hphased
      exact ⟨⟨slot.inbox.map DispatchRequest.streamTx ++ lost, by
        simp [List.filterMap_cons, Command.noted, hinbox], by simp [Phase.live]⟩, hphased.1,
        .inl hphased.2⟩
  | exited hphase =>
      rw [hphase] at hphased
      exact ⟨⟨slot.inbox.map DispatchRequest.streamTx ++ lost, by
        simp [List.filterMap_cons, Command.noted, hinbox], by simp [Phase.live]⟩, hphased⟩
  | boot hphase | listen hphase | spawned hphase | spawnFailed hphase | booted hphase
  | bootFailed hphase | wake hphase | reloaded hphase | caughtUp hphase | noReload hphase
  | reloadClosed hphase | inboxEmpty hphase | inboxClosed hphase | recycled hphase
  | kept hphase | bootAbandoned hphase | replaced hphase =>
      rw [hphase] at hlost hphased
      exact ⟨⟨lost, hinbox, fun _ => hlost rfl⟩, hphased⟩

/-- A supervisor writes into its own lane only. -/
theorem Slot.Move.lane_of_ne {v : View R} {slot slot' : Slot} {a : SupervisorAction R}
    {commands : List (Command R)} (move : Slot.Move cfg i v slot a slot' commands) {j : Nat}
    (hj : i ≠ j) (l : Lane) :
    (commands.filterMap Command.noted).foldl (Lane.note j) l = l := by
  cases move <;> simp [List.filterMap_cons, Command.noted, Lane.note, hj]

/-- The invariant of the slots. -/
def Laned (s : State R) : Prop := ∀ i, (s.lane i).Ordered (s.slots i)

theorem Laned.init (R : Runtime) (cfg : WorkersConfig) : Laned (init R cfg) := fun _ => .init

theorem Laned.step (h : Laned s) {a : Action R} (move : Move serde cfg s a t) : Laned t := by
  intro i
  -- an event of no slot
  have other {p : State R} {e : Event} (he : ∀ l, Lane.note i l e = l)
      (hhistory : p.history = s.history ++ [e]) (hslots : p.slots = s.slots) :
      (p.lane i).Ordered (p.slots i) := by
    rw [State.lane_append [e] hhistory, hslots, List.foldl_cons, he]
    exact h i
  cases move with
  | refused | poolGone | judged | exhausted | pushed => exact other (fun _ => rfl) rfl rfl
  | @delivered req attempt _ _ _ hlive _ =>
      obtain ⟨⟨lost, hinbox, hlost⟩, hphased⟩ := h i
      rw [State.lane_append (s := s)
        [.delivered ((s.next + attempt) % cfg.count) req.streamTx] rfl]
      by_cases hi : i = (s.next + attempt) % cfg.count
      · subst hi
        cases hlost hlive
        refine ⟨⟨[], ?_, fun _ => rfl⟩, ?_⟩
        · simp [Lane.note, hinbox]
        · simp only [List.foldl_cons, List.foldl_nil, Lane.note, if_true]
          simpa [Lane.Phased] using hphased
      · simpa [Lane.note, Ne.symm hi, hi] using h i
  | @supervised j _ r _ _ move =>
      rw [State.lane_append _ (s.supervise_history j r), s.supervise_slots]
      by_cases hi : i = j
      · subst hi
        rw [update_self]
        exact (h i).move move
      · rw [update_of_ne hi, move.lane_of_ne (Ne.symm hi)]
        exact h i
  | _ => exact h i

theorem Lane.delivered_note (l : Lane) (e : Event) :
    (l.note i e).delivered <+ l.delivered ++ e.arrival?.toList := by
  cases e with
  | delivered j tx =>
      by_cases hj : j = i
      · simp [Lane.note, hj, Event.arrival?]
      · simp [Lane.note, hj]
  | took j | executed j | finished j =>
      by_cases hj : j = i
      · simp [Lane.note, hj]
      · simp [Lane.note, hj]
  | _ => exact List.sublist_append_left _ _

/-- What a slot was given is a part of what `pool_main` delivered, in the same order. -/
theorem State.delivered_sublist (s : State R) (i : Nat) :
    (s.lane i).delivered <+ s.arrivals := by
  unfold State.lane State.arrivals
  induction s.history using List.reverseRecOn with
  | nil => exact .slnil
  | append_singleton events e ih =>
      have hlast : [e].filterMap Event.arrival? = e.arrival?.toList := by
        cases he : e.arrival? <;> simp [he]
      rw [List.foldl_append, List.filterMap_append, hlast]
      exact (Lane.delivered_note _ e).trans (ih.append_right _)

/-- Whatever the phase, the slot has taken at most one request more than it has finished. -/
theorem Lane.Phased.one_at_a_time {l : Lane} {phase : Phase} (h : l.Phased phase) :
    l.executed <+: l.taken ∧ l.finished <+: l.executed ∧
      l.taken.length ≤ l.finished.length + 1 := by
  unfold Lane.Phased at h
  split at h
  · obtain ⟨htaken, hexecuted⟩ := h
    exact ⟨⟨_, htaken.symm⟩, hexecuted ▸ List.prefix_refl _, by simp [htaken, hexecuted]⟩
  · obtain ⟨htaken, hexecuted⟩ := h
    exact ⟨htaken ▸ List.prefix_refl _, ⟨_, hexecuted.symm⟩, by simp [htaken, hexecuted]⟩
  · obtain ⟨htaken, hexecuted | ⟨tx, hexecuted⟩⟩ := h
    · exact ⟨htaken ▸ List.prefix_refl _, hexecuted ▸ List.prefix_refl _,
        by simp [htaken, hexecuted]⟩
    · exact ⟨htaken ▸ List.prefix_refl _, ⟨_, hexecuted.symm⟩, by simp [htaken, hexecuted]⟩
  · obtain ⟨htaken, hexecuted⟩ := h
    exact ⟨htaken ▸ List.prefix_refl _, hexecuted ▸ List.prefix_refl _,
      by simp [htaken, hexecuted]⟩

end Lanes

theorem inLine_of_runs {actions : List (Action R)}
    (hrun : runs (step serde cfg) (init R cfg) actions = some s) :
    InLine (submits actions) s := by
  induction actions using List.reverseRecOn generalizing s with
  | nil =>
      cases hrun
      exact .init R cfg
  | append_singleton actions a ih =>
      rw [runs_append, Option.bind_eq_some_iff] at hrun
      obtain ⟨p, hp, hlast⟩ := hrun
      have hstep : step serde cfg p a = some s := by simpa using hlast
      have hticketed := ticketed_of_reachable (reachable_of_runs hp)
      have hinLine := (ih hp).step hticketed (step_move hstep)
      have hsubmits : submits (actions ++ [a]) = submits actions ++ a.sent?.toList := by
        cases ha : a.sent? <;> simp [submits, ha]
      rwa [hsubmits]

/-- In every run the slots are given requests in the order in which the callers' sends were
done, and each slot takes, executes and finishes the requests it was given in this order,
one at a time; what a live slot has not taken is in its inbox. -/
theorem slots_serve_in_order (R : Runtime) (serde : SerdeJson) (cfg : WorkersConfig)
    (actions : List (Action R)) (s : State R)
    (hrun : runs (step serde cfg) (init R cfg) actions = some s) (i : Nat) :
    (submits actions).Nodup ∧ s.arrivals <+ submits actions ∧
      (s.lane i).delivered <+ s.arrivals ∧ (s.lane i).taken <+: (s.lane i).delivered ∧
      (s.lane i).executed <+: (s.lane i).taken ∧ (s.lane i).finished <+: (s.lane i).executed ∧
      (s.lane i).taken.length ≤ (s.lane i).finished.length + 1 ∧
      ((s.slots i).phase.live = true → (s.lane i).delivered =
        (s.lane i).taken ++ (s.slots i).inbox.map DispatchRequest.streamTx) := by
  have hinLine := inLine_of_runs hrun
  have hlaned : Laned s := (reachable_of_runs hrun).invariant Laned (.init R cfg)
    fun _ _ _ h _ hstep => Laned.step h (step_move hstep)
  obtain ⟨⟨lost, hinbox, hlost⟩, hphased⟩ := hlaned i
  obtain ⟨hexecuted, hfinished, hlength⟩ := hphased.one_at_a_time
  refine ⟨hinLine.once, (List.sublist_append_left _ _).trans hinLine.order,
    s.delivered_sublist i, ?_, hexecuted, hfinished, hlength, ?_⟩
  · rw [hinbox, List.append_assoc]
    exact List.prefix_append _ _
  · intro hlive
    rw [hinbox, hlost hlive, List.append_nil]

/-- Of two calls the second sends first, and `pool_main` serves it first. -/
theorem later_call_served_first :
    ∃ s, runs (step .ofNull .pair) (init .basic .pair)
        [.invoke (.executeValue "a" .null), .invoke (.executeValue "b" .null), .submit 1,
          .submit 0, .mainRecv, .mainForward, .mainRecv, .mainForward] = some s ∧
      s.arrivals = [1, 0] ∧ s.arrivals <+ [1, 0] ∧ (s.lane 0).delivered <+ s.arrivals := by
  have hrun : (runs (step .ofNull .pair) (init .basic .pair)
      [.invoke (.executeValue "a" .null), .invoke (.executeValue "b" .null), .submit 1,
        .submit 0, .mainRecv, .mainForward, .mainRecv, .mainForward]).any
        (fun s => decide (s.arrivals = [1, 0])) = true := by decide
  obtain ⟨s, hs, htest⟩ := (Option.any_eq_true _ _).mp hrun
  obtain ⟨_, harrivals, hdelivered, _⟩ := slots_serve_in_order .basic .ofNull .pair _ s hs 0
  exact ⟨s, hs, of_decide_eq_true htest, harrivals, hdelivered⟩

end FolkCore.Pool
