import FolkCore.Pool.Tickets

/-!
# The life of one request

A request seen alone is the stage of its caller, its stream and the events about
it. `Request.Move` lists what can happen to it, whatever the rest of the pool
does; `step_request` says that every step of the pool is such a move for every
request. Three facts about the step enter as propositions: that a worker makes it
(`Action.isWork`), that it drops the sender (`State.drops`), and that it gives the
request up on timeout (`State.expires`).
-/

namespace FolkCore.Pool

open Function

variable {R : Runtime} {serde : SerdeJson} {cfg : WorkersConfig} {s t : State R}

/-- The streams whose sender a command drops. -/
def Command.drops : Command R → List StreamTx
  | .hand _ tx kept => if kept then [] else [tx]
  | .discard reqs => reqs.map DispatchRequest.streamTx
  | _ => []

/-- The streams whose sender a step drops: `pool_main` has found every inbox closed, a
supervisor ends with requests in its inbox, `execute_streaming` does not keep the
sender, or a worker closes the stream. -/
def State.drops (cfg : WorkersConfig) (s : State R) : Action R → List StreamTx
  | .mainForward =>
      match s.main with
      | .forwarding req attempt => if attempt < cfg.count then [] else [req.streamTx]
      | _ => []
  | .supervise i a =>
      match (s.slots i).step cfg i s.view a with
      | some r => r.2.flatMap Command.drops
      | none => []
  | .work w a =>
      match (s.workers w).bind fun h => R.act h a with
      | some (_, some (.close tx)) => [tx]
      | _ => []
  | _ => []

/-- The request that a step gives up because its execution time is over. -/
def State.expires (s : State R) : Action R → Option StreamTx
  | .supervise i .pollExecute =>
      match (s.slots i).phase, (s.slots i).worker.bind s.workers with
      | .executing tx deadline, some h =>
          match R.pollExecute h with
          | .pending => if deadline ≤ s.now then some tx else none
          | _ => none
      | _, _ => none
  | _ => none

theorem State.expires_of_pending {i w : Nat} {tx : StreamTx} {deadline : Nat} {h : R.Worker}
    (hphase : (s.slots i).phase = .executing tx deadline) (hslot : (s.slots i).worker = some w)
    (hw : s.workers w = some h) (hpending : R.pollExecute h = .pending)
    (htime : deadline ≤ s.now) : s.expires (.supervise i .pollExecute) = some tx := by
  simp [State.expires, hphase, hslot, hw, hpending, htime]

/-- The step is a worker's. -/
def Action.isWork : Action R → Bool
  | .work _ _ => true
  | _ => false

/-- One request: the stage of its caller, its stream, and the events about it. -/
structure Request where
  call : CallStage
  stream : Stream
  story : List Event

def State.request (s : State R) (k : Nat) : Request := ⟨s.calls k, s.streams k, s.story k⟩

/-- The event reports a timeout. -/
def Event.isElapsed : Event → Bool
  | .finished _ _ _ .elapsed => true
  | _ => false

/-- The events by which the pool passes a request on or settles it. -/
def Event.passes : Event → Bool
  | .delivered _ _ => true
  | .took _ _ _ => true
  | .finished _ _ _ _ => true
  | _ => false

inductive Request.Move (serde : SerdeJson) (k : Nat) (works drops expires : Prop) (r : Request) :
    Request → Prop
  | same : Move serde k works drops expires r r
  | passed (e : Event) (he : e.passes = true) (htime : e.isElapsed = true → expires) :
      Move serde k works drops expires r ⟨r.call, r.stream, r.story ++ [e]⟩
  | refused (e : CallError) (hcall : r.call = .unborn) :
      Move serde k works drops expires r
        ⟨.returned (.error e), r.stream, r.story ++ [.answered k false]⟩
  | opened (kind : CallKind) (req : DispatchRequest) (hcall : r.call = .unborn)
      (hstory : r.story = []) :
      Move serde k works drops expires r ⟨.sending kind req, ⟨none, true, true, []⟩, r.story⟩
  | submitted {kind : CallKind} {req : DispatchRequest} (hcall : r.call = .sending kind req) :
      Move serde k works drops expires r ⟨kind.listen, r.stream, r.story⟩
  | poolGone {kind : CallKind} {req : DispatchRequest} (hcall : r.call = .sending kind req) :
      Move serde k works drops expires r ⟨.returned (.error .poolGone),
        { r.stream with senderOpen := false, receiverOpen := false, buffer := [] },
        r.story ++ [.answered k false]⟩
  | withdrawn {kind : CallKind} {req : DispatchRequest} (hcall : r.call = .sending kind req) :
      Move serde k works drops expires r ⟨.cancelled,
        { r.stream with senderOpen := false, receiverOpen := false, buffer := [] }, r.story⟩
  | collected {kind : CallKind} {acc acc' : Collected} {c : ResponseChunk}
      {rest : List ResponseChunk} (hcall : r.call = .collecting kind acc)
      (hbuffer : r.stream.buffer = c :: rest) (htake : acc.take c = .inl acc') :
      Move serde k works drops expires r
        ⟨.collecting kind acc', { r.stream with buffer := rest }, r.story⟩
  | judged {kind : CallKind} {acc : Collected} {c : ResponseChunk}
      {rest : List ResponseChunk} {result : Except WorkerError Value}
      (hcall : r.call = .collecting kind acc) (hbuffer : r.stream.buffer = c :: rest)
      (htake : acc.take c = .inr result) :
      Move serde k works drops expires r ⟨.returned (kind.reply serde k result),
        { r.stream with receiverOpen := false, buffer := [] },
        r.story ++ [.answered k (kind.reply serde k result).isOk]⟩
  | exhausted {kind : CallKind} {acc : Collected} (hcall : r.call = .collecting kind acc)
      (hbuffer : r.stream.buffer = []) (hclosed : r.stream.senderOpen = false) :
      Move serde k works drops expires r ⟨.returned (kind.reply serde k (.ok acc.finish)),
        { r.stream with receiverOpen := false, buffer := [] },
        r.story ++ [.answered k (kind.reply serde k (.ok acc.finish)).isOk]⟩
  | streamed {c : ResponseChunk} {rest : List ResponseChunk} (hcall : r.call = .streaming)
      (hbuffer : r.stream.buffer = c :: rest) :
      Move serde k works drops expires r ⟨r.call, { r.stream with buffer := rest }, r.story⟩
  | cancelled (hcall : r.call.Listening) :
      Move serde k works drops expires r ⟨.cancelled,
        { r.stream with receiverOpen := false, buffer := [] }, r.story⟩
  | executed (i w : Nat) (kept : Bool) (howner : r.stream.owner = none)
      (hdrops : kept = false → drops) :
      Move serde k works drops expires r
        ⟨r.call, { r.stream with owner := some w, senderOpen := kept },
          r.story ++ [.executed i w k]⟩
  | discarded (howner : r.stream.owner = none) (hdrops : drops) :
      Move serde k works drops expires r ⟨r.call, { r.stream with senderOpen := false }, r.story⟩
  | pushed (w : Nat) (c : ResponseChunk) (howner : r.stream.owner = some w)
      (hsender : r.stream.senderOpen = true) (hreceiver : r.stream.receiverOpen = true)
      (hworks : works) :
      Move serde k works drops expires r
        ⟨r.call, { r.stream with buffer := r.stream.buffer ++ [c] },
          r.story ++ [.pushed w k c]⟩
  | closed (w : Nat) (howner : r.stream.owner = some w)
      (hsender : r.stream.senderOpen = true) (hdrops : drops) (hworks : works) :
      Move serde k works drops expires r ⟨r.call, { r.stream with senderOpen := false }, r.story⟩

/-- A step notes at most one event about a request. -/
theorem Request.Move.story {k : Nat} {works drops expires : Prop} {r r' : Request}
    (move : Request.Move serde k works drops expires r r') :
    ∃ e : Option Event, r'.story = r.story ++ e.toList ∧
      ∀ e' ∈ e, e'.isElapsed = true → expires := by
  cases move with
  | passed e he htime => exact ⟨some e, rfl, by simpa using htime⟩
  | refused _ _ | poolGone _ | judged _ _ _ | exhausted _ _ _ | executed _ _ _ _ _
  | pushed _ _ _ _ _ _ => exact ⟨some _, rfl, by simp [Event.isElapsed]⟩
  | _ => exact ⟨none, by simp, by simp⟩

theorem Request.Move.of_request {k : Nat} {works drops expires : Prop} {r r' : Request}
    (hmove : Request.Move serde k works drops expires r r') (heq : t.request k = r') :
    Request.Move serde k works drops expires r (t.request k) :=
  heq ▸ hmove

/-- The step does not concern the request. -/
theorem Request.Move.of_same {k : Nat} {works drops expires : Prop}
    (hcall : t.calls k = s.calls k) (hstream : t.streams k = s.streams k)
    (hstory : t.story k = s.story k) :
    Request.Move serde k works drops expires (s.request k) (t.request k) := by
  refine .of_request .same ?_
  simp [State.request, hcall, hstream, hstory]

section Supervisors

variable {i : Nat} {a : SupervisorAction R} {r : Slot × List (Command R)} {k : Nat}

/-- A supervisor's step that neither moves the sender nor notes the request. -/
theorem Request.Move.of_aside {works drops expires : Prop} (hgone : ∀ c ∈ r.2, k ∉ c.gone)
    (hnoted : ∀ e ∈ r.2.filterMap Command.noted, e.tx? ≠ some k) :
    Request.Move serde k works drops expires (s.request k) ((s.supervise i r).request k) := by
  apply Request.Move.of_same
  · rw [s.supervise_calls]
  · exact s.supervise_streams i r hgone
  · exact State.story_append _ (s.supervise_history i r) hnoted

/-- A supervisor's step that notes the request and leaves its sender. -/
theorem Request.Move.of_noted {works drops expires : Prop} {e : Event}
    (hgone : ∀ c ∈ r.2, k ∉ c.gone) (hnoted : r.2.filterMap Command.noted = [e])
    (he : e.passes = true) (htime : e.tx? = some k → e.isElapsed = true → expires) :
    Request.Move serde k works drops expires (s.request k) ((s.supervise i r).request k) := by
  by_cases hk : e.tx? = some k
  · refine .of_request (.passed e he (htime hk)) ?_
    simp [State.request, s.supervise_streams i r hgone, State.story, hnoted, hk]
  · apply Request.Move.of_aside hgone
    rw [hnoted]
    simpa using hk

/-- A supervisor ends and drops its inbox. -/
theorem Request.Move.of_stopped {works drops expires : Prop} (h : Ticketed cfg s)
    (hi : i < cfg.count) (before : List (Command R))
    (hr : r.2 = before ++ [.discard (s.slots i).inbox]) (hgone : ∀ c ∈ before, c.gone = [])
    (hnoted : r.2.filterMap Command.noted = [])
    (hdrops : k ∈ (s.slots i).inbox.map DispatchRequest.streamTx → drops) :
    Request.Move serde k works drops expires (s.request k) ((s.supervise i r).request k) := by
  by_cases hk : k ∈ (s.slots i).inbox.map DispatchRequest.streamTx
  · have hpos : 0 < Pool.tally k (s.slots i).requests := by
      have : 0 < Pool.tally k (s.slots i).inbox := List.count_pos_iff.mpr hk
      rw [Slot.requests, tally_append]
      omega
    have howner := (h.held k (State.tally_pos_of_slot hi hpos)).2.1
    have hstream : (s.supervise i r).streams k = { s.streams k with senderOpen := false } := by
      have hbefore : (before.foldl State.perform
          { s with slots := update s.slots i r.1 }).streams k = s.streams k := by
        apply State.foldl_streams
        intro c hc
        simp [hgone c hc]
      rw [State.supervise, hr, List.foldl_append]
      simp only [List.foldl_cons, List.foldl_nil, State.perform, State.discard, if_pos hk,
        hbefore]
    refine .of_request (.discarded howner (hdrops hk)) ?_
    simp [State.request, hstream, State.story, hnoted]
  · apply Request.Move.of_aside
    · intro c hc
      rw [hr, List.mem_append, List.mem_singleton] at hc
      rcases hc with hc | rfl
      · simp [hgone c hc]
      · exact hk
    · simp [hnoted]

theorem request_supervised {works : Prop} (h : Ticketed cfg s) (hi : i < cfg.count)
    (hstep : (s.slots i).step cfg i s.view a = some r)
    (move : Slot.Move cfg i s.view (s.slots i) a r.1 r.2) :
    Request.Move serde k works (k ∈ s.drops cfg (.supervise i a))
      (s.expires (.supervise i a) = some k) (s.request k) ((s.supervise i r).request k) := by
  obtain ⟨slot', commands⟩ := r
  have hdrops (hdiscard : .discard (s.slots i).inbox ∈ commands)
      (hk : k ∈ (s.slots i).inbox.map DispatchRequest.streamTx) :
      k ∈ s.drops cfg (.supervise i a) := by
    rw [State.drops, hstep]
    exact List.mem_flatMap.mpr ⟨_, hdiscard, hk⟩
  cases move with
  | took _ _ _ _ =>
      exact .of_noted (by simp [Command.gone]) rfl rfl (by simp [Event.isElapsed])
  | @settled tx _ w worker result hphase hworker hw hresult =>
      apply Request.Move.of_noted (by simp [Command.gone]) rfl rfl
      intro htx helapsed
      rcases hresult with ⟨r, _, rfl⟩ | ⟨hpending, htime, rfl⟩
      · cases helapsed
      · cases htx
        exact State.expires_of_pending hphase hworker hw hpending htime
  | @execute req since w _ worker kept hphase hworker hw hcall =>
      by_cases hk : k = req.streamTx
      · subst hk
        have hpos : 0 < Pool.tally req.streamTx (s.slots i).requests := by
          simp [Slot.requests, Phase.requests, hphase]
        have howner := (h.held _ (State.tally_pos_of_slot hi hpos)).2.1
        have hkept : kept = false → req.streamTx ∈ s.drops cfg (.supervise i .execute) := by
          rintro rfl
          rw [State.drops, hstep]
          simp [Command.drops]
        refine .of_request (.executed i w kept howner hkept) ?_
        simp [State.request, State.supervise, State.perform, State.story, Event.tx?]
      · apply Request.Move.of_aside
        · simp [Command.gone, hk]
        · simpa [Command.noted, Event.tx?] using Ne.symm hk
  | spawnPanicked _ | unreachable _ _ _ =>
      exact .of_stopped h hi [] rfl (by simp) rfl (hdrops (by simp))
  | bootPanicked _ _ | exited _ _ | terminatePanicked _ _ =>
      exact .of_stopped h hi [_] rfl (by simp [Command.gone]) rfl (hdrops (by simp))
  | executePanicked _ _ _ =>
      exact .of_stopped h hi [_, _] rfl (by simp [Command.gone]) rfl (hdrops (by simp))
  | _ =>
      apply Request.Move.of_aside
      · simp [Command.gone]
      · simp [Command.noted, Event.tx?]

end Supervisors

section Families

variable {k : Nat}

/-- What `step_request` says of one step and one request. -/
abbrev State.Follows (serde : SerdeJson) (cfg : WorkersConfig) (s : State R) (a : Action R)
    (t : State R) (k : Nat) : Prop :=
  Request.Move serde k (a.isWork = true) (k ∈ s.drops cfg a) (s.expires a = some k)
    (s.request k) (t.request k)

theorem request_invoked (h : Ticketed cfg s) {inv : Invocation}
    (move : Move serde cfg s (.invoke inv) t) : s.Follows serde cfg (.invoke inv) t k := by
  cases move with
  | @refused _ e hargs =>
      by_cases hk : k = s.callCount
      · obtain ⟨hcall, hstream, _⟩ := h.fresh k hk.ge
        refine .of_request (.refused e hcall) ?_
        simp [State.request, State.story, ← hk, hstream, Stream.unopened, Event.tx?,
          Except.isOk, Except.toBool]
      · apply Request.Move.of_same
        · simp [hk]
        · simp [hk]
        · simpa [State.story, Event.tx?] using Ne.symm hk
  | @opened _ kind req _ _ htx _ _ =>
      by_cases hk : k = s.callCount
      · obtain ⟨hcall, _, hstory⟩ := h.fresh k hk.ge
        refine .of_request (.opened kind req hcall hstory) ?_
        simp [State.request, State.story, ← hk]
      · apply Request.Move.of_same
        · simp [hk]
        · simp [hk]
        · rfl

theorem request_submitted (h : Ticketed cfg s) {j : Nat}
    (move : Move serde cfg s (.submit j) t) : s.Follows serde cfg (.submit j) t k := by
  cases move with
  | @poolGone _ kind req hcall hmain =>
      have htx := h.sending j kind req hcall
      by_cases hk : k = j
      · subst hk
        refine .of_request (.poolGone hcall) ?_
        simp [State.request, State.story, htx, Event.tx?, Except.isOk, Except.toBool]
      · apply Request.Move.of_same
        · simp [hk]
        · simp [hk, htx]
        · simpa [State.story, Event.tx?] using Ne.symm hk
  | submitted hcall _ =>
      by_cases hk : k = j
      · subst hk
        refine .of_request (.submitted hcall) ?_
        simp [State.request, State.story]
      · apply Request.Move.of_same
        · simp [hk]
        · rfl
        · rfl

/-- A caller receives a chunk, comes to its result, or finds the channel closed. -/
theorem request_received {j : Nat} (move : Move serde cfg s (.receive j) t) :
    s.Follows serde cfg (.receive j) t k := by
  cases move with
  | collected hcall hbuffer htake =>
      by_cases hk : k = j
      · subst hk
        refine .of_request (.collected hcall hbuffer htake) ?_
        simp [State.request, State.story]
      · apply Request.Move.of_same
        · simp [hk]
        · simp [hk]
        · rfl
  | judged hcall hbuffer htake =>
      by_cases hk : k = j
      · subst hk
        refine .of_request (.judged hcall hbuffer htake) ?_
        simp [State.request, State.story, Event.tx?]
      · apply Request.Move.of_same
        · simp [hk]
        · simp [hk]
        · simpa [State.story, Event.tx?] using Ne.symm hk
  | exhausted hcall hbuffer hclosed =>
      by_cases hk : k = j
      · subst hk
        refine .of_request (.exhausted hcall hbuffer hclosed) ?_
        simp [State.request, State.story, Event.tx?]
      · apply Request.Move.of_same
        · simp [hk]
        · simp [hk]
        · simpa [State.story, Event.tx?] using Ne.symm hk
  | streamed hcall hbuffer =>
      by_cases hk : k = j
      · subst hk
        refine .of_request (.streamed hcall hbuffer) ?_
        simp [State.request, State.story]
      · apply Request.Move.of_same
        · rfl
        · simp [hk]
        · rfl

theorem request_cancelled (h : Ticketed cfg s) {j : Nat}
    (move : Move serde cfg s (.cancel j) t) : s.Follows serde cfg (.cancel j) t k := by
  cases move with
  | @withdrawn _ kind req hcall =>
      have htx := h.sending j kind req hcall
      by_cases hk : k = j
      · subst hk
        refine .of_request (.withdrawn hcall) ?_
        simp [State.request, State.story, htx]
      · apply Request.Move.of_same
        · simp [hk]
        · simp [hk, htx]
        · rfl
  | cancelled hcall =>
      by_cases hk : k = j
      · subst hk
        refine .of_request (.cancelled hcall) ?_
        simp [State.request, State.story]
      · apply Request.Move.of_same
        · simp [hk]
        · simp [hk]
        · rfl

/-- `pool_main` passes the request on, or gives it up with every inbox closed. -/
theorem request_forwarded (h : Ticketed cfg s) (move : Move serde cfg s .mainForward t) :
    s.Follows serde cfg .mainForward t k := by
  cases move with
  | skipped _ _ _ | buried _ _ _ _ => exact .of_same rfl rfl rfl
  | @delivered req attempt hmain _ _ _ _ =>
      by_cases hk : req.streamTx = k
      · refine .of_request (.passed (.delivered ((s.next + attempt) % cfg.count) req.streamTx)
          rfl (by simp [Event.isElapsed])) ?_
        simp [State.request, State.story, Event.tx?, hk]
      · apply Request.Move.of_same
        · rfl
        · rfl
        · simpa [State.story, Event.tx?] using hk
  | @abandoned req attempt hmain hattempt =>
      by_cases hk : k = req.streamTx
      · have hpos : 0 < s.tally cfg k := by
          simp only [State.tally, hmain, MainPhase.requests, tally_cons, tally_nil, ← hk,
            if_true]
          omega
        have hdrops : k ∈ s.drops cfg .mainForward := by
          simp [State.drops, hmain, Nat.not_lt.mpr hattempt, hk]
        refine .of_request (.discarded (h.held k hpos).2.1 hdrops) ?_
        simp [State.request, State.story, hk]
      · apply Request.Move.of_same
        · rfl
        · simp [hk]
        · rfl

theorem request_worked {w : Nat} {a : R.Act} (move : Move serde cfg s (.work w a) t) :
    s.Follows serde cfg (.work w a) t k := by
  cases move with
  | worked _ _ | pushLost _ _ _ _ _ => exact .of_same rfl rfl rfl
  | @pushed _ _ _ _ tx c _ _ howner hsender hreceiver _ =>
      by_cases hk : k = tx
      · subst hk
        refine .of_request (.pushed w c howner hsender hreceiver rfl) ?_
        simp [State.request, State.story, Event.tx?]
      · apply Request.Move.of_same
        · rfl
        · simp [hk]
        · simpa [State.story, Event.tx?] using Ne.symm hk
  | @closed _ _ worker worker' tx hw hact howner hsender =>
      by_cases hk : k = tx
      · subst hk
        have hdrops : k ∈ s.drops cfg (.work w a) := by
          simp [State.drops, hw, hact]
        refine .of_request (.closed w howner hsender hdrops rfl) ?_
        simp [State.request, State.story]
      · apply Request.Move.of_same
        · rfl
        · simp [hk]
        · rfl

end Families

/-- Every step of the pool is a move of every request. -/
theorem step_request (h : Ticketed cfg s) {a : Action R} (move : Move serde cfg s a t)
    (k : Nat) :
    Request.Move serde k (a.isWork = true) (k ∈ s.drops cfg a) (s.expires a = some k)
      (s.request k) (t.request k) := by
  cases a with
  | invoke inv => exact request_invoked h move
  | submit j => exact request_submitted h move
  | receive j => exact request_received move
  | cancel j => exact request_cancelled h move
  | mainForward => exact request_forwarded h move
  | work w a => exact request_worked move
  | supervise i a =>
      cases move with
      | supervised hi hstep move => exact request_supervised h hi hstep move
  | reload | dropPool | tick d | mainRecv | mainJoin =>
      cases move <;> exact .of_same rfl rfl rfl

end FolkCore.Pool
