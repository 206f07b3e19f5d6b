import FolkCore.Pool.Replies

/-!
# What a caller reads

The chunks that workers push on the stream of a request are its `pushes`, in the order
of the pushes. A caller takes them one at a time from the buffer, and `collect_stream`
folds them as they come. `Heard` says, stage by stage, that nothing is lost, repeated or
reordered on the way: what has been taken and what is buffered make up the pushes. `Suits`
says that a call is served as the method of `Executor` that was called asks for it.
-/

namespace FolkCore.Pool

open Function Lib

variable {R : Runtime} {serde : SerdeJson} {cfg : WorkersConfig} {s t : State R} {k : Nat}

/-- The chunk that an event pushes. -/
def Event.chunk? : Event → Option ResponseChunk
  | .pushed _ _ c => some c
  | _ => none

def Request.pushes (r : Request) : List ResponseChunk := r.story.filterMap Event.chunk?

/-- The chunks pushed on the stream of a request, in order. -/
def State.pushes (s : State R) (k : Nat) : List ResponseChunk :=
  (s.story k).filterMap Event.chunk?

/-- `collect_stream` has read a part of the pushes, and the buffer holds the rest. -/
def Gathers (acc : Collected) (pushes buffer : List ResponseChunk) : Prop :=
  ∃ read, pushes = read ++ buffer ∧
    ∀ rest, Collected.empty.drain (read ++ rest) = acc.drain rest

theorem Gathers.start : Gathers .empty [] [] := ⟨[], rfl, fun _ => rfl⟩

/-- The loop goes on with the next chunk of the buffer. -/
theorem Gathers.take {acc acc' : Collected} {c : ResponseChunk}
    {pushes rest : List ResponseChunk} (h : Gathers acc pushes (c :: rest))
    (htake : acc.take c = .inl acc') : Gathers acc' pushes rest := by
  obtain ⟨read, rfl, hread⟩ := h
  refine ⟨read ++ [c], by simp, ?_⟩
  intro later
  calc Collected.empty.drain ((read ++ [c]) ++ later)
      = Collected.empty.drain (read ++ c :: later) := by rw [List.append_assoc]; rfl
    _ = acc.drain (c :: later) := hread (c :: later)
    _ = acc'.drain later := by rw [Collected.drain, htake]

theorem Gathers.push {acc : Collected} {pushes buffer : List ResponseChunk}
    (h : Gathers acc pushes buffer) (c : ResponseChunk) :
    Gathers acc (pushes ++ [c]) (buffer ++ [c]) := by
  obtain ⟨read, rfl, hread⟩ := h
  exact ⟨read, List.append_assoc read buffer [c], hread⟩

/-- The loop on the rest of the buffer is the loop on all pushes. -/
theorem Gathers.collect {acc : Collected} {pushes buffer : List ResponseChunk}
    (h : Gathers acc pushes buffer) : acc.drain buffer = collectStream pushes := by
  obtain ⟨read, rfl, hread⟩ := h
  exact (hread buffer).symm

/-- The receiving end is gone, with what it had not read. -/
def Stream.Deaf (st : Stream) : Prop := st.receiverOpen = false ∧ st.buffer = []

/-- The invariant of one request. -/
def Request.Heard (r : Request) : Prop :=
  match r.call with
  | .unborn => r.stream.Deaf ∧ r.pushes = []
  | .sending _ _ => r.stream.buffer = [] ∧ r.pushes = []
  | .collecting _ acc => Gathers acc r.pushes r.stream.buffer
  | .streaming => r.stream.buffer <:+ r.pushes
  | .returned _ => r.stream.Deaf
  | .cancelled => r.stream.Deaf

section Requests

variable {r r' : Request} {works drops expires : Prop}

/-- An event that pushes nothing. -/
theorem pushes_silent {e : Event} {call : CallStage} {stream : Stream}
    (he : e.chunk? = none) : Request.pushes ⟨call, stream, r.story ++ [e]⟩ = r.pushes := by
  simp [Request.pushes, he]

/-- A step that leaves the caller, its end of the stream and the pushes alone. -/
theorem Request.Heard.aside (h : r.Heard) (hcall : r'.call = r.call)
    (hreceiver : r'.stream.receiverOpen = r.stream.receiverOpen)
    (hbuffer : r'.stream.buffer = r.stream.buffer) (hpushes : r'.pushes = r.pushes) :
    r'.Heard := by
  unfold Request.Heard Stream.Deaf at h ⊢
  rw [hcall, hreceiver, hbuffer, hpushes]
  exact h

theorem Request.Heard.step (h : r.Heard)
    (hheld : ∀ kind req, r.call = .sending kind req → r.stream.owner = none)
    (move : Request.Move serde k works drops expires r r') : r'.Heard := by
  cases move with
  | same => exact h
  | passed e he _ =>
      refine h.aside rfl rfl rfl (pushes_silent ?_)
      cases e with
      | pushed => cases he
      | _ => rfl
  | refused e hcall =>
      rw [Request.Heard, hcall] at h
      exact h.1
  | opened kind req _ hstory =>
      refine ⟨rfl, ?_⟩
      rw [Request.pushes, hstory]
      rfl
  | @submitted kind req hcall =>
      rw [Request.Heard, hcall] at h
      obtain ⟨hbuffer, hpushes⟩ := h
      have hpushes' : Request.pushes ⟨kind.listen, r.stream, r.story⟩ = [] := hpushes
      unfold Request.Heard
      cases kind with
      | streamed => exact ⟨[], by rw [hpushes', hbuffer]; rfl⟩
      | _ =>
          show Gathers .empty _ r.stream.buffer
          rw [hpushes', hbuffer]
          exact .start
  | poolGone hcall | withdrawn hcall | cancelled hcall | judged hcall | exhausted hcall =>
      exact ⟨rfl, rfl⟩
  | collected hcall hbuffer htake =>
      rw [Request.Heard, hcall, hbuffer] at h
      exact Gathers.take h htake
  | @streamed c rest hcall hbuffer =>
      rw [Request.Heard, hcall, hbuffer] at h
      show Request.Heard ⟨r.call, _, _⟩
      rw [hcall]
      exact (List.suffix_cons c rest).trans h
  | executed i w kept _ _ => exact h.aside rfl rfl rfl (pushes_silent rfl)
  | discarded _ _ | closed _ _ _ _ _ => exact h.aside rfl rfl rfl rfl
  | pushed w c howner hsender hreceiver _ =>
      have hpushes (call : CallStage) (stream : Stream) :
          Request.pushes ⟨call, stream, r.story ++ [.pushed w k c]⟩ = r.pushes ++ [c] := by
        simp [Request.pushes, Event.chunk?]
      unfold Request.Heard at h ⊢
      simp only [hpushes]
      -- a stage without a receiver refuses the push
      split at h
      · cases hreceiver.symm.trans h.1.1
      · next kind req hcall => cases howner.symm.trans (hheld kind req hcall)
      · exact Gathers.push h c
      · obtain ⟨read, hread⟩ := h
        exact ⟨read, by rw [← hread, List.append_assoc]⟩
      · cases hreceiver.symm.trans h.1
      · cases hreceiver.symm.trans h.1

/-- The buffer holds the last of the pushes. -/
theorem Request.Heard.buffer (h : r.Heard) : r.stream.buffer <:+ r.pushes := by
  unfold Request.Heard at h
  split at h
  · rw [h.1.2]
    exact List.nil_suffix
  · rw [h.1]
    exact List.nil_suffix
  · obtain ⟨read, hpushes, _⟩ := h
    exact ⟨read, hpushes.symm⟩
  · exact h
  · rw [h.2]
    exact List.nil_suffix
  · rw [h.2]
    exact List.nil_suffix

/-- Every chunk of the stream was pushed by the worker that was given its sender. -/
def Request.OneWriter (k : Nat) (r : Request) : Prop :=
  ∀ w c, .pushed w k c ∈ r.story → r.stream.owner = some w

theorem Request.OneWriter.step (h : r.OneWriter k)
    (move : Request.Move serde k works drops expires r r') : r'.OneWriter k := by
  have silent {e : Event} (he : e.chunk? = none) {stream : Stream} {call : CallStage}
      (howner : stream.owner = r.stream.owner) :
      Request.OneWriter k ⟨call, stream, r.story ++ [e]⟩ := by
    intro w c hc
    rw [howner]
    rcases List.mem_append.mp hc with hold | hnew
    · exact h w c hold
    · rw [← List.mem_singleton.mp hnew] at he
      cases he
  cases move with
  | passed e he _ =>
      refine silent ?_ rfl
      cases e with
      | pushed => cases he
      | _ => rfl
  | refused | poolGone | judged | exhausted => exact silent rfl rfl
  | opened kind req _ hstory =>
      intro w c hc
      rw [hstory] at hc
      cases hc
  | executed i w kept howner _ =>
      -- before the sender is given away nothing was pushed
      intro w' c hc
      have hold : .pushed w' k c ∈ r.story := by simpa using hc
      cases howner.symm.trans (h w' c hold)
  | pushed w c howner _ _ _ =>
      intro w' c' hc
      rcases List.mem_append.mp hc with hold | hnew
      · exact h w' c' hold
      · cases List.mem_singleton.mp hnew
        exact howner
  | _ => exact h

end Requests

theorem heard_of_reachable (h : Reachable (step serde cfg) (init R cfg) s) (k : Nat) :
    (s.request k).Heard ∧ (s.request k).OneWriter k := by
  have hall : Ticketed cfg s ∧ (s.request k).Heard ∧ (s.request k).OneWriter k := by
    apply h.invariant
      (fun s => Ticketed cfg s ∧ (s.request k).Heard ∧ (s.request k).OneWriter k)
    · exact ⟨Ticketed.init R cfg, ⟨⟨rfl, rfl⟩, rfl⟩, nofun⟩
    · rintro s a t ⟨hticketed, hheard, hone⟩ _ hstep
      have move := step_move hstep
      have hrequest := step_request hticketed move k
      refine ⟨hticketed.step move, hheard.step ?_ hrequest, hone.step hrequest⟩
      intro kind req (hcall : s.calls k = .sending kind req)
      have htx := hticketed.sending k kind req hcall
      refine (hticketed.held k ?_).2.1
      have hone : Pool.tally k (s.calls k).requests = 1 := by simp [hcall, htx]
      unfold State.tally
      omega
  exact hall.2

section Invocations

/-- The method of `Executor` that is called. -/
def Invocation.kind : Invocation → CallKind
  | .executeMethod _ _ => .method
  | .executeValue _ _ => .value
  | .executeValueTraced _ _ => .traced
  | .executeStreamed _ _ _ => .streamed

def Action.invocation? : Action R → Option Invocation
  | .invoke inv => some inv
  | _ => none

/-- The calls of a run, in the order in which they began: call `k` is the one at `k`. -/
def invocations (actions : List (Action R)) : List Invocation :=
  actions.filterMap Action.invocation?

/-- A call that its stream does not decide: no worker has pushed anything for it. -/
def CallError.early : CallError → Prop
  | .badPayload _ => True
  | .poolGone => True
  | _ => False

/-- What a call of this kind may return: an early error, or the answer that its kind makes
of the collected pushes. A streaming call collects nothing. -/
def Judges (serde : SerdeJson) (k : Nat) (kind : CallKind)
    (result : Except CallError CallReply) (pushes : List ResponseChunk) : Prop :=
  (∃ e : CallError, e.early ∧ result = .error e ∧ pushes = []) ∨
    kind ≠ .streamed ∧ result = kind.reply serde k (collectStream pushes)

/-- The call of a request is served as its kind asks for it. -/
def Request.Suits (serde : SerdeJson) (k : Nat) (kind : CallKind) (r : Request) : Prop :=
  match r.call with
  | .unborn => False
  | .sending kind' _ => kind' = kind
  | .collecting kind' _ => kind' = kind ∧ kind ≠ .streamed
  | .streaming => kind = .streamed
  | .returned result => Judges serde k kind result r.pushes
  | .cancelled => True

variable {kind : CallKind} {r r' : Request} {works drops expires : Prop}

/-- A step that leaves the caller and, once it has returned, the pushes alone. -/
theorem Request.Suits.aside (h : r.Suits serde k kind) (hcall : r'.call = r.call)
    (hpushes : (∃ result, r.call = .returned result) → r'.pushes = r.pushes) :
    r'.Suits serde k kind := by
  unfold Request.Suits at h ⊢
  rw [hcall]
  split
  all_goals simp_all

/-- Each step of a call that has begun keeps to its kind. -/
theorem Request.Suits.step (h : r.Suits serde k kind) (hheard : r.Heard)
    (move : Request.Move serde k works drops expires r r') : r'.Suits serde k kind := by
  cases move with
  | same => exact h
  | passed e he _ =>
      refine h.aside rfl fun _ => pushes_silent ?_
      cases e with
      | pushed => cases he
      | _ => rfl
  | refused e hcall | opened _ _ hcall =>
      rw [Request.Suits, hcall] at h
      exact h.elim
  | @submitted kind' req hcall =>
      rw [Request.Suits, hcall] at h
      obtain rfl := h
      cases kind' with
      | streamed => rfl
      | _ => exact ⟨rfl, by decide⟩
  | poolGone hcall =>
      rw [Request.Heard, hcall] at hheard
      refine .inl ⟨.poolGone, trivial, rfl, ?_⟩
      rw [pushes_silent rfl]
      exact hheard.2
  | withdrawn | cancelled => trivial
  | collected hcall =>
      rw [Request.Suits, hcall] at h
      exact h
  | @judged kind' acc c rest result hcall hbuffer htake =>
      rw [Request.Suits, hcall] at h
      obtain ⟨rfl, hkind⟩ := h
      rw [Request.Heard, hcall, hbuffer] at hheard
      have hresult : acc.drain (c :: rest) = result := by rw [Collected.drain, htake]
      refine .inr ⟨hkind, ?_⟩
      rw [pushes_silent rfl, ← Gathers.collect hheard, hresult]
  | @exhausted kind' acc hcall hbuffer hclosed =>
      rw [Request.Suits, hcall] at h
      obtain ⟨rfl, hkind⟩ := h
      rw [Request.Heard, hcall, hbuffer] at hheard
      refine .inr ⟨hkind, ?_⟩
      rw [pushes_silent rfl, ← Gathers.collect hheard]
      rfl
  | streamed hcall => exact h.aside rfl fun _ => rfl
  | executed => exact h.aside rfl fun _ => pushes_silent rfl
  | discarded | closed => exact h.aside rfl fun _ => rfl
  | pushed w c howner hsender hreceiver _ =>
      refine h.aside rfl fun hreturned => ?_
      obtain ⟨result, hcall⟩ := hreturned
      rw [Request.Heard, hcall] at hheard
      cases hreceiver.symm.trans hheard.1

theorem arguments_error {inv : Invocation} {e : CallError}
    (h : inv.arguments serde = .error e) : e.early := by
  cases inv with
  | executeMethod method payload =>
      simp only [Invocation.arguments] at h
      split at h
      · cases h
        trivial
      · cases h
  | _ => cases h

theorem arguments_kind {inv : Invocation} {arguments : String × Value × Option RequestBody}
    (h : inv.arguments serde = .ok (kind, arguments)) : inv.kind = kind := by
  cases inv with
  | executeMethod method payload =>
      simp only [Invocation.arguments] at h
      split at h
      · cases h
      · cases h
        rfl
  | _ =>
      cases h
      rfl

/-- A call begins under the next number, as its method asks for it. -/
theorem Move.begins (h : Ticketed cfg s) {inv : Invocation}
    (move : Move serde cfg s (.invoke inv) t) :
    t.callCount = s.callCount + 1 ∧ (t.request s.callCount).Suits serde s.callCount inv.kind := by
  have hstory := (h.fresh s.callCount le_rfl).2.2
  cases move with
  | @refused _ e hargs =>
      refine ⟨rfl, ?_⟩
      have hpushes : Request.pushes (State.request (({ s with
          callCount := s.callCount + 1 } : State R).answer s.callCount (.error e))
          s.callCount) = [] := by
        show ((s.history ++ [_]).filter fun e : Event => e.tx? = some s.callCount).filterMap
          Event.chunk? = []
        rw [State.story] at hstory
        rw [List.filter_append, hstory]
        simp [Event.chunk?, Event.tx?]
      have hjudges : Judges serde s.callCount inv.kind (.error e) [] :=
        .inl ⟨e, arguments_error hargs, rfl, rfl⟩
      simpa [Request.Suits, State.request] using hpushes ▸ hjudges
  | opened _ _ _ _ hargs =>
      refine ⟨rfl, ?_⟩
      simp [Request.Suits, State.request, arguments_kind hargs]

/-- No other step begins a call. -/
theorem Move.callCount_of_none {a : Action R} (move : Move serde cfg s a t)
    (ha : a.invocation? = none) : t.callCount = s.callCount := by
  cases move with
  | refused | opened => cases ha
  | supervised => exact State.supervise_callCount _ _ _
  | _ => rfl

/-- The invariant of a run: its calls are numbered in order, and each suits its kind. -/
structure Recorded (serde : SerdeJson) (calls : List Invocation) (s : State R) : Prop where
  count : calls.length = s.callCount
  suits : ∀ k inv, calls[k]? = some inv → (s.request k).Suits serde k inv.kind

theorem Recorded.step {calls : List Invocation} (h : Recorded serde calls s)
    (hticketed : Ticketed cfg s) (hheard : ∀ k, (s.request k).Heard) {a : Action R}
    (move : Move serde cfg s a t) : Recorded serde (calls ++ a.invocation?.toList) t := by
  have hold {k : Nat} {inv : Invocation} (hk : calls[k]? = some inv) :
      (t.request k).Suits serde k inv.kind :=
    (h.suits k inv hk).step (hheard k) (step_request hticketed move k)
  cases ha : a.invocation? with
  | none =>
      rw [Option.toList_none, List.append_nil]
      exact ⟨h.count.trans (move.callCount_of_none ha).symm, fun k inv => hold⟩
  | some inv =>
      obtain rfl : a = .invoke inv := by
        cases a with
        | invoke inv' => rw [Option.some.inj ha]
        | _ => cases ha
      obtain ⟨hcount, hsuits⟩ := move.begins hticketed
      refine ⟨by simp [hcount, h.count], fun k inv' hk => ?_⟩
      by_cases hlt : k < calls.length
      · rw [Option.toList_some, List.getElem?_append_left hlt] at hk
        exact hold hk
      · rw [Option.toList_some, List.getElem?_append_right (Nat.le_of_not_lt hlt),
          List.getElem?_singleton] at hk
        split at hk
        · next hzero =>
            obtain rfl : k = s.callCount := by have := h.count; omega
            obtain rfl := Option.some.inj hk
            exact hsuits
        · cases hk

end Invocations

theorem recorded_of_runs {actions : List (Action R)}
    (hrun : runs (step serde cfg) (init R cfg) actions = some s) :
    Recorded serde (invocations actions) s := by
  induction actions using List.reverseRecOn generalizing s with
  | nil =>
      cases hrun
      exact ⟨rfl, nofun⟩
  | append_singleton actions a ih =>
      rw [runs_append, Option.bind_eq_some_iff] at hrun
      obtain ⟨p, hp, hlast⟩ := hrun
      have hstep : step serde cfg p a = some s := by simpa using hlast
      have hreach := reachable_of_runs hp
      have hrecorded := (ih hp).step (ticketed_of_reachable hreach)
        (fun k => (heard_of_reachable hreach k).1) (step_move hstep)
      have hcalls : invocations (actions ++ [a]) =
          invocations actions ++ a.invocation?.toList := by
        cases ha : a.invocation? <;> simp [invocations, ha]
      rwa [hcalls]

/-- In every run one worker at most pushes on a stream, and the stream holds the last of the
chunks pushed on it. A call that returned has failed early, with nothing pushed, or it
returned what the method that was called makes of `collect_stream` of all pushes; a call of
`execute_streamed` collects nothing, and its stream is left to its receiver. -/
theorem reply_reads_pushes (R : Runtime) (serde : SerdeJson) (cfg : WorkersConfig)
    (actions : List (Action R)) (s : State R)
    (hrun : runs (step serde cfg) (init R cfg) actions = some s) (k : Nat) :
    (∃ w, ∀ w' c, .pushed w' k c ∈ s.history → w' = w) ∧
    (s.streams k).buffer <:+ s.pushes k ∧
    (s.calls k ≠ .unborn → ∃ inv, (invocations actions)[k]? = some inv ∧
      (∀ result, s.calls k = .returned result →
        (∃ e : CallError, e.early ∧ result = .error e ∧ s.pushes k = []) ∨
          inv.kind ≠ .streamed ∧
            result = inv.kind.reply serde k (collectStream (s.pushes k))) ∧
      (s.calls k = .streaming → inv.kind = .streamed) ∧
      ∀ kind acc, s.calls k = .collecting kind acc →
        kind = inv.kind ∧ inv.kind ≠ .streamed) := by
  have hreach := reachable_of_runs hrun
  obtain ⟨hheard, hone⟩ := heard_of_reachable hreach k
  refine ⟨?_, hheard.buffer, fun hborn => ?_⟩
  · refine ⟨(s.streams k).owner.getD 0, ?_⟩
    intro w' c hc
    have howner : (s.streams k).owner = some w' := hone w' c ((State.mem_story rfl).mpr hc)
    rw [howner, Option.getD_some]
  have hrecorded := recorded_of_runs hrun
  have hk : k < (invocations actions).length := by
    rw [hrecorded.count]
    exact (ticketed_of_reachable hreach).known hborn
  have hinv : (invocations actions)[k]? = some (invocations actions)[k] :=
    List.getElem?_eq_getElem hk
  have hsuits := hrecorded.suits k _ hinv
  have hcall : (s.request k).call = s.calls k := rfl
  rw [Request.Suits, hcall] at hsuits
  refine ⟨_, hinv, fun result hresult => ?_, fun hstreaming => ?_, fun kind acc hcollecting => ?_⟩
  · rw [hresult] at hsuits
    exact hsuits
  · rw [hstreaming] at hsuits
    exact hsuits
  · rw [hcollecting] at hsuits
    exact hsuits

/-- The answer of a replying worker, read off its pushes by the method that was called. -/
theorem replying_call_reads_pushes :
    ∃ actions s, runs (step .ofNull .single) (init .replying .single) actions = some s ∧
      ∃ reply, s.calls 0 = .returned (.ok reply) ∧
        ((∃ e : CallError, e.early ∧ Except.ok reply = Except.error e ∧ s.pushes 0 = []) ∨
          CallKind.value ≠ .streamed ∧
            .ok reply = CallKind.value.reply .ofNull 0 (collectStream (s.pushes 0))) := by
  have hrun : (runs (step .ofNull .single) (init .replying .single)
      (oneCall .replying [] ++ [.work 0 (), .work 0 (), .work 0 (), .receive 0,
        .receive 0])).any (fun s => (s.calls 0).succeeded) = true := by decide
  obtain ⟨s, hs, htest⟩ := (Option.any_eq_true _ _).mp hrun
  obtain ⟨reply, hreply⟩ := CallStage.exists_of_succeeded htest
  obtain ⟨inv, hinv, hreturned, _⟩ :=
    (reply_reads_pushes .replying .ofNull .single _ s hs 0).2.2 (by simp [hreply])
  obtain rfl : .executeValue "dispatch" .null = inv := Option.some.inj hinv
  exact ⟨_, s, hs, reply, hreply, hreturned (.ok reply) hreply⟩

end FolkCore.Pool
