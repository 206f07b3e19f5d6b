import FolkCore.Pool.Posts
import FolkCore.Pool.Requests

/-!
# The requests and the chunks that the pool holds

A property that every new request has holds of the requests in all places, since the
pool passes requests on as they are (`Everywhere`). A chunk in a stream was pushed on it
by a worker.
-/

namespace FolkCore.Pool

open Function

variable {R : Runtime} {serde : SerdeJson} {cfg : WorkersConfig} {s t : State R}
  {good : DispatchRequest → Prop}

/-- Every request with the pool has the property. -/
structure Everywhere (good : DispatchRequest → Prop) (s : State R) : Prop where
  calls : ∀ k, ∀ req ∈ (s.calls k).requests, good req
  channel : ∀ req ∈ s.requestCh, good req
  main : ∀ req ∈ s.main.requests, good req
  slots : ∀ i, ∀ req ∈ (s.slots i).requests, good req

theorem Everywhere.init (good : DispatchRequest → Prop) (R : Runtime) (cfg : WorkersConfig) :
    Everywhere good (init R cfg) where
  calls k req h := by cases h
  channel req h := by cases h
  main req h := by cases h
  slots i req h := by cases h

/-- A supervisor adds no request. -/
theorem Slot.Move.mem_requests {i : Nat} {v : View R} {slot slot' : Slot}
    {a : SupervisorAction R} {commands : List (Command R)}
    (move : Slot.Move cfg i v slot a slot' commands) {req : DispatchRequest}
    (hreq : req ∈ slot'.requests) : req ∈ slot.requests := by
  cases move with
  | took hphase _ _ hinbox =>
      simpa [Slot.requests, Phase.requests, hphase, hinbox, or_comm] using hreq
  | spawnPanicked | bootPanicked | unreachable | executePanicked | exited
  | terminatePanicked => cases hreq
  | boot hphase | listen hphase | spawned hphase | spawnFailed hphase | booted hphase
  | bootFailed hphase | wake hphase | reloaded hphase | caughtUp hphase | noReload hphase
  | reloadClosed hphase | inboxEmpty hphase | inboxClosed hphase | execute hphase
  | settled hphase | recycled hphase | kept hphase | bootAbandoned hphase | replaced hphase =>
      simp only [Slot.requests, Phase.requests, List.append_nil] at hreq
      exact List.mem_append_left _ hreq

/-- A step in which at most a caller changes, who has no request to send. -/
theorem Everywhere.caller (h : Everywhere good s) {k : Nat} {stage : CallStage}
    (hstage : stage.requests = []) (hcalls : t.calls = update s.calls k stage)
    (hch : t.requestCh = s.requestCh) (hmain : t.main = s.main) (hslots : t.slots = s.slots) :
    Everywhere good t where
  calls j req hreq := by
    rw [hcalls] at hreq
    by_cases hj : j = k
    · rw [hj, update_self, hstage] at hreq
      cases hreq
    · rw [update_of_ne hj] at hreq
      exact h.calls j req hreq
  channel := hch ▸ h.channel
  main := hmain ▸ h.main
  slots := hslots ▸ h.slots

theorem Everywhere.congr (h : Everywhere good s) (hcalls : t.calls = s.calls)
    (hch : t.requestCh = s.requestCh) (hmain : t.main.requests = s.main.requests)
    (hslots : t.slots = s.slots) : Everywhere good t where
  calls := hcalls ▸ h.calls
  channel := hch ▸ h.channel
  main := hmain ▸ h.main
  slots := hslots ▸ h.slots

theorem Everywhere.delivered (h : Everywhere good s) {req : DispatchRequest}
    {attempt chosen : Nat} (hmain : s.main = .forwarding req attempt) :
    Everywhere good (deliver s chosen req) where
  calls := h.calls
  channel := h.channel
  main _ hmem := by cases hmem
  slots i req' hreq := by
    by_cases hi : i = chosen
    · subst hi
      simp only [deliver, State.note, update_self, Slot.requests, List.mem_append,
        List.mem_singleton] at hreq
      rcases hreq with (hold | rfl) | hphase
      · exact h.slots i req' (List.mem_append_left _ hold)
      · exact h.main req' (by simp [hmain, MainPhase.requests])
      · exact h.slots i req' (List.mem_append_right _ hphase)
    · apply h.slots i req'
      simpa [hi] using hreq

/-- A property that every new request has holds of all requests. -/
theorem Everywhere.step (h : Everywhere good s) {a : Action R}
    (hnew : ∀ (inv : Invocation) (kind : CallKind) (req : DispatchRequest), a = .invoke inv →
      inv.arguments serde = .ok (kind, req.method, req.payload, req.requestBody) →
      req.streamTx = s.callCount → req.requestId = s.callCount → good req)
    (move : Move serde cfg s a t) : Everywhere good t := by
  cases move with
  | refused | poolGone | judged | exhausted | collected | withdrawn | cancelled =>
      exact h.caller rfl rfl rfl rfl rfl
  | @opened inv kind req _ _ htx hid hargs =>
      refine ⟨fun j req' hreq => ?_, h.channel, h.main, h.slots⟩
      by_cases hj : j = s.callCount
      · have heq : req' = req := by simpa [hj] using hreq
        exact heq ▸ hnew inv kind req rfl hargs htx hid
      · apply h.calls j req'
        simpa [hj] using hreq
  | @submitted k kind req hcall _ =>
      have hlisten : kind.listen.requests = [] := by cases kind <;> rfl
      have hsent : good req := h.calls k req (by simp [hcall])
      refine ⟨(h.caller (t := s.setCall k kind.listen) hlisten rfl rfl rfl rfl).calls, ?_,
        h.main, h.slots⟩
      intro req' hreq
      rcases List.mem_append.mp hreq with hold | hlast
      · exact h.channel req' hold
      · exact List.mem_singleton.mp hlast ▸ hsent
  | mainTook _ hch =>
      refine ⟨h.calls, fun req hreq => ?_, fun req hreq => ?_, h.slots⟩
      · exact h.channel req (hch ▸ List.mem_cons_of_mem _ hreq)
      · apply h.channel req
        rw [hch, List.mem_singleton.mp hreq]
        exact List.mem_cons_self
  | mainLeft hmain | skipped hmain | buried hmain | joined hmain =>
      exact h.congr rfl rfl (by rw [hmain]; rfl) rfl
  | delivered hmain => exact h.delivered hmain
  | abandoned => exact ⟨h.calls, h.channel, nofun, h.slots⟩
  | @supervised i _ r _ _ move =>
      refine ⟨by simpa using h.calls, by simpa using h.channel, by simpa using h.main, ?_⟩
      intro j req hreq
      rw [s.supervise_slots] at hreq
      by_cases hj : j = i
      · subst hj
        rw [update_self] at hreq
        exact h.slots j req (move.mem_requests hreq)
      · rw [update_of_ne hj] at hreq
        exact h.slots j req hreq
  | _ => exact h.congr rfl rfl rfl rfl

/-- A chunk in a stream was pushed on it. -/
theorem Request.Move.buffered {k : Nat} {works drops expires : Prop} {r r' : Request}
    (move : Request.Move serde k works drops expires r r')
    (h : ∀ c ∈ r.stream.buffer, ∃ w, .pushed w k c ∈ r.story) :
    ∀ c ∈ r'.stream.buffer, ∃ w, .pushed w k c ∈ r'.story := by
  have more (events : List Event) (c : ResponseChunk) (hc : c ∈ r.stream.buffer) :
      ∃ w, .pushed w k c ∈ r.story ++ events := by
    obtain ⟨w, hw⟩ := h c hc
    exact ⟨w, List.mem_append_left events hw⟩
  cases move with
  | same | submitted | discarded | closed => exact h
  | passed e | refused e | executed => exact more _
  | opened | poolGone | withdrawn | judged | exhausted | cancelled => exact nofun
  | collected _ hbuffer | streamed _ hbuffer =>
      intro c hc
      exact h c (hbuffer ▸ List.mem_cons_of_mem _ hc)
  | pushed w c =>
      intro c' hc'
      rcases List.mem_append.mp hc' with hold | hnew
      · exact more _ c' hold
      · rw [List.mem_singleton.mp hnew]
        exact ⟨w, List.mem_append_right _ List.mem_cons_self⟩

theorem buffered_step (hticketed : Ticketed cfg s) {a : Action R} (move : Move serde cfg s a t)
    (h : ∀ k, ∀ c ∈ (s.streams k).buffer, ∃ w, .pushed w k c ∈ s.history) (k : Nat)
    {c : ResponseChunk} (hc : c ∈ (t.streams k).buffer) : ∃ w, .pushed w k c ∈ t.history := by
  have hbefore : ∀ c ∈ (s.request k).stream.buffer, ∃ w, .pushed w k c ∈ (s.request k).story := by
    intro c hc
    obtain ⟨w, hw⟩ := h k c hc
    exact ⟨w, (State.mem_story rfl).mpr hw⟩
  obtain ⟨w, hw⟩ := (step_request hticketed move k).buffered hbefore c hc
  exact ⟨w, (State.mem_story rfl).mp hw⟩

/-- A push is noted by the step of the worker that makes it. -/
theorem Move.pushes {a : Action R} (move : Move serde cfg s a t) {w : Nat} {tx : StreamTx}
    {c : ResponseChunk} (hmem : .pushed w tx c ∈ t.history) :
    .pushed w tx c ∈ s.history ∨ ∃ act h h', a = .work w act ∧ s.workers w = some h ∧
      R.act h act = some (h', some (.push tx c)) := by
  cases move with
  | refused | poolGone | judged | exhausted | delivered => exact .inl (by simpa using hmem)
  | @pushed w' act h h' tx' c' hw hact =>
      rcases List.mem_append.mp hmem with hold | hnew
      · exact .inl hold
      · cases List.mem_singleton.mp hnew
        exact .inr ⟨act, h, h', rfl, hw, hact⟩
  | supervised _ _ move =>
      rw [State.supervise_history, List.mem_append] at hmem
      rcases hmem with hold | hnew
      · exact .inl hold
      · obtain ⟨_, hhandle, _⟩ := move.note_handle hnew
        cases hhandle
  | _ => exact .inl hmem

end FolkCore.Pool
