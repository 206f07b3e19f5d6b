import FolkCore.Pool.Dispatch
import FolkCore.Pool.Permits

/-!
# When a send of the pool waits

A request holds its permit on its way through the channels, so no channel ever holds more
requests than there are permits. With few workers the sends of `pool_main` and of the
callers find room in every reachable state: no slot can hold up `pool_main`.
-/

namespace FolkCore.Pool

open Function Finset Lib

variable {R : Runtime} {serde : SerdeJson} {cfg : WorkersConfig} {s t : State R}
  {req : DispatchRequest} {attempt : Nat}

theorem metered_of_reachable (h : Reachable (step serde cfg) (init R cfg) s) : Metered cfg s :=
  h.invariant (Metered cfg) (.init R cfg) fun _ _ _ hs _ hstep => hs.step (step_move hstep)

/-- The request in the hands of `pool_main` holds a permit that no inbox holds. -/
theorem Metered.inbox_lt (h : Metered cfg s) (hmain : s.main = .forwarding req attempt) {i : Nat}
    (hi : i < cfg.count) : (s.slots i).inbox.length < cfg.count := by
  have hslot : (s.slots i).inbox.length ≤ ∑ j ∈ range cfg.count, (s.slots j).inUse :=
    calc (s.slots i).inbox.length ≤ (s.slots i).inUse := Nat.le_add_right _ _
      _ ≤ ∑ j ∈ range cfg.count, (s.slots j).inUse :=
          single_le_sum (f := fun j => (s.slots j).inUse) (fun _ _ => Nat.zero_le _)
            (mem_range.mpr hi)
  have hsum := h.sum
  simp only [State.inUse, hmain, MainPhase.requests, List.length_singleton] at hsum
  omega

/-- A call that has not sent its request holds a permit that the channel does not hold. -/
theorem Metered.requestCh_lt (h : Metered cfg s) {k : Nat} {kind : CallKind}
    (hcall : s.calls k = .sending kind req) : s.requestCh.length < cfg.count := by
  have hk : k < s.callCount := h.ticketed.known (by simp [hcall])
  have hone : 1 ≤ ∑ j ∈ range s.callCount, (s.calls j).requests.length := by
    calc 1 = (s.calls k).requests.length := by rw [hcall]; rfl
      _ ≤ ∑ j ∈ range s.callCount, (s.calls j).requests.length :=
          single_le_sum (f := fun j => (s.calls j).requests.length) (fun _ _ => Nat.zero_le _)
            (mem_range.mpr hk)
  have hsum := h.sum
  unfold State.inUse at hsum
  omega

/-- Every slot is met within `count` attempts. -/
theorem Dispatched.all_closed (h : Dispatched cfg s) (hmain : s.main = .forwarding req attempt)
    (hattempt : cfg.count ≤ attempt) {i : Nat} (hi : i < cfg.count) : ¬s.Open i := by
  have hturn : turn cfg.count s.next i < attempt :=
    (turn_lt hi).trans_le hattempt
  have hskipped := h.skipped req attempt hmain _ hturn
  rwa [add_turn_mod hi] at hskipped

/-- How `n` steps of `pool_main` with one request end: an open inbox is found in at most one
attempt for each slot that is left, or one more step drops the request. -/
def Forwarded (cfg : WorkersConfig) (s t : State R) (req : DispatchRequest) (left n : Nat) :
    Prop :=
  t.main = .receiving ∧
    ((n ≤ left ∧ ∃ i < cfg.count, s.Open i ∧
        t.history = s.history ++ [.delivered i req.streamTx]) ∨
      (n ≤ left + 1 ∧ (∀ i < cfg.count, ¬s.Open i) ∧ t.history = s.history))

/-- With at most 1024 workers the send of a caller finds room, whatever else goes on. -/
theorem submit_enabled (hmetered : Metered cfg s) (hcount : cfg.count ≤ 1024) {k : Nat}
    {kind : CallKind} (hcall : s.calls k = .sending kind req) :
    ∃ t, step serde cfg s (.submit k) = some t := by
  have hroom : s.requestCh.length < 1024 := (hmetered.requestCh_lt hcall).trans_le hcount
  cases hmain : s.main <;> exact ⟨_, by simp [step, submit, hcall, hmain, hroom]; rfl⟩

variable (serde) in
/-- `pool_main` makes its next attempt, whatever the inboxes hold. -/
theorem mainForward_enabled (hmetered : Metered cfg s) (hcount : cfg.count ≤ 8)
    (hmain : s.main = .forwarding req attempt) : ∃ t, step serde cfg s .mainForward = some t := by
  by_cases hattempt : attempt < cfg.count
  · have hroom : (s.slots ((s.next + attempt) % cfg.count)).inbox.length < 8 :=
      (hmetered.inbox_lt hmain (Nat.mod_lt _ (Nat.zero_lt_of_lt hattempt))).trans_le hcount
    cases hdead : s.dead ((s.next + attempt) % cfg.count) <;>
      cases hlive : (s.slots ((s.next + attempt) % cfg.count)).phase.live <;>
      exact ⟨_, by simp [step, mainForward, hmain, hattempt, hdead, hlive, hroom]; rfl⟩
  · exact ⟨_, by simp [step, mainForward, hmain, hattempt]; rfl⟩

/-- One attempt ends the search or passes a slot over and changes no inbox. -/
theorem forward_cases (h : Dispatched cfg s) (hmain : s.main = .forwarding req attempt)
    (hstep : step serde cfg s .mainForward = some t) :
    Forwarded cfg s t req (cfg.count - attempt) 1 ∨
      attempt < cfg.count ∧ t.main = .forwarding req (attempt + 1) ∧ t.slots = s.slots ∧
        t.history = s.history := by
  cases step_move hstep with
  | @skipped req' _ hmain' hattempt _ | @buried req' _ hmain' hattempt _ _ =>
      cases hmain.symm.trans hmain'
      exact .inr ⟨hattempt, rfl, rfl, rfl⟩
  | delivered hmain' hattempt _ hlive _ =>
      cases hmain.symm.trans hmain'
      have hleft : 1 ≤ cfg.count - attempt := Nat.le_sub_of_add_le' hattempt
      exact .inl ⟨rfl, .inl ⟨hleft, _, Nat.mod_lt _ (Nat.zero_lt_of_lt hattempt), hlive, rfl⟩⟩
  | abandoned hmain' hattempt =>
      cases hmain.symm.trans hmain'
      exact .inl ⟨rfl, .inr ⟨Nat.le_add_left _ _, fun i hi => h.all_closed hmain hattempt hi, rfl⟩⟩

/-- The attempts that are left bring the request to an open inbox, or find all of them closed. -/
theorem forwarded_of_reachable (hcount : cfg.count ≤ 8)
    (h : Reachable (step serde cfg) (init R cfg) s) (hmain : s.main = .forwarding req attempt) :
    ∃ n t, runs (step serde cfg) s (List.replicate n .mainForward) = some t ∧
      Forwarded cfg s t req (cfg.count - attempt) n := by
  induction hleft : cfg.count - attempt generalizing s attempt with
  | zero =>
      obtain ⟨t, ht⟩ := mainForward_enabled serde (metered_of_reachable h) hcount hmain
      rcases forward_cases (dispatched_of_reachable h) hmain ht with hdone | ⟨hlt, _⟩
      · exact ⟨1, t, by simp [ht], hleft ▸ hdone⟩
      · omega
  | succ left ih =>
      obtain ⟨u, hu⟩ := mainForward_enabled serde (metered_of_reachable h) hcount hmain
      rcases forward_cases (dispatched_of_reachable h) hmain hu with
        hdone | ⟨hlt, hnext, hslots, hhistory⟩
      · exact ⟨1, u, by simp [hu], hleft ▸ hdone⟩
      · obtain ⟨n, t, hrun, hreceiving, hdone⟩ := ih (.next h trivial hu) hnext (by omega)
        refine ⟨n + 1, t, by simpa [List.replicate_succ, hu] using hrun, hreceiving, ?_⟩
        simp only [State.Open, hslots, hhistory] at hdone
        exact hdone.imp (And.imp_left Nat.succ_le_succ) (And.imp_left Nat.succ_le_succ)

/-- With at most eight workers no send of the pool waits for room. In every reachable state a
caller can send its request; and `pool_main` brings its request to an open inbox in at most one
attempt for each slot, or finds all of them closed, by its own steps alone. -/
theorem pool_main_never_waits (R : Runtime) (serde : SerdeJson) (cfg : WorkersConfig)
    (hcount : cfg.count ≤ 8) (s : State R) (h : Reachable (step serde cfg) (init R cfg) s) :
    (∀ k kind req, s.calls k = .sending kind req → ∃ t, step serde cfg s (.submit k) = some t) ∧
    ∀ req attempt, s.main = .forwarding req attempt →
      ∃ n t, runs (step serde cfg) s (List.replicate n .mainForward) = some t ∧
        Forwarded cfg s t req (cfg.count - attempt) n :=
  ⟨fun _ _ _ hcall => submit_enabled (metered_of_reachable h) (hcount.trans (by decide)) hcall,
    fun _ _ hmain => forwarded_of_reachable hcount h hmain⟩

/-- `pool_main` holds a request. -/
def MainPhase.request? : MainPhase → Option (DispatchRequest × Nat)
  | .forwarding req attempt => some (req, attempt)
  | _ => none

/-- A pool of two whose first slot ended by a panic brings its request to the second. -/
theorem panicked_slot_passed_over :
    ∃ s, Reachable (step .ofNull .pair) (init .basic .pair) s ∧ ¬s.Open 0 ∧
      ∃ req n t, runs (step .ofNull .pair) s (List.replicate n .mainForward) = some t ∧
        Forwarded .pair s t req 2 n := by
  have hrun : (runs (step .ofNull .pair) (init .basic .pair)
      [.supervise 0 .enterLoop, .supervise 0 .spawnPanicked,
        .invoke (.executeValue "dispatch" .null), .submit 0, .mainRecv]).any
        (fun s => !(s.slots 0).phase.live && s.main.request?.any fun r => r.2 == 0) = true := by
    decide
  obtain ⟨s, hs, htest⟩ := exists_reachable hrun
  rw [Bool.and_eq_true, Bool.not_eq_true'] at htest
  obtain ⟨hdead, hmain⟩ := htest
  cases hphase : s.main with
  | forwarding req attempt =>
      have hattempt : attempt = 0 := by simpa [hphase, MainPhase.request?] using hmain
      subst hattempt
      exact ⟨s, hs, by simp [State.Open, hdead], req,
        (pool_main_never_waits .basic .ofNull .pair (by decide) s hs).2 req 0 hphase⟩
  | _ => simp [hphase, MainPhase.request?] at hmain

end FolkCore.Pool
