import FolkCore.Bridge.Ledger

/-!
# Legal histories

The automaton accepts exactly the histories in which headers, verdict, end and
signal come at most once and in this order. `LegalHistory` spells that out in
terms of positions, and the ledger gives it for every request of a thread.
-/

namespace FolkCore.Bridge

open Lib ResponseChunk

namespace Mark

theorem pushes_isEnd_iff (m : Mark) :
    m.pushes isEnd = true ↔ m = .push .streamEnd := by
  cases m with
  | fire => simp [pushes]
  | push c => cases c <;> simp [pushes, isEnd]

theorem isFire_iff (m : Mark) : m.isFire = true ↔ m = .fire := by
  cases m <;> simp [isFire]

end Mark

namespace StreamPhase

/-- The phases in their order. -/
def rank : StreamPhase → Nat
  | .opened false => 0
  | .opened true => 1
  | .judged => 2
  | .ended => 3
  | .fired => 4

@[simp] theorem rank_judged : judged.rank = 2 := rfl

@[simp] theorem rank_ended : ended.rank = 3 := rfl

@[simp] theorem rank_fired : fired.rank = 4 := rfl

theorem opened_rank_le (b : Bool) : (opened b).rank ≤ 1 := by cases b <;> simp [rank]

theorem rank_le_of_next {p p' : StreamPhase} {m : Mark} (h : p.next m = some p') :
    p.rank ≤ p'.rank := by
  unfold next at h
  split at h <;> cases h
  · simp [rank]
  · exact Nat.le_refl _
  · exact Nat.le_trans (opened_rank_le _) (by simp [rank])
  · exact Nat.le_trans (opened_rank_le _) (by simp [rank])
  · exact Nat.le_trans (opened_rank_le _) (by simp [rank])
  · simp [rank]
  · simp [rank]

/-- A chunk is pushed before the end only. -/
theorem push_step {u v : StreamPhase} {c : ResponseChunk} (h : u.next (.push c) = some v) :
    u.rank ≤ 2 := by
  cases u with
  | opened b => exact Nat.le_trans (opened_rank_le b) (by omega)
  | judged => simp [rank]
  | ended => simp [next] at h
  | fired => simp [next] at h

theorem headers_step {u v : StreamPhase} {m : Mark} (h : u.next m = some v)
    (hm : m.pushes isHeaders = true) : u.rank = 0 ∧ v.rank = 1 := by
  unfold next at h
  split at h <;> cases h <;> simp_all [Mark.pushes, isHeaders, rank]

theorem verdict_step {u v : StreamPhase} {m : Mark} (h : u.next m = some v)
    (hm : m.pushes isVerdict = true) : u.rank ≤ 1 ∧ v = .judged := by
  unfold next at h
  split at h <;> cases h <;> simp_all [Mark.pushes, isVerdict, opened_rank_le]

theorem end_step {u v : StreamPhase} (h : u.next (.push .streamEnd) = some v) :
    u.rank ≤ 2 ∧ v = .ended := by
  refine ⟨push_step h, ?_⟩
  unfold next at h
  split at h <;> simp_all

theorem fire_step {u v : StreamPhase} (h : u.next .fire = some v) :
    u = .ended ∧ v = .fired := by
  cases u with
  | opened b => cases b <;> simp [next] at h
  | judged => simp [next] at h
  | ended => simp_all [next]
  | fired => simp [next] at h

/-- The end is the only way past the verdict. -/
theorem enter_ended {u v : StreamPhase} {m : Mark} (h : u.next m = some v)
    (hu : u.rank ≤ 2) (hv : 3 ≤ v.rank) : m = .push .streamEnd ∧ v = .ended := by
  unfold next at h
  split at h <;> cases h
  · simp [rank] at hv
  · omega
  · simp [rank] at hv
  · simp [rank] at hv
  · exact ⟨rfl, rfl⟩
  · exact ⟨rfl, rfl⟩
  · simp [rank] at hu

/-- The signal is the only way into the last phase. -/
theorem enter_fired {u : StreamPhase} {m : Mark} (h : u.next m = some .fired) :
    m = .fire ∧ u = .ended := by
  unfold next at h
  split at h <;> cases h
  exact ⟨rfl, rfl⟩

end StreamPhase

open StreamPhase

/-- From rank `k` on, no entry of a kind that needs a lower rank is read. -/
theorem no_entry_after {k : Nat} {kind : Mark → Bool} {p p' : StreamPhase} {h : List Mark}
    (hkind : ∀ (u : StreamPhase) m v, u.next m = some v → kind m = true → u.rank < k)
    (hp : k ≤ p.rank) (hrun : runs next p h = some p') : ∀ m ∈ h, ¬kind m = true := by
  refine (runs_avoids (fun u => k ≤ u.rank) (fun m => kind m = true) ?_ hp hrun).2
  intro u m v hu hstep
  refine ⟨Nat.le_trans hu (rank_le_of_next hstep), fun hm => ?_⟩
  have := hkind u m v hstep hm
  omega

/-- A kind of entry that raises the rank past its own needs comes at most once. -/
theorem entry_once {k : Nat} {kind : Mark → Bool} {h : List Mark} {p : StreamPhase}
    (hp : phaseOf h = some p)
    (hkind : ∀ (u : StreamPhase) m (v : StreamPhase), u.next m = some v →
      kind m = true → u.rank < k ∧ k ≤ v.rank) :
    h.countP kind ≤ 1 := by
  refine countP_le_one_of_unique kind h fun before m after heq hm => ?_
  subst heq
  obtain ⟨u, v, _, hstep, hrest⟩ := runs_split hp
  exact no_entry_after (fun u m v hstep hm => (hkind u m v hstep hm).1)
    (hkind u m v hstep hm).2 hrest

/-- The contract of one request's history, in terms of positions. -/
structure LegalHistory (h : List Mark) : Prop where
  headers_once : h.countP (Mark.pushes isHeaders) ≤ 1
  verdict_once : h.countP (Mark.pushes isVerdict) ≤ 1
  end_once : h.countP (Mark.pushes isEnd) ≤ 1
  verdict_then_end : ∀ before m after, h = before ++ m :: after →
    m.pushes isVerdict = true → ∃ rest, after = .push .streamEnd :: rest
  end_last : ∀ before after, h = before ++ .push .streamEnd :: after →
    ∀ m ∈ after, m = .fire
  fire_once : h.countP Mark.isFire ≤ 1
  fire_iff_end : Mark.fire ∈ h ↔ Mark.push .streamEnd ∈ h
  fire_after_end : ∀ before after, h = before ++ .fire :: after →
    Mark.push .streamEnd ∈ before

/-- A settled history that is past the verdict has come to its signal. -/
theorem Settled.eq_fired {p : StreamPhase} (hp : p.Settled) (hrank : 2 ≤ p.rank) :
    p = .fired := by
  rcases hp with ⟨b, rfl⟩ | rfl
  · cases b <;> simp [rank] at hrank
  · rfl

theorem rank_le_of_runs {p p' : StreamPhase} {h : List Mark}
    (hrun : runs next p h = some p') : p.rank ≤ p'.rank :=
  (runs_avoids (fun u => p.rank ≤ u.rank) (fun _ => False)
    (fun _ _ _ hu hstep => ⟨Nat.le_trans hu (rank_le_of_next hstep), id⟩)
    (Nat.le_refl _) hrun).1

/-- A history that has come to its end contains the end. -/
theorem end_mem_of_phase {h : List Mark} {p : StreamPhase} (hp : phaseOf h = some p)
    (hrank : 3 ≤ p.rank) : Mark.push .streamEnd ∈ h := by
  have hgate : ∃ m ∈ h, m = Mark.push .streamEnd :=
    runs_enters (fun u => 3 ≤ u.rank) (fun m => m = Mark.push .streamEnd)
      (fun u m v hu hstep hv => (enter_ended hstep (by omega) hv).1)
      (by simp [rank]) hrank hp
  obtain ⟨m, hm, rfl⟩ := hgate
  exact hm

theorem legalHistory_of_phase {h : List Mark} {p : StreamPhase} (hp : phaseOf h = some p)
    (hsettled : p.Settled) : LegalHistory h where
  headers_once := entry_once (k := 1) hp fun u m v hstep hm => by
    have := headers_step hstep hm
    omega
  verdict_once := entry_once (k := 2) hp fun u m v hstep hm => by
    obtain ⟨hu, rfl⟩ := verdict_step hstep hm
    exact ⟨by omega, by simp [rank]⟩
  end_once := entry_once (k := 3) hp fun u m v hstep hm => by
    rw [Mark.pushes_isEnd_iff] at hm
    subst hm
    obtain ⟨hu, rfl⟩ := end_step hstep
    exact ⟨by omega, by simp [rank]⟩
  verdict_then_end := by
    intro before m after heq hm
    subst heq
    obtain ⟨u, v, _, hstep, hrest⟩ := runs_split hp
    obtain ⟨_, rfl⟩ := verdict_step hstep hm
    cases after with
    | nil =>
        have hjudged : StreamPhase.judged = p := by simpa using hrest
        have := Settled.eq_fired (hjudged ▸ hsettled) (by simp [rank])
        cases this
    | cons m' rest =>
        obtain ⟨w, hw, _⟩ := Option.bind_eq_some_iff.mp hrest
        refine ⟨rest, ?_⟩
        cases m' with
        | fire => simp [next] at hw
        | push c => cases c <;> simp [next] at hw ⊢
  end_last := by
    intro before after heq m hm
    subst heq
    obtain ⟨u, v, _, hstep, hrest⟩ := runs_split hp
    obtain ⟨_, rfl⟩ := end_step hstep
    have hpush : ∀ m ∈ after, ¬m.pushes (fun _ => true) = true := by
      refine no_entry_after (k := 3) (fun u m v hstep hm => ?_) (by simp [rank]) hrest
      cases m with
      | push c => exact Nat.lt_succ_of_le (push_step hstep)
      | fire => simp [Mark.pushes] at hm
    cases m with
    | push c => exact absurd rfl (hpush _ hm)
    | fire => rfl
  fire_once := entry_once (k := 4) hp fun u m v hstep hm => by
    rw [Mark.isFire_iff] at hm
    subst hm
    obtain ⟨rfl, rfl⟩ := fire_step hstep
    simp [rank]
  fire_iff_end := by
    constructor
    · intro hfire
      obtain ⟨before, after, heq⟩ := List.append_of_mem hfire
      subst heq
      obtain ⟨u, v, hbefore, hstep, _⟩ := runs_split hp
      obtain ⟨rfl, _⟩ := fire_step hstep
      exact List.mem_append_left _ (end_mem_of_phase hbefore (by simp [rank]))
    · intro hend
      obtain ⟨before, after, heq⟩ := List.append_of_mem hend
      subst heq
      obtain ⟨u, v, _, hstep, hrest⟩ := runs_split hp
      obtain ⟨_, rfl⟩ := end_step hstep
      have hrank : 3 ≤ p.rank := rank_le_of_runs hrest
      obtain rfl := Settled.eq_fired hsettled (by omega)
      have hgate : ∃ m ∈ after, m = Mark.fire :=
        runs_enters (fun u => u = .fired) (fun m => m = Mark.fire)
          (fun u m v _ hstep hv => (enter_fired (hv ▸ hstep)).1) (by simp) rfl hrest
      obtain ⟨m, hm, rfl⟩ := hgate
      exact List.mem_append_right _ (List.mem_cons_of_mem _ hm)
  fire_after_end := by
    intro before after heq
    subst heq
    obtain ⟨u, v, hbefore, hstep, _⟩ := runs_split hp
    obtain ⟨rfl, _⟩ := fire_step hstep
    exact end_mem_of_phase hbefore (by simp [rank])

/-- A fired history ends in the end chunk and the signal, and has neither before. -/
theorem fired_form {h : List Mark} (hfired : phaseOf h = some .fired) :
    ∃ body, h = body ++ [.push .streamEnd, .fire] ∧
      ∀ m ∈ body, m.pushes isEnd = false ∧ m.isFire = false := by
  have hlegal := legalHistory_of_phase hfired (.inr rfl)
  obtain ⟨body, after, heq⟩ :=
    List.append_of_mem (end_mem_of_phase hfired (by simp [rank]))
  subst heq
  obtain ⟨u, v, hbody, hstep, hafter⟩ := runs_split hfired
  obtain ⟨hu, rfl⟩ := end_step hstep
  refine ⟨body, ?_, ?_⟩
  · cases after with
    | nil => cases (Option.some.inj hafter)
    | cons m rest =>
        obtain rfl := hlegal.end_last body (m :: rest) rfl m (by simp)
        cases rest with
        | nil => rfl
        | cons m' rest => simp [next] at hafter
  · intro m hm
    obtain ⟨before, between, rfl⟩ := List.append_of_mem hm
    obtain ⟨u', v', _, hstep', hbetween⟩ := runs_split hbody
    have hrank : v'.rank ≤ u.rank := rank_le_of_runs hbetween
    refine ⟨Bool.eq_false_iff.mpr fun hend => ?_, Bool.eq_false_iff.mpr fun hfire => ?_⟩
    · rw [Mark.pushes_isEnd_iff] at hend
      obtain ⟨_, rfl⟩ := end_step (hend ▸ hstep')
      rw [rank_ended] at hrank
      omega
    · rw [Mark.isFire_iff] at hfire
      obtain ⟨_, rfl⟩ := fire_step (hfire ▸ hstep')
      rw [rank_fired] at hrank
      omega

variable {serde : SerdeJson} {q : TaskQueue} {log : List Effect} {st : WorkerState}

/-- A step writes to the channels of the current request alone. -/
theorem Ledger.holds_of_history (h : Ledger q log st) (s : Step) {r : TaskRequest}
    (hr : r ∈ q.tasks) (hne : history r (s.outcome serde st).effects ≠ []) : st.Holds r := by
  rcases h.current with hidle | ⟨r', hr', _, hholds, _⟩
  · simp [(idle_step serde hidle s).1] at hne
  · by_cases heq : r = r'
    · exact heq ▸ hholds
    · exact absurd (history_eq_nil (busy_move serde hholds.1 hholds.2 s).targets
        (q.stream_ne hr' hr heq) (q.done_ne hr' hr heq)) hne

/-- Every request of a thread has a legal history after every run of bridge
calls, and a call touches no channel but those of the request it works on. -/
theorem bridge_histories_legal (serde : SerdeJson) (q : TaskQueue) (workerId : UInt32)
    (steps : List Step) :
    (∀ r ∈ q.tasks, LegalHistory
      (history r (run serde steps (q.start workerId)).effects)) ∧
    ∀ before s after, steps = before ++ s :: after → ∀ r ∈ q.tasks,
      history r (s.outcome serde (run serde before (q.start workerId)).state).effects ≠ [] →
      (run serde before (q.start workerId)).state.Holds r := by
  constructor
  · intro r hr
    obtain ⟨p, hp, hsettled⟩ := (ledger_of_run serde q workerId steps).settled r hr
    exact legalHistory_of_phase hp hsettled
  · intro before s after _ r hr hne
    exact (ledger_of_run serde q workerId before).holds_of_history s hr hne

end FolkCore.Bridge
