import FolkCore.Lib.Transition
import Mathlib.Data.List.Nodup

/-!
# A consumer that waits before it reads

A producer pushes items into a buffer of bounded capacity, waiting while it is full,
and then signals and closes its end. The consumer waits for the signal and only then
reads, so nothing leaves the buffer while items are still pushed. The two come to an
end exactly when all items fit into the buffer.
-/

namespace FolkCore.Lib

variable {α σ ρ : Type*}

/-- What a consumer makes of the items: at each of them it goes on or leaves with a
result, and it finishes at the closed end. -/
structure Collector (α σ ρ : Type*) where
  start : σ
  take : σ → α → σ ⊕ ρ
  finish : σ → ρ

def Collector.drain (k : Collector α σ ρ) : List α → σ → ρ
  | [], acc => k.finish acc
  | a :: rest, acc =>
      match k.take acc a with
      | .inl acc => k.drain rest acc
      | .inr r => r

namespace Staged

inductive Op (α : Type*) where
  | push (a : α)
  | signal
  | close

inductive Stage (σ ρ : Type*) where
  | waiting
  | draining (acc : σ)
  | returned (r : ρ)

structure State (α σ ρ : Type*) where
  todo : List (Op α)
  signalled : Bool
  senderOpen : Bool
  buffer : List α
  stage : Stage σ ρ

inductive Party where
  | producer
  | consumer

/-- A push is lost once the consumer has returned, since its end is gone. -/
def step (k : Collector α σ ρ) (c : Nat) (s : State α σ ρ) : Party → Option (State α σ ρ)
  | .producer =>
      match s.todo with
      | .push a :: rest =>
          match s.stage with
          | .returned _ => some { s with todo := rest }
          | _ =>
              if s.buffer.length < c then
                some { s with todo := rest, buffer := s.buffer ++ [a] }
              else none
      | .signal :: rest => some { s with todo := rest, signalled := true }
      | .close :: rest => some { s with todo := rest, senderOpen := false }
      | [] => none
  | .consumer =>
      match s.stage with
      | .waiting => if s.signalled then some { s with stage := .draining k.start } else none
      | .draining acc =>
          match s.buffer with
          | a :: rest =>
              match k.take acc a with
              | .inl acc => some { s with buffer := rest, stage := .draining acc }
              | .inr r => some { s with buffer := [], stage := .returned r }
          | [] =>
              if s.senderOpen then none
              else some { s with stage := .returned (k.finish acc) }
      | .returned _ => none

def start (todo : List (Op α)) : State α σ ρ :=
  { todo, signalled := false, senderOpen := true, buffer := [], stage := .waiting }

/-- The producer's end: a signal and a close in some order. -/
structure Closing (tail : List (Op α)) : Prop where
  no_push : ∀ a, .push a ∉ tail
  nodup : tail.Nodup
  signal_mem : .signal ∈ tail
  close_mem : .close ∈ tail

variable {k : Collector α σ ρ} {c : Nat} {items : List α} {s t : State α σ ρ} {p : Party}

inductive Move (k : Collector α σ ρ) (c : Nat) (s : State α σ ρ) :
    Party → State α σ ρ → Prop
  | pushed {a : α} {rest : List (Op α)} (htodo : s.todo = .push a :: rest)
      (hstage : ∀ r, s.stage ≠ .returned r) (hroom : s.buffer.length < c) :
      Move k c s .producer { s with todo := rest, buffer := s.buffer ++ [a] }
  | lost {a : α} {rest : List (Op α)} {r : ρ} (htodo : s.todo = .push a :: rest)
      (hstage : s.stage = .returned r) : Move k c s .producer { s with todo := rest }
  | signalled {rest : List (Op α)} (htodo : s.todo = .signal :: rest) :
      Move k c s .producer { s with todo := rest, signalled := true }
  | closed {rest : List (Op α)} (htodo : s.todo = .close :: rest) :
      Move k c s .producer { s with todo := rest, senderOpen := false }
  | began (hstage : s.stage = .waiting) (hsignal : s.signalled = true) :
      Move k c s .consumer { s with stage := .draining k.start }
  | took {acc acc' : σ} {a : α} {rest : List α} (hstage : s.stage = .draining acc)
      (hbuffer : s.buffer = a :: rest) (htake : k.take acc a = .inl acc') :
      Move k c s .consumer { s with buffer := rest, stage := .draining acc' }
  | judged {acc : σ} {a : α} {rest : List α} {r : ρ} (hstage : s.stage = .draining acc)
      (hbuffer : s.buffer = a :: rest) (htake : k.take acc a = .inr r) :
      Move k c s .consumer { s with buffer := [], stage := .returned r }
  | ended {acc : σ} (hstage : s.stage = .draining acc) (hbuffer : s.buffer = [])
      (hclosed : s.senderOpen = false) :
      Move k c s .consumer { s with stage := .returned (k.finish acc) }

theorem step_move (h : step k c s p = some t) : Move k c s p t := by
  cases p with
  | producer =>
      simp only [step] at h
      split at h
      · next a rest htodo =>
          split at h
          · next r hstage =>
              cases h
              exact .lost htodo hstage
          · next hstage =>
              split at h
              · next hroom =>
                  cases h
                  exact .pushed htodo hstage hroom
              · cases h
      · next rest htodo =>
          cases h
          exact .signalled htodo
      · next rest htodo =>
          cases h
          exact .closed htodo
      · cases h
  | consumer =>
      simp only [step] at h
      split at h
      · next hstage =>
          split at h
          · next hsignal =>
              cases h
              exact .began hstage hsignal
          · cases h
      · next acc hstage =>
          split at h
          · next a rest hbuffer =>
              split at h
              · next acc' htake =>
                  cases h
                  exact .took hstage hbuffer htake
              · next r htake =>
                  cases h
                  exact .judged hstage hbuffer htake
          · next hbuffer =>
              split at h
              · cases h
              · next hclosed =>
                  cases h
                  exact .ended hstage hbuffer (Bool.eq_false_iff.mpr hclosed)
      · cases h

/-- The producer has the items `rest` still to push, and then the operations `tail`. -/
structure Left (s : State α σ ρ) (rest : List α) (tail : List (Op α)) : Prop where
  todo : s.todo = rest.map .push ++ tail
  no_push : ∀ a, .push a ∉ tail
  nodup : tail.Nodup
  signal_last : rest ≠ [] → .signal ∈ tail
  signalled : s.signalled = true ↔ .signal ∉ tail
  senderOpen : s.senderOpen = true ↔ .close ∈ tail

/-- What the stage says of the items pushed and of those still in the buffer. -/
def Agrees (k : Collector α σ ρ) (items : List α) (s : State α σ ρ) (rest : List α) : Prop :=
  match s.stage with
  | .waiting => items = s.buffer ++ rest
  | .draining acc => s.signalled = true ∧ k.drain s.buffer acc = k.drain items k.start
  | .returned r => r = k.drain items k.start

def Inv (k : Collector α σ ρ) (items : List α) (s : State α σ ρ) : Prop :=
  ∃ rest tail, Left s rest tail ∧ Agrees k items s rest

theorem Inv.start (k : Collector α σ ρ) (items : List α) {tail : List (Op α)}
    (htail : Closing tail) : Inv k items (start (items.map .push ++ tail)) := by
  refine ⟨items, tail, ⟨rfl, htail.no_push, htail.nodup, fun _ => htail.signal_mem, ?_, ?_⟩,
    rfl⟩
  · simp [Staged.start, htail.signal_mem]
  · simp [Staged.start, htail.close_mem]

/-- A push is the first of the items left. -/
theorem Left.push {rest : List α} {tail todo : List (Op α)} {a : α} (h : Left s rest tail)
    (htodo : s.todo = .push a :: todo) :
    ∃ more, rest = a :: more ∧ todo = more.map .push ++ tail := by
  have heq := h.todo.symm.trans htodo
  cases rest with
  | nil =>
      refine absurd ?_ (h.no_push a)
      rw [List.map_nil, List.nil_append] at heq
      rw [heq]
      exact List.mem_cons_self
  | cons b more =>
      rw [List.map_cons, List.cons_append] at heq
      obtain ⟨hhead, htail⟩ := List.cons.inj heq
      cases hhead
      exact ⟨more, rfl, htail.symm⟩

/-- Any other operation is the first of the tail. -/
theorem Left.other {rest : List α} {tail todo : List (Op α)} {e : Op α} (h : Left s rest tail)
    (htodo : s.todo = e :: todo) (he : ∀ a, e ≠ .push a) : rest = [] ∧ tail = e :: todo := by
  have heq := h.todo.symm.trans htodo
  cases rest with
  | nil => exact ⟨rfl, by simpa using heq⟩
  | cons b more =>
      rw [List.map_cons, List.cons_append] at heq
      exact absurd (List.cons.inj heq).1.symm (he b)

/-- After the signal no item is left. -/
theorem Left.rest_nil {rest : List α} {tail : List (Op α)} (h : Left s rest tail)
    (hsignal : s.signalled = true) : rest = [] := by
  by_contra hrest
  exact h.signalled.mp hsignal (h.signal_last hrest)

/-- The consumer's steps leave the producer as it is. -/
theorem Left.consume {rest : List α} {tail : List (Op α)} {buffer : List α} {stage : Stage σ ρ}
    (h : Left s rest tail) : Left { s with buffer, stage } rest tail where
  todo := h.todo
  no_push := h.no_push
  nodup := h.nodup
  signal_last := h.signal_last
  signalled := h.signalled
  senderOpen := h.senderOpen

/-- After a push the producer has one item less to push, and still gives the signal. -/
theorem Left.produce {more : List α} {tail : List (Op α)} {buffer : List α} {a : α}
    (h : Left s (a :: more) tail) :
    Left { s with todo := more.map .push ++ tail, buffer } more tail where
  todo := rfl
  no_push := h.no_push
  nodup := h.nodup
  signal_last _ := h.signal_last (List.cons_ne_nil _ _)
  signalled := h.signalled
  senderOpen := h.senderOpen

theorem Inv.step (h : Inv k items s) (move : Move k c s p t) : Inv k items t := by
  obtain ⟨rest, tail, hleft, hagrees⟩ := h
  unfold Agrees at hagrees
  cases move with
  | @pushed a todo htodo hstage hroom =>
      obtain ⟨more, rfl, rfl⟩ := hleft.push htodo
      refine ⟨more, tail, hleft.produce, ?_⟩
      unfold Agrees
      cases hs : s.stage with
      | waiting =>
          rw [hs] at hagrees
          simpa using hagrees
      | draining acc =>
          -- the consumer reads only after the signal
          rw [hs] at hagrees
          cases hleft.rest_nil hagrees.1
      | returned r => exact absurd hs (hstage r)
  | @lost a todo r htodo hstage =>
      obtain ⟨more, rfl, rfl⟩ := hleft.push htodo
      refine ⟨more, tail, hleft.produce, ?_⟩
      rw [hstage] at hagrees
      simpa [Agrees, hstage] using hagrees
  | @signalled todo htodo =>
      obtain ⟨rfl, rfl⟩ := hleft.other htodo (by simp)
      have hnodup := List.nodup_cons.mp hleft.nodup
      refine ⟨[], todo, ⟨by simp, fun a ha => hleft.no_push a (List.mem_cons_of_mem _ ha),
        hnodup.2, by simp, by simp [hnodup.1], by simpa using hleft.senderOpen⟩, ?_⟩
      unfold Agrees
      cases hs : s.stage with
      | waiting => simpa [hs] using hagrees
      | draining acc =>
          rw [hs] at hagrees
          exact ⟨rfl, hagrees.2⟩
      | returned r => simpa [hs] using hagrees
  | @closed todo htodo =>
      obtain ⟨rfl, rfl⟩ := hleft.other htodo (by simp)
      have hnodup := List.nodup_cons.mp hleft.nodup
      refine ⟨[], todo, ⟨by simp, fun a ha => hleft.no_push a (List.mem_cons_of_mem _ ha),
        hnodup.2, by simp, by simpa using hleft.signalled, by simp [hnodup.1]⟩, ?_⟩
      exact hagrees
  | began hstage hsignal =>
      refine ⟨rest, tail, hleft.consume, ?_⟩
      rw [hstage] at hagrees
      have hall : items = s.buffer := by simpa [hleft.rest_nil hsignal] using hagrees
      exact ⟨hsignal, by rw [hall]⟩
  | took hstage hbuffer htake =>
      refine ⟨rest, tail, hleft.consume, ?_⟩
      rw [hstage, hbuffer] at hagrees
      refine ⟨hagrees.1, ?_⟩
      rw [← hagrees.2]
      simp [Collector.drain, htake]
  | judged hstage hbuffer htake =>
      refine ⟨rest, tail, hleft.consume, ?_⟩
      rw [hstage, hbuffer] at hagrees
      simp only [Agrees]
      rw [← hagrees.2]
      simp [Collector.drain, htake]
  | ended hstage hbuffer hclosed =>
      refine ⟨rest, tail, hleft.consume, ?_⟩
      rw [hstage, hbuffer] at hagrees
      simp only [Agrees]
      rw [← hagrees.2]
      rfl

section Runs

variable {tail : List (Op α)}

theorem inv_of_reachable (htail : Closing tail)
    (h : Reachable (step k c) (start (items.map .push ++ tail)) s) : Inv k items s :=
  h.invariant (Inv k items) (.start k items htail) fun _ _ _ hs _ hstep =>
    hs.step (step_move hstep)

/-- Whatever is returned is what the collector makes of all items. -/
theorem returned_eq (htail : Closing tail)
    (h : Reachable (step k c) (start (items.map .push ++ tail)) s) {r : ρ}
    (hr : s.stage = .returned r) : r = k.drain items k.start := by
  obtain ⟨rest, more, _, hagrees⟩ := inv_of_reachable htail h
  rwa [Agrees, hr] at hagrees

/-- With room for all items someone can always go on. -/
theorem Inv.enabled (h : Inv k items s) (hroom : items.length ≤ c)
    (hstage : ∀ r, s.stage ≠ .returned r) : ∃ p, (Staged.step k c s p).isSome := by
  obtain ⟨rest, tail, hleft, hagrees⟩ := h
  unfold Agrees at hagrees
  cases htodo : s.todo with
  | nil =>
      -- the producer is done, so the signal is given and its end is closed
      obtain ⟨_, rfl⟩ := List.append_eq_nil_iff.mp (hleft.todo.symm.trans htodo)
      have hsignal := hleft.signalled.mpr (by simp)
      have hclosed : s.senderOpen = false := by simpa using hleft.senderOpen
      refine ⟨.consumer, ?_⟩
      cases hs : s.stage with
      | waiting => simp [Staged.step, hs, hsignal]
      | draining acc =>
          cases hbuffer : s.buffer with
          | nil => simp [Staged.step, hs, hbuffer, hclosed]
          | cons a more =>
              simp only [Staged.step, hs, hbuffer]
              split <;> rfl
      | returned r => exact absurd hs (hstage r)
  | cons e todo =>
      refine ⟨.producer, ?_⟩
      cases e with
      | signal => simp [Staged.step, htodo]
      | close => simp [Staged.step, htodo]
      | push a =>
          obtain ⟨more, rfl, _⟩ := hleft.push htodo
          cases hs : s.stage with
          | waiting =>
              rw [hs] at hagrees
              have hlength := congrArg List.length hagrees
              rw [List.length_append, List.length_cons] at hlength
              have hlt : s.buffer.length < c := by omega
              simp [Staged.step, htodo, hs, hlt]
          | draining acc =>
              rw [hs] at hagrees
              cases hleft.rest_nil hagrees.1
          | returned r => exact absurd hs (hstage r)

/-- Without room for all items the consumer waits for ever. -/
theorem waiting_of_overflow (htail : Closing tail) (hfull : c < items.length)
    (h : Reachable (step k c) (start (items.map .push ++ tail)) s) : s.stage = .waiting := by
  have hboth : Inv k items s ∧ s.stage = .waiting ∧ s.buffer.length ≤ c := by
    apply h.invariant (fun s => Inv k items s ∧ s.stage = .waiting ∧ s.buffer.length ≤ c)
    · exact ⟨.start k items htail, rfl, Nat.zero_le c⟩
    · rintro s p t ⟨hinv, hwaiting, hbuffer⟩ _ hstep
      have move := step_move hstep
      refine ⟨hinv.step move, ?_⟩
      cases move with
      | pushed _ _ hroom =>
          refine ⟨hwaiting, ?_⟩
          rw [List.length_append]
          exact hroom
      | lost _ hstage => exact ⟨hwaiting, hbuffer⟩
      | signalled _ => exact ⟨hwaiting, hbuffer⟩
      | closed _ => exact ⟨hwaiting, hbuffer⟩
      | began hstage hsignal =>
          -- all items would be in the buffer
          obtain ⟨rest, more, hleft, hagrees⟩ := hinv
          rw [Agrees, hstage, hleft.rest_nil hsignal] at hagrees
          have hlength := congrArg List.length hagrees
          rw [List.append_nil] at hlength
          omega
      | took hstage => rw [hwaiting] at hstage; cases hstage
      | judged hstage => rw [hwaiting] at hstage; cases hstage
      | ended hstage => rw [hwaiting] at hstage; cases hstage
  exact hboth.2.1

def Stage.rank : Stage σ ρ → Nat
  | .waiting => 2
  | .draining _ => 1
  | .returned _ => 0

/-- How much the two parties have left to do. -/
def State.measure (s : State α σ ρ) : Nat :=
  2 * s.todo.length + s.buffer.length + s.stage.rank

theorem measure_lt (move : Move k c s p t) : t.measure < s.measure := by
  unfold State.measure
  cases move with
  | pushed htodo =>
      simp only [htodo, List.length_append, List.length_cons, List.length_nil]
      omega
  | lost htodo | signalled htodo | closed htodo =>
      simp only [htodo, List.length_cons]
      omega
  | began hstage =>
      simp only [hstage, Stage.rank]
      omega
  | took hstage hbuffer =>
      simp only [hstage, hbuffer, List.length_cons, Stage.rank]
      omega
  | judged hstage hbuffer =>
      simp only [hstage, hbuffer, List.length_cons, List.length_nil, Stage.rank]
      omega
  | ended hstage =>
      simp only [hstage, Stage.rank]
      omega

end Runs

end Staged

end FolkCore.Lib
