import FolkCore.Bridge.Session
import FolkCore.Lib.Transition

/-!
# The history of one request's channels

A log of channel operations is projected to the request it concerns: the chunks
handed to `blocking_send` on its stream and the signal on its done channel. The
automaton `StreamPhase` reads such a history. `Ledger` says that it accepts the
history of every request of a thread, and how far the current one has come.
-/

namespace FolkCore.Bridge

open Lib

/-- One entry in the history of a request. -/
inductive Mark where
  | push (chunk : ResponseChunk)
  | fire

namespace Mark

/-- The mark pushes a chunk of the given kind. -/
def pushes (kind : ResponseChunk → Bool) : Mark → Bool
  | .push c => kind c
  | .fire => false

def isFire : Mark → Bool
  | .push _ => false
  | .fire => true

end Mark

/-- The entry that a channel operation leaves in the history of a channel pair. -/
def Effect.mark (tx : StreamTx) (d : DoneTx) : Effect → Option Mark
  | .send t c => if t = tx then some (.push c) else none
  | .signal e => if e = d then some .fire else none
  | _ => none

/-- The operation concerns the given channel pair. -/
def Effect.targets (tx : StreamTx) (d : DoneTx) : Effect → Prop
  | .send t _ => t = tx
  | .signal e => e = d
  | .ready => False
  | .dropStream t => t = tx
  | .dropDone e => e = d

/-- The history of request `r` in a log of channel operations. -/
def history (r : TaskRequest) (log : List Effect) : List Mark :=
  log.filterMap (Effect.mark r.streamTx r.doneTx)

@[simp] theorem history_nil (r : TaskRequest) : history r [] = [] := rfl

@[simp] theorem history_append (r : TaskRequest) (log more : List Effect) :
    history r (log ++ more) = history r log ++ history r more :=
  List.filterMap_append

/-- Operations on other channels leave no entry. -/
theorem history_eq_nil {r : TaskRequest} {tx : StreamTx} {d : DoneTx} {log : List Effect}
    (htargets : ∀ e ∈ log, e.targets tx d) (htx : r.streamTx ≠ tx) (hd : r.doneTx ≠ d) :
    history r log = [] := by
  rw [history, List.filterMap_eq_nil_iff]
  intro e he
  have ht := htargets e he
  cases e with
  | send t c =>
      have h : t ≠ r.streamTx := fun heq => htx (heq.symm.trans ht)
      simp [Effect.mark, h]
  | signal e =>
      have h : e ≠ r.doneTx := fun heq => hd (heq.symm.trans ht)
      simp [Effect.mark, h]
  | ready => rfl
  | dropStream t => rfl
  | dropDone e => rfl

theorem Move.targets {serde : SerdeJson} {st : WorkerState} {tx : StreamTx} {d : DoneTx}
    {s : Step} {o : Outcome Reply} (move : Move serde st tx d s o) :
    ∀ e ∈ o.effects, e.targets tx d := by
  cases move with
  | quiet _ _ _ heffects _ => simp [heffects]
  | head _ heffects _ => simp [heffects, Effect.targets]
  | body _ heffects _ => simp [heffects, Effect.targets]
  | finish v _ heffects _ =>
      intro e he
      rcases heffects with h | h <;> cases v <;>
        simp only [h, Option.toList_none, Option.toList_some, List.map_nil, List.map_cons,
          List.nil_append, List.cons_append, List.mem_cons, List.not_mem_nil, or_false] at he <;>
        rcases he with rfl | rfl | rfl | rfl <;> simp [Effect.targets]
  | replace _ _ _ _ heffects _ => simp [heffects, Effect.targets]

/-- How far the history of a request has come. -/
inductive StreamPhase where
  | opened (started : Bool)
  | judged
  | ended
  | fired
  deriving DecidableEq

namespace StreamPhase

/-- Headers once and bodies at will, then at most one verdict, the end, the signal. -/
def next : StreamPhase → Mark → Option StreamPhase
  | .opened false, .push (.headers _ _) => some (.opened true)
  | .opened b, .push (.body _) => some (.opened b)
  | .opened _, .push (.returnValue _) => some .judged
  | .opened _, .push (.error _) => some .judged
  | .opened _, .push .streamEnd => some .ended
  | .judged, .push .streamEnd => some .ended
  | .ended, .fire => some .fired
  | _, _ => none

/-- No call stops between a verdict and the signal. -/
def Settled (p : StreamPhase) : Prop := (∃ b, p = .opened b) ∨ p = .fired

end StreamPhase

open StreamPhase in
/-- The phase after a history that starts with a freshly received request. -/
def phaseOf (h : List Mark) : Option StreamPhase := runs next (.opened false) h

theorem phaseOf_append {h : List Mark} {p : StreamPhase} (hp : phaseOf h = some p)
    (more : List Mark) : phaseOf (h ++ more) = runs StreamPhase.next p more :=
  runs_append_of_eq hp more

/-- The entries of a finalising step close the history. -/
theorem finish_fired (b : Bool) {v : Option ResponseChunk}
    (hv : ∀ c ∈ v, c.isVerdict = true) :
    runs StreamPhase.next (.opened b)
      (v.toList.map Mark.push ++ [.push .streamEnd, .fire]) = some .fired := by
  cases v with
  | none => cases b <;> simp [StreamPhase.next]
  | some c =>
      have hc := hv c rfl
      cases c <;> cases b <;> simp [StreamPhase.next, ResponseChunk.isVerdict] at hc ⊢

theorem verdict_isVerdict (v : Value) : (verdict v).isVerdict = true := by
  unfold verdict
  split <;> rfl

theorem resultChunk_isVerdict (result : Except String Value) :
    (resultChunk result).isVerdict = true := by
  cases result with
  | error e => rfl
  | ok v => exact verdict_isVerdict v

theorem closing_isVerdict {serde : SerdeJson} {b : Bool} {s : Step}
    {v : Option ResponseChunk} (hs : s.closing serde b = some v) :
    ∀ c ∈ v, c.isVerdict = true := by
  intro c hc
  unfold Step.closing at hs
  split at hs
  · split at hs <;> cases hs <;> cases hc
    · rfl
    · exact verdict_isVerdict _
  · cases hs; cases hc; rfl
  · cases hs; cases hc
  · cases hs
    split at hc
    · cases hc
    · cases hc
      exact resultChunk_isVerdict _
  · cases hs

/-- What a finalising step adds to the history of its request. -/
theorem history_finish {r : TaskRequest} {v : Option ResponseChunk} {effects : List Effect}
    (h : effects = v.toList.map (.send r.streamTx) ++
          [.send r.streamTx .streamEnd, .signal r.doneTx, .dropStream r.streamTx] ∨
        effects = v.toList.map (.send r.streamTx) ++
          [.send r.streamTx .streamEnd, .dropStream r.streamTx, .signal r.doneTx]) :
    history r effects = v.toList.map Mark.push ++ [.push .streamEnd, .fire] := by
  rcases h with rfl | rfl <;> cases v <;>
    simp [history, Effect.mark, List.filterMap_cons]

end FolkCore.Bridge
