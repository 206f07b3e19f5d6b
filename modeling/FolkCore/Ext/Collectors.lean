import FolkCore.Bridge.PathAgreement
import FolkCore.Pool.System

/-!
# The two collectors

`collect_stream` remembers a returned value and receives on; `collect_stream_to_value`
leaves with it at once. They agree on a stream in which nothing but the end follows a
returned value, and the bridge pushes no other stream.
-/

namespace FolkCore.Ext

open Bridge Lib Pool

/-- The local variables of `collect_stream_to_value`. -/
structure Gathered where
  status : UInt16
  headers : List (String × String)
  bodyBytes : Bytes

def Gathered.empty : Gathered := { status := 200, headers := [], bodyBytes := [] }

/-- The value after the loop: the legacy shape. -/
def Gathered.finish (acc : Gathered) : Value :=
  .ofFields [("status", .number (.posInt acc.status.toUInt64)),
    ("headers", .ofFields (acc.headers.map fun h => (h.1, .string h.2))),
    ("body", .string (fromUtf8Lossy acc.bodyBytes))]

/-- One received chunk: go on, or leave the function with its result. -/
def Gathered.take (acc : Gathered) : ResponseChunk → Gathered ⊕ Except WorkerError Value
  | .headers s h => .inl { acc with status := s, headers := h }
  | .body b => .inl { acc with bodyBytes := acc.bodyBytes ++ b }
  | .returnValue v => .inr (.ok v)
  | .error e => .inr (.error e)
  | .streamEnd => .inr (.ok acc.finish)

/-- The loop on the chunks still to come, closed after the last of them. -/
def Gathered.drain : List ResponseChunk → Gathered → Except WorkerError Value
  | [], acc => .ok acc.finish
  | c :: rest, acc =>
      match acc.take c with
      | .inl acc => acc.drain rest
      | .inr r => r

/-- `collect_stream_to_value` on a complete stream. -/
def collectStreamToValue (chunks : List ResponseChunk) : Except WorkerError Value :=
  Gathered.empty.drain chunks

/-- The first returned value is followed by nothing or by the end. -/
def ReturnThenEnd : List ResponseChunk → Prop
  | [] => True
  | .returnValue _ :: rest => rest = [] ∨ ∃ more, rest = .streamEnd :: more
  | _ :: rest => ReturnThenEnd rest

/-- What the pool's collector holds before a returned value. -/
def Gathered.collected (acc : Gathered) : Collected :=
  { status := acc.status, headers := acc.headers, bodyBytes := acc.bodyBytes, returnValue := none }

/-- Where nothing but the end follows a returned value, the collectors agree. -/
theorem drain_agree {chunks : List ResponseChunk} (h : ReturnThenEnd chunks) (acc : Gathered) :
    acc.drain chunks = acc.collected.drain chunks := by
  induction chunks generalizing acc with
  | nil => rfl
  | cons c rest ih =>
      cases c with
      | headers status headers => exact ih h { acc with status, headers }
      | body bytes => exact ih h { acc with bodyBytes := acc.bodyBytes ++ bytes }
      | error e => rfl
      | streamEnd => rfl
      | returnValue v =>
          rcases h with rfl | ⟨more, rfl⟩
          · rfl
          · rfl

/-- A cut stream is as regular as the whole one. -/
theorem ReturnThenEnd.of_prefix {chunks pushed : List ResponseChunk} (h : ReturnThenEnd pushed)
    (hpre : chunks <+: pushed) : ReturnThenEnd chunks := by
  induction chunks generalizing pushed with
  | nil => trivial
  | cons c rest ih =>
      obtain ⟨cut, rfl⟩ := hpre
      have passed (hrest : ReturnThenEnd (rest ++ cut)) : ReturnThenEnd rest :=
        ih hrest (List.prefix_append rest cut)
      cases c with
      | headers status headers => exact passed h
      | body bytes => exact passed h
      | error e => exact passed h
      | streamEnd => exact passed h
      | returnValue v =>
          cases rest with
          | nil => exact .inl rfl
          | cons next more =>
              have hnext : ∃ left, next :: (more ++ cut) = .streamEnd :: left :=
                Or.resolve_left h (List.cons_ne_nil _ _)
              obtain ⟨left, heq⟩ := hnext
              exact .inr ⟨more, by rw [(List.cons.inj heq).1]⟩

/-- A history that the stream automaton reads has nothing but the end behind a
returned value. -/
theorem returnThenEnd_of_runs {h : List Mark} {p p' : StreamPhase}
    (hrun : runs StreamPhase.next p h = some p') : ReturnThenEnd (chunks h) := by
  induction h generalizing p with
  | nil => trivial
  | cons m rest ih =>
      obtain ⟨q, hnext, hrest⟩ := Option.bind_eq_some_iff.mp hrun
      cases m with
      | fire => exact ih hrest
      | push c =>
          cases c with
          | headers status headers => exact ih hrest
          | body bytes => exact ih hrest
          | error e => exact ih hrest
          | streamEnd => exact ih hrest
          | returnValue v =>
              -- the automaton is past the verdict and reads the end alone
              obtain ⟨_, rfl⟩ := StreamPhase.verdict_step hnext rfl
              cases rest with
              | nil => exact .inl rfl
              | cons m' more =>
                  obtain ⟨q', hnext', _⟩ := Option.bind_eq_some_iff.mp hrest
                  cases m' with
                  | fire => simp [StreamPhase.next] at hnext'
                  | push c' =>
                      cases c' with
                      | streamEnd => exact .inr ⟨chunks more, rfl⟩
                      | headers status headers => simp [StreamPhase.next] at hnext'
                      | body bytes => simp [StreamPhase.next] at hnext'
                      | returnValue w => simp [StreamPhase.next] at hnext'
                      | error e => simp [StreamPhase.next] at hnext'

/-- On every stream that bridge calls push for a request, whole or cut anywhere, the
two collectors return the same; there are other streams on which they differ. -/
theorem collectors_agree (serde : SerdeJson) (q : TaskQueue) (workerId : UInt32)
    (steps : List Step) :
    (∀ r ∈ q.tasks, ∀ chunks,
      chunks <+: streamChunks r (run serde steps (q.start workerId)).effects →
      collectStreamToValue chunks = collectStream chunks) ∧
    ∃ chunks, collectStreamToValue chunks ≠ collectStream chunks := by
  constructor
  · intro r hr chunks hpre
    obtain ⟨p, hphase, _⟩ := (ledger_of_run serde q workerId steps).settled r hr
    have hpushed : ReturnThenEnd (streamChunks r (run serde steps (q.start workerId)).effects) :=
      returnThenEnd_of_runs hphase
    exact drain_agree (hpushed.of_prefix hpre) .empty
  · refine ⟨[.returnValue .null, .error (.new "late")], ?_⟩
    intro heq
    cases heq

/-- A response cut after its headers, from the steps of a handler that wrote a body. -/
theorem cut_stream_collected :
    collectStreamToValue [.headers 200 []] = collectStream [.headers 200 []] := by
  refine (collectors_agree .ofNull (.single (.bare 1)) 1
    [.loopRecv, .call (.writeHead true 200 []), .call (.write true [65])]).1 (.bare 1) ?_ _ ?_
  · exact List.mem_singleton.mpr rfl
  · exact ⟨[.body [65]], rfl⟩

end FolkCore.Ext
