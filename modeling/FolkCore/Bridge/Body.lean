import FolkCore.Bridge.State

/-!
# Reading the request body

Raw bodies are read with `do_read` and `do_read_all`, multipart bodies with
`do_next_part`, `do_part_read` and `do_part_read_all`. All five share the
leftover buffer. A `blocking_recv` takes the head of the item list; the empty
list is the closed channel.
-/

namespace FolkCore.Bridge

/-- `split_to(length.min(len))`: hand out a prefix of the leftover buffer. -/
def splitLeftover (length : Nat) (st : WorkerState) : Bytes × WorkerState :=
  (st.currentBodyLeftover.take length,
    { st with currentBodyLeftover := st.currentBodyLeftover.drop length })

/-- `do_read`: the body kind is looked at only when the buffer is empty. -/
def doRead (length : Nat) (st : WorkerState) : Bytes × WorkerState :=
  if st.currentBodyLeftover.isEmpty then
    match st.currentBody with
    | some (.raw (chunk :: rest)) =>
        splitLeftover length
          { st with currentBody := some (.raw rest), currentBodyLeftover := chunk }
    | _ => ([], st)
  else splitLeftover length st

/-- `do_read_all`: the buffer, then every chunk up to the close. -/
def doReadAll (st : WorkerState) : Bytes × WorkerState :=
  match st.currentBody with
  | some (.raw chunks) =>
      (st.currentBodyLeftover ++ chunks.flatten,
        { st with currentBody := some (.raw []), currentBodyLeftover := [] })
  | _ => (st.currentBodyLeftover, { st with currentBodyLeftover := [] })

/-- Discard the rest of the current part. The flag tells whether its `partEnd`
was found; a `start` or the close is consumed as the offending item. -/
def drainPart : List RequestPart → Bool × List RequestPart
  | .data _ :: rest => drainPart rest
  | .partEnd :: rest => (true, rest)
  | .start _ :: rest => (false, rest)
  | [] => (false, [])

/-- Receive one item as the header of the next part. -/
def readHeader (serde : SerdeJson) (items : List RequestPart) (st : WorkerState) :
    Option String × WorkerState :=
  match items with
  | .start header :: rest =>
      (some (serde.toText header.toValue),
        { st with currentBody := some (.parts rest), currentPartState := .inPart })
  | _ =>
      (none, { st with currentBody := some (.parts items.tail), currentPartState := .done })

/-- `do_next_part`: skip what is left of the current part, then read a header. -/
def doNextPart (serde : SerdeJson) (st : WorkerState) : Option String × WorkerState :=
  match st.currentBody with
  | some (.parts items) =>
      match st.currentPartState with
      | .done => (none, st)
      | .inPart =>
          match drainPart items with
          | (true, rest) => readHeader serde rest { st with currentBodyLeftover := [] }
          | (false, rest) =>
              (none,
                { st with
                  currentBody := some (.parts rest)
                  currentBodyLeftover := []
                  currentPartState := .done })
      | _ => readHeader serde items { st with currentBodyLeftover := [] }
  | _ => (none, st)

/-- `do_part_read`: refill from one `data` item when the buffer is empty. -/
def doPartRead (length : Nat) (st : WorkerState) : Bytes × WorkerState :=
  if st.currentPartState ≠ .inPart then ([], st)
  else if st.currentBodyLeftover.isEmpty then
    match st.currentBody with
    | some (.parts items) =>
        match items with
        | .data chunk :: rest =>
            splitLeftover length
              { st with currentBody := some (.parts rest), currentBodyLeftover := chunk }
        | .partEnd :: rest =>
            ([], { st with currentBody := some (.parts rest), currentPartState := .partEnded })
        | _ =>
            ([], { st with
              currentBody := some (.parts items.tail), currentPartState := .done })
    | _ => ([], st)
  else splitLeftover length st

/-- The receive loop of `do_part_read_all`: the data up to the first other item,
the cursor position that item gives, and what stays on the channel. -/
def collectPart : List RequestPart → Bytes × PartState × List RequestPart
  | .data chunk :: rest =>
      let tail := collectPart rest
      (chunk ++ tail.1, tail.2)
  | .partEnd :: rest => ([], .partEnded, rest)
  | .start _ :: rest => ([], .done, rest)
  | [] => ([], .done, [])

/-- `do_part_read_all`: the buffer, then the rest of the current part. -/
def doPartReadAll (st : WorkerState) : Bytes × WorkerState :=
  if st.currentPartState ≠ .inPart then ([], st)
  else
    match st.currentBody with
    | some (.parts items) =>
        let part := collectPart items
        (st.currentBodyLeftover ++ part.1,
          { st with
            currentBody := some (.parts part.2.2)
            currentBodyLeftover := []
            currentPartState := part.2.1 })
    | _ => (st.currentBodyLeftover, { st with currentBodyLeftover := [] })

end FolkCore.Bridge
