import StateTrace.Wire.Decode

/-!
# Playback

A *playback* is a trace being read: the versions of its header, the source that
holds the records still to come with the buffer for their payloads, and the count
of the records read so far.
`start` reads the header and `next` one record.  `next` can be called again after
an error and goes on with whatever the source gives then.

`consume` hands the remaining records to a visitor, one at a time, until the
visitor stops, the trace ends or a record cannot be read.  No record is read
ahead of the visitor.  `drain` collects the remaining records, and a
`RecordStream` gives them one by one but ends for good at the first error.

`size_source_next_lt` says that every record read makes the source smaller.  It
is what ends `consume`.
-/

namespace StateTrace

/-- A trace being read. -/
structure Playback where
  /-- What is left of the trace, and the buffer for payloads. -/
  input : Input
  major : UInt32
  minor : UInt32
  /-- How many records were read. -/
  recordsRead : Nat
deriving DecidableEq, Repr, Inhabited

namespace Playback

/-- Read the header of a trace. -/
def start (source : Source) : Except ReadError Playback :=
  match Decoder.header ⟨source, []⟩ with
  | (.ok (major, minor), rest) => .ok ⟨rest, major, minor, 0⟩
  | (.error error, _) => .error error

/-- Read the next record, or `none` at the end of the trace.  Only a record that
was read is counted. -/
def next (playback : Playback) : Except ReadError (Option Record) × Playback :=
  match Decoder.record? playback.input with
  | (.ok (some r), rest) =>
      (.ok (some r), { playback with input := rest, recordsRead := playback.recordsRead + 1 })
  | (answer, rest) => (answer, { playback with input := rest })

/-- Every record read makes the source smaller. -/
theorem size_source_next_lt {playback after : Playback} {r : Record}
    (h : playback.next = (.ok (some r), after)) :
    after.input.source.size < playback.input.source.size := by
  unfold next at h
  split at h
  · next hr =>
      cases h
      exact Decoder.size_lt_of_record? hr
  · next answer rest hne hr =>
      cases h
      exact (hne r rfl).elim

/-! ## Consuming the rest of a trace -/

/-- How consuming a trace ends. -/
inductive Ending (β : Type) where
  /-- The trace ended after a record. -/
  | complete
  /-- The next record could not be read. -/
  | failed (error : ReadError)
  /-- The visitor stopped. -/
  | stopped (verdict : β)
deriving DecidableEq, Repr, Inhabited

/-- What consuming a trace leaves behind. -/
structure Consumed (σ β : Type) where
  ending : Ending β
  /-- How many records the visitor got. -/
  count : Nat
  /-- The state of the visitor. -/
  state : σ
  /-- The playback, after the last record or error. -/
  playback : Playback

/-- A consumer of records with a state.  It stops the playback by a verdict. -/
abbrev Visitor (σ β : Type) := Record → StateM σ (Option β)

/-- Hand records to a visitor that got `count` of them before. -/
def consumeFrom {σ β : Type} (visit : Visitor σ β) (count : Nat) (state : σ)
    (playback : Playback) : Consumed σ β :=
  match _h : playback.next with
  | (.error error, after) => ⟨.failed error, count, state, after⟩
  | (.ok none, after) => ⟨.complete, count, state, after⟩
  | (.ok (some r), after) =>
      match visit r state with
      | (some verdict, state) => ⟨.stopped verdict, count + 1, state, after⟩
      | (none, state) => consumeFrom visit (count + 1) state after
termination_by playback.input.source.size
decreasing_by exact size_source_next_lt (by assumption)

section ConsumeFrom
variable {σ β : Type} {visit : Visitor σ β} {count : Nat} {state : σ} {playback after : Playback}

/-- At the end of the trace the visitor is left as it is. -/
theorem consumeFrom_complete (h : playback.next = (.ok none, after)) :
    consumeFrom visit count state playback = ⟨.complete, count, state, after⟩ := by
  rw [consumeFrom]
  split
  · next hn => rw [h] at hn; cases hn
  · next hn => rw [h] at hn; cases hn; rfl
  · next hn => rw [h] at hn; cases hn

/-- At an error the visitor is left as it is. -/
theorem consumeFrom_failed {error : ReadError} (h : playback.next = (.error error, after)) :
    consumeFrom visit count state playback = ⟨.failed error, count, state, after⟩ := by
  rw [consumeFrom]
  split
  · next hn => rw [h] at hn; cases hn; rfl
  · next hn => rw [h] at hn; cases hn
  · next hn => rw [h] at hn; cases hn

/-- A record at which the visitor stops is the last one. -/
theorem consumeFrom_stopped {r : Record} {verdict : β} {state' : σ}
    (h : playback.next = (.ok (some r), after)) (hv : visit r state = (some verdict, state')) :
    consumeFrom visit count state playback = ⟨.stopped verdict, count + 1, state', after⟩ := by
  rw [consumeFrom]
  split
  · next hn => rw [h] at hn; cases hn
  · next hn => rw [h] at hn; cases hn
  · next hn => rw [h] at hn; cases hn; simp only [hv]

/-- After a record at which the visitor goes on, the rest is consumed. -/
theorem consumeFrom_record {r : Record} {state' : σ}
    (h : playback.next = (.ok (some r), after)) (hv : visit r state = (none, state')) :
    consumeFrom visit count state playback = consumeFrom visit (count + 1) state' after := by
  rw [consumeFrom]
  split
  · next hn => rw [h] at hn; cases hn
  · next hn => rw [h] at hn; cases hn
  · next hn => rw [h] at hn; cases hn; simp only [hv]

end ConsumeFrom

/-- Hand the remaining records to a visitor, counting from the first of them. -/
def consume {σ β : Type} (visit : Visitor σ β) (state : σ) (playback : Playback) : Consumed σ β :=
  consumeFrom visit 0 state playback

/-- The visitor that keeps every record. -/
def collect : Visitor (Array Record) Empty := fun r records => (none, records.push r)

/-- The remaining records in order, the error that ended them if there was one,
and the playback after them. -/
def drain (playback : Playback) : List Record × Option ReadError × Playback :=
  let consumed := playback.consume collect #[]
  let error := match consumed.ending with
    | .complete => none
    | .failed error => some error
  (consumed.state.toList, error, consumed.playback)

end Playback

/-! ## Records one by one -/

/-- The remaining records of a playback, up to its end or its first error. -/
structure RecordStream where
  /-- The playback that the records come from. -/
  playback : Playback
  /-- The end or an error was reached. -/
  done : Bool
deriving DecidableEq, Repr, Inhabited

namespace RecordStream

/-- The records that a playback still has. -/
def ofPlayback (playback : Playback) : RecordStream := ⟨playback, false⟩

/-- The next record or the error in its place.  After either the end or an error
there is nothing more, and the playback is left alone. -/
def next (stream : RecordStream) : Option (Except ReadError Record) × RecordStream :=
  if stream.done then (none, stream)
  else
    match stream.playback.next with
    | (.ok (some r), after) => (some (.ok r), ⟨after, false⟩)
    | (.ok none, after) => (none, ⟨after, true⟩)
    | (.error error, after) => (some (.error error), ⟨after, true⟩)

end RecordStream

end StateTrace
