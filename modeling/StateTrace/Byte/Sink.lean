import StateTrace.Byte.StreamError

/-!
# Byte sinks

A *sink* is where bytes are written: those it holds, the room that is left, and
what it does when it is full.  Writing is all or error, but an error does not
undo anything.  A write that does not fit leaves in the sink what did fit, and
the sink stays usable and full.

`Output` is the monad of programs that write.  `write_of_fits` and
`write_of_not_fits` say what one write does.
-/

namespace StateTrace

/-- What a full sink does with a write that is not empty. -/
inductive Sink.Refusal where
  /-- It fails with an error of its own.  A write that is interrupted is tried again, so an
  interruption is not what it fails with. -/
  | fails (error : StreamError) (lasting : error.kind ≠ .interrupted)
  /-- It takes nothing and reports nothing. -/
  | takesNothing
deriving DecidableEq, Repr, Inhabited

/-- A stream that takes bytes. -/
structure Sink where
  /-- The bytes taken so far. -/
  written : Array UInt8
  /-- How many more bytes it takes.  Without a limit it never fills. -/
  room : Option Nat
  /-- What it does when it is full. -/
  refusal : Sink.Refusal
  /-- The error of flushing it, if flushing fails. -/
  flushError : Option StreamError
deriving DecidableEq, Repr, Inhabited

namespace Sink

/-- An empty sink that never fills and never fails. -/
def unlimited : Sink := ⟨#[], none, .takesNothing, none⟩

/-- The bytes taken so far, as a list. -/
def bytes (sink : Sink) : List UInt8 := sink.written.toList

/-- All of `data` fits. -/
def Fits (sink : Sink) (data : List UInt8) : Prop :=
  ∀ n, sink.room = some n → data.length ≤ n

/-- The error of a write that does not fit. -/
def Refusal.error : Refusal → StreamError
  | fails error _ => error
  | takesNothing => .writeZero

end Sink

/-- Programs that write to a sink and may fail. -/
abbrev Output := ExceptT StreamError (StateM Sink)

namespace Sink

/-- Write all of `data`, or as much as fits and then fail. -/
def write (data : List UInt8) : Output Unit := fun sink =>
  match sink.room with
  | none => (.ok (), { sink with written := sink.written ++ data })
  | some n =>
      let size := data.length
      if size ≤ n then
        (.ok (), { sink with written := sink.written ++ data, room := some (n - size) })
      else (.error sink.refusal.error,
        { sink with written := sink.written ++ data.take n, room := some 0 })

/-- Make sure that everything written has arrived. -/
def flush : Output Unit := fun sink =>
  match sink.flushError with
  | none => (.ok (), sink)
  | some error => (.error error, sink)

/-- A write that fits succeeds and appends all of its bytes. -/
theorem write_of_fits {sink : Sink} {data : List UInt8} (h : sink.Fits data) :
    (write data sink).1 = .ok () ∧ (write data sink).2.bytes = sink.bytes ++ data := by
  cases hr : sink.room with
  | none => simp [write, hr, bytes]
  | some n => simp [write, hr, bytes, h n hr]

/-- A write that does not fit fails and appends what does fit. -/
theorem write_of_not_fits {sink : Sink} {data : List UInt8} {n : Nat} (hr : sink.room = some n)
    (h : n < data.length) :
    (write data sink).1 = .error sink.refusal.error ∧
      (write data sink).2.bytes = sink.bytes ++ data.take n := by
  simp [write, hr, bytes, Nat.not_le.mpr h]

end Sink

end StateTrace
