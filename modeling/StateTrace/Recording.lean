import StateTrace.Byte.Sink
import StateTrace.Playback
import StateTrace.Wire.Encode

/-!
# Recording

A trace is recorded by starting it with a header, appending records, and
finishing it.  Appending can go on after a record that was refused, and such a
record leaves no byte behind.  A record that does not fit the sink leaves the
part that does.

`transcribe` records everything that a playback still has.
-/

namespace StateTrace.Recording

/-- Write the header of a trace: the magic number and the two versions. -/
def start (major minor : UInt32) : Output Unit := do
  Sink.write Wire.magic
  Sink.write (BigEndian.ofUInt32 major)
  Sink.write (BigEndian.ofUInt32 minor)

/-- Append a record, or refuse it and write nothing. -/
def append (r : Record) : Output Unit :=
  match Wire.recordBytes r with
  | .ok bytes => Sink.write bytes
  | .error error => throw error.toStreamError

/-- Append records in order and go on after a failure.  The results say what came
of each. -/
def appendAll (records : List Record) : StateM Sink (List (Except StreamError Unit)) :=
  records.mapM fun r => (append r).run

/-- Complete a trace. -/
def finish : Output Unit := Sink.flush

/-- A recording of the records of another trace. -/
structure Transcript where
  records : List Record
  /-- What came of appending each of them. -/
  results : List (Except StreamError Unit)
  /-- The error that ended the records, if there was one. -/
  error : Option ReadError
  /-- The sink with the new trace. -/
  sink : Sink

/-- Record everything that a playback still has as a new trace of the current
version. -/
def transcribe (playback : Playback) : Transcript :=
  let (records, error, _) := playback.drain
  let started := (start Wire.majorVersion Wire.minorVersion Sink.unlimited).2
  let (results, sink) := appendAll records started
  ⟨records, results, error, sink⟩

end StateTrace.Recording
