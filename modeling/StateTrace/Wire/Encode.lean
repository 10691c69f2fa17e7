import StateTrace.Record.Event
import StateTrace.Wire.Format
import StateTrace.Byte.StreamError

/-!
# Encoding records

The bytes of a header and of a record, and the records that have none.  A record
is refused if it could not be read back as what it is: an unknown event under a
number that is reserved or belongs to a kind, or a payload whose length does not
fit its field.

Scope flags without fields are not written, so a scope loses its `unknown` flag.
An unknown event is written with an empty payload, since its own was not kept.
-/

namespace StateTrace

/-- Why a record cannot be written. -/
inductive EncodeError where
  /-- The number of an unknown event is reserved or belongs to a kind. -/
  | assignedNumber (raw : UInt16)
  /-- The length of the data does not fit its field. -/
  | dataTooLarge
  /-- The length of the payload does not fit its field. -/
  | payloadTooLarge
deriving DecidableEq, Repr, Inhabited

namespace EncodeError

def message : EncodeError → String
  | assignedNumber raw => s!"event type {raw} cannot be written as an unknown event"
  | dataTooLarge => "data event too large"
  | payloadTooLarge => "event payload too large"

/-- The error as the stream reports it: the input was not valid. -/
def toStreamError (error : EncodeError) : StreamError :=
  ⟨.invalidInput, error.message⟩

end EncodeError

namespace Wire

/-- Lengths below this fit a length field of four bytes. -/
def lengthLimit : Nat := 4294967296

def headerBytes (major minor : UInt32) : List UInt8 :=
  magic ++ BigEndian.ofUInt32 major ++ BigEndian.ofUInt32 minor

theorem length_headerBytes (major minor : UInt32) :
    (headerBytes major minor).length = headerLength := by
  simp [headerBytes, magic, headerLength]

/-- The bytes of the time of the simulation, if it is set. -/
def simulationBytes (scope : Scope) : List UInt8 :=
  match scope.simUs? with
  | some simUs => simUs.toBytes
  | none => []

/-- The bytes of the node and its time, if they are set. -/
def nodeBytes (scope : Scope) : List UInt8 :=
  match scope.node? with
  | some (nodeId, nodeTime) => BigEndian.ofUInt16 nodeId ++ nodeTime.toBytes
  | none => []

/-- The bytes of a scope: the flags that have fields, and those fields. -/
def scopeBytes (scope : Scope) : List UInt8 :=
  BigEndian.ofUInt32 (scope.flags.inter .decoded).bits ++ simulationBytes scope ++ nodeBytes scope

/-- The number that an event is written under. -/
def eventNumber : Event → Except EncodeError UInt16
  | .unknown raw =>
      if raw = 0 ∨ (Kind.ofWire? raw).isSome then .error (.assignedNumber raw) else .ok raw
  | event => .ok (event.kind.wire?.getD 0)

/-- The bytes of a data payload. -/
def dataPayloadBytes (payload : MonitorData) : Except EncodeError (List UInt8) :=
  let size := payload.data.length
  if lengthLimit ≤ size then .error .dataTooLarge
  else .ok (BigEndian.ofUInt16 payload.context ++ BigEndian.ofUInt16 payload.entity ++
    BigEndian.encode 4 size ++ payload.data)

/-- The bytes of the payload of an event. -/
def payloadBytes : Event → Except EncodeError (List UInt8)
  | .unknown _ => .ok []
  | .monitorCreate payload =>
      .ok (payload.stateOffset.toBytes ++ payload.dataOffset.toBytes ++
        payload.byteOffset.toBytes ++ [payload.byteOrder.toByte])
  | .monitorState payload =>
      .ok (BigEndian.ofUInt16 payload.context ++ BigEndian.ofUInt16 payload.entity ++
        BigEndian.ofUInt16 payload.state)
  | .monitorData payload => dataPayloadBytes payload
  | .nodeCreate => .ok []
  | .nodeDestroy => .ok []
  | .nodePosition payload =>
      .ok (payload.x.toBytes ++ payload.y.toBytes ++ payload.z.toBytes)

/-- The bytes of an event: its number, the length of its payload, and the
payload. -/
def eventBytes (event : Event) : Except EncodeError (List UInt8) := do
  let raw ← eventNumber event
  let payload ← payloadBytes event
  let length := payload.length
  if lengthLimit ≤ length then .error .payloadTooLarge
  else .ok (BigEndian.ofUInt16 raw ++ BigEndian.encode 4 length ++ payload)

/-- The bytes of a record: its scope and its event. -/
def recordBytes (r : Record) : Except EncodeError (List UInt8) := do
  let event ← eventBytes r.event
  return scopeBytes r.scope ++ event

/-- A state event without a scope: no flags, kind 2, six bytes of payload. -/
example : recordBytes ⟨.empty, .monitorState ⟨1, 2, 3⟩⟩ =
    .ok [0, 0, 0, 0, 0, 2, 0, 0, 0, 6, 0, 1, 0, 2, 0, 3] := rfl

/-- The number of a kind is not free for unknown events. -/
example : recordBytes ⟨.empty, .unknown 6⟩ = .error (.assignedNumber 6) := rfl

end Wire

end StateTrace
