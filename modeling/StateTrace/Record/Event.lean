import StateTrace.Record.Scope

/-!
# Events and records

A *record* is a scope with one event.  There are six kinds of event with a
number of their own on the wire, and the kind `unknown` for every other number.
`Kind.ofWire?` and `Kind.wire?` are inverse to each other on the six
(`Kind.ofWire?_eq_some_iff`).  Zero is reserved, and no kind has it.

Only `monitorState` events feed the automata.  The others pass through to
whoever consumes a trace.

Records have two equalities.  Equality proper is equality bit for bit.  `numEq`
compares times and positions as numbers, so a record that holds a NaN is not
`numEq` to itself.
-/

namespace StateTrace

/-! ## Kinds -/

/-- What an event is about. -/
inductive Kind where
  /-- An event this version does not know. -/
  | unknown
  | monitorCreate
  | monitorState
  | monitorData
  | nodeCreate
  | nodeDestroy
  | nodePosition
deriving DecidableEq, Repr, Inhabited

namespace Kind

/-- The name of a kind in messages. -/
def label : Kind → String
  | unknown => "unknown"
  | monitorCreate => "mon_create"
  | monitorState => "mon_state"
  | monitorData => "mon_data"
  | nodeCreate => "node_create"
  | nodeDestroy => "node_destroy"
  | nodePosition => "node_position"

/-- The number of a kind on the wire.  Unknown events share no number. -/
def wire? : Kind → Option UInt16
  | unknown => none
  | monitorCreate => some 1
  | monitorState => some 2
  | monitorData => some 3
  | nodeCreate => some 4
  | nodeDestroy => some 5
  | nodePosition => some 6

/-- The kinds that have a number. -/
def known : List Kind :=
  [monitorCreate, monitorState, monitorData, nodeCreate, nodeDestroy, nodePosition]

/-- The kind with a given number on the wire. -/
def ofWire? (raw : UInt16) : Option Kind :=
  known.find? fun kind => kind.wire? == some raw

/-- A kind is read from exactly the number that it is written as. -/
theorem ofWire?_eq_some_iff {raw : UInt16} {kind : Kind} :
    ofWire? raw = some kind ↔ wire? kind = some raw := by
  constructor
  · intro h
    have hk := List.find?_some h
    exact beq_iff_eq.mp hk
  · intro h
    cases kind <;> cases h <;> rfl

/-- No number on the wire is that of an unknown event. -/
theorem ofWire?_ne_unknown (raw : UInt16) : ofWire? raw ≠ some unknown := by
  simp [ofWire?_eq_some_iff, wire?]

/-- The payload length of a kind, where it is the same for all events of the
kind. -/
def fixedLength? : Kind → Option Nat
  | monitorCreate => some 49
  | monitorState => some 6
  | nodeCreate => some 0
  | nodeDestroy => some 0
  | nodePosition => some 24
  | monitorData => none
  | unknown => none

end Kind

/-! ## Payloads -/

/-- The byte order of a node's processor.  It is reported and not applied. -/
inductive ByteOrder where
  | big
  | little
deriving DecidableEq, Repr, Inhabited

namespace ByteOrder

/-- The letter of a byte order: `B` for big and `l` for little. -/
def toByte : ByteOrder → UInt8
  | big => 0x42
  | little => 0x6c

/-- The byte order of a letter. -/
def ofByte? (b : UInt8) : Option ByteOrder :=
  if b = toByte big then some big
  else if b = toByte little then some little
  else none

/-- A byte order is read from exactly its own letter. -/
theorem ofByte?_eq_some_iff {b : UInt8} {order : ByteOrder} :
    ofByte? b = some order ↔ b = order.toByte := by
  unfold ofByte?
  by_cases hb : b = toByte big
  · subst hb
    cases order <;> simp [toByte]
  · by_cases hl : b = toByte little
    · subst hl
      cases order <;> simp [toByte]
    · cases order <;> simp [hb, hl]

end ByteOrder

/-- The start of a monitor: the offset of each of its clocks, and the byte order
of the node. -/
structure MonitorCreate where
  /-- The offset of the clock of state events. -/
  stateOffset : NodeTime
  /-- The offset of the clock of data events. -/
  dataOffset : NodeTime
  /-- The offset of the clock of byte events. -/
  byteOffset : NodeTime
  byteOrder : ByteOrder
deriving DecidableEq, Repr, Inhabited

/-- An entity enters a state of the automaton of a context. -/
structure MonitorState where
  context : UInt16
  /-- The entity within the context. -/
  entity : UInt16
  state : UInt16
deriving DecidableEq, Repr, Inhabited

/-- Data sent by an entity of a context. -/
structure MonitorData where
  context : UInt16
  /-- The entity within the context. -/
  entity : UInt16
  /-- The data, as sent. -/
  data : List UInt8
deriving DecidableEq, Repr, Inhabited

/-- A position of a node in the simulation. -/
structure NodePosition where
  x : Double
  y : Double
  z : Double
deriving DecidableEq, Repr, Inhabited

/-- Equality with the offsets compared as numbers. -/
def MonitorCreate.numEq (a b : MonitorCreate) : Bool :=
  a.stateOffset.numEq b.stateOffset && a.dataOffset.numEq b.dataOffset &&
    a.byteOffset.numEq b.byteOffset && a.byteOrder == b.byteOrder

/-- Equality with the coordinates compared as numbers. -/
def NodePosition.numEq (a b : NodePosition) : Bool :=
  a.x.numEq b.x && a.y.numEq b.y && a.z.numEq b.z

/-! ## Events and records -/

/-- One event of a trace. -/
inductive Event where
  /-- An event with a number of no known kind.  Its payload is not kept. -/
  | unknown (raw : UInt16)
  | monitorCreate (payload : MonitorCreate)
  | monitorState (payload : MonitorState)
  | monitorData (payload : MonitorData)
  | nodeCreate
  | nodeDestroy
  | nodePosition (payload : NodePosition)
deriving DecidableEq, Repr, Inhabited

namespace Event

def kind : Event → Kind
  | unknown _ => .unknown
  | monitorCreate _ => .monitorCreate
  | monitorState _ => .monitorState
  | monitorData _ => .monitorData
  | nodeCreate => .nodeCreate
  | nodeDestroy => .nodeDestroy
  | nodePosition _ => .nodePosition

/-- Equality with times and positions compared as numbers. -/
def numEq : Event → Event → Bool
  | monitorCreate a, monitorCreate b => a.numEq b
  | nodePosition a, nodePosition b => a.numEq b
  | a, b => a == b

end Event

/-- One entry of a trace: an event and its scope. -/
structure Record where
  /-- When and where the event happened. -/
  scope : Scope
  event : Event
deriving DecidableEq, Repr, Inhabited

/-- Equality with times and positions compared as numbers. -/
def Record.numEq (a b : Record) : Bool :=
  a.scope.numEq b.scope && a.event.numEq b.event

end StateTrace
