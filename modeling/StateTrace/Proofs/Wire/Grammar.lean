import StateTrace.Record.Event
import StateTrace.Wire.Format
import StateTrace.Wire.ReadError

/-!
# The grammar of records

The bytes of a record, written down as a grammar and apart from any decoder.  A
record is a *head* and a payload.  The head is everything up to the payload: the
mask of the scope, the parts that the mask announces, the number of the event and
the length of the payload.

`Spells r w` says that `w` is the bytes of `r`.  One record has many spellings,
since the bodies of parts that are not known and the payloads of events that are
not known leave no trace in it.

`Refuses bytes error after` says why no record can be read from `bytes`.  It holds
for one error and for one remainder `after`, which is what the next attempt starts
from.  The order of the checks is in the side conditions: each rule denies the
failures that come before its own.
-/

namespace StateTrace.Wire

/-! ## Heads -/

/-- The number of bits of a mask that announce a part without fields here. -/
def foreignCount (mask : UInt32) : Nat :=
  (List.range 32).countP fun i => mask.toNat.testBit i && i != 1 && i != 2

/-- The reserved bit and the top bit announce parts without fields. -/
example : foreignCount 0x80000007 = 2 := by decide

/-- The parts of a scope that a mask announces, in their order. -/
structure ScopeParts (mask : UInt32) where
  /-- The time of the simulation. -/
  simUs : Option Double
  /-- The node and its time. -/
  node : Option (UInt16 × NodeTime)
  /-- The bodies of the parts that are not known. -/
  bodies : List (List UInt8)
  isSome_simUs : simUs.isSome = (mask &&& 0x2 != 0)
  isSome_node : node.isSome = (mask &&& 0x4 != 0)
  length_bodies : bodies.length = foreignCount mask
  /-- The length of a body fits two bytes. -/
  length_body_lt : ∀ body ∈ bodies, body.length < 65536

namespace ScopeParts
variable {mask : UInt32}

/-- The bytes of a node and its time. -/
def nodeBytes (node : UInt16 × NodeTime) : List UInt8 :=
  BigEndian.ofUInt16 node.1 ++ node.2.toBytes

/-- A body after its length. -/
def bodyBytes (body : List UInt8) : List UInt8 :=
  BigEndian.encode 2 body.length ++ body

/-- The bytes of the parts, one after the other. -/
def bytes (parts : ScopeParts mask) : List UInt8 :=
  parts.simUs.elim [] Double.toBytes ++ parts.node.elim [] nodeBytes ++
    parts.bodies.flatMap bodyBytes

/-- The scope that the parts make.  A part that is not there leaves its fields zero,
and parts that are not known leave one flag for all. -/
def scope (parts : ScopeParts mask) : Scope where
  flags := ⟨(mask &&& 0x6) ||| if mask &&& ~~~0x6 = 0 then 0 else 0x1⟩
  simUs := parts.simUs.getD .zero
  nodeId := (parts.node.map Prod.fst).getD 0
  nodeTime := (parts.node.map Prod.snd).getD .zero

end ScopeParts

/-- A record up to its payload. -/
structure Head where
  mask : UInt32
  parts : ScopeParts mask
  /-- The number of the event. -/
  number : UInt16
  /-- The length of the payload. -/
  length : UInt32

/-- The bytes of a head. -/
def Head.bytes (head : Head) : List UInt8 :=
  BigEndian.ofUInt32 head.mask ++ head.parts.bytes ++ BigEndian.ofUInt16 head.number ++
    BigEndian.ofUInt32 head.length

/-! ## Payloads -/

/-- The payload of an event, by its number. -/
inductive Payload : UInt16 → List UInt8 → Event → Prop
  | monitorCreate {stateOffset dataOffset byteOffset : NodeTime} {order : ByteOrder} :
      Payload 1
        (stateOffset.toBytes ++ dataOffset.toBytes ++ byteOffset.toBytes ++ [order.toByte])
        (.monitorCreate ⟨stateOffset, dataOffset, byteOffset, order⟩)
  | monitorState {context entity state : UInt16} :
      Payload 2
        (BigEndian.ofUInt16 context ++ BigEndian.ofUInt16 entity ++ BigEndian.ofUInt16 state)
        (.monitorState ⟨context, entity, state⟩)
  | monitorData {context entity : UInt16} {size : UInt32} {data : List UInt8} :
      data.length = size.toNat →
      Payload 3
        (BigEndian.ofUInt16 context ++ BigEndian.ofUInt16 entity ++ BigEndian.ofUInt32 size ++ data)
        (.monitorData ⟨context, entity, data⟩)
  | nodeCreate : Payload 4 [] .nodeCreate
  | nodeDestroy : Payload 5 [] .nodeDestroy
  | nodePosition {x y z : Double} :
      Payload 6 (x.toBytes ++ y.toBytes ++ z.toBytes) (.nodePosition ⟨x, y, z⟩)
  | unknown {number : UInt16} {payload : List UInt8} :
      6 < number → Payload number payload (.unknown number)

/-- The events whose payloads have all one length: number, name and length. -/
inductive FixedLength : UInt16 → String → Nat → Prop
  | monitorCreate : FixedLength 1 "mon_create" 49
  | monitorState : FixedLength 2 "mon_state" 6
  | nodeCreate : FixedLength 4 "node_create" 0
  | nodeDestroy : FixedLength 5 "node_destroy" 0
  | nodePosition : FixedLength 6 "node_position" 24

/-! ## Records -/

/-- The bytes of a record. -/
inductive Spells : Record → List UInt8 → Prop
  | record {head : Head} {payload : List UInt8} {event : Event} :
      payload.length = head.length.toNat → head.length.toNat ≤ maxPayloadLength →
      Payload head.number payload event →
      Spells ⟨head.parts.scope, event⟩ (head.bytes ++ payload)

/-- Why no event can be read after its number and the length of its payload.  Before
the payload is taken, the source still holds it. -/
inductive RefusesEvent (number : UInt16) (length : Nat) :
    List UInt8 → ReadError → List UInt8 → Prop
  | reserved {rest : List UInt8} :
      number = 0 → RefusesEvent number length rest (.invalid "event type" 0) rest
  | tooLarge {rest : List UInt8} :
      number ≠ 0 → maxPayloadLength < length →
      RefusesEvent number length rest (.tooLarge "event payload" length maxPayloadLength) rest
  | wrongLength {rest : List UInt8} {name : String} {expected : Nat} :
      length ≤ maxPayloadLength → FixedLength number name expected → length ≠ expected →
      RefusesEvent number length rest (.inconsistent name length expected) rest
  | missing {rest : List UInt8} :
      number ≠ 0 → length ≤ maxPayloadLength →
      (∀ name expected, FixedLength number name expected → length = expected) →
      rest.length < length → RefusesEvent number length rest .truncated []
  | byteOrder {offsets after : List UInt8} {letter : UInt8} :
      number = 1 → length = 49 → offsets.length = 48 → letter ≠ 0x42 → letter ≠ 0x6c →
      RefusesEvent number length (offsets ++ letter :: after)
        (.invalid "byte order" letter.toNat) after
  | dataHeader {payload after : List UInt8} :
      number = 3 → payload.length = length → length < 8 →
      RefusesEvent number length (payload ++ after) (.inconsistent "mon_data" length 8) after
  | dataLength {context entity : UInt16} {size : UInt32} {data after : List UInt8} :
      number = 3 → length ≤ maxPayloadLength → length = 8 + data.length →
      size.toNat ≠ data.length →
      RefusesEvent number length
        (BigEndian.ofUInt16 context ++ BigEndian.ofUInt16 entity ++ BigEndian.ofUInt32 size ++
          data ++ after)
        (.inconsistent "mon_data" length (8 + size.toNat)) after

/-- Why no record can be read.  A trace that ends inside a head is read to its end. -/
inductive Refuses : List UInt8 → ReadError → List UInt8 → Prop
  | head {head : Head} {bytes missing : List UInt8} :
      bytes ≠ [] → missing ≠ [] → bytes ++ missing = head.bytes → Refuses bytes .truncated []
  | event {head : Head} {rest after : List UInt8} {error : ReadError} :
      RefusesEvent head.number head.length.toNat rest error after →
      Refuses (head.bytes ++ rest) error after

end StateTrace.Wire
