import StateTrace.Byte.Source
import StateTrace.Record.Event
import StateTrace.Wire.Format
import StateTrace.Wire.ReadError

/-!
# Decoding records

A `Decoder` reads from a source and may fail.  Failing takes nothing back: what
was read before the failure stays read, and a later decoder goes on from there.
Its `Input` is the source and a buffer.  Every payload is read into the same
buffer, which is wiped first, so what an earlier record left there is gone.

`header` reads the header of a trace and `record?` the next record.  `record?`
gives `none` if the trace ends where a record would start.  The header is read
whole before it is checked.  So are the number of an event and the length of its
payload.  They are checked before the payload is read: a reserved number, a
length over the limit and a length that the kind does not have leave the payload
in the source.  A payload that is refused for its content has been read whole,
because it is taken from the source before it is looked into.

The parts of a scope that have no fields here are passed over one by one, lowest
bit first.  `foreignLoop` notes down which they are, and decoding goes on without the
notes (`foreignParts`).  `places_erase_lowest_lt` is why that ends.

`Shrinks` says that a decoder never makes a source larger, and
`size_lt_of_record?` that reading a record makes it smaller.  So every loop over
the records of a trace ends.
-/

namespace StateTrace

/-- What a decoder works on. -/
structure Input where
  /-- The source that is read from. -/
  source : Source
  /-- The payload read last, or as much of it as there was. -/
  buffer : List UInt8
deriving DecidableEq, Repr, Inhabited

/-- Programs that read from a source and may fail. -/
abbrev Decoder := ExceptT ReadError (StateM Input)

namespace Decoder

theorem bind_apply {α β : Type} (d : Decoder α) (f : α → Decoder β) (input : Input) :
    (d >>= f) input =
      match d input with
      | (.ok a, rest) => f a rest
      | (.error error, rest) => (.error error, rest) := by
  have h : (d >>= f) input =
      match d input with
      | (answer, rest) => ExceptT.bindCont f answer rest := rfl
  rw [h]
  rcases d input with ⟨_ | _, _⟩ <;> rfl

/-- A decoder that succeeds hands its result and the rest of its input on. -/
theorem bind_ok {α β : Type} {d : Decoder α} {f : α → Decoder β} {input rest : Input} {a : α}
    (h : d input = (.ok a, rest)) : (d >>= f) input = f a rest := by
  rw [bind_apply, h]

/-- A decoder that fails is the end of the sequence. -/
theorem bind_error {α β : Type} {d : Decoder α} {f : α → Decoder β} {input rest : Input}
    {error : ReadError} (h : d input = (.error error, rest)) :
    (d >>= f) input = (.error error, rest) := by
  rw [bind_apply, h]

/-- Fail unless a condition holds. -/
def require (condition : Bool) (error : ReadError) : Decoder Unit :=
  if condition then pure () else throw error

/-! ## Fields -/

/-- The next `n` bytes. -/
def exactly (n : Nat) : Decoder (List UInt8) := fun input =>
  let got := input.source.gather n
  let rest := { input with source := got.rest }
  match got.outcome with
  | .filled => (.ok got.bytes, rest)
  | .drained => (.error .truncated, rest)
  | .failed error => (.error (.ofStream error), rest)

/-- The next `n` bytes are passed over. -/
def skip (n : Nat) : Decoder Unit := do
  let _ ← exactly n

/-- A number of two bytes. -/
def uint16 : Decoder UInt16 := return BigEndian.toUInt16 (← exactly 2)

/-- A number of four bytes. -/
def uint32 : Decoder UInt32 := return BigEndian.toUInt32 (← exactly 4)

/-- A number of eight bytes. -/
def uint64 : Decoder UInt64 := return BigEndian.toUInt64 (← exactly 8)

/-- A double of eight bytes. -/
def double : Decoder Double := return Double.ofBytes (← exactly 8)

/-- The time of a node: cycles, then milliseconds. -/
def nodeTime : Decoder NodeTime := do
  let cycles ← uint64
  let nodeMs ← double
  return ⟨cycles, nodeMs⟩

/-- The letter of a byte order. -/
def byteOrder : Decoder ByteOrder := do
  let letter ← exactly 1
  match letter.head?.bind ByteOrder.ofByte? with
  | some order => return order
  | none => throw (.invalid "byte order" (BigEndian.decode letter))

/-! ## Header -/

/-- The header of a trace: its major and its minor version.  The magic number is
checked first, and the major version has to be the one that is read here. -/
def header : Decoder (UInt32 × UInt32) := do
  let bytes ← exactly Wire.headerLength
  let found := bytes.take 4
  require (found = Wire.magic) (.badMagic found)
  let major := BigEndian.toUInt32 ((bytes.drop 4).take 4)
  require (major = Wire.majorVersion) (.majorMismatch major Wire.majorVersion)
  return (major, BigEndian.toUInt32 (bytes.drop 8))

/-! ## Scopes -/

/-- The flags of the next record, or `none` at the end of the trace. -/
def recordStart : Decoder (Option ScopeFlags) := fun input =>
  let got := input.source.gather 4
  let rest := { input with source := got.rest }
  match got.outcome with
  | .filled => (.ok (some ⟨BigEndian.toUInt32 got.bytes⟩), rest)
  | .drained => (if got.bytes.isEmpty then .ok none else .error .truncated, rest)
  | .failed error => (.error (.ofStream error), rest)

/-- The body of a part that is not known: its length and that many bytes. -/
def foreignPart : Decoder UInt16 := do
  let length ← uint16
  skip length.toNat
  return length

/-- The note of a part that was passed over: its flag and its length. -/
abbrev PartNote := ScopeFlags × UInt16

/-- Erasing the lowest part of a set that has one leaves fewer. -/
theorem places_erase_lowest_lt {flags : ScopeFlags} (h : flags.bits ≠ 0) :
    (flags.erase flags.lowest).places.length < flags.places.length := by
  have hne : flags.places ≠ [] := fun hnil => h (flags.places_eq_nil_iff.mp hnil)
  have hpos := List.length_pos_iff.mpr hne
  rw [ScopeFlags.places_erase_lowest, List.length_tail]
  omega

/-- The bodies of the parts that are not known, the lowest part first.  Each marks
`scope` and is noted.  Without its last argument this is a decoder that keeps notes,
also if it fails. -/
def foreignLoop (foreign : ScopeFlags) (scope : Scope) (notes : List PartNote) (input : Input) :
    Except ReadError Scope × List PartNote × Input :=
  if foreign.bits = 0 then (.ok scope, notes, input)
  else
    match foreignPart input with
    | (.error error, rest) => (.error error, notes, rest)
    | (.ok length, rest) =>
        let flag := foreign.lowest
        foreignLoop (foreign.erase flag) scope.withUnknown (notes ++ [(flag, length)]) rest
termination_by foreign.places.length
decreasing_by exact places_erase_lowest_lt (by assumption)

/-- The bodies of the parts that are not known, without the notes. -/
def foreignParts (foreign : ScopeFlags) (scope : Scope) : Decoder Scope := fun input =>
  let (answer, _, rest) := foreignLoop foreign scope [] input
  (answer, rest)

/-- The time of the simulation, if its flag is set, added to `scope`. -/
def simulationPart (flags : ScopeFlags) (scope : Scope) : Decoder Scope :=
  if flags.contains .simulation then do
    return scope.withSimulation (← double)
  else return scope

/-- The node and its time, if their flag is set, added to `scope`. -/
def nodePart (flags : ScopeFlags) (scope : Scope) : Decoder Scope :=
  if flags.contains .node then do
    let nodeId ← uint16
    return scope.withNode nodeId (← nodeTime)
  else return scope

/-- The scope whose flags were read: the simulation, the node, and then the parts
that are not known. -/
def scope (flags : ScopeFlags) : Decoder Scope := do
  let simulated ← simulationPart flags .empty
  let placed ← nodePart flags simulated
  foreignParts (flags.erase .decoded) placed

/-! ## Events -/

/-- The payload of a data event of `length` bytes. -/
def dataPayload (length : Nat) : Decoder MonitorData := do
  require (Wire.dataHeaderLength ≤ length)
    (.inconsistent Kind.monitorData.label length Wire.dataHeaderLength)
  let context ← uint16
  let entity ← uint16
  let size := (← uint32).toNat
  let expected := Wire.dataHeaderLength + size
  require (expected = length) (.inconsistent Kind.monitorData.label length expected)
  return ⟨context, entity, ← exactly size⟩

/-- The payload of an event of a kind, `length` bytes long.  Unknown events have no
layout, and by `Kind.ofWire?_ne_unknown` none is ever decoded here. -/
def payload (length : Nat) : Kind → Decoder Event
  | .unknown => throw (.invalid "event type" 0)
  | .monitorCreate => do
      let stateOffset ← nodeTime
      let dataOffset ← nodeTime
      let byteOffset ← nodeTime
      return .monitorCreate ⟨stateOffset, dataOffset, byteOffset, ← byteOrder⟩
  | .monitorState => do
      let context ← uint16
      let entity ← uint16
      return .monitorState ⟨context, entity, ← uint16⟩
  | .monitorData => return .monitorData (← dataPayload length)
  | .nodeCreate => return .nodeCreate
  | .nodeDestroy => return .nodeDestroy
  | .nodePosition => do
      let x ← double
      let y ← double
      return .nodePosition ⟨x, y, ← double⟩

/-- Wipe the buffer, make it `n` bytes long and fill it from the source.  If the
source falls short, the end of the buffer stays blank. -/
def refill (n : Nat) : Decoder (List UInt8) := fun input =>
  let got := input.source.gather n
  let blank : List UInt8 := List.replicate n 0
  let buffer := got.bytes ++ blank.drop got.bytes.length
  let rest := ⟨got.rest, buffer⟩
  match got.outcome with
  | .filled => (.ok buffer, rest)
  | .drained => (.error .truncated, rest)
  | .failed error => (.error (.ofStream error), rest)

/-- Run a decoder on bytes that were already taken from the source. -/
def within {α : Type} (bytes : List UInt8) (d : Decoder α) : Decoder α := fun input =>
  ((d ⟨.ofBytes bytes, []⟩).1, input)

/-- An event of a known kind, after its number and the length of its payload.  A
kind of fixed length takes no other. -/
def knownEvent (kind : Kind) (length : Nat) : Decoder Event := do
  let expected := kind.fixedLength?.getD length
  require (length = expected) (.inconsistent kind.label length expected)
  let bytes ← refill length
  within bytes (payload length kind)

/-- An event of no known kind: its payload is passed over. -/
def foreignEvent (raw : UInt16) (length : Nat) : Decoder Event := do
  skip length
  return .unknown raw

/-- An event after its number and the length of its payload. -/
def eventBody (raw : UInt16) (length : Nat) : Decoder Event := do
  require (raw ≠ 0) (.invalid "event type" 0)
  require (length ≤ Wire.maxPayloadLength)
    (.tooLarge "event payload" length Wire.maxPayloadLength)
  match Kind.ofWire? raw with
  | some kind => knownEvent kind length
  | none => foreignEvent raw length

/-- An event: its number, the length of its payload, and the payload. -/
def event : Decoder Event := do
  let raw ← uint16
  let length ← uint32
  eventBody raw length.toNat

/-! ## Records -/

/-- The rest of a record after its flags. -/
def recordBody (flags : ScopeFlags) : Decoder Record := do
  let scope ← scope flags
  return ⟨scope, ← event⟩

/-- The next record, or `none` at the end of the trace. -/
def record? : Decoder (Option Record) := do
  match ← recordStart with
  | none => return none
  | some flags => return some (← recordBody flags)

/-! ## Parts that are not known -/

section Foreign
variable {foreign : ScopeFlags} {scope : Scope} {notes : List PartNote} {input rest : Input}

theorem foreignLoop_done (h : foreign.bits = 0) :
    foreignLoop foreign scope notes input = (.ok scope, notes, input) := by
  rw [foreignLoop, if_pos h]

theorem foreignLoop_error {error : ReadError} (h : foreign.bits ≠ 0)
    (hpart : foreignPart input = (.error error, rest)) :
    foreignLoop foreign scope notes input = (.error error, notes, rest) := by
  rw [foreignLoop, if_neg h, hpart]

theorem foreignLoop_ok {length : UInt16} (h : foreign.bits ≠ 0)
    (hpart : foreignPart input = (.ok length, rest)) :
    foreignLoop foreign scope notes input =
      foreignLoop (foreign.erase foreign.lowest) scope.withUnknown
        (notes ++ [(foreign.lowest, length)]) rest := by
  rw [foreignLoop, if_neg h, hpart]

/-- Induction over the parts that are left, the lowest part first. -/
@[elab_as_elim]
theorem foreignParts_induct {motive : ScopeFlags → Scope → Prop}
    (done : ∀ foreign scope, foreign.bits = 0 → motive foreign scope)
    (passed : ∀ foreign scope, foreign.bits ≠ 0 →
      motive (foreign.erase foreign.lowest) scope.withUnknown → motive foreign scope)
    (foreign : ScopeFlags) (scope : Scope) : motive foreign scope := by
  by_cases h : foreign.bits = 0
  · exact done foreign scope h
  · exact passed foreign scope h (foreignParts_induct done passed _ _)
termination_by foreign.places.length
decreasing_by exact places_erase_lowest_lt h

/-- Notes that were there stay in front of those of the loop and change nothing else. -/
theorem foreignLoop_notes (foreign : ScopeFlags) (scope : Scope) (notes : List PartNote)
    (input : Input) :
    foreignLoop foreign scope notes input =
      ((foreignLoop foreign scope [] input).1, notes ++ (foreignLoop foreign scope [] input).2.1,
        (foreignLoop foreign scope [] input).2.2) := by
  induction foreign, scope using foreignParts_induct generalizing notes input with
  | done foreign scope hzero =>
      rw [foreignLoop_done hzero, foreignLoop_done hzero, List.append_nil]
  | passed foreign scope hne ih =>
      rcases hpart : foreignPart input with ⟨error | length, rest⟩
      · rw [foreignLoop_error hne hpart, foreignLoop_error hne hpart, List.append_nil]
      · rw [foreignLoop_ok hne hpart, foreignLoop_ok hne hpart, ih, ih ([] ++ _),
          List.nil_append, List.append_assoc]

theorem foreignParts_done (h : foreign.bits = 0) : foreignParts foreign scope = pure scope := by
  funext input
  rw [foreignParts, foreignLoop_done h]
  rfl

/-- A part is passed over, and then the other parts are. -/
theorem foreignParts_passed (h : foreign.bits ≠ 0) :
    foreignParts foreign scope =
      foreignPart >>= fun _ => foreignParts (foreign.erase foreign.lowest) scope.withUnknown := by
  funext input
  rcases hpart : foreignPart input with ⟨error | length, rest⟩
  · rw [bind_error hpart, foreignParts, foreignLoop_error h hpart]
  · rw [bind_ok hpart, foreignParts, foreignLoop_ok h hpart, foreignLoop_notes]
    rfl

end Foreign

/-! ## Progress -/

/-- Never makes a source larger. -/
def Shrinks {α : Type} (d : Decoder α) : Prop :=
  ∀ input, (d input).2.source.size ≤ input.source.size

theorem shrinks_pure {α : Type} (a : α) : Shrinks (pure a : Decoder α) :=
  fun _ => Nat.le_refl _

theorem shrinks_throw {α : Type} (error : ReadError) : Shrinks (throw error : Decoder α) :=
  fun _ => Nat.le_refl _

theorem shrinks_within {α : Type} (bytes : List UInt8) (d : Decoder α) :
    Shrinks (within bytes d) :=
  fun _ => Nat.le_refl _

theorem Shrinks.bind {α β : Type} {d : Decoder α} {f : α → Decoder β} (hd : Shrinks d)
    (hf : ∀ a, Shrinks (f a)) : Shrinks (d >>= f) := by
  intro input
  have h := hd input
  rw [bind_apply]
  split
  · next a rest hs =>
      rw [hs] at h
      exact Nat.le_trans (hf a rest) h
  · next error rest hs =>
      rw [hs] at h
      exact h

theorem shrinks_exactly (n : Nat) : Shrinks (exactly n) := by
  intro input
  have h := input.source.size_rest_gather n
  simp only [exactly]
  split <;> simp only <;> omega

theorem shrinks_refill (n : Nat) : Shrinks (refill n) := by
  intro input
  have h := input.source.size_rest_gather n
  simp only [refill]
  split <;> simp only <;> omega

theorem shrinks_skip (n : Nat) : Shrinks (skip n) :=
  (shrinks_exactly n).bind fun _ => shrinks_pure ()

theorem shrinks_uint16 : Shrinks uint16 := (shrinks_exactly 2).bind fun _ => shrinks_pure _

theorem shrinks_uint32 : Shrinks uint32 := (shrinks_exactly 4).bind fun _ => shrinks_pure _

theorem shrinks_uint64 : Shrinks uint64 := (shrinks_exactly 8).bind fun _ => shrinks_pure _

theorem shrinks_double : Shrinks double := (shrinks_exactly 8).bind fun _ => shrinks_pure _

theorem shrinks_nodeTime : Shrinks nodeTime :=
  shrinks_uint64.bind fun _ => shrinks_double.bind fun _ => shrinks_pure _

theorem shrinks_foreignPart : Shrinks foreignPart :=
  shrinks_uint16.bind fun _ => (shrinks_skip _).bind fun _ => shrinks_pure _

theorem shrinks_foreignParts (foreign : ScopeFlags) (scope : Scope) :
    Shrinks (foreignParts foreign scope) := by
  induction foreign, scope using foreignParts_induct with
  | done foreign scope hzero =>
      rw [foreignParts_done hzero]
      exact shrinks_pure _
  | passed foreign scope hne ih =>
      rw [foreignParts_passed hne]
      exact shrinks_foreignPart.bind fun _ => ih

theorem shrinks_require (condition : Bool) (error : ReadError) :
    Shrinks (require condition error) := by
  cases condition
  · exact shrinks_throw error
  · exact shrinks_pure ()

theorem shrinks_simulationPart (flags : ScopeFlags) (scope : Scope) :
    Shrinks (simulationPart flags scope) := by
  unfold simulationPart
  split
  · exact shrinks_double.bind fun _ => shrinks_pure _
  · exact shrinks_pure _

theorem shrinks_nodePart (flags : ScopeFlags) (scope : Scope) :
    Shrinks (nodePart flags scope) := by
  unfold nodePart
  split
  · exact shrinks_uint16.bind fun _ => shrinks_nodeTime.bind fun _ => shrinks_pure _
  · exact shrinks_pure _

theorem shrinks_scope (flags : ScopeFlags) : Shrinks (scope flags) :=
  (shrinks_simulationPart flags _).bind fun _ => (shrinks_nodePart flags _).bind fun _ =>
    shrinks_foreignParts _ _

theorem shrinks_eventBody (raw : UInt16) (length : Nat) : Shrinks (eventBody raw length) := by
  refine (shrinks_require _ _).bind fun _ => (shrinks_require _ _).bind fun _ => ?_
  split
  · exact (shrinks_require _ _).bind fun _ => (shrinks_refill _).bind fun _ =>
      shrinks_within _ _
  · exact (shrinks_skip _).bind fun _ => shrinks_pure _

theorem shrinks_event : Shrinks event :=
  shrinks_uint16.bind fun raw => shrinks_uint32.bind fun length =>
    shrinks_eventBody raw length.toNat

theorem shrinks_recordBody (flags : ScopeFlags) : Shrinks (recordBody flags) :=
  (shrinks_scope flags).bind fun _ => shrinks_event.bind fun _ => shrinks_pure _

/-- Reading the flags of a record makes a source smaller. -/
theorem size_lt_of_recordStart {input rest : Input} {flags : ScopeFlags}
    (h : recordStart input = (.ok (some flags), rest)) :
    rest.source.size < input.source.size := by
  have hsize := input.source.size_rest_gather 4
  simp only [recordStart] at h
  split at h
  · next hfilled =>
      have hlen := input.source.length_bytes_gather 4 hfilled
      cases h
      simp only
      omega
  · split at h <;> cases h
  · cases h

/-- Reading a record makes a source smaller. -/
theorem size_lt_of_record? {input rest : Input} {r : Record}
    (h : record? input = (.ok (some r), rest)) : rest.source.size < input.source.size := by
  rw [record?, bind_apply] at h
  split at h
  · next start middle hstart =>
      cases start with
      | none => cases h
      | some flags =>
          have hmiddle := size_lt_of_recordStart hstart
          have hbody := (shrinks_recordBody flags).bind (fun r => shrinks_pure (some r)) middle
          have hrest := congrArg Prod.snd h
          simp only at hrest
          rw [hrest] at hbody
          omega
  · cases h

end Decoder

end StateTrace
