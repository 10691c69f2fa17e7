import StateTrace.Wire.Decode

/-!
# Reading by offsets

The payload of an event lies in a buffer, and a program that reads it by offsets can *slip*.
It can ask for bytes that are not there, or come upon something that it was never meant to see.
A slip is no error of the trace.  The program has no answer then.

Here headers and payloads are read by their offsets, and each access checks its bounds.  The decoder
reads the same fields one after the other and knows no offsets.  `Agrees` compares the two on one
field.  `event_eq` says that nothing slips in a payload whose length its kind allows, and that the
answer is the decoder's.
-/

namespace StateTrace

/-- Why a program that reads by offsets has no answer. -/
inductive Slip where
  /-- An access goes beyond the end of the bytes. -/
  | outOfBounds (offset width length : Nat)
  /-- A sum does not fit its 64 bits. -/
  | overflow (sum : Nat)
  /-- An event without a layout was handed on. -/
  | noLayout
deriving DecidableEq, Repr, Inhabited

/-- An answer, unless the program slips. -/
abbrev Checked (α : Type) := Except Slip α

namespace Offset

/-! ## Fields -/

/-- The bytes from an offset on, `width` of them. -/
def bytes (width : Nat) (data : List UInt8) (offset : Nat) : Checked (List UInt8) :=
  if offset + width ≤ data.length then return (data.drop offset).take width
  else throw (.outOfBounds offset width data.length)

/-- All bytes from an offset on. -/
def bytesFrom (data : List UInt8) (offset : Nat) : Checked (List UInt8) :=
  if offset ≤ data.length then return data.drop offset
  else throw (.outOfBounds offset 0 data.length)

/-- The byte at an offset. -/
def byte (data : List UInt8) (offset : Nat) : Checked UInt8 :=
  match data[offset]? with
  | some b => return b
  | none => throw (.outOfBounds offset 1 data.length)

def uint16 (data : List UInt8) (offset : Nat) : Checked UInt16 :=
  return BigEndian.toUInt16 (← bytes 2 data offset)

def uint32 (data : List UInt8) (offset : Nat) : Checked UInt32 :=
  return BigEndian.toUInt32 (← bytes 4 data offset)

def uint64 (data : List UInt8) (offset : Nat) : Checked UInt64 :=
  return BigEndian.toUInt64 (← bytes 8 data offset)

def double (data : List UInt8) (offset : Nat) : Checked Double :=
  return Double.ofBytes (← bytes 8 data offset)

/-- The time of a node: cycles, and milliseconds eight bytes behind them. -/
def nodeTime (data : List UInt8) (offset : Nat) : Checked NodeTime := do
  let cycles ← uint64 data offset
  let nodeMs ← double data (offset + 8)
  return ⟨cycles, nodeMs⟩

/-- A sum of 64 bits. -/
def sum (m n : Nat) : Checked Nat :=
  if m + n < UInt64.size then return m + n else throw (.overflow (m + n))

/-! ## Headers and payloads -/

/-- The versions of a header. -/
def header (data : List UInt8) : Checked (Except ReadError (UInt32 × UInt32)) := do
  let found ← bytes 4 data 0
  if found ≠ Wire.magic then return .error (.badMagic found)
  else
    let major ← uint32 data 4
    let minor ← uint32 data 8
    if major ≠ Wire.majorVersion then return .error (.majorMismatch major Wire.majorVersion)
    else return .ok (major, minor)

/-- The start of a monitor.  Its byte order comes last and is looked at first. -/
def monitorCreate (data : List UInt8) : Checked (Except ReadError Event) := do
  let letter ← byte data 48
  match ByteOrder.ofByte? letter with
  | none => return .error (.invalid "byte order" letter.toNat)
  | some order =>
      let stateOffset ← nodeTime data 0
      let dataOffset ← nodeTime data 16
      let byteOffset ← nodeTime data 32
      return .ok (.monitorCreate ⟨stateOffset, dataOffset, byteOffset, order⟩)

/-- A data event.  The length of the data has to be the one that the payload leaves room for. -/
def monitorData (data : List UInt8) : Checked (Except ReadError Event) := do
  if data.length < Wire.dataHeaderLength then
    return .error (.inconsistent Kind.monitorData.label data.length Wire.dataHeaderLength)
  else
    let size ← uint32 data 4
    let expected ← sum Wire.dataHeaderLength size.toNat
    if expected ≠ data.length then
      return .error (.inconsistent Kind.monitorData.label data.length expected)
    else
      let rest ← bytesFrom data Wire.dataHeaderLength
      let context ← uint16 data 0
      let entity ← uint16 data 2
      return .ok (.monitorData ⟨context, entity, rest⟩)

/-- The event of a kind in a payload. -/
def event (kind : Kind) (data : List UInt8) : Checked (Except ReadError Event) :=
  match kind with
  | .unknown => throw .noLayout
  | .monitorCreate => monitorCreate data
  | .monitorState => do
      let context ← uint16 data 0
      let entity ← uint16 data 2
      let state ← uint16 data 4
      return .ok (.monitorState ⟨context, entity, state⟩)
  | .monitorData => monitorData data
  | .nodeCreate => return .ok .nodeCreate
  | .nodeDestroy => return .ok .nodeDestroy
  | .nodePosition => do
      let x ← double data 0
      let y ← double data 8
      let z ← double data 16
      return .ok (.nodePosition ⟨x, y, z⟩)

/-- An access slips exactly if it goes beyond the end. -/
example : bytes 2 [1, 2, 3] 1 = .ok [2, 3] ∧ bytes 2 [1, 2, 3] 2 = .error (.outOfBounds 2 2 3) :=
  ⟨rfl, rfl⟩

/-! ## One field -/

section Agrees
variable {α β : Type}

theorem bind_ok {checked : Checked α} {f : α → Checked β} {a : α} (h : checked = .ok a) :
    (checked >>= f) = f a := by
  rw [h]
  rfl

theorem require_pos {condition : Prop} [Decidable condition] (h : condition) (error : ReadError)
    (f : Unit → Decoder β) : (Decoder.require condition error >>= f) = f () := by
  rw [Decoder.require, decide_eq_true h]
  rfl

theorem require_neg {condition : Prop} [Decidable condition] (h : ¬condition) (error : ReadError)
    (f : Unit → Decoder β) : (Decoder.require condition error >>= f) = throw error := by
  rw [Decoder.require, decide_eq_false h]
  rfl

/-- The bytes from an offset on, as a decoder gets them. -/
def input (data : List UInt8) (offset : Nat) : Input := ⟨.ofBytes (data.drop offset), []⟩

/-- Where the `width` bytes of a field are all there, the access at their offset does not slip, and
the decoder takes them and gives the same. -/
def Agrees (d : Decoder α) (width : Nat) (access : List UInt8 → Nat → Checked α) : Prop :=
  ∀ data offset, offset + width ≤ data.length →
    ∃ a, access data offset = .ok a ∧ d (input data offset) = (.ok a, input data (offset + width))

theorem agrees_bytes (width : Nat) : Agrees (Decoder.exactly width) width (bytes width) := by
  intro data offset h
  have hfilled : width ≤ (data.drop offset).length := by
    rw [List.length_drop]
    omega
  refine ⟨(data.drop offset).take width, if_pos h, ?_⟩
  rw [Decoder.exactly, input, Source.gather_ofBytes, if_pos hfilled, List.drop_drop]
  rfl

variable {d : Decoder α} {width offset : Nat} {access : List UInt8 → Nat → Checked α}
  {data : List UInt8}

theorem Agrees.map (h : Agrees d width access) (f : α → β) :
    Agrees (do return f (← d)) width (fun data offset => do return f (← access data offset)) := by
  intro data offset hle
  obtain ⟨a, haccess, hd⟩ := h data offset hle
  exact ⟨f a, bind_ok haccess, Decoder.bind_ok hd⟩

/-- A program goes on after an access as the decoder does after the field. -/
theorem Agrees.bind_eq {f : α → Decoder β} {g : α → Checked (Except ReadError β)}
    (h : Agrees d width access) (hle : offset + width ≤ data.length)
    (hrest : ∀ a, g a = .ok (f a (input data (offset + width))).1) :
    (access data offset >>= g) = .ok ((d >>= f) (input data offset)).1 := by
  obtain ⟨a, haccess, hd⟩ := h data offset hle
  rw [bind_ok haccess, Decoder.bind_ok hd, hrest a]

theorem agrees_uint16 : Agrees Decoder.uint16 2 uint16 := (agrees_bytes 2).map _

theorem agrees_uint32 : Agrees Decoder.uint32 4 uint32 := (agrees_bytes 4).map _

theorem agrees_uint64 : Agrees Decoder.uint64 8 uint64 := (agrees_bytes 8).map _

theorem agrees_double : Agrees Decoder.double 8 double := (agrees_bytes 8).map _

theorem agrees_nodeTime : Agrees Decoder.nodeTime 16 nodeTime := by
  intro data offset hle
  obtain ⟨cycles, hcycles, hd⟩ := agrees_uint64 data offset (by omega)
  obtain ⟨nodeMs, hnodeMs, hd'⟩ := agrees_double data (offset + 8) (by omega)
  refine ⟨⟨cycles, nodeMs⟩, ?_, ?_⟩
  · rw [nodeTime, bind_ok hcycles, bind_ok hnodeMs]
    rfl
  · rw [Decoder.nodeTime, Decoder.bind_ok hd, Decoder.bind_ok hd']
    rfl

end Agrees

/-! ## Whole payloads -/

section Event
variable {data : List UInt8}

theorem monitorState_eq (h : data.length = 6) :
    event .monitorState data = .ok (Decoder.payload data.length .monitorState (input data 0)).1 :=
  agrees_uint16.bind_eq (by omega) fun _ => agrees_uint16.bind_eq (by omega) fun _ =>
    agrees_uint16.bind_eq (by omega) fun _ => rfl

theorem nodePosition_eq (h : data.length = 24) :
    event .nodePosition data = .ok (Decoder.payload data.length .nodePosition (input data 0)).1 :=
  agrees_double.bind_eq (by omega) fun _ => agrees_double.bind_eq (by omega) fun _ =>
    agrees_double.bind_eq (by omega) fun _ => rfl

/-- The letter of a byte order is looked at by its offset. -/
theorem exists_letter {offset : Nat} (h : offset < data.length) :
    ∃ letter, byte data offset = .ok letter ∧
      Decoder.byteOrder (input data offset) =
        (match ByteOrder.ofByte? letter with
          | some order => .ok order
          | none => .error (.invalid "byte order" letter.toNat), input data (offset + 1)) := by
  have hletter : byte data offset = .ok data[offset] := by
    rw [byte, List.getElem?_eq_getElem h]
    rfl
  have hread : Decoder.exactly 1 (input data offset) =
      (.ok [data[offset]], input data (offset + 1)) := by
    obtain ⟨letters, hletters, hd⟩ := agrees_bytes 1 data offset h
    rw [bytes, if_pos (Nat.succ_le_of_lt h), List.drop_eq_getElem_cons h] at hletters
    cases hletters
    exact hd
  have hvalue : BigEndian.decode [data[offset]] = data[offset].toNat := by simp [BigEndian.decode]
  refine ⟨data[offset], hletter, ?_⟩
  rw [Decoder.byteOrder, Decoder.bind_ok hread, List.head?_cons, Option.bind_some, hvalue]
  cases ByteOrder.ofByte? data[offset] <;> rfl

/-- The byte order is the last of the fields, and the only one whose content can be wrong. -/
theorem monitorCreate_eq (h : data.length = 49) :
    event .monitorCreate data =
      .ok (Decoder.payload data.length .monitorCreate (input data 0)).1 := by
  obtain ⟨stateOffset, hstate, hd⟩ := agrees_nodeTime data 0 (by omega)
  obtain ⟨dataOffset, hdata, hd'⟩ := agrees_nodeTime data 16 (by omega)
  obtain ⟨byteOffset, hbyte, hd''⟩ := agrees_nodeTime data 32 (by omega)
  obtain ⟨letter, hletter, horder⟩ := exists_letter (show 48 < data.length by omega)
  rw [event, monitorCreate, bind_ok hletter, Decoder.payload, Decoder.bind_ok hd,
    Decoder.bind_ok hd', Decoder.bind_ok hd'']
  cases hknown : ByteOrder.ofByte? letter with
  | none =>
      rw [hknown] at horder
      rw [Decoder.bind_error horder]
      rfl
  | some order =>
      rw [hknown] at horder
      rw [Decoder.bind_ok horder]
      simp only [hstate, hdata, hbyte]
      rfl

/-- A data event checks by itself that it has its header, and that the data are all the rest. -/
theorem monitorData_eq :
    event .monitorData data =
      .ok (Decoder.payload data.length .monitorData (input data 0)).1 := by
  rw [event, monitorData, Decoder.payload, Decoder.dataPayload]
  by_cases hheader : Wire.dataHeaderLength ≤ data.length
  case neg =>
    rw [if_pos (Nat.not_le.mp hheader), require_neg hheader]
    rfl
  have hle : 8 ≤ data.length := hheader
  obtain ⟨context, hcontext, hd⟩ := agrees_uint16 data 0 (by omega)
  obtain ⟨entity, hentity, hd'⟩ := agrees_uint16 data 2 (by omega)
  obtain ⟨size, hsize, hd''⟩ := agrees_uint32 data 4 (by omega)
  have hsum : sum Wire.dataHeaderLength size.toNat = .ok (Wire.dataHeaderLength + size.toNat) := by
    have hlt := size.toNat_lt
    have hsize : UInt64.size = 18446744073709551616 := rfl
    rw [sum, Wire.dataHeaderLength, if_pos (by omega)]
    rfl
  rw [if_neg (Nat.not_lt.mpr hheader), bind_ok hsize, bind_ok hsum, require_pos hheader]
  simp only [Nat.zero_add, Nat.reduceAdd] at hd hd' hd''
  simp only [Decoder.bind_apply, hd, hd', hd'']
  by_cases hequal : Wire.dataHeaderLength + size.toNat = data.length
  case neg =>
    rw [if_pos hequal, decide_eq_false hequal]
    rfl
  have hdata : Decoder.exactly size.toNat (input data 8) =
      (.ok (data.drop 8), input data (8 + size.toNat)) := by
    have hfits : 8 + size.toNat ≤ data.length := Nat.le_of_eq hequal
    obtain ⟨rest, hrest, hread⟩ := agrees_bytes size.toNat data 8 hfits
    have hlength : (data.drop 8).length ≤ size.toNat := by
      rw [List.length_drop, ← hequal, Wire.dataHeaderLength]
      omega
    rw [bytes, if_pos hfits, List.take_of_length_le hlength] at hrest
    cases hrest
    exact hread
  have hfrom : bytesFrom data Wire.dataHeaderLength = .ok (data.drop 8) := if_pos hheader
  rw [if_neg (fun hne => hne hequal), bind_ok hfrom, bind_ok hcontext, bind_ok hentity,
    decide_eq_true hequal]
  have hpassed : ∀ error, Decoder.require true error (input data 8) = (.ok (), input data 8) :=
    fun _ => rfl
  simp only [hpassed, hdata]
  rfl

/-- Nothing slips in a payload of a length that its kind allows, and the answer is that of the
decoder. -/
theorem event_eq {kind : Kind} (hkind : kind ≠ .unknown)
    (hfixed : ∀ length, kind.fixedLength? = some length → data.length = length) :
    event kind data = .ok (Decoder.payload data.length kind (input data 0)).1 := by
  cases kind with
  | unknown => exact absurd rfl hkind
  | monitorCreate => exact monitorCreate_eq (hfixed 49 rfl)
  | monitorState => exact monitorState_eq (hfixed 6 rfl)
  | monitorData => exact monitorData_eq
  | nodeCreate => rfl
  | nodeDestroy => rfl
  | nodePosition => exact nodePosition_eq (hfixed 24 rfl)

end Event

end Offset

end StateTrace
