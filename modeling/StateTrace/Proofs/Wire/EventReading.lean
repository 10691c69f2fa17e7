import StateTrace.Proofs.Wire.Answer
import StateTrace.Proofs.Wire.Grammar

/-!
# Reading events

After the number of an event and the length of its payload, the decoder reads the
payloads of the grammar (`gives_event`) and gives the error of the grammar for the
others (`gives_refusal`).  There are no more cases than these
(`event_or_refused`).
-/

namespace StateTrace

open Wire

/-- A byte that is no letter of a byte order is neither of the two. -/
theorem ByteOrder.ofByte?_eq_none_iff {letter : UInt8} :
    ofByte? letter = none ↔ letter ≠ toByte big ∧ letter ≠ toByte little := by
  unfold ofByte?
  split
  · next h => simp [h]
  · next hbig => split <;> simp_all

/-- The reserved number has no payload. -/
theorem Wire.Payload.number_ne_zero {number : UInt16} {payload : List UInt8} {event : Event}
    (h : Payload number payload event) : number ≠ 0 := by
  cases h with
  | unknown hlt =>
      rintro rfl
      exact absurd hlt (by decide)
  | _ => decide

namespace Decoder

/-! ## Payloads -/

/-- A kind with a fixed length is read from its number and named by its label. -/
theorem fixedLength_iff {number : UInt16} {name : String} {expected : Nat} :
    FixedLength number name expected ↔ ∃ kind, Kind.ofWire? number = some kind ∧
      kind.label = name ∧ kind.fixedLength? = some expected := by
  constructor
  · rintro (_ | _ | _ | _ | _) <;> exact ⟨_, rfl, rfl, rfl⟩
  · rintro ⟨kind, hkind, rfl, hfixed⟩
    have hwire := Kind.ofWire?_eq_some_iff.mp hkind
    cases kind <;> cases hwire <;> cases hfixed <;> constructor

theorem ofWire?_eq_none_iff {number : UInt16} :
    Kind.ofWire? number = none ↔ number = 0 ∨ 6 < number := by
  have hknown : Kind.ofWire? number = none ↔ ∀ kind ∈ Kind.known, kind.wire? ≠ some number := by
    rw [Kind.ofWire?, List.find?_eq_none]
    simp only [beq_iff_eq, ne_eq]
  rw [hknown]
  simp only [Kind.known, List.mem_cons, List.not_mem_nil, or_false, forall_eq_or_imp, forall_eq,
    Kind.wire?, ne_eq, Option.some.injEq, ← UInt16.toNat_inj, UInt16.lt_iff_toNat_lt,
    UInt16.reduceToNat]
  omega

theorem reads_stateFields (length : Nat) :
    Reads (payload length .monitorState) fun event w => ∃ context entity state,
      event = .monitorState ⟨context, entity, state⟩ ∧
        w = BigEndian.ofUInt16 context ++ BigEndian.ofUInt16 entity ++ BigEndian.ofUInt16 state :=
  reads_uint16.three reads_uint16 reads_uint16 fun context entity state =>
    Event.monitorState ⟨context, entity, state⟩

theorem reads_positionFields (length : Nat) :
    Reads (payload length .nodePosition) fun event w => ∃ x y z,
      event = .nodePosition ⟨x, y, z⟩ ∧ w = x.toBytes ++ y.toBytes ++ z.toBytes :=
  reads_double.three reads_double reads_double fun x y z =>
    Event.nodePosition ⟨x, y, z⟩

/-- Forty-eight bytes are the offsets of three clocks. -/
theorem exists_offsets {bytes : List UInt8} (h : bytes.length = 48) :
    ∃ s d b : NodeTime, bytes = s.toBytes ++ d.toBytes ++ b.toBytes :=
  reads_nodeTime.exists_three reads_nodeTime reads_nodeTime (fun s d b => by simp) h

theorem gives_byteOrder (order : ByteOrder) :
    Gives byteOrder [order.toByte] (.ok order) [] := by
  refine (gives_exactly [order.toByte] []).bind ?_
  rw [List.head?_cons, Option.bind_some, ByteOrder.ofByte?_eq_some_iff.mpr rfl]
  exact gives_pure order []

theorem gives_byteOrder_error {letter : UInt8} (hbig : letter ≠ ByteOrder.big.toByte)
    (hlittle : letter ≠ ByteOrder.little.toByte) :
    Gives byteOrder [letter] (.error (.invalid "byte order" letter.toNat)) [] := by
  refine (gives_exactly [letter] []).bind ?_
  have hnone : ByteOrder.ofByte? letter = none := by
    rw [ByteOrder.ofByte?, if_neg hbig, if_neg hlittle]
  have hvalue : BigEndian.decode [letter] = letter.toNat := by simp [BigEndian.decode]
  rw [List.head?_cons, Option.bind_some, hnone, hvalue]
  exact gives_throw _ []

/-- After its offsets, the start of a monitor answers what its byte order does. -/
theorem gives_createFields (length : Nat) (s d b : NodeTime) {letter : UInt8}
    {answer : Except ReadError ByteOrder} (h : Gives byteOrder [letter] answer []) :
    Gives (payload length .monitorCreate) (s.toBytes ++ d.toBytes ++ b.toBytes ++ [letter])
      (answer.map fun order => .monitorCreate ⟨s, d, b, order⟩) [] := by
  rw [List.append_assoc, List.append_assoc]
  exact (reads_nodeTime.accepts rfl _).bind <| (reads_nodeTime.accepts rfl _).bind <|
    (reads_nodeTime.accepts rfl _).bind h.map

theorem length_dataFields (context entity : UInt16) (size : UInt32) (data : List UInt8) :
    (BigEndian.ofUInt16 context ++ BigEndian.ofUInt16 entity ++ BigEndian.ofUInt32 size ++
      data).length = 8 + data.length := by
  simp only [List.length_append, BigEndian.length_ofUInt16, BigEndian.length_ofUInt32]

theorem gives_dataPayload_short {length : Nat} (h : length < 8) (bytes : List UInt8) :
    Gives (dataPayload length) bytes (.error (.inconsistent "mon_data" length 8)) bytes := by
  have hheader : decide (Wire.dataHeaderLength ≤ length) = false :=
    decide_eq_false (Nat.not_le.mpr h)
  exact (gives_require_error hheader _ bytes).bind_error

/-- The fields before the data are taken, and then the inner length is checked. -/
theorem gives_dataPayload_fields {length : Nat} (h : 8 ≤ length) (context entity : UInt16)
    (size : UInt32) {data after : List UInt8} {answer : Except ReadError MonitorData}
    (hrest : Gives (do
        require (8 + size.toNat = length) (.inconsistent "mon_data" length (8 + size.toNat))
        return ⟨context, entity, ← exactly size.toNat⟩) data answer after) :
    Gives (dataPayload length)
      (BigEndian.ofUInt16 context ++ BigEndian.ofUInt16 entity ++ BigEndian.ofUInt32 size ++ data)
      answer after := by
  have hheader : decide (Wire.dataHeaderLength ≤ length) = true := decide_eq_true h
  rw [List.append_assoc, List.append_assoc]
  exact (gives_require hheader _ _).bind <| (reads_uint16.accepts rfl _).bind <|
    (reads_uint16.accepts rfl _).bind <| (reads_uint32.accepts rfl _).bind hrest

theorem gives_dataPayload (context entity : UInt16) {size : UInt32} {data : List UInt8}
    (hdata : data.length = size.toNat) :
    let bytes := BigEndian.ofUInt16 context ++ BigEndian.ofUInt16 entity ++
      BigEndian.ofUInt32 size ++ data
    Gives (dataPayload bytes.length) bytes (.ok ⟨context, entity, data⟩) [] := by
  intro bytes
  have hlength : bytes.length = 8 + data.length := length_dataFields context entity size data
  have hinner : 8 + size.toNat = bytes.length := by rw [hlength, hdata]
  have hexactly := (reads_exactly size.toNat).accepts_all ⟨rfl, hdata⟩
  exact gives_dataPayload_fields (hlength ▸ Nat.le_add_right _ _) context entity size
    ((gives_require (decide_eq_true hinner) _ data).bind hexactly.map)

/-! ## Events -/

section KnownEvent
variable {number : UInt16} {kind : Kind} {length : Nat} {rest : List UInt8}

/-- An event whose number and length pass goes on with its payload. -/
theorem gives_eventBody {answer : Except ReadError Event} {after : List UInt8}
    (hnumber : number ≠ 0) (hmax : length ≤ maxPayloadLength)
    (h : Gives (match Kind.ofWire? number with
      | some kind => knownEvent kind length
      | none => foreignEvent number length) rest answer after) :
    Gives (eventBody number length) rest answer after :=
  (gives_require (decide_eq_true hnumber) _ rest).bind <|
    (gives_require (decide_eq_true hmax) _ rest).bind h

theorem number_ne_zero (hkind : Kind.ofWire? number = some kind) : number ≠ 0 := by
  rintro rfl
  cases hkind

/-- A known event is what its payload is, once the payload has been taken. -/
theorem gives_known {payload after left : List UInt8} {answer : Except ReadError Event}
    (hkind : Kind.ofWire? number = some kind) (hmax : payload.length ≤ maxPayloadLength)
    (hfixed : ∀ expected, kind.fixedLength? = some expected → payload.length = expected)
    (h : Gives (Decoder.payload payload.length kind) payload answer left) :
    Gives (eventBody number payload.length) (payload ++ after) answer after := by
  refine gives_eventBody (number_ne_zero hkind) hmax ?_
  rw [hkind]
  have hexpected : decide (payload.length = kind.fixedLength?.getD payload.length) = true := by
    cases hlength : kind.fixedLength? with
    | none => exact decide_eq_true rfl
    | some expected => exact decide_eq_true (hfixed expected hlength)
  exact (gives_require hexpected _ _).bind <| (gives_refill payload after).bind (h.within after)

/-- A known event of a wrong length leaves its payload in the source. -/
theorem gives_known_wrongLength {expected : Nat} (hkind : Kind.ofWire? number = some kind)
    (hmax : length ≤ maxPayloadLength) (hfixed : kind.fixedLength? = some expected)
    (hne : length ≠ expected) :
    Gives (eventBody number length) rest (.error (.inconsistent kind.label length expected))
      rest := by
  refine gives_eventBody (number_ne_zero hkind) hmax ?_
  rw [hkind]
  have hexpected : kind.fixedLength?.getD length = expected := by rw [hfixed, Option.getD_some]
  have hwrong : decide (length = kind.fixedLength?.getD length) = false :=
    decide_eq_false (hexpected ▸ hne)
  rw [← hexpected]
  exact (gives_require_error hwrong _ rest).bind_error

/-- An event whose payload is cut short is read to the end of the trace. -/
theorem gives_missing (hnumber : number ≠ 0) (hmax : length ≤ maxPayloadLength)
    (hfixed : ∀ name expected, FixedLength number name expected → length = expected)
    (hlt : rest.length < length) :
    Gives (eventBody number length) rest (.error .truncated) [] := by
  refine gives_eventBody hnumber hmax ?_
  cases hkind : Kind.ofWire? number with
  | none => exact (gives_exactly_short hlt).bind_error.bind_error
  | some kind =>
      have hexpected : decide (length = kind.fixedLength?.getD length) = true := by
        cases hlength : kind.fixedLength? with
        | none => exact decide_eq_true rfl
        | some expected =>
            exact decide_eq_true
              (hfixed kind.label expected (fixedLength_iff.mpr ⟨kind, hkind, rfl, hlength⟩))
      exact (gives_require hexpected _ _).bind (gives_refill_short hlt).bind_error

end KnownEvent

/-- The payload of an event is read as that event, whatever follows it. -/
theorem gives_event {number : UInt16} {payload : List UInt8} {event : Event}
    (h : Payload number payload event) (hmax : payload.length ≤ maxPayloadLength)
    (after : List UInt8) :
    Gives (eventBody number payload.length) (payload ++ after) (.ok event) after := by
  have hnumber := h.number_ne_zero
  cases h with
  | @monitorCreate s d b order =>
      have hkind : Kind.ofWire? 1 = some .monitorCreate := rfl
      refine gives_known hkind hmax ?_ (gives_createFields _ s d b (gives_byteOrder order))
      rintro _ ⟨⟩
      simp
  | @monitorState context entity state =>
      have hkind : Kind.ofWire? 2 = some .monitorState := rfl
      refine gives_known hkind hmax ?_
        ((reads_stateFields _).accepts_all ⟨context, entity, state, rfl, rfl⟩)
      rintro _ ⟨⟩
      simp
  | @monitorData context entity size data hdata =>
      have hkind : Kind.ofWire? 3 = some .monitorData := rfl
      exact gives_known hkind hmax (fun _ h => nomatch h)
        (gives_dataPayload context entity hdata).map
  | nodeCreate =>
      have hkind : Kind.ofWire? 4 = some .nodeCreate := rfl
      refine gives_known hkind hmax ?_ (gives_pure _ _)
      rintro _ ⟨⟩
      rfl
  | nodeDestroy =>
      have hkind : Kind.ofWire? 5 = some .nodeDestroy := rfl
      refine gives_known hkind hmax ?_ (gives_pure _ _)
      rintro _ ⟨⟩
      rfl
  | @nodePosition x y z =>
      have hkind : Kind.ofWire? 6 = some .nodePosition := rfl
      refine gives_known hkind hmax ?_ ((reads_positionFields _).accepts_all ⟨x, y, z, rfl, rfl⟩)
      rintro _ ⟨⟩
      simp
  | unknown hlt =>
      refine gives_eventBody hnumber hmax ?_
      rw [ofWire?_eq_none_iff.mpr (.inr hlt)]
      exact ((gives_exactly payload after).bind (gives_pure () after)).bind (gives_pure _ after)

/-- An event is refused for the reason that the grammar gives. -/
theorem gives_refusal {number : UInt16} {length : Nat} {rest after : List UInt8}
    {error : ReadError} (h : RefusesEvent number length rest error after) :
    Gives (eventBody number length) rest (.error error) after := by
  cases h with
  | reserved hzero =>
      subst hzero
      exact (gives_require_error (by decide) _ rest).bind_error
  | tooLarge hnumber hlarge =>
      exact (gives_require (decide_eq_true hnumber) _ _).bind
        (gives_require_error (decide_eq_false (Nat.not_le.mpr hlarge)) _ _).bind_error
  | wrongLength hmax hfixed hne =>
      obtain ⟨kind, hkind, rfl, hlength⟩ := fixedLength_iff.mp hfixed
      exact gives_known_wrongLength hkind hmax hlength hne
  | missing hnumber hmax hfixed hlt => exact gives_missing hnumber hmax hfixed hlt
  | @byteOrder offsets after letter hnumber hlength hoffsets hbig hlittle =>
      have hkind : Kind.ofWire? number = some .monitorCreate := hnumber ▸ rfl
      obtain ⟨s, d, b, rfl⟩ := exists_offsets hoffsets
      have hpayload : (s.toBytes ++ d.toBytes ++ b.toBytes ++ [letter]).length = length := by
        simp [hlength]
      have hmax : length ≤ maxPayloadLength := by
        rw [hlength]
        decide
      rw [List.append_cons, ← hpayload]
      refine gives_known hkind (hpayload ▸ hmax) ?_
        (gives_createFields _ s d b (gives_byteOrder_error hbig hlittle))
      rintro _ ⟨⟩
      rw [hpayload, hlength]
  | @dataHeader payload after hnumber hlength hlt =>
      have hkind : Kind.ofWire? number = some .monitorData := hnumber ▸ rfl
      subst hlength
      have hmax : payload.length ≤ maxPayloadLength := by
        rw [maxPayloadLength]
        omega
      exact gives_known hkind hmax (fun _ h => nomatch h) (gives_dataPayload_short hlt payload).map
  | @dataLength context entity size data after hnumber hmax hlength hne =>
      have hkind : Kind.ofWire? number = some .monitorData := hnumber ▸ rfl
      have hpayload := (length_dataFields context entity size data).trans hlength.symm
      have hwrong : decide (8 + size.toNat = length) = false := decide_eq_false (by omega)
      rw [← hpayload] at hwrong ⊢
      exact gives_known hkind (hpayload ▸ hmax) (fun _ h => nomatch h)
        (gives_dataPayload_fields (by omega) context entity size
          (gives_require_error hwrong _ data).bind_error).map

/-- The fields of a data payload, whatever the inner length says. -/
theorem exists_dataFields {bytes : List UInt8} (h : 8 ≤ bytes.length) :
    ∃ (context entity : UInt16) (size : UInt32) (data : List UInt8), bytes =
      BigEndian.ofUInt16 context ++ BigEndian.ofUInt16 entity ++ BigEndian.ofUInt32 size ++ data := by
  obtain ⟨context, entity, size, hfields⟩ :=
    reads_uint16.exists_three reads_uint16 reads_uint32 (fun c e n => by simp)
      (List.length_take_of_le h)
  refine ⟨context, entity, size, bytes.drop 8, ?_⟩
  rw [← hfields, List.take_append_drop]

/-- The letter alone decides whether offsets and a letter make a payload. -/
theorem create_or_refused {payload : List UInt8} (h : payload.length = 49) (after : List UInt8) :
    (∃ event, Payload 1 payload event) ∨
      ∃ error, RefusesEvent 1 payload.length (payload ++ after) error after := by
  have hoffsets : (payload.take 48).length = 48 := List.length_take_of_le (by omega)
  obtain ⟨letter, hletter⟩ : ∃ letter, payload.drop 48 = [letter] :=
    List.length_eq_one_iff.mp (by rw [List.length_drop, h])
  rw [← List.take_append_drop 48 payload, hletter]
  cases horder : ByteOrder.ofByte? letter with
  | some order =>
      obtain ⟨s, d, b, hfields⟩ := exists_offsets hoffsets
      rw [hfields, ByteOrder.ofByte?_eq_some_iff.mp horder]
      exact .inl ⟨_, .monitorCreate⟩
  | none =>
      obtain ⟨hbig, hlittle⟩ := ByteOrder.ofByte?_eq_none_iff.mp horder
      rw [← List.append_cons]
      refine .inr ⟨_, .byteOrder rfl ?_ hoffsets hbig hlittle⟩
      rw [List.length_append, hoffsets]
      rfl

/-- A data payload is refused if its fields do not fit or if its two lengths differ. -/
theorem data_or_refused {payload : List UInt8} (hmax : payload.length ≤ maxPayloadLength)
    (after : List UInt8) :
    (∃ event, Payload 3 payload event) ∨
      ∃ error, RefusesEvent 3 payload.length (payload ++ after) error after := by
  rcases Nat.lt_or_ge payload.length 8 with hlt | hge
  · exact .inr ⟨_, .dataHeader rfl rfl hlt⟩
  · obtain ⟨context, entity, size, data, rfl⟩ := exists_dataFields hge
    by_cases hsize : data.length = size.toNat
    · exact .inl ⟨_, .monitorData hsize⟩
    · exact .inr ⟨_, .dataLength rfl hmax (length_dataFields context entity size data)
        (Ne.symm hsize)⟩

/-- Payloads whose number has one: each is either that of an event or refused. -/
theorem payload_or_refused {number : UInt16} {payload : List UInt8} (hnumber : number ≠ 0)
    (hmax : payload.length ≤ maxPayloadLength)
    (hfixed : ∀ name expected, FixedLength number name expected → payload.length = expected)
    (after : List UInt8) :
    (∃ event, Payload number payload event) ∨
      ∃ error, RefusesEvent number payload.length (payload ++ after) error after := by
  cases hkind : Kind.ofWire? number with
  | none =>
      have hlt : 6 < number := (ofWire?_eq_none_iff.mp hkind).resolve_left hnumber
      exact .inl ⟨_, .unknown hlt⟩
  | some kind =>
      have hlength : ∀ expected, kind.fixedLength? = some expected → payload.length = expected :=
        fun expected h => hfixed kind.label expected (fixedLength_iff.mpr ⟨kind, hkind, rfl, h⟩)
      have hwire := Kind.ofWire?_eq_some_iff.mp hkind
      cases kind with
      | unknown => cases hwire
      | monitorCreate =>
          cases hwire
          exact create_or_refused (hlength 49 rfl) after
      | monitorState =>
          cases hwire
          obtain ⟨context, entity, state, rfl⟩ :=
            reads_uint16.exists_three reads_uint16 reads_uint16 (fun c e s => by simp)
              (hlength 6 rfl)
          exact .inl ⟨_, .monitorState⟩
      | monitorData =>
          cases hwire
          exact data_or_refused hmax after
      | nodeCreate =>
          cases hwire
          rw [List.length_eq_zero_iff.mp (hlength 0 rfl)]
          exact .inl ⟨_, .nodeCreate⟩
      | nodeDestroy =>
          cases hwire
          rw [List.length_eq_zero_iff.mp (hlength 0 rfl)]
          exact .inl ⟨_, .nodeDestroy⟩
      | nodePosition =>
          cases hwire
          obtain ⟨x, y, z, rfl⟩ :=
            reads_double.exists_three reads_double reads_double (fun x y z => by simp)
              (hlength 24 rfl)
          exact .inl ⟨_, .nodePosition⟩

/-- An event can be read or there is a reason why not. -/
theorem event_or_refused (number : UInt16) (length : Nat) (rest : List UInt8) :
    (∃ event payload after, Payload number payload event ∧ payload.length = length ∧
        length ≤ maxPayloadLength ∧ rest = payload ++ after) ∨
      ∃ error after, RefusesEvent number length rest error after := by
  by_cases hnumber : number = 0
  · exact .inr ⟨_, _, .reserved hnumber⟩
  by_cases hmax : length ≤ maxPayloadLength
  case neg => exact .inr ⟨_, _, .tooLarge hnumber (Nat.lt_of_not_le hmax)⟩
  by_cases hfixed : ∀ name expected, FixedLength number name expected → length = expected
  case neg =>
    rw [Classical.not_forall] at hfixed
    obtain ⟨name, hfixed⟩ := hfixed
    rw [Classical.not_forall] at hfixed
    obtain ⟨expected, hfixed⟩ := hfixed
    obtain ⟨h, hne⟩ := Classical.not_imp.mp hfixed
    exact .inr ⟨_, _, .wrongLength hmax h hne⟩
  rcases Nat.lt_or_ge rest.length length with hlt | hge
  · exact .inr ⟨_, _, .missing hnumber hmax hfixed hlt⟩
  · obtain ⟨payload, after, rfl, rfl⟩ : ∃ payload after,
        rest = payload ++ after ∧ payload.length = length :=
      ⟨_, _, (List.take_append_drop length rest).symm, List.length_take_of_le hge⟩
    rcases payload_or_refused hnumber hmax hfixed after with ⟨event, h⟩ | ⟨error, h⟩
    · exact .inl ⟨event, payload, after, h, rfl, hmax, rfl⟩
    · exact .inr ⟨error, after, h⟩

end Decoder

end StateTrace
