import StateTrace.Proofs.Record.ScopeForms
import StateTrace.Proofs.Wire.EventReading
import StateTrace.Proofs.Wire.ScopeReading
import StateTrace.Wire.Encode

/-!
# What the encoder writes

The bytes of a record are a head and a payload of the grammar
(`exists_head_of_recordBytes`).  They are a spelling of the record if the payload is
no longer than the reader allows.  The encoder does not look at that limit.  It
refuses what does not fit the length field, which is far longer, so there are data
events that are written and cannot be read.  Of those the grammar has the head and
refuses the payload.

`Unwritable` and `Oversized` are these two kinds of events.
-/

namespace StateTrace.Wire

/-- The events that have no bytes: an unknown event under a number that is not free,
and a data event whose payload is too long for its length field. -/
def Unwritable (event : Event) : Prop :=
  (∃ raw, event = .unknown raw ∧ raw ≤ 6) ∨
    ∃ payload, event = .monitorData payload ∧ lengthLimit ≤ 8 + payload.data.length

/-- The events whose payload is longer than the reader allows. -/
def Oversized (event : Event) : Prop :=
  ∃ payload, event = .monitorData payload ∧ maxPayloadLength - 8 < payload.data.length

/-- The length of the payload that an event is written with. -/
def payloadLength : Event → Nat
  | .monitorData payload => dataHeaderLength + payload.data.length
  | event => event.kind.fixedLength?.getD 0

theorem oversized_iff {event : Event} :
    Oversized event ↔ maxPayloadLength < payloadLength event := by
  cases event with
  | monitorData payload =>
      simp only [Oversized, payloadLength, Event.monitorData.injEq, exists_eq_left',
        maxPayloadLength, dataHeaderLength]
      omega
  | _ => simp [Oversized, payloadLength, Event.kind, Kind.fixedLength?, maxPayloadLength]

theorem payloadLength_lt {event : Event} (h : ¬Unwritable event) :
    payloadLength event < lengthLimit := by
  cases event with
  | monitorData payload => exact Nat.lt_of_not_le fun hle => h (.inr ⟨payload, rfl, hle⟩)
  | _ => simp [payloadLength, Event.kind, Kind.fixedLength?, lengthLimit]

/-! ## Scopes -/

theorem foreignCount_ofParts :
    ∀ s n : Bool, foreignCount (ScopeFlags.ofParts s n false).bits = 0 := by
  decide

/-- The parts of a scope without unknown parts. -/
def partsOf (simUs : Option Double) (node : Option (UInt16 × NodeTime)) :
    ScopeParts (Scope.ofParts simUs node false).flags.bits where
  simUs := simUs
  node := node
  bodies := []
  isSome_simUs := by
    rw [← ScopeFlags.contains_simulation]
    exact (ScopeFlags.contains_simulation_ofParts _ _ _).symm
  isSome_node := by
    rw [← ScopeFlags.contains_node]
    exact (ScopeFlags.contains_node_ofParts _ _ _).symm
  length_bodies := (foreignCount_ofParts _ _).symm
  length_body_lt := fun _ h => absurd h List.not_mem_nil

theorem scope_partsOf (simUs : Option Double) (node : Option (UInt16 × NodeTime)) :
    (partsOf simUs node).scope = Scope.ofParts simUs node false := by
  have hall : ∀ s n : Bool, (ScopeFlags.ofParts s n false).bits &&& ~~~0x6 = 0 := by decide
  have hforeign : (Scope.ofParts simUs node false).flags.bits &&& ~~~0x6 = 0 := hall _ _
  rw [ScopeParts.scope_eq_ofParts, hforeign]
  rfl

theorem scopeBytes_ofParts (simUs : Option Double) (node : Option (UInt16 × NodeTime))
    (unknown : Bool) :
    scopeBytes (Scope.ofParts simUs node unknown) =
      BigEndian.ofUInt32 (Scope.ofParts simUs node false).flags.bits ++
        (partsOf simUs node).bytes := by
  rw [scopeBytes, simulationBytes, nodeBytes, Scope.simUs?_ofParts, Scope.node?_ofParts]
  have hflags : (Scope.ofParts simUs node unknown).flags.inter .decoded =
      (Scope.ofParts simUs node false).flags := ScopeFlags.inter_decoded_ofParts _ _ _
  rw [hflags]
  cases simUs <;> cases node <;> simp [partsOf, ScopeParts.bytes, ScopeParts.nodeBytes]

/-! ## Events -/

/-- The bytes of an event: a number, a length and a payload of the grammar. -/
def EventSpelled (event : Event) (w : List UInt8) : Prop :=
  ∃ (number : UInt16) (length : UInt32) (payload : List UInt8),
    w = BigEndian.ofUInt16 number ++ BigEndian.ofUInt32 length ++ payload ∧
      payload.length = length.toNat ∧ payload.length = payloadLength event ∧
      Payload number payload event

/-- A payload that fits its length field is written after its length. -/
theorem exists_eventSpelled {event : Event} {number : UInt16} {payload : List UInt8}
    (hnumber : eventNumber event = .ok number) (hbytes : payloadBytes event = .ok payload)
    (heq : payload.length = payloadLength event) (hlt : payloadLength event < lengthLimit)
    (hpayload : Payload number payload event) :
    ∃ w, eventBytes event = .ok w ∧ EventSpelled event w := by
  rw [← heq] at hlt
  have hlength : (UInt32.ofNat payload.length).toNat = payload.length :=
    UInt32.toNat_ofNat_of_lt' hlt
  refine ⟨_, ?_, number, .ofNat payload.length, payload, rfl, hlength.symm, heq, hpayload⟩
  rw [eventBytes, hnumber, hbytes, BigEndian.ofUInt32, hlength]
  exact if_neg (Nat.not_le.mpr hlt)

/-- A number is free for unknown events if it is above those of the kinds. -/
theorem eventNumber_unknown (raw : UInt16) :
    eventNumber (.unknown raw) =
      if raw ≤ 6 then .error (.assignedNumber raw) else .ok raw := by
  have hfree : (raw = 0 ∨ (Kind.ofWire? raw).isSome = true) ↔ raw ≤ 6 := by
    constructor
    · rintro (rfl | hkind)
      · decide
      · refine UInt16.not_lt.mp fun hlt => ?_
        rw [Decoder.ofWire?_eq_none_iff.mpr (.inr hlt)] at hkind
        cases hkind
    · intro hle
      by_cases hzero : raw = 0
      · exact .inl hzero
      · refine .inr (Option.isSome_iff_ne_none.mpr fun hnone => ?_)
        rcases Decoder.ofWire?_eq_none_iff.mp hnone with h | h
        · exact hzero h
        · exact UInt16.not_le.mpr h hle
  simp only [eventNumber, hfree]

/-- Data that fits its own length field is written after its length. -/
theorem dataPayloadBytes_eq {payload : MonitorData} (h : payload.data.length < lengthLimit) :
    dataPayloadBytes payload = .ok (BigEndian.ofUInt16 payload.context ++
      BigEndian.ofUInt16 payload.entity ++ BigEndian.ofUInt32 (.ofNat payload.data.length) ++
        payload.data) := by
  have hsize : (UInt32.ofNat payload.data.length).toNat = payload.data.length :=
    UInt32.toNat_ofNat_of_lt' h
  rw [dataPayloadBytes, BigEndian.ofUInt32, hsize]
  exact if_neg (Nat.not_le.mpr h)

/-- An event that can be written has the bytes of the grammar. -/
theorem eventBytes_of_writable {event : Event} (h : ¬Unwritable event) :
    ∃ w, eventBytes event = .ok w ∧ EventSpelled event w := by
  have hlt := payloadLength_lt h
  cases event with
  | unknown raw =>
      have hraw : ¬raw ≤ 6 := fun hle => h (.inl ⟨raw, rfl, hle⟩)
      refine exists_eventSpelled ?_ rfl rfl hlt (.unknown (UInt16.not_le.mp hraw))
      rw [eventNumber_unknown, if_neg hraw]
  | monitorCreate payload =>
      exact exists_eventSpelled rfl rfl (by simp [payloadLength]; rfl) hlt .monitorCreate
  | monitorState payload =>
      exact exists_eventSpelled rfl rfl (by simp [payloadLength]; rfl) hlt .monitorState
  | monitorData payload =>
      have hsize : payload.data.length < lengthLimit := by
        rw [payloadLength] at hlt
        omega
      exact exists_eventSpelled rfl (dataPayloadBytes_eq hsize)
        (Decoder.length_dataFields _ _ _ _) hlt
        (.monitorData (UInt32.toNat_ofNat_of_lt' hsize).symm)
  | nodeCreate => exact exists_eventSpelled rfl rfl rfl hlt .nodeCreate
  | nodeDestroy => exact exists_eventSpelled rfl rfl rfl hlt .nodeDestroy
  | nodePosition payload =>
      exact exists_eventSpelled rfl rfl (by simp [payloadLength]; rfl) hlt .nodePosition

/-- An event that cannot be written is refused. -/
theorem eventBytes_of_unwritable {event : Event} (h : Unwritable event) :
    ∃ error, eventBytes event = .error error := by
  rcases h with ⟨raw, rfl, hraw⟩ | ⟨payload, rfl, hle⟩
  · refine ⟨.assignedNumber raw, ?_⟩
    rw [eventBytes, eventNumber_unknown, if_pos hraw]
    rfl
  · rcases Nat.lt_or_ge payload.data.length lengthLimit with hlt | hge
    · refine ⟨.payloadTooLarge, ?_⟩
      rw [eventBytes, payloadBytes, dataPayloadBytes_eq hlt]
      refine if_pos ?_
      rw [Decoder.length_dataFields]
      exact hle
    · refine ⟨.dataTooLarge, ?_⟩
      rw [eventBytes, payloadBytes, dataPayloadBytes]
      simp only [if_pos hge]
      rfl

/-! ## Records -/

section Records
variable {scope : Scope} {event : Event} {w : List UInt8}

theorem recordBytes_eq_error (h : Unwritable event) :
    ∃ error, recordBytes ⟨scope, event⟩ = .error error := by
  obtain ⟨error, herror⟩ := eventBytes_of_unwritable h
  exact ⟨error, by rw [recordBytes, herror]; rfl⟩

theorem not_unwritable (h : recordBytes ⟨scope, event⟩ = .ok w) : ¬Unwritable event := by
  intro hevent
  obtain ⟨error, herror⟩ := recordBytes_eq_error hevent
  cases herror.symm.trans h

/-- A record that can be written is written as a head and a payload. -/
theorem exists_head (hscope : scope.Plain) (h : ¬Unwritable event) :
    ∃ (head : Head) (payload : List UInt8),
      recordBytes ⟨scope, event⟩ = .ok (head.bytes ++ payload) ∧ head.parts.scope = scope ∧
        payload.length = head.length.toNat ∧ payload.length = payloadLength event ∧
        Payload head.number payload event := by
  obtain ⟨simUs, node, rfl⟩ := hscope
  obtain ⟨_, hbytes, number, length, payload, rfl, hlength, heq, hpayload⟩ :=
    eventBytes_of_writable h
  let head : Head := ⟨_, partsOf simUs node, number, length⟩
  have hhead : head.bytes ++ payload = scopeBytes (.ofParts simUs node false) ++
      (BigEndian.ofUInt16 number ++ BigEndian.ofUInt32 length ++ payload) := by
    rw [scopeBytes_ofParts]
    simp only [Head.bytes, head, List.append_assoc]
  refine ⟨head, payload, ?_, scope_partsOf simUs node, hlength, heq, hpayload⟩
  rw [recordBytes, hbytes, hhead]
  rfl

theorem exists_recordBytes (hscope : scope.Plain) (h : ¬Unwritable event) :
    ∃ w, recordBytes ⟨scope, event⟩ = .ok w := by
  obtain ⟨head, payload, hbytes, -⟩ := exists_head hscope h
  exact ⟨_, hbytes⟩

/-- What is written spells the record, if the reader allows its length. -/
theorem spells_recordBytes (hscope : scope.Plain) (hbytes : recordBytes ⟨scope, event⟩ = .ok w)
    (h : ¬Oversized event) : Spells ⟨scope, event⟩ w := by
  obtain ⟨head, payload, hhead, rfl, hlength, heq, hpayload⟩ :=
    exists_head hscope (not_unwritable hbytes)
  cases hhead.symm.trans hbytes
  refine .record hlength ?_ hpayload
  rw [← hlength, heq]
  exact Nat.le_of_not_lt fun hlt => h (oversized_iff.mpr hlt)

/-- What is written is refused at its payload, if the reader does not allow its
length. -/
theorem refuses_recordBytes (hscope : scope.Plain) (hbytes : recordBytes ⟨scope, event⟩ = .ok w)
    (h : Oversized event) (after : List UInt8) :
    ∃ rest, Refuses (w ++ after)
      (.tooLarge "event payload" (payloadLength event) maxPayloadLength) rest := by
  obtain ⟨head, payload, hhead, -, hlength, heq, hpayload⟩ :=
    exists_head hscope (not_unwritable hbytes)
  cases hhead.symm.trans hbytes
  have hlarge := oversized_iff.mp h
  rw [← heq, hlength] at hlarge ⊢
  rw [List.append_assoc]
  exact ⟨payload ++ after, .event (.tooLarge hpayload.number_ne_zero hlarge)⟩

end Records

end StateTrace.Wire
