import StateTrace.Proofs.Wire.Acceptance
import StateTrace.Proofs.Wire.Encoding

/-!
# Canonical spellings

A record that has a spelling can be written.  The number of an event that was read is free
for it, and its payload is within the limits (`Spells.not_unwritable`,
`Spells.not_oversized`).

Which spelling the encoder writes is another matter, since a record has many of them.  They
differ in two places only: in the parts of the scope that are not known and in the payload of
an event that is not known.  A spelling that has nothing in these places is *canonical*.  The
bytes of its scope follow from the scope (`ScopeParts.scopeBytes_scope`), and its number and
payload follow from the event (`Payload.unique`).  So the encoder writes it
(`Spells.recordBytes_of_canonical`).
-/

namespace StateTrace.Wire

/-! ## Writing what was read -/

section Spells
variable {r : Record} {w : List UInt8}

/-- The scope of a spelling is in the form of all scopes. -/
theorem Spells.hasForm (h : Spells r w) : r.scope.HasForm := by
  cases h with
  | @record head payload event =>
      exact ⟨_, _, _, head.parts.scope_eq_ofParts⟩

/-- The number of an unknown event is above those of the kinds. -/
theorem Payload.lt_of_unknown {number raw : UInt16} {payload : List UInt8}
    (h : Payload number payload (.unknown raw)) : 6 < raw := by
  cases h with
  | unknown hlt => exact hlt

/-- Data has eight bytes of fields before it. -/
theorem Payload.length_monitorData {number : UInt16} {payload : List UInt8} {data : MonitorData}
    (h : Payload number payload (.monitorData data)) : payload.length = 8 + data.data.length := by
  cases h with
  | @monitorData context entity size data => exact Decoder.length_dataFields _ _ _ _

theorem Spells.not_oversized (h : Spells r w) : ¬Oversized r.event := by
  cases h with
  | @record head payload event hlength hmax hpayload =>
      intro ⟨data, hevent, hsize⟩
      cases hevent
      have hdata := hpayload.length_monitorData
      rw [maxPayloadLength] at hmax hsize
      omega

theorem Spells.not_unwritable (h : Spells r w) : ¬Unwritable r.event := by
  intro hunwritable
  rcases hunwritable with ⟨raw, hevent, hraw⟩ | ⟨data, hevent, hsize⟩
  · cases h with
    | record _ _ hpayload =>
        cases hevent
        exact absurd hraw (UInt16.not_le.mpr hpayload.lt_of_unknown)
  · have hlarge : maxPayloadLength - 8 < data.data.length := by
      rw [maxPayloadLength]
      rw [lengthLimit] at hsize
      omega
    exact h.not_oversized ⟨data, hevent, hlarge⟩

end Spells

/-! ## Canonical spellings -/

/-- A spelling with nothing that its record does not keep: no unknown part of the scope, and
no payload of an unknown event. -/
def Canonical (r : Record) (w : List UInt8) : Prop :=
  ∃ (head : Head) (payload : List UInt8), w = head.bytes ++ payload ∧
    head.mask &&& ~~~0x6 = 0 ∧ (r.event.kind = .unknown → payload = [])

/-- A head ends where it ends, whatever follows it. -/
theorem Head.bytes_append_inj {head head' : Head} {rest rest' : List UInt8}
    (h : head.bytes ++ rest = head'.bytes ++ rest') : head.mask = head'.mask ∧ rest = rest' := by
  simp only [Head.bytes, List.append_assoc] at h
  obtain ⟨hbytes, hfields⟩ := List.append_inj h (by simp)
  have hmask : head.mask = head'.mask := by
    have hnumber := congrArg BigEndian.toUInt32 hbytes
    simpa using hnumber
  refine ⟨hmask, ?_⟩
  -- With one mask for both, the fields are read by one decoder.
  obtain ⟨mask, parts, number, length⟩ := head
  obtain ⟨mask', parts', number', length'⟩ := head'
  cases hmask
  have hreads := Decoder.reads_headFields mask
  have hgives := hreads.accepts (a := (parts.scope, number, length)) ⟨parts, rfl, rfl⟩ rest
  have hgives' := hreads.accepts (a := (parts'.scope, number', length')) ⟨parts', rfl, rfl⟩ rest'
  simp only [List.append_assoc] at hgives hgives'
  rw [hfields] at hgives
  exact (hgives.unique hgives').2

/-- The event determines its number, and also its payload if the event is known. -/
theorem Payload.unique {number number' : UInt16} {payload payload' : List UInt8} {event : Event}
    (h : Payload number payload event) (h' : Payload number' payload' event) :
    number = number' ∧ (event.kind ≠ .unknown → payload = payload') := by
  cases h with
  | monitorData hdata =>
      cases h' with
      | monitorData hdata' =>
          have hsize := UInt32.toNat_inj.mp (hdata.symm.trans hdata')
          rw [hsize]
          exact ⟨rfl, fun _ => rfl⟩
  | unknown =>
      cases h' with
      | unknown => exact ⟨rfl, fun hkind => absurd rfl hkind⟩
  | _ =>
      cases h'
      exact ⟨rfl, fun _ => rfl⟩

/-- A mask without unknown parts is all decoded. -/
theorem and_decoded_of_clean {mask : UInt32} (hclean : mask &&& ~~~0x6 = 0) :
    mask &&& 0x6 = mask := by
  have hsplit : mask &&& (0x6 ||| ~~~0x6) = mask &&& 0x6 ||| mask &&& ~~~0x6 := by
    have h : mask.toBitVec &&& (0x6#32 ||| ~~~0x6#32) =
        mask.toBitVec &&& 0x6#32 ||| mask.toBitVec &&& ~~~0x6#32 := BitVec.and_or_distrib_left
    exact UInt32.toBitVec_inj.mp h
  have hall : (0x6 : UInt32) ||| ~~~0x6 = -1 := by decide
  rw [hall, hclean, UInt32.or_zero, UInt32.and_neg_one] at hsplit
  exact hsplit.symm

/-- Without unknown parts, a scope is written as the mask and the parts that it was read
from. -/
theorem ScopeParts.scopeBytes_scope {mask : UInt32} (parts : ScopeParts mask)
    (hclean : mask &&& ~~~0x6 = 0) :
    scopeBytes parts.scope = BigEndian.ofUInt32 mask ++ parts.bytes := by
  have hbits : (Scope.ofParts parts.simUs parts.node false).flags.bits = mask := by
    have hdecoded := and_decoded mask
    rw [and_decoded_of_clean hclean, ← parts.isSome_simUs, ← parts.isSome_node] at hdecoded
    simp [Scope.ofParts, ScopeFlags.ofParts, ← hdecoded]
  have hbodies : parts.bodies = [] := by
    apply List.eq_nil_of_length_eq_zero
    rw [parts.length_bodies, ← hbits]
    exact foreignCount_ofParts _ _
  have hbytes : (partsOf parts.simUs parts.node).bytes = parts.bytes := by
    simp only [ScopeParts.bytes, partsOf, hbodies]
  rw [parts.scope_eq_ofParts, hclean, bne_self_eq_false, scopeBytes_ofParts, hbytes, hbits]

/-- The encoder writes a canonical spelling of what was read. -/
theorem Spells.recordBytes_of_canonical {r : Record} {w : List UInt8} (h : Spells r w)
    (hcanonical : Canonical r w) : recordBytes r = .ok w := by
  obtain ⟨_, hevent, number, length, written, rfl, hlength, heq, hwritten⟩ :=
    eventBytes_of_writable h.not_unwritable
  obtain ⟨head, payload, hsplit, hclean, hnothing⟩ := hcanonical
  cases h with
  | @record head' payload' event hlength' hmax hpayload =>
      obtain ⟨hmask, hrest⟩ := Head.bytes_append_inj hsplit
      rw [← hmask] at hclean
      rw [← hrest] at hnothing
      obtain ⟨hnumber, hknown⟩ := hpayload.unique hwritten
      have hsame : written = payload' := by
        by_cases hkind : event.kind = .unknown
        · have hempty : payloadLength event = 0 := by
            cases event with
            | unknown => rfl
            | _ => cases hkind
          rw [hnothing hkind]
          exact List.eq_nil_of_length_eq_zero (heq.trans hempty)
        · exact (hknown hkind).symm
      subst hsame
      have hfield : length = head'.length := UInt32.toNat_inj.mp (hlength.symm.trans hlength')
      rw [recordBytes, hevent, ← hnumber, hfield]
      show Except.ok _ = Except.ok _
      rw [head'.parts.scopeBytes_scope hclean]
      simp only [Head.bytes, List.append_assoc]

end StateTrace.Wire
