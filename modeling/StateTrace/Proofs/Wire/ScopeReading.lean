import StateTrace.Proofs.Record.ScopeForms
import StateTrace.Proofs.Wire.Answer
import StateTrace.Proofs.Wire.Grammar

/-!
# Reading scopes

`reads_scope` says that the decoder of a scope reads the parts that its mask
announces, and gives the scope that they make.  The decoder adds one part after the
other to an empty scope, and the grammar says what comes of it all at once
(`scope_of_parts`).  Of the parts that are not known only their number matters, so
the induction follows the decoder as it takes them out of the mask.
-/

namespace StateTrace

open Wire

/-! ## Masks -/

/-- A flag of one bit is in a mask whole or not at all. -/
theorem and_singleBit (mask flag : UInt32) {i : Nat} (hflag : flag.toBitVec = BitVec.twoPow 32 i) :
    mask &&& flag = 0 ∨ mask &&& flag = flag := by
  have hand : (mask &&& flag).toBitVec =
      if mask.toBitVec.getLsbD i then BitVec.twoPow 32 i else 0#32 := by
    rw [UInt32.toBitVec_and, hflag, BitVec.and_twoPow]
  cases hbit : mask.toBitVec.getLsbD i with
  | false =>
      left
      apply UInt32.toBitVec_inj.mp
      simp [hand, hbit]
  | true =>
      right
      apply UInt32.toBitVec_inj.mp
      simp [hand, hbit, hflag]

theorem and_simulation (mask : UInt32) : mask &&& 0x2 = 0 ∨ mask &&& 0x2 = 0x2 :=
  and_singleBit mask 0x2 (i := 1) (by decide)

theorem and_node (mask : UInt32) : mask &&& 0x4 = 0 ∨ mask &&& 0x4 = 0x4 :=
  and_singleBit mask 0x4 (i := 2) (by decide)

theorem ScopeFlags.contains_simulation (mask : UInt32) :
    (ScopeFlags.mk mask).contains .simulation = (mask &&& 0x2 != 0) := by
  rw [contains, simulation]
  rcases and_simulation mask with h | h <;> rw [h] <;> decide

theorem ScopeFlags.contains_node (mask : UInt32) :
    (ScopeFlags.mk mask).contains .node = (mask &&& 0x4 != 0) := by
  rw [contains, node]
  rcases and_node mask with h | h <;> rw [h] <;> decide

/-- The decoded part of a mask, flag by flag. -/
theorem and_decoded (mask : UInt32) :
    mask &&& 0x6 =
      (if mask &&& 0x2 != 0 then 0x2 else 0) ||| (if mask &&& 0x4 != 0 then 0x4 else 0) := by
  have hsplit : mask &&& 0x6 = mask &&& 0x2 ||| mask &&& 0x4 := by
    have h : mask.toBitVec &&& (0x2#32 ||| 0x4#32) =
        mask.toBitVec &&& 0x2#32 ||| mask.toBitVec &&& 0x4#32 := BitVec.and_or_distrib_left
    exact UInt32.toBitVec_inj.mp h
  rw [hsplit]
  rcases and_simulation mask with h | h <;> rcases and_node mask with h' | h' <;>
    rw [h, h'] <;> decide

theorem ScopeFlags.length_places_erase_decoded (mask : UInt32) :
    ((ScopeFlags.mk mask).erase .decoded).places.length = foreignCount mask := by
  rw [places, foreignCount, List.countP_eq_length_filter]
  congr 1
  apply List.filter_congr
  intro i hi
  have hlt : i < 32 := List.mem_range.mp hi
  have hdecoded : ∀ i < 32, (!(decoded.bits.toBitVec.getLsbD i)) = (i != 1 && i != 2) := by decide
  rw [erase, UInt32.toBitVec_and, UInt32.toBitVec_not, BitVec.getLsbD_and, BitVec.getLsbD_not,
    hdecoded i hlt, Bool.and_assoc]
  simp [hlt, BitVec.getLsbD]

/-- The scope of parts is in the form of all scopes. -/
theorem Wire.ScopeParts.scope_eq_ofParts {mask : UInt32} (parts : ScopeParts mask) :
    parts.scope = Scope.ofParts parts.simUs parts.node (mask &&& ~~~0x6 != 0) := by
  rw [scope, Scope.ofParts, ScopeFlags.ofParts, and_decoded, parts.isSome_simUs,
    parts.isSome_node]
  by_cases h : mask &&& ~~~0x6 = 0 <;> simp [h]

/-- A body stands behind its length, a number of two bytes. -/
theorem Wire.ScopeParts.bodyBytes_of_toNat {length : UInt16} {body : List UInt8}
    (h : length.toNat = body.length) : bodyBytes body = BigEndian.ofUInt16 length ++ body := by
  rw [bodyBytes, BigEndian.ofUInt16, h]

theorem Scope.withUnknown_withUnknown (scope : Scope) :
    scope.withUnknown.withUnknown = scope.withUnknown := by
  simp only [withUnknown, ScopeFlags.insert, UInt32.or_assoc, UInt32.or_self]

namespace Decoder

/-! ## Scopes -/

theorem reads_skip (n : Nat) : Reads (skip n) fun _ w => w.length = n := by
  refine ((reads_exactly n).bind fun _ => reads_pure ()).congr fun _ w => ?_
  constructor
  · intro hsize
    exact ⟨w, w, [], ⟨rfl, hsize⟩, ⟨rfl, rfl⟩, (List.append_nil w).symm⟩
  · rintro ⟨_, _, _, ⟨rfl, hsize⟩, ⟨-, rfl⟩, rfl⟩
    rwa [List.append_nil]

theorem reads_foreignPart :
    Reads foreignPart fun length w => ∃ body : List UInt8,
      length.toNat = body.length ∧ w = ScopeParts.bodyBytes body := by
  refine (reads_uint16.bind fun length => (reads_skip length.toNat).bind fun _ =>
    reads_pure length).congr fun length w => ?_
  constructor
  · rintro ⟨body, hsize, rfl⟩
    exact ⟨length, _, body, rfl, ⟨(), body, [], hsize.symm, ⟨rfl, rfl⟩,
      (List.append_nil body).symm⟩, ScopeParts.bodyBytes_of_toNat hsize⟩
  · rintro ⟨_, _, _, rfl, ⟨_, body, _, hsize, ⟨rfl, rfl⟩, rfl⟩, rfl⟩
    refine ⟨body, hsize.symm, ?_⟩
    rw [ScopeParts.bodyBytes_of_toNat hsize.symm, List.append_nil]

/-- One body for each part that is not known.  Any of them marks the scope. -/
theorem reads_foreignParts (foreign : ScopeFlags) (scope : Scope) :
    Reads (foreignParts foreign scope) fun marked w => ∃ bodies : List (List UInt8),
      bodies.length = foreign.places.length ∧ (∀ body ∈ bodies, body.length < 65536) ∧
        marked = (if foreign.bits = 0 then scope else scope.withUnknown) ∧
        w = bodies.flatMap ScopeParts.bodyBytes := by
  induction foreign, scope using foreignParts_induct with
  | done foreign scope hzero =>
      have hnil : foreign.places = [] := foreign.places_eq_nil_iff.mpr hzero
      rw [foreignParts_done hzero]
      refine (reads_pure scope).congr fun marked w => ?_
      rw [hnil, if_pos hzero]
      constructor
      · rintro ⟨bodies, hlength, -, rfl, rfl⟩
        rw [List.length_eq_zero_iff.mp hlength]
        exact ⟨rfl, rfl⟩
      · rintro ⟨rfl, rfl⟩
        exact ⟨[], rfl, fun _ h => absurd h List.not_mem_nil, rfl, rfl⟩
  | passed foreign scope hne ih =>
      have hplaces : foreign.places.length =
          (foreign.erase foreign.lowest).places.length + 1 := by
        have hpos : foreign.places ≠ [] := fun hnil => hne (foreign.places_eq_nil_iff.mp hnil)
        rw [ScopeFlags.places_erase_lowest, List.length_tail]
        have := List.length_pos_iff.mpr hpos
        omega
      have hmarked : (if (foreign.erase foreign.lowest).bits = 0 then scope.withUnknown
          else scope.withUnknown.withUnknown) = scope.withUnknown := by
        split
        · rfl
        · exact scope.withUnknown_withUnknown
      rw [foreignParts_passed hne]
      refine (reads_foreignPart.bind fun _ => ih).congr fun marked w => ?_
      rw [if_neg hne, hmarked, hplaces]
      constructor
      · rintro ⟨bodies, hlength, hlt, rfl, rfl⟩
        cases bodies with
        | nil => cases hlength
        | cons body bodies =>
            have hsize : (UInt16.ofNat body.length).toNat = body.length :=
              UInt16.toNat_ofNat_of_lt' (hlt body List.mem_cons_self)
            exact ⟨.ofNat body.length, _, _, ⟨body, hsize, rfl⟩,
              ⟨bodies, Nat.succ.inj hlength, fun b hb => hlt b (List.mem_cons_of_mem _ hb), rfl,
                rfl⟩, List.flatMap_cons⟩
      · rintro ⟨length, _, _, ⟨body, hsize, rfl⟩, ⟨bodies, hlength, hlt, rfl, rfl⟩, rfl⟩
        refine ⟨body :: bodies, congrArg Nat.succ hlength, ?_, rfl, List.flatMap_cons.symm⟩
        intro b hb
        rcases List.mem_cons.mp hb with rfl | hb
        · exact hsize ▸ length.toNat_lt
        · exact hlt b hb

theorem reads_simulationPart (mask : UInt32) (scope : Scope) :
    Reads (simulationPart ⟨mask⟩ scope) fun timed w => ∃ simUs : Option Double,
      simUs.isSome = (mask &&& 0x2 != 0) ∧ timed = simUs.elim scope scope.withSimulation ∧
        w = simUs.elim [] Double.toBytes := by
  rw [simulationPart, ScopeFlags.contains_simulation]
  exact (reads_double.one scope.withSimulation).optional _ scope

theorem reads_nodePart (mask : UInt32) (scope : Scope) :
    Reads (nodePart ⟨mask⟩ scope) fun placed w => ∃ node : Option (UInt16 × NodeTime),
      node.isSome = (mask &&& 0x4 != 0) ∧
        placed = node.elim scope (fun node => scope.withNode node.1 node.2) ∧
        w = node.elim [] ScopeParts.nodeBytes := by
  have hnode : Reads (do
        let nodeId ← uint16
        return scope.withNode nodeId (← nodeTime))
      fun placed w => ∃ node : UInt16 × NodeTime,
        placed = scope.withNode node.1 node.2 ∧ w = ScopeParts.nodeBytes node := by
    refine (reads_uint16.two reads_nodeTime scope.withNode).congr fun placed w => ?_
    exact Prod.exists
  rw [nodePart, ScopeFlags.contains_node]
  exact hnode.optional _ scope

/-- Adding the parts one after the other to an empty scope makes the scope of the
parts. -/
theorem scope_of_parts {mask : UInt32} (parts : ScopeParts mask) :
    (let timed := parts.simUs.elim Scope.empty Scope.empty.withSimulation
     let placed := parts.node.elim timed fun node => timed.withNode node.1 node.2
     if ((ScopeFlags.mk mask).erase .decoded).bits = 0 then placed else placed.withUnknown) =
      parts.scope := by
  have htimed : parts.simUs.elim Scope.empty Scope.empty.withSimulation =
      Scope.ofParts parts.simUs none false := by
    cases parts.simUs with
    | none => exact Scope.empty_eq_ofParts
    | some simUs => exact Scope.withSimulation_ofParts none none false simUs
  have hplaced : (parts.node.elim (Scope.ofParts parts.simUs none false) fun node =>
      (Scope.ofParts parts.simUs none false).withNode node.1 node.2) =
        Scope.ofParts parts.simUs parts.node false := by
    cases parts.node with
    | none => rfl
    | some node => exact Scope.withNode_ofParts parts.simUs none false node.1 node.2
  have herase : ((ScopeFlags.mk mask).erase .decoded).bits = mask &&& ~~~0x6 := rfl
  simp only [htimed, hplaced, herase, Scope.withUnknown_ofParts, parts.scope_eq_ofParts]
  split
  · next h => rw [h, bne_self_eq_false]
  · next h => rw [bne_iff_ne.mpr h]

theorem reads_scope (mask : UInt32) :
    Reads (scope ⟨mask⟩) fun placed w => ∃ parts : ScopeParts mask,
      placed = parts.scope ∧ w = parts.bytes := by
  refine ((reads_simulationPart mask .empty).bind fun timed =>
    (reads_nodePart mask timed).bind fun placed =>
      reads_foreignParts ((ScopeFlags.mk mask).erase .decoded) placed).congr fun placed w => ?_
  constructor
  · rintro ⟨parts, rfl, rfl⟩
    refine ⟨_, _, _, ⟨parts.simUs, parts.isSome_simUs, rfl, rfl⟩, ⟨_, _, _,
      ⟨parts.node, parts.isSome_node, rfl, rfl⟩, ⟨parts.bodies, ?_, parts.length_body_lt,
        (scope_of_parts parts).symm, rfl⟩, rfl⟩, List.append_assoc _ _ _⟩
    rw [ScopeFlags.length_places_erase_decoded, parts.length_bodies]
  · rintro ⟨_, _, _, ⟨simUs, hsim, rfl, rfl⟩, ⟨_, _, _, ⟨node, hnode, rfl, rfl⟩,
      ⟨bodies, hlength, hlt, rfl, rfl⟩, rfl⟩, rfl⟩
    rw [ScopeFlags.length_places_erase_decoded] at hlength
    let parts : ScopeParts mask := ⟨simUs, node, bodies, hsim, hnode, hlength, hlt⟩
    exact ⟨parts, scope_of_parts parts, (List.append_assoc _ _ _).symm⟩

end Decoder

end StateTrace
