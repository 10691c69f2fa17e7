import Mathlib.Data.List.Basic
import StateTrace.Proofs.Wire.DecodedScope
import StateTrace.Proofs.Wire.Encoding
import StateTrace.Recording

/-!
# The invariant of scopes

A scope is *made* by the constructors and the two `with` functions, from nothing or from a
scope that was decoded, and a decoded scope has a mask that it was decoded from.  All of these
steps keep a form in which only the parts that are set leave anything in the fields
(`Made.exists_parts`), and the flag of unknown parts goes back to the mask.

So the fields hold nothing that the two views `simUs?` and `node?` do not show.
`made_invariant` says this for the fields, for equality, and for what is written.
-/

namespace StateTrace

namespace Scope

/-- Scopes that can occur, each with the mask that it was decoded from, if it was decoded at
all. -/
inductive Made : Option UInt32 → Scope → Prop
  | built {scope : Scope} : Built scope → Made none scope
  | read {playback after : Playback} {r : Record} {mask : UInt32} :
      (playback.input.source.gather 4).bytes = BigEndian.ofUInt32 mask →
      playback.next = (.ok (some r), after) → Made (some mask) r.scope
  | withSimulation {mask : Option UInt32} {scope : Scope} (simUs : Double) :
      Made mask scope → Made mask (scope.withSimulation simUs)
  | withNode {mask : Option UInt32} {scope : Scope} (nodeId : UInt16) (nodeTime : NodeTime) :
      Made mask scope → Made mask (scope.withNode nodeId nodeTime)

/-- The mask announces a part that is not known. -/
def announcesUnknown (mask : Option UInt32) : Bool :=
  mask.any fun mask => mask &&& ~~~0x6 != 0

/-- Whatever a scope was made from, it has the form of its parts. -/
theorem Made.exists_parts {mask : Option UInt32} {scope : Scope} (h : scope.Made mask) :
    ∃ simUs node, scope = ofParts simUs node (announcesUnknown mask) := by
  induction h with
  | built h => exact h.plain
  | @read playback after r mask hmask h =>
      obtain ⟨mask', simUs, node, hmask', hscope⟩ := Playback.scope_of_next h
      have heq := congrArg BigEndian.toUInt32 (hmask.symm.trans hmask')
      rw [BigEndian.toUInt32_ofUInt32, BigEndian.toUInt32_ofUInt32] at heq
      subst heq
      exact ⟨simUs, node, hscope⟩
  | withSimulation simUs _ ih =>
      obtain ⟨_, node, rfl⟩ := ih
      exact ⟨some simUs, node, withSimulation_ofParts _ node _ simUs⟩
  | withNode nodeId nodeTime _ ih =>
      obtain ⟨simUs, _, rfl⟩ := ih
      exact ⟨simUs, some _, withNode_ofParts simUs _ _ nodeId nodeTime⟩

/-! ## Equality -/

/-- Two values that may be there are related if both are and are related, or neither is.  With a
default that is related to itself, the values in the place of the missing ones decide. -/
theorem rel_iff_getD {α : Type} (R : α → α → Prop) {default : α} (hdefault : R default default)
    {a b : Option α} (h : a.isSome = b.isSome) :
    Option.Rel R a b ↔ R (a.getD default) (b.getD default) := by
  cases a <;> cases b
  · exact iff_of_true .none hdefault
  · cases h
  · cases h
  · exact ⟨fun (.some hr) => hr, .some⟩

/-- The same times of the simulation, as numbers, or none. -/
def SameTime : Option Double → Option Double → Prop :=
  Option.Rel fun x y => x.numEq y = true

/-- The same node with the same times, as numbers, or none. -/
def SameNode : Option (UInt16 × NodeTime) → Option (UInt16 × NodeTime) → Prop :=
  Option.Rel fun a b => a.1 = b.1 ∧ a.2.numEq b.2 = true

section OfParts
variable {simUs simUs' : Option Double} {node node' : Option (UInt16 × NodeTime)}
  {unknown unknown' : Bool}

theorem flags_ofParts_inj :
    (ofParts simUs node unknown).flags = (ofParts simUs' node' unknown').flags ↔
      simUs.isSome = simUs'.isSome ∧ node.isSome = node'.isSome ∧ unknown = unknown' := by
  have hinj : ∀ s n u s' n' u', ScopeFlags.ofParts s n u = ScopeFlags.ofParts s' n' u' ↔
      s = s' ∧ n = n' ∧ u = u' := by decide
  exact hinj _ _ _ _ _ _

/-- With equal flags, the fields of the parts that are not set are all zero. -/
theorem numEq_ofParts :
    (ofParts simUs node unknown).numEq (ofParts simUs' node' unknown') = true ↔
      (ofParts simUs node unknown).flags = (ofParts simUs' node' unknown').flags ∧
        SameTime simUs simUs' ∧ SameNode node node' := by
  have hsplit : (ofParts simUs node unknown).numEq (ofParts simUs' node' unknown') = true ↔
      (ofParts simUs node unknown).flags = (ofParts simUs' node' unknown').flags ∧
        (simUs.getD .zero).numEq (simUs'.getD .zero) = true ∧
          (node.getD (0, .zero)).1 = (node'.getD (0, .zero)).1 ∧
            (node.getD (0, .zero)).2.numEq (node'.getD (0, .zero)).2 = true := by
    simp only [numEq, Bool.and_eq_true, beq_iff_eq, and_assoc]
    cases node <;> cases node' <;> rfl
  rw [hsplit]
  refine and_congr_right fun hflags => ?_
  obtain ⟨hsim, hnode, -⟩ := flags_ofParts_inj.mp hflags
  have hzero : Double.zero.numEq .zero = true := by decide
  have hstart : (0 : UInt16) = 0 ∧ NodeTime.zero.numEq .zero = true := by decide
  have htime : SameTime simUs simUs' ↔ (simUs.getD .zero).numEq (simUs'.getD .zero) = true :=
    rel_iff_getD (fun x y : Double => x.numEq y = true) hzero hsim
  have hplace : SameNode node node' ↔ (node.getD (0, .zero)).1 = (node'.getD (0, .zero)).1 ∧
      (node.getD (0, .zero)).2.numEq (node'.getD (0, .zero)).2 = true :=
    rel_iff_getD (fun a b : UInt16 × NodeTime => a.1 = b.1 ∧ a.2.numEq b.2 = true) hstart hnode
  rw [htime, hplace]

end OfParts

/-- What every scope that can occur satisfies, and what follows for two of them. -/
theorem made_invariant {mask mask' : Option UInt32} {scope other : Scope}
    (hscope : scope.Made mask) (hother : other.Made mask') :
    (scope.flags.bits &&& ~~~0x7 = 0 ∧
      (scope.flags.contains .unknown = true ↔ ∃ m, mask = some m ∧ m &&& ~~~0x6 ≠ 0) ∧
      (scope.flags.contains .simulation = false → scope.simUs = .zero) ∧
      (scope.flags.contains .node = false →
        scope.nodeId = 0 ∧ scope.nodeTime.cycles = 0 ∧ scope.nodeTime.nodeMs = .zero)) ∧
    (scope.numEq other = true ↔
      scope.flags = other.flags ∧ SameTime scope.simUs? other.simUs? ∧
        SameNode scope.node? other.node?) ∧
    (scope.simUs? = other.simUs? → scope.node? = other.node? →
      ∀ event, Recording.append ⟨scope, event⟩ = Recording.append ⟨other, event⟩) := by
  obtain ⟨simUs, node, rfl⟩ := hscope.exists_parts
  obtain ⟨simUs', node', rfl⟩ := hother.exists_parts
  simp only [simUs?_ofParts, node?_ofParts]
  refine ⟨⟨?_, ?_, ?_, ?_⟩, numEq_ofParts, ?_⟩
  · have hbits : ∀ s n u, (ScopeFlags.ofParts s n u).bits &&& ~~~0x7 = 0 := by decide
    exact hbits _ _ _
  · rw [ofParts, ScopeFlags.contains_unknown_ofParts, announcesUnknown, Option.any_eq_true]
    simp only [bne_iff_ne]
  · intro hunset
    rw [ofParts, ScopeFlags.contains_simulation_ofParts, Option.isSome_eq_false_iff,
      Option.isNone_iff_eq_none] at hunset
    subst hunset
    rfl
  · intro hunset
    rw [ofParts, ScopeFlags.contains_node_ofParts, Option.isSome_eq_false_iff,
      Option.isNone_iff_eq_none] at hunset
    subst hunset
    exact ⟨rfl, rfl, rfl⟩
  · rintro rfl rfl event
    have hbytes : Wire.scopeBytes (ofParts simUs node (announcesUnknown mask)) =
        Wire.scopeBytes (ofParts simUs node (announcesUnknown mask')) := by
      rw [Wire.scopeBytes_ofParts, Wire.scopeBytes_ofParts]
    simp only [Recording.append, Wire.recordBytes, hbytes]

/-- A scope that was decoded from a mask with the top bit, and then put at a node.  It is not equal
to a built scope with the same times, because of the mark, but it is written like this one. -/
theorem made_invariant_marked :
    let playback : Playback :=
      ⟨⟨.ofBytes [0x80, 0, 0, 2, 0x80, 0, 0, 0, 0, 0, 0, 0, 0, 0, 0, 4, 0, 0, 0, 0], []⟩, 1, 7, 0⟩
    ∃ r, playback.next.1 = .ok (some r) ∧
      let scope := r.scope.withNode 7 .zero
      let other := (simulation ⟨0x8000000000000000⟩).withNode 7 .zero
      scope.flags.contains .unknown = true ∧ scope.numEq other = false ∧
        ∀ event, Recording.append ⟨scope, event⟩ = Recording.append ⟨other, event⟩ := by
  intro playback
  have hmask : (playback.input.source.gather 4).bytes = BigEndian.ofUInt32 0x80000002 := by decide
  let r : Record := ⟨⟨⟨0x3⟩, ⟨0x8000000000000000⟩, 0, .zero⟩, .nodeCreate⟩
  have hanswer : playback.next.1 = .ok (some r) := by decide +kernel
  have hnext : playback.next = (.ok (some r), playback.next.2) := Prod.ext hanswer rfl
  have hscope := (Made.read hmask hnext).withNode 7 .zero
  have hother := Made.built (.withNode 7 .zero (.simulation ⟨0x8000000000000000⟩))
  obtain ⟨⟨-, hunknown, -⟩, hequal, hwritten⟩ := made_invariant hscope hother
  refine ⟨r, hanswer, hunknown.mpr ⟨_, rfl, by decide⟩, ?_,
    hwritten (by decide) (by decide)⟩
  rw [Bool.eq_false_iff, Ne, hequal]
  rintro ⟨hflags, -⟩
  exact absurd hflags (by decide)

end Scope

end StateTrace
