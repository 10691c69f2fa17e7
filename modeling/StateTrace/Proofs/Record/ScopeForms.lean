import StateTrace.Record.Scope

/-!
# The forms of scopes

Not every value of the type `Scope` occurs.  A scope that was made from the empty
one by setting parts has a field for each part that is set, and zero in the fields of
the others.  `Scope.ofParts` writes these scopes down, and its lemmas say that they
are closed under setting parts.  So whatever makes scopes only by setting parts makes
no others (`Scope.Built.plain`).
-/

namespace StateTrace

/-! ## Flags -/

/-- The flags of three parts. -/
def ScopeFlags.ofParts (simulation node unknown : Bool) : ScopeFlags :=
  ⟨(if simulation then 0x2 else 0) ||| (if node then 0x4 else 0) ||| (if unknown then 0x1 else 0)⟩

namespace ScopeFlags

theorem simulation_eq_ofParts : simulation = ofParts true false false := by decide

theorem node_eq_ofParts : node = ofParts false true false := by decide

theorem insert_simulation_ofParts :
    ∀ s n u, (ofParts s n u).insert .simulation = ofParts true n u := by decide

theorem insert_node_ofParts :
    ∀ s n u, (ofParts s n u).insert .node = ofParts s true u := by decide

theorem insert_unknown_ofParts :
    ∀ s n u, (ofParts s n u).insert .unknown = ofParts s n true := by decide

theorem contains_simulation_ofParts :
    ∀ s n u, (ofParts s n u).contains .simulation = s := by decide

theorem contains_node_ofParts :
    ∀ s n u, (ofParts s n u).contains .node = n := by decide

theorem contains_unknown_ofParts :
    ∀ s n u, (ofParts s n u).contains .unknown = u := by decide

theorem inter_decoded_ofParts :
    ∀ s n u, (ofParts s n u).inter .decoded = ofParts s n false := by decide

end ScopeFlags

/-! ## Scopes -/

namespace Scope

/-- The scope that has these parts and zero in all other fields. -/
def ofParts (simUs : Option Double) (node : Option (UInt16 × NodeTime)) (unknown : Bool) :
    Scope where
  flags := .ofParts simUs.isSome node.isSome unknown
  simUs := simUs.getD .zero
  nodeId := (node.map Prod.fst).getD 0
  nodeTime := (node.map Prod.snd).getD .zero

section OfParts
variable (simUs : Option Double) (node : Option (UInt16 × NodeTime)) (unknown : Bool)

theorem empty_eq_ofParts : empty = ofParts none none false := rfl

theorem simulation_eq_ofParts (x : Double) : simulation x = ofParts (some x) none false := by
  rw [simulation, ScopeFlags.simulation_eq_ofParts]
  rfl

theorem forNode_eq_ofParts (nodeId : UInt16) (nodeTime : NodeTime) :
    forNode nodeId nodeTime = ofParts none (some (nodeId, nodeTime)) false := by
  rw [forNode, ScopeFlags.node_eq_ofParts]
  rfl

theorem withSimulation_ofParts (x : Double) :
    (ofParts simUs node unknown).withSimulation x = ofParts (some x) node unknown := by
  rw [withSimulation, ofParts, ScopeFlags.insert_simulation_ofParts]
  rfl

theorem withNode_ofParts (nodeId : UInt16) (nodeTime : NodeTime) :
    (ofParts simUs node unknown).withNode nodeId nodeTime =
      ofParts simUs (some (nodeId, nodeTime)) unknown := by
  rw [withNode, ofParts, ScopeFlags.insert_node_ofParts]
  rfl

theorem withUnknown_ofParts :
    (ofParts simUs node unknown).withUnknown = ofParts simUs node true := by
  rw [withUnknown, ofParts, ScopeFlags.insert_unknown_ofParts]
  rfl

theorem simUs?_ofParts : (ofParts simUs node unknown).simUs? = simUs := by
  rw [simUs?, ofParts, ScopeFlags.contains_simulation_ofParts]
  cases simUs <;> rfl

theorem node?_ofParts : (ofParts simUs node unknown).node? = node := by
  rw [node?, ofParts, ScopeFlags.contains_node_ofParts]
  cases node <;> rfl

end OfParts

/-- In the form of some parts. -/
def HasForm (scope : Scope) : Prop :=
  ∃ simUs node unknown, scope = ofParts simUs node unknown

/-- In the form of some parts, and without unknown ones. -/
def Plain (scope : Scope) : Prop :=
  ∃ simUs node, scope = ofParts simUs node false

section HasForm
variable {scope : Scope}

theorem Plain.hasForm (h : scope.Plain) : scope.HasForm := by
  obtain ⟨simUs, node, rfl⟩ := h
  exact ⟨simUs, node, false, rfl⟩

theorem HasForm.withSimulation (h : scope.HasForm) (x : Double) :
    (scope.withSimulation x).HasForm := by
  obtain ⟨simUs, node, unknown, rfl⟩ := h
  exact ⟨_, _, _, withSimulation_ofParts simUs node unknown x⟩

theorem HasForm.withNode (h : scope.HasForm) (nodeId : UInt16) (nodeTime : NodeTime) :
    (scope.withNode nodeId nodeTime).HasForm := by
  obtain ⟨simUs, node, unknown, rfl⟩ := h
  exact ⟨_, _, _, withNode_ofParts simUs node unknown nodeId nodeTime⟩

/-- Without the flag of unknown parts, there are only the parts with fields. -/
theorem HasForm.plain (h : scope.HasForm) (hknown : scope.flags.contains .unknown = false) :
    scope.Plain := by
  obtain ⟨simUs, node, unknown, rfl⟩ := h
  rw [ofParts, ScopeFlags.contains_unknown_ofParts] at hknown
  exact ⟨simUs, node, by rw [hknown]⟩

end HasForm

/-- Scopes that are built by the constructors and the two `with` functions. -/
inductive Built : Scope → Prop
  | empty : Built .empty
  | simulation (simUs : Double) : Built (.simulation simUs)
  | forNode (nodeId : UInt16) (nodeTime : NodeTime) : Built (.forNode nodeId nodeTime)
  | withSimulation {scope : Scope} (simUs : Double) :
      Built scope → Built (scope.withSimulation simUs)
  | withNode {scope : Scope} (nodeId : UInt16) (nodeTime : NodeTime) :
      Built scope → Built (scope.withNode nodeId nodeTime)

/-- A scope that was built has the parts that were set and no other trace of how. -/
theorem Built.plain {scope : Scope} (h : scope.Built) : scope.Plain := by
  induction h with
  | empty => exact ⟨none, none, empty_eq_ofParts⟩
  | simulation simUs => exact ⟨some simUs, none, simulation_eq_ofParts simUs⟩
  | forNode nodeId nodeTime => exact ⟨none, some _, forNode_eq_ofParts nodeId nodeTime⟩
  | withSimulation simUs _ ih =>
      obtain ⟨_, node, rfl⟩ := ih
      exact ⟨some simUs, node, withSimulation_ofParts _ node false simUs⟩
  | withNode nodeId nodeTime _ ih =>
      obtain ⟨simUs, _, rfl⟩ := ih
      exact ⟨simUs, some _, withNode_ofParts simUs _ false nodeId nodeTime⟩

end Scope

end StateTrace
