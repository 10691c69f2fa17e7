import StateTrace.Double

/-!
# Scopes

A *scope* says when and where an event happened: at a time of the simulation,
at a time of one node, at both or at neither.  Its flags tell which of its
fields count.  `simUs?` and `node?` give a field only if its flag is set, and
the constructors and the two `with` functions set a field and its flag
together.  A field whose flag is clear holds zero, so comparing all fields is
the same as comparing what the flags admit.

The flag `unknown` marks a scope that carried a part this version cannot read.
`withUnknown` sets it, and only reading a trace uses that.

The parts of a set can be taken out one by one: `lowest` is the first that is left,
and erasing it takes the first place away and no other (`places_erase_lowest`).
-/

namespace StateTrace

/-! ## Flags -/

/-- A set of scope parts, one bit each. -/
structure ScopeFlags where
  bits : UInt32
deriving DecidableEq, Repr, Inhabited

namespace ScopeFlags

def none : ScopeFlags := ⟨0⟩

/-- A part that this version does not know. -/
def unknown : ScopeFlags := ⟨0x1⟩

def simulation : ScopeFlags := ⟨0x2⟩

def node : ScopeFlags := ⟨0x4⟩

/-- Every part of `other` is in `flags`. -/
def contains (flags other : ScopeFlags) : Bool :=
  flags.bits &&& other.bits == other.bits

/-- The parts of either set. -/
def insert (flags other : ScopeFlags) : ScopeFlags :=
  ⟨flags.bits ||| other.bits⟩

/-- The parts of both sets. -/
def inter (flags other : ScopeFlags) : ScopeFlags :=
  ⟨flags.bits &&& other.bits⟩

/-- The parts whose fields this version reads and writes. -/
def decoded : ScopeFlags := simulation.insert node

/-- The parts of `flags` that are not in `other`. -/
def erase (flags other : ScopeFlags) : ScopeFlags :=
  ⟨flags.bits &&& ~~~other.bits⟩

/-- The lowest part.  A number and its negative have just their lowest bit in
common. -/
def lowest (flags : ScopeFlags) : ScopeFlags :=
  ⟨flags.bits &&& -flags.bits⟩

/-- The numbers of the bits that are set, lowest first. -/
def places (flags : ScopeFlags) : List Nat :=
  (List.range 32).filter flags.bits.toBitVec.getLsbD

/-- Bit 0 has no fields either: it is the flag `unknown`. -/
example : places ((⟨0x8000000f⟩ : ScopeFlags).erase decoded) = [0, 3, 31] := by decide

/-- A set contains what was inserted. -/
theorem contains_insert_self (flags other : ScopeFlags) :
    (flags.insert other).contains other = true := by
  obtain ⟨a⟩ := flags
  obtain ⟨b⟩ := other
  simp only [contains, insert, beq_iff_eq]
  apply UInt32.toBitVec_inj.mp
  ext i hi
  simp only [UInt32.toBitVec_and, UInt32.toBitVec_or, BitVec.getElem_and, BitVec.getElem_or]
  cases a.toBitVec[i] <;> cases b.toBitVec[i] <;> rfl

/-! ### Taking the parts one by one -/

/-- Of the places that satisfy a test, those with an earlier one are all but the
first. -/
theorem filter_range_exists_lt (p : Nat → Bool) (n : Nat) :
    (List.range n).filter (fun i => p i && decide (∃ j < i, p j = true)) =
      ((List.range n).filter p).tail := by
  induction n with
  | zero => rfl
  | succ n ih =>
      rw [List.range_succ, List.filter_append, List.filter_append, ih]
      by_cases hfirst : ∃ j < n, p j = true
      · obtain ⟨j, hj, hp⟩ := hfirst
        have hmem : j ∈ (List.range n).filter p := by simp [hj, hp]
        have hne : (List.range n).filter p ≠ [] := List.ne_nil_of_mem hmem
        have hn : decide (∃ j < n, p j = true) = true := by simpa using ⟨j, hj, hp⟩
        rw [List.tail_append_of_ne_nil hne]
        simp [List.filter_cons, hn]
      · have hnil : (List.range n).filter p = [] := by
          rw [List.filter_eq_nil_iff]
          intro j hj hp
          exact hfirst ⟨j, List.mem_range.mp hj, hp⟩
        rw [hnil]
        cases hp : p n <;> simp [hfirst, hp]

/-- Erasing the lowest part takes the first place away and no other. -/
theorem places_erase_lowest (flags : ScopeFlags) :
    (flags.erase flags.lowest).places = flags.places.tail := by
  obtain ⟨x⟩ := flags
  rw [places, places, ← filter_range_exists_lt]
  apply List.filter_congr
  intro i hi
  have hlt : i < 32 := List.mem_range.mp hi
  simp only [erase, lowest, UInt32.toBitVec_and, UInt32.toBitVec_not, UInt32.toBitVec_neg,
    BitVec.getLsbD_and, BitVec.getLsbD_not, BitVec.getLsbD_neg, hlt, decide_true, Bool.true_and]
  cases x.toBitVec.getLsbD i <;> simp

/-- A set without places is empty. -/
theorem places_eq_nil_iff (flags : ScopeFlags) : flags.places = [] ↔ flags.bits = 0 := by
  obtain ⟨x⟩ := flags
  simp only [places, List.filter_eq_nil_iff, List.mem_range, Bool.not_eq_true]
  constructor
  · intro h
    apply UInt32.toBitVec_inj.mp
    apply BitVec.eq_of_getLsbD_eq
    intro i hi
    rw [h i hi]
    simp
  · intro h i _
    simp [h]

end ScopeFlags

/-! ## Node time -/

/-- The local time of a node. -/
structure NodeTime where
  cycles : UInt64
  /-- Milliseconds since the node started. -/
  nodeMs : Double
deriving DecidableEq, Repr, Inhabited

namespace NodeTime

/-- The time at which a node starts. -/
def zero : NodeTime := ⟨0, Double.zero⟩

/-- Equality with the milliseconds compared as numbers. -/
def numEq (s t : NodeTime) : Bool :=
  s.cycles == t.cycles && s.nodeMs.numEq t.nodeMs

/-- The sixteen bytes of a node time: cycles, then milliseconds. -/
def toBytes (t : NodeTime) : List UInt8 :=
  BigEndian.ofUInt64 t.cycles ++ t.nodeMs.toBytes

@[simp] theorem length_toBytes (t : NodeTime) : t.toBytes.length = 16 := by
  simp [toBytes]

end NodeTime

/-! ## Scopes -/

/-- When and where an event happened. -/
structure Scope where
  flags : ScopeFlags
  /-- Microseconds of the simulation; counts only with `simulation`. -/
  simUs : Double
  /-- The number of the node; counts only with `node`. -/
  nodeId : UInt16
  /-- The time at the node; counts only with `node`. -/
  nodeTime : NodeTime
deriving DecidableEq, Repr, Inhabited

namespace Scope

/-- The scope without any part. -/
def empty : Scope := ⟨.none, .zero, 0, .zero⟩

/-- A scope with a time of the simulation and nothing else. -/
def simulation (simUs : Double) : Scope :=
  { empty with flags := .simulation, simUs }

/-- A scope with a node and its time and nothing else. -/
def forNode (nodeId : UInt16) (nodeTime : NodeTime) : Scope :=
  { empty with flags := .node, nodeId, nodeTime }

/-- The scope with its time of the simulation set. -/
def withSimulation (scope : Scope) (simUs : Double) : Scope :=
  { scope with flags := scope.flags.insert .simulation, simUs }

/-- The scope with its node and node time set. -/
def withNode (scope : Scope) (nodeId : UInt16) (nodeTime : NodeTime) : Scope :=
  { scope with flags := scope.flags.insert .node, nodeId, nodeTime }

/-- The scope marked as having carried a part that this version cannot read. -/
def withUnknown (scope : Scope) : Scope :=
  { scope with flags := scope.flags.insert .unknown }

/-- The time of the simulation, if it is set. -/
def simUs? (scope : Scope) : Option Double :=
  if scope.flags.contains .simulation then some scope.simUs else none

/-- The node and its time, if they are set. -/
def node? (scope : Scope) : Option (UInt16 × NodeTime) :=
  if scope.flags.contains .node then some (scope.nodeId, scope.nodeTime) else none

/-- Equality of all fields, with times compared as numbers. -/
def numEq (s t : Scope) : Bool :=
  s.flags == t.flags && s.simUs.numEq t.simUs && s.nodeId == t.nodeId &&
    s.nodeTime.numEq t.nodeTime

theorem simUs?_withSimulation (scope : Scope) (simUs : Double) :
    (scope.withSimulation simUs).simUs? = some simUs := by
  simp [simUs?, withSimulation, ScopeFlags.contains_insert_self]

theorem node?_withNode (scope : Scope) (nodeId : UInt16) (nodeTime : NodeTime) :
    (scope.withNode nodeId nodeTime).node? = some (nodeId, nodeTime) := by
  simp [node?, withNode, ScopeFlags.contains_insert_self]

end Scope

end StateTrace
