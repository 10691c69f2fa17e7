import Mathlib.Algebra.Ring.Nat
import StateTrace.Record.Scope

/-!
# The flags of a set, one by one

A set of flags is also the list of its flags, each a set with one bit, lowest first
(`ScopeFlags.singles`).  This list is strictly ascending (`pairwise_singles`), it has
just the bits of the set (`mem_singles`), and its length is the number of the bits that
are set (`length_singles`).

A number and its negative agree in the lowest bit and in no other, whichever bit that
is.  So `lowest` is the head of the list, and what is left without it is the tail
(`singles_eq_cons`).
-/

namespace StateTrace.ScopeFlags

/-- The set with the flag at one place. -/
def ofPlace (i : Nat) : ScopeFlags := ⟨.ofBitVec (BitVec.twoPow 32 i)⟩

/-- The flags of a set, each by itself, lowest first. -/
def singles (flags : ScopeFlags) : List ScopeFlags := flags.places.map ofPlace

/-- The lowest and the highest bit are flags like the others. -/
example : singles ⟨0x80000009⟩ = [⟨0x1⟩, ⟨0x8⟩, ⟨0x80000000⟩] := by decide

theorem toNat_ofPlace {i : Nat} (h : i < 32) : (ofPlace i).bits.toNat = 2 ^ i := by
  have hlt : 2 ^ i < 2 ^ 32 := Nat.pow_lt_pow_right (by decide) h
  have hbits : (ofPlace i).bits.toNat = 2 ^ i % 2 ^ 32 := BitVec.toNat_twoPow 32 i
  rw [hbits, Nat.mod_eq_of_lt hlt]

theorem getLsbD_ofPlace_iff {i j : Nat} :
    (ofPlace i).bits.toBitVec.getLsbD j = true ↔ i < 32 ∧ i = j := by
  rw [ofPlace, BitVec.getLsbD_twoPow, Bool.and_eq_true, decide_eq_true_eq, decide_eq_true_eq]

theorem mem_places {flags : ScopeFlags} {i : Nat} :
    i ∈ flags.places ↔ i < 32 ∧ flags.bits.toNat.testBit i = true := by
  rw [places, List.mem_filter, List.mem_range]
  rfl

theorem pairwise_places (flags : ScopeFlags) : flags.places.Pairwise (· < ·) :=
  List.pairwise_lt_range.filter _

/-- A set has the flags whose bits are set in it. -/
theorem mem_singles {flags single : ScopeFlags} :
    single ∈ flags.singles ↔
      ∃ i < 32, flags.bits.toNat.testBit i = true ∧ single.bits.toNat = 2 ^ i := by
  rw [singles, List.mem_map]
  constructor
  · rintro ⟨i, hi, rfl⟩
    obtain ⟨hlt, hbit⟩ := mem_places.mp hi
    exact ⟨i, hlt, hbit, toNat_ofPlace hlt⟩
  · rintro ⟨i, hlt, hbit, hsingle⟩
    refine ⟨i, mem_places.mpr ⟨hlt, hbit⟩, ?_⟩
    have hequal : (ofPlace i).bits = single.bits :=
      UInt32.toNat_inj.mp ((toNat_ofPlace hlt).trans hsingle.symm)
    obtain ⟨bits⟩ := single
    exact congrArg mk hequal

/-- The flags ascend, so none of them comes twice. -/
theorem pairwise_singles (flags : ScopeFlags) :
    flags.singles.Pairwise fun f g => f.bits < g.bits := by
  rw [singles, List.pairwise_map]
  refine flags.pairwise_places.imp_of_mem fun {i j} hi hj hlt => ?_
  rw [UInt32.lt_iff_toNat_lt, toNat_ofPlace (mem_places.mp hi).1,
    toNat_ofPlace (mem_places.mp hj).1]
  exact Nat.pow_lt_pow_right (by decide) hlt

/-- The count of the library goes down from the top bit, and the list of places up. -/
theorem cpopNatRec_eq_countP (x : BitVec 32) (n : Nat) :
    x.cpopNatRec n 0 = (List.range n).countP x.getLsbD := by
  induction n with
  | zero => rfl
  | succ n ih =>
      rw [BitVec.cpopNatRec_succ, BitVec.cpopNatRec_eq, ih, List.range_succ, List.countP_append,
        List.countP_singleton, Nat.zero_add]
      cases x.getLsbD n <;> rfl

/-- There are as many flags as bits that are set. -/
theorem length_singles (flags : ScopeFlags) :
    flags.singles.length = flags.bits.toBitVec.cpop.toNat := by
  rw [singles, List.length_map, places, BitVec.toNat_cpop, cpopNatRec_eq_countP,
    List.countP_eq_length_filter]

theorem singles_eq_nil_iff (flags : ScopeFlags) : flags.singles = [] ↔ flags.bits = 0 := by
  rw [singles, List.map_eq_nil_iff, places_eq_nil_iff]

/-! ## The lowest flag -/

/-- The bit that a number and its negative have in common is set and has no set bit below. -/
theorem getLsbD_lowest_iff {flags : ScopeFlags} {i : Nat} :
    flags.lowest.bits.toBitVec.getLsbD i = true ↔
      flags.bits.toBitVec.getLsbD i = true ∧
        ∀ j < i, flags.bits.toBitVec.getLsbD j = false := by
  obtain ⟨x⟩ := flags
  simp only [lowest, UInt32.toBitVec_and, UInt32.toBitVec_neg, BitVec.getLsbD_and,
    BitVec.getLsbD_neg]
  cases hbit : x.toBitVec.getLsbD i with
  | false => simp
  | true =>
      have hlt : i < 32 := BitVec.lt_of_getLsbD hbit
      simp [hlt]

/-- A place that is not the first one is behind it. -/
theorem eq_or_lt_of_places {flags : ScopeFlags} {i j : Nat} {later : List Nat}
    (h : flags.places = i :: later) (hj : flags.bits.toBitVec.getLsbD j = true) :
    j = i ∨ i < j := by
  have hsorted : (i :: later).Pairwise (· < ·) := h ▸ flags.pairwise_places
  have hplace : j ∈ i :: later := h ▸ mem_places.mpr ⟨BitVec.lt_of_getLsbD hj, hj⟩
  exact (List.mem_cons.mp hplace).imp_right (List.rel_of_pairwise_cons hsorted)

/-- The lowest flag is the one at the first place. -/
theorem lowest_eq_ofPlace {flags : ScopeFlags} {i : Nat} {later : List Nat}
    (h : flags.places = i :: later) : flags.lowest = ofPlace i := by
  obtain ⟨hlt, hfirst⟩ := mem_places.mp (h ▸ List.mem_cons_self)
  have hbits : flags.lowest.bits.toBitVec = (ofPlace i).bits.toBitVec := by
    apply BitVec.eq_of_getLsbD_eq
    intro j _
    rw [Bool.eq_iff_iff, getLsbD_lowest_iff, getLsbD_ofPlace_iff]
    constructor
    -- A bit behind the first place has the first place below it.
    · intro ⟨hset, hbelow⟩
      rcases eq_or_lt_of_places h hset with heq | hgt
      · exact ⟨hlt, heq.symm⟩
      · exact absurd hfirst (Bool.eq_false_iff.mp (hbelow i hgt))
    · rintro ⟨-, rfl⟩
      refine ⟨hfirst, fun k hk => Bool.eq_false_iff.mpr fun hset => ?_⟩
      rcases eq_or_lt_of_places h hset with heq | hgt <;> omega
  exact congrArg mk (UInt32.toBitVec_inj.mp hbits)

/-- The lowest flag comes first, and without it the others are left. -/
theorem singles_eq_cons {flags : ScopeFlags} (h : flags.bits ≠ 0) :
    flags.singles = flags.lowest :: (flags.erase flags.lowest).singles := by
  cases hplaces : flags.places with
  | nil => exact absurd (flags.places_eq_nil_iff.mp hplaces) h
  | cons i later =>
      rw [singles, singles, places_erase_lowest, hplaces, lowest_eq_ofPlace hplaces]
      rfl

end StateTrace.ScopeFlags
