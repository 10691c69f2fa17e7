import StateTrace.Byte.BigEndian

/-!
# Doubles by bit pattern

The times and positions of a trace are 64-bit binary floating-point numbers
that are carried and never computed with.  So a `Double` is its bit pattern,
and equality of `Double`s is equality bit for bit: a signalling NaN, the payload
of a NaN and the sign of a zero are all kept.

`Double.numEq` is the other equality, that of the numbers: a NaN differs from
everything, itself included, and the two zeros are the same number.
`numEq_eq_true_iff` says when it differs from equality of bits.
-/

namespace StateTrace

/-- A 64-bit binary floating-point number, by its bit pattern. -/
structure Double where
  /-- The sign, the exponent and the fraction, from the top bit down. -/
  bits : UInt64
deriving DecidableEq, Repr, Inhabited

namespace Double

/-- Positive zero. -/
def zero : Double := ⟨0⟩

/-- The exponent bits are all set and the fraction is not zero. -/
def isNaN (x : Double) : Bool :=
  x.bits &&& 0x7fffffffffffffff > 0x7ff0000000000000

/-- All bits but the sign are clear. -/
def isZero (x : Double) : Bool :=
  x.bits &&& 0x7fffffffffffffff == 0

/-- Equality of numbers: no NaN is equal to anything, and the zeros are equal. -/
def numEq (x y : Double) : Bool :=
  !x.isNaN && !y.isNaN && (x.bits == y.bits || x.isZero && y.isZero)

theorem numEq_eq_true_iff (x y : Double) :
    x.numEq y = true ↔
      x.isNaN = false ∧ y.isNaN = false ∧ (x = y ∨ x.isZero = true ∧ y.isZero = true) := by
  obtain ⟨x⟩ := x
  obtain ⟨y⟩ := y
  simp [numEq, and_assoc]

/-- A number that is no NaN equals itself. -/
theorem numEq_self {x : Double} (h : x.isNaN = false) : x.numEq x = true := by
  simp [numEq, h]

/-- The eight bytes of the bit pattern. -/
def toBytes (x : Double) : List UInt8 := BigEndian.ofUInt64 x.bits

/-- The number whose bit pattern eight bytes write. -/
def ofBytes (bytes : List UInt8) : Double := ⟨BigEndian.toUInt64 bytes⟩

@[simp] theorem length_toBytes (x : Double) : x.toBytes.length = 8 :=
  BigEndian.length_ofUInt64 x.bits

@[simp] theorem ofBytes_toBytes (x : Double) : ofBytes x.toBytes = x := by
  simp [ofBytes, toBytes]

theorem toBytes_ofBytes {bytes : List UInt8} (h : bytes.length = 8) :
    (ofBytes bytes).toBytes = bytes :=
  BigEndian.ofUInt64_toUInt64 h

/-- A quiet NaN is not equal to itself. -/
example : numEq ⟨0x7ff8000000000000⟩ ⟨0x7ff8000000000000⟩ = false := by decide
/-- Infinity is no NaN. -/
example : numEq ⟨0x7ff0000000000000⟩ ⟨0x7ff0000000000000⟩ = true := by decide
/-- The zeros are equal as numbers and differ as bit patterns. -/
example : numEq ⟨0x8000000000000000⟩ zero = true ∧ (⟨0x8000000000000000⟩ : Double) ≠ zero := by
  decide

end Double

end StateTrace
