/-!
# Big-endian numbers

A number of a trace is a fixed count of bytes, the most significant one first.
`encode w n` writes `n` in `w` bytes and `decode` reads any byte list.  Both are
plain `Nat` functions, and the fixed-width fields of the format are these two
at the widths 2, 4 and 8.

`decode_encode` says that a number below `limit w` survives `w` bytes, and
`encode_decode` that every byte list is the encoding of its own value.  So the
two are inverse bijections at each width.
-/

namespace StateTrace.BigEndian

/-- The `w` bytes of `n`, most significant first.  What exceeds the width is
dropped. -/
def encode : Nat → Nat → List UInt8
  | 0, _ => []
  | w + 1, n => encode w (n / 256) ++ [UInt8.ofNat (n % 256)]

/-- The number that a byte list writes. -/
def decode (bytes : List UInt8) : Nat :=
  bytes.foldl (fun n b => n * 256 + b.toNat) 0

/-- The numbers below this fit `w` bytes. -/
def limit : Nat → Nat
  | 0 => 1
  | w + 1 => 256 * limit w

theorem limit_pos (w : Nat) : 0 < limit w := by
  induction w with
  | zero => decide
  | succ w ih =>
      rw [limit]
      omega

theorem length_encode (w n : Nat) : (encode w n).length = w := by
  induction w generalizing n with
  | zero => rfl
  | succ w ih => simp [encode, ih]

theorem decode_nil : decode [] = 0 := rfl

theorem decode_append_singleton (bytes : List UInt8) (b : UInt8) :
    decode (bytes ++ [b]) = decode bytes * 256 + b.toNat := by
  simp [decode]

/-- Reading back gives the number modulo the width. -/
theorem decode_encode_mod (w n : Nat) : decode (encode w n) = n % limit w := by
  induction w generalizing n with
  | zero => simp [encode, decode_nil, limit, Nat.mod_one]
  | succ w ih =>
      have hb : (UInt8.ofNat (n % 256)).toNat = n % 256 := by
        simp
      rw [encode, decode_append_singleton, ih, hb, limit, Nat.mod_mul]
      omega

/-- A number that fits its width is read back unchanged. -/
theorem decode_encode {w n : Nat} (h : n < limit w) : decode (encode w n) = n := by
  rw [decode_encode_mod, Nat.mod_eq_of_lt h]

/-- The bytes of the value of a list, at the length of the list, are the list. -/
theorem encode_decode_reverse (bytes : List UInt8) :
    encode bytes.length (decode bytes.reverse) = bytes.reverse := by
  induction bytes with
  | nil => rfl
  | cons b bytes ih =>
      have hb : b.toNat < 256 := b.toNat_lt
      have hdiv : (decode bytes.reverse * 256 + b.toNat) / 256 = decode bytes.reverse := by omega
      have hmod : (decode bytes.reverse * 256 + b.toNat) % 256 = b.toNat := by omega
      rw [List.reverse_cons, decode_append_singleton, List.length_cons, encode, hdiv, hmod, ih,
        UInt8.ofNat_toNat]

/-- Every byte list is the encoding of the number it writes. -/
theorem encode_decode (bytes : List UInt8) : encode bytes.length (decode bytes) = bytes := by
  have h := encode_decode_reverse bytes.reverse
  rwa [List.length_reverse, List.reverse_reverse] at h

/-- A byte list writes a number that fits its length. -/
theorem decode_lt (bytes : List UInt8) : decode bytes < limit bytes.length := by
  have h := decode_encode_mod bytes.length (decode bytes)
  rw [encode_decode] at h
  rw [h]
  exact Nat.mod_lt _ (limit_pos _)

/-! ## The three widths of the format -/

/-- The two bytes of a 16-bit number. -/
def ofUInt16 (n : UInt16) : List UInt8 := encode 2 n.toNat

/-- The four bytes of a 32-bit number. -/
def ofUInt32 (n : UInt32) : List UInt8 := encode 4 n.toNat

/-- The eight bytes of a 64-bit number. -/
def ofUInt64 (n : UInt64) : List UInt8 := encode 8 n.toNat

/-- The 16-bit number that two bytes write. -/
def toUInt16 (bytes : List UInt8) : UInt16 := UInt16.ofNat (decode bytes)

/-- The 32-bit number that four bytes write. -/
def toUInt32 (bytes : List UInt8) : UInt32 := UInt32.ofNat (decode bytes)

/-- The 64-bit number that eight bytes write. -/
def toUInt64 (bytes : List UInt8) : UInt64 := UInt64.ofNat (decode bytes)

@[simp] theorem length_ofUInt16 (n : UInt16) : (ofUInt16 n).length = 2 := length_encode 2 _

@[simp] theorem length_ofUInt32 (n : UInt32) : (ofUInt32 n).length = 4 := length_encode 4 _

@[simp] theorem length_ofUInt64 (n : UInt64) : (ofUInt64 n).length = 8 := length_encode 8 _

@[simp] theorem toUInt16_ofUInt16 (n : UInt16) : toUInt16 (ofUInt16 n) = n := by
  rw [toUInt16, ofUInt16, decode_encode n.toNat_lt, UInt16.ofNat_toNat]

@[simp] theorem toUInt32_ofUInt32 (n : UInt32) : toUInt32 (ofUInt32 n) = n := by
  rw [toUInt32, ofUInt32, decode_encode n.toNat_lt, UInt32.ofNat_toNat]

@[simp] theorem toUInt64_ofUInt64 (n : UInt64) : toUInt64 (ofUInt64 n) = n := by
  rw [toUInt64, ofUInt64, decode_encode n.toNat_lt, UInt64.ofNat_toNat]

theorem ofUInt16_toUInt16 {bytes : List UInt8} (h : bytes.length = 2) :
    ofUInt16 (toUInt16 bytes) = bytes := by
  have hlt : decode bytes < limit 2 := h ▸ decode_lt bytes
  rw [ofUInt16, toUInt16, UInt16.toNat_ofNat_of_lt' hlt, ← h, encode_decode]

theorem ofUInt32_toUInt32 {bytes : List UInt8} (h : bytes.length = 4) :
    ofUInt32 (toUInt32 bytes) = bytes := by
  have hlt : decode bytes < limit 4 := h ▸ decode_lt bytes
  rw [ofUInt32, toUInt32, UInt32.toNat_ofNat_of_lt' hlt, ← h, encode_decode]

theorem ofUInt64_toUInt64 {bytes : List UInt8} (h : bytes.length = 8) :
    ofUInt64 (toUInt64 bytes) = bytes := by
  have hlt : decode bytes < limit 8 := h ▸ decode_lt bytes
  rw [ofUInt64, toUInt64, UInt64.toNat_ofNat_of_lt' hlt, ← h, encode_decode]

/-- The most significant byte comes first. -/
example : ofUInt32 0x01020304 = [1, 2, 3, 4] := by decide

example : toUInt16 [0x01, 0xff] = 511 := by decide

end StateTrace.BigEndian
