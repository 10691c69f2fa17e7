import StateTrace.Byte.StreamError

/-!
# Errors of reading a trace

Each error is a cause with the numbers that tell it.  `message` has all the
wording.  A stream that ends where bytes are missing is a truncated trace,
whether the stream says so by giving no bytes or by an error of its own, and
`ofStream` is the rule for the latter.
-/

namespace StateTrace

/-- Why a trace, or the next record of it, cannot be read. -/
inductive ReadError where
  /-- The trace ends inside the header or a record. -/
  | truncated
  | stream (error : StreamError)
  /-- The trace does not start with the magic number. -/
  | badMagic (found : List UInt8)
  /-- The trace has another major version. -/
  | majorMismatch (found expected : UInt32)
  /-- There is no memory for a payload. -/
  | outOfMemory (length : Nat)
  /-- A length is not the one that the content calls for. -/
  | inconsistent (what : String) (declared expected : Nat)
  /-- A number stands for nothing. -/
  | invalid (what : String) (raw : Nat)
  /-- A length is beyond its limit. -/
  | tooLarge (what : String) (length max : Nat)
deriving DecidableEq, Repr, Inhabited

/-- The hexadecimal digits of a number, lower case. -/
def hexDigits (n : Nat) : String :=
  String.ofList (Nat.toDigits 16 n)

/-- The two hexadecimal digits of a byte, lower case. -/
def hexByte (b : UInt8) : String :=
  String.ofList [Nat.digitChar (b.toNat / 16), Nat.digitChar (b.toNat % 16)]

namespace ReadError

/-- The error of a failed source: an end of the stream that the source reports
as an error is still a truncated trace. -/
def ofStream (error : StreamError) : ReadError :=
  if error.kind = .unexpectedEnd then truncated else stream error

def message : ReadError → String
  | truncated => "trace ends in the middle of a record"
  | stream error => "I/O error: " ++ error.text
  | badMagic found => "invalid magic number [" ++ ", ".intercalate (found.map hexByte) ++ "]"
  | majorMismatch found expected =>
      s!"major version mismatch: trace is v{found}, parser implements v{expected}"
  | outOfMemory length => s!"out of memory while reading {length} bytes"
  | inconsistent what declared expected =>
      s!"inconsistent {what}: declared {declared} bytes, expected {expected}"
  | invalid what raw => s!"invalid {what}: 0x" ++ hexDigits raw
  | tooLarge what length max => s!"{what} too large: {length} bytes (max {max})"

example : message (badMagic [0x6e, 0x6f, 0x0a, 0xff]) = "invalid magic number [6e, 6f, 0a, ff]" := by
  decide +kernel

example : message (invalid "byte order" 0) = "invalid byte order: 0x0" := by
  decide +kernel

end ReadError

end StateTrace
