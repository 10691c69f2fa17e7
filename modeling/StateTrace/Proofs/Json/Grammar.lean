import StateTrace.Json.Value

/-!
# The grammar of JSON

The grammar of JSON texts, written down over characters and apart from the scanner and the machine.
`Written phrase w` says that `w` is a text of a phrase, and has one constructor for each production.
A document is the text of an element, which is a value between blanks.

Values keep numbers and strings as they were written, so the texts of one value differ in blanks and
in the case of hexadecimal digits only.  What a string means is said by `Text.StandsFor`.
-/

namespace StateTrace.Json

/-! ## Numbers -/

def AllDigits (w : List Char) : Prop := ∀ c ∈ w, c.isDigit = true

/-- The integer part of a number.  Zero stands alone. -/
inductive Integral : List Char → Prop where
  | zero : Integral ['0']
  | digits {c : Char} {w : List Char} (hc : c.isDigit = true) (hne : c ≠ '0') (hw : AllDigits w) :
      Integral (c :: w)

/-- The part of a number after the point. -/
inductive Fraction : List Char → Prop where
  | none : Fraction []
  | point {w : List Char} (hne : w ≠ []) (hw : AllDigits w) : Fraction ('.' :: w)

inductive Exponent : List Char → Prop where
  | none : Exponent []
  | mark {letter : Char} {sign w : List Char} (hletter : letter = 'e' ∨ letter = 'E')
      (hsign : sign = [] ∨ sign = ['+'] ∨ sign = ['-']) (hne : w ≠ []) (hw : AllDigits w) :
      Exponent (letter :: (sign ++ w))

inductive Numeral : List Char → Prop where
  | mk {sign integral fraction exponent : List Char} (hsign : sign = [] ∨ sign = ['-'])
      (hintegral : Integral integral) (hfraction : Fraction fraction)
      (hexponent : Exponent exponent) :
      Numeral (sign ++ (integral ++ (fraction ++ exponent)))

/-! ## Strings -/

/-- No control character stands for itself, nor does a quote or a backslash. -/
def isPlain (c : Char) : Bool := ' ' ≤ c && c != '"' && c != '\\'

/-- The text of a piece of a string. -/
inductive WrittenPiece : Piece → List Char → Prop where
  | plain {c : Char} (h : isPlain c = true) : WrittenPiece (.plain c) [c]
  | escaped {letter c : Char} (h : escape? letter = some c) :
      WrittenPiece (.escaped c) ['\\', letter]
  | unit {a b c d : Char} {i j k l : Nat} (ha : hexValue? a = some i) (hb : hexValue? b = some j)
      (hc : hexValue? c = some k) (hd : hexValue? d = some l) :
      WrittenPiece (.unit (((i * 16 + j) * 16 + k) * 16 + l)) ['\\', 'u', a, b, c, d]

/-- The inside of a string, piece by piece. -/
inductive WrittenText : Text → List Char → Prop where
  | nil : WrittenText [] []
  | cons {piece : Piece} {v : List Char} {text : Text} {w : List Char}
      (hpiece : WrittenPiece piece v) (htext : WrittenText text w) :
      WrittenText (piece :: text) (v ++ w)

/-- The characters that a string stands for.  A unit that is no half of a character is a character
of its own. -/
inductive Text.StandsFor : Text → List Char → Prop where
  | nil : StandsFor [] []
  | plain {c : Char} {text : Text} {s : List Char} (htext : StandsFor text s) :
      StandsFor (.plain c :: text) (c :: s)
  | escaped {c : Char} {text : Text} {s : List Char} (htext : StandsFor text s) :
      StandsFor (.escaped c :: text) (c :: s)
  | unit {code : Nat} {text : Text} {s : List Char} (hleading : isLeading code = false)
      (htrailing : isTrailing code = false) (htext : StandsFor text s) :
      StandsFor (.unit code :: text) (Char.ofNat code :: s)
  | halves {leading trailing : Nat} {text : Text} {s : List Char}
      (hleading : isLeading leading = true) (htrailing : isTrailing trailing = true)
      (htext : StandsFor text s) :
      StandsFor (.unit leading :: .unit trailing :: text) (ofHalves leading trailing :: s)

/-! ## Values -/

/-- What the grammar has texts of. -/
inductive Phrase where
  | value (value : Value)
  /-- A value between blanks. -/
  | element (value : Value)
  /-- Elements with commas between them, one at least. -/
  | elements (items : List Value)
  | member (key : Text) (value : Value)
  /-- Members with commas between them, one at least. -/
  | members (members : List (Text × Value))

def Blanks (w : List Char) : Prop := ∀ c ∈ w, isBlank c = true

/-- The texts of the phrases. -/
inductive Written : Phrase → List Char → Prop where
  | null : Written (.value .null) ['n', 'u', 'l', 'l']
  | wordTrue : Written (.value (.bool true)) ['t', 'r', 'u', 'e']
  | wordFalse : Written (.value (.bool false)) ['f', 'a', 'l', 's', 'e']
  | number {w : List Char} (hw : Numeral w) : Written (.value (.number w)) w
  | string {text : Text} {w : List Char} (htext : WrittenText text w) :
      Written (.value (.string text)) ('"' :: (w ++ ['"']))
  | emptyArray {w : List Char} (hblanks : Blanks w) :
      Written (.value (.array [])) ('[' :: (w ++ [']']))
  | array {items : List Value} {w : List Char} (hitems : Written (.elements items) w) :
      Written (.value (.array items)) ('[' :: (w ++ [']']))
  | emptyObject {w : List Char} (hblanks : Blanks w) :
      Written (.value (.object [])) ('\x7b' :: (w ++ ['\x7d']))
  | object {members : List (Text × Value)} {w : List Char}
      (hmembers : Written (.members members) w) :
      Written (.value (.object members)) ('\x7b' :: (w ++ ['\x7d']))
  | element {value : Value} {before w after : List Char} (hbefore : Blanks before)
      (hvalue : Written (.value value) w) (hafter : Blanks after) :
      Written (.element value) (before ++ (w ++ after))
  | lastElement {value : Value} {w : List Char} (hvalue : Written (.element value) w) :
      Written (.elements [value]) w
  | elements {value : Value} {items : List Value} {v w : List Char}
      (hvalue : Written (.element value) v) (hitems : Written (.elements items) w) :
      Written (.elements (value :: items)) (v ++ ',' :: w)
  | member {key : Text} {value : Value} {before k after w : List Char} (hbefore : Blanks before)
      (hkey : WrittenText key k) (hafter : Blanks after) (hvalue : Written (.element value) w) :
      Written (.member key value) (before ++ ('"' :: (k ++ ['"']) ++ after) ++ ':' :: w)
  | lastMember {key : Text} {value : Value} {w : List Char}
      (hmember : Written (.member key value) w) :
      Written (.members [(key, value)]) w
  | members {key : Text} {value : Value} {members : List (Text × Value)} {v w : List Char}
      (hmember : Written (.member key value) v) (hmembers : Written (.members members) w) :
      Written (.members ((key, value) :: members)) (v ++ ',' :: w)

/-! ## Texts without blanks -/

/-- Characters that may stand for themselves are a string. -/
theorem WrittenText.plain {s : List Char} (h : s.all isPlain = true) :
    WrittenText (s.map .plain) s := by
  induction s with
  | nil => exact .nil
  | cons c s ih =>
      obtain ⟨hc, hs⟩ := (Bool.and_eq_true _ _).mp h
      exact .cons (.plain hc) (ih hs)

section Tight
variable {key : Text} {value : Value} {k w : List Char}

theorem blanks_nil : Blanks [] := fun _ h => nomatch h

theorem Written.tight (h : Written (.value value) w) : Written (.element value) w := by
  simpa using Written.element blanks_nil h blanks_nil

theorem Written.tightMember (hkey : WrittenText key k) (hvalue : Written (.value value) w) :
    Written (.member key value) ('"' :: (k ++ '"' :: ':' :: w)) := by
  simpa using Written.member blanks_nil hkey blanks_nil hvalue.tight

end Tight

end StateTrace.Json
