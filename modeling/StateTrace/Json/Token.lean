/-!
# JSON tokens

The tokens of a JSON text, by the strict grammar: no comments, no trailing
commas, no leading zeros, white space of four kinds, and no control characters
in strings.  `tokens?` gives the tokens of a text, or nothing if some part of it
is no token.

Tokens keep how they were written.  A number is its digits and signs, and a
string is a `Text`, a list of pieces: characters as they stand, characters behind
a backslash, and `\u` units.  What a text stands for is a question of its own,
since a surrogate unit without its partner stands for nothing.  `Text.decode?`
answers it.

The scanner is a machine that reads one character at a time.  `step` is one move
of it, and `scan` runs it over a text.
-/

namespace StateTrace.Json

/-! ## Texts -/

/-- A piece of a string, as written. -/
inductive Piece where
  /-- A character that stands for itself. -/
  | plain (c : Char)
  /-- The character that a backslash and a letter stand for. -/
  | escaped (c : Char)
  /-- A UTF-16 unit, by its four hexadecimal digits. -/
  | unit (code : Nat)
deriving DecidableEq, Repr, Inhabited

/-- The inside of a string, as written. -/
abbrev Text := List Piece

/-- The unit is the first half of a character. -/
def isLeading (code : Nat) : Bool := 0xd800 ≤ code && code < 0xdc00

/-- The unit is the second half of a character. -/
def isTrailing (code : Nat) : Bool := 0xdc00 ≤ code && code < 0xe000

/-- The character of two halves. -/
def ofHalves (leading trailing : Nat) : Char :=
  Char.ofNat (0x10000 + (leading - 0xd800) * 0x400 + (trailing - 0xdc00))

namespace Text

/-- The characters of a text after those in `read`, latest first. -/
def decodeOnto (read : List Char) : Text → Option (List Char)
  | [] => some read.reverse
  | .plain c :: text => decodeOnto (c :: read) text
  | .escaped c :: text => decodeOnto (c :: read) text
  | .unit leading :: .unit trailing :: text =>
      if isLeading leading then
        if isTrailing trailing then decodeOnto (ofHalves leading trailing :: read) text else none
      else if isTrailing leading then none
      else decodeOnto (Char.ofNat leading :: read) (.unit trailing :: text)
  | .unit code :: text =>
      if isLeading code || isTrailing code then none
      else decodeOnto (Char.ofNat code :: read) text

/-- What a text stands for.  Both halves of a character have to be there, one
right after the other. -/
def decode? (text : Text) : Option String :=
  (decodeOnto [] text).map String.ofList

/-- The character of a piece that stands for itself. -/
def plain? : Piece → Option Char
  | .plain c => some c
  | _ => none

/-- The characters of a text that is written without a backslash. -/
def literal? (text : Text) : Option (List Char) :=
  text.mapM plain?

end Text

/-! ## Tokens -/

/-- A token of a JSON text. -/
inductive Token where
  | openArray
  | closeArray
  | openObject
  | closeObject
  | comma
  | colon
  | null
  /-- One of the words `true` and `false`. -/
  | bool (value : Bool)
  | number (digits : List Char)
  | string (text : Text)
deriving DecidableEq, Repr, Inhabited

/-- The characters that may stand between tokens. -/
def isBlank (c : Char) : Bool := c = ' ' || c = '\t' || c = '\n' || c = '\r'

/-- The token of a punctuation character. -/
def punctuation? : Char → Option Token
  | '[' => some .openArray
  | ']' => some .closeArray
  | '\x7b' => some .openObject
  | '\x7d' => some .closeObject
  | ',' => some .comma
  | ':' => some .colon
  | _ => none

/-- The rest of the word that a letter starts, and its token. -/
def word? : Char → Option (List Char × Token)
  | 'n' => some (['u', 'l', 'l'], .null)
  | 't' => some (['r', 'u', 'e'], .bool true)
  | 'f' => some (['a', 'l', 's', 'e'], .bool false)
  | _ => none

/-- The character that a letter stands for behind a backslash. -/
def escape? : Char → Option Char
  | '"' => some '"'
  | '\\' => some '\\'
  | '/' => some '/'
  | 'b' => some '\x08'
  | 'f' => some '\x0c'
  | 'n' => some '\n'
  | 'r' => some '\r'
  | 't' => some '\t'
  | _ => none

/-- The value of a hexadecimal digit of either case. -/
def hexValue? (c : Char) : Option Nat :=
  if '0' ≤ c ∧ c ≤ '9' then some (c.toNat - '0'.toNat)
  else if 'a' ≤ c ∧ c ≤ 'f' then some (c.toNat - 'a'.toNat + 10)
  else if 'A' ≤ c ∧ c ≤ 'F' then some (c.toNat - 'A'.toNat + 10)
  else none

/-! ## Numbers -/

/-- How far a number has been read. -/
inductive NumberPart where
  | sign
  /-- A leading zero, which is the whole integer part. -/
  | zero
  /-- Digits of the integer part. -/
  | integer
  | point
  /-- Digits after the point. -/
  | fraction
  /-- The letter of the exponent. -/
  | mark
  | exponentSign
  | exponent
deriving DecidableEq, Repr, Inhabited

namespace NumberPart

/-- How a number starts. -/
def start? (c : Char) : Option NumberPart :=
  if c = '-' then some sign
  else if c = '0' then some zero
  else if c.isDigit then some integer
  else none

/-- How a number goes on. -/
def next? (part : NumberPart) (c : Char) : Option NumberPart :=
  match part with
  | sign => if c = '0' then some zero else if c.isDigit then some integer else none
  | zero => if c = '.' then some point else if c = 'e' ∨ c = 'E' then some mark else none
  | integer =>
      if c.isDigit then some integer
      else if c = '.' then some point
      else if c = 'e' ∨ c = 'E' then some mark
      else none
  | point => if c.isDigit then some fraction else none
  | fraction =>
      if c.isDigit then some fraction else if c = 'e' ∨ c = 'E' then some mark else none
  | mark =>
      if c = '+' ∨ c = '-' then some exponentSign else if c.isDigit then some exponent else none
  | exponentSign => if c.isDigit then some exponent else none
  | exponent => if c.isDigit then some exponent else none

/-- A number may end here. -/
def complete : NumberPart → Bool
  | zero | integer | fraction | exponent => true
  | sign | point | mark | exponentSign => false

end NumberPart

/-! ## The scanner -/

/-- What the scanner is in the middle of. -/
inductive Scan where
  /-- Between tokens. -/
  | between
  /-- In a word: the letters still to come, and its token. -/
  | word (rest : List Char) (token : Token)
  /-- In a number: how far, and what was read, latest first. -/
  | number (part : NumberPart) (read : List Char)
  /-- In a string: its pieces, latest first. -/
  | string (read : Text)
  /-- Right behind a backslash. -/
  | escape (read : Text)
  /-- In the digits of a unit: how many are to come, and the value so far. -/
  | unit (read : Text) (missing : Nat) (code : Nat)
deriving DecidableEq, Repr, Inhabited

namespace Scan

/-- The start of a token, or a blank. -/
def start (tokens : Array Token) (c : Char) : Option (Scan × Array Token) :=
  if isBlank c then some (between, tokens)
  else if c = '"' then some (string [], tokens)
  else match punctuation? c with
    | some token => some (between, tokens.push token)
    | none => match word? c with
      | some (rest, token) => some (word rest token, tokens)
      | none => (NumberPart.start? c).map fun part => (number part [c], tokens)

/-- One move of the scanner.  A number ends at the first character that does not
go on with it, and that character starts the next token. -/
def step (tokens : Array Token) (c : Char) : Scan → Option (Scan × Array Token)
  | between => start tokens c
  | word [] _ => none
  | word [d] token => if c = d then some (between, tokens.push token) else none
  | word (d :: rest) token => if c = d then some (word rest token, tokens) else none
  | number part read =>
      match part.next? c with
      | some part => some (number part (c :: read), tokens)
      | none =>
          if part.complete then start (tokens.push (.number read.reverse)) c else none
  | string read =>
      if c = '"' then some (between, tokens.push (.string read.reverse))
      else if c = '\\' then some (escape read, tokens)
      else if c < ' ' then none
      else some (string (.plain c :: read), tokens)
  | escape read =>
      if c = 'u' then some (unit read 4 0, tokens)
      else (escape? c).map fun d => (string (.escaped d :: read), tokens)
  | unit read missing code => do
      let code := code * 16 + (← hexValue? c)
      return (if missing ≤ 1 then string (.unit code :: read) else unit read (missing - 1) code,
        tokens)

/-- The tokens at the end of a text.  It may end between tokens or with a
number. -/
def finish (tokens : Array Token) : Scan → Option (Array Token)
  | between => some tokens
  | number part read =>
      if part.complete then some (tokens.push (.number read.reverse)) else none
  | _ => none

end Scan

/-- Run the scanner over the characters that are left. -/
def scan (tokens : Array Token) (state : Scan) : List Char → Option (Array Token)
  | [] => state.finish tokens
  | c :: text =>
      match state.step tokens c with
      | some (state, tokens) => scan tokens state text
      | none => none

def tokens? (text : List Char) : Option (List Token) :=
  (scan #[] .between text).map Array.toList

/-- A number ends where the next token starts, also without a blank. -/
example : tokens? "[-0.5e+1,null]".toList =
    some [.openArray, .number "-0.5e+1".toList, .comma, .null, .closeArray] := by
  decide +kernel

/-- Half a character is a piece like any other, but it stands for nothing. -/
example : tokens? "\"\\ud83d\"".toList = some [.string [.unit 0xd83d]] ∧
    Text.decode? [.unit 0xd83d] = none ∧
    Text.decode? [.unit 0xd83d, .unit 0xde00] = some "😀" := by
  decide +kernel

end StateTrace.Json
