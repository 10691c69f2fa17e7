import StateTrace.Json.Token

/-!
# JSON values

The value that a sequence of tokens writes.  Values keep numbers and strings as
they were written, and objects keep their members in order, repeated keys
included.

`Value.ofTokens?` is a machine with a stack.  The stack holds the arrays and
objects that are open, innermost first, so a text may nest to any depth.
`Parse.step` is one move of the machine.
-/

namespace StateTrace.Json

/-- A JSON value, with numbers and strings as written. -/
inductive Value where
  | null
  | bool (value : Bool)
  /-- A number, by its characters. -/
  | number (digits : List Char)
  /-- A string, by its pieces. -/
  | string (text : Text)
  | array (items : List Value)
  /-- An object, by its members in order. -/
  | object (members : List (Text × Value))

instance : Inhabited Value := ⟨.null⟩

/-- An array or object that is open. -/
inductive Frame where
  /-- An array, by the items before the one being read, latest first. -/
  | array (items : List Value)
  /-- An object, by the members before the one being read, latest first, and the
  key of that one. -/
  | object (members : List (Text × Value)) (key : Text)

/-- What the next token has to be. -/
inductive Need where
  /-- The start of a value. -/
  | value
  /-- The first item of an array, or its end. -/
  | itemOrEnd
  /-- The first key of an object, or its end. -/
  | keyOrEnd
  /-- A key, after these members, latest first. -/
  | key (members : List (Text × Value))
  | colon (members : List (Text × Value)) (key : Text)
  /-- A comma or an end, after this value. -/
  | separator (value : Value)

/-- How far a value has been read: the open frames, innermost first, and what
comes next. -/
structure Parse where
  frames : List Frame
  need : Need

namespace Parse

/-- Nothing was read yet. -/
def start : Parse := ⟨[], .value⟩

/-- The move where a value starts. -/
def stepValue (frames : List Frame) : Token → Option Parse
  | .null => some ⟨frames, .separator .null⟩
  | .bool value => some ⟨frames, .separator (.bool value)⟩
  | .number digits => some ⟨frames, .separator (.number digits)⟩
  | .string text => some ⟨frames, .separator (.string text)⟩
  | .openArray => some ⟨.array [] :: frames, .itemOrEnd⟩
  | .openObject => some ⟨frames, .keyOrEnd⟩
  | _ => none

/-- The move after a value. -/
def stepSeparator (value : Value) : List Frame → Token → Option Parse
  | .array items :: frames, .comma => some ⟨.array (value :: items) :: frames, .value⟩
  | .array items :: frames, .closeArray =>
      some ⟨frames, .separator (.array (value :: items).reverse)⟩
  | .object members key :: frames, .comma => some ⟨frames, .key ((key, value) :: members)⟩
  | .object members key :: frames, .closeObject =>
      some ⟨frames, .separator (.object ((key, value) :: members).reverse)⟩
  | _, _ => none

/-- One move of the machine. -/
def step (parse : Parse) (token : Token) : Option Parse :=
  match parse.need, token with
  | .value, token => stepValue parse.frames token
  | .itemOrEnd, .closeArray => some ⟨parse.frames.tail, .separator (.array [])⟩
  | .itemOrEnd, token => stepValue parse.frames token
  | .keyOrEnd, .closeObject => some ⟨parse.frames, .separator (.object [])⟩
  | .keyOrEnd, .string key => some ⟨parse.frames, .colon [] key⟩
  | .key members, .string key => some ⟨parse.frames, .colon members key⟩
  | .colon members key, .colon => some ⟨.object members key :: parse.frames, .value⟩
  | .separator value, token => stepSeparator value parse.frames token
  | _, _ => none

/-- The value, if it is complete. -/
def result? : Parse → Option Value
  | ⟨[], .separator value⟩ => some value
  | _ => none

/-- Run the machine over the tokens that are left. -/
def run (parse : Parse) : List Token → Option Value
  | [] => parse.result?
  | token :: tokens =>
      match parse.step token with
      | some parse => run parse tokens
      | none => none

end Parse

namespace Value

/-- The value that tokens write, all of them and nothing after. -/
def ofTokens? (tokens : List Token) : Option Value :=
  Parse.start.run tokens

/-- The value that a text writes. -/
def ofText? (text : String) : Option Value := do
  ofTokens? (← tokens? text.toList)

end Value

end StateTrace.Json
