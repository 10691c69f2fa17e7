import StateTrace.Json.Value
import StateTrace.Names.Registry

/-!
# Names documents

Names are kept in JSON documents.  A document has five sections, one for each
table of a registry.  Context names, common state names and common entity names
are objects from numbers to names.  State and entity names are lists of entries
that give a context, a number and a name.

The document is an object with the sections as members, or an array of the
sections in the order of the fields of `NamesDocument`.  Sections may be left
out, in the array only at its end.  An entry is an object with three members or
an array of three.  Members of other names are passed over, wherever they stand
and whatever they hold.  A section or a field of an entry that is given twice is
an error, and so is `null` for one.

Numbers are integers from 0 to 65535 without sign, fraction or exponent.  A key
of an object from numbers to names is such a number in quotes, written without a
backslash.

`ofJson?` reads a document.  Of two names for the same number the last one holds,
which is what `toRegistry` makes of them.
-/

namespace StateTrace

open Json (Value Text)

/-- A name of a state or an entity in a context. -/
structure NameEntry where
  context : UInt16
  /-- The state or the entity. -/
  id : UInt16
  name : String
deriving DecidableEq, Repr, Inhabited

/-- The names of a document, each section in the order of the document. -/
structure NamesDocument where
  contexts : List (UInt16 × String)
  states : List NameEntry
  commonStates : List (UInt16 × String)
  entities : List NameEntry
  commonEntities : List (UInt16 × String)
deriving DecidableEq, Repr, Inhabited

namespace NamesDocument

/-! ## Numbers, names and keys -/

def digitValue (c : Char) : Nat := c.toNat - '0'.toNat

/-- The number that at most five digits write, if it has sixteen bits and no
leading zeros. -/
def number? (digits : List Char) : Option UInt16 :=
  if digits.isEmpty || !digits.all Char.isDigit || (digits.drop 5).isEmpty = false then none
  else if digits.head? = some '0' ∧ digits ≠ ['0'] then none
  else
    let value := digits.foldl (fun n c => n * 10 + digitValue c) 0
    if value < 65536 then some (UInt16.ofNat value) else none

def numberOf? : Value → Option UInt16
  | .number digits => number? digits
  | _ => none

def nameOf? : Value → Option String
  | .string text => text.decode?
  | _ => none

/-- A key that is a number. -/
def keyOf? (key : Text) : Option UInt16 := do
  number? (← key.literal?)

/-- The members of an object with their keys decoded.  All keys have to stand for
something, those of members that are passed over included. -/
def decodeKeys? (members : List (Text × Value)) : Option (List (String × Value)) :=
  members.mapM fun (key, value) => key.decode?.map (·, value)

/-! ## Members -/

/-- The values under a key. -/
def under (members : List (String × Value)) (key : String) : List Value :=
  (members.filter fun member => member.1 == key).map Prod.snd

/-- Read the member of a key that has to be there once. -/
def required? {α : Type} (read : Value → Option α) (members : List (String × Value))
    (key : String) : Option α :=
  match under members key with
  | [value] => read value
  | _ => none

/-- Read the member of a key that may be there once. -/
def optional? {α : Type} (read : Value → Option (List α)) (members : List (String × Value))
    (key : String) : Option (List α) :=
  match under members key with
  | [] => some []
  | [value] => read value
  | _ => none

/-- Read an item of an array that may end before it. -/
def item? {α : Type} (read : Value → Option (List α)) (items : List Value) (index : Nat) :
    Option (List α) :=
  match items[index]? with
  | none => some []
  | some value => read value

/-! ## Sections -/

/-- A section from numbers to names. -/
def table? : Value → Option (List (UInt16 × String))
  | .object members => members.mapM fun (key, value) => do
      let id ← keyOf? key
      return (id, ← nameOf? value)
  | _ => none

/-- An entry.  The number is the member of the key `idKey`, or the second item. -/
def entryOf? (idKey : String) : Value → Option NameEntry
  | .object members => do
      let members ← decodeKeys? members
      let context ← required? numberOf? members "context"
      let id ← required? numberOf? members idKey
      return ⟨context, id, ← required? nameOf? members "name"⟩
  | .array [context, id, name] => do
      let context ← numberOf? context
      let id ← numberOf? id
      return ⟨context, id, ← nameOf? name⟩
  | _ => none

/-- A section of entries. -/
def entries? (idKey : String) : Value → Option (List NameEntry)
  | .array items => items.mapM (entryOf? idKey)
  | _ => none

/-- The sections that a pick of their values gives. -/
def ofSections?
    (table : Nat → String → Option (List (UInt16 × String)))
    (entries : Nat → String → String → Option (List NameEntry)) : Option NamesDocument := do
  let contexts ← table 0 "contexts"
  let states ← entries 1 "states" "state"
  let commonStates ← table 2 "common_states"
  let entities ← entries 3 "entities" "entity"
  let commonEntities ← table 4 "common_entities"
  return ⟨contexts, states, commonStates, entities, commonEntities⟩

/-- The document that a value writes. -/
def ofValue? : Value → Option NamesDocument
  | .object members => do
      let members ← decodeKeys? members
      ofSections? (fun _ key => optional? table? members key)
        (fun _ key idKey => optional? (entries? idKey) members key)
  | .array items =>
      if items.length ≤ 5 then
        ofSections? (fun index _ => item? table? items index)
          (fun index _ idKey => item? (entries? idKey) items index)
      else none
  | _ => none

/-- The document that a JSON text writes. -/
def ofJson? (text : String) : Option NamesDocument := do
  ofValue? (← Value.ofText? text)

/-! ## Registries -/

/-- The table of a section.  The last name of a number holds. -/
def toTable (names : List (UInt16 × String)) : NameTable :=
  names.foldl (fun table (id, name) => table.insert id name) ∅

/-- The table of a section of entries.  The last name of a number in a context
holds. -/
def toContextTable (entries : List NameEntry) : ContextNameTable :=
  entries.foldl (fun table entry => ContextNameTable.insert table entry.context entry.id entry.name) ∅

/-- The registry of all names of a document. -/
def toRegistry (document : NamesDocument) : NameRegistry where
  contexts := toTable document.contexts
  states := toContextTable document.states
  commonStates := toTable document.commonStates
  entities := toContextTable document.entities
  commonEntities := toTable document.commonEntities

example : number? ['6', '5', '5', '3', '5'] = some 65535 ∧ number? ['6', '5', '5', '3', '6'] = none ∧
    number? ['0'] = some 0 ∧ number? ['0', '1'] = none ∧ number? [] = none := by
  decide

end NamesDocument

/-- The registry of a JSON text. -/
def NameRegistry.ofJson? (text : String) : Option NameRegistry :=
  (NamesDocument.ofJson? text).map NamesDocument.toRegistry

end StateTrace
