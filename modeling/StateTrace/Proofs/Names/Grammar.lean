import Mathlib.Data.List.Forall2
import StateTrace.Names.Document
import StateTrace.Proofs.Json.Grammar

/-!
# The grammar of names documents

`Spells style document value` says that a JSON value spells a names document, and says so apart from
any reader.  One document has many spellings.  The members of an object come in any order and may
have others between them, a section without names may be left out, and the document and each entry
may be an array in place of an object.  A name is any string that stands for it.

How the keys of objects may be written is a matter of style.  `KeyStyle.any` has every key that JSON
has.  `KeyStyle.readable` has those that are read.
-/

namespace StateTrace.NamesDocument

open Json (Value Text)

/-! ## Keys -/

/-- How the keys of objects may be written. -/
structure KeyStyle where
  /-- The keys of members, also of those that are passed over. -/
  member : Text → Prop
  /-- The keys that are numbers. -/
  number : Text → Prop

/-- Any key that JSON allows. -/
def KeyStyle.any : KeyStyle := ⟨fun _ => True, fun _ => True⟩

/-- Keys of members that stand for something, and numbers without a backslash. -/
def KeyStyle.readable : KeyStyle :=
  ⟨fun key => ∃ name, key.StandsFor name, fun key => ∃ digits : List Char, key = digits.map .plain⟩

/-! ## Numbers and names -/

/-- A number is spelled by its decimal digits. -/
def SpellsNumber (id : UInt16) (value : Value) : Prop :=
  value = .number (toString id.toNat).toList

/-- A name is spelled by any string that stands for it. -/
def SpellsName (name : String) (value : Value) : Prop :=
  ∃ text, value = .string text ∧ text.StandsFor name.toList

/-! ## Members -/

/-- Where a key stands among members: nowhere, or once with a value. -/
inductive Stands (key : String) : List (Text × Value) → Option Value → Prop where
  | nowhere {members : List (Text × Value)}
      (h : ∀ member ∈ members, ¬member.1.StandsFor key.toList) : Stands key members none
  | once {before after : List (Text × Value)} {text : Text} {value : Value}
      (hbefore : ∀ member ∈ before, ¬member.1.StandsFor key.toList)
      (hkey : text.StandsFor key.toList)
      (hafter : ∀ member ∈ after, ¬member.1.StandsFor key.toList) :
      Stands key (before ++ (text, value) :: after) (some value)

/-! ## Sections -/

/-- A name under a key that is its number. -/
structure SpellsNaming (style : KeyStyle) (naming : UInt16 × String) (member : Text × Value) :
    Prop where
  number : style.number member.1
  standsFor : member.1.StandsFor (toString naming.1.toNat).toList
  name : SpellsName naming.2 member.2

/-- A section from numbers to names. -/
inductive SpellsTable (style : KeyStyle) (names : List (UInt16 × String)) : Value → Prop where
  | object {members : List (Text × Value)}
      (h : List.Forall₂ (SpellsNaming style) names members) :
      SpellsTable style names (.object members)

/-- The values of an entry. -/
structure SpellsFields (entry : NameEntry) (context id name : Value) : Prop where
  context : SpellsNumber entry.context context
  id : SpellsNumber entry.id id
  name : SpellsName entry.name name

/-- An entry.  The key of its number is `idKey`. -/
inductive SpellsEntry (style : KeyStyle) (idKey : String) (entry : NameEntry) : Value → Prop where
  | object {members : List (Text × Value)} {context id name : Value}
      (hkeys : ∀ member ∈ members, style.member member.1)
      (hcontext : Stands "context" members (some context)) (hid : Stands idKey members (some id))
      (hname : Stands "name" members (some name)) (hfields : SpellsFields entry context id name) :
      SpellsEntry style idKey entry (.object members)
  | array {context id name : Value} (hfields : SpellsFields entry context id name) :
      SpellsEntry style idKey entry (.array [context, id, name])

/-- A section of entries. -/
inductive SpellsEntries (style : KeyStyle) (idKey : String) (entries : List NameEntry) :
    Value → Prop where
  | array {items : List Value} (h : List.Forall₂ (SpellsEntry style idKey) entries items) :
      SpellsEntries style idKey entries (.array items)

/-! ## Documents -/

/-- A section that is left out has no names. -/
def Given {α : Type} (spells : List α → Value → Prop) (names : List α) : Option Value → Prop
  | none => names = []
  | some value => spells names value

/-- All sections, by what stands in their places. -/
structure SpellsSections (style : KeyStyle) (place : Nat → String → Option Value → Prop)
    (document : NamesDocument) : Prop where
  contexts : ∃ given, place 0 "contexts" given ∧ Given (SpellsTable style) document.contexts given
  states : ∃ given, place 1 "states" given ∧
    Given (SpellsEntries style "state") document.states given
  commonStates : ∃ given, place 2 "common_states" given ∧
    Given (SpellsTable style) document.commonStates given
  entities : ∃ given, place 3 "entities" given ∧
    Given (SpellsEntries style "entity") document.entities given
  commonEntities : ∃ given, place 4 "common_entities" given ∧
    Given (SpellsTable style) document.commonEntities given

/-- A document.  The sections are members, or they are the first items. -/
inductive Spells (style : KeyStyle) (document : NamesDocument) : Value → Prop where
  | object {members : List (Text × Value)} (hkeys : ∀ member ∈ members, style.member member.1)
      (hsections : SpellsSections style (fun _ key => Stands key members) document) :
      Spells style document (.object members)
  | array {items : List Value} (hlength : items.length ≤ 5)
      (hsections : SpellsSections style (fun index _ given => items[index]? = given) document) :
      Spells style document (.array items)

end StateTrace.NamesDocument
