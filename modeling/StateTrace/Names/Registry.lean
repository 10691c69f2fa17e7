import Std.Data.TreeMap

/-!
# Names for numbers

Contexts, states and entities are numbers in a trace and have names for people.
A registry holds five tables of names.  Context names are by context.  States
and entities have two tables each: names that hold in one context, and *common*
names that hold in all of them.

A lookup takes the name given in the context first, then the common one, and
without either the decimal text of the number.  So every number has a name.
Giving a second name replaces the first.  The five tables never mix.
-/

namespace StateTrace

/-- Names by number. -/
abbrev NameTable := Std.TreeMap UInt16 String

/-- Names by context and number. -/
abbrev ContextNameTable := Std.TreeMap UInt16 NameTable

namespace ContextNameTable

/-- The name of a number in a context. -/
def get? (table : ContextNameTable) (context id : UInt16) : Option String := do
  let names ← table[context]?
  names[id]?

/-- The table with a name given to a number in a context. -/
def insert (table : ContextNameTable) (context id : UInt16) (name : String) : ContextNameTable :=
  Std.TreeMap.insert table context ((table.getD context ∅).insert id name)

end ContextNameTable

/-- The names of contexts, states and entities. -/
structure NameRegistry where
  contexts : NameTable
  /-- Names of states in one context. -/
  states : ContextNameTable
  /-- Names of states in all contexts. -/
  commonStates : NameTable
  /-- Names of entities in one context. -/
  entities : ContextNameTable
  /-- Names of entities in all contexts. -/
  commonEntities : NameTable

namespace NameRegistry

def empty : NameRegistry := ⟨∅, ∅, ∅, ∅, ∅⟩

instance : Inhabited NameRegistry := ⟨empty⟩

/-! ## Giving names -/

def nameContext (names : NameRegistry) (context : UInt16) (name : String) : NameRegistry :=
  { names with contexts := names.contexts.insert context name }

def nameState (names : NameRegistry) (context state : UInt16) (name : String) : NameRegistry :=
  { names with states := names.states.insert context state name }

def nameCommonState (names : NameRegistry) (state : UInt16) (name : String) : NameRegistry :=
  { names with commonStates := names.commonStates.insert state name }

def nameEntity (names : NameRegistry) (context entity : UInt16) (name : String) : NameRegistry :=
  { names with entities := names.entities.insert context entity name }

def nameCommonEntity (names : NameRegistry) (entity : UInt16) (name : String) : NameRegistry :=
  { names with commonEntities := names.commonEntities.insert entity name }

/-! ## Looking names up -/

/-- A name that was found, or else the decimal text of the number. -/
def orDecimal (found : Option String) (id : UInt16) : String :=
  found.getD (toString id.toNat)

def contextName (names : NameRegistry) (context : UInt16) : String :=
  orDecimal names.contexts[context]? context

/-- The name of a state in a context. -/
def stateName (names : NameRegistry) (context state : UInt16) : String :=
  orDecimal ((names.states.get? context state).or names.commonStates[state]?) state

/-- The name of an entity in a context. -/
def entityName (names : NameRegistry) (context entity : UInt16) : String :=
  orDecimal ((names.entities.get? context entity).or names.commonEntities[entity]?) entity

/-- A name given in a context goes before a common one, whichever came last. -/
example :
    ((empty.nameState 1 2 "idle").nameCommonState 2 "stopped").stateName 1 2 = "idle" := by
  decide +kernel

/-- Without a name the number is shown. -/
example : empty.entityName 1 65535 = "65535" := by decide +kernel

end NameRegistry

end StateTrace
