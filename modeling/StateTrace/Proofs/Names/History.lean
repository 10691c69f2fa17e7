import StateTrace.Names.Document

/-!
# Names over a history

A registry comes from a document and from names that are given later.  Both are a *history*, a list
of names in the order in which they were given.  Each name is given to a *subject*, which is the
place of one table.

The only fact about the tables is that giving a name changes what is found for its own subject and
for no other (`find?_give`).  So after a history the last name of each subject is found
(`find?_giveAll`), and a document is a history as good as any other (`find?_toRegistry`).
`names_after_history` says what the three lookups make of it.
-/

namespace StateTrace

/-! ## Histories -/

/-- What a name is given to. -/
inductive Subject where
  | context (context : UInt16)
  /-- A state in one context. -/
  | state (context state : UInt16)
  /-- A state in all contexts. -/
  | commonState (state : UInt16)
  /-- An entity in one context. -/
  | entity (context entity : UInt16)
  /-- An entity in all contexts. -/
  | commonEntity (entity : UInt16)
deriving DecidableEq, Repr, Inhabited

/-- A name that is given. -/
structure Naming where
  subject : Subject
  name : String
deriving DecidableEq, Repr, Inhabited

/-- The last name that a history gives to a subject. -/
def lastName? (history : List Naming) (subject : Subject) : Option String :=
  (history.filter fun naming => naming.subject = subject).getLast?.map Naming.name

section LastName
variable {subject : Subject}

theorem lastName?_append (history more : List Naming) :
    lastName? (history ++ more) subject =
      (lastName? more subject).or (lastName? history subject) := by
  rw [lastName?, List.filter_append, List.getLast?_append, Option.map_or]
  rfl

theorem lastName?_cons (naming : Naming) (history : List Naming) :
    lastName? (naming :: history) subject =
      (lastName? history subject).or
        (if naming.subject = subject then some naming.name else none) := by
  rw [← List.singleton_append, lastName?_append]
  by_cases h : naming.subject = subject <;> simp [lastName?, h]

/-- A name of another subject makes no difference, wherever it stands. -/
theorem lastName?_without {before after : List Naming} {naming : Naming}
    (h : naming.subject ≠ subject) :
    lastName? (before ++ naming :: after) subject = lastName? (before ++ after) subject := by
  simp [lastName?, h]

end LastName

namespace NameRegistry

/-! ## Tables -/

/-- The name in the table of a subject. -/
def find? (names : NameRegistry) : Subject → Option String
  | .context context => names.contexts[context]?
  | .state context state => names.states.get? context state
  | .commonState state => names.commonStates[state]?
  | .entity context entity => names.entities.get? context entity
  | .commonEntity entity => names.commonEntities[entity]?

/-- Give a name to its subject. -/
def give (names : NameRegistry) (naming : Naming) : NameRegistry :=
  match naming.subject with
  | .context context => names.nameContext context naming.name
  | .state context state => names.nameState context state naming.name
  | .commonState state => names.nameCommonState state naming.name
  | .entity context entity => names.nameEntity context entity naming.name
  | .commonEntity entity => names.nameCommonEntity entity naming.name

/-- Give all names of a history, one after the other. -/
def giveAll (names : NameRegistry) (history : List Naming) : NameRegistry :=
  history.foldl give names

theorem giveAll_append (names : NameRegistry) (history more : List Naming) :
    names.giveAll (history ++ more) = (names.giveAll history).giveAll more :=
  List.foldl_append

theorem getElem?_insert (table : NameTable) (id id' : UInt16) (name : String) :
    (table.insert id name)[id']? = if id = id' then some name else table[id']? := by
  simp [Std.TreeMap.getElem?_insert]

theorem get?_insert (table : ContextNameTable) (context id context' id' : UInt16) (name : String) :
    (table.insert context id name).get? context' id' =
      if context = context' ∧ id = id' then some name else table.get? context' id' := by
  rw [ContextNameTable.get?, ContextNameTable.insert, Std.TreeMap.getElem?_insert]
  by_cases h : context = context'
  · subst h
    rw [Std.TreeMap.getD_eq_getD_getElem?]
    cases htable : table[context]? <;>
      simp [ContextNameTable.get?, htable, getElem?_insert]
  · simp [ContextNameTable.get?, h]

theorem find?_give (names : NameRegistry) (naming : Naming) (subject : Subject) :
    (names.give naming).find? subject =
      if naming.subject = subject then some naming.name else names.find? subject := by
  obtain ⟨given, name⟩ := naming
  cases given <;> cases subject <;>
    simp [give, find?, nameContext, nameState, nameCommonState, nameEntity, nameCommonEntity,
      getElem?_insert, get?_insert]

theorem find?_giveAll (names : NameRegistry) (history : List Naming) (subject : Subject) :
    (names.giveAll history).find? subject =
      (lastName? history subject).or (names.find? subject) := by
  induction history generalizing names with
  | nil => rfl
  | cons naming history ih =>
      have hgive : names.giveAll (naming :: history) = (names.give naming).giveAll history := rfl
      rw [hgive, ih, find?_give, lastName?_cons, Option.or_assoc]
      split <;> simp

end NameRegistry

namespace NamesDocument

/-- The history of a section from numbers to names. -/
def tableHistory (subject : UInt16 → Subject) (names : List (UInt16 × String)) : List Naming :=
  names.map fun (id, name) => ⟨subject id, name⟩

/-- The history of a section of entries. -/
def entryHistory (subject : UInt16 → UInt16 → Subject) (entries : List NameEntry) : List Naming :=
  entries.map fun entry => ⟨subject entry.context entry.id, entry.name⟩

/-- The histories of the sections. -/
def sections (document : NamesDocument) : List (List Naming) :=
  [tableHistory .context document.contexts, entryHistory .state document.states,
    tableHistory .commonState document.commonStates, entryHistory .entity document.entities,
    tableHistory .commonEntity document.commonEntities]

/-- The names of a document, section by section. -/
def history (document : NamesDocument) : List Naming := document.sections.flatten

/-- A table that starts empty is filled by its section. -/
theorem giveAll_tableHistory (subject : UInt16 → Subject) (registry : NameTable → NameRegistry)
    (h : ∀ table id name,
      (registry table).give ⟨subject id, name⟩ = registry (table.insert id name))
    (names : List (UInt16 × String)) :
    (registry ∅).giveAll (tableHistory subject names) = registry (toTable names) := by
  rw [NameRegistry.giveAll, tableHistory, List.foldl_map]
  exact List.foldl_hom registry fun table name => h table name.1 name.2

theorem giveAll_entryHistory (subject : UInt16 → UInt16 → Subject)
    (registry : ContextNameTable → NameRegistry)
    (h : ∀ table context id name,
      (registry table).give ⟨subject context id, name⟩ = registry (table.insert context id name))
    (entries : List NameEntry) :
    (registry ∅).giveAll (entryHistory subject entries) = registry (toContextTable entries) := by
  rw [NameRegistry.giveAll, entryHistory, List.foldl_map]
  exact List.foldl_hom registry fun table entry => h table entry.context entry.id entry.name

/-- The registry of a document comes from giving its names to an empty one. -/
theorem toRegistry_eq (document : NamesDocument) :
    document.toRegistry = NameRegistry.empty.giveAll document.history := by
  let contexts := toTable document.contexts
  let states := toContextTable document.states
  let commonStates := toTable document.commonStates
  let entities := toContextTable document.entities
  -- Each section fills its table, while those of the later sections are still empty.
  have hcontexts := giveAll_tableHistory .context (fun table => ⟨table, ∅, ∅, ∅, ∅⟩)
    (fun _ _ _ => rfl) document.contexts
  have hstates := giveAll_entryHistory .state (fun table => ⟨contexts, table, ∅, ∅, ∅⟩)
    (fun _ _ _ _ => rfl) document.states
  have hcommonStates := giveAll_tableHistory .commonState
    (fun table => ⟨contexts, states, table, ∅, ∅⟩) (fun _ _ _ => rfl) document.commonStates
  have hentities := giveAll_entryHistory .entity
    (fun table => ⟨contexts, states, commonStates, table, ∅⟩) (fun _ _ _ _ => rfl)
    document.entities
  have hcommonEntities := giveAll_tableHistory .commonEntity
    (fun table => ⟨contexts, states, commonStates, entities, table⟩) (fun _ _ _ => rfl)
    document.commonEntities
  rw [history, sections]
  simp only [List.flatten_cons, List.flatten_nil, List.append_nil, NameRegistry.giveAll_append]
  rw [NameRegistry.empty, hcontexts, hstates, hcommonStates, hentities, hcommonEntities]
  rfl

/-- What is found is the last name in the document. -/
theorem find?_toRegistry (document : NamesDocument) (subject : Subject) :
    document.toRegistry.find? subject = lastName? document.history subject := by
  have hempty : NameRegistry.empty.find? subject = none := by
    cases subject <;> simp [NameRegistry.empty, NameRegistry.find?, ContextNameTable.get?]
  rw [toRegistry_eq, NameRegistry.find?_giveAll, hempty, Option.or_none]

end NamesDocument

namespace NameRegistry

/-! ## Lookups -/

section Lookups
variable (names : NameRegistry) (context : UInt16)

theorem contextName_eq :
    names.contextName context = (names.find? (.context context)).getD (toString context.toNat) :=
  rfl

theorem stateName_eq (state : UInt16) :
    names.stateName context state =
      ((names.find? (.state context state)).or (names.find? (.commonState state))).getD
        (toString state.toNat) :=
  rfl

theorem entityName_eq (entity : UInt16) :
    names.entityName context entity =
      ((names.find? (.entity context entity)).or (names.find? (.commonEntity entity))).getD
        (toString entity.toNat) :=
  rfl

end Lookups

/-- What is found after a document and the names that were given since. -/
theorem find?_after (document : NamesDocument) (calls : List Naming) (subject : Subject) :
    (document.toRegistry.giveAll calls).find? subject =
      lastName? (document.history ++ calls) subject := by
  rw [find?_giveAll, NamesDocument.find?_toRegistry, lastName?_append]

/-- The lookups after a document and any names that were given since.  Each is answered from the
last names of its own subjects, so the order in which names of different subjects were given makes
no difference.  A name that is given to none of these subjects makes none either, wherever it stands
among the others. -/
theorem names_after_history (document : NamesDocument) (before after : List Naming) :
    (let names := document.toRegistry.giveAll (before ++ after)
      let last := lastName? (document.history ++ (before ++ after))
      (∀ c, names.contextName c = (last (.context c)).getD (toString c.toNat)) ∧
      (∀ c x, names.stateName c x =
        ((last (.state c x)).or (last (.commonState x))).getD (toString x.toNat)) ∧
      ∀ c x, names.entityName c x =
        ((last (.entity c x)).or (last (.commonEntity x))).getD (toString x.toNat)) ∧
    ∀ naming : Naming,
      let names := document.toRegistry.giveAll (before ++ naming :: after)
      let without := document.toRegistry.giveAll (before ++ after)
      (∀ c, naming.subject ≠ .context c → names.contextName c = without.contextName c) ∧
      (∀ c x, naming.subject ≠ .state c x → naming.subject ≠ .commonState x →
        names.stateName c x = without.stateName c x) ∧
      ∀ c x, naming.subject ≠ .entity c x → naming.subject ≠ .commonEntity x →
        names.entityName c x = without.entityName c x := by
  refine ⟨⟨?_, ?_, ?_⟩, fun naming => ?_⟩
  · intro c
    rw [contextName_eq, find?_after]
  · intro c x
    rw [stateName_eq, find?_after, find?_after]
  · intro c x
    rw [entityName_eq, find?_after, find?_after]
  have hkeep : ∀ subject, naming.subject ≠ subject →
      (document.toRegistry.giveAll (before ++ naming :: after)).find? subject =
        (document.toRegistry.giveAll (before ++ after)).find? subject := by
    intro subject hne
    rw [find?_after, find?_after, ← List.append_assoc, ← List.append_assoc, lastName?_without hne]
  refine ⟨?_, ?_, ?_⟩
  · intro c hne
    rw [contextName_eq, contextName_eq, hkeep _ hne]
  · intro c x hstate hcommon
    rw [stateName_eq, stateName_eq, hkeep _ hstate, hkeep _ hcommon]
  · intro c x hentity hcommon
    rw [entityName_eq, entityName_eq, hkeep _ hentity, hkeep _ hcommon]

/-- A state that is named twice in the document, and a common name that is given once more after
it.  An entity of the same numbers is named in between. -/
theorem names_after_history_across_tables :
    let document : NamesDocument :=
      ⟨[], [⟨5, 0, "RADIO_OFF"⟩, ⟨5, 0, "RADIO_ON"⟩], [(0, "CREATE")], [], []⟩
    let entity : Naming := ⟨.entity 5 0, "CC2420"⟩
    let common : Naming := ⟨.commonState 0, "BOOT"⟩
    let names := document.toRegistry.giveAll [entity, common]
    entity.subject ≠ .state 5 0 ∧ entity.subject ≠ .commonState 0 ∧
      entity.subject ≠ .state 6 0 ∧
      names.stateName 5 0 = "RADIO_ON" ∧ names.stateName 6 0 = "BOOT" := by
  intro document entity common names
  obtain ⟨⟨-, hstate, -⟩, hkeep⟩ := names_after_history document [] [common]
  obtain ⟨-, hkept, -⟩ := hkeep entity
  refine ⟨by decide, by decide, by decide, ?_, ?_⟩
  · exact ((hkept 5 0 (by decide) (by decide)).trans (hstate 5 0)).trans (by decide)
  · exact ((hkept 6 0 (by decide) (by decide)).trans (hstate 6 0)).trans (by decide)

end NameRegistry

end StateTrace
