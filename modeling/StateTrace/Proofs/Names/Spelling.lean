import Mathlib.Data.List.Induction
import StateTrace.Proofs.Json.Reading
import StateTrace.Proofs.Names.Grammar
import StateTrace.Proofs.Names.History

/-!
# Spellings of names documents

A names document is read from each of its spellings with readable keys, and from nothing else
(`NamesDocument.ofJson?_eq_some_iff`).  The reader is compared with the grammar part by part, with
one equivalence for each kind of value.

The names of a spelled document may then be given in any order of the sections, since a subject has
all its names in one of them (`NamesDocument.lastName?_sections`).  `NameRegistry.names_of_spelling`
puts this together.
-/

namespace StateTrace

open Json (Value Text Piece Written WrittenText)

namespace NamesDocument

/-! ## Numbers and names -/

section Number
variable {c : Char} {digits : List Char}

theorem exists_digitChar (h : c.isDigit = true) : ∃ d, d < 10 ∧ c = d.digitChar := by
  simp only [Char.isDigit_iff_toNat, Char.reduceToNat] at h
  have hlt : c.toNat - 48 < 10 := by omega
  refine ⟨c.toNat - 48, hlt, Char.toNat_inj.mp ?_⟩
  rw [Nat.toNat_digitChar_of_lt_ten hlt]
  omega

/-- Digits without a leading zero are those of their value, and it is not zero. -/
theorem toDigits_ofDigitChars (hdigits : ∀ c ∈ digits, c.isDigit = true) (hne : digits ≠ [])
    (hhead : digits.head? ≠ some '0') :
    0 < Nat.ofDigitChars 10 digits 0 ∧ Nat.toDigits 10 (Nat.ofDigitChars 10 digits 0) = digits := by
  induction digits using List.reverseRecOn with
  | nil => exact absurd rfl hne
  | append_singleton digits c ih =>
      obtain ⟨d, hd, rfl⟩ := exists_digitChar (hdigits c (by simp))
      rw [Nat.ofDigitChars_append, Nat.ofDigitChars_cons_digitChar_of_lt_ten hd,
        Nat.ofDigitChars_nil]
      cases digits with
      | nil =>
          have hpos : d ≠ 0 := by
            rintro rfl
            exact hhead rfl
          rw [Nat.ofDigitChars_nil, Nat.mul_zero, Nat.zero_add, Nat.toDigits_of_lt_base hd]
          exact ⟨Nat.pos_of_ne_zero hpos, rfl⟩
      | cons first digits =>
          obtain ⟨hpos, hsame⟩ := ih (fun e he => hdigits e (List.mem_append_left _ he))
            (List.cons_ne_nil first digits) hhead
          refine ⟨by omega, ?_⟩
          rw [← Nat.toDigits_append_toDigits (by omega) hpos hd, hsame, Nat.toDigits_of_lt_base hd]

theorem eq_zero_of_head? {n : Nat} (h : (Nat.toDigits 10 n).head? = some '0') : n = 0 := by
  induction n using Nat.strongRecOn with
  | ind n ih =>
      by_cases hlt : n < 10
      · rw [Nat.toDigits_of_lt_base hlt, List.head?_cons, Option.some.injEq] at h
        exact Nat.digitChar_eq_zero.mp h
      · rw [Nat.toDigits_of_base_le (by omega) (by omega),
          List.head?_append_of_ne_nil _ Nat.toDigits_ne_nil] at h
        have hquotient := ih (n / 10) (by omega) h
        omega

/-- What the reader of numbers checks. -/
theorem number?_eq_some_iff_checked {id : UInt16} :
    number? digits = some id ↔
      (digits ≠ [] ∧ (∀ c ∈ digits, c.isDigit = true) ∧ digits.length ≤ 5) ∧
        (digits.head? = some '0' → digits = ['0']) ∧
        Nat.ofDigitChars 10 digits 0 = id.toNat := by
  have hvalue : digits.foldl (fun n c => n * 10 + digitValue c) 0 =
      Nat.ofDigitChars 10 digits 0 := by
    simp only [Nat.ofDigitChars_eq_foldl, Nat.mul_comm, digitValue]
  have hform : (digits.isEmpty || !digits.all Char.isDigit || (digits.drop 5).isEmpty = false) =
      true ↔ ¬(digits ≠ [] ∧ (∀ c ∈ digits, c.isDigit = true) ∧ digits.length ≤ 5) := by
    simp only [Bool.or_eq_true, Bool.not_eq_true', List.isEmpty_iff, decide_eq_true_eq,
      Bool.eq_false_iff, ne_eq, List.all_eq_true, List.drop_eq_nil_iff]
    tauto
  rw [number?, hvalue]
  by_cases hdigits : digits ≠ [] ∧ (∀ c ∈ digits, c.isDigit = true) ∧ digits.length ≤ 5
  case neg =>
    rw [if_pos (hform.mpr hdigits)]
    exact iff_of_false (fun h => nomatch h) fun h => hdigits h.1
  rw [if_neg (fun h => hform.mp h hdigits)]
  by_cases hzero : digits.head? = some '0' ∧ digits ≠ ['0']
  case pos =>
    rw [if_pos hzero]
    exact iff_of_false (fun h => nomatch h) fun h => hzero.2 (h.2.1 hzero.1)
  rw [if_neg hzero]
  show (if Nat.ofDigitChars 10 digits 0 < 65536 then _ else none) = some id ↔ _
  constructor
  · intro h
    split at h
    next hlt =>
      cases h
      have hhead : digits.head? = some '0' → digits = ['0'] :=
        fun hhead => Decidable.of_not_not fun hne => hzero ⟨hhead, hne⟩
      exact ⟨hdigits, hhead, (UInt16.toNat_ofNat_of_lt' hlt).symm⟩
    next => cases h
  · intro h
    rw [h.2.2, if_pos id.toNat_lt, UInt16.ofNat_toNat]

/-- A number is read from its decimal digits and from no others. -/
theorem number?_eq_some_iff {id : UInt16} :
    number? digits = some id ↔ digits = (toString id.toNat).toList := by
  rw [number?_eq_some_iff_checked, Nat.toString_eq_ofList_toDigits, String.toList_ofList]
  constructor
  · rintro ⟨⟨hne, hdigits, -⟩, hzero, hvalue⟩
    by_cases hhead : digits.head? = some '0'
    · rw [hzero hhead] at hvalue ⊢
      rw [← hvalue]
      rfl
    · rw [← hvalue, (toDigits_ofDigitChars hdigits hne hhead).2]
  · rintro rfl
    have hlt := id.toNat_lt
    have hlength := (Nat.length_toDigits_le_iff (b := 10) (n := id.toNat) (k := 5)
      (by omega) (by omega)).mpr (by omega)
    refine ⟨⟨Nat.toDigits_ne_nil, fun c => Nat.isDigit_of_mem_toDigits (by omega) (by omega),
      hlength⟩, fun hhead => ?_, Nat.ofDigitChars_ten_toDigits⟩
    rw [eq_zero_of_head? hhead]
    rfl

end Number

theorem numberOf?_eq_some_iff {id : UInt16} {value : Value} :
    numberOf? value = some id ↔ SpellsNumber id value := by
  cases value <;> simp [numberOf?, SpellsNumber, number?_eq_some_iff]

theorem nameOf?_eq_some_iff {name : String} {value : Value} :
    nameOf? value = some name ↔ SpellsName name value := by
  cases value <;> simp [nameOf?, SpellsName, Text.decode?_eq_some_iff]

/-! ## Lists -/

theorem mapM_eq_some_iff {α β : Type} {read : α → Option β} {items : List α} {results : List β} :
    items.mapM read = some results ↔
      List.Forall₂ (fun result item => read item = some result) results items := by
  induction items generalizing results with
  | nil => cases results <;> simp
  | cons item items ih =>
      rw [List.mapM_cons]
      cases results with
      | nil => cases read item <;> cases items.mapM read <;> simp
      | cons result results =>
          rw [List.forall₂_cons, ← ih]
          cases read item <;> cases items.mapM read <;> simp

/-- A text without a backslash is the characters that it stands for. -/
theorem literal?_eq_some_iff {text : Text} {digits : List Char} :
    text.literal? = some digits ↔ text = digits.map .plain := by
  have hplain : ∀ {piece : Piece} {c : Char}, Text.plain? piece = some c ↔ piece = .plain c := by
    intro piece c
    cases piece <;> simp [Text.plain?]
  rw [Text.literal?, mapM_eq_some_iff]
  simp only [hplain]
  constructor
  · intro h
    induction h with
    | nil => rfl
    | cons hpiece _ ih => rw [hpiece, ih, List.map_cons]
  · rintro rfl
    rw [List.forall₂_map_right_iff]
    exact List.forall₂_same.mpr fun _ _ => rfl

/-! ## Members -/

section Members
variable {α : Type} {members : List (Text × Value)} {decoded : List (String × Value)} {key : String}

theorem decodeKeys?_eq_some_iff :
    decodeKeys? members = some decoded ↔
      List.Forall₂ (fun named member => member.1.StandsFor named.1.toList ∧ member.2 = named.2)
        decoded members := by
  have hmember : ∀ (named : String × Value) (member : Text × Value),
      member.1.decode?.map (·, member.2) = some named ↔
        member.1.StandsFor named.1.toList ∧ member.2 = named.2 := by
    intro named member
    simp [Option.map_eq_some_iff, ← Text.decode?_eq_some_iff, Prod.ext_iff]
  rw [decodeKeys?, mapM_eq_some_iff]
  simp only [hmember]

/-- The keys are decoded if all of them stand for something. -/
theorem exists_decodeKeys?_iff :
    (∃ decoded, decodeKeys? members = some decoded) ↔
      ∀ member ∈ members, KeyStyle.readable.member member.1 := by
  simp only [decodeKeys?_eq_some_iff]
  constructor
  · rintro ⟨decoded, h⟩
    induction h with
    | nil => exact fun member hmember => nomatch hmember
    | cons hnamed _ ih => exact List.forall_mem_cons.mpr ⟨⟨_, hnamed.1⟩, ih⟩
  · intro h
    induction members with
    | nil => exact ⟨[], .nil⟩
    | cons member members ih =>
        obtain ⟨⟨name, hname⟩, hmembers⟩ := List.forall_mem_cons.mp h
        obtain ⟨decoded, hdecoded⟩ := ih hmembers
        refine ⟨(String.ofList name, member.2) :: decoded, .cons ⟨?_, rfl⟩ hdecoded⟩
        rwa [String.toList_ofList]

theorem under_eq_filter (h : decodeKeys? members = some decoded) :
    under decoded key =
      (members.filter fun member => member.1.StandsFor key.toList).map Prod.snd := by
  replace h := decodeKeys?_eq_some_iff.mp h
  induction h with
  | nil => rfl
  | @cons named member decoded members hnamed _ ih =>
      obtain ⟨hstands, hvalue⟩ := hnamed
      rw [under] at ih ⊢
      by_cases hkey : named.1 = key
      · subst hkey
        simp [hstands, hvalue, ih]
      · have hother : ¬member.1.StandsFor key.toList :=
          fun hsame => hkey (String.toList_inj.mp (hstands.unique hsame))
        simp [hkey, hother, ih]

/-- What is found under a key is what stands there. -/
theorem under_eq_iff (h : decodeKeys? members = some decoded) {given : Option Value} :
    under decoded key = given.toList ↔ Stands key members given := by
  rw [under_eq_filter h]
  constructor
  · intro hfound
    cases given with
    | none =>
        rw [Option.toList_none, List.map_eq_nil_iff, List.filter_eq_nil_iff] at hfound
        exact .nowhere fun member hmember => by simpa using hfound member hmember
    | some value =>
        obtain ⟨⟨text, _⟩, rest, hfilter, rfl, hrest⟩ := List.map_eq_cons_iff.mp hfound
        rw [List.map_eq_nil_iff.mp hrest] at hfilter
        obtain ⟨before, after, rfl, hbefore, hkey, hafter⟩ := List.filter_eq_cons_iff.mp hfilter
        rw [List.filter_eq_nil_iff] at hafter
        simp only [decide_eq_true_eq] at hbefore hkey hafter
        exact .once hbefore hkey hafter
  · intro hstands
    cases hstands with
    | nowhere hnone => simpa using hnone
    | once hbefore hkey hafter =>
        rw [List.filter_append, List.filter_cons_of_pos (by simpa using hkey),
          List.filter_eq_nil_iff.mpr (by simpa using hbefore),
          List.filter_eq_nil_iff.mpr (by simpa using hafter)]
        rfl

theorem required?_eq_some_iff {read : Value → Option α} (h : decodeKeys? members = some decoded)
    {a : α} : required? read decoded key = some a ↔
      ∃ value, Stands key members (some value) ∧ read value = some a := by
  simp only [← under_eq_iff h, Option.toList_some, required?]
  constructor
  · intro hread
    split at hread
    next value hunder => exact ⟨value, hunder, hread⟩
    next => cases hread
  · rintro ⟨value, hunder, hread⟩
    rw [hunder]
    exact hread

section Sections
variable {read : Value → Option (List α)} {spells : List α → Value → Prop}
  (hread : ∀ {names value}, read value = some names ↔ spells names value) {names : List α}
include hread

theorem optional?_eq_some_iff (h : decodeKeys? members = some decoded) :
    optional? read decoded key = some names ↔
      ∃ given, Stands key members given ∧ Given spells names given := by
  simp only [← under_eq_iff h, optional?]
  constructor
  · intro hsection
    split at hsection
    next hunder =>
      cases hsection
      exact ⟨none, hunder, rfl⟩
    next value hunder => exact ⟨some value, hunder, hread.mp hsection⟩
    next => cases hsection
  · rintro ⟨given, hunder, hgiven⟩
    cases given with
    | none =>
        rw [hunder]
        exact congrArg some (Eq.symm hgiven)
    | some value =>
        rw [hunder]
        exact hread.mpr hgiven

theorem item?_eq_some_iff {items : List Value} {index : Nat} :
    item? read items index = some names ↔
      ∃ given, items[index]? = given ∧ Given spells names given := by
  rw [item?]
  cases items[index]? with
  | none => simp [Given, eq_comm]
  | some value => simp [Given, hread]

end Sections

end Members

/-! ## Sections -/

theorem keyOf?_eq_some_iff {key : Text} {id : UInt16} :
    keyOf? key = some id ↔
      KeyStyle.readable.number key ∧ key.StandsFor (toString id.toNat).toList := by
  rw [keyOf?, Option.bind_eq_bind, Option.bind_eq_some_iff]
  simp only [literal?_eq_some_iff, number?_eq_some_iff]
  constructor
  · rintro ⟨digits, rfl, rfl⟩
    exact ⟨⟨_, rfl⟩, Text.standsFor_plain _⟩
  · rintro ⟨⟨digits, rfl⟩, hstands⟩
    exact ⟨digits, rfl, (Text.standsFor_plain digits).unique hstands⟩

theorem table?_eq_some_iff {names : List (UInt16 × String)} {value : Value} :
    table? value = some names ↔ SpellsTable .readable names value := by
  constructor
  · intro h
    cases value with
    | object members =>
        refine .object ((mapM_eq_some_iff.mp h).imp fun naming member hmember => ?_)
        obtain ⟨id, hid, hrest⟩ := Option.bind_eq_some_iff.mp hmember
        obtain ⟨name, hname, hnaming⟩ := Option.bind_eq_some_iff.mp hrest
        cases hnaming
        obtain ⟨hnumber, hstands⟩ := keyOf?_eq_some_iff.mp hid
        exact ⟨hnumber, hstands, nameOf?_eq_some_iff.mp hname⟩
    | _ => cases h
  · rintro ⟨h⟩
    refine mapM_eq_some_iff.mpr (h.imp fun naming member hmember => ?_)
    have hid := keyOf?_eq_some_iff.mpr ⟨hmember.number, hmember.standsFor⟩
    have hname := nameOf?_eq_some_iff.mpr hmember.name
    simp [hid, hname]

theorem entryOf?_eq_some_iff {idKey : String} {entry : NameEntry} {value : Value} :
    entryOf? idKey value = some entry ↔ SpellsEntry .readable idKey entry value := by
  constructor
  · intro h
    unfold entryOf? at h
    split at h
    next members =>
      obtain ⟨decoded, hdecoded, h⟩ := Option.bind_eq_some_iff.mp h
      obtain ⟨context, hcontext, h⟩ := Option.bind_eq_some_iff.mp h
      obtain ⟨id, hid, h⟩ := Option.bind_eq_some_iff.mp h
      obtain ⟨name, hname, h⟩ := Option.bind_eq_some_iff.mp h
      cases h
      obtain ⟨contextValue, hcontextAt, hcontext⟩ := (required?_eq_some_iff hdecoded).mp hcontext
      obtain ⟨idValue, hidAt, hid⟩ := (required?_eq_some_iff hdecoded).mp hid
      obtain ⟨nameValue, hnameAt, hname⟩ := (required?_eq_some_iff hdecoded).mp hname
      exact .object (exists_decodeKeys?_iff.mp ⟨decoded, hdecoded⟩) hcontextAt hidAt hnameAt
        ⟨numberOf?_eq_some_iff.mp hcontext, numberOf?_eq_some_iff.mp hid,
          nameOf?_eq_some_iff.mp hname⟩
    next contextValue idValue nameValue =>
      obtain ⟨context, hcontext, h⟩ := Option.bind_eq_some_iff.mp h
      obtain ⟨id, hid, h⟩ := Option.bind_eq_some_iff.mp h
      obtain ⟨name, hname, h⟩ := Option.bind_eq_some_iff.mp h
      cases h
      exact .array ⟨numberOf?_eq_some_iff.mp hcontext, numberOf?_eq_some_iff.mp hid,
        nameOf?_eq_some_iff.mp hname⟩
    next => cases h
  · intro h
    cases h with
    | object hkeys hcontextAt hidAt hnameAt hfields =>
        obtain ⟨decoded, hdecoded⟩ := exists_decodeKeys?_iff.mpr hkeys
        have hcontext := (required?_eq_some_iff hdecoded).mpr
          ⟨_, hcontextAt, numberOf?_eq_some_iff.mpr hfields.context⟩
        have hid := (required?_eq_some_iff hdecoded).mpr
          ⟨_, hidAt, numberOf?_eq_some_iff.mpr hfields.id⟩
        have hname := (required?_eq_some_iff hdecoded).mpr
          ⟨_, hnameAt, nameOf?_eq_some_iff.mpr hfields.name⟩
        simp [entryOf?, hdecoded, hcontext, hid, hname]
    | array hfields =>
        have hcontext := numberOf?_eq_some_iff.mpr hfields.context
        have hid := numberOf?_eq_some_iff.mpr hfields.id
        have hname := nameOf?_eq_some_iff.mpr hfields.name
        simp [entryOf?, hcontext, hid, hname]

theorem entries?_eq_some_iff {idKey : String} {entries : List NameEntry} {value : Value} :
    entries? idKey value = some entries ↔ SpellsEntries .readable idKey entries value := by
  constructor
  · intro h
    cases value with
    | array items =>
        exact .array ((mapM_eq_some_iff.mp h).imp fun _ _ => entryOf?_eq_some_iff.mp)
    | _ => cases h
  · rintro ⟨h⟩
    exact mapM_eq_some_iff.mpr (h.imp fun _ _ => entryOf?_eq_some_iff.mpr)

/-! ## Documents -/

theorem ofSections?_eq_some_iff {table : Nat → String → Option (List (UInt16 × String))}
    {entries : Nat → String → String → Option (List NameEntry)} 
    {place : Nat → String → Option Value → Prop} {document : NamesDocument}
    (htable : ∀ index key names, table index key = some names ↔
      ∃ given, place index key given ∧ Given (SpellsTable .readable) names given)
    (hentries : ∀ index key idKey names, entries index key idKey = some names ↔
      ∃ given, place index key given ∧ Given (SpellsEntries .readable idKey) names given) :
    ofSections? table entries = some document ↔ SpellsSections .readable place document := by
  constructor
  · intro h
    obtain ⟨contexts, hcontexts, h⟩ := Option.bind_eq_some_iff.mp h
    obtain ⟨states, hstates, h⟩ := Option.bind_eq_some_iff.mp h
    obtain ⟨commonStates, hcommonStates, h⟩ := Option.bind_eq_some_iff.mp h
    obtain ⟨entities, hentities', h⟩ := Option.bind_eq_some_iff.mp h
    obtain ⟨commonEntities, hcommonEntities, h⟩ := Option.bind_eq_some_iff.mp h
    cases h
    exact ⟨(htable _ _ _).mp hcontexts, (hentries _ _ _ _).mp hstates,
      (htable _ _ _).mp hcommonStates, (hentries _ _ _ _).mp hentities',
      (htable _ _ _).mp hcommonEntities⟩
  · intro h
    have hcontexts := (htable _ _ _).mpr h.contexts
    have hstates := (hentries _ _ _ _).mpr h.states
    have hcommonStates := (htable _ _ _).mpr h.commonStates
    have hentities := (hentries _ _ _ _).mpr h.entities
    have hcommonEntities := (htable _ _ _).mpr h.commonEntities
    simp [ofSections?, hcontexts, hstates, hcommonStates, hentities, hcommonEntities]

theorem ofValue?_eq_some_iff {document : NamesDocument} {value : Value} :
    ofValue? value = some document ↔ Spells .readable document value := by
  have hmembers : ∀ {members decoded}, decodeKeys? members = some decoded →
      (ofSections? (fun _ key => optional? table? decoded key)
          (fun _ key idKey => optional? (entries? idKey) decoded key) = some document ↔
        SpellsSections .readable (fun _ key => Stands key members) document) :=
    fun hdecoded => ofSections?_eq_some_iff
      (fun _ _ _ => optional?_eq_some_iff table?_eq_some_iff hdecoded)
      (fun _ _ _ _ => optional?_eq_some_iff entries?_eq_some_iff hdecoded)
  have hitems : ∀ {items},
      ofSections? (fun index _ => item? table? items index)
          (fun index _ idKey => item? (entries? idKey) items index) = some document ↔
        SpellsSections .readable (fun index _ given => items[index]? = given) document :=
    ofSections?_eq_some_iff (fun _ _ _ => item?_eq_some_iff table?_eq_some_iff)
      (fun _ _ _ _ => item?_eq_some_iff entries?_eq_some_iff)
  constructor
  · intro h
    cases value with
    | object members =>
        obtain ⟨decoded, hdecoded, h⟩ := Option.bind_eq_some_iff.mp h
        exact .object (exists_decodeKeys?_iff.mp ⟨decoded, hdecoded⟩) ((hmembers hdecoded).mp h)
    | array items =>
        rw [ofValue?] at h
        split at h
        next hlength => exact .array hlength (hitems.mp h)
        next => cases h
    | _ => cases h
  · intro h
    cases h with
    | object hkeys hsections =>
        obtain ⟨decoded, hdecoded⟩ := exists_decodeKeys?_iff.mpr hkeys
        rw [ofValue?, hdecoded]
        exact (hmembers hdecoded).mpr hsections
    | array hlength hsections =>
        rw [ofValue?, if_pos hlength]
        exact hitems.mpr hsections

/-- A JSON text is read as the documents that its value spells with keys that are read. -/
theorem ofJson?_eq_some_iff {document : NamesDocument} {value : Value} {text : String}
    (h : Written (.element value) text.toList) :
    ofJson? text = some document ↔ Spells .readable document value := by
  rw [ofJson?, h.ofText?]
  exact ofValue?_eq_some_iff

/-! ## Sections in any order -/

/-- Lists of which all but one are empty make one list in any order. -/
theorem flatten_eq_of_perm {α : Type} {lists lists' : List (List α)} (h : lists.Perm lists')
    (hone : lists.Pairwise fun list list' => list = [] ∨ list' = []) :
    lists.flatten = lists'.flatten := by
  induction h with
  | nil => rfl
  | cons list _ ih => rw [List.flatten_cons, List.flatten_cons, ih (List.pairwise_cons.mp hone).2]
  | swap first second lists =>
      rcases (List.pairwise_cons.mp hone).1 first List.mem_cons_self with rfl | rfl <;> simp
  | trans h _ ih ih' => exact (ih hone).trans (ih' ((h.pairwise_iff Or.symm).mp hone))

theorem filter_tableHistory {kind : UInt16 → Subject} {subject : Subject}
    (h : ∀ id, kind id ≠ subject) (names : List (UInt16 × String)) :
    (tableHistory kind names).filter (fun naming => naming.subject = subject) = [] := by
  induction names with
  | nil => rfl
  | cons name names ih =>
      rw [tableHistory, List.map_cons, List.filter_cons_of_neg (by simp [h])]
      exact ih

theorem filter_entryHistory {kind : UInt16 → UInt16 → Subject} {subject : Subject}
    (h : ∀ context id, kind context id ≠ subject) (entries : List NameEntry) :
    (entryHistory kind entries).filter (fun naming => naming.subject = subject) = [] := by
  induction entries with
  | nil => rfl
  | cons entry entries ih =>
      rw [entryHistory, List.map_cons, List.filter_cons_of_neg (by simp [h])]
      exact ih

/-- A subject has all its names in one section. -/
theorem pairwise_sections (document : NamesDocument) (subject : Subject) :
    (document.sections.map fun history =>
        history.filter fun naming => naming.subject = subject).Pairwise
      fun history history' => history = [] ∨ history' = [] := by
  cases subject <;> simp [sections, filter_tableHistory, filter_entryHistory]

/-- The order of the sections makes no difference to what is found. -/
theorem lastName?_sections {document : NamesDocument} {order : List (List Naming)}
    (h : order.Perm document.sections) (subject : Subject) :
    lastName? order.flatten subject = lastName? document.history subject := by
  have hone := ((h.map _).pairwise_iff Or.symm).mpr (document.pairwise_sections subject)
  rw [lastName?, lastName?, history, List.filter_flatten, List.filter_flatten,
    flatten_eq_of_perm (h.map _) hone]

end NamesDocument

namespace NameRegistry

open NamesDocument (Spells)

/-- Every text that spells a document is read, and the lookups are those after its names were given
one by one, section by section. -/
theorem names_of_spelling {document : NamesDocument} {value : Value} {text : String}
    (hspells : Spells .readable document value)
    (hwritten : Written (.element value) text.toList) :
    ∃ names, ofJson? text = some names ∧
      ∀ order : List (List Naming), order.Perm document.sections →
        let given := empty.giveAll order.flatten
        (∀ c, names.contextName c = given.contextName c) ∧
        (∀ c x, names.stateName c x = given.stateName c x) ∧
        ∀ c x, names.entityName c x = given.entityName c x := by
  have hdocument := (NamesDocument.ofJson?_eq_some_iff hwritten).mpr hspells
  refine ⟨document.toRegistry, congrArg (Option.map _) hdocument, ?_⟩
  intro order horder given
  have hfind : ∀ subject, document.toRegistry.find? subject = given.find? subject := by
    intro subject
    rw [NamesDocument.toRegistry_eq, find?_giveAll, find?_giveAll,
      NamesDocument.lastName?_sections horder]
  refine ⟨?_, ?_, ?_⟩
  · intro c
    rw [contextName_eq, contextName_eq, hfind]
  · intro c x
    rw [stateName_eq, stateName_eq, hfind, hfind]
  · intro c x
    rw [entityName_eq, entityName_eq, hfind, hfind]

/-- A document that is an array.  It names a context twice.  The members of its only entry are not
in order, one of them has no meaning, and the name has an escape in it. -/
theorem names_of_spelling_array :
    let text := "[\x7b\"5\":\"A\",\"5\":\"B\"\x7d," ++
      "[\x7b\"name\":\"\\u0053\",\"state\":0,\"z\":null,\"context\":5\x7d]]"
    ∃ names, ofJson? text = some names ∧ names.contextName 5 = "B" ∧ names.stateName 5 0 = "S" := by
  intro text
  let plain : String → Text := fun s => s.toList.map .plain
  let value : Value := .array [
    .object [(plain "5", .string (plain "A")), (plain "5", .string (plain "B"))],
    .array [.object [(plain "name", .string [.unit 0x53]), (plain "state", .number ['0']),
      (plain "z", .null), (plain "context", .number ['5'])]]]
  let document : NamesDocument := ⟨[(5, "A"), (5, "B")], [⟨5, 0, "S"⟩], [], [], []⟩
  have hspells : Spells .readable document value :=
    NamesDocument.ofValue?_eq_some_iff.mp (by decide +kernel)
  have hwritten : Written (.element value) text.toList := by
    have hplain : ∀ s : String, s.toList.all Json.isPlain = true →
        WrittenText (plain s) s.toList := fun s h => .plain h
    have hfirst := Written.tightMember (hplain "5" rfl) (.string (hplain "A" rfl))
    have hsecond := Written.tightMember (hplain "5" rfl) (.string (hplain "B" rfl))
    have htable := Written.object (.members hfirst (.lastMember hsecond))
    have hunit : WrittenText [.unit 0x53] ['\\', 'u', '0', '0', '5', '3'] :=
      .cons (.unit (i := 0) (j := 0) (k := 5) (l := 3) rfl rfl rfl rfl) .nil
    have hname := Written.tightMember (hplain "name" rfl) (.string hunit)
    have hzero : Json.Numeral ['0'] := .mk (.inl rfl) .zero .none .none
    have hstate := Written.tightMember (hplain "state" rfl) (.number hzero)
    have hother := Written.tightMember (hplain "z" rfl) .null
    have hfive : Json.Integral ['5'] :=
      .digits (by decide) (by decide) fun _ h => nomatch h
    have hcontext := Written.tightMember (hplain "context" rfl)
      (.number (.mk (.inl rfl) hfive .none .none))
    have hentry :=
      Written.object (.members hname (.members hstate (.members hother (.lastMember hcontext))))
    have hentries := Written.array (.lastElement hentry.tight)
    have hwhole := (Written.array (.elements htable.tight (.lastElement hentries.tight))).tight
    refine (congrArg (Written (.element value)) ?_).mp hwhole
    decide +kernel
  obtain ⟨names, hnames, hgiven⟩ := names_of_spelling hspells hwritten
  obtain ⟨hcontext, hstate, -⟩ := hgiven document.sections.reverse (List.reverse_perm _)
  exact ⟨names, hnames, (hcontext 5).trans (by decide +kernel),
    (hstate 5 0).trans (by decide +kernel)⟩

/-- With all keys that JSON has, some spellings are refused.  The first document has the number of
a context behind a backslash.  The second has no names, and its only member is to be passed over,
but half a character stands for nothing. -/
theorem spelling_refused :
    (let text := "\x7b\"contexts\":\x7b\"\\u0035\":\"RADIO\"\x7d\x7d"
      let key : Text := [.unit 0x35]
      let value : Value := .object [("contexts".toList.map .plain,
        .object [(key, .string ("RADIO".toList.map .plain))])]
      key.StandsFor "5".toList ∧ Written (.element value) text.toList ∧
        Spells .any ⟨[(5, "RADIO")], [], [], [], []⟩ value ∧ ofJson? text = none) ∧
    (let text := "\x7b\"\\ud800\":1\x7d"
      let value : Value := .object [([.unit 0xd800], .number ['1'])]
      Written (.element value) text.toList ∧ Spells .any ⟨[], [], [], [], []⟩ value ∧
        ofJson? text = none) := by
  have hnowhere : ∀ {key members}, (∀ member ∈ members, ¬member.1.StandsFor key.toList) →
      ∀ {α : Type} {spells : List α → Value → Prop},
        ∃ given, NamesDocument.Stands key members given ∧ NamesDocument.Given spells [] given :=
    fun h _ _ => ⟨none, .nowhere h, rfl⟩
  constructor
  · intro text key value
    let radio : Text := "RADIO".toList.map .plain
    have hradio : radio.StandsFor "RADIO".toList := by decide
    have hnone : NamesDocument.ofJson? text = none := by decide +kernel
    refine ⟨by decide, ?_, ?_, congrArg (Option.map _) hnone⟩
    · have hkey : WrittenText key ['\\', 'u', '0', '0', '3', '5'] :=
        .cons (.unit (i := 0) (j := 0) (k := 3) (l := 5) rfl rfl rfl rfl) .nil
      have hplain : ∀ s : String, s.toList.all Json.isPlain = true →
          WrittenText (s.toList.map .plain) s.toList := fun s h => .plain h
      have hname := Written.tightMember hkey (.string (hplain "RADIO" rfl))
      have htable := Written.tightMember (hplain "contexts" rfl) (.object (.lastMember hname))
      have hwhole := (Written.object (.lastMember htable)).tight
      refine (congrArg (Written (.element value)) ?_).mp hwhole
      decide +kernel
    · have htable :
          NamesDocument.SpellsTable .any [(5, "RADIO")] (.object [(key, .string radio)]) :=
        .object (.cons ⟨trivial, by decide, radio, rfl, hradio⟩ .nil)
      refine .object (fun _ _ => trivial) ⟨⟨some _, ?_, htable⟩, ?_, ?_, ?_, ?_⟩
      · show NamesDocument.Stands "contexts" ([] ++ (_, _) :: []) _
        exact .once (fun _ h => nomatch h) (by decide) (fun _ h => nomatch h)
      all_goals exact hnowhere (by decide)
  · intro text value
    have hnone : NamesDocument.ofJson? text = none := by decide +kernel
    refine ⟨?_, ?_, congrArg (Option.map _) hnone⟩
    · have hkey : WrittenText [.unit 0xd800] ['\\', 'u', 'd', '8', '0', '0'] :=
        .cons (.unit (i := 13) (j := 8) (k := 0) (l := 0) rfl rfl rfl rfl) .nil
      have hone : Json.Integral ['1'] :=
        .digits (by decide) (by decide) fun _ h => nomatch h
      have hmember := Written.tightMember hkey (.number (.mk (.inl rfl) hone .none .none))
      have hwhole := (Written.object (.lastMember hmember)).tight
      refine (congrArg (Written (.element value)) ?_).mp hwhole
      decide +kernel
    · refine .object (fun _ _ => trivial) ⟨?_, ?_, ?_, ?_, ?_⟩
      all_goals exact hnowhere (by decide)

end NameRegistry

end StateTrace
