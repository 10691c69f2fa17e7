import StateTrace.Proofs.Wire.EventReading
import StateTrace.Proofs.Wire.ScopeReading

/-!
# Reading records

The decoder of records reads the grammar.  It gives the record that a spelling
spells (`gives_spelled`), the error of the grammar for what is refused
(`gives_refused`), and the end of the trace for no bytes at all.  Every byte list is
one of the three (`spelled_or_refused`), and since no decoder gives two answers on
the same bytes, it is only one of them.
-/

namespace StateTrace.Decoder

open Wire

/-! ## Records -/

/-- What a record has after its mask and before its payload. -/
def headFields (flags : ScopeFlags) : Decoder (Scope × UInt16 × UInt32) := do
  return (← scope flags, ← uint16, ← uint32)

theorem reads_headFields (mask : UInt32) :
    Reads (headFields ⟨mask⟩) fun fields w => ∃ parts : ScopeParts mask,
      fields.1 = parts.scope ∧
        w = parts.bytes ++ BigEndian.ofUInt16 fields.2.1 ++ BigEndian.ofUInt32 fields.2.2 := by
  refine ((reads_scope mask).bind fun placed => reads_uint16.bind fun number =>
    reads_uint32.bind fun length => reads_pure (placed, number, length)).congr fun fields w => ?_
  constructor
  · rintro ⟨parts, hscope, rfl⟩
    obtain ⟨placed, number, length⟩ := fields
    exact ⟨placed, _, _, ⟨parts, hscope, rfl⟩,
      ⟨number, _, _, rfl, ⟨length, _, [], rfl, ⟨rfl, rfl⟩, rfl⟩, rfl⟩, by simp⟩
  · rintro ⟨_, _, _, ⟨parts, rfl, rfl⟩, ⟨number, _, _, rfl, ⟨length, _, _, rfl, ⟨rfl, rfl⟩, rfl⟩,
      rfl⟩, rfl⟩
    exact ⟨parts, rfl, by simp⟩

/-- A record is its head and then its event. -/
theorem recordBody_eq (flags : ScopeFlags) :
    recordBody flags = do
      let (placed, number, length) ← headFields flags
      return ⟨placed, ← eventBody number length.toNat⟩ := by
  simp [recordBody, headFields, event]

/-- After the mask, the parts that it announces decide the scope, and the number and
the length how the event is read. -/
theorem gives_recordBody {mask : UInt32} (parts : ScopeParts mask) (number : UInt16)
    (length : UInt32) {rest after : List UInt8} {answer : Except ReadError Event}
    (h : Gives (eventBody number length.toNat) rest answer after) :
    Gives (recordBody ⟨mask⟩)
      (parts.bytes ++ BigEndian.ofUInt16 number ++ BigEndian.ofUInt32 length ++ rest)
      (answer.map (Record.mk parts.scope)) after := by
  have hfields : Gives (headFields ⟨mask⟩)
      (parts.bytes ++ BigEndian.ofUInt16 number ++ BigEndian.ofUInt32 length ++ rest)
      (.ok (parts.scope, number, length)) rest := by
    refine (reads_headFields mask).accepts ?_ rest
    exact ⟨parts, rfl, rfl⟩
  rw [recordBody_eq]
  exact hfields.bind h.map

/-- A whole head is passed, and the record goes on as its event does. -/
theorem gives_record {head : Head} {rest after : List UInt8} {answer : Except ReadError Event}
    (h : Gives (eventBody head.number head.length.toNat) rest answer after) :
    Gives record? (head.bytes ++ rest)
      ((answer.map (Record.mk head.parts.scope)).map some) after := by
  have hbytes : head.bytes ++ rest = BigEndian.ofUInt32 head.mask ++
      (head.parts.bytes ++ BigEndian.ofUInt16 head.number ++ BigEndian.ofUInt32 head.length ++
        rest) := by
    simp only [Head.bytes, List.append_assoc]
  rw [hbytes]
  exact (gives_recordStart head.mask _).bind (gives_recordBody _ _ _ h).map

/-- A trace that ends inside a head is truncated. -/
theorem gives_record_unfinished {head : Head} {bytes missing : List UInt8} (hbytes : bytes ≠ [])
    (hmissing : missing ≠ []) (h : bytes ++ missing = head.bytes) :
    Gives record? bytes (.error .truncated) [] := by
  rcases Nat.lt_or_ge bytes.length 4 with hlt | hge
  · have hout := (runsOut_of_short hlt).gives
    rw [stopped_of_ne_nil hbytes] at hout
    exact hout
  · have hsplit : bytes ++ missing = BigEndian.ofUInt32 head.mask ++
        (head.parts.bytes ++ BigEndian.ofUInt16 head.number ++ BigEndian.ofUInt32 head.length) := by
      rw [h]
      simp only [Head.bytes, List.append_assoc]
    have hmask : (bytes.take 4).length = (BigEndian.ofUInt32 head.mask).length := by
      rw [List.length_take_of_le hge, BigEndian.length_ofUInt32]
    rw [← List.take_append_drop 4 bytes, List.append_assoc] at hsplit
    obtain ⟨htake, hrest⟩ := List.append_inj hsplit hmask
    rw [← List.take_append_drop 4 bytes, htake]
    have hshort := (reads_headFields head.mask).truncates
      ⟨(head.parts.scope, head.number, head.length), missing, hmissing, head.parts, rfl, hrest⟩
    have hbody : Gives (recordBody ⟨head.mask⟩) (bytes.drop 4) (.error .truncated) [] := by
      rw [recordBody_eq]
      exact hshort.bind_error
    exact (gives_recordStart head.mask _).bind hbody.bind_error

/-- A spelling is read as the record that it spells, whatever follows it. -/
theorem gives_spelled {r : Record} {w : List UInt8} (h : Spells r w) (after : List UInt8) :
    Gives record? (w ++ after) (.ok (some r)) after := by
  cases h with
  | @record head payload event hlength hmax hpayload =>
      rw [List.append_assoc]
      rw [← hlength] at hmax
      have hevent := gives_event hpayload hmax after
      rw [hlength] at hevent
      exact gives_record hevent

/-- What is refused fails with the error of the grammar. -/
theorem gives_refused {bytes after : List UInt8} {error : ReadError}
    (h : Refuses bytes error after) : Gives record? bytes (.error error) after := by
  cases h with
  | head hbytes hmissing hsplit => exact gives_record_unfinished hbytes hmissing hsplit
  | event hevent => exact gives_record (gives_refusal hevent)

/-- The end of the bytes is the end of the trace where a record would start. -/
theorem gives_nothing : Gives record? [] (.ok none) [] :=
  (runsOut_of_short (by decide)).gives

/-- A byte list that is not empty starts with a head or is the beginning of one. -/
theorem head_or_unfinished (bytes : List UInt8) :
    (∃ (head : Head) (rest : List UInt8), bytes = head.bytes ++ rest) ∨
      ∃ (head : Head) (missing : List UInt8), missing ≠ [] ∧ bytes ++ missing = head.bytes := by
  rcases (reads_uint32.bind reads_headFields).covers bytes with
    ⟨⟨_, number, length⟩, _, rest, ⟨mask, _, _, rfl, ⟨parts, -, rfl⟩, rfl⟩, rfl⟩ |
      ⟨⟨_, number, length⟩, missing, hmissing, mask, _, _, rfl, ⟨parts, -, rfl⟩, hbytes⟩
  · refine .inl ⟨⟨mask, parts, number, length⟩, rest, ?_⟩
    simp only [Head.bytes, List.append_assoc]
  · refine .inr ⟨⟨mask, parts, number, length⟩, missing, hmissing, hbytes.trans ?_⟩
    simp only [Head.bytes, List.append_assoc]

/-- A byte list is empty, starts with the spelling of a record or is refused. -/
theorem spelled_or_refused (bytes : List UInt8) :
    bytes = [] ∨ (∃ r w after, Spells r w ∧ bytes = w ++ after) ∨
      ∃ error after, Refuses bytes error after := by
  by_cases hbytes : bytes = []
  · exact .inl hbytes
  rcases head_or_unfinished bytes with ⟨head, rest, rfl⟩ | ⟨head, missing, hmissing, hsplit⟩
  · rcases event_or_refused head.number head.length.toNat rest with
      ⟨event, payload, after, hpayload, hlength, hmax, rfl⟩ | ⟨error, after, herror⟩
    · exact .inr (.inl ⟨_, _, after, .record hlength hmax hpayload, (List.append_assoc _ _ _).symm⟩)
    · exact .inr (.inr ⟨error, after, .event herror⟩)
  · exact .inr (.inr ⟨_, _, .head hbytes hmissing hsplit⟩)

/-- A spelling without its end is a truncated trace, or the end of the trace if there is
nothing of it. -/
theorem gives_cut {r : Record} {part missing : List UInt8} (h : Spells r (part ++ missing))
    (hmissing : missing ≠ []) :
    Gives record? part (if part = [] then .ok none else .error .truncated) [] := by
  rcases record?_takes_or_runsOut part with ⟨used, left, answer, rfl, htakes⟩ | hout
  · -- What is taken whatever follows would be all of the spelling.
    have hshort := htakes.gives (left ++ missing)
    have hwhole := gives_spelled h []
    rw [List.append_nil, List.append_assoc] at hwhole
    exact absurd (List.append_eq_nil_iff.mp (hshort.unique hwhole).2).2 hmissing
  · exact hout.gives

/-- On every byte list there is an answer to the next record. -/
theorem exists_gives_record (bytes : List UInt8) :
    ∃ answer after, Gives record? bytes answer after := by
  rcases spelled_or_refused bytes with rfl | ⟨r, w, after, hspells, rfl⟩ | ⟨error, after, hrefuses⟩
  · exact ⟨_, _, gives_nothing⟩
  · exact ⟨_, _, gives_spelled hspells after⟩
  · exact ⟨_, _, gives_refused hrefuses⟩

end StateTrace.Decoder
