import StateTrace.Proofs.Playback.Course
import StateTrace.Proofs.Wire.Content

/-!
# Playing a content

A playback whose source delivers bytes goes through the content of these bytes, entry by
entry (`Content.plays`, `Content.delivers_after`).  So what draining it gives can be read off
the bytes (`Content.drain`), and nothing else about the source or about what was read before
plays a part.

Of a source with faults this much is left: a record is given only if its spelling was taken
from the source, and no byte more (`exists_spells_of_next`).  So all records that are ever
read have a spelling (`Plays.exists_spells`).
-/

namespace StateTrace

open Wire

/-! ## Sources without faults -/

section Content
variable {bytes : List UInt8} {entries : List (Record × List UInt8)} {error : Option ReadError}
  {playback : Playback}

/-- The course of a playback is the content of the bytes that its source delivers. -/
theorem Wire.Content.plays (h : Content bytes entries error)
    (hdelivers : playback.input.source.Delivers bytes) :
    ∃ rest, playback.Plays (entries.map Prod.fst) error rest := by
  induction h generalizing playback with
  | complete =>
      obtain ⟨hanswer, -⟩ := Playback.next_of_gives hdelivers Decoder.gives_nothing
      exact ⟨_, .complete (Prod.ext hanswer rfl)⟩
  | failed hrefuses =>
      obtain ⟨hanswer, -⟩ := Playback.next_of_gives hdelivers (Decoder.gives_refused hrefuses)
      exact ⟨_, .failed (Prod.ext hanswer rfl)⟩
  | record hspells _ ih =>
      obtain ⟨hanswer, hnext⟩ :=
        Playback.next_of_gives hdelivers (Decoder.gives_spelled hspells _)
      obtain ⟨rest, hrest⟩ := ih hnext
      exact ⟨rest, .record (Prod.ext hanswer rfl) hrest⟩

/-- Draining gives the records of the content and its error. -/
theorem Wire.Content.drain (h : Content bytes entries error)
    (hdelivers : playback.input.source.Delivers bytes) :
    playback.drain.1 = entries.map Prod.fst ∧ playback.drain.2.1 = error := by
  obtain ⟨rest, hplays⟩ := h.plays hdelivers
  rw [hplays.drain]
  exact ⟨rfl, rfl⟩

/-- After some records just the bytes of their entries are gone. -/
theorem Wire.Content.delivers_after (h : Content bytes entries error)
    (hdelivers : playback.input.source.Delivers bytes) {n : Nat} (hn : n ≤ entries.length) :
    (playback.after n).input.source.Delivers (bytes.drop (extent (entries.take n))) := by
  induction h generalizing playback n with
  | complete =>
      cases Nat.le_zero.mp hn
      exact hdelivers
  | failed =>
      cases Nat.le_zero.mp hn
      exact hdelivers
  | record hspells _ ih =>
      cases n with
      | zero => exact hdelivers
      | succ n =>
          obtain ⟨-, hnext⟩ := Playback.next_of_gives hdelivers (Decoder.gives_spelled hspells _)
          rw [List.take_succ_cons, extent_cons, List.drop_length_add_append]
          exact ih hnext (Nat.le_of_succ_le_succ hn)

end Content

/-! ## Any source -/

/-- Bytes that run out are no record. -/
theorem Decoder.stopped_ne_record (bytes : List UInt8) (outcome : Source.Outcome) (r : Record) :
    stopped bytes outcome ≠ .ok (some r) := by
  by_cases hbytes : bytes = []
  · subst hbytes
    cases outcome <;> simp [stopped]
  · simp [stopped_of_ne_nil hbytes]

namespace Playback

variable {playback after rest : Playback} {r : Record}

/-- A record that is read takes a spelling of it from the bytes up to where gathering stops,
and nothing else plays a part: any source that starts with the spelling gives the record. -/
theorem takes_of_next (h : playback.next = (.ok (some r), after)) {bytes : List UInt8}
    {tail later : List Answer} {outcome : Source.Outcome}
    (hstarts : playback.input.source.Starts bytes tail) (hstops : Source.Stops tail outcome later) :
    ∃ w left, bytes = w ++ left ∧ Spells r w ∧ after.input.source.Starts left tail ∧
      Decoder.Takes Decoder.record? w (.ok (some r)) := by
  have hanswer : (Decoder.record? playback.input).1 = .ok (some r) := by
    rw [← next_fst, h]
  have hafter : (Decoder.record? playback.input).2 = after.input := by
    rw [← input_next, h]
  rcases Decoder.record?_takes_or_runsOut bytes with ⟨used, left, answer, rfl, htakes⟩ | hout
  · obtain ⟨hgiven, hrest⟩ := htakes playback.input left tail hstarts
    rw [hanswer] at hgiven
    rw [hafter] at hrest
    subst hgiven
    obtain ⟨w, hspells, hused⟩ := Decoder.spells_of_gives (htakes.gives [])
    rw [List.append_nil, List.append_nil] at hused
    subst hused
    exact ⟨used, left, rfl, hspells, hrest, htakes⟩
  · obtain ⟨hgiven, -⟩ := hout playback.input tail later outcome hstarts hstops
    exact absurd (hgiven.symm.trans hanswer) (Decoder.stopped_ne_record bytes outcome r)

/-- Any source that starts with what a record takes gives the record and leaves what follows. -/
theorem next_of_takes {w left : List UInt8} {tail : List Answer}
    (htakes : Decoder.Takes Decoder.record? w (.ok (some r)))
    (hstarts : playback.input.source.Starts (w ++ left) tail) :
    playback.next = (.ok (some r), playback.next.2) ∧
      playback.next.2.input.source.Starts left tail := by
  obtain ⟨hanswer, hrest⟩ := htakes playback.input left tail hstarts
  rw [← next_fst] at hanswer
  rw [← input_next] at hrest
  exact ⟨Prod.ext hanswer rfl, hrest⟩

/-- A record that is read takes a spelling of it from the source, and leaves what follows. -/
theorem exists_spells_of_next (h : playback.next = (.ok (some r), after)) :
    ∃ w left tail, Spells r w ∧ playback.input.source.Starts (w ++ left) tail ∧
      after.input.source.Starts left tail := by
  obtain ⟨bytes, tail, outcome, later, hstarts, hstops⟩ := playback.input.source.exists_starts
  obtain ⟨w, left, rfl, hspells, hrest, -⟩ := takes_of_next h hstarts hstops
  exact ⟨w, left, tail, hspells, hstarts, hrest⟩

/-- Every record of a course has a spelling. -/
theorem Plays.exists_spells {records : List Record} {error : Option ReadError}
    (h : playback.Plays records error rest) : ∀ r ∈ records, ∃ w, Spells r w := by
  induction h with
  | complete => exact fun _ hr => absurd hr List.not_mem_nil
  | failed => exact fun _ hr => absurd hr List.not_mem_nil
  | record hnext _ ih =>
      obtain ⟨w, _, _, hspells, -, -⟩ := exists_spells_of_next hnext
      intro q hq
      cases hq with
      | head => exact ⟨w, hspells⟩
      | tail _ hq => exact ih q hq

end Playback

end StateTrace
