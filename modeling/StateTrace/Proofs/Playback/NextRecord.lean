import StateTrace.Playback
import StateTrace.Proofs.Wire.Acceptance

/-!
# The next record of a playback

`next_iff_grammar` says what the next record of a playback is, in the terms of the
grammar and for every source without faults.  The pieces of the source, the
interruptions in it, the buffer and the count of the records before play no part.
-/

namespace StateTrace.Playback

open Wire

theorem next_fst (playback : Playback) :
    playback.next.1 = (Decoder.record? playback.input).1 := by
  unfold next
  split
  · next h => rw [h]
  · next h => rw [h]

theorem input_next (playback : Playback) :
    playback.next.2.input = (Decoder.record? playback.input).2 := by
  unfold next
  split
  · next h => rw [h]
  · next h => rw [h]

/-- The next record is what the decoder gives on the bytes that are left. -/
theorem next_of_gives {playback : Playback} {bytes after : List UInt8}
    {answer : Except ReadError (Option Record)} (h : playback.input.source.Delivers bytes)
    (hgives : Decoder.Gives Decoder.record? bytes answer after) :
    playback.next.1 = answer ∧ playback.next.2.input.source.Delivers after := by
  rw [next_fst, input_next]
  exact hgives playback.input h

/-- A playback ends exactly where no byte is left.  It gives a record exactly where a
spelling of it starts, and that spelling is then gone from the source.  It fails
exactly where the grammar refuses what is left, and with that error. -/
theorem next_iff_grammar {playback : Playback} {bytes : List UInt8}
    (h : playback.input.source.Delivers bytes) :
    (playback.next.1 = .ok none ↔ bytes = []) ∧
      (∀ r, playback.next.1 = .ok (some r) ↔ ∃ w after, Spells r w ∧ bytes = w ++ after) ∧
      (∀ r w after, Spells r w → bytes = w ++ after →
        playback.next.2.input.source.Delivers after) ∧
      (∀ error, playback.next.1 = .error error ↔ ∃ after, Refuses bytes error after) ∧
      (∀ error after, Refuses bytes error after → playback.next.2.input.source.Delivers after) := by
  have hspelled : ∀ {r w after}, Spells r w → bytes = w ++ after →
      playback.next.1 = .ok (some r) ∧ playback.next.2.input.source.Delivers after := by
    rintro r w after hr rfl
    exact next_of_gives h (Decoder.gives_spelled hr after)
  have hrefused : ∀ {error after}, Refuses bytes error after →
      playback.next.1 = .error error ∧ playback.next.2.input.source.Delivers after :=
    fun herror => next_of_gives h (Decoder.gives_refused herror)
  have hnothing : bytes = [] → playback.next.1 = .ok none := by
    rintro rfl
    exact (next_of_gives h Decoder.gives_nothing).1
  -- The three cases exclude each other, because there is one answer.
  have hcases := Decoder.spelled_or_refused bytes
  refine ⟨⟨fun hend => ?_, hnothing⟩, fun r => ⟨fun hr => ?_, ?_⟩,
    fun r w after hr hbytes => (hspelled hr hbytes).2, fun error => ⟨fun herror => ?_, ?_⟩,
    fun error after herror => (hrefused herror).2⟩
  · rcases hcases with hnil | ⟨r, w, after, hr, hbytes⟩ | ⟨error, after, herror⟩
    · exact hnil
    · cases hend.symm.trans (hspelled hr hbytes).1
    · cases hend.symm.trans (hrefused herror).1
  · rcases hcases with hnil | ⟨r', w, after, hr', hbytes⟩ | ⟨error, after, herror⟩
    · cases hr.symm.trans (hnothing hnil)
    · cases hr.symm.trans (hspelled hr' hbytes).1
      exact ⟨w, after, hr', hbytes⟩
    · cases hr.symm.trans (hrefused herror).1
  · rintro ⟨w, after, hr, hbytes⟩
    exact (hspelled hr hbytes).1
  · rcases hcases with hnil | ⟨r, w, after, hr, hbytes⟩ | ⟨error', after, herror'⟩
    · cases herror.symm.trans (hnothing hnil)
    · cases herror.symm.trans (hspelled hr hbytes).1
    · cases herror.symm.trans (hrefused herror').1
      exact ⟨after, herror'⟩
  · rintro ⟨after, herror⟩
    exact (hrefused herror).1

/-- A state event whose scope has a part of one byte under the reserved bit.  The read
is interrupted inside the mask, and the buffer and the count are those of an earlier
record. -/
theorem next_interrupted_foreign :
    (Playback.next ⟨⟨⟨[.bytes [0, 0], .fault ⟨.interrupted, ""⟩, .bytes [0, 1, 0, 1, 0xff, 0, 2],
      .bytes [0, 0, 0, 6, 0, 1, 0, 2, 0, 3, 0]]⟩, [0xee, 0xee]⟩, 1, 7, 3⟩).1 =
      .ok (some ⟨⟨⟨0x1⟩, .zero, 0, .zero⟩, .monitorState ⟨1, 2, 3⟩⟩) := by
  have hdelivers : Source.Delivers
      ⟨[.bytes [0, 0], .fault ⟨.interrupted, ""⟩, .bytes [0, 1, 0, 1, 0xff, 0, 2],
        .bytes [0, 0, 0, 6, 0, 1, 0, 2, 0, 3, 0]]⟩ _ :=
    .piece (by decide) <| .interrupted rfl <| .piece (by decide) <| .piece (by decide) .done
  let parts : ScopeParts 0x1 := ⟨none, none, [[0xff]], rfl, rfl, by decide, by decide⟩
  let head : Head := ⟨0x1, parts, 2, 6⟩
  have hspells := @Spells.record head _ _ rfl (by decide) (@Payload.monitorState 1 2 3)
  have hscope : head.parts.scope = ⟨⟨0x1⟩, .zero, 0, .zero⟩ := by decide
  rw [hscope] at hspells
  exact ((next_iff_grammar hdelivers).2.1 _).mpr ⟨_, [0], hspells, by decide⟩

end StateTrace.Playback
