import StateTrace.Proofs.Playback.Run

/-!
# Pieces and interruptions cannot be seen

Two playbacks whose sources deliver the same bytes give the same records, errors and
ends, however often they are asked, and count the same records.  The step is that what
is left after one record delivers the same bytes again (`next_agree`).  The runs are
`answers_agree` and `recordsRead_agree`.

`start_of_delivers` compares any source with the one that gives its bytes in one piece.
-/

namespace StateTrace.Playback

open Wire

/-! ## Agreement -/

section Agreement
variable {playback playback' : Playback} {bytes : List UInt8}

/-- The next record is the same, and then the same bytes are left. -/
theorem next_agree (h : playback.input.source.Delivers bytes)
    (h' : playback'.input.source.Delivers bytes) :
    playback.next.1 = playback'.next.1 ∧
      ∃ left, playback.next.2.input.source.Delivers left ∧
        playback'.next.2.input.source.Delivers left := by
  obtain ⟨answer, left, hgives⟩ := Decoder.exists_gives_record bytes
  obtain ⟨hanswer, hleft⟩ := next_of_gives h hgives
  obtain ⟨hanswer', hleft'⟩ := next_of_gives h' hgives
  exact ⟨hanswer.trans hanswer'.symm, left, hleft, hleft'⟩

/-- So are all records after it. -/
theorem answers_agree (h : playback.input.source.Delivers bytes)
    (h' : playback'.input.source.Delivers bytes) (n : Nat) :
    playback.answers n = playback'.answers n := by
  induction n generalizing playback playback' bytes with
  | zero => rfl
  | succ n ih =>
      obtain ⟨hanswer, left, hleft, hleft'⟩ := next_agree h h'
      rw [answers, answers, hanswer, ih hleft hleft']

/-- And so is the count of them. -/
theorem recordsRead_agree (h : playback.input.source.Delivers bytes)
    (h' : playback'.input.source.Delivers bytes)
    (hcount : playback.recordsRead = playback'.recordsRead) (n : Nat) :
    (playback.after n).recordsRead = (playback'.after n).recordsRead := by
  induction n generalizing playback playback' bytes with
  | zero => exact hcount
  | succ n ih =>
      obtain ⟨hanswer, left, hleft, hleft'⟩ := next_agree h h'
      refine ih hleft hleft' ?_
      rw [recordsRead_next, recordsRead_next, hcount, hanswer]

end Agreement

/-- What `start` makes of what the header gives. -/
theorem start_eq (source : Source) :
    start source = (Decoder.header ⟨source, []⟩).1.map fun versions =>
      ⟨(Decoder.header ⟨source, []⟩).2, versions.1, versions.2, 0⟩ := by
  rw [start]
  split
  · next h => rw [h]; rfl
  · next h => rw [h]; rfl

/-- A source that delivers bytes in pieces, with interruptions, opens just as the bytes
in one piece do, or fails with the same error.  The playbacks then give the same answers
and the same count, also past errors. -/
theorem start_of_delivers {source : Source} {bytes : List UInt8} (h : source.Delivers bytes) :
    (∀ error, start source = .error error ↔ start (.ofBytes bytes) = .error error) ∧
      ∀ playback, start source = .ok playback → ∃ plain, start (.ofBytes bytes) = .ok plain ∧
        playback.major = plain.major ∧ playback.minor = plain.minor ∧
        ∀ n, playback.answers n = plain.answers n ∧
          (playback.after n).recordsRead = (plain.after n).recordsRead := by
  obtain ⟨answer, left, hgives⟩ := Decoder.sequential_header.exists_gives bytes
  obtain ⟨hanswer, hleft⟩ := hgives ⟨source, []⟩ h
  obtain ⟨hanswer', hleft'⟩ := hgives ⟨.ofBytes bytes, []⟩ (Source.delivers_ofBytes bytes)
  rw [start_eq, start_eq, hanswer, hanswer']
  cases answer with
  | error error => exact ⟨fun _ => Iff.rfl, fun _ hstart => nomatch hstart⟩
  | ok versions =>
      refine ⟨fun error => ⟨fun hstart => (nomatch hstart), fun hstart => (nomatch hstart)⟩, ?_⟩
      intro playback hstart
      cases hstart
      let opened : Playback := ⟨(Decoder.header ⟨source, []⟩).2, versions.1, versions.2, 0⟩
      let plain : Playback := ⟨(Decoder.header ⟨.ofBytes bytes, []⟩).2, versions.1, versions.2, 0⟩
      have hopened : opened.input.source.Delivers left := hleft
      have hplain : plain.input.source.Delivers left := hleft'
      exact ⟨plain, rfl, rfl, rfl, fun n =>
        ⟨answers_agree hopened hplain n, recordsRead_agree hopened hplain rfl n⟩⟩

/-- Interruptions inside the magic number and inside a mask, and pieces that end nowhere
near a field.  The second record is refused, and asking goes on after it. -/
theorem start_of_interrupted_pieces :
    let bytes := headerBytes majorVersion 0 ++
      [0, 0, 0, 0, 0, 4, 0, 0, 0, 0, 0, 0, 0, 0, 0, 0, 0, 0, 0, 0]
    let source : Source := ⟨[.bytes (bytes.take 3), .fault ⟨.interrupted, ""⟩,
      .bytes ((bytes.drop 3).take 11), .fault ⟨.interrupted, ""⟩, .fault ⟨.interrupted, ""⟩,
      .bytes (bytes.drop 14)]⟩
    ∃ playback plain, start source = .ok playback ∧ start (.ofBytes bytes) = .ok plain ∧
      playback.answers 4 = plain.answers 4 ∧
      (playback.after 4).recordsRead = (plain.after 4).recordsRead := by
  intro bytes source
  have hdelivers : source.Delivers bytes :=
    .piece (by decide) <| .interrupted rfl <| .piece (by decide) <| .interrupted rfl <|
      .interrupted rfl <| .piece (by decide) .done
  obtain ⟨playback, hstart⟩ : ∃ playback, start source = .ok playback := ⟨_, rfl⟩
  obtain ⟨plain, hplain, -, -, hanswers⟩ := (start_of_delivers hdelivers).2 playback hstart
  exact ⟨playback, plain, hstart, hplain, hanswers 4⟩

end StateTrace.Playback
