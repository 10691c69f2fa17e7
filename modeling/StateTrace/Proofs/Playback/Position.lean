import Mathlib.Data.List.Basic
import StateTrace.Proofs.Playback.Pieces

/-!
# The position of a playback

The bytes of a trace are read from the first to the last, so the position of a playback is what is
left of them.  `Moves` says where an answer leaves it.  The answers come in four groups: the end of
the trace, a trace that ends inside a record, the answers that are given when the payload was read
whole (`TakesPayload`), and the refusals before that (`LeavesPayload`), which leave the payload to
be read as the next record.

The position is all that a playback keeps from one call to the next.  `next_position` states this
with a new playback that is opened at the position.
-/

namespace StateTrace

open Wire

/-! ## Moves -/

/-- The answers that are given when the payload was read whole. -/
inductive TakesPayload : Except ReadError (Option Record) → Prop
  | record (r : Record) : TakesPayload (.ok (some r))
  | byteOrder (letter : Nat) : TakesPayload (.error (.invalid "byte order" letter))
  | data (length expected : Nat) : TakesPayload (.error (.inconsistent "mon_data" length expected))

/-- The answers that are given before the payload is read. -/
inductive LeavesPayload : Except ReadError (Option Record) → Prop
  | reserved : LeavesPayload (.error (.invalid "event type" 0))
  | tooLarge (length : Nat) :
      LeavesPayload (.error (.tooLarge "event payload" length maxPayloadLength))
  | wrongLength {number : UInt16} {name : String} {expected : Nat} (length : Nat) :
      FixedLength number name expected → LeavesPayload (.error (.inconsistent name length expected))

/-- What is left of the bytes after an answer. -/
inductive Moves : List UInt8 → Except ReadError (Option Record) → List UInt8 → Prop
  | ended : Moves [] (.ok none) []
  | truncated {bytes : List UInt8} : bytes ≠ [] → Moves bytes (.error .truncated) []
  | taken {head : Head} {payload : List UInt8} {answer : Except ReadError (Option Record)}
      (after : List UInt8) :
      TakesPayload answer → payload.length = head.length.toNat →
      Moves (head.bytes ++ (payload ++ after)) answer after
  | left {head : Head} {answer : Except ReadError (Option Record)} (rest : List UInt8) :
      LeavesPayload answer → Moves (head.bytes ++ rest) answer rest

namespace Wire

/-- A head has at least a mask, a number and a length. -/
theorem Head.ten_le_length_bytes (head : Head) : 10 ≤ head.bytes.length := by
  simp only [bytes, List.length_append, BigEndian.length_ofUInt16, BigEndian.length_ofUInt32]
  omega

/-- A record moves past its payload. -/
theorem Spells.moves {r : Record} {w : List UInt8} (h : Spells r w) (after : List UInt8) :
    Moves (w ++ after) (.ok (some r)) after := by
  cases h with
  | record hlength =>
      rw [List.append_assoc]
      exact .taken after (.record _) hlength

/-- An event that is refused moves past its payload or leaves it, as the refusal says. -/
theorem RefusesEvent.moves {head : Head} {rest after : List UInt8} {error : ReadError}
    (h : RefusesEvent head.number head.length.toNat rest error after) :
    Moves (head.bytes ++ rest) (.error error) after := by
  have hnonempty : head.bytes ++ rest ≠ [] := by
    have hlength := head.ten_le_length_bytes
    intro hnil
    rw [(List.append_eq_nil_iff.mp hnil).1] at hlength
    cases hlength
  generalize hnumber : head.number = number at h
  generalize hlength : head.length.toNat = length at h
  cases h with
  | reserved => exact .left rest .reserved
  | tooLarge => exact .left rest (.tooLarge _)
  | wrongLength _ hfixed _ => exact .left rest (.wrongLength _ hfixed)
  | missing => exact .truncated hnonempty
  | @byteOrder offsets after letter _ hpayload hoffsets =>
      have hsplit : offsets ++ letter :: after = offsets ++ [letter] ++ after :=
        List.append_cons ..
      rw [hsplit]
      refine .taken after (.byteOrder _) ?_
      rw [List.length_append, hoffsets, hlength, hpayload]
      rfl
  | dataHeader _ hpayload _ => exact .taken after (.data _ _) (hpayload.trans hlength.symm)
  | @dataLength context entity size data after _ _ hpayload _ =>
      refine .taken after (.data _ _) ?_
      rw [Decoder.length_dataFields, hlength, hpayload]

theorem Refuses.moves {bytes after : List UInt8} {error : ReadError}
    (h : Refuses bytes error after) : Moves bytes (.error error) after := by
  cases h with
  | head hbytes => exact .truncated hbytes
  | event hevent => exact hevent.moves

end Wire

/-- Every answer moves. -/
theorem Decoder.exists_moves (bytes : List UInt8) :
    ∃ answer after, Gives record? bytes answer after ∧ Moves bytes answer after := by
  rcases spelled_or_refused bytes with rfl | ⟨r, w, after, hspells, rfl⟩ | ⟨error, after, hrefuses⟩
  · exact ⟨_, _, gives_nothing, .ended⟩
  · exact ⟨_, _, gives_spelled hspells after, hspells.moves after⟩
  · exact ⟨_, _, gives_refused hrefuses, hrefuses.moves⟩

/-- In a stream, what is left begins at some place. -/
theorem Moves.exists_place {stream left : List UInt8} {s : Nat}
    {answer : Except ReadError (Option Record)} (hs : s ≤ stream.length)
    (h : Moves (stream.drop s) answer left) :
    ∃ place, s ≤ place ∧ place ≤ stream.length ∧ left = stream.drop place ∧
      (answer = .ok none ∧ place = s ∨
        answer = .error .truncated ∧ place = stream.length ∨
        ∃ (head : Head) (rest : List UInt8), stream.drop s = head.bytes ++ rest ∧
          (TakesPayload answer ∧ place = s + head.bytes.length + head.length.toNat ∨
            LeavesPayload answer ∧ place = s + head.bytes.length)) := by
  have hlength : (stream.drop s).length = stream.length - s := List.length_drop
  have hdrop : ∀ n, (stream.drop s).drop n = stream.drop (s + n) := fun n => List.drop_drop
  generalize hbytes : stream.drop s = bytes at h hlength hdrop
  cases h with
  | ended => exact ⟨s, Nat.le_refl s, hs, hbytes.symm, .inl ⟨rfl, rfl⟩⟩
  | truncated =>
      exact ⟨stream.length, hs, Nat.le_refl _, List.drop_length.symm, .inr (.inl ⟨rfl, rfl⟩)⟩
  | @taken head payload _ _ htakes hpayload =>
      rw [List.length_append, List.length_append] at hlength
      have hleft := hdrop (head.bytes.length + payload.length)
      rw [← List.append_assoc, List.drop_left' List.length_append] at hleft
      rw [← Nat.add_assoc] at hleft
      exact ⟨s + head.bytes.length + payload.length, by omega, by omega, hleft,
        .inr (.inr ⟨head, _, rfl, .inl ⟨htakes, by rw [hpayload]⟩⟩)⟩
  | @left head _ _ hleaves =>
      rw [List.length_append] at hlength
      have hleft := hdrop head.bytes.length
      rw [List.drop_left] at hleft
      exact ⟨s + head.bytes.length, by omega, by omega, hleft,
        .inr (.inr ⟨head, _, rfl, .inr ⟨hleaves, rfl⟩⟩)⟩

namespace Playback

theorem next_moves {playback : Playback} {bytes : List UInt8}
    (h : playback.input.source.Delivers bytes) :
    ∃ left, playback.next.2.input.source.Delivers left ∧ Moves bytes playback.next.1 left := by
  obtain ⟨answer, left, hgives, hmoves⟩ := Decoder.exists_moves bytes
  obtain ⟨hanswer, hleft⟩ := next_of_gives h hgives
  rw [hanswer]
  exact ⟨left, hleft, hmoves⟩

/-- No call changes the versions. -/
theorem versions_next (playback : Playback) :
    playback.next.2.major = playback.major ∧ playback.next.2.minor = playback.minor := by
  unfold next
  split <;> exact ⟨rfl, rfl⟩

/-- One call on a playback that stands at `s`, whatever is in its buffer and however many records
it counts.  The versions stay, a record is counted, and nothing else is.  The position stays at the
end of the trace.  It is moved to the end of the stream by a trace that ends too early, to the end
of the payload by an answer that takes the payload, and to the end of the head by one that leaves
it.  From there on, whatever was read before, the playback answers just what a new one answers that
is opened there. -/
theorem next_position {stream : List UInt8} {s : Nat} {playback : Playback} (hs : s ≤ stream.length)
    (h : playback.input.source.Delivers (stream.drop s)) :
    let answer := playback.next.1
    let after := playback.next.2
    after.major = playback.major ∧ after.minor = playback.minor ∧
      after.recordsRead = playback.recordsRead + counted answer ∧
      ∃ place, s ≤ place ∧ place ≤ stream.length ∧
        after.input.source.Delivers (stream.drop place) ∧
        (answer = .ok none ∧ place = s ∨
          answer = .error .truncated ∧ place = stream.length ∨
          ∃ (head : Head) (rest : List UInt8), stream.drop s = head.bytes ++ rest ∧
            (TakesPayload answer ∧ place = s + head.bytes.length + head.length.toNat ∨
              LeavesPayload answer ∧ place = s + head.bytes.length)) ∧
        ∀ (minor : UInt32) (source : Source),
          source.Delivers (headerBytes majorVersion minor ++ stream.drop place) →
          ∃ opened, start source = .ok opened ∧ ∀ n, after.answers n = opened.answers n := by
  intro answer after
  obtain ⟨hmajor, hminor⟩ := playback.versions_next
  obtain ⟨left, hleft, hmoves⟩ := next_moves h
  obtain ⟨place, hbehind, hle, rfl, hplace⟩ := hmoves.exists_place hs
  refine ⟨hmajor, hminor, recordsRead_next playback, place, hbehind, hle, hleft, hplace, ?_⟩
  intro minor source hsource
  obtain ⟨opened, hstart, -, -, hopened⟩ := start_header hsource
  exact ⟨opened, hstart, answers_agree hleft hopened⟩

/-- A state event that declares one byte.  The byte is left, and it begins the record that is read
next.  A playback that is opened at this byte gives the same. -/
theorem next_position_wrong_length :
    let stream : List UInt8 := [0, 0, 0, 0, 0, 4, 0, 0, 0, 0, 0, 0, 0, 0, 0, 2, 0, 0, 0, 1,
      0, 0, 0, 0, 0, 4, 0, 0, 0, 0]
    let playback : Playback := ⟨⟨.ofBytes (stream.drop 10), [0xee, 0xee]⟩, 1, 7, 3⟩
    ∃ opened, start (.ofBytes (headerBytes majorVersion 0 ++ stream.drop 20)) = .ok opened ∧
      playback.next.1 = .error (.inconsistent "mon_state" 1 6) ∧
      playback.next.2.recordsRead = 3 ∧ playback.next.2.answers 2 = opened.answers 2 ∧
      opened.answers 2 = [.ok (some ⟨.empty, .nodeCreate⟩), .ok none] := by
  intro stream playback
  have hdelivers : playback.input.source.Delivers (stream.drop 10) := Source.delivers_ofBytes _
  have hanswer : playback.next.1 = .error (.inconsistent "mon_state" 1 6) := by decide +kernel
  obtain ⟨-, -, hcount, place, -, hle, hafter, -, hopens⟩ :=
    next_position (by decide : 10 ≤ stream.length) hdelivers
  have hplace : place = 20 := by
    have hleft : (stream.drop place).length = 10 := by
      rw [← hafter.pending_eq]
      decide +kernel
    have hlength : stream.length = 30 := rfl
    rw [List.length_drop] at hleft
    omega
  subst hplace
  obtain ⟨opened, hstart, hanswers⟩ := hopens 0 _ (Source.delivers_ofBytes _)
  refine ⟨opened, hstart, hanswer, ?_, hanswers 2, ?_⟩
  · rw [hcount, hanswer]
    rfl
  · rw [← hanswers 2]
    decide +kernel

end Playback

end StateTrace
