import Mathlib.Data.List.Basic
import StateTrace.Proofs.Playback.Run
import StateTrace.Proofs.Wire.DecodedScope
import StateTrace.Proofs.Wire.Offsets

/-!
# Bounds

A playback that takes headers and payloads apart by their offsets answers like one that decodes
them, and it never slips, whatever the source does (`nothing_slips`).

The reason is in the order of reading.  Everything that takes bytes from the source comes first.
A header is then there whole.  A payload is *handed over* with the length that was announced, and
only after this length was compared with the limit and with the kind (`Handover.Sound`).  What is
read by offsets comes after that and leaves the source alone, so `through_eq` can put it in the
place of the decoder.
-/

namespace StateTrace

namespace Offset

/-! ## Headers and records -/

section Through
variable {α β : Type}

/-- Run a decoder, and then a program on what the decoder read. -/
def through (d : Decoder α) (program : α → Checked (Except ReadError β)) (input : Input) :
    Checked (Except ReadError β × Input) :=
  match d input with
  | (.ok a, rest) => do return (← program a, rest)
  | (.error error, rest) => return (.error error, rest)

/-- If a program does not slip on what the decoder yields, it can take the place of a decoder that
leaves the source alone. -/
theorem through_eq {d : Decoder α} {P : α → Prop} (hd : Decoder.Yields d P) {next : α → Decoder β}
    {program : α → Checked (Except ReadError β)}
    (h : ∀ a, P a → ∃ answer, program a = .ok answer ∧ ∀ rest, next a rest = (answer, rest))
    (input : Input) : through d program input = .ok ((d >>= next) input) := by
  rw [through]
  split
  · next a rest hread =>
      obtain ⟨answer, hprogram, hnext⟩ := h a (hd input a rest hread)
      rw [Decoder.bind_ok hread, hnext rest, bind_ok hprogram]
      rfl
  · next error rest hread =>
      rw [Decoder.bind_error hread]
      rfl

end Through

theorem yields_exactly (n : Nat) :
    Decoder.Yields (Decoder.exactly n) fun data => data.length = n :=
  fun _ _ _ h => (Decoder.pending_of_exactly h).1

/-- Nothing slips in a header that was read whole. -/
theorem header_eq (input : Input) :
    through (Decoder.exactly Wire.headerLength) header input = .ok (Decoder.header input) := by
  refine through_eq (yields_exactly Wire.headerLength) ?_ input
  intro data hlength
  have hheader : Wire.headerLength = 12 := rfl
  have hfound : bytes 4 data 0 = .ok (data.take 4) := if_pos (by omega)
  have hmajor : uint32 data 4 = .ok (BigEndian.toUInt32 ((data.drop 4).take 4)) :=
    bind_ok (if_pos (by omega))
  have hminor : uint32 data 8 = .ok (BigEndian.toUInt32 (data.drop 8)) := by
    have hrest : (data.drop 8).length ≤ 4 := by
      rw [List.length_drop]
      omega
    rw [← List.take_of_length_le hrest]
    exact bind_ok (if_pos (by omega))
  rw [header, bind_ok hfound]
  by_cases hmagic : data.take 4 = Wire.magic
  case neg =>
    refine ⟨.error (.badMagic (data.take 4)), if_pos hmagic, fun rest => ?_⟩
    rw [require_neg hmagic]
    rfl
  rw [if_neg (fun hne => hne hmagic), bind_ok hmajor, bind_ok hminor, require_pos hmagic]
  by_cases hversion : BigEndian.toUInt32 ((data.drop 4).take 4) = Wire.majorVersion
  case neg =>
    refine ⟨_, if_pos hversion, fun rest => ?_⟩
    rw [require_neg hversion]
    rfl
  refine ⟨_, if_neg (fun hne => hne hversion), fun rest => ?_⟩
  rw [require_pos hversion]
  rfl

end Offset

namespace Decoder

/-! ## What is handed over -/

/-- A payload that was read for an event of a known kind and is to be taken apart. -/
structure Handover where
  number : UInt16
  /-- The length that was announced. -/
  length : Nat
  kind : Kind
  payload : List UInt8
deriving DecidableEq, Repr, Inhabited

/-- What was checked before a payload is handed over. -/
structure Handover.Sound (handover : Handover) : Prop where
  length_payload : handover.payload.length = handover.length
  length_le : handover.length ≤ Wire.maxPayloadLength
  ofWire?_number : Kind.ofWire? handover.number = some handover.kind
  fixedLength? : ∀ length, handover.kind.fixedLength? = some length → handover.length = length

theorem Handover.Sound.kind_ne_unknown {handover : Handover} (h : handover.Sound) :
    handover.kind ≠ .unknown := by
  intro hunknown
  have hkind := h.ofWire?_number
  rw [hunknown] at hkind
  exact Kind.ofWire?_ne_unknown _ hkind

/-- Everything of an event that takes bytes from the source: the event itself if its kind is not
known, and otherwise its payload. -/
def eventFront (number : UInt16) (length : Nat) : Decoder (Event ⊕ Handover) := do
  require (number ≠ 0) (.invalid "event type" 0)
  require (length ≤ Wire.maxPayloadLength)
    (.tooLarge "event payload" length Wire.maxPayloadLength)
  match Kind.ofWire? number with
  | some kind => do
      let expected := kind.fixedLength?.getD length
      require (length = expected) (.inconsistent kind.label length expected)
      return .inr ⟨number, length, kind, ← refill length⟩
  | none => return .inl (← foreignEvent number length)

/-- Everything of a record that takes bytes from the source. -/
def recordFront : Decoder (Option (Scope × (Event ⊕ Handover))) := do
  match ← recordStart with
  | none => return none
  | some flags => do
      let placed ← scope flags
      let number ← uint16
      let length ← uint32
      return some (placed, ← eventFront number length.toNat)

/-- What is left to do for an event. -/
def settle : Event ⊕ Handover → Decoder Event
  | .inl event => return event
  | .inr handover => within handover.payload (payload handover.length handover.kind)

theorem eventBody_eq (number : UInt16) (length : Nat) :
    eventBody number length = eventFront number length >>= settle := by
  simp only [eventBody, eventFront, bind_assoc]
  congr; funext _; congr; funext _
  cases Kind.ofWire? number with
  | none => simp [settle]
  | some kind => simp [settle, knownEvent]

theorem record?_eq :
    record? = recordFront >>= fun front =>
      match front with
      | none => return none
      | some (placed, part) => return some ⟨placed, ← settle part⟩ := by
  simp only [record?, recordFront, bind_assoc]
  congr; funext start
  cases start with
  | none => rfl
  | some flags => simp [recordBody, event, eventBody_eq]

theorem yields_require (condition : Prop) [Decidable condition] (error : ReadError) :
    Yields (require condition error) fun _ => condition := by
  intro input _ rest h
  by_cases hcondition : condition
  · exact hcondition
  · rw [require, decide_eq_false hcondition] at h
    cases h

/-- The buffer is as long as it was asked to be. -/
theorem yields_refill (n : Nat) : Yields (refill n) fun bytes => bytes.length = n := by
  intro input bytes rest h
  simp only [refill] at h
  split at h
  · next hfilled =>
      cases h
      simp [input.source.length_bytes_gather n hfilled]
  · cases h
  · cases h

theorem yields_eventFront (number : UInt16) (length : Nat) :
    Yields (eventFront number length) fun part => ∀ handover, part = .inr handover →
      handover.Sound := by
  refine (yields_require _ _).bind fun _ _ => (yields_require _ _).bind fun _ hmax => ?_
  cases hkind : Kind.ofWire? number with
  | none => exact (yields_trivial _).bind fun _ _ => yields_pure fun _ h => nomatch h
  | some kind =>
      refine (yields_require _ _).bind fun _ hfixed => (yields_refill length).bind ?_
      intro bytes hbytes
      refine yields_pure ?_
      rintro _ ⟨⟩
      refine ⟨hbytes, hmax, hkind, fun expected hexpected => ?_⟩
      rwa [hexpected] at hfixed

theorem yields_recordFront :
    Yields recordFront fun front => ∀ placed handover, front = some (placed, .inr handover) →
      handover.Sound := by
  refine (yields_trivial recordStart).bind fun start _ => ?_
  cases start with
  | none => exact yields_pure fun _ _ h => nomatch h
  | some flags =>
      refine (yields_trivial _).bind fun placed _ => (yields_trivial _).bind fun number _ =>
        (yields_trivial _).bind fun length _ => (yields_eventFront number _).bind ?_
      intro part hpart
      refine yields_pure ?_
      rintro _ handover ⟨⟩
      exact hpart handover rfl

/-! ## Sizes -/

theorem shrinks_recordStart : Shrinks recordStart := by
  intro input
  have h := input.source.size_rest_gather 4
  simp only [recordStart]
  split <;> simp only <;> omega

theorem shrinks_record? : Shrinks record? := by
  refine shrinks_recordStart.bind fun start => ?_
  cases start with
  | none => exact shrinks_pure none
  | some flags => exact (shrinks_recordBody flags).bind fun r => shrinks_pure (some r)

end Decoder

namespace Offset

/-- What is left to do for a record, by offsets. -/
def settle : Option (Scope × (Event ⊕ Decoder.Handover)) →
    Checked (Except ReadError (Option Record))
  | none => return .ok none
  | some (placed, .inl event) => return .ok (some ⟨placed, event⟩)
  | some (placed, .inr handover) => do
      let answer ← event handover.kind handover.payload
      return answer.map fun event => some ⟨placed, event⟩

/-- Nothing slips in a payload that was checked. -/
theorem event_of_sound {handover : Decoder.Handover} (h : handover.Sound) :
    event handover.kind handover.payload =
      .ok (Decoder.payload handover.payload.length handover.kind (input handover.payload 0)).1 :=
  event_eq h.kind_ne_unknown fun length hfixed =>
    h.length_payload.trans (h.fixedLength? length hfixed)

/-- Nothing slips in what is handed over. -/
theorem record?_eq (input : Input) :
    through Decoder.recordFront settle input = .ok (Decoder.record? input) := by
  rw [Decoder.record?_eq]
  refine through_eq Decoder.yields_recordFront ?_ input
  intro front hfront
  match front with
  | none => exact ⟨_, rfl, fun _ => rfl⟩
  | some (placed, .inl event) => exact ⟨_, rfl, fun _ => rfl⟩
  | some (placed, .inr handover) =>
      have hsound := hfront placed handover rfl
      have hsettle : ∀ rest, Decoder.settle (.inr handover) rest =
          ((Decoder.payload handover.payload.length handover.kind
            (Offset.input handover.payload 0)).1, rest) := by
        intro rest
        rw [Decoder.settle, ← hsound.length_payload]
        rfl
      refine ⟨_, bind_ok (event_of_sound hsound), fun rest => ?_⟩
      have hrest := hsettle rest
      cases hanswer : (Decoder.payload handover.payload.length handover.kind
          (Offset.input handover.payload 0)).1 with
      | ok event =>
          rw [hanswer] at hrest
          exact Decoder.bind_ok hrest
      | error error =>
          rw [hanswer] at hrest
          exact Decoder.bind_error hrest

end Offset

namespace Playback

/-! ## Playbacks -/

/-- Read the header of a trace by offsets. -/
def startByOffsets (source : Source) : Checked (Except ReadError Playback) := do
  let (answer, rest) ←
    Offset.through (Decoder.exactly Wire.headerLength) Offset.header ⟨source, []⟩
  return answer.map fun (major, minor) => ⟨rest, major, minor, 0⟩

/-- Read the next record, its payload by offsets. -/
def nextByOffsets (playback : Playback) :
    Checked (Except ReadError (Option Record) × Playback) := do
  match ← Offset.through Decoder.recordFront Offset.settle playback.input with
  | (.ok (some r), rest) =>
      let after := { playback with input := rest, recordsRead := playback.recordsRead + 1 }
      return (.ok (some r), after)
  | (answer, rest) => return (answer, { playback with input := rest })

theorem startByOffsets_eq (source : Source) : startByOffsets source = .ok (start source) := by
  rw [startByOffsets, Offset.bind_ok (Offset.header_eq _), start]
  rcases Decoder.header ⟨source, []⟩ with ⟨_ | _, _⟩ <;> rfl

theorem nextByOffsets_eq (playback : Playback) : playback.nextByOffsets = .ok playback.next := by
  rw [nextByOffsets, Offset.bind_ok (Offset.record?_eq _), next]
  rcases Decoder.record? playback.input with ⟨_ | _ | _, _⟩ <;> rfl

/-! ## The count of records -/

/-- A record takes more off the size of the source than it adds to the count. -/
theorem count_next_le (playback : Playback) :
    playback.next.2.recordsRead + playback.next.2.input.source.size ≤
      playback.recordsRead + playback.input.source.size := by
  have hshrinks := Decoder.shrinks_record? playback.input
  cases hanswer : playback.next with
  | mk answer after =>
      have hcount := recordsRead_next playback
      have hinput := input_next playback
      rw [hanswer] at hcount hinput
      rw [← hinput] at hshrinks
      simp only at hcount hshrinks ⊢
      match answer with
      | .ok (some _) =>
          have hlt := size_source_next_lt hanswer
          simp only [counted] at hcount
          omega
      | .ok none | .error _ =>
          simp only [counted] at hcount
          omega

theorem count_after_le (playback : Playback) (n : Nat) :
    (playback.after n).recordsRead + (playback.after n).input.source.size ≤
      playback.recordsRead + playback.input.source.size := by
  induction n generalizing playback with
  | zero => exact Nat.le_refl _
  | succ n ih => exact Nat.le_trans (ih playback.next.2) playback.count_next_le

/-- Nothing slips in opening a trace or in reading the next record, whatever the source gives: by
offsets, with all bounds checked, the answers are those of the decoder.  What is taken apart for a
record has just the length that was announced, within the limit, and its number is that of a
kind with a layout, whose fixed length it has if there is one.  Nor can the count of records grow
beyond the size of the source. -/
theorem nothing_slips (source : Source) (playback : Playback) :
    startByOffsets source = .ok (start source) ∧
    playback.nextByOffsets = .ok playback.next ∧
    (∀ placed handover rest,
      Decoder.recordFront playback.input = (.ok (some (placed, .inr handover)), rest) →
        handover.payload.length = handover.length ∧ handover.length ≤ Wire.maxPayloadLength ∧
        Kind.ofWire? handover.number = some handover.kind ∧ handover.kind ≠ .unknown ∧
        (∀ length, handover.kind.fixedLength? = some length → handover.length = length) ∧
        ∃ answer, Offset.event handover.kind handover.payload = .ok answer) ∧
    ∀ n, (playback.after n).recordsRead ≤ playback.recordsRead + playback.input.source.size := by
  refine ⟨startByOffsets_eq source, playback.nextByOffsets_eq, ?_, fun n => ?_⟩
  · intro placed handover rest hfront
    have hsound := Decoder.yields_recordFront playback.input _ rest hfront placed handover rfl
    exact ⟨hsound.length_payload, hsound.length_le, hsound.ofWire?_number, hsound.kind_ne_unknown,
      hsound.fixedLength?, _, Offset.event_of_sound hsound⟩
  · exact Nat.le_trans (Nat.le_add_right _ _) (playback.count_after_le n)

/-- A data event with the largest length of data that can be announced, but no data.  The sum of
the lengths is beyond 32 bits, and the event is refused. -/
theorem nothing_slips_announced :
    let playback : Playback :=
      ⟨⟨.ofBytes [0, 0, 0, 0, 0, 3, 0, 0, 0, 8, 0, 1, 0, 2, 255, 255, 255, 255], []⟩, 1, 0, 0⟩
    let handover : Decoder.Handover := ⟨3, 8, .monitorData, [0, 1, 0, 2, 255, 255, 255, 255]⟩
    (∃ rest, Decoder.recordFront playback.input = (.ok (some (.empty, .inr handover)), rest)) ∧
      handover.payload.length = 8 ∧ Kind.ofWire? 3 = some .monitorData ∧
      (∃ after, playback.nextByOffsets =
        .ok (.error (.inconsistent Kind.monitorData.label 8 4294967303), after)) ∧
      ∀ n, (playback.after n).recordsRead ≤ playback.input.source.size := by
  intro playback handover
  have hfront : Decoder.recordFront playback.input =
      (.ok (some (.empty, .inr handover)), (Decoder.recordFront playback.input).2) :=
    Prod.ext (by decide +kernel) rfl
  obtain ⟨-, hnext, hhandover, hcount⟩ := nothing_slips playback.input.source playback
  obtain ⟨hlength, -, hkind, -⟩ := hhandover _ _ _ hfront
  refine ⟨⟨_, hfront⟩, hlength, hkind, ⟨playback.next.2, ?_⟩, fun n => ?_⟩
  · have hanswer : playback.next.1 =
        .error (.inconsistent Kind.monitorData.label 8 4294967303) := by decide +kernel
    rw [hnext, ← hanswer]
  · have hle := hcount n
    rwa [show playback.recordsRead = 0 from rfl, Nat.zero_add] at hle

end Playback

end StateTrace
