import StateTrace.Proofs.Byte.Filling
import StateTrace.Proofs.Playback.Run
import StateTrace.Proofs.Wire.DecodedScope
import StateTrace.Proofs.Wire.Encoding
import StateTrace.Recording

/-!
# What is recorded can be read

A sink that never fills takes a record whole or, if the record is refused, is left
alone (`append_of_recordBytes`, `append_of_unwritable`).  What it took is read back as
the record, bit for bit, unless the reader does not allow the length of its payload.
There are such records, and `append_oversized_not_read` is one of them: the recorder
checks that a length fits its field, and the reader checks it against a limit that is
much lower.

`playback_recording` follows a whole trace.  Records that are refused leave no trace,
so reading gives the records that were accepted, in order, up to the first one that
the reader does not allow.
-/

namespace StateTrace.Recording

open Wire
open Sink (write_of_roomy)

/-! ## Starting a trace -/

/-- The parts of a header are written as one. -/
theorem start_eq (major minor : UInt32) :
    start major minor = Sink.write (headerBytes major minor) := by
  rw [headerBytes, List.append_assoc, ← Sink.write_bind_write, ← Sink.write_bind_write]
  rfl

/-! ## Appending one record -/

section Append
variable {r : Record} {sink : Sink}

theorem append_of_ok {w : List UInt8} (h : recordBytes r = .ok w) : append r = Sink.write w := by
  rw [append, h]

theorem append_of_error {error : EncodeError} (h : recordBytes r = .error error) (sink : Sink) :
    append r sink = (.error error.toStreamError, sink) := by
  rw [append, h]
  rfl

theorem append_of_recordBytes {w : List UInt8} (hroom : sink.room = none)
    (h : recordBytes r = .ok w) :
    append r sink = (.ok (), { sink with written := sink.written ++ w }) := by
  rw [append_of_ok h]
  exact write_of_roomy hroom w

/-- A record that is refused leaves the sink as it was. -/
theorem append_of_unwritable (sink : Sink) (h : Unwritable r.event) :
    ∃ error : StreamError, append r sink = (.error error, sink) ∧ error.kind = .invalidInput := by
  obtain ⟨error, herror⟩ : ∃ error, recordBytes r = .error error := recordBytes_eq_error h
  exact ⟨error.toStreamError, append_of_error herror sink, rfl⟩

/-- A record that is not refused is written whole. -/
theorem append_of_writable (hroom : sink.room = none) (hscope : r.scope.Plain)
    (h : ¬Unwritable r.event) :
    ∃ w, recordBytes r = .ok w ∧
      append r sink = (.ok (), { sink with written := sink.written ++ w }) := by
  obtain ⟨w, hw⟩ := exists_recordBytes hscope h
  exact ⟨w, hw, append_of_recordBytes hroom hw⟩

/-- Only records that cannot be written are refused. -/
theorem append_ok_iff (hroom : sink.room = none) (hscope : r.scope.Plain) :
    (append r sink).1 = .ok () ↔ ¬Unwritable r.event := by
  constructor
  · intro hok h
    obtain ⟨error, happend, -⟩ := append_of_unwritable sink h
    rw [happend] at hok
    cases hok
  · intro h
    obtain ⟨w, -, happend⟩ := append_of_writable hroom hscope h
    rw [happend]

end Append

/-- What appending a record to a sink that never fills does, and what reading from the
start of its bytes then gives.  The record is read back unless its payload is longer
than the reader allows, and only then is it written and cannot be read. -/
theorem append_reads_back {scope : Scope} (event : Event) (hscope : scope.Reachable)
    (hknown : scope.flags.contains .unknown = false) {sink : Sink} (hroom : sink.room = none) :
    let outcome := append ⟨scope, event⟩ sink
    (outcome.1 = .ok () ↔ ¬Unwritable event) ∧
      (Unwritable event → outcome.2 = sink ∧
        ∃ error, outcome.1 = .error error ∧ error.kind = .invalidInput) ∧
      (outcome.1 = .ok () → ∃ w, outcome.2.bytes = sink.bytes ++ w ∧
        ∀ (playback : Playback) (after : List UInt8),
          playback.input.source.Delivers (w ++ after) →
            (playback.next.1 = .ok (some ⟨scope, event⟩) ↔ ¬Oversized event) ∧
            (Oversized event → playback.next.1 =
              .error (.tooLarge "event payload" (payloadLength event) maxPayloadLength))) := by
  intro outcome
  have hplain := hscope.hasForm.plain hknown
  have hok : outcome.1 = .ok () ↔ ¬Unwritable event := append_ok_iff hroom hplain
  refine ⟨hok, fun h => ?_, fun hwritten => ?_⟩
  · obtain ⟨error, happend, hkind⟩ := append_of_unwritable (r := ⟨scope, event⟩) sink h
    have houtcome : outcome = (.error error, sink) := happend
    rw [houtcome]
    exact ⟨rfl, error, rfl, hkind⟩
  · obtain ⟨w, hw, happend⟩ :=
      append_of_writable (r := ⟨scope, event⟩) hroom hplain (hok.mp hwritten)
    have houtcome : outcome = (.ok (), { sink with written := sink.written ++ w }) := happend
    rw [houtcome]
    refine ⟨w, by simp [Sink.bytes], fun playback after hdelivers => ?_⟩
    have hrefused : Oversized event → playback.next.1 =
        .error (.tooLarge "event payload" (payloadLength event) maxPayloadLength) := by
      intro hsize
      obtain ⟨rest, hrefuses⟩ := refuses_recordBytes hplain hw hsize after
      exact (Playback.next_of_gives hdelivers (Decoder.gives_refused hrefuses)).1
    refine ⟨⟨fun hread hsize => ?_, fun hsize => ?_⟩, hrefused⟩
    · cases hread.symm.trans (hrefused hsize)
    · have hspells := spells_recordBytes hplain hw hsize
      exact (Playback.next_of_gives hdelivers (Decoder.gives_spelled hspells after)).1

/-- A record with a NaN and a little data is read back bit for bit. -/
theorem append_reads_back_nan :
    let r : Record := ⟨.simulation ⟨0x7ff8000000000001⟩, .monitorData ⟨1, 2, [0xff]⟩⟩
    ∃ w, (append r .unlimited).2.bytes = w ∧
      ∀ playback : Playback, playback.input.source.Delivers w →
        playback.next.1 = .ok (some r) := by
  intro r
  have hroom : Sink.unlimited.room = none := rfl
  have hreachable : r.scope.Reachable := .built (.simulation _)
  obtain ⟨-, -, hread⟩ := append_reads_back r.event hreachable (by decide) hroom
  obtain ⟨w, hbytes, hnext⟩ := hread rfl
  refine ⟨w, hbytes, fun playback hdelivers => ?_⟩
  rw [← List.append_nil w] at hdelivers
  refine (hnext playback [] hdelivers).1.mpr ?_
  rintro ⟨_, ⟨⟩, hlt⟩
  exact absurd hlt (by decide)

/-- Data that fits its length field and not the limit of the reader is written, and it
cannot be read. -/
theorem append_of_oversized {scope : Scope} {sink : Sink} (payload : MonitorData)
    (hscope : scope.Plain) (hsize : maxPayloadLength - 8 < payload.data.length)
    (hfits : 8 + payload.data.length < lengthLimit) (hroom : sink.room = none) :
    let outcome := append ⟨scope, .monitorData payload⟩ sink
    outcome.1 = .ok () ∧ ∃ w, outcome.2.bytes = sink.bytes ++ w ∧
      ∀ playback : Playback, playback.input.source.Delivers w →
        playback.next.1 =
          .error (.tooLarge "event payload" (8 + payload.data.length) maxPayloadLength) := by
  intro outcome
  have hwritable : ¬Unwritable (.monitorData payload) := by
    rintro (⟨raw, hraw, -⟩ | ⟨_, ⟨⟩, hle⟩)
    · cases hraw
    · exact absurd hfits (Nat.not_lt.mpr hle)
  obtain ⟨w, hw, happend⟩ :=
    append_of_writable (r := ⟨scope, .monitorData payload⟩) hroom hscope hwritable
  have houtcome : outcome = (.ok (), { sink with written := sink.written ++ w }) := happend
  rw [houtcome]
  refine ⟨rfl, w, by simp [Sink.bytes], fun playback hdelivers => ?_⟩
  obtain ⟨rest, hrefuses⟩ := refuses_recordBytes hscope hw ⟨payload, rfl, hsize⟩ []
  rw [List.append_nil] at hrefuses
  exact (Playback.next_of_gives hdelivers (Decoder.gives_refused hrefuses)).1

/-- The shortest such data: 1048569 bytes. -/
theorem append_oversized_not_read :
    let r : Record := ⟨.empty, .monitorData ⟨1, 2, List.replicate 1048569 0⟩⟩
    (append r .unlimited).1 = .ok () ∧
      ∀ playback : Playback, playback.input.source.Delivers (append r .unlimited).2.bytes →
        playback.next.1 = .error (.tooLarge "event payload" 1048577 1048576) := by
  have hlength : (List.replicate 1048569 (0 : UInt8)).length = 1048569 := List.length_replicate
  -- Only the length matters, and the list stays closed.
  generalize List.replicate 1048569 (0 : UInt8) = data at hlength ⊢
  intro r
  have hsize : maxPayloadLength - 8 < data.length := by
    rw [hlength]
    decide
  have hfits : 8 + data.length < lengthLimit := by
    rw [hlength]
    decide
  have hroom : Sink.unlimited.room = none := rfl
  obtain ⟨hok, w, hbytes, hread⟩ :=
    append_of_oversized ⟨1, 2, data⟩ Scope.Built.empty.plain hsize hfits hroom
  refine ⟨hok, fun playback hdelivers => ?_⟩
  rw [hbytes] at hdelivers
  have hnext := hread playback hdelivers
  rwa [hlength] at hnext

/-! ## Recording a trace -/

/-- The records whose results are good. -/
def accepted : List Record → List (Except StreamError Unit) → List Record
  | r :: records, .ok () :: results => r :: accepted records results
  | _ :: records, .error _ :: results => accepted records results
  | _, _ => []

theorem appendAll_cons (r : Record) (records : List Record) (sink : Sink) :
    appendAll (r :: records) sink =
      ((append r sink).1 :: (appendAll records (append r sink).2).1,
        (appendAll records (append r sink).2).2) := by
  rw [appendAll, List.mapM_cons]
  rfl

/-- Each record that is accepted leaves its bytes, and the others leave nothing. -/
theorem exists_entries {records : List Record} (hscopes : ∀ r ∈ records, r.scope.Plain)
    {sink : Sink} (hroom : sink.room = none) :
    ∃ entries : List (Record × List UInt8),
      (∀ entry ∈ entries, entry.1.scope.Plain ∧ recordBytes entry.1 = .ok entry.2) ∧
        accepted records (appendAll records sink).1 = entries.map Prod.fst ∧
        (appendAll records sink).2.bytes = sink.bytes ++ entries.flatMap Prod.snd ∧
        (appendAll records sink).2.room = none := by
  induction records generalizing sink with
  | nil => exact ⟨[], fun _ h => absurd h List.not_mem_nil, rfl, (List.append_nil _).symm, hroom⟩
  | cons r records ih =>
      rw [appendAll_cons]
      have hrest := fun q hq => hscopes q (List.mem_cons_of_mem r hq)
      have hscope := hscopes r List.mem_cons_self
      by_cases h : Unwritable r.event
      · obtain ⟨error, happend, -⟩ := append_of_unwritable sink h
        rw [happend]
        exact ih hrest hroom
      · obtain ⟨w, hw, happend⟩ := append_of_writable hroom hscope h
        rw [happend]
        obtain ⟨entries, hentries, haccepted, hbytes, hroom'⟩ := ih hrest (show
          ({ sink with written := sink.written ++ w } : Sink).room = none from hroom)
        refine ⟨(r, w) :: entries, ?_, ?_, ?_, hroom'⟩
        · intro entry he
          rcases List.mem_cons.mp he with rfl | he
          · exact ⟨hscope, hw⟩
          · exact hentries entry he
        · rw [accepted, haccepted, List.map_cons]
        · rw [hbytes, List.flatMap_cons, Sink.bytes, Sink.bytes]
          simp

/-! ## Reading it back -/

section Reading
variable {entries : List (Record × List UInt8)} {playback : Playback}

theorem spells_entries
    (hentries : ∀ entry ∈ entries, entry.1.scope.Plain ∧ recordBytes entry.1 = .ok entry.2)
    (hsize : ∀ entry ∈ entries, ¬Oversized entry.1.event) :
    ∀ entry ∈ entries, Spells entry.1 entry.2 :=
  fun entry he => spells_recordBytes (hentries entry he).1 (hentries entry he).2 (hsize entry he)

/-- If the reader allows all records, it gives them all and then nothing. -/
theorem answers_recorded
    (hentries : ∀ entry ∈ entries, entry.1.scope.Plain ∧ recordBytes entry.1 = .ok entry.2)
    (hsize : ∀ entry ∈ entries, ¬Oversized entry.1.event)
    (h : playback.input.source.Delivers (entries.flatMap Prod.snd)) (n : Nat) :
    playback.answers (entries.length + n) =
      entries.map (fun entry => .ok (some entry.1)) ++ List.replicate n (.ok none) := by
  rw [← List.append_nil (entries.flatMap Prod.snd)] at h
  obtain ⟨rest, hrest, hanswers⟩ :=
    Playback.exists_answers_append (spells_entries hentries hsize) h
  rw [hanswers, Playback.answers_nothing hrest]

/-- The first record that the reader does not allow is answered with its error. -/
theorem answers_recorded_oversized {entry : Record × List UInt8}
    {more : List (Record × List UInt8)}
    (hentries : ∀ e ∈ entries ++ entry :: more, e.1.scope.Plain ∧ recordBytes e.1 = .ok e.2)
    (hsize : ∀ e ∈ entries, ¬Oversized e.1.event) (hlarge : Oversized entry.1.event)
    (h : playback.input.source.Delivers ((entries ++ entry :: more).flatMap Prod.snd)) :
    playback.answers (entries.length + 1) = entries.map (fun e => .ok (some e.1)) ++
      [.error (.tooLarge "event payload" (payloadLength entry.1.event) maxPayloadLength)] := by
  rw [List.flatMap_append, List.flatMap_cons] at h
  have hbefore := fun e he => hentries e (List.mem_append_left _ he)
  obtain ⟨hscope, hbytes⟩ := hentries entry (List.mem_append_right _ List.mem_cons_self)
  obtain ⟨rest, hrest, hanswers⟩ :=
    Playback.exists_answers_append (spells_entries hbefore hsize) h
  obtain ⟨left, hrefuses⟩ := refuses_recordBytes hscope hbytes hlarge (more.flatMap Prod.snd)
  rw [hanswers, Playback.answers, Playback.answers,
    (Playback.next_of_gives hrest (Decoder.gives_refused hrefuses)).1]

end Reading

/-- A whole trace.  Appending fails just for the records that cannot be written, and
then the sink stays as it was.  Reading gives the accepted records in order, bit for
bit, and then nothing.  If one of them is longer than the reader allows, reading gives
those before the first such record, and then its error. -/
theorem playback_recording (minor : UInt32) {records : List Record}
    (hscopes : ∀ r ∈ records, r.scope.Built) {sink : Sink} (hroom : sink.room = none)
    (hempty : sink.bytes = []) :
    let started := start majorVersion minor sink
    let outcome := appendAll records started.2
    let kept := accepted records outcome.1
    started.1 = .ok () ∧
      (∀ before r after, records = before ++ r :: after →
        let reached := (appendAll before started.2).2
        ((append r reached).1 = .ok () ↔ ¬Unwritable r.event) ∧
          (Unwritable r.event → (append r reached).2 = reached)) ∧
      ∀ source : Source, source.Delivers outcome.2.bytes →
        ∃ playback, Playback.start source = .ok playback ∧ playback.major = majorVersion ∧
          playback.minor = minor ∧
          ((∀ r ∈ kept, ¬Oversized r.event) → ∀ n,
            playback.answers (kept.length + n) =
              kept.map (fun r => .ok (some r)) ++ List.replicate n (.ok none)) ∧
          ∀ before r payload after, kept = before ++ r :: after →
            (∀ q ∈ before, ¬Oversized q.event) → r.event = .monitorData payload →
            maxPayloadLength - 8 < payload.data.length →
            playback.answers (before.length + 1) =
              before.map (fun q => .ok (some q)) ++
                [.error (.tooLarge "event payload" (8 + payload.data.length) maxPayloadLength)] := by
  intro started outcome kept
  have hplain : ∀ r ∈ records, r.scope.Plain := fun r hr => (hscopes r hr).plain
  have hstarted : started =
      (.ok (), { sink with written := sink.written ++ headerBytes majorVersion minor }) := by
    rw [← write_of_roomy hroom, ← start_eq]
  have hroom' : started.2.room = none := by
    rw [hstarted]
    exact hroom
  obtain ⟨entries, hentries, hkept, hbytes, -⟩ := exists_entries hplain hroom'
  refine ⟨by rw [hstarted], ?_, ?_⟩
  · intro before r after hsplit reached
    have hmem : ∀ q ∈ before ++ r :: after, q.scope.Plain := hsplit ▸ hplain
    have hr := hmem r (List.mem_append_right _ List.mem_cons_self)
    obtain ⟨-, -, -, -, hreached⟩ :=
      exists_entries (fun q hq => hmem q (List.mem_append_left _ hq)) hroom'
    refine ⟨append_ok_iff hreached hr, fun h => ?_⟩
    obtain ⟨error, happend, -⟩ := append_of_unwritable reached h
    rw [happend]
  · intro source hdelivers
    have htrace : outcome.2.bytes =
        headerBytes majorVersion minor ++ entries.flatMap Prod.snd := by
      rw [hbytes, hstarted]
      simp [Sink.bytes] at hempty ⊢
      simp [hempty]
    rw [htrace] at hdelivers
    obtain ⟨playback, hstart, hmajor, hminor, hrest⟩ := Playback.start_header hdelivers
    have hkept' : kept = entries.map Prod.fst := hkept
    refine ⟨playback, hstart, hmajor, hminor, fun hsize n => ?_, ?_⟩
    · have hsizes : ∀ entry ∈ entries, ¬Oversized entry.1.event := fun entry he =>
        hsize entry.1 (hkept' ▸ List.mem_map_of_mem he)
      rw [hkept', List.length_map, List.map_map]
      exact answers_recorded hentries hsizes hrest n
    · intro before r payload after hsplit hsize hr hlarge
      rw [hkept'] at hsplit
      obtain ⟨first, others, rfl, rfl, hothers⟩ := List.map_eq_append_iff.mp hsplit
      obtain ⟨entry, more, rfl, rfl, rfl⟩ := List.map_eq_cons_iff.mp hothers
      have hsizes : ∀ e ∈ first, ¬Oversized e.1.event := fun e he =>
        hsize e.1 (List.mem_map_of_mem he)
      have hanswers := answers_recorded_oversized hentries hsizes ⟨payload, hr, hlarge⟩ hrest
      rw [List.length_map, List.map_map]
      rw [hr] at hanswers
      exact hanswers

/-- A record that is refused between two that are kept, under a newer minor version. -/
theorem playback_recording_refused :
    let first : Record := ⟨.simulation ⟨0x8000000000000000⟩, .monitorData ⟨1, 2, [0xff]⟩⟩
    let second : Record := ⟨.forNode 3 ⟨4, ⟨0x7ff8000000000001⟩⟩, .unknown 7⟩
    let started := start majorVersion 9 .unlimited
    let trace := (appendAll [first, ⟨.empty, .unknown 6⟩, second] started.2).2.bytes
    ∃ playback, Playback.start (.ofBytes trace) = .ok playback ∧
      playback.answers 3 = [.ok (some first), .ok (some second), .ok none] := by
  intro first second started trace
  have hscopes : ∀ r ∈ [first, ⟨.empty, .unknown 6⟩, second], r.scope.Built :=
    List.forall_mem_cons.mpr ⟨.simulation _, List.forall_mem_cons.mpr
      ⟨.empty, List.forall_mem_singleton.mpr (.forNode _ _)⟩⟩
  have hroom : Sink.unlimited.room = none := rfl
  have hempty : Sink.unlimited.bytes = [] := rfl
  obtain ⟨-, -, hread⟩ := playback_recording 9 hscopes hroom hempty
  obtain ⟨playback, hstart, -, -, hanswers, -⟩ := hread _ (Source.delivers_ofBytes trace)
  refine ⟨playback, hstart, hanswers ?_ 1⟩
  -- The record in the middle is not among those that are kept.
  have hfirst : ¬Oversized first.event := by
    rintro ⟨_, ⟨⟩, hlt⟩
    exact absurd hlt (by decide)
  have hsecond : ¬Oversized second.event := by
    rintro ⟨_, hpayload, -⟩
    cases hpayload
  exact List.forall_mem_cons.mpr ⟨hfirst, List.forall_mem_singleton.mpr hsecond⟩

end StateTrace.Recording
