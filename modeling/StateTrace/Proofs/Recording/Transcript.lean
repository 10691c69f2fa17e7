import StateTrace.Proofs.Playback.Content
import StateTrace.Proofs.Recording.Cut
import StateTrace.Proofs.Wire.Canonical

/-!
# Transcripts

A transcript has every record of a playback, since everything that was read can be written
(`exists_recordBytes_of_spells`).  What it does not have is the unknown parts of scopes and the
payloads of unknown events.  The payloads leave nothing in a record, and of the parts a record
keeps only that there were some.  So reading a transcript gives the same records without that
mark (`Record.withoutUnknown`), and a transcript of a transcript has the same bytes
(`transcribe_normalises`).

A trace whose spellings are canonical loses nothing.  Its transcript is the trace itself
(`append_read_canonical`).
-/

namespace StateTrace

open Wire

/-! ## The mark of unknown parts -/

section WithoutUnknown

theorem ScopeFlags.erase_unknown_ofParts :
    ∀ s n u, (ofParts s n u).erase .unknown = ofParts s n false := by decide

/-- The scope without the mark of unknown parts. -/
def Scope.withoutUnknown (scope : Scope) : Scope :=
  { scope with flags := scope.flags.erase .unknown }

theorem Scope.withoutUnknown_ofParts (simUs : Option Double) (node : Option (UInt16 × NodeTime))
    (unknown : Bool) :
    (ofParts simUs node unknown).withoutUnknown = ofParts simUs node false := by
  rw [withoutUnknown, ofParts, ScopeFlags.erase_unknown_ofParts]
  rfl

theorem Scope.HasForm.plain_withoutUnknown {scope : Scope} (h : scope.HasForm) :
    scope.withoutUnknown.Plain := by
  obtain ⟨simUs, node, unknown, rfl⟩ := h
  exact ⟨simUs, node, withoutUnknown_ofParts simUs node unknown⟩

/-- The record without the mark of unknown parts. -/
def Record.withoutUnknown (r : Record) : Record := ⟨r.scope.withoutUnknown, r.event⟩

/-- The mark is not written. -/
theorem recordBytes_withoutUnknown {r : Record} (h : r.scope.HasForm) :
    recordBytes r.withoutUnknown = recordBytes r := by
  obtain ⟨scope, event⟩ := r
  obtain ⟨simUs, node, unknown, rfl⟩ := h
  have hscope : scopeBytes (Scope.ofParts simUs node unknown).withoutUnknown =
      scopeBytes (Scope.ofParts simUs node unknown) := by
    rw [Scope.withoutUnknown_ofParts, scopeBytes_ofParts, scopeBytes_ofParts]
  simp only [recordBytes, Record.withoutUnknown, hscope]

end WithoutUnknown

namespace Recording

/-! ## Records that were read -/

/-- A record that was read can be written, and its mark of unknown parts makes no difference.
Without the mark, the bytes spell the record. -/
theorem exists_recordBytes_of_spells {r : Record} {w : List UInt8} (h : Spells r w) :
    ∃ v, recordBytes r = .ok v ∧ recordBytes r.withoutUnknown = .ok v ∧
      Spells r.withoutUnknown v := by
  have hplain := h.hasForm.plain_withoutUnknown
  obtain ⟨v, hv⟩ : ∃ v, recordBytes r.withoutUnknown = .ok v :=
    exists_recordBytes hplain h.not_unwritable
  have hr := recordBytes_withoutUnknown h.hasForm
  exact ⟨v, hr.symm.trans hv, hv, spells_recordBytes hplain hv h.not_oversized⟩

section Records
variable {records : List Record}

/-- What is written for records that were read, in entries of the records without the mark. -/
theorem exists_rewritten (h : ∀ r ∈ records, ∃ w, Spells r w) :
    ∃ entries : List (Record × List UInt8),
      entries.map Prod.fst = records.map Record.withoutUnknown ∧
        entries.flatMap Prod.snd = (encodings records).flatMap Prod.snd ∧
        ∀ entry ∈ entries, recordBytes entry.1 = .ok entry.2 ∧ Spells entry.1 entry.2 := by
  induction records with
  | nil => exact ⟨[], rfl, rfl, fun _ he => absurd he List.not_mem_nil⟩
  | cons r records ih =>
      obtain ⟨w, hw⟩ := h r List.mem_cons_self
      obtain ⟨v, hr, hv⟩ := exists_recordBytes_of_spells hw
      obtain ⟨entries, hrecords, hbytes, hentries⟩ := ih fun q hq => h q (List.mem_cons_of_mem r hq)
      refine ⟨(r.withoutUnknown, v) :: entries, ?_, ?_, List.forall_mem_cons.mpr ⟨hv, hentries⟩⟩
      · rw [List.map_cons, List.map_cons, hrecords]
      · rw [encodings_of_ok hr, List.flatMap_cons, List.flatMap_cons, hbytes]

/-- Entries with the bytes that are written are all of the encodings. -/
theorem encodings_map_fst {entries : List (Record × List UInt8)}
    (h : ∀ entry ∈ entries, recordBytes entry.1 = .ok entry.2) :
    encodings (entries.map Prod.fst) = entries := by
  induction entries with
  | nil => rfl
  | cons entry entries ih =>
      rw [List.map_cons, encodings_of_ok (h entry List.mem_cons_self),
        ih fun e he => h e (List.mem_cons_of_mem entry he)]

/-- Appending succeeds for all records that can be written. -/
theorem appendAll_fst (h : ∀ r ∈ records, ∃ w, recordBytes r = .ok w) {sink : Sink}
    (hroom : sink.room = none) :
    (appendAll records sink).1 = List.replicate records.length (.ok ()) := by
  induction records generalizing sink with
  | nil => rfl
  | cons r records ih =>
      obtain ⟨w, hw⟩ := h r List.mem_cons_self
      have hrest := fun q hq => h q (List.mem_cons_of_mem r hq)
      have hroom' : ({ sink with written := sink.written ++ w } : Sink).room = none := hroom
      rw [appendAll_cons, append_of_recordBytes hroom hw, ih hrest hroom', List.length_cons,
        List.replicate_succ]

/-- What a whole recording leaves in a sink that never fills. -/
theorem bytes_recorded (records : List Record) {sink : Sink} (hroom : sink.room = none)
    (hempty : sink.bytes = []) :
    (appendAll records (start majorVersion minorVersion sink).2).2.bytes =
      headerBytes majorVersion minorVersion ++ (encodings records).flatMap Prod.snd := by
  rw [appendAll_snd, start_eq, ← Sink.write_append, Sink.bytes_write,
    Sink.fitting_of_fits (Sink.fits_of_room_none hroom _), hempty, List.nil_append]

end Records

/-! ## Transcripts -/

/-- The bytes of a transcript. -/
theorem bytes_transcribe (playback : Playback) :
    (transcribe playback).sink.bytes =
      headerBytes majorVersion minorVersion ++ (encodings playback.drain.1).flatMap Prod.snd :=
  bytes_recorded playback.drain.1 rfl rfl

/-- Reading a transcript gives its records without the mark of unknown parts, and then the
end.  Recorded again they have the same bytes. -/
theorem exists_start_transcribe (playback : Playback) {source : Source}
    (hsource : source.Delivers (transcribe playback).sink.bytes) :
    ∃ again, Playback.start source = .ok again ∧
      again.drain.1 = playback.drain.1.map Record.withoutUnknown ∧ again.drain.2.1 = none ∧
      (transcribe again).sink.bytes = (transcribe playback).sink.bytes := by
  obtain ⟨records, error, rest, hplays⟩ := playback.exists_plays
  obtain ⟨entries, hentries, hbytes, hrewritten⟩ := exists_rewritten hplays.exists_spells
  rw [bytes_transcribe, hplays.drain, ← hbytes] at hsource ⊢
  obtain ⟨again, hstart, -, -, hdelivers⟩ := Playback.start_header hsource
  have hcontent := content_of_spells fun entry he => (hrewritten entry he).2
  obtain ⟨hagain, hend⟩ := hcontent.drain hdelivers
  refine ⟨again, hstart, hagain.trans hentries, hend, ?_⟩
  rw [bytes_transcribe, hagain, encodings_map_fst fun entry he => (hrewritten entry he).1]

/-- The transcript of a playback, whatever its source does.  It has the records that the
playback gives up to its end or its first error.  All of them are written, into any sink that
never fills.  Reading the transcript gives them in order, bit for bit but for the mark of
unknown parts, and then the end.  A transcript of what is read then has the same bytes. -/
theorem transcribe_normalises (playback : Playback) :
    let transcript := transcribe playback
    let trace := transcript.sink.bytes
    (∃ rest, playback.Plays transcript.records transcript.error rest) ∧
      (∀ sink : Sink, sink.room = none → sink.bytes = [] →
        let started := start majorVersion minorVersion sink
        let outcome := appendAll transcript.records started.2
        started.1 = .ok () ∧
          outcome.1 = List.replicate transcript.records.length (.ok ()) ∧
          outcome.2.bytes = trace) ∧
      ∀ source : Source, source.Delivers trace →
        ∃ again, Playback.start source = .ok again ∧
          again.drain.1 = transcript.records.map Record.withoutUnknown ∧
          again.drain.2.1 = none ∧ (transcribe again).sink.bytes = trace := by
  intro transcript trace
  obtain ⟨records, error, rest, hplays⟩ := playback.exists_plays
  have hrecords : transcript.records = records := congrArg Prod.fst hplays.drain
  have herror : transcript.error = error := congrArg (fun drained => drained.2.1) hplays.drain
  refine ⟨⟨rest, ?_⟩, fun sink hroom hempty => ?_, fun source => exists_start_transcribe playback⟩
  · rw [hrecords, herror]
    exact hplays
  · intro started outcome
    have hstarted : started = (.ok (),
        { sink with written := sink.written ++ headerBytes majorVersion minorVersion }) := by
      rw [← Sink.write_of_roomy hroom, ← start_eq]
    have hroom' : started.2.room = none := by
      rw [hstarted]
      exact hroom
    have hwritable : ∀ r ∈ transcript.records, ∃ w, recordBytes r = .ok w := by
      rw [hrecords]
      intro r hr
      obtain ⟨w, hw⟩ := hplays.exists_spells r hr
      obtain ⟨v, hv, -⟩ := exists_recordBytes_of_spells hw
      exact ⟨v, hv⟩
    have hbytes : outcome.2.bytes = trace :=
      (bytes_recorded transcript.records hroom hempty).trans (bytes_transcribe playback).symm
    exact ⟨by rw [hstarted], appendAll_fst hwritable hroom', hbytes⟩

/-- A source that fails inside the second record.  The first one is written without the mark
of its unknown part. -/
theorem transcribe_normalises_marked :
    let source : Source := ⟨[.bytes (headerBytes majorVersion 3 ++ [0, 0, 0, 1, 0, 1, 0xaa, 0, 4]),
      .fault ⟨.interrupted, ""⟩, .bytes [0, 0, 0, 0, 0, 0], .fault .permissionDenied]⟩
    ∃ playback again, Playback.start source = .ok playback ∧
      (transcribe playback).records = [⟨Scope.empty.withUnknown, .nodeCreate⟩] ∧
      (transcribe playback).error = some (.stream .permissionDenied) ∧
      Playback.start (.ofBytes (transcribe playback).sink.bytes) = .ok again ∧
      again.drain.1 = [⟨.empty, .nodeCreate⟩] ∧
      (transcribe again).sink.bytes = (transcribe playback).sink.bytes := by
  intro source
  let playback : Playback := ⟨⟨⟨[.bytes [0, 0, 0, 1, 0, 1, 0xaa, 0, 4],
    .fault ⟨.interrupted, ""⟩, .bytes [0, 0, 0, 0, 0, 0], .fault .permissionDenied]⟩, []⟩,
    majorVersion, 3, 0⟩
  have hstart : Playback.start source = .ok playback := by decide +kernel
  have hplays : playback.Plays [⟨Scope.empty.withUnknown, .nodeCreate⟩]
      (some (.stream .permissionDenied)) (playback.after 2) :=
    Playback.plays_of_answers (by decide +kernel)
  obtain ⟨⟨rest, hcourse⟩, -, hread⟩ := transcribe_normalises playback
  obtain ⟨hrecords, herror, -⟩ := hcourse.unique hplays
  obtain ⟨again, hagain, hsame, -, hbytes⟩ := hread _ (Source.delivers_ofBytes _)
  rw [hrecords] at hsame
  exact ⟨playback, again, hstart, hrecords, herror, hagain, hsame, hbytes⟩

/-! ## Canonical traces -/

/-- A record is read from just these bytes at the start of what the source delivers. -/
def ReadsOff (playback : Playback) (w : List UInt8) (r : Record) : Prop :=
  ∃ after, playback.input.source.Delivers (w ++ after) ∧ playback.next.1 = .ok (some r) ∧
    playback.next.2.input.source.Delivers after

/-- The bytes that a record is read from are a spelling of it. -/
theorem ReadsOff.spells {playback : Playback} {w : List UInt8} {r : Record}
    (h : ReadsOff playback w r) : Spells r w := by
  obtain ⟨after, hbefore, hanswer, hafter⟩ := h
  obtain ⟨answer, left, hgives⟩ := Decoder.exists_gives_record (w ++ after)
  obtain ⟨hgiven, hleft⟩ := Playback.next_of_gives hbefore hgives
  have hsame := hleft.unique hafter
  rw [← hgiven, hanswer, hsame] at hgives
  obtain ⟨v, hspells, hsplit⟩ := Decoder.spells_of_gives hgives
  rw [List.append_cancel_right hsplit]
  exact hspells

/-- Bytes that a record is read from and that are canonical are what is written for the
record.  So no record is read from two canonical byte lists, and a trace of the current
version that has nothing but canonical records is its own transcript. -/
theorem append_read_canonical :
    (∀ (playback : Playback) (w : List UInt8) (r : Record),
      ReadsOff playback w r → Canonical r w → ∀ sink : Sink, sink.room = none →
        append r sink = (.ok (), { sink with written := sink.written ++ w })) ∧
      (∀ (playback other : Playback) (w v : List UInt8) (r : Record),
        ReadsOff playback w r → Canonical r w → ReadsOff other v r → Canonical r v → w = v) ∧
      ∀ entries : List (Record × List UInt8),
        (∀ entry ∈ entries, Canonical entry.1 entry.2 ∧
          ∃ playback, ReadsOff playback entry.2 entry.1) →
        let trace := headerBytes majorVersion minorVersion ++ entries.flatMap Prod.snd
        ∀ source : Source, source.Delivers trace →
          ∃ playback, Playback.start source = .ok playback ∧
            playback.drain.1 = entries.map Prod.fst ∧ playback.drain.2.1 = none ∧
            (transcribe playback).sink.bytes = trace := by
  refine ⟨fun playback w r hread hcanonical sink hroom => ?_,
    fun playback other w v r hread hcanonical hread' hcanonical' => ?_, ?_⟩
  · exact append_of_recordBytes hroom (hread.spells.recordBytes_of_canonical hcanonical)
  · have hw := hread.spells.recordBytes_of_canonical hcanonical
    have hv := hread'.spells.recordBytes_of_canonical hcanonical'
    exact Except.ok.inj (hw.symm.trans hv)
  · intro entries hentries trace source hsource
    have hspells : ∀ entry ∈ entries, Spells entry.1 entry.2 := by
      intro entry he
      obtain ⟨-, playback, hread⟩ := hentries entry he
      exact hread.spells
    obtain ⟨playback, hstart, -, -, hdelivers⟩ := Playback.start_header hsource
    obtain ⟨hrecords, hend⟩ := (content_of_spells hspells).drain hdelivers
    have hbytes : ∀ entry ∈ entries, recordBytes entry.1 = .ok entry.2 := fun entry he =>
      (hspells entry he).recordBytes_of_canonical (hentries entry he).1
    refine ⟨playback, hstart, hrecords, hend, ?_⟩
    rw [bytes_transcribe, hrecords, encodings_map_fst hbytes]

/-- A trace of one record with a NaN as its time, and of data. -/
theorem append_read_canonical_nan :
    let r : Record := ⟨.simulation ⟨0x7ff8000000000001⟩, .monitorData ⟨1, 2, [0xff]⟩⟩
    let w : List UInt8 := [0, 0, 0, 2, 0x7f, 0xf8, 0, 0, 0, 0, 0, 1, 0, 3, 0, 0, 0, 9,
      0, 1, 0, 2, 0, 0, 0, 1, 0xff]
    ∃ playback, Playback.start (.ofBytes (headerBytes majorVersion minorVersion ++ w)) =
        .ok playback ∧
      playback.drain.1 = [r] ∧
      (transcribe playback).sink.bytes = headerBytes majorVersion minorVersion ++ w := by
  intro r w
  have hcanonical : Canonical r w :=
    ⟨⟨_, partsOf (some ⟨0x7ff8000000000001⟩) none, 3, 9⟩, [0, 1, 0, 2, 0, 0, 0, 1, 0xff],
      by decide, by decide, fun hkind => nomatch hkind⟩
  let reading : Playback := ⟨⟨.ofBytes w, []⟩, majorVersion, minorVersion, 0⟩
  have hread : ReadsOff reading w r := by
    have hrest : reading.next.2.input.source = .ofBytes [] := by decide +kernel
    refine ⟨[], Source.delivers_ofBytes w, by decide +kernel, ?_⟩
    rw [hrest]
    exact Source.delivers_ofBytes []
  obtain ⟨-, -, htrace⟩ := append_read_canonical
  obtain ⟨playback, hstart, hrecords, -, hbytes⟩ :=
    htrace [(r, w)] (List.forall_mem_singleton.mpr ⟨hcanonical, reading, hread⟩) _
      (Source.delivers_ofBytes _)
  exact ⟨playback, hstart, hrecords, hbytes⟩

end Recording

end StateTrace
