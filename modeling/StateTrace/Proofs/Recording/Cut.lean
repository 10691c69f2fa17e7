import Mathlib.Data.List.Infix
import StateTrace.Proofs.Recording.RoundTrip

/-!
# Traces cut by a full sink

Records are appended to a sink that may fill at any byte, and appending goes on after
every failure.  A record that is refused leaves nothing in the sink.  Every other one is
written, as far as it fits.  So the sink is left as one write of all encodings would
leave it (`appendAll_snd`), and the records that are accepted are the first ones that
have an encoding, up to the first that does not fit (`exists_kept`).

`playback_cut` puts this together with reading.  What is left of a record that was cut
is a truncated trace, and a trace that was cut between two records just ends there.
-/

namespace StateTrace.Recording

open Wire

/-- The records that are not refused, each with its bytes. -/
def encodings (records : List Record) : List (Record × List UInt8) :=
  records.filterMap fun r =>
    match recordBytes r with
    | .ok w => some (r, w)
    | .error _ => none

/-- Where a trace can end between two records: after the header, and after each record. -/
def boundaries (entries : List (Record × List UInt8)) : List Nat :=
  entries.inits.map fun whole => headerLength + (whole.flatMap Prod.snd).length

/-- A refused record makes no boundary. -/
example : boundaries (encodings [⟨.empty, .nodeCreate⟩, ⟨.empty, .unknown 0⟩,
    ⟨.empty, .monitorState ⟨1, 2, 3⟩⟩]) = [12, 22, 38] := by decide +kernel

section Encodings
variable {r : Record} {w : List UInt8}

theorem encodings_of_ok (h : recordBytes r = .ok w) (records : List Record) :
    encodings (r :: records) = (r, w) :: encodings records := by
  simp [encodings, h]

theorem encodings_of_error {error : EncodeError} (h : recordBytes r = .error error)
    (records : List Record) : encodings (r :: records) = encodings records := by
  simp [encodings, h]

/-- No record has an empty encoding. -/
theorem recordBytes_ne_nil (h : recordBytes r = .ok w) : w ≠ [] := by
  intro hnil
  subst hnil
  cases hevent : eventBytes r.event with
  | error error => simp [recordBytes, hevent, bind, Except.bind] at h
  | ok event =>
      have hbytes : scopeBytes r.scope ++ event = [] := by
        rw [recordBytes, hevent] at h
        exact Except.ok.inj h
      have hlength := congrArg List.length hbytes
      simp [scopeBytes] at hlength

end Encodings

/-! ## Appending to a sink that may fill -/

/-- All records together leave what one write of all their bytes leaves. -/
theorem appendAll_snd (records : List Record) (sink : Sink) :
    (appendAll records sink).2 =
      (Sink.write ((encodings records).flatMap Prod.snd) sink).2 := by
  induction records generalizing sink with
  | nil =>
      show sink = (Sink.write [] sink).2
      rw [Sink.write_nil]
  | cons r records ih =>
      rw [appendAll_cons]
      cases h : recordBytes r with
      | error error => rw [append_of_error h, encodings_of_error h, ih]
      | ok w => rw [append_of_ok h, encodings_of_ok h, List.flatMap_cons, Sink.write_append, ih]

/-- The result of a record depends on the records before it alone. -/
theorem appendAll_getElem? (before : List Record) (r : Record) (after : List Record) (sink : Sink) :
    (appendAll (before ++ r :: after) sink).1[before.length]? =
      some (append r (appendAll before sink).2).1 := by
  induction before generalizing sink with
  | nil =>
      rw [List.nil_append, appendAll_cons]
      rfl
  | cons q before ih =>
      rw [List.cons_append, appendAll_cons, appendAll_cons, List.length_cons,
        List.getElem?_cons_succ, ih]

/-- A record whose bytes fit behind all that was written is accepted. -/
theorem append_of_fits {r : Record} {done w : List UInt8} {sink : Sink}
    (h : recordBytes r = .ok w) (hfits : sink.Fits (done ++ w)) :
    (append r (Sink.write done sink).2).1 = .ok () := by
  rw [append_of_ok h, Sink.write_eq_ok_iff, Sink.fits_write]
  exact .inr hfits

/-- Any other record fails with the error of the full sink. -/
theorem append_of_not_fits {r : Record} {done w : List UInt8} {sink : Sink}
    (h : recordBytes r = .ok w) (hfull : ¬sink.Fits (done ++ w)) :
    (append r (Sink.write done sink).2).1 = .error sink.refusal.error := by
  have hw : ¬(Sink.write done sink).2.Fits w := by
    rw [Sink.fits_write, not_or]
    exact ⟨recordBytes_ne_nil h, hfull⟩
  have hrefusal : (Sink.write done sink).2.refusal = sink.refusal := by rw [Sink.write_snd]
  rw [append_of_ok h, Sink.write_of_not_fits_all hw, hrefusal]

/-- What comes of a record after others, and after a header. -/
theorem appendAll_result (header : List UInt8) (before : List Record) (r : Record)
    (after : List Record) (sink : Sink) :
    let results := (appendAll (before ++ r :: after) (Sink.write header sink).2).1
    let done := header ++ (encodings before).flatMap Prod.snd
    (∀ error, recordBytes r = .error error →
      results[before.length]? = some (.error error.toStreamError)) ∧
    ∀ w, recordBytes r = .ok w →
      (sink.Fits (done ++ w) → results[before.length]? = some (.ok ())) ∧
      (¬sink.Fits (done ++ w) → results[before.length]? = some (.error sink.refusal.error)) := by
  intro results done
  have hresult : results[before.length]? = some (append r (Sink.write done sink).2).1 := by
    rw [Sink.write_append, ← appendAll_snd]
    exact appendAll_getElem? before r after (Sink.write header sink).2
  rw [hresult]
  refine ⟨fun error h => ?_, fun w h => ⟨fun hfits => ?_, fun hfull => ?_⟩⟩
  · rw [append_of_error h]
  · rw [append_of_fits h hfits]
  · rw [append_of_not_fits h hfull]

/-- A full sink accepts no record. -/
theorem accepted_of_full (records : List Record) {sink : Sink} (h : sink.Full) :
    accepted records (appendAll records sink).1 = [] := by
  induction records generalizing sink with
  | nil => rfl
  | cons r records ih =>
      rw [appendAll_cons]
      cases hbytes : recordBytes r with
      | error error =>
          rw [append_of_error hbytes, accepted]
          exact ih h
      | ok w =>
          have hw : ¬sink.Fits w := fun hfits => recordBytes_ne_nil hbytes (h w hfits)
          rw [append_of_ok hbytes, Sink.write_of_not_fits_all hw, accepted]
          exact ih (h.write w)

/-- The accepted records are the first ones that have an encoding, as many as fit whole. -/
theorem exists_kept (records : List Record) (sink : Sink) :
    ∃ kept lost, encodings records = kept ++ lost ∧
      accepted records (appendAll records sink).1 = kept.map Prod.fst ∧
      sink.Fits (kept.flatMap Prod.snd) ∧
      ∀ entry others, lost = entry :: others →
        ¬(Sink.write (kept.flatMap Prod.snd) sink).2.Fits entry.2 := by
  induction records generalizing sink with
  | nil => exact ⟨[], [], rfl, rfl, sink.fits_nil, nofun⟩
  | cons r records ih =>
      rw [appendAll_cons]
      cases hbytes : recordBytes r with
      | error error =>
          rw [append_of_error hbytes, encodings_of_error hbytes, accepted]
          exact ih sink
      | ok w =>
          rw [append_of_ok hbytes, encodings_of_ok hbytes]
          by_cases hw : sink.Fits w
          · obtain ⟨kept, lost, hsplit, haccepted, hfits, hfull⟩ := ih (Sink.write w sink).2
            refine ⟨(r, w) :: kept, lost, ?_, ?_, ?_, ?_⟩
            · rw [hsplit, List.cons_append]
            · rw [Sink.write_eq_ok_iff.mpr hw, accepted, haccepted, List.map_cons]
            · rw [List.flatMap_cons]
              rcases (Sink.fits_write w _ sink).mp hfits with hnil | hboth
              · rw [hnil, List.append_nil]
                exact hw
              · exact hboth
            · rw [List.flatMap_cons, Sink.write_append]
              exact hfull
          · -- From here on the sink is full.
            have hnone := accepted_of_full records (Sink.full_of_not_fits hw)
            refine ⟨[], (r, w) :: encodings records, rfl, ?_, sink.fits_nil, ?_⟩
            · rw [Sink.write_of_not_fits_all hw, accepted, hnone]
              rfl
            · intro entry others hlost
              cases hlost
              rw [List.flatMap_nil, Sink.write_nil]
              exact hw

/-! ## What is left of the trace -/

/-- The part of entries that a sink takes in which the first one does not fit. -/
inductive CutOff : List (Record × List UInt8) → List UInt8 → Prop
  | nothing : CutOff [] []
  | inside {entry : Record × List UInt8} {others : List (Record × List UInt8)}
      {part missing : List UInt8} :
      missing ≠ [] → part ++ missing = entry.2 → CutOff (entry :: others) part

theorem cutOff_fitting {lost : List (Record × List UInt8)} {sink : Sink}
    (h : ∀ entry others, lost = entry :: others → ¬sink.Fits entry.2) :
    CutOff lost (sink.fitting (lost.flatMap Prod.snd)) := by
  cases lost with
  | nil =>
      rw [List.flatMap_nil, Sink.fitting_of_fits sink.fits_nil]
      exact .nothing
  | cons entry others =>
      have hentry := h entry others rfl
      obtain ⟨missing, hmissing, hpart⟩ := Sink.exists_missing hentry
      rw [List.flatMap_cons, Sink.fitting_append_of_not_fits hentry]
      exact .inside hmissing hpart

theorem mem_boundaries {n : Nat} {entries : List (Record × List UInt8)} :
    n ∈ boundaries entries ↔ ∃ whole others, entries = whole ++ others ∧
      headerLength + (whole.flatMap Prod.snd).length = n := by
  simp only [boundaries, List.mem_map, List.mem_inits]
  constructor
  · rintro ⟨whole, ⟨others, hsplit⟩, hlength⟩
    exact ⟨whole, others, hsplit.symm, hlength⟩
  · rintro ⟨whole, others, hsplit, hlength⟩
    exact ⟨whole, ⟨others, hsplit.symm⟩, hlength⟩

/-- A trace that was cut ends at a boundary just if nothing is left of the first record
that was cut off. -/
theorem CutOff.mem_boundaries_iff {lost : List (Record × List UInt8)} {part : List UInt8}
    (h : CutOff lost part) (kept : List (Record × List UInt8)) :
    headerLength + (kept.flatMap Prod.snd ++ part).length ∈ boundaries (kept ++ lost) ↔
      part = [] := by
  rw [mem_boundaries]
  constructor
  · rintro ⟨whole, others, hsplit, hlength⟩
    cases h with
    | nothing => rfl
    | @inside entry lost part missing hmissing hpart =>
        have hpos := List.length_pos_iff.mpr hmissing
        have hentry := congrArg List.length hpart
        rw [List.length_append] at hentry hlength
        rcases List.append_eq_append_iff.mp hsplit with ⟨more, rfl, hmore⟩ | ⟨more, rfl, hmore⟩
        · cases more with
          | nil =>
              rw [List.append_nil] at hlength
              exact List.length_eq_zero_iff.mp (by omega)
          | cons first more =>
              cases hmore
              rw [List.flatMap_append, List.flatMap_cons, List.length_append,
                List.length_append] at hlength
              omega
        · rw [List.flatMap_append, List.length_append] at hlength
          exact List.length_eq_zero_iff.mp (by omega)
  · intro hpart
    subst hpart
    exact ⟨kept, lost, rfl, by rw [List.append_nil]⟩

/-- Reading a trace that was cut gives the records before the cut, and then the end if
nothing is left of the next one. -/
theorem answers_cut {kept lost : List (Record × List UInt8)} {part : List UInt8}
    (hspells : ∀ entry ∈ kept ++ lost, Spells entry.1 entry.2) (hcut : CutOff lost part)
    {playback : Playback} (h : playback.input.source.Delivers (kept.flatMap Prod.snd ++ part)) :
    playback.answers (kept.length + 1) = kept.map (fun entry => .ok (some entry.1)) ++
      [if part = [] then .ok none else .error .truncated] := by
  have hgives : Decoder.Gives Decoder.record? part
      (if part = [] then .ok none else .error .truncated) [] := by
    cases hcut with
    | nothing => exact Decoder.gives_nothing
    | @inside entry others part missing hmissing hpart =>
        have hentry := hspells entry (List.mem_append_right _ List.mem_cons_self)
        rw [← hpart] at hentry
        exact Decoder.gives_cut hentry hmissing
  obtain ⟨rest, hrest, hanswers⟩ := Playback.exists_answers_append
    (fun entry he => hspells entry (List.mem_append_left _ he)) h
  rw [hanswers, Playback.answers, Playback.answers, (Playback.next_of_gives hrest hgives).1]

/-- A trace that was cut behind its header starts, and gives what was kept of it. -/
theorem start_fitting (minor : UInt32) {whole lost : List (Record × List UInt8)} {sink : Sink}
    (hspells : ∀ entry ∈ whole ++ lost, Spells entry.1 entry.2) :
    let header := headerBytes majorVersion minor
    let started := (Sink.write header sink).2
    let cut := sink.fitting (header ++ (whole ++ lost).flatMap Prod.snd)
    sink.Fits header → started.Fits (whole.flatMap Prod.snd) →
      (∀ entry others, lost = entry :: others →
        ¬(Sink.write (whole.flatMap Prod.snd) started).2.Fits entry.2) →
      ∀ source : Source, source.Delivers cut →
        ∃ playback, Playback.start source = .ok playback ∧ playback.major = majorVersion ∧
          playback.minor = minor ∧ playback.answers (whole.length + 1) =
            whole.map (fun entry => .ok (some entry.1)) ++
              [if cut.length ∈ boundaries (whole ++ lost) then .ok none else .error .truncated] := by
  intro header started cut hheader hfits hfull source hdelivers
  have hcut := cutOff_fitting hfull
  have htrace : cut = header ++ (whole.flatMap Prod.snd ++
      (Sink.write (whole.flatMap Prod.snd) started).2.fitting (lost.flatMap Prod.snd)) := by
    show sink.fitting _ = _
    rw [Sink.fitting_append hheader, List.flatMap_append, Sink.fitting_append hfits]
  generalize (Sink.write (whole.flatMap Prod.snd) started).2.fitting (lost.flatMap Prod.snd) =
    part at hcut htrace
  rw [htrace] at hdelivers
  obtain ⟨playback, hstart, hmajor, hminor, hrest⟩ := Playback.start_header hdelivers
  have hboundary : cut.length ∈ boundaries (whole ++ lost) ↔ part = [] := by
    rw [htrace, List.length_append, length_headerBytes]
    exact hcut.mem_boundaries_iff whole
  refine ⟨playback, hstart, hmajor, hminor, ?_⟩
  rw [answers_cut hspells hcut hrest]
  simp only [hboundary]

theorem spells_encodings {records : List Record} (hscopes : ∀ r ∈ records, r.scope.Plain)
    (hsizes : ∀ r ∈ records, ¬Oversized r.event) :
    ∀ entry ∈ encodings records, Spells entry.1 entry.2 := by
  intro entry hentry
  obtain ⟨r, hr, hmatch⟩ := List.mem_filterMap.mp hentry
  cases hbytes : recordBytes r with
  | error error =>
      rw [hbytes] at hmatch
      cases hmatch
  | ok w =>
      rw [hbytes] at hmatch
      cases hmatch
      exact spells_recordBytes (hscopes r hr) hbytes (hsizes r hr)

/-- A trace that is recorded into a sink of any room, with appending going on after every
failure.  The sink holds the first bytes of the whole trace.  The header fails just if
there is no room for it.  A record fails if it is refused, or if its bytes end beyond
the room.  Reading gives the records that were accepted and then the end, or a truncated
trace if the room does not end at a boundary. -/
theorem playback_cut (minor : UInt32) {records : List Record}
    (hscopes : ∀ r ∈ records, r.scope.Reachable ∧ r.scope.flags.contains .unknown = false)
    (hsizes : ∀ r ∈ records, ¬Oversized r.event) {sink : Sink} (hempty : sink.bytes = []) :
    let header := headerBytes majorVersion minor
    let trace := header ++ (encodings records).flatMap Prod.snd
    let started := start majorVersion minor sink
    let outcome := appendAll records started.2
    let kept := accepted records outcome.1
    (started.1 = .ok () ↔ ∀ limit, sink.room = some limit → headerLength ≤ limit) ∧
      (started.1 ≠ .ok () → started.2.bytes = sink.fitting trace) ∧
      (started.1 = .ok () →
        outcome.2.bytes = sink.fitting trace ∧
        (∀ before r after, records = before ++ r :: after →
          (Unwritable r.event → ∃ error : StreamError,
            outcome.1[before.length]? = some (.error error) ∧ error.kind = .invalidInput) ∧
          (¬Unwritable r.event → ∃ w, recordBytes r = .ok w ∧
            let upTo := header ++ (encodings before).flatMap Prod.snd ++ w
            (sink.Fits upTo → outcome.1[before.length]? = some (.ok ())) ∧
            (¬sink.Fits upTo →
              outcome.1[before.length]? = some (.error sink.refusal.error)))) ∧
        kept <+: (encodings records).map Prod.fst ∧
        ∀ source : Source, source.Delivers outcome.2.bytes →
          ∃ playback, Playback.start source = .ok playback ∧ playback.major = majorVersion ∧
            playback.minor = minor ∧ playback.answers (kept.length + 1) =
              kept.map (fun r => .ok (some r)) ++
                [if (sink.fitting trace).length ∈ boundaries (encodings records) then .ok none
                  else .error .truncated]) := by
  intro header trace started outcome kept
  have hplain : ∀ r ∈ records, r.scope.Plain := fun r hr =>
    (hscopes r hr).1.hasForm.plain (hscopes r hr).2
  have hstarted : started = Sink.write header sink := congrFun (start_eq majorVersion minor) sink
  have hok : started.1 = .ok () ↔ sink.Fits header := by
    rw [hstarted, Sink.write_eq_ok_iff]
  have hroom : sink.Fits header ↔ ∀ limit, sink.room = some limit → headerLength ≤ limit := by
    rw [Sink.Fits, length_headerBytes]
  refine ⟨hok.trans hroom, fun hfailed => ?_, fun hwritten => ?_⟩
  · have hfull : ¬sink.Fits header := fun hfits => hfailed (hok.mpr hfits)
    rw [Sink.fitting_append_of_not_fits hfull, hstarted, Sink.bytes_write, hempty,
      List.nil_append]
  have hheader := hok.mp hwritten
  have hbytes : outcome.2.bytes = sink.fitting trace := by
    have hall : outcome.2 = (Sink.write trace sink).2 := by
      rw [Sink.write_append, ← hstarted]
      exact appendAll_snd records started.2
    rw [hall, Sink.bytes_write, hempty, List.nil_append]
  obtain ⟨whole, lost, hsplit, haccepted, hfits, hfull⟩ := exists_kept records started.2
  have hkept : kept = whole.map Prod.fst := haccepted
  refine ⟨hbytes, ?_, ?_, ?_⟩
  · intro before r after hrecords
    obtain ⟨hrefused, hresult⟩ := appendAll_result header before r after sink
    rw [← hrecords, ← hstarted] at hrefused hresult
    refine ⟨fun h => ?_, fun h => ?_⟩
    · obtain ⟨error, herror⟩ : ∃ error, recordBytes r = .error error := recordBytes_eq_error h
      exact ⟨error.toStreamError, hrefused error herror, rfl⟩
    · have hr : r ∈ records := hrecords ▸ List.mem_append_right _ List.mem_cons_self
      obtain ⟨w, hw⟩ : ∃ w, recordBytes r = .ok w := exists_recordBytes (hplain r hr) h
      exact ⟨w, hw, hresult w hw⟩
  · rw [hkept, hsplit, List.map_append]
    exact List.prefix_append _ _
  · intro source hdelivers
    have hspells := spells_encodings hplain hsizes
    rw [hbytes] at hdelivers
    rw [hsplit] at hspells ⊢
    rw [hkept, List.length_map, List.map_map]
    have hcut : trace = header ++ (whole ++ lost).flatMap Prod.snd := by
      rw [← hsplit]
    rw [hcut] at hdelivers ⊢
    rw [hstarted] at hfits hfull
    exact start_fitting minor hspells hheader hfits hfull source hdelivers

/-- A sink that fills inside the time of a node.  The record that is refused before it makes
no difference, and what is left of the last record is a truncated trace. -/
theorem playback_cut_inside :
    let first : Record := ⟨.simulation ⟨0x7ff8000000000001⟩, .monitorData ⟨1, 2, [0xff]⟩⟩
    let records := [first, ⟨.empty, .unknown 6⟩, ⟨.forNode 3 ⟨4, ⟨5⟩⟩, .nodeCreate⟩]
    let sink : Sink := ⟨#[], some 52, .takesNothing, none⟩
    let started := start majorVersion 9 sink
    let outcome := appendAll records started.2
    outcome.1 = [.ok (), .error ⟨.invalidInput, "event type 6 cannot be written as an unknown event"⟩,
      .error .writeZero] ∧
    ∃ playback, Playback.start (.ofBytes outcome.2.bytes) = .ok playback ∧
      playback.answers 2 = [.ok (some first), .error .truncated] := by
  intro first records sink started outcome
  have hscopes : ∀ r ∈ records, r.scope.Reachable ∧ r.scope.flags.contains .unknown = false :=
    List.forall_mem_cons.mpr ⟨⟨.built (.simulation _), by decide⟩, List.forall_mem_cons.mpr
      ⟨⟨.built .empty, by decide⟩, List.forall_mem_singleton.mpr
        ⟨.built (.forNode _ _), by decide⟩⟩⟩
  have hsizes : ∀ r ∈ records, ¬Oversized r.event := by
    intro r hr
    rw [oversized_iff]
    revert r
    decide
  have hempty : sink.bytes = [] := rfl
  obtain ⟨-, -, hwritten⟩ := playback_cut 9 hscopes hsizes hempty
  obtain ⟨-, -, -, hread⟩ := hwritten rfl
  obtain ⟨playback, hstart, -, -, hanswers⟩ := hread _ (Source.delivers_ofBytes _)
  have hkept : accepted records outcome.1 = [first] := by decide +kernel
  have hinside : (sink.fitting (headerBytes majorVersion 9 ++
      (encodings records).flatMap Prod.snd)).length ∉ boundaries (encodings records) := by
    decide +kernel
  rw [hkept, if_neg hinside] at hanswers
  exact ⟨by decide +kernel, playback, hstart, hanswers⟩

end StateTrace.Recording
