import Mathlib.Data.List.Basic
import StateTrace.Proofs.Playback.Content
import StateTrace.Proofs.Playback.Pieces

/-!
# Traces that go on and traces that are cut

Two traces of which one is the beginning of the other start with the same records, and
`drain_prefix_stable` says how far the agreement goes.  It is the comparison of contents
(`Content.isPrefix`, `Content.append`, `Content.append_failed` and `Content.take`), carried
over to playbacks.  For this both traces have to open, and they do because the header is read
before anything else (`start_of_header`).

Places in a trace are counted in bytes from its start.  They are what the source no longer
has, so the place of a record is where the playback stands after it (`place_after`).
-/

namespace StateTrace.Playback

open Wire

section Start
variable {source : Source} {bytes : List UInt8} {opened : Playback}

/-- A trace that opens has a whole header, and the same header opens any other trace. -/
theorem start_of_header (h : source.Delivers bytes) (hstart : start source = .ok opened) :
    headerLength ≤ bytes.length ∧ opened.input.source.Delivers (bytes.drop headerLength) ∧
      ∀ (other : Source) (rest : List UInt8), other.Delivers (bytes.take headerLength ++ rest) →
        ∃ reopened, start other = .ok reopened ∧ reopened.major = opened.major ∧
          reopened.minor = opened.minor ∧ reopened.input.source.Delivers rest := by
  rw [start_eq] at hstart
  rcases Nat.lt_or_ge bytes.length headerLength with hlt | hge
  · have hshort : Decoder.Gives Decoder.header bytes (.error .truncated) [] :=
      (Decoder.wants_exactly hlt).bind.gives
    rw [(hshort ⟨source, []⟩ h).1] at hstart
    cases hstart
  · obtain ⟨answer, htakes⟩ := Decoder.exists_takes_header (List.length_take_of_le hge)
    rw [← List.take_append_drop headerLength bytes] at h
    obtain ⟨hanswer, hrest⟩ := htakes.gives (bytes.drop headerLength) ⟨source, []⟩ h
    rw [hanswer] at hstart
    cases answer with
    | error error => cases hstart
    | ok versions =>
        cases hstart
        refine ⟨hge, hrest, fun other rest hother => ?_⟩
        obtain ⟨hanswer', hrest'⟩ := htakes.gives rest ⟨other, []⟩ hother
        refine ⟨⟨(Decoder.header ⟨other, []⟩).2, versions.1, versions.2, 0⟩, ?_, rfl, rfl, hrest'⟩
        rw [start_eq, hanswer']
        rfl

/-- After some records a playback stands at the end of their entries. -/
theorem place_after {entries : List (Record × List UInt8)} {error : Option ReadError}
    (hlength : headerLength ≤ bytes.length)
    (hopened : opened.input.source.Delivers (bytes.drop headerLength))
    (hcontent : Content (bytes.drop headerLength) entries error) {n : Nat}
    (hn : n ≤ entries.length) :
    bytes.length - (opened.after n).input.source.pending.length =
      headerLength + extent (entries.take n) := by
  have hpending := congrArg List.length (hcontent.delivers_after hopened hn).pending_eq
  have hextent := hcontent.extent_le
  have htake := extent_take_le hn entries
  rw [List.length_drop, List.length_drop] at hpending
  rw [List.length_drop] at hextent
  rw [List.take_length] at htake
  omega

end Start

/-- Draining a trace, draining one that goes on behind it, and draining one that is cut.
An error of the trace stays when it goes on, unless the trace was too short, and then its
records stay.  After its end there comes what a playback of the rest gives.  Of a trace
without an error, a cut behind the header leaves the records that end at the cut or before
it, and then the end if one of them ends there, and a truncated trace if not. -/
theorem drain_prefix_stable {source : Source} {bytes : List UInt8} {opened : Playback}
    (hsource : source.Delivers bytes) (hstart : start source = .ok opened) :
    let records := opened.drain.1
    let error := opened.drain.2.1
    let place n := bytes.length - (opened.after n).input.source.pending.length
    (∀ (more : List UInt8) (longer : Source), longer.Delivers (bytes ++ more) →
      ∃ reopened, start longer = .ok reopened ∧ reopened.major = opened.major ∧
        reopened.minor = opened.minor ∧
        (∀ failure, error = some failure → failure ≠ .truncated →
          reopened.drain.1 = records ∧ reopened.drain.2.1 = some failure) ∧
        (error = none → ∀ behind : Playback, behind.input.source.Delivers more →
          reopened.drain.1 = records ++ behind.drain.1 ∧
            reopened.drain.2.1 = behind.drain.2.1) ∧
        (error = some .truncated → records <+: reopened.drain.1)) ∧
      place 0 = headerLength ∧
      (error = none → ∀ k, headerLength ≤ k → k ≤ bytes.length →
        ∀ shorter : Source, shorter.Delivers (bytes.take k) →
          ∃ cut, start shorter = .ok cut ∧ cut.major = opened.major ∧ cut.minor = opened.minor ∧
            ∃ count ≤ records.length, (∀ i < records.length, i < count ↔ place (i + 1) ≤ k) ∧
              cut.drain.1 = records.take count ∧
              cut.drain.2.1 =
                if ∃ n ≤ records.length, place n = k then none else some .truncated) := by
  intro records error place
  obtain ⟨hlength, hopened, hreopen⟩ := start_of_header hsource hstart
  obtain ⟨entries, ending, hcontent⟩ := exists_content (bytes.drop headerLength)
  obtain ⟨hdrained, hended⟩ := hcontent.drain hopened
  have hrecords : records = entries.map Prod.fst := hdrained
  have hcount : records.length = entries.length := by rw [hrecords, List.length_map]
  have herror : error = ending := hended
  have hplace : ∀ n ≤ entries.length, place n = headerLength + extent (entries.take n) :=
    fun n hn => place_after hlength hopened hcontent hn
  rw [herror, hcount]
  refine ⟨fun more longer hlonger => ?_, hplace 0 (Nat.zero_le _), ?_⟩
  · have hsplit : bytes ++ more =
        bytes.take headerLength ++ (bytes.drop headerLength ++ more) := by
      rw [← List.append_assoc, List.take_append_drop]
    rw [hsplit] at hlonger
    obtain ⟨reopened, hrestart, hmajor, hminor, hrest⟩ := hreopen longer _ hlonger
    refine ⟨reopened, hrestart, hmajor, hminor, ?_, ?_, fun _ => ?_⟩
    · intro failure hfailure hne
      subst hfailure
      rw [hrecords]
      exact (hcontent.append_failed hne more).drain hrest
    · intro hnone behind hbehind
      subst hnone
      obtain ⟨others, last, hothers⟩ := exists_content more
      obtain ⟨hbehindRecords, hbehindError⟩ := hothers.drain hbehind
      obtain ⟨hall, hlast⟩ := (hcontent.append hothers).drain hrest
      rw [hall, hlast, hbehindRecords, hbehindError, hrecords, List.map_append]
      exact ⟨rfl, rfl⟩
    · obtain ⟨all, last, hall⟩ := exists_content (bytes.drop headerLength ++ more)
      rw [(hall.drain hrest).1, hrecords]
      exact (hcontent.isPrefix hall).map Prod.fst
  · intro hnone k hheader hk shorter hshorter
    subst hnone
    have hsplit : bytes.take k =
        bytes.take headerLength ++ (bytes.drop headerLength).take (k - headerLength) := by
      rw [← List.take_add, Nat.add_sub_cancel' hheader]
    rw [hsplit] at hshorter
    obtain ⟨cut, hcutStart, hmajor, hminor, hrest⟩ := hreopen shorter _ hshorter
    obtain ⟨count, hle, hends, hcut⟩ := hcontent.take (k := k - headerLength) (by
      rw [List.length_drop]
      omega)
    obtain ⟨hcutRecords, hcutError⟩ := hcut.drain hrest
    refine ⟨cut, hcutStart, hmajor, hminor, count, hle, fun i hi => ?_, ?_, ?_⟩
    · have hend := hends (i + 1) hi
      rw [hplace (i + 1) hi]
      omega
    · rw [hcutRecords, hrecords, List.map_take]
    · have hboundary : (∃ n ≤ entries.length, place n = k) ↔
          extent (entries.take count) = k - headerLength := by
        rw [extent_take_eq_iff hle hends]
        refine exists_congr fun n => and_congr_right fun hn => ?_
        rw [hplace n hn]
        omega
      simp only [hboundary]
      exact hcutError

/-- A trace of two records.  A byte behind its end makes it truncated, and so does a cut
inside the second record. -/
theorem drain_prefix_stable_inside :
    let first : Record := ⟨.empty, .monitorState ⟨1, 2, 3⟩⟩
    let second : Record := ⟨.empty, .nodeCreate⟩
    let bytes := headerBytes majorVersion 7 ++
      [0, 0, 0, 0, 0, 2, 0, 0, 0, 6, 0, 1, 0, 2, 0, 3, 0, 0, 0, 0, 0, 4, 0, 0, 0, 0]
    ∃ longer cut, start (.ofBytes (bytes ++ [0])) = .ok longer ∧
      longer.drain.1 = [first, second] ∧ longer.drain.2.1 = some .truncated ∧
      start (.ofBytes (bytes.take 31)) = .ok cut ∧
      cut.drain.1 = [first] ∧ cut.drain.2.1 = some .truncated := by
  intro first second bytes
  let opened : Playback := ⟨⟨.ofBytes (bytes.drop headerLength), []⟩, majorVersion, 7, 0⟩
  have hstart : start (.ofBytes bytes) = .ok opened := by decide +kernel
  have hplays : opened.Plays [first, second] none (opened.after 3) :=
    plays_of_answers (by decide +kernel)
  obtain ⟨hmore, -, hcut⟩ := drain_prefix_stable (Source.delivers_ofBytes bytes) hstart
  rw [hplays.drain] at hmore hcut
  obtain ⟨longer, hlonger, -, -, -, hbehind, -⟩ := hmore [0] _ (Source.delivers_ofBytes _)
  let behind : Playback := ⟨⟨.ofBytes [0], []⟩, majorVersion, 7, 0⟩
  have hfailed : behind.Plays [] (some .truncated) (behind.after 1) :=
    plays_of_answers (by decide +kernel)
  obtain ⟨hrecords, herror⟩ := hbehind rfl behind (Source.delivers_ofBytes [0])
  rw [hfailed.drain] at hrecords herror
  obtain ⟨cut, hshorter, -, -, count, hle, hends, hkept, hended⟩ :=
    hcut rfl 31 (by decide) (by decide) _ (Source.delivers_ofBytes _)
  -- The first record ends at 28, and the second one at 38.
  have hfirst := (hends 0 (by decide)).mpr (by decide +kernel)
  have hsecond := mt (hends 1 (by decide)).mp (by decide +kernel)
  have hcount : count = 1 := by omega
  rw [hcount] at hkept
  rw [if_neg (by decide +kernel)] at hended
  exact ⟨longer, cut, hlonger, hrecords, herror, hshorter, hkept, hended⟩

end StateTrace.Playback
