import Mathlib.Data.List.Basic
import StateTrace.Proofs.Playback.Course
import StateTrace.Proofs.Playback.Pieces

/-!
# One fault of a source

A source fails once, at some place behind the header, and goes on after it.  Its playback
runs abreast of one of the same bytes without the fault (`Abreast`), one record after the
other, until it meets the fault (`Abreast.next`).  A record that lies before the fault is
given, since what comes after a record makes no difference to it.  A record that the fault
is in is not given, and what was read of it is gone.  So the next attempt starts right
behind the fault.

`Plays.meets_or_passes` is the run.  `start_of_fault` states it with positions in the trace.
-/

namespace StateTrace

open Wire

/-- The errors that lie in the bytes themselves and not in their end. -/
def ReadError.isRejection : ReadError → Bool
  | .inconsistent .. | .invalid .. | .tooLarge .. => true
  | _ => false

/-- The answers that what follows cannot change: a record, or a rejection. -/
def settled : Except ReadError (Option Record) → Bool
  | .ok found => found.isSome
  | .error error => error.isRejection

/-! ## Answers that are settled -/

namespace Decoder

/-- What is refused is rejected or at its end. -/
theorem isRejection_or_truncated {bytes after : List UInt8} {error : ReadError}
    (h : Refuses bytes error after) :
    error.isRejection = true ∨ (error = .truncated ∧ after = []) := by
  cases h with
  | head => exact .inr ⟨rfl, rfl⟩
  | event hevent =>
      cases hevent with
      | missing => exact .inr ⟨rfl, rfl⟩
      | _ => exact .inl rfl

/-- An answer that is settled by some bytes is a record or a rejection. -/
theorem settled_of_takes {used : List UInt8} {answer : Except ReadError (Option Record)}
    (h : Takes record? used answer) : settled answer = true := by
  have hgives := h.gives [0]
  rcases spelled_or_refused (used ++ [0]) with hnil | ⟨r, w, after, hspells, hsplit⟩ |
    ⟨error, after, hrefuses⟩
  · simp at hnil
  · rw [hsplit] at hgives
    rw [(hgives.unique (gives_spelled hspells after)).1]
    rfl
  · obtain ⟨hanswer, hafter⟩ := hgives.unique (gives_refused hrefuses)
    rw [hanswer]
    rcases isRejection_or_truncated hrefuses with hrejection | ⟨-, hnil⟩
    · exact hrejection
    · rw [hnil] at hafter
      cases hafter

/-- No answer is settled by nothing. -/
theorem ne_nil_of_takes {used : List UInt8} {answer : Except ReadError (Option Record)}
    (h : Takes record? used answer) : used ≠ [] := by
  intro hnil
  subst hnil
  have hsettled := settled_of_takes h
  rw [((h.gives []).unique gives_nothing).1] at hsettled
  cases hsettled

theorem settled_stopped (bytes : List UInt8) : settled (stopped bytes .drained) = false := by
  cases bytes <;> rfl

end Decoder

namespace Playback

/-- The bytes that a playback has not read. -/
def pending (playback : Playback) : List UInt8 := playback.input.source.pending

/-- A call leaves no more bytes than there were. -/
theorem next_delivers {playback : Playback} {bytes : List UInt8}
    (h : playback.input.source.Delivers bytes) :
    ∃ left, playback.next.2.input.source.Delivers left ∧ left.length ≤ bytes.length := by
  rcases Decoder.record?_takes_or_runsOut bytes with ⟨used, left, answer, hsplit, htakes⟩ | hout
  · rw [hsplit] at h ⊢
    refine ⟨left, (next_of_gives h (htakes.gives left)).2, ?_⟩
    rw [List.length_append]
    omega
  · exact ⟨[], (next_of_gives h hout.gives).2, Nat.zero_le _⟩

/-- No call puts bytes back. -/
theorem length_pending_after_le {playback : Playback} {bytes : List UInt8}
    (h : playback.input.source.Delivers bytes) (n : Nat) :
    (playback.after n).pending.length ≤ bytes.length := by
  induction n generalizing playback bytes with
  | zero => exact Nat.le_of_eq (congrArg List.length h.pending_eq)
  | succ n ih =>
      obtain ⟨left, hleft, hle⟩ := next_delivers h
      exact Nat.le_trans (ih hleft) hle

/-! ## Two playbacks abreast -/

/-- A playback of `before` and `after`, and one whose source fails between them. -/
structure Abreast (plain faulty : Playback) (before : List UInt8) (fault : Answer)
    (after : List UInt8) : Prop where
  delivers : plain.input.source.Delivers (before ++ after)
  fails : faulty.input.source.FailsOnce before fault after
  recordsRead : faulty.recordsRead = plain.recordsRead

/-- The answers that stop gathering, and how it ends at them. -/
inductive HardFault : Answer → Source.Outcome → Prop
  | nothing : HardFault (.bytes []) .drained
  | failed {error : StreamError} :
      error.kind ≠ .interrupted → HardFault (.fault error) (.failed error)

theorem HardFault.stops {fault : Answer} {outcome : Source.Outcome} (h : HardFault fault outcome)
    (later : List Answer) : Source.Stops (fault :: later) outcome later := by
  cases h with
  | nothing => exact .nothing later
  | failed hkind => exact .failed later hkind

section Abreast
variable {plain faulty last : Playback} {before after : List UInt8} {fault : Answer}
  {outcome : Source.Outcome} {records : List Record} {ending : Option ReadError}

/-- Bytes before the fault that settle an answer are taken by both. -/
theorem Abreast.next_of_takes (h : Abreast plain faulty before fault after)
    {used left : List UInt8} {answer : Except ReadError (Option Record)}
    (hsplit : before = used ++ left) (htakes : Decoder.Takes Decoder.record? used answer) :
    faulty.next.1 = plain.next.1 ∧ settled plain.next.1 = true ∧ left.length < before.length ∧
      Abreast plain.next.2 faulty.next.2 left fault after := by
  obtain ⟨later, hstarts, hlater⟩ := h.fails
  have hdelivers := h.delivers
  rw [hsplit, List.append_assoc] at hdelivers
  rw [hsplit] at hstarts
  obtain ⟨hplain, hrest⟩ := next_of_gives hdelivers (htakes.gives (left ++ after))
  obtain ⟨hfaulty, hleft⟩ := htakes faulty.input left (fault :: later) hstarts
  rw [← next_fst] at hfaulty
  rw [← input_next] at hleft
  have hanswers : faulty.next.1 = plain.next.1 := hfaulty.trans hplain.symm
  have hshorter : left.length < before.length := by
    rw [hsplit, List.length_append]
    exact Nat.lt_add_of_pos_left (List.length_pos_iff.mpr (Decoder.ne_nil_of_takes htakes))
  refine ⟨hanswers, ?_, hshorter, hrest, ⟨later, hleft, hlater⟩, ?_⟩
  · rw [hplain]
    exact Decoder.settled_of_takes htakes
  · rw [recordsRead_next, recordsRead_next, h.recordsRead, hanswers]

/-- Bytes before the fault that settle nothing are all taken, and so is the fault.  Without
the fault more bytes are taken, or the trace ends. -/
theorem Abreast.next_of_runsOut (h : Abreast plain faulty before fault after)
    (hfault : HardFault fault outcome)
    (hout : Decoder.RunsOut before) :
    faulty.next.1 = Decoder.stopped before outcome ∧ faulty.next.2.input.source.Delivers after ∧
      (settled plain.next.1 = true → plain.next.2.pending.length < after.length) := by
  obtain ⟨later, hstarts, hlater⟩ := h.fails
  obtain ⟨hfaulty, hsource⟩ := hout faulty.input _ later outcome hstarts (hfault.stops later)
  rw [← next_fst] at hfaulty
  rw [← input_next] at hsource
  refine ⟨hfaulty, by rw [hsource]; exact hlater, fun hsettled => ?_⟩
  rcases Decoder.record?_takes_or_runsOut (before ++ after) with
    ⟨used, left, answer, hsplit, htakes⟩ | hends
  · have hdelivers := h.delivers
    rw [hsplit] at hdelivers
    obtain ⟨-, hleft⟩ := next_of_gives hdelivers (htakes.gives left)
    rw [pending, hleft.pending_eq]
    -- What is taken before the fault would leave the fault where it is.
    have hbeyond : ∀ more, before ≠ used ++ more := by
      intro more hbefore
      rw [hbefore] at hstarts
      have hrest := (htakes faulty.input more (fault :: later) hstarts).2
      rw [← input_next, hsource] at hrest
      exact Source.not_starts_cons hrest
    rcases List.append_eq_append_iff.mp hsplit with ⟨more, hused, hafter⟩ | ⟨more, hbefore, -⟩
    · rw [hafter, List.length_append]
      refine Nat.lt_add_of_pos_left (List.length_pos_iff.mpr fun hnil => ?_)
      rw [hnil, List.append_nil] at hused
      exact hbeyond [] (by rw [hused, List.append_nil])
    · exact absurd hbefore (hbeyond more)
  · rw [(next_of_gives h.delivers hends.gives).1, Decoder.settled_stopped] at hsettled
    cases hsettled

/-- Either both take the same bytes before the fault and give the same settled answer.  Or
the one meets the fault, and the other takes bytes behind it or comes to the end. -/
theorem Abreast.next (h : Abreast plain faulty before fault after)
    (hfault : HardFault fault outcome) :
    (faulty.next.1 = plain.next.1 ∧ settled plain.next.1 = true ∧
      ∃ left, left.length < before.length ∧
        Abreast plain.next.2 faulty.next.2 left fault after) ∨
    (faulty.next.1 = Decoder.stopped before outcome ∧
      faulty.next.2.input.source.Delivers after ∧
      (settled plain.next.1 = true → plain.next.2.pending.length < after.length)) := by
  rcases Decoder.record?_takes_or_runsOut before with ⟨used, left, answer, hsplit, htakes⟩ | hout
  · obtain ⟨hanswers, hsettled, hshorter, hnext⟩ := h.next_of_takes hsplit htakes
    exact .inl ⟨hanswers, hsettled, left, hshorter, hnext⟩
  · exact .inr (h.next_of_runsOut hfault hout)

/-- The one meets the fault after `count` records, with `left` of the next one taken. -/
structure Meets (plain faulty last : Playback) (records : List Record) (ending : Option ReadError)
    (outcome : Source.Outcome) (after : List UInt8) (count : Nat) (left : List UInt8) : Prop where
  count_le : count ≤ records.length
  answers : faulty.answers count = (records.take count).map fun r => .ok (some r)
  before : ∀ n < count, after.length < (plain.after n).pending.length
  reached : (plain.after count).pending = left ++ after
  beyond : ∀ n, count < n → n ≤ records.length → (plain.after n).pending.length < after.length
  ending_beyond : ∀ error, ending = some error → error.isRejection = true →
    last.pending.length < after.length
  fault : (faulty.after count).next.1 = Decoder.stopped left outcome
  rest : (faulty.after count).next.2.input.source.Delivers after

/-- The one ends with a rejection before the fault, and so does the other. -/
structure Passes (plain faulty last : Playback) (records : List Record) (ending : Option ReadError)
    (after : List UInt8) : Prop where
  rejection : ∃ error, ending = some error ∧ error.isRejection = true
  before : after.length ≤ last.pending.length
  answers : ∀ n ≤ records.length + 1, faulty.answers n = plain.answers n
  recordsRead : ∀ n ≤ records.length + 1,
    (faulty.after n).recordsRead = (plain.after n).recordsRead

section Step
variable {middle : Playback} {r : Record} {count : Nat} {left : List UInt8}

theorem after_succ_of_next {answer : Except ReadError (Option Record)}
    (hnext : plain.next = (answer, middle)) (n : Nat) : plain.after (n + 1) = middle.after n := by
  rw [Playback.after, hnext]

/-- The fault is met one record later if another record is before it. -/
theorem Meets.record (h : Meets middle faulty.next.2 last records ending outcome after count left)
    (hnext : plain.next = (.ok (some r), middle)) (hanswer : faulty.next.1 = plain.next.1)
    (hbefore : after.length < plain.pending.length) :
    Meets plain faulty last (r :: records) ending outcome after (count + 1) left where
  count_le := Nat.succ_le_succ h.count_le
  answers := by
    rw [Playback.answers, hanswer, hnext, h.answers, List.take_succ_cons, List.map_cons]
  before := by
    intro n hlt
    cases n with
    | zero => exact hbefore
    | succ n =>
        rw [after_succ_of_next hnext]
        exact h.before n (Nat.lt_of_succ_lt_succ hlt)
  reached := by
    rw [after_succ_of_next hnext]
    exact h.reached
  beyond := by
    intro n hlt hle
    cases n with
    | zero => exact absurd hlt (Nat.not_lt_zero _)
    | succ n =>
        rw [after_succ_of_next hnext]
        exact h.beyond n (Nat.lt_of_succ_lt_succ hlt) (Nat.le_of_succ_le_succ hle)
  ending_beyond := h.ending_beyond
  fault := h.fault
  rest := h.rest

/-- A record before a course that ends before the fault changes nothing. -/
theorem Passes.record (h : Passes middle faulty.next.2 last records ending after)
    (hnext : plain.next = (.ok (some r), middle)) (hanswer : faulty.next.1 = plain.next.1)
    (hcount : faulty.recordsRead = plain.recordsRead) :
    Passes plain faulty last (r :: records) ending after where
  rejection := h.rejection
  before := h.before
  answers := by
    intro n hle
    cases n with
    | zero => rfl
    | succ n =>
        rw [Playback.answers, Playback.answers, hanswer, h.answers n (Nat.le_of_succ_le_succ hle),
          hnext]
  recordsRead := by
    intro n hle
    cases n with
    | zero => exact hcount
    | succ n =>
        rw [after_succ_of_next hnext]
        exact h.recordsRead n (Nat.le_of_succ_le_succ hle)

end Step

/-- The fault is met at once if the bytes before it settle nothing. -/
theorem Abreast.meets (h : Abreast plain faulty before fault after)
    (hanswer : faulty.next.1 = Decoder.stopped before outcome)
    (hrest : faulty.next.2.input.source.Delivers after)
    (hbeyond : ∀ n, 0 < n → n ≤ records.length → (plain.after n).pending.length < after.length)
    (hending : ∀ error, ending = some error → error.isRejection = true →
      last.pending.length < after.length) :
    Meets plain faulty last records ending outcome after 0 before :=
  ⟨Nat.zero_le _, rfl, nofun, h.delivers.pending_eq, hbeyond, hending, hanswer, hrest⟩

/-- A rejection before the fault is the end of both. -/
theorem Abreast.passes (h : Abreast plain faulty before fault after) {error : ReadError}
    {left : List UInt8} (hnext : plain.next = (.error error, last))
    (hrejection : error.isRejection = true) (hanswer : faulty.next.1 = plain.next.1)
    (hleft : Abreast last faulty.next.2 left fault after) :
    Passes plain faulty last [] (some error) after where
  rejection := ⟨error, rfl, hrejection⟩
  before := by
    rw [pending, hleft.delivers.pending_eq, List.length_append]
    exact Nat.le_add_left _ _
  answers := by
    intro n hle
    cases n with
    | zero => rfl
    | succ n =>
        cases Nat.le_zero.mp (Nat.le_of_succ_le_succ hle)
        rw [Playback.answers, Playback.answers, hanswer]
        rfl
  recordsRead := by
    intro n hle
    cases n with
    | zero => exact h.recordsRead
    | succ n =>
        cases Nat.le_zero.mp (Nat.le_of_succ_le_succ hle)
        rw [after_succ_of_next hnext]
        exact hleft.recordsRead

/-- Beside a whole course, the fault is met once or the course ends before it. -/
theorem Plays.meets_or_passes (hplays : plain.Plays records ending last)
    (h : Abreast plain faulty before fault after) (hfault : HardFault fault outcome) :
    (∃ count left, Meets plain faulty last records ending outcome after count left) ∨
      Passes plain faulty last records ending after := by
  induction hplays generalizing faulty before with
  | @complete plain rest hnext =>
      rcases h.next hfault with ⟨-, hsettled, -⟩ | ⟨hanswer, hrest, -⟩
      · rw [hnext] at hsettled
        cases hsettled
      · refine .inl ⟨0, before, h.meets hanswer hrest ?_ nofun⟩
        exact fun n hlt hle => absurd hlt (Nat.not_lt.mpr hle)
  | @failed plain rest error hnext =>
      rcases h.next hfault with ⟨hanswers, hsettled, left, -, hleft⟩ | ⟨hanswer, hrest, hbeyond⟩
      · rw [hnext] at hsettled hleft
        exact .inr (h.passes hnext hsettled hanswers hleft)
      · rw [hnext] at hbeyond
        refine .inl ⟨0, before, h.meets hanswer hrest ?_ ?_⟩
        · exact fun n hlt hle => absurd hlt (Nat.not_lt.mpr hle)
        · intro error' herror hrejection
          cases herror
          exact hbeyond hrejection
  | @record plain middle last r records ending hnext hplays ih =>
      rcases h.next hfault with ⟨hanswers, -, left, hlt, hleft⟩ | ⟨hanswer, hrest, hbeyond⟩
      · have hbefore : after.length < plain.pending.length := by
          rw [pending, h.delivers.pending_eq, List.length_append]
          omega
        rw [hnext] at hleft
        rcases ih hleft with ⟨count, left, hmeets⟩ | hpasses
        · exact .inl ⟨count + 1, left, hmeets.record hnext hanswers hbefore⟩
        · exact .inr (hpasses.record hnext hanswers h.recordsRead)
      · -- The record ends behind the fault, and so does all that follows it.
        obtain ⟨rest, hdelivers, -⟩ := next_delivers h.delivers
        rw [hnext] at hbeyond hdelivers
        have hmiddle : ∀ n, (middle.after n).pending.length < after.length := by
          intro n
          have hle : (middle.after n).pending.length ≤ rest.length :=
            length_pending_after_le hdelivers n
          have hlt := hbeyond rfl
          rw [pending, hdelivers.pending_eq] at hlt
          omega
        refine .inl ⟨0, before, h.meets hanswer hrest ?_ ?_⟩
        · intro n hlt _
          cases n with
          | zero => exact absurd hlt (Nat.lt_irrefl 0)
          | succ n =>
              rw [after_succ_of_next hnext]
              exact hmiddle n
        · intro _ _ _
          rw [← hplays.after]
          exact hmiddle _

/-- The records before the fault are those that end at it or before it. -/
theorem Meets.lt_iff {count : Nat} {left : List UInt8}
    (h : Meets plain faulty last records ending outcome after count left) {i : Nat}
    (hi : i < records.length) :
    i < count ↔ after.length ≤ (plain.after (i + 1)).pending.length := by
  rcases Nat.lt_trichotomy (i + 1) count with hlt | heq | hgt
  · have := h.before _ hlt
    exact iff_of_true (by omega) (by omega)
  · rw [heq, h.reached, List.length_append]
    exact iff_of_true (by omega) (by omega)
  · have := h.beyond _ hgt hi
    exact iff_of_false (by omega) (by omega)

/-- A record could start at the fault just if nothing of the next one was taken. -/
theorem Meets.boundary_iff {count : Nat} {left : List UInt8}
    (h : Meets plain faulty last records ending outcome after count left) :
    (∃ n ≤ records.length, (plain.after n).pending.length = after.length) ↔ left = [] := by
  have hreached := congrArg List.length h.reached
  rw [List.length_append] at hreached
  constructor
  · intro ⟨n, hle, hpending⟩
    rcases Nat.lt_trichotomy n count with hlt | heq | hgt
    · have := h.before n hlt
      omega
    · rw [heq] at hpending
      exact List.length_eq_zero_iff.mp (by omega)
    · have := h.beyond n hgt hle
      omega
  · intro hleft
    rw [hleft, List.length_nil, Nat.zero_add] at hreached
    exact ⟨count, h.count_le, hreached⟩

/-! ## From the header on -/

/-- A fault behind the header does not disturb the header. -/
theorem start_abreast {source plainSource : Source} (hlength : headerLength ≤ before.length)
    (hplain : start plainSource = .ok plain) (hdelivers : plainSource.Delivers (before ++ after))
    (hfails : source.FailsOnce before fault after) :
    ∃ faulty, start source = .ok faulty ∧ faulty.major = plain.major ∧
      faulty.minor = plain.minor ∧
      Abreast plain faulty (before.drop headerLength) fault after := by
  obtain ⟨later, hstarts, hlater⟩ := hfails
  obtain ⟨answer, htakes⟩ :=
    Decoder.exists_takes_header (List.length_take_of_le hlength : (before.take _).length = _)
  rw [← List.take_append_drop headerLength before] at hstarts hdelivers
  rw [List.append_assoc] at hdelivers
  obtain ⟨hanswer, hrest⟩ := htakes.gives _ ⟨plainSource, []⟩ hdelivers
  obtain ⟨hanswer', hrest'⟩ := htakes ⟨source, []⟩ _ _ hstarts
  rw [start_eq, hanswer] at hplain
  rw [start_eq, hanswer']
  cases answer with
  | error error => cases hplain
  | ok versions =>
      cases hplain
      exact ⟨_, rfl, rfl, rfl, hrest, ⟨later, hrest', hlater⟩, rfl⟩

end Abreast

/-- A fault at the position `p` of a trace, behind its header.  If the trace comes to a
rejection before the fault, the fault plays no part.  Otherwise the records that end at or
before the fault are given, and the next answer tells of the fault: its error, or the end
of the trace, which is a truncated trace unless a record could start there.  Then just the
bytes before the fault are gone. -/
theorem start_of_fault {bytes : List UInt8} {plain last : Playback} {records : List Record}
    {ending : Option ReadError} (hplain : start (.ofBytes bytes) = .ok plain)
    (hplays : plain.Plays records ending last) {p : Nat} (hheader : headerLength ≤ p)
    (hlength : p ≤ bytes.length) {fault : Answer} {source : Source}
    (hfault : fault = .bytes [] ∨ ∃ error, fault = .fault error ∧ error.kind ≠ .interrupted)
    (hsource : source.FailsOnce (bytes.take p) fault (bytes.drop p)) :
    let position n := bytes.length - (plain.after n).pending.length
    let passed := position (records.length + 1) ≤ p ∧
      ∃ error, ending = some error ∧ error.isRejection = true
    position 0 = headerLength ∧ ∃ faulty, start source = .ok faulty ∧
      faulty.major = plain.major ∧ faulty.minor = plain.minor ∧
      (passed → ∀ n ≤ records.length + 1, faulty.answers n = plain.answers n ∧
        (faulty.after n).recordsRead = (plain.after n).recordsRead) ∧
      (¬passed → ∃ count ≤ records.length,
        (∀ i < records.length, i < count ↔ position (i + 1) ≤ p) ∧
        faulty.answers count = (records.take count).map (fun r => .ok (some r)) ∧
        let hit := (faulty.after count).next
        (∀ error, fault = .fault error → hit.1 =
          .error (if error.kind = .unexpectedEnd then .truncated else .stream error)) ∧
        (fault = .bytes [] → hit.1 =
          if ∃ n ≤ records.length, position n = p then .ok none else .error .truncated) ∧
        hit.2.input.source.Delivers (bytes.drop p) ∧
        ∀ (other : Playback) (n : Nat), other.input.source.Delivers (bytes.drop p) →
          hit.2.answers n = other.answers n) := by
  intro position passed
  have hafter : (bytes.drop p).length = bytes.length - p := List.length_drop
  have hbefore : headerLength ≤ (bytes.take p).length := by
    rw [List.length_take_of_le hlength]
    exact hheader
  have hdelivers : (Source.ofBytes bytes).Delivers (bytes.take p ++ bytes.drop p) := by
    rw [List.take_append_drop]
    exact Source.delivers_ofBytes bytes
  obtain ⟨faulty, hstart, hmajor, hminor, habreast⟩ :=
    start_abreast hbefore hplain hdelivers hsource
  have hzero : position 0 = headerLength := by
    show bytes.length - plain.input.source.pending.length = headerLength
    rw [habreast.delivers.pending_eq, List.length_append, List.length_drop,
      List.length_take_of_le hlength, hafter]
    omega
  -- In terms of positions, what is pending at the fault is the bytes behind it.
  have hpos : 0 < p := Nat.lt_of_lt_of_le (by decide) hheader
  have hle : ∀ n, position n ≤ p ↔ (bytes.drop p).length ≤ (plain.after n).pending.length := by
    intro n
    show bytes.length - _ ≤ p ↔ _
    omega
  have heq : ∀ n, position n = p ↔ (plain.after n).pending.length = (bytes.drop p).length := by
    intro n
    show bytes.length - _ = p ↔ _
    omega
  refine ⟨hzero, faulty, hstart, hmajor, hminor, ?_⟩
  obtain ⟨outcome, hhard⟩ : ∃ outcome, HardFault fault outcome := by
    rcases hfault with rfl | ⟨error, rfl, hkind⟩
    · exact ⟨_, .nothing⟩
    · exact ⟨_, .failed hkind⟩
  rcases hplays.meets_or_passes habreast hhard with ⟨count, left, hmeets⟩ | hpasses
  · refine ⟨?_, fun _ => ⟨count, hmeets.count_le, ?_, hmeets.answers, ?_, ?_, hmeets.rest,
      fun other n hother => answers_agree hmeets.rest hother n⟩⟩
    · intro ⟨hposition, error, hending, hrejection⟩
      have hlast := hmeets.ending_beyond error hending hrejection
      rw [hle, hplays.after] at hposition
      exact absurd hlast (Nat.not_lt.mpr hposition)
    · intro i hi
      rw [hle]
      exact hmeets.lt_iff hi
    · intro error herror
      subst herror
      cases hhard
      exact hmeets.fault
    · intro hnothing
      subst hnothing
      cases hhard
      simp only [heq, hmeets.boundary_iff]
      exact hmeets.fault
  · refine ⟨fun _ n hn => ⟨hpasses.answers n hn, hpasses.recordsRead n hn⟩, fun hnot => ?_⟩
    refine absurd ⟨?_, hpasses.rejection⟩ hnot
    rw [hle, hplays.after]
    exact hpasses.before

/-- A source that may not be read any more inside the mask of the second record.  The first
record is given, and the next attempt starts behind the three bytes of the mask. -/
theorem start_of_fault_inside :
    let first : Record := ⟨.empty, .monitorState ⟨1, 2, 3⟩⟩
    let bytes := headerBytes majorVersion 0 ++
      [0, 0, 0, 0, 0, 2, 0, 0, 0, 6, 0, 1, 0, 2, 0, 3, 0, 0, 0, 0, 0, 4, 0, 0, 0, 0]
    let source : Source := ⟨[.bytes (bytes.take 20), .fault ⟨.interrupted, ""⟩,
      .bytes ((bytes.take 31).drop 20), .fault .permissionDenied, .bytes (bytes.drop 31)]⟩
    ∃ faulty, start source = .ok faulty ∧ faulty.answers 1 = [.ok (some first)] ∧
      (faulty.after 1).next.1 = .error (.stream .permissionDenied) ∧
      (faulty.after 1).next.2.input.source.Delivers (bytes.drop 31) := by
  intro first bytes source
  let plain : Playback := ⟨⟨.ofBytes (bytes.drop 12), []⟩, 1, 0, 0⟩
  have hplain : start (.ofBytes bytes) = .ok plain := by decide +kernel
  have hplays : plain.Plays [first, ⟨.empty, .nodeCreate⟩] none (plain.after 3) :=
    .record (by decide +kernel : plain.next = (_, plain.after 1)) <|
      .record (by decide +kernel : (plain.after 1).next = (_, plain.after 2)) <|
        .complete (by decide +kernel : (plain.after 2).next = (_, plain.after 3))
  have hsource : source.FailsOnce (bytes.take 31) (.fault .permissionDenied) (bytes.drop 31) :=
    ⟨[.bytes (bytes.drop 31)],
      ⟨[.bytes (bytes.take 20), .fault ⟨.interrupted, ""⟩, .bytes ((bytes.take 31).drop 20)], rfl,
        .piece (by decide) <| .interrupted rfl <| .piece (by decide) .done⟩,
      .piece (by decide) .done⟩
  have hfault : Answer.fault .permissionDenied = .bytes [] ∨ ∃ error,
      Answer.fault .permissionDenied = .fault error ∧ error.kind ≠ .interrupted :=
    .inr ⟨_, rfl, by decide⟩
  obtain ⟨-, faulty, hstart, -, -, -, hmeets⟩ :=
    start_of_fault hplain hplays (by decide : headerLength ≤ 31) (by decide) hfault hsource
  obtain ⟨count, -, hpositions, hanswers, herror, -, hrest, -⟩ := hmeets (fun h => nomatch h.2)
  -- The first record ends at 28, and the second one at 38.
  have hfirst := (hpositions 0 (by decide)).mpr (by decide +kernel)
  have hsecond := mt (hpositions 1 (by decide)).mp (by decide +kernel)
  have hcount : count = 1 := by omega
  rw [hcount] at hanswers herror hrest
  exact ⟨faulty, hstart, hanswers, herror _ rfl, hrest⟩

end Playback

end StateTrace
