import StateTrace.Consumer
import StateTrace.Proofs.Playback.Run

/-!
# The course of a playback

`Plays` is the course of a playback by itself: the records that `next` gives one after
the other, up to the end of the trace or up to the first error, and the playback that
is left then.  Each playback has one (`exists_plays`), whatever its source does, because
every record makes the source smaller, and it has no other (`Plays.unique`).  Where the
answers are known, so is the course (`plays_of_answers`).

Whoever consumes a playback and never stops it sees just this course
(`Plays.consumeFrom`).  `Plays.drain` is the case of the visitor that keeps every record,
and `Plays.deliverTo` that of a consumer of events.
-/

namespace StateTrace.Playback

/-- The records that are still to come, the error that ends them if there is one, and
the playback after that. -/
inductive Plays : Playback → List Record → Option ReadError → Playback → Prop
  | complete {playback rest : Playback} :
      playback.next = (.ok none, rest) → Plays playback [] none rest
  | failed {playback rest : Playback} {error : ReadError} :
      playback.next = (.error error, rest) → Plays playback [] (some error) rest
  | record {playback middle rest : Playback} {r : Record} {records : List Record}
      {error : Option ReadError} :
      playback.next = (.ok (some r), middle) → Plays middle records error rest →
      Plays playback (r :: records) error rest

/-- Every playback has a course. -/
theorem exists_plays (playback : Playback) :
    ∃ records error rest, Plays playback records error rest := by
  match h : playback.next with
  | (.error error, rest) => exact ⟨[], some error, rest, .failed h⟩
  | (.ok none, rest) => exact ⟨[], none, rest, .complete h⟩
  | (.ok (some r), middle) =>
      obtain ⟨records, error, rest, hrest⟩ := exists_plays middle
      exact ⟨r :: records, error, rest, .record h hrest⟩
termination_by playback.input.source.size
decreasing_by exact size_source_next_lt h

section Plays
variable {playback rest : Playback} {records : List Record} {error : Option ReadError}

/-- Asking for the records and once more goes through the whole course. -/
theorem Plays.after (h : Plays playback records error rest) :
    playback.after (records.length + 1) = rest := by
  induction h with
  | complete hnext => simp [Playback.after, hnext]
  | failed hnext => simp [Playback.after, hnext]
  | record hnext _ ih =>
      rw [List.length_cons, Playback.after, hnext]
      exact ih

/-- What `next` answers when the records of a course are over. -/
def closing : Option ReadError → Except ReadError (Option Record)
  | none => .ok none
  | some error => .error error

/-- The answers in a course. -/
theorem Plays.answers (h : Plays playback records error rest) :
    playback.answers (records.length + 1) =
      records.map (fun r => .ok (some r)) ++ [closing error] := by
  induction h with
  | complete hnext => simp [Playback.answers, hnext, closing]
  | failed hnext => simp [Playback.answers, hnext, closing]
  | record hnext _ ih =>
      rw [List.length_cons, Playback.answers, hnext, ih]
      rfl

/-- The records of a course are counted. -/
theorem Plays.recordsRead (h : Plays playback records error rest) :
    rest.recordsRead = playback.recordsRead + records.length := by
  induction h with
  | complete hnext => exact recordsRead_of_next hnext
  | failed hnext => exact recordsRead_of_next hnext
  | record hnext _ ih =>
      rw [ih, recordsRead_of_next hnext, counted, List.length_cons, Nat.add_assoc, Nat.add_comm 1]

/-- A course can be read off the answers. -/
theorem plays_of_answers (h : playback.answers (records.length + 1) =
    records.map (fun r => .ok (some r)) ++ [closing error]) :
    playback.Plays records error (playback.after (records.length + 1)) := by
  induction records generalizing playback with
  | nil =>
      have hanswer : playback.next.1 = closing error := List.head_eq_of_cons_eq h
      cases error with
      | none => exact .complete (Prod.ext hanswer rfl)
      | some failure => exact .failed (Prod.ext hanswer rfl)
  | cons r records ih =>
      have hanswer : playback.next.1 = .ok (some r) := List.head_eq_of_cons_eq h
      exact .record (Prod.ext hanswer rfl) (ih (List.tail_eq_of_cons_eq h))

/-- Behind its first record a course goes on as that of the playback there. -/
theorem Plays.exists_tail (h : Plays playback records error rest) {r : Record}
    {middle : Playback} (hnext : playback.next = (.ok (some r), middle)) :
    ∃ more, records = r :: more ∧ Plays middle more error rest := by
  cases h with
  | complete hnext' => cases hnext.symm.trans hnext'
  | failed hnext' => cases hnext.symm.trans hnext'
  | record hnext' hmore =>
      cases hnext.symm.trans hnext'
      exact ⟨_, rfl, hmore⟩

/-- There is one course only. -/
theorem Plays.unique (h : Plays playback records error rest) {records' : List Record}
    {error' : Option ReadError} {rest' : Playback} (h' : Plays playback records' error' rest') :
    records = records' ∧ error = error' ∧ rest = rest' := by
  induction h generalizing records' with
  | complete hnext =>
      cases h' with
      | complete hnext' =>
          cases hnext.symm.trans hnext'
          exact ⟨rfl, rfl, rfl⟩
      | failed hnext' => cases hnext.symm.trans hnext'
      | record hnext' _ => cases hnext.symm.trans hnext'
  | failed hnext =>
      cases h' with
      | complete hnext' => cases hnext.symm.trans hnext'
      | failed hnext' =>
          cases hnext.symm.trans hnext'
          exact ⟨rfl, rfl, rfl⟩
      | record hnext' _ => cases hnext.symm.trans hnext'
  | record hnext _ ih =>
      obtain ⟨more, rfl, hmore⟩ := h'.exists_tail hnext
      obtain ⟨hrecords, herror, hrest⟩ := ih hmore
      exact ⟨congrArg _ hrecords, herror, hrest⟩

/-! ## Consuming a course -/

/-- How consuming a course ends. -/
def ending {β : Type} : Option ReadError → Ending β
  | none => .complete
  | some error => .failed error

/-- A visitor that never stops gets the records of the course, in order. -/
theorem Plays.consumeFrom {σ β : Type} {visit : Visitor σ β} {step : σ → Record → σ}
    (hvisit : ∀ r state, visit r state = (none, step state r))
    (h : Plays playback records error rest) (count : Nat) (state : σ) :
    Playback.consumeFrom visit count state playback =
      ⟨ending error, count + records.length, records.foldl step state, rest⟩ := by
  induction h generalizing count state with
  | complete hnext => exact consumeFrom_complete hnext
  | failed hnext => exact consumeFrom_failed hnext
  | @record _ _ _ r records _ hnext _ ih =>
      rw [consumeFrom_record hnext (hvisit r state), ih, List.length_cons, List.foldl_cons]
      congr 1
      omega

/-- Draining gives the records and the error of the course. -/
theorem Plays.drain (h : Plays playback records error rest) :
    playback.drain = (records, error, rest) := by
  have hcollect : ∀ r (kept : Array Record), collect r kept = (none, kept.push r) :=
    fun _ _ => rfl
  have hkept : (records.foldl Array.push #[]).toList = records := by simp
  rw [Playback.drain, consume, h.consumeFrom hcollect, hkept]
  cases error with
  | none => rfl
  | some error => rfl

/-- The result of delivering the events of a whole course. -/
def delivered (count : Nat) : Option ReadError → Except DeliveryError Nat
  | none => .ok count
  | some error => .error (.read error)

/-- A consumer that never cancels gets the events of the course, in order. -/
theorem Plays.deliverTo {σ : Type} {consumer : Consumer σ} {step : σ → Record → σ}
    (hproceed : ∀ (r : Record) state,
      consumer.receive r.scope r.event state = (.proceed, step state r))
    (h : Plays playback records error rest) (state : σ) :
    playback.deliverTo consumer state =
      ⟨delivered records.length error, records.foldl step state, rest⟩ := by
  have hvisit : ∀ r state,
      visitor (fun scope _ event => consumer.receive scope event) r state = (none, step state r) := by
    intro r state
    have hmap : visitor (fun scope _ event => consumer.receive scope event) r state =
        (Verdict.code? (consumer.receive r.scope r.event state).1,
          (consumer.receive r.scope r.event state).2) := rfl
    rw [hmap, hproceed]
    rfl
  rw [Playback.deliverTo, deliver, consume, h.consumeFrom hvisit, Nat.zero_add]
  cases error <;> rfl

end Plays

end StateTrace.Playback
