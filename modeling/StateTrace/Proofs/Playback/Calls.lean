import Mathlib.Data.List.Basic
import StateTrace.Proofs.Playback.Course

/-!
# The calls of a delivery

A delivery is seen through the calls that it makes.  `Callback.noting` notes each call of a
callback with the answer to it, and changes nothing else (`Callback.logging` does so with a log
of any other kind).  `Consumer.noting` does the same in
each method of a consumer, so its notes tell which method was called.  `Playback.calls` are the
notes of a delivery.

`Runs` is a delivery step by step, with one constructor for each outcome of a step.  Every
delivery is a run (`exists_runs`), and its result, its calls and the playback that it leaves
can be read off the run (`Runs.deliver`, `Runs.calls_eq`).

`consumers_agree` compares the ways to go through the rest of a trace: asking for one record
after the other, the stream of records, delivery to a callback and delivery to a consumer.
-/

namespace StateTrace

/-! ## Calls and notes -/

/-- A function that answers events and has a state. -/
abbrev Callback (σ : Type) := Scope → Kind → Event → StateM σ Verdict

/-- What a callback gets. -/
structure Call where
  scope : Scope
  kind : Kind
  event : Event
deriving DecidableEq, Repr, Inhabited

/-- The call that a record makes.  Its kind is that of the event. -/
def Record.call (r : Record) : Call := ⟨r.scope, r.event.kind, r.event⟩

/-- Calls in order, each with the answer to it. -/
abbrev Notes := List (Call × Verdict)

/-- Note a call and its answer behind the notes before. -/
def Notes.add {σ : Type} (call : Call) (answer : StateM σ Verdict) : StateM (σ × Notes) Verdict :=
  fun (state, notes) =>
    let (verdict, state) := answer state
    (verdict, state, notes ++ [(call, verdict)])

/-- The callback, with a note of each call. -/
def Callback.noting {σ : Type} (callback : Callback σ) : Callback (σ × Notes) :=
  fun scope kind event => Notes.add ⟨scope, kind, event⟩ (callback scope kind event)

/-- The callback, with an entry for each call and its answer behind the log that is there. -/
def Callback.logging {σ ε : Type} (entry : Call × Verdict → ε) (callback : Callback σ) :
    Callback (σ × List ε) :=
  fun scope kind event (state, log) =>
    let (verdict, state) := callback scope kind event state
    (verdict, state, log ++ [entry (⟨scope, kind, event⟩, verdict)])

/-- Notes are the log with the calls and answers themselves. -/
theorem Callback.noting_eq_logging {σ : Type} (callback : Callback σ) :
    callback.noting = callback.logging id :=
  rfl

theorem Callback.logging_apply {σ ε : Type} {callback : Callback σ} {scope : Scope} {kind : Kind}
    {event : Event} {state next : σ} {verdict : Verdict}
    (h : callback scope kind event state = (verdict, next)) (entry : Call × Verdict → ε)
    (log : List ε) :
    callback.logging entry scope kind event (state, log) =
      (verdict, next, log ++ [entry (⟨scope, kind, event⟩, verdict)]) := by
  rw [Callback.logging, h]

/-- The consumer, with a note in each method.  A method notes the kind that it stands for. -/
def Consumer.noting {σ : Type} (consumer : Consumer σ) : Consumer (σ × Notes) where
  unknown scope raw :=
    Notes.add ⟨scope, .unknown, .unknown raw⟩ (consumer.unknown scope raw)
  monitorCreate scope payload :=
    Notes.add ⟨scope, .monitorCreate, .monitorCreate payload⟩ (consumer.monitorCreate scope payload)
  monitorState scope payload :=
    Notes.add ⟨scope, .monitorState, .monitorState payload⟩ (consumer.monitorState scope payload)
  monitorData scope payload :=
    Notes.add ⟨scope, .monitorData, .monitorData payload⟩ (consumer.monitorData scope payload)
  nodeCreate scope :=
    Notes.add ⟨scope, .nodeCreate, .nodeCreate⟩ (consumer.nodeCreate scope)
  nodeDestroy scope :=
    Notes.add ⟨scope, .nodeDestroy, .nodeDestroy⟩ (consumer.nodeDestroy scope)
  nodePosition scope payload :=
    Notes.add ⟨scope, .nodePosition, .nodePosition payload⟩ (consumer.nodePosition scope payload)

/-- The callback that passes events on to the methods of a consumer. -/
def Consumer.callback {σ : Type} (consumer : Consumer σ) : Callback σ :=
  fun scope _ event => consumer.receive scope event

/-- An event reaches the method of its kind with its scope and payload, and no other method. -/
theorem Consumer.receive_noting {σ : Type} (consumer : Consumer σ) (scope : Scope)
    (event : Event) : consumer.noting.receive scope event =
      consumer.callback.noting scope event.kind event := by
  cases event <;> rfl

namespace Playback

/-- The calls of a delivery, in order, each with the answer to it. -/
def calls {σ : Type} (callback : Callback σ) (state : σ) (playback : Playback) : Notes :=
  (playback.deliver callback.noting (state, [])).state.2

/-! ## Runs -/

/-- A delivery from a playback and a state: the calls that it makes, how it ends, and the
state and the playback that it leaves. -/
inductive Runs {σ : Type} (callback : Callback σ) :
    Playback → σ → Notes → Ending Int32 → σ → Playback → Prop
  | complete {playback rest : Playback} {state : σ} :
      playback.next = (.ok none, rest) → Runs callback playback state [] .complete state rest
  | failed {playback rest : Playback} {state : σ} {error : ReadError} :
      playback.next = (.error error, rest) →
      Runs callback playback state [] (.failed error) state rest
  | cancelled {playback rest : Playback} {state last : σ} {r : Record} {code : Int32} :
      playback.next = (.ok (some r), rest) →
      callback r.scope r.event.kind r.event state = (.cancel code, last) →
      Runs callback playback state [(r.call, .cancel code)] (.stopped code) last rest
  | proceeded {playback middle rest : Playback} {state next last : σ} {r : Record}
      {calls : Notes} {ending : Ending Int32} :
      playback.next = (.ok (some r), middle) →
      callback r.scope r.event.kind r.event state = (.proceed, next) →
      Runs callback middle next calls ending last rest →
      Runs callback playback state ((r.call, .proceed) :: calls) ending last rest

/-- The result of a delivery that made `count` calls. -/
def Ending.result (count : Nat) : Ending Int32 → Except DeliveryError Nat
  | .complete => .ok count
  | .failed error => .error (.read error)
  | .stopped code => .error (.cancelled code count)

section Runs
variable {σ : Type} {callback : Callback σ} {playback rest : Playback} {state last : σ}
  {calls : Notes} {ending : Ending Int32}

/-- Every delivery is a run. -/
theorem exists_runs (callback : Callback σ) (playback : Playback) (state : σ) :
    ∃ calls ending last rest, Runs callback playback state calls ending last rest := by
  match h : playback.next with
  | (.error error, rest) => exact ⟨[], .failed error, state, rest, .failed h⟩
  | (.ok none, rest) => exact ⟨[], .complete, state, rest, .complete h⟩
  | (.ok (some r), middle) =>
      match hanswer : callback r.scope r.event.kind r.event state with
      | (.cancel code, last) => exact ⟨_, .stopped code, last, middle, .cancelled h hanswer⟩
      | (.proceed, next) =>
          obtain ⟨calls, ending, last, rest, hrest⟩ := exists_runs callback middle next
          exact ⟨_, ending, last, rest, .proceeded h hanswer hrest⟩
termination_by playback.input.source.size
decreasing_by exact size_source_next_lt h

theorem visitor_eq {r : Record} {verdict : Verdict}
    (h : callback r.scope r.event.kind r.event state = (verdict, last)) :
    visitor callback r state = (verdict.code?, last) := by
  have hmap : visitor callback r state =
      (Verdict.code? (callback r.scope r.event.kind r.event state).1,
        (callback r.scope r.event.kind r.event state).2) := rfl
  rw [hmap, h]

theorem Runs.consumeFrom (h : Runs callback playback state calls ending last rest)
    (count : Nat) : Playback.consumeFrom (visitor callback) count state playback =
      ⟨ending, count + calls.length, last, rest⟩ := by
  induction h generalizing count with
  | complete hnext => exact consumeFrom_complete hnext
  | failed hnext => exact consumeFrom_failed hnext
  | cancelled hnext hanswer => exact consumeFrom_stopped hnext (visitor_eq hanswer)
  | proceeded hnext hanswer _ ih =>
      rw [consumeFrom_record hnext (visitor_eq hanswer), ih, List.length_cons, Nat.add_assoc,
        Nat.add_comm 1]

/-- A delivery leaves what its run leaves. -/
theorem Runs.deliver (h : Runs callback playback state calls ending last rest) :
    playback.deliver callback state = ⟨ending.result calls.length, last, rest⟩ := by
  rw [Playback.deliver, consume, h.consumeFrom, Nat.zero_add]
  cases ending <;> rfl

/-- A log does not change a run. -/
theorem Runs.logging {ε : Type} (h : Runs callback playback state calls ending last rest)
    (entry : Call × Verdict → ε) (log : List ε) :
    Runs (callback.logging entry) playback (state, log) calls ending
      (last, log ++ calls.map entry) rest := by
  induction h generalizing log with
  | complete hnext =>
      rw [List.map_nil, List.append_nil]
      exact .complete hnext
  | failed hnext =>
      rw [List.map_nil, List.append_nil]
      exact .failed hnext
  | cancelled hnext hanswer =>
      exact .cancelled hnext (Callback.logging_apply hanswer entry log)
  | @proceeded _ _ _ _ _ _ r _ _ hnext hanswer _ ih =>
      have hmore := ih (log ++ [entry (r.call, .proceed)])
      rw [List.append_assoc] at hmore
      exact .proceeded hnext (Callback.logging_apply hanswer entry log) hmore

/-- Notes do not change a run. -/
theorem Runs.noting (h : Runs callback playback state calls ending last rest) (notes : Notes) :
    Runs callback.noting playback (state, notes) calls ending (last, notes ++ calls) rest := by
  have hlogging := h.logging id notes
  rwa [List.map_id, ← callback.noting_eq_logging] at hlogging

/-- The calls of a delivery are those of its run. -/
theorem Runs.calls_eq (h : Runs callback playback state calls ending last rest) :
    playback.calls callback state = calls := by
  rw [Playback.calls, (h.noting []).deliver]
  rfl

/-- A delivery with notes is the delivery, and its calls. -/
theorem deliver_noting (callback : Callback σ) (playback : Playback) (state : σ) :
    playback.deliver callback.noting (state, []) =
      ⟨(playback.deliver callback state).result,
        ((playback.deliver callback state).state, playback.calls callback state),
        (playback.deliver callback state).playback⟩ := by
  obtain ⟨calls, ending, last, rest, h⟩ := exists_runs callback playback state
  rw [(h.noting []).deliver, h.deliver, h.calls_eq]
  rfl

/-- Delivery to a consumer with notes is delivery to its callback with notes. -/
theorem deliverTo_noting (consumer : Consumer σ) (playback : Playback) (state : σ) :
    playback.deliverTo consumer.noting (state, []) =
      playback.deliver consumer.callback.noting (state, []) := by
  have hvisitor : visitor consumer.noting.callback = visitor consumer.callback.noting := by
    funext r
    exact congrArg (Verdict.code? <$> ·) (consumer.receive_noting r.scope r.event)
  show playback.deliver consumer.noting.callback (state, []) = _
  rw [deliver, hvisitor, deliver]

end Runs

/-! ## Ways through a trace -/

/-- A callback that never cancels runs through the whole course. -/
theorem Plays.runs {playback rest : Playback} {records : List Record} {error : Option ReadError}
    (h : Plays playback records error rest) {σ : Type} {callback : Callback σ}
    (hproceed : ∀ scope kind event state, (callback scope kind event state).1 = .proceed)
    (state : σ) :
    Runs callback playback state (records.map fun r => (r.call, .proceed)) (ending error)
      (records.foldl (fun state r => (callback r.scope r.event.kind r.event state).2) state)
      rest := by
  induction h generalizing state with
  | complete hnext => exact .complete hnext
  | failed hnext => exact .failed hnext
  | record hnext _ ih => exact .proceeded hnext (Prod.ext (hproceed _ _ _ _) rfl) (ih _)

/-- The calls of any callback are those of the first records. -/
theorem Runs.isPrefix {σ : Type} {callback : Callback σ} {playback left : Playback}
    {state last : σ} {calls : Notes} {stop : Ending Int32}
    (h : Runs callback playback state calls stop last left) {records : List Record}
    {error : Option ReadError} {rest : Playback} (hplays : Plays playback records error rest) :
    calls.map Prod.fst <+: records.map Record.call := by
  induction h generalizing records with
  | complete => exact List.nil_prefix
  | failed => exact List.nil_prefix
  | cancelled hnext =>
      obtain ⟨more, rfl, -⟩ := hplays.exists_tail hnext
      exact List.cons_prefix_cons.mpr ⟨rfl, List.nil_prefix⟩
  | proceeded hnext _ _ ih =>
      obtain ⟨more, rfl, hmore⟩ := hplays.exists_tail hnext
      exact List.cons_prefix_cons.mpr ⟨rfl, ih hmore⟩

theorem result_ending (count : Nat) (error : Option ReadError) :
    (ending error).result count = delivered count error := by
  cases error <;> rfl

end Playback

namespace RecordStream

/-- What `next` gives, called `n` times in a row. -/
def items : Nat → RecordStream → List (Option (Except ReadError Record))
  | 0, _ => []
  | n + 1, stream => stream.next.1 :: items n stream.next.2

/-- The stream after `n` calls of `next`. -/
def after : Nat → RecordStream → RecordStream
  | 0, stream => stream
  | n + 1, stream => after n stream.next.2

/-- A stream that is over gives nothing, and leaves its playback alone. -/
theorem items_done (playback : Playback) (n : Nat) :
    items n ⟨playback, true⟩ = List.replicate n none ∧
      after n ⟨playback, true⟩ = ⟨playback, true⟩ := by
  induction n with
  | zero => exact ⟨rfl, rfl⟩
  | succ n ih => exact ⟨congrArg (none :: ·) ih.1, ih.2⟩

theorem next_ofPlayback_record {playback middle : Playback} {r : Record}
    (h : playback.next = (.ok (some r), middle)) :
    (ofPlayback playback).next = (some (.ok r), ofPlayback middle) := by
  simp [next, ofPlayback, h]

theorem next_ofPlayback_complete {playback rest : Playback} (h : playback.next = (.ok none, rest)) :
    (ofPlayback playback).next = (none, ⟨rest, true⟩) := by
  simp [next, ofPlayback, h]

theorem next_ofPlayback_failed {playback rest : Playback} {error : ReadError}
    (h : playback.next = (.error error, rest)) :
    (ofPlayback playback).next = (some (.error error), ⟨rest, true⟩) := by
  simp [next, ofPlayback, h]

end RecordStream

namespace Playback

section Plays
variable {playback rest : Playback} {records : List Record} {error : Option ReadError}

/-- The stream gives the records of a course, then its error, and then nothing. -/
theorem Plays.items (h : Plays playback records error rest) (n : Nat) :
    (RecordStream.ofPlayback playback).items (records.length + 1 + n) =
      records.map (fun r => some (.ok r)) ++ error.map .error :: List.replicate n none ∧
    (RecordStream.ofPlayback playback).after (records.length + 1 + n) = ⟨rest, true⟩ := by
  induction h with
  | @complete playback rest hnext =>
      have hstream := RecordStream.next_ofPlayback_complete hnext
      obtain ⟨hitems, hafter⟩ := RecordStream.items_done rest n
      rw [List.length_nil, Nat.zero_add, Nat.add_comm, RecordStream.items, RecordStream.after,
        hstream, hitems, hafter]
      exact ⟨rfl, rfl⟩
  | @failed playback rest error hnext =>
      have hstream := RecordStream.next_ofPlayback_failed hnext
      obtain ⟨hitems, hafter⟩ := RecordStream.items_done rest n
      rw [List.length_nil, Nat.zero_add, Nat.add_comm, RecordStream.items, RecordStream.after,
        hstream, hitems, hafter]
      exact ⟨rfl, rfl⟩
  | @record playback _ _ r records _ hnext _ ih =>
      have hstream := RecordStream.next_ofPlayback_record hnext
      have hlength : (r :: records).length + 1 + n = records.length + 1 + n + 1 := by
        rw [List.length_cons]
        omega
      rw [hlength, RecordStream.items, RecordStream.after, hstream, ih.1, ih.2]
      exact ⟨rfl, rfl⟩

/-- Before the end of a course the stream stands where asking for the records does. -/
theorem Plays.stream_after (h : Plays playback records error rest) {n : Nat}
    (hn : n ≤ records.length) : (RecordStream.ofPlayback playback).after n =
      RecordStream.ofPlayback (playback.after n) := by
  induction h generalizing n with
  | complete =>
      cases Nat.le_zero.mp hn
      rfl
  | failed =>
      cases Nat.le_zero.mp hn
      rfl
  | record hnext _ ih =>
      cases n with
      | zero => rfl
      | succ n =>
          rw [RecordStream.after, RecordStream.next_ofPlayback_record hnext,
            ih (Nat.le_of_succ_le_succ hn), Playback.after, hnext]

end Plays

/-- All ways through the rest of a trace give the same records.  With `records` those that
`next` gives before the end or the first error: the stream gives them, then the error if
there is one, and nothing from then on, without touching the playback again.  A callback
is called for the first of them, in order.  If it never cancels it is called once for each,
and the result is their number or the error.  Delivery to a consumer is delivery to its
callback, whatever the consumer answers, and each call reaches the method of its kind and no
other.  The playback that is left and its count are the same for all. -/
theorem consumers_agree (playback : Playback) :
    ∃ (records : List Record) (error : Option ReadError),
      let count := records.length
      let rest := playback.after (count + 1)
      let stream := RecordStream.ofPlayback playback
      playback.answers (count + 1) = records.map (fun r => .ok (some r)) ++ [closing error] ∧
      rest.recordsRead = playback.recordsRead + count ∧
      (∀ n ≤ count, (stream.after n).playback = playback.after n) ∧
      (∀ n, stream.items (count + 1 + n) =
          records.map (fun r => some (.ok r)) ++ error.map .error :: List.replicate n none ∧
        (stream.after (count + 1 + n)).playback = rest) ∧
      (∀ {σ : Type} (callback : Callback σ) (state : σ),
        (playback.calls callback state).map Prod.fst <+: records.map Record.call) ∧
      (∀ {σ : Type} (callback : Callback σ) (state : σ),
        (∀ scope kind event state, (callback scope kind event state).1 = .proceed) →
        playback.calls callback state = records.map (fun r => (r.call, .proceed)) ∧
          playback.deliver callback state =
            ⟨delivered count error, records.foldl (fun state r =>
              (callback r.scope r.event.kind r.event state).2) state, rest⟩) ∧
      ∀ {σ : Type} (consumer : Consumer σ) (state : σ),
        let delivery := playback.deliver consumer.callback state
        playback.deliverTo consumer state = delivery ∧
          playback.deliverTo consumer.noting (state, []) =
            ⟨delivery.result, (delivery.state, playback.calls consumer.callback state),
              delivery.playback⟩ := by
  obtain ⟨records, error, rest, hplays⟩ := playback.exists_plays
  refine ⟨records, error, hplays.answers, ?_, fun n hn => ?_, fun n => ?_, ?_, ?_, ?_⟩
  · rw [hplays.after]
    exact hplays.recordsRead
  · rw [hplays.stream_after hn]
    rfl
  · obtain ⟨hitems, hafter⟩ := hplays.items n
    rw [hafter, hplays.after]
    exact ⟨hitems, rfl⟩
  · intro σ callback state
    obtain ⟨calls, stop, last, left, hruns⟩ := exists_runs callback playback state
    rw [hruns.calls_eq]
    exact hruns.isPrefix hplays
  · intro σ callback state hproceed
    have hruns := hplays.runs hproceed state
    rw [hruns.calls_eq, hruns.deliver, result_ending, List.length_map, hplays.after]
    exact ⟨rfl, rfl⟩
  · intro σ consumer state
    exact ⟨rfl, (deliverTo_noting consumer playback state).trans (deliver_noting _ playback state)⟩

/-- A read that fails where the second record starts.  The stream and a callback that counts
its calls stop there, although the source has another record. -/
theorem consumers_agree_at_fault :
    let first : Record := ⟨.empty, .monitorState ⟨1, 2, 3⟩⟩
    let second : Record := ⟨.empty, .nodeCreate⟩
    let playback : Playback := ⟨⟨⟨[.bytes [0, 0, 0, 0, 0, 2, 0, 0, 0, 6, 0, 1, 0, 2, 0, 3],
      .fault .permissionDenied, .bytes [0, 0, 0, 0, 0, 4, 0, 0, 0, 0]]⟩, []⟩, 1, 0, 7⟩
    let counting : Callback Nat := fun _ _ _ count => (.proceed, count + 1)
    (RecordStream.ofPlayback playback).items 5 =
        [some (.ok first), some (.error (.stream .permissionDenied)), none, none, none] ∧
      (playback.deliver counting 0).state = 1 ∧
      (playback.deliver counting 0).result = .error (.read (.stream .permissionDenied)) ∧
      (playback.deliver counting 0).playback.next.1 = .ok (some second) := by
  intro first second playback counting
  obtain ⟨records, error, hanswers, -, -, hitems, -, hcalls, -⟩ := consumers_agree playback
  have hplays : playback.Plays [first] (some (.stream .permissionDenied)) (playback.after 2) :=
    plays_of_answers (by decide +kernel)
  obtain ⟨rfl, rfl, -⟩ := (plays_of_answers hanswers).unique hplays
  have hdelivery := (hcalls counting 0 (fun _ _ _ _ => rfl)).2
  rw [hdelivery]
  exact ⟨(hitems 3).1, rfl, rfl, by decide +kernel⟩

end Playback

end StateTrace
