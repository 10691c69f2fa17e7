import StateTrace.Proofs.Playback.Calls
import StateTrace.Proofs.Playback.Content

/-!
# Cancelling a delivery and going on

A callback that cancels ends its delivery at once, and the playback stands right behind the
record that was cancelled.  What was taken from the source are the spellings of the records of
the calls and no byte more: `Runs.takes` says that every source which starts with these bytes
gives the same delivery, whatever comes behind them, and has that left.

So a delivery can be taken up again where another one was cancelled.  `Resumed` are deliveries
one after the other, each with a callback and a state of its own, all cancelled but the last.
Together they make the calls of the whole course (`Resumed.course`), because a cancelled
delivery makes the calls of a first part of it (`Runs.resume`).

`cancellation_resumes` puts the two together.
-/

namespace StateTrace.Playback

open Wire

/-! ## One delivery -/

section Runs
variable {σ : Type} {callback : Callback σ} {playback middle rest : Playback} {state last : σ}
  {calls : Notes} {stop : Ending Int32} {code : Int32}

/-- Each call counts one record. -/
theorem Runs.recordsRead (h : Runs callback playback state calls stop last rest) :
    rest.recordsRead = playback.recordsRead + calls.length := by
  induction h with
  | complete hnext => exact recordsRead_of_next hnext
  | failed hnext => exact recordsRead_of_next hnext
  | cancelled hnext _ => exact recordsRead_of_next hnext
  | proceeded hnext _ _ ih =>
      rw [ih, recordsRead_of_next hnext, counted, List.length_cons, Nat.add_assoc, Nat.add_comm 1]

/-- A call that is cancelled is the last one. -/
theorem Runs.stop_of_cancel (h : Runs callback playback state calls stop last rest) {n : Nat}
    {call : Call} (hn : calls[n]? = some (call, .cancel code)) :
    stop = .stopped code ∧ calls.length = n + 1 := by
  induction h generalizing n with
  | complete => cases hn
  | failed => cases hn
  | cancelled =>
      cases n with
      | zero =>
          cases hn
          exact ⟨rfl, rfl⟩
      | succ n => cases hn
  | proceeded _ _ _ ih =>
      cases n with
      | zero => cases hn
      | succ n =>
          obtain ⟨hstop, hlength⟩ := ih (n := n) hn
          exact ⟨hstop, congrArg Nat.succ hlength⟩

/-- A cancelled delivery has a last call, and that one is cancelled. -/
theorem Runs.exists_cancel (h : Runs callback playback state calls (.stopped code) last rest) :
    ∃ n call, calls.length = n + 1 ∧ calls[n]? = some (call, .cancel code) := by
  generalize hstop : Ending.stopped code = stop at h
  induction h with
  | complete => cases hstop
  | failed => cases hstop
  | cancelled =>
      cases hstop
      exact ⟨0, _, rfl, rfl⟩
  | proceeded _ _ _ ih =>
      obtain ⟨n, call, hlength, hcall⟩ := ih hstop
      exact ⟨n + 1, call, congrArg Nat.succ hlength, hcall⟩

/-- A delivery reports a cancellation just if the call with the reported number is cancelled. -/
theorem Runs.cancel_iff (h : Runs callback playback state calls stop last rest) {n : Nat} :
    (∃ call, calls[n]? = some (call, .cancel code)) ↔
      stop.result calls.length = .error (.cancelled code (n + 1)) := by
  constructor
  · intro ⟨call, hcall⟩
    obtain ⟨rfl, hlength⟩ := h.stop_of_cancel hcall
    rw [hlength]
    rfl
  · intro hresult
    cases stop with
    | complete => cases hresult
    | failed => cases hresult
    | stopped code' =>
        obtain ⟨m, call, hlength, hcall⟩ := h.exists_cancel
        rw [hlength] at hresult
        cases hresult
        exact ⟨call, hcall⟩

/-- The error of a delivery has the code of the call that was cancelled, and no code if none
was. -/
theorem Runs.cancelCode?_iff (h : Runs callback playback state calls stop last rest)
    {error : DeliveryError} (herror : stop.result calls.length = .error error) :
    error.cancelCode? = some code ↔ ∃ call, (call, .cancel code) ∈ calls := by
  constructor
  · intro hcode
    cases error with
    | read => cases hcode
    | cancelled code' number =>
        cases hcode
        cases stop with
        | complete => cases herror
        | failed => cases herror
        | stopped code' =>
            cases herror
            obtain ⟨n, call, -, hcall⟩ := h.exists_cancel
            exact ⟨call, List.mem_of_getElem? hcall⟩
  · intro ⟨call, hmem⟩
    obtain ⟨n, hcall⟩ := List.mem_iff_getElem?.mp hmem
    obtain ⟨rfl, -⟩ := h.stop_of_cancel hcall
    cases herror
    rfl

/-- A cancelled delivery asks for one record for each call. -/
theorem Runs.after_calls (h : Runs callback playback state calls (.stopped code) last rest) :
    playback.after calls.length = rest := by
  generalize hstop : Ending.stopped code = stop at h
  induction h with
  | complete => cases hstop
  | failed => cases hstop
  | cancelled hnext _ => simp [Playback.after, hnext]
  | proceeded hnext _ _ ih =>
      rw [List.length_cons, Playback.after, hnext]
      exact ih hstop

/-- A cancelled delivery takes the spellings of its records from the source, up to where
gathering stops, and leaves what follows.  Any source that starts with them gives the same
delivery. -/
theorem Runs.takes (h : Runs callback playback state calls (.stopped code) last rest)
    {bytes : List UInt8} {tail later : List Answer} {outcome : Source.Outcome}
    (hstarts : playback.input.source.Starts bytes tail) (hstops : Source.Stops tail outcome later) :
    ∃ (entries : List (Record × List UInt8)) (left : List UInt8),
      bytes = entries.flatMap Prod.snd ++ left ∧ (∀ entry ∈ entries, Spells entry.1 entry.2) ∧
      calls.map Prod.fst = entries.map (fun entry => entry.1.call) ∧
      rest.input.source.Starts left tail ∧
      ∀ (other : Playback) (left' : List UInt8) (tail' : List Answer),
        other.input.source.Starts (entries.flatMap Prod.snd ++ left') tail' →
        ∃ rest', Runs callback other state calls (.stopped code) last rest' ∧
          rest'.input.source.Starts left' tail' := by
  generalize hstop : Ending.stopped code = stop at h
  induction h generalizing bytes with
  | complete => cases hstop
  | failed => cases hstop
  | @cancelled _ _ _ _ r _ hnext hanswer =>
      cases hstop
      obtain ⟨w, left, rfl, hspells, hrest, htakes⟩ := takes_of_next hnext hstarts hstops
      refine ⟨[(r, w)], left, ?_, ?_, rfl, hrest, fun other left' tail' hother => ?_⟩
      · rw [List.flatMap_singleton]
      · intro entry hentry
        cases List.mem_singleton.mp hentry
        exact hspells
      · rw [List.flatMap_singleton] at hother
        obtain ⟨hnext', hrest'⟩ := next_of_takes htakes hother
        exact ⟨_, .cancelled hnext' hanswer, hrest'⟩
  | @proceeded _ _ _ _ _ _ r _ _ hnext hanswer _ ih =>
      obtain ⟨w, left, rfl, hspells, hmiddle, htakes⟩ := takes_of_next hnext hstarts hstops
      obtain ⟨entries, left, rfl, hentries, hcalls, hrest, hothers⟩ := ih hmiddle hstop
      refine ⟨(r, w) :: entries, left, ?_, ?_, ?_, hrest, fun other left' tail' hother => ?_⟩
      · rw [List.flatMap_cons, List.append_assoc]
      · intro entry hentry
        cases hentry with
        | head => exact hspells
        | tail _ hentry => exact hentries entry hentry
      · rw [List.map_cons, List.map_cons, hcalls]
      · rw [List.flatMap_cons, List.append_assoc] at hother
        obtain ⟨hnext', hmiddle'⟩ := next_of_takes htakes hother
        obtain ⟨rest', hruns, hrest'⟩ := hothers _ left' tail' hmiddle'
        exact ⟨rest', .proceeded hnext' hanswer hruns, hrest'⟩

/-- After a cancelled delivery there comes the rest of the course. -/
theorem Runs.resume (h : Runs callback playback state calls (.stopped code) last middle)
    {records : List Record} {error : Option ReadError} (hrest : Plays middle records error rest) :
    ∃ first, Plays playback (first ++ records) error rest ∧
      calls.map Prod.fst = first.map Record.call := by
  generalize hstop : Ending.stopped code = stop at h
  induction h with
  | complete => cases hstop
  | failed => cases hstop
  | @cancelled _ _ _ _ r _ hnext _ => exact ⟨[r], .record hnext hrest, rfl⟩
  | @proceeded _ _ _ _ _ _ r _ _ hnext _ _ ih =>
      obtain ⟨first, hplays, hcalls⟩ := ih hrest hstop
      exact ⟨r :: first, .record hnext hplays, congrArg (r.call :: ·) hcalls⟩

/-- A delivery that is not cancelled goes through the whole course. -/
theorem Runs.course {error : Option ReadError}
    (h : Runs callback playback state calls (ending error) last rest) :
    ∃ records, Plays playback records error rest ∧ calls.map Prod.fst = records.map Record.call := by
  generalize hstop : (ending error : Ending Int32) = stop at h
  induction h with
  | complete hnext =>
      cases error with
      | none => exact ⟨[], .complete hnext, rfl⟩
      | some error => cases hstop
  | failed hnext =>
      cases error with
      | none => cases hstop
      | some error =>
          cases hstop
          exact ⟨[], .failed hnext, rfl⟩
  | cancelled => cases error <;> cases hstop
  | @proceeded _ _ _ _ _ _ r _ _ hnext _ _ ih =>
      obtain ⟨records, hplays, hcalls⟩ := ih hstop
      exact ⟨r :: records, .record hnext hplays, congrArg (r.call :: ·) hcalls⟩

end Runs

/-- A delivery is cancelled, or it comes to the end of the course. -/
theorem Ending.stopped_or_ending (stop : Ending Int32) :
    (∃ code, stop = .stopped code) ∨ ∃ error, stop = ending error := by
  cases stop with
  | complete => exact .inr ⟨none, rfl⟩
  | failed error => exact .inr ⟨some error, rfl⟩
  | stopped code => exact .inl ⟨code, rfl⟩

/-! ## Deliveries one after the other -/

/-- Deliveries from a playback, each from where the one before was cancelled, up to one that
is not cancelled: all their calls, the result of the last one, and the playback it leaves. -/
inductive Resumed : Playback → List Call → Except DeliveryError Nat → Playback → Prop
  | last {σ : Type} {playback : Playback} (callback : Callback σ) (state : σ) :
      (∀ code count, (playback.deliver callback state).result ≠ .error (.cancelled code count)) →
      Resumed playback ((playback.calls callback state).map Prod.fst)
        (playback.deliver callback state).result (playback.deliver callback state).playback
  | cancelled {σ : Type} {playback rest : Playback} {calls : List Call}
      {result : Except DeliveryError Nat} {code : Int32} {count : Nat}
      (callback : Callback σ) (state : σ) :
      (playback.deliver callback state).result = .error (.cancelled code count) →
      Resumed (playback.deliver callback state).playback calls result rest →
      Resumed playback ((playback.calls callback state).map Prod.fst ++ calls) result rest

/-- However often deliveries are cancelled and taken up again, they make the calls of the
course and end as it does. -/
theorem Resumed.course {playback rest : Playback} {calls : List Call}
    {result : Except DeliveryError Nat} (h : Resumed playback calls result rest) :
    ∃ records error count, Plays playback records error rest ∧ calls = records.map Record.call ∧
      result = delivered count error := by
  induction h with
  | @last _ playback callback state hgoes =>
      obtain ⟨calls, stop, last, rest, hruns⟩ := exists_runs callback playback state
      rw [hruns.deliver] at hgoes
      rw [hruns.deliver, hruns.calls_eq]
      rcases stop.stopped_or_ending with ⟨code, rfl⟩ | ⟨error, rfl⟩
      · exact absurd rfl (hgoes code calls.length)
      · obtain ⟨records, hplays, hcalls⟩ := hruns.course
        exact ⟨records, error, calls.length, hplays, hcalls, result_ending _ _⟩
  | @cancelled _ playback _ _ _ _ _ callback state hcancelled _ ih =>
      obtain ⟨first, stop, last, middle, hruns⟩ := exists_runs callback playback state
      rw [hruns.deliver] at hcancelled ih
      rw [hruns.calls_eq]
      obtain ⟨records, error, count, hrest, hcalls, hresult⟩ := ih
      rcases stop.stopped_or_ending with ⟨code, rfl⟩ | ⟨error, rfl⟩
      · obtain ⟨before, hplays, hfirst⟩ := hruns.resume hrest
        refine ⟨before ++ records, error, count, hplays, ?_, hresult⟩
        rw [hfirst, hcalls, List.map_append]
      · rw [result_ending] at hcancelled
        cases error <;> cases hcancelled

/-- A delivery reports that it was cancelled just if a call was, with the number of this call,
counted from one, and with its code.  It makes no call after it, and counts the records of its
calls.  It takes the spellings of these records from the source and leaves everything else there,
whatever it is.

Deliveries that are each taken up where the one before was cancelled make together the calls
of one delivery that is not cancelled.  They end as it does, and count as many records.

A consumer is a callback here: delivery to it is delivery to its callback, and its methods get
the same calls. -/
theorem cancellation_resumes (playback : Playback) :
    (∀ {σ : Type} (consumer : Consumer σ) (state : σ),
      playback.deliverTo consumer state = playback.deliver consumer.callback state ∧
        (playback.deliverTo consumer.noting (state, [])).state.2 =
          playback.calls consumer.callback state) ∧
    (∀ {σ : Type} (callback : Callback σ) (state : σ) (n : Nat) (code : Int32),
      let calls := playback.calls callback state
      let delivery := playback.deliver callback state
      ((∃ call, calls[n]? = some (call, .cancel code)) ↔
        delivery.result = .error (.cancelled code (n + 1))) ∧
      (∀ error, delivery.result = .error error →
        (error.cancelCode? = some code ↔ ∃ call, (call, .cancel code) ∈ calls)) ∧
      (delivery.result = .error (.cancelled code (n + 1)) →
        calls.length = n + 1 ∧
        delivery.playback = playback.after (n + 1) ∧
        delivery.playback.recordsRead = playback.recordsRead + (n + 1) ∧
        ∃ (entries : List (Record × List UInt8)) (left : List UInt8) (tail : List Answer),
          (∀ entry ∈ entries, Spells entry.1 entry.2) ∧
          calls.map Prod.fst = entries.map (fun entry => entry.1.call) ∧
          playback.input.source.Starts (entries.flatMap Prod.snd ++ left) tail ∧
          delivery.playback.input.source.Starts left tail ∧
          ∀ (other : Playback) (left' : List UInt8) (tail' : List Answer),
            other.input.source.Starts (entries.flatMap Prod.snd ++ left') tail' →
            let delivery' := other.deliver callback state
            other.calls callback state = calls ∧ delivery'.result = delivery.result ∧
              delivery'.state = delivery.state ∧
              delivery'.playback.input.source.Starts left' tail')) ∧
    (∀ (calls : List Call) (result : Except DeliveryError Nat) (rest : Playback),
      Resumed playback calls result rest →
      rest.recordsRead = playback.recordsRead + calls.length ∧
      ∀ {σ : Type} (callback : Callback σ) (state : σ),
        let delivery := playback.deliver callback state
        (∀ code count, delivery.result ≠ .error (.cancelled code count)) →
          calls = (playback.calls callback state).map Prod.fst ∧
          (∀ error, result = .error error ↔ delivery.result = .error error) ∧
          rest = delivery.playback) := by
  refine ⟨fun consumer state => ⟨rfl, ?_⟩, fun callback state n code => ?_,
    fun calls result rest h => ⟨?_, ?_⟩⟩
  · rw [deliverTo_noting]
    rfl
  · intro calls delivery
    obtain ⟨noted, stop, last, rest, hruns⟩ := exists_runs callback playback state
    have hcalls : calls = noted := hruns.calls_eq
    have hdelivery : delivery = ⟨stop.result noted.length, last, rest⟩ := hruns.deliver
    rw [hcalls, hdelivery]
    refine ⟨hruns.cancel_iff, fun error => hruns.cancelCode?_iff, fun hresult => ?_⟩
    obtain ⟨call, hcall⟩ := hruns.cancel_iff.mpr hresult
    obtain ⟨rfl, hlength⟩ := hruns.stop_of_cancel hcall
    obtain ⟨bytes, tail, outcome, later, hstarts, hstops⟩ := playback.input.source.exists_starts
    obtain ⟨entries, left, rfl, hspells, hentries, hrest, hothers⟩ := hruns.takes hstarts hstops
    rw [← hlength]
    refine ⟨rfl, hruns.after_calls.symm, hruns.recordsRead, entries, left, tail, hspells,
      hentries, hstarts, hrest, fun other left' tail' hother => ?_⟩
    obtain ⟨rest', hruns', hrest'⟩ := hothers other left' tail' hother
    rw [hruns'.calls_eq, hruns'.deliver]
    exact ⟨rfl, rfl, rfl, hrest'⟩
  · obtain ⟨records, error, count, hplays, rfl, -⟩ := h.course
    rw [hplays.recordsRead, List.length_map]
  · intro σ callback state delivery hgoes
    obtain ⟨records, error, count, hplays, hcalls, hresult⟩ := h.course
    obtain ⟨records', error', count', hplays', hcalls', hresult'⟩ :=
      (Resumed.last callback state hgoes).course
    obtain ⟨rfl, rfl, hrest⟩ := hplays.unique hplays'
    have hsame : ∀ failure, result = .error failure ↔ delivery.result = .error failure := by
      intro failure
      rw [hresult, hresult']
      cases error with
      | none => exact ⟨nofun, nofun⟩
      | some error => exact Iff.rfl
    exact ⟨hcalls.trans hcalls'.symm, hsame, hrest⟩

/-- Two records and a byte too many.  The first delivery is cancelled at its first call, and
the second one goes on from there and fails.  So does one delivery of both records. -/
theorem cancellation_resumes_before_failure :
    let first : Record := ⟨.empty, .monitorState ⟨1, 2, 3⟩⟩
    let second : Record := ⟨.empty, .nodeCreate⟩
    let playback : Playback := ⟨⟨⟨[.bytes [0, 0, 0, 0, 0, 2, 0, 0, 0, 6, 0, 1, 0, 2, 0, 3, 0, 0],
      .bytes [0, 0, 0, 4, 0, 0, 0, 0, 0]]⟩, []⟩, 1, 0, 7⟩
    let stopping : Callback Unit := fun _ _ _ state => (.cancel 9, state)
    let counting : Callback Nat := fun _ _ _ count => (.proceed, count + 1)
    let cancelled := playback.deliver stopping ()
    cancelled.result = .error (.cancelled 9 1) ∧ cancelled.playback.recordsRead = 8 ∧
      (cancelled.playback.deliver counting 0).result = .error (.read .truncated) ∧
      (cancelled.playback.deliver counting 0).playback.recordsRead = 9 ∧
      (playback.calls counting 0).map Prod.fst = [first.call, second.call] ∧
      (playback.deliver counting 0).result = .error (.read .truncated) := by
  intro first second playback stopping counting cancelled
  have hfirst : playback.next = (.ok (some first), playback.after 1) := by decide +kernel
  have hsecond : (playback.after 1).next = (.ok (some second), playback.after 2) := by
    decide +kernel
  have hthird : (playback.after 2).next = (.error .truncated, playback.after 3) := by
    decide +kernel
  have hread : playback.recordsRead = 7 := rfl
  clear_value playback
  have hstopping : Runs stopping playback () [(first.call, .cancel 9)] (.stopped 9) ()
      (playback.after 1) := .cancelled hfirst rfl
  have hrest : Runs counting (playback.after 1) 1 [(second.call, .proceed)] (.failed .truncated) 2
      (playback.after 3) := .proceeded hsecond rfl (.failed hthird)
  have hagain : Runs counting (playback.after 1) 0 [(second.call, .proceed)] (.failed .truncated) 1
      (playback.after 3) := .proceeded hsecond rfl (.failed hthird)
  have hcounting : Runs counting playback 0 [(first.call, .proceed), (second.call, .proceed)]
      (.failed .truncated) 2 (playback.after 3) := .proceeded hfirst rfl hrest
  obtain ⟨-, hcancels, hresumes⟩ := cancellation_resumes playback
  obtain ⟨hreports, -, hleaves⟩ := hcancels stopping () 0 9
  have hresult := hreports.mp ⟨first.call, by rw [hstopping.calls_eq]; rfl⟩
  obtain ⟨-, hplayback, hcount, -⟩ := hleaves hresult
  have hresumed : Resumed playback ([first.call] ++ [second.call]) (.error (.read .truncated))
      (playback.after 3) := by
    have hmore := @Resumed.last Nat (playback.after 1) counting 0 (by
      rw [hagain.deliver]
      exact nofun)
    rw [hagain.calls_eq, hagain.deliver] at hmore
    have hall := Resumed.cancelled stopping () hresult (hplayback ▸ hmore)
    rwa [hstopping.calls_eq] at hall
  obtain ⟨htotal, hone⟩ := hresumes _ _ _ hresumed
  obtain ⟨hcalls, hsame, -⟩ := hone counting 0 (by
    rw [hcounting.deliver]
    exact nofun)
  have hagainDelivered : cancelled.playback.deliver counting 0 = _ :=
    (congrArg (deliver counting 0) hplayback).trans hagain.deliver
  rw [hread] at hcount htotal
  refine ⟨hresult, hcount, ?_, ?_, hcalls.symm, (hsame _).mp rfl⟩
  · rw [hagainDelivered]
    rfl
  · rw [hagainDelivered]
    exact htotal

end StateTrace.Playback
