import StateTrace.Proofs.Byte.Filling
import StateTrace.Proofs.Playback.Calls
import StateTrace.Report

/-!
# The life of a report

`Callback.handed` says what handing records to a callback comes to, in terms of the records
alone: one call for each of them, up to the first that is cancelled.  A delivery hands over the
records of the course of its playback (`Plays.exists_runs_handed`).

`Report.logging` logs what happens to a report, stage by stage, and changes nothing else.
`report_lifecycle` is the log of a whole run, with what the run leaves and what it reports.  No
end of the delivery skips the conclusion, and no failure of the conclusion hides one of the
delivery.
-/

namespace StateTrace

/-! ## Records handed over -/

/-- What handing records to a callback comes to. -/
structure Handed (σ : Type) where
  /-- The calls, each with the answer to it. -/
  calls : Notes
  /-- The code of the last call, if that one was cancelled. -/
  code? : Option Int32
  /-- The state that is left. -/
  state : σ

/-- Hand records to a callback, one after the other, up to the first that it cancels. -/
def Callback.handed {σ : Type} (callback : Callback σ) : σ → List Record → Handed σ
  | state, [] => ⟨[], none, state⟩
  | state, r :: records =>
      match callback r.scope r.event.kind r.event state with
      | (.cancel code, last) => ⟨[(r.call, .cancel code)], some code, last⟩
      | (.proceed, next) =>
          let rest := Callback.handed callback next records
          ⟨(r.call, .proceed) :: rest.calls, rest.code?, rest.state⟩

section Handed
variable {σ : Type} {callback : Callback σ} {state next last : σ} {r : Record}

theorem Callback.handed_cancel {code : Int32}
    (h : callback r.scope r.event.kind r.event state = (.cancel code, last))
    (records : List Record) :
    callback.handed state (r :: records) = ⟨[(r.call, .cancel code)], some code, last⟩ := by
  rw [handed, h]

theorem Callback.handed_proceed
    (h : callback r.scope r.event.kind r.event state = (.proceed, next))
    (records : List Record) :
    let rest := callback.handed next records
    callback.handed state (r :: records) =
      ⟨(r.call, .proceed) :: rest.calls, rest.code?, rest.state⟩ := by
  rw [handed, h]

/-- The calls are those of the first records.  All records are handed over unless one is
cancelled, and the one that is cancelled is the last. -/
theorem Callback.handed_calls (callback : Callback σ) (state : σ) (records : List Record) :
    let handed := callback.handed state records
    handed.calls.map Prod.fst <+: records.map Record.call ∧
      (handed.code? = none →
        handed.calls.length = records.length ∧ ∀ note ∈ handed.calls, note.2 = .proceed) ∧
      ∀ code, handed.code? = some code → ∃ before call,
        handed.calls = before ++ [(call, .cancel code)] ∧ ∀ note ∈ before, note.2 = .proceed := by
  induction records generalizing state with
  | nil => exact ⟨List.nil_prefix, fun _ => ⟨rfl, nofun⟩, nofun⟩
  | cons r records ih =>
      match h : callback r.scope r.event.kind r.event state with
      | (.cancel code, last) =>
          rw [handed_cancel h]
          refine ⟨List.cons_prefix_cons.mpr ⟨rfl, List.nil_prefix⟩, nofun, fun code' hcode => ?_⟩
          cases hcode
          exact ⟨[], r.call, rfl, nofun⟩
      | (.proceed, next) =>
          obtain ⟨hcalls, hall, hlast⟩ := ih next
          rw [handed_proceed h]
          refine ⟨List.cons_prefix_cons.mpr ⟨rfl, hcalls⟩, fun hnone => ?_, fun code hcode => ?_⟩
          · obtain ⟨hlength, hproceed⟩ := hall hnone
            exact ⟨congrArg Nat.succ hlength, List.forall_mem_cons.mpr ⟨rfl, hproceed⟩⟩
          · obtain ⟨before, call, hsplit, hproceed⟩ := hlast code hcode
            exact ⟨(r.call, .proceed) :: before, call, congrArg (_ :: ·) hsplit,
              List.forall_mem_cons.mpr ⟨rfl, hproceed⟩⟩

/-- How a delivery ends that hands over the records before an error or the end of a trace. -/
def Handed.ending (handed : Handed σ) (error : Option ReadError) : Playback.Ending Int32 :=
  match handed.code? with
  | some code => .stopped code
  | none => Playback.ending error

/-- A delivery hands over the records of the course. -/
theorem Playback.Plays.exists_runs_handed {playback rest : Playback} {records : List Record}
    {error : Option ReadError} (h : Plays playback records error rest) (callback : Callback σ)
    (state : σ) :
    let handed := callback.handed state records
    ∃ left, Runs callback playback state handed.calls (handed.ending error) handed.state left := by
  induction h generalizing state with
  | complete hnext => exact ⟨_, .complete hnext⟩
  | failed hnext => exact ⟨_, .failed hnext⟩
  | @record playback middle _ r records _ hnext _ ih =>
      match hanswer : callback r.scope r.event.kind r.event state with
      | (.cancel code, last) =>
          rw [Callback.handed_cancel hanswer]
          exact ⟨middle, .cancelled hnext hanswer⟩
      | (.proceed, next) =>
          obtain ⟨left, hruns⟩ := ih next
          rw [Callback.handed_proceed hanswer]
          exact ⟨left, .proceeded hnext hanswer hruns⟩

end Handed

/-! ## Consumers made from callbacks -/

/-- The consumer whose methods pass everything to a callback, each with the kind that it stands
for. -/
def Callback.consumer {σ : Type} (callback : Callback σ) : Consumer σ where
  unknown scope raw := callback scope .unknown (.unknown raw)
  monitorCreate scope payload := callback scope .monitorCreate (.monitorCreate payload)
  monitorState scope payload := callback scope .monitorState (.monitorState payload)
  monitorData scope payload := callback scope .monitorData (.monitorData payload)
  nodeCreate scope := callback scope .nodeCreate .nodeCreate
  nodeDestroy scope := callback scope .nodeDestroy .nodeDestroy
  nodePosition scope payload := callback scope .nodePosition (.nodePosition payload)

theorem Playback.deliverTo_consumer {σ : Type} (callback : Callback σ) (state : σ)
    (playback : Playback) :
    playback.deliverTo callback.consumer state = playback.deliver callback state := by
  have hvisitor : visitor callback.consumer.callback = visitor callback := by
    funext r
    have hreceive : callback.consumer.receive r.scope r.event =
        callback r.scope r.event.kind r.event := by
      cases r.event <;> rfl
    exact congrArg (Verdict.code? <$> ·) hreceive
  show playback.deliver callback.consumer.callback state = _
  rw [deliver, hvisitor, deliver]

/-! ## Stages -/

/-- What happens to a report. -/
inductive Stage where
  | prepared
  /-- One of its methods is called, and answers. -/
  | received (note : Call × Verdict)
  /-- It is concluded, and that succeeds or fails. -/
  | concluded (written : Except StreamError Unit)

/-- The report, with a log of all that happens to it. -/
def Report.logging {σ ω : Type} (report : Report σ ω) : Report (σ × List Stage) ω where
  toConsumer := (report.toConsumer.callback.logging .received).consumer
  name := report.name
  description := report.description
  prepare := fun (state, log) => (report.prepare state, log ++ [.prepared])
  conclude := fun (state, log) sink =>
    let concluded := report.conclude state sink
    (concluded.1, (concluded.2.1, log ++ [.concluded concluded.1]), concluded.2.2)

/-- The result of a report: that of its delivery if it failed, else that of writing if this failed,
and else the number of the calls. -/
def Handed.result {σ : Type} (handed : Handed σ) (error : Option ReadError)
    (written : Except StreamError Unit) : Except ReportError Nat :=
  match handed.code?, error, written with
  | some code, _, _ => .error (.delivery (.cancelled code handed.calls.length))
  | none, some failure, _ => .error (.delivery (.read failure))
  | none, none, .error failure => .error (.output failure)
  | none, none, .ok () => .ok handed.calls.length

section Result
variable {σ : Type} {handed : Handed σ} {error : Option ReadError}
  {written : Except StreamError Unit}

theorem Handed.result_of_cancelled {code : Int32} (h : handed.code? = some code) :
    handed.result error written = .error (.delivery (.cancelled code handed.calls.length)) := by
  unfold result
  rw [h]

theorem Handed.result_of_failed (h : handed.code? = none) (failure : ReadError) :
    handed.result (some failure) written = .error (.delivery (.read failure)) := by
  unfold result
  rw [h]

theorem Handed.result_of_unwritten (h : handed.code? = none) (failure : StreamError) :
    handed.result none (.error failure) = .error (.output failure) := by
  unfold result
  rw [h]

theorem Handed.result_of_written (h : handed.code? = none) :
    handed.result none (.ok ()) = .ok handed.calls.length := by
  unfold result
  rw [h]

end Result

namespace Playback

/-- Whatever its delivery came to, a report is concluded, on the state that this left and on the
sink as it was. -/
theorem report_of_deliverTo {σ τ ω : Type} {report : Report σ ω} {playback left : Playback}
    {state last : σ} {handed : Handed τ} {error : Option ReadError}
    (h : playback.deliverTo report.toConsumer (report.prepare state) =
      ⟨(handed.ending error).result handed.calls.length, last, left⟩) (sink : ω) :
    let concluded := report.conclude last sink
    playback.report report state sink =
      ⟨handed.result error concluded.1, concluded.2.1, concluded.2.2, left⟩ := by
  rw [Playback.report, h]
  unfold Handed.result Handed.ending
  obtain ⟨written, final, rest⟩ := report.conclude last sink
  cases handed.code? with
  | some code => rfl
  | none =>
      cases error with
      | some failure => rfl
      | none => cases written <;> rfl

/-- A report on a playback with a known course gets its records and is concluded, and the log
of it has the calls between the two ends. -/
theorem Plays.exists_report {σ ω : Type} {playback rest : Playback} {records : List Record}
    {error : Option ReadError} (h : playback.Plays records error rest) (report : Report σ ω)
    (state : σ) (sink : ω) :
    let handed := report.toConsumer.callback.handed (report.prepare state) records
    let concluded := report.conclude handed.state sink
    let result := handed.result error concluded.1
    ∃ left, playback.report report state sink = ⟨result, concluded.2.1, concluded.2.2, left⟩ ∧
      playback.report report.logging (state, []) sink =
        ⟨result, (concluded.2.1,
          [.prepared] ++ handed.calls.map .received ++ [.concluded concluded.1]),
          concluded.2.2, left⟩ := by
  intro handed concluded result
  obtain ⟨left, hruns⟩ := h.exists_runs_handed report.toConsumer.callback (report.prepare state)
  have hlogged : playback.deliverTo report.logging.toConsumer
      (report.logging.prepare (state, [])) =
        ⟨(handed.ending error).result handed.calls.length,
          (handed.state, [.prepared] ++ handed.calls.map .received), left⟩ :=
    (deliverTo_consumer _ _ _).trans (hruns.logging Stage.received [.prepared]).deliver
  exact ⟨left, report_of_deliverTo hruns.deliver sink, report_of_deliverTo hlogged sink⟩

/-- Any playback, and on it any report with any methods, any state and a sink of any kind.  With
`records` and `error` the course of the playback, the report is prepared once, gets one call for
each record in order, up to the first that it cancels, and is concluded once.  It is concluded on
the sink as it was, and what this leaves of the sink stays.  The result is that of the delivery if
it was cancelled or met an error, whatever came of writing, else the error of writing, and else the
number of calls.  If a report uses a sink that can fill by a script, the bytes that were taken of
its writes follow those that were there. -/
theorem report_lifecycle (playback : Playback) :
    ∃ (records : List Record) (error : Option ReadError),
      playback.answers (records.length + 1) =
        records.map (fun r => .ok (some r)) ++ [closing error] ∧
      (∀ (σ ω : Type) (report : Report σ ω) (state : σ) (sink : ω),
        let handed := report.toConsumer.callback.handed (report.prepare state) records
        let concluded := report.conclude handed.state sink
        let reported := playback.report report state sink
        (handed.calls.map Prod.fst <+: records.map Record.call ∧
          (handed.code? = none →
            handed.calls.length = records.length ∧ ∀ note ∈ handed.calls, note.2 = .proceed) ∧
          ∀ code, handed.code? = some code → ∃ before call,
            handed.calls = before ++ [(call, .cancel code)] ∧ ∀ note ∈ before, note.2 = .proceed) ∧
        playback.report report.logging (state, []) sink =
          ⟨reported.result, (reported.state,
            [.prepared] ++ handed.calls.map .received ++ [.concluded concluded.1]),
            reported.sink, reported.playback⟩ ∧
        reported.state = concluded.2.1 ∧ reported.sink = concluded.2.2 ∧
        (∀ code, handed.code? = some code →
          reported.result = .error (.delivery (.cancelled code handed.calls.length))) ∧
        (handed.code? = none → ∀ failure, error = some failure →
          reported.result = .error (.delivery (.read failure))) ∧
        (handed.code? = none → error = none → ∀ failure, concluded.1 = .error failure →
          reported.result = .error (.output failure)) ∧
        (handed.code? = none → error = none → concluded.1 = .ok () →
          reported.result = .ok handed.calls.length)) ∧
      ∀ (σ : Type) (report : Report σ Sink)
        (script : σ → Sink.Script (Except StreamError Unit × σ)),
        (∀ state sink, let ((written, left), sink') := (script state).run sink
          report.conclude state sink = (written, left, sink')) →
        ∀ state sink,
          let handed := report.toConsumer.callback.handed (report.prepare state) records
          (playback.report report state sink).sink.bytes =
            sink.bytes ++ (script handed.state).accepted sink := by
  obtain ⟨records, error, rest, hplays⟩ := playback.exists_plays
  refine ⟨records, error, hplays.answers, fun σ ω report state sink => ?_,
    fun σ report script hscript state sink => ?_⟩
  · intro handed concluded reported
    obtain ⟨left, hreport, hlogged⟩ := hplays.exists_report report state sink
    have hreported : reported =
        ⟨handed.result error concluded.1, concluded.2.1, concluded.2.2, left⟩ := hreport
    have hresult : reported.result = handed.result error concluded.1 := by rw [hreported]
    refine ⟨report.toConsumer.callback.handed_calls _ records, ?_, by rw [hreported],
      by rw [hreported], fun code hcode => ?_, fun hnone failure herror => ?_,
      fun hnone herror failure hwritten => ?_, fun hnone herror hwritten => ?_⟩
    · rw [hlogged, hreported]
    · exact hresult.trans (Handed.result_of_cancelled hcode)
    · rw [hresult, herror]
      exact Handed.result_of_failed hnone failure
    · rw [hresult, herror, hwritten]
      exact Handed.result_of_unwritten hnone failure
    · rw [hresult, herror, hwritten]
      exact Handed.result_of_written hnone
  · intro handed
    obtain ⟨left, hreported, -⟩ := hplays.exists_report report state sink
    rw [hreported, ← (script handed.state).bytes_run sink]
    exact congrArg (fun concluded => concluded.2.2.bytes) (hscript handed.state sink)

/-- A report that cancels at its second call, and a sink with room for one byte less than what is
written at the end.  The part that fits is written, and the error is the one of the delivery. -/
theorem report_lifecycle_cancelled_and_full :
    let call : Call := ⟨.empty, .nodeCreate, .nodeCreate⟩
    let callback : Callback Nat := fun _ _ _ count =>
      if count = 1 then (.cancel 7, count + 1) else (.proceed, count + 1)
    let report : Report Nat Sink := ⟨callback.consumer, "", "", fun _ => 0, fun count sink =>
      let written := Sink.write [1, 2, 3] sink
      (written.1, count, written.2)⟩
    let playback : Playback := ⟨⟨⟨[.bytes [0, 0, 0, 0, 0, 4, 0, 0, 0, 0, 0, 0, 0, 0, 0, 4, 0, 0, 0,
      0, 0, 0, 0, 0, 0, 4, 0, 0, 0, 0]]⟩, []⟩, 1, 0, 0⟩
    let sink : Sink := ⟨#[9], some 2, .takesNothing, none⟩
    let logged := playback.report report.logging (5, []) sink
    logged.result = .error (.delivery (.cancelled 7 2)) ∧
      logged.state = (2, [.prepared, .received (call, .proceed), .received (call, .cancel 7),
        .concluded (.error .writeZero)]) ∧
      logged.sink.bytes = [9, 1, 2] := by
  intro call callback report playback sink logged
  obtain ⟨records, error, hanswers, hreports, hscripts⟩ := report_lifecycle playback
  obtain ⟨-, hlogged, hstate, -, hcancelled, -⟩ := hreports Nat Sink report 5 sink
  have hplays : playback.Plays (List.replicate 3 ⟨.empty, .nodeCreate⟩) none (playback.after 4) :=
    plays_of_answers (by decide +kernel)
  obtain ⟨rfl, rfl, -⟩ := (plays_of_answers hanswers).unique hplays
  have hbytes := hscripts Nat report
    (fun count => .write [1, 2, 3] fun _ written => .finish (written, count)) (fun _ _ => rfl)
    5 sink
  have hreported : logged = _ := hlogged
  rw [hreported, hstate]
  exact ⟨hcancelled 7 rfl, rfl, hbytes⟩

end Playback

end StateTrace
