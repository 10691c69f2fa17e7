import StateTrace.AutomataReport
import StateTrace.Proofs.Automaton.Drawing
import StateTrace.Proofs.Byte.Filling
import StateTrace.Proofs.Playback.Course

/-!
# The report of automata, from source to sink

`report_draws` follows the report of the automata through a whole run, for any source
and any sink.  What it writes is the drawing of the state events that were read before
the end of the trace or the first error, up to where the sink is full.  An error of the
trace is reported whether or not the sink was full.  The automata that were there before
play no part, and none are left.
-/

namespace StateTrace

/-- The state events of records, in order. -/
def stateEvents (records : List Record) : List MonitorState :=
  records.filterMap fun r =>
    match r.event with
    | .monitorState event => some event
    | _ => none

namespace Automata

/-! ## The report of the automata -/

/-- A record is taken in if it has a state event, and passes otherwise. -/
def take (automata : Automata) (r : Record) : Automata :=
  match r.event with
  | .monitorState event => automata.observe event
  | _ => automata

theorem receive_consumer (r : Record) (automata : Automata) :
    consumer.receive r.scope r.event automata = (.proceed, automata.take r) := by
  rw [take]
  cases r.event <;> rfl

theorem foldl_take (records : List Record) (automata : Automata) :
    records.foldl take automata = (stateEvents records).foldl observe automata := by
  rw [stateEvents, List.foldl_filterMap]
  congr 1
  funext automata r
  rw [take]
  cases r.event <;> rfl

/-- Taking records in from no automata on shows their state events. -/
theorem shows_foldl_take (records : List Record) :
    (records.foldl take empty).Shows (stateEvents records) := by
  rw [foldl_take]
  exact (shows_nil rfl).foldl_observe (stateEvents records)

/-- The result of a report: the error of its delivery if there is one, else that of
writing, else the count. -/
def reportResult : Except DeliveryError Nat → Except StreamError Unit → Except ReportError Nat
  | .error error, _ => .error (.delivery error)
  | .ok _, .error error => .error (.output error)
  | .ok count, .ok () => .ok count

/-- A report delivers to no automata, and writes what that leaves. -/
theorem report_eq (names : NameRegistry) (automata : Automata) (playback : Playback)
    (sink : Sink) :
    let delivery := playback.deliverTo consumer empty
    let rendered := delivery.state.render names sink
    playback.report (report names) automata sink =
      ⟨reportResult delivery.result rendered.1, empty, rendered.2, delivery.playback⟩ := by
  rfl

/-- A report on a playback with a known course writes the drawing of its state events. -/
theorem report_of_plays {playback rest : Playback} {records : List Record}
    {error : Option ReadError} (h : playback.Plays records error rest) (names : NameRegistry)
    (automata : Automata) (sink : Sink) :
    let written := Sink.write (Dot.drawn names (stateEvents records)) sink
    playback.report (report names) automata sink =
      ⟨reportResult (Playback.delivered records.length error) written.1, empty, written.2,
        rest⟩ := by
  intro written
  have hwritten : (records.foldl take empty).render names sink = written :=
    congrFun ((shows_foldl_take records).render names) sink
  have heq := report_eq names automata playback sink
  rw [h.deliverTo receive_consumer empty] at heq
  rw [← hwritten]
  exact heq

/-- A run of the report writes the drawing of the state events that were read, or as
much of it as fits the sink.  It reports the error of the trace if there is one, else
that of the sink if the drawing does not fit, and else the number of the records.  It
never reports a cancellation, and no automata are left. -/
theorem report_draws (names : NameRegistry) (automata : Automata) (playback : Playback)
    (sink : Sink) :
    ∃ records error rest, playback.Plays records error rest ∧
      let text := Dot.drawn names (stateEvents records)
      let reported := playback.report (report names) automata sink
      reported.sink.bytes = sink.bytes ++ sink.fitting text ∧
        (∀ failure, error = some failure →
          reported.result = .error (.delivery (.read failure))) ∧
        (error = none → sink.Fits text → reported.result = .ok records.length) ∧
        (error = none → ¬sink.Fits text →
          reported.result = .error (.output sink.refusal.error)) ∧
        (∀ code number, reported.result ≠ .error (.delivery (.cancelled code number))) ∧
        reported.state.contexts = [] ∧ reported.playback = rest := by
  obtain ⟨records, error, rest, hplays⟩ := playback.exists_plays
  refine ⟨records, error, rest, hplays, ?_⟩
  intro text reported
  have hreported : reported = ⟨reportResult (Playback.delivered records.length error)
      (Sink.write text sink).1, empty, (Sink.write text sink).2, rest⟩ :=
    report_of_plays hplays names automata sink
  rw [hreported]
  refine ⟨Sink.bytes_write text sink, ?_, ?_, ?_, ?_, rfl, rfl⟩
  · intro failure herror
    rw [herror]
    rfl
  · intro herror hfits
    rw [herror, Sink.write_eq_ok_iff.mpr hfits]
    rfl
  · intro herror hfull
    rw [herror, Sink.write_of_not_fits_all hfull]
    rfl
  · intro code number
    cases error with
    | some failure => exact nofun
    | none => cases (Sink.write text sink).1 <;> exact nofun

/-- A context that goes from one state to another, whose name has a quote and a letter of two
bytes.  The sink fills inside this letter, and then the source ends or fails. -/
theorem report_draws_cut :
    let names := NameRegistry.empty.nameState 1 4 "\"é"
    let playback (last : List Answer) : Playback :=
      ⟨⟨⟨.bytes [0, 0, 0, 0, 0, 2, 0, 0, 0, 6, 0, 1, 0, 2, 0, 3,
        0, 0, 0, 0, 0, 2, 0, 0, 0, 6, 0, 1, 0, 5, 0, 4] :: last⟩, []⟩, 1, 0, 0⟩
    let sink : Sink := ⟨#[9], some 30, .fails .permissionDenied (by decide), none⟩
    let reported (last : List Answer) :=
      (playback last).report (report names) (empty.observe ⟨7, 7, 7⟩) sink
    -- Behind the byte that was there: `digraph "1"`, `"3";`, and of `"3" -> "\"é";` the most.
    let taken : List UInt8 := [9, 0x64, 0x69, 0x67, 0x72, 0x61, 0x70, 0x68, 0x20,
      0x22, 0x31, 0x22, 0x20, 0x7b, 0x0a, 0x22, 0x33, 0x22, 0x3b, 0x0a,
      0x22, 0x33, 0x22, 0x20, 0x2d, 0x3e, 0x20, 0x22, 0x5c, 0x22, 0xc3]
    (∀ last ∈ [[], [.fault .isDirectory]],
      (reported last).sink.bytes = taken ∧ (reported last).state.contexts = []) ∧
      (reported []).result = .error (.output .permissionDenied) ∧
      (reported [.fault .isDirectory]).result =
        .error (.delivery (.read (.stream .isDirectory))) := by
  intro names playback sink reported taken
  let records : List Record :=
    [⟨.empty, .monitorState ⟨1, 2, 3⟩⟩, ⟨.empty, .monitorState ⟨1, 5, 4⟩⟩]
  have hfitting : sink.bytes ++ sink.fitting (Dot.drawn names (stateEvents records)) = taken := by
    decide +kernel
  have hfull : ¬sink.Fits (Dot.drawn names (stateEvents records)) := by
    rw [Sink.fits_iff rfl]
    decide +kernel
  have hended : (playback []).Plays records none ((playback []).after 3) :=
    Playback.plays_of_answers (by decide +kernel)
  have hfailed : (playback [.fault .isDirectory]).Plays records (some (.stream .isDirectory))
      ((playback [.fault .isDirectory]).after 3) := Playback.plays_of_answers (by decide +kernel)
  obtain ⟨_, _, _, hplays, hbytes, -, -, houtput, -, hstate, -⟩ :=
    report_draws names (empty.observe ⟨7, 7, 7⟩) (playback []) sink
  obtain ⟨rfl, rfl, -⟩ := hplays.unique hended
  obtain ⟨_, _, _, hplays', hbytes', hdelivery, -, -, -, hstate', -⟩ :=
    report_draws names (empty.observe ⟨7, 7, 7⟩) (playback [.fault .isDirectory]) sink
  obtain ⟨rfl, rfl, -⟩ := hplays'.unique hfailed
  refine ⟨List.forall_mem_cons.mpr ⟨⟨hbytes.trans hfitting, hstate⟩,
    List.forall_mem_singleton.mpr ⟨hbytes'.trans hfitting, hstate'⟩⟩, houtput rfl hfull,
    hdelivery _ rfl⟩

end Automata

end StateTrace
