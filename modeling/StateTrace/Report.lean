import StateTrace.Consumer

/-!
# Reports

A *report* is a consumer that ends by writing what it found.  It is prepared
before the first event, gets the events of a trace, and is concluded after the
last one.  `Playback.report` runs one.  What a report writes to is up to the report:
running it only passes the sink on.

A report is concluded also when its events stopped early, by an error of the
trace or by its own verdict.  So what was found before is written all the same.
If delivery and writing both fail, the error of the delivery is the one that is
reported.
-/

namespace StateTrace

/-- A consumer with states in `σ` that writes what it found to a sink in `ω`. -/
structure Report (σ ω : Type) extends Consumer σ where
  name : String
  description : String
  /-- The state to start with, made from the state that is there. -/
  prepare : σ → σ
  /-- Writing what was found, and the state that is left. -/
  conclude : σ → ω → Except StreamError Unit × σ × ω

/-- Why a report is not complete. -/
inductive ReportError where
  | delivery (error : DeliveryError)
  | output (error : StreamError)
deriving DecidableEq, Repr, Inhabited

def ReportError.message : ReportError → String
  | delivery error => error.message
  | output error => "writing output: " ++ error.text

/-- What running a report leaves behind. -/
structure Reported (σ ω : Type) where
  /-- The number of events delivered, if nothing failed. -/
  result : Except ReportError Nat
  state : σ
  /-- The sink with all that was written. -/
  sink : ω
  /-- The playback after the last event or error. -/
  playback : Playback

/-- Run a report on the remaining events: prepare it, deliver, and conclude it
whatever the delivery came to. -/
def Playback.report {σ ω : Type} (report : Report σ ω) (state : σ) (sink : ω)
    (playback : Playback) : Reported σ ω :=
  let delivery := playback.deliverTo report.toConsumer (report.prepare state)
  let (written, state, sink) := report.conclude delivery.state sink
  let result := match delivery.result, written with
    | .error error, _ => .error (.delivery error)
    | .ok _, .error error => .error (.output error)
    | .ok count, .ok () => .ok count
  ⟨result, state, sink, delivery.playback⟩

end StateTrace
