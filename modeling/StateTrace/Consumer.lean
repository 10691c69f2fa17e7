import StateTrace.Playback

/-!
# Consumers

A consumer gets the events of a trace in order and answers each with a verdict:
go on, or cancel with a code.  A `Consumer` has one method for each kind of
event, and `receive` picks the method.  All methods are required, so a new kind
of event has to be dealt with by every consumer.

`Playback.deliver` gives the remaining events to a single function and
`Playback.deliverTo` to a consumer.  Both count the events they delivered.  They
stop right after the event that was cancelled, so a later delivery goes on with
the next one.
-/

namespace StateTrace

/-- The answer of a consumer to an event. -/
inductive Verdict where
  /-- Go on with the next event. -/
  | proceed
  /-- Stop here and report the code. -/
  | cancel (code : Int32)
deriving DecidableEq, Repr, Inhabited

namespace Verdict

def code? : Verdict → Option Int32
  | proceed => none
  | cancel code => some code

end Verdict

/-! ## Errors -/

/-- Why a delivery did not reach the end of the trace. -/
inductive DeliveryError where
  | read (error : ReadError)
  /-- The consumer cancelled at the event with this number, from one. -/
  | cancelled (code : Int32) (record : Nat)
deriving DecidableEq, Repr, Inhabited

namespace DeliveryError

def message : DeliveryError → String
  | read error => error.message
  | cancelled code record => s!"dispatch cancelled by consumer at record {record} (code {code})"

/-- The code of the consumer, if it cancelled. -/
def cancelCode? : DeliveryError → Option Int32
  | read _ => none
  | cancelled code _ => some code

end DeliveryError

/-! ## Delivery -/

/-- What a delivery leaves behind. -/
structure Delivery (σ : Type) where
  /-- The number of events delivered, if the trace was read to its end. -/
  result : Except DeliveryError Nat
  /-- The state of the consumer. -/
  state : σ
  /-- The playback after the last event or error. -/
  playback : Playback

namespace Playback

/-- The visitor that passes the parts of a record to a function. -/
def visitor {σ : Type} (callback : Scope → Kind → Event → StateM σ Verdict) : Visitor σ Int32 :=
  fun r => Verdict.code? <$> callback r.scope r.event.kind r.event

/-- Give the remaining events to a function, each with its scope and its kind. -/
def deliver {σ : Type} (callback : Scope → Kind → Event → StateM σ Verdict) (state : σ)
    (playback : Playback) : Delivery σ :=
  let consumed := playback.consume (visitor callback) state
  let result := match consumed.ending with
    | .complete => .ok consumed.count
    | .failed error => .error (.read error)
    | .stopped code => .error (.cancelled code consumed.count)
  ⟨result, consumed.state, consumed.playback⟩

end Playback

/-! ## Consumers by kind of event -/

/-- A consumer with a state, one method for each kind of event. -/
structure Consumer (σ : Type) where
  /-- An event of a number that stands for no kind. -/
  unknown : Scope → UInt16 → StateM σ Verdict
  monitorCreate : Scope → MonitorCreate → StateM σ Verdict
  monitorState : Scope → MonitorState → StateM σ Verdict
  monitorData : Scope → MonitorData → StateM σ Verdict
  nodeCreate : Scope → StateM σ Verdict
  nodeDestroy : Scope → StateM σ Verdict
  nodePosition : Scope → NodePosition → StateM σ Verdict

/-- The method for the kind of an event gets the event. -/
def Consumer.receive {σ : Type} (consumer : Consumer σ) (scope : Scope) : Event → StateM σ Verdict
  | .unknown raw => consumer.unknown scope raw
  | .monitorCreate payload => consumer.monitorCreate scope payload
  | .monitorState payload => consumer.monitorState scope payload
  | .monitorData payload => consumer.monitorData scope payload
  | .nodeCreate => consumer.nodeCreate scope
  | .nodeDestroy => consumer.nodeDestroy scope
  | .nodePosition payload => consumer.nodePosition scope payload

/-- Give the remaining events to a consumer. -/
def Playback.deliverTo {σ : Type} (consumer : Consumer σ) (state : σ) (playback : Playback) :
    Delivery σ :=
  playback.deliver (fun scope _ event => consumer.receive scope event) state

end StateTrace
