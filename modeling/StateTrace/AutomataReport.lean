import StateTrace.Dot
import StateTrace.Report

/-!
# The report of automata

The report that rebuilds the automata of a trace and writes them as dot text.
It starts from no automata, takes in the state events, lets all other events
pass, and never cancels.  After it has written, or tried to, it holds no automata
again, so runs of the report do not see each other.
-/

namespace StateTrace.Automata

/-- Let an event pass. -/
def pass : StateM Automata Verdict := pure .proceed

/-- The consumer that takes in the state events. -/
def consumer : Consumer Automata where
  unknown _ _ := pass
  monitorCreate _ _ := pass
  monitorState _ event := fun automata => (.proceed, automata.observe event)
  monitorData _ _ := pass
  nodeCreate _ := pass
  nodeDestroy _ := pass
  nodePosition _ _ := pass

/-- The report of the automata under the names of a registry. -/
def report (names : NameRegistry) : Report Automata Sink where
  toConsumer := consumer
  name := "graph"
  description := "输出各组件自动机的 dot 图"
  prepare _ := empty
  conclude automata sink :=
    let (written, sink) := automata.render names sink
    (written, empty, sink)

end StateTrace.Automata
