import StateTrace.Automaton
import StateTrace.Record.Event

/-!
# Automata by context

The automata of all contexts of a trace.  A state event goes to the automaton of
its context, which is made when its first event arrives.  The entity of an event
plays no part: the states of all entities of a context make one automaton.
-/

namespace StateTrace

/-- The automata of the contexts that were seen. -/
structure Automata where
  /-- One automaton for each context. -/
  byContext : Std.TreeMap UInt16 Automaton

namespace Automata

/-- No context was seen. -/
def empty : Automata := ⟨∅⟩

instance : Inhabited Automata := ⟨empty⟩

/-- The automaton that the events of a context go to. -/
def automatonOf (automata : Automata) (context : UInt16) : Automaton :=
  automata.byContext.getD context (.empty context)

/-- Take in a state event. -/
def observe (automata : Automata) (event : MonitorState) : Automata :=
  let grown := ((automata.automatonOf event.context).observe event.state).2
  ⟨automata.byContext.insert event.context grown⟩

/-- The automaton of a context, if the context was seen. -/
def context? (automata : Automata) (context : UInt16) : Option Automaton :=
  automata.byContext[context]?

/-- The automata in ascending order of their contexts. -/
def contexts (automata : Automata) : List Automaton := automata.byContext.toList.map Prod.snd

def size (automata : Automata) : Nat := automata.byContext.size

/-- Contexts do not mix, and entities do. -/
example :
    ([⟨2, 1, 7⟩, ⟨1, 1, 3⟩, ⟨2, 9, 8⟩].foldl observe empty).contexts.map Automaton.adjacency =
      [[(3, [])], [(7, [8]), (8, [])]] := by
  decide +kernel

end Automata

end StateTrace
