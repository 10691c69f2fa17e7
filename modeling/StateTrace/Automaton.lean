import Std.Data.TreeMap
import Std.Data.TreeSet

/-!
# Automata

The automaton of a context, rebuilt from the states that it was seen in.  Its
vertices are the states seen.  It has an edge from one state to another if the
second was seen right after the first, so a state seen twice in a row has an
edge to itself.

A vertex has the number of its state, and the automaton keeps it under that
number.  `observe` takes in one more state.  It needs only the state seen last, so
the automaton grows with the distinct states and edges and not with the number of
observations.  Vertices and successors are listed in ascending order.
-/

namespace StateTrace

/-- A set of states. -/
abbrev StateSet := Std.TreeSet UInt16

/-- A vertex of an automaton. -/
structure StateNode where
  state : UInt16
  /-- The states seen right after it. -/
  successors : StateSet

/-- The automaton of a context, as far as it was seen. -/
structure Automaton where
  context : UInt16
  /-- The state seen last. -/
  last : Option UInt16
  /-- The vertices, each under its state. -/
  nodes : Std.TreeMap UInt16 StateNode

namespace Automaton

/-- The automaton of a context in which no state was seen. -/
def empty (context : UInt16) : Automaton := ⟨context, none, ∅⟩

/-- Make a state a vertex.  One that is a vertex already keeps its successors. -/
def addVertex (automaton : Automaton) (state : UInt16) : Automaton :=
  { automaton with nodes := automaton.nodes.insertIfNew state ⟨state, ∅⟩ }

/-- Add the edge from one state to another.  The answer is whether it is new.  There
is none if the first state was never seen. -/
def addEdge? (automaton : Automaton) (source target : UInt16) : Option (Bool × Automaton) :=
  automaton.nodes[source]?.map fun node =>
    let grown := { node with successors := node.successors.insert target }
    (!node.successors.contains target,
      { automaton with nodes := automaton.nodes.insert source grown })

/-- Take in a state.  The answer is whether it made a new edge. -/
def observe (automaton : Automaton) (state : UInt16) : Bool × Automaton :=
  let seen := automaton.addVertex state
  let (added, grown) := match automaton.last with
    | none => (false, seen)
    | some previous => (seen.addEdge? previous state).getD (false, seen)
  (added, { grown with last := some state })

/-- Take in states in order. -/
def observeAll (automaton : Automaton) (states : List UInt16) : Automaton :=
  states.foldl (fun automaton state => (automaton.observe state).2) automaton

/-- The vertices in ascending order of their states. -/
def vertices (automaton : Automaton) : List StateNode := automaton.nodes.toList.map Prod.snd

/-- The states seen, in ascending order. -/
def states (automaton : Automaton) : List UInt16 := automaton.vertices.map StateNode.state

/-- The successors of a state in ascending order, if the state was seen. -/
def successors? (automaton : Automaton) (state : UInt16) : Option (List UInt16) :=
  automaton.nodes[state]?.map fun node => node.successors.toList

/-- The states seen with their successors, all in ascending order. -/
def adjacency (automaton : Automaton) : List (UInt16 × List UInt16) :=
  automaton.vertices.map fun node => (node.state, node.successors.toList)

/-- One state was seen right after the other. -/
def hasEdge (automaton : Automaton) (source target : UInt16) : Bool :=
  automaton.nodes[source]?.any fun node => node.successors.contains target

def vertexCount (automaton : Automaton) : Nat := automaton.nodes.size

def edgeCount (automaton : Automaton) : Nat :=
  automaton.nodes.foldl (fun count _ node => count + node.successors.size) 0

/-- A first state makes no edge, and going there and back makes two. -/
example : ((empty 1).observeAll [7, 3, 7]).adjacency = [(3, [7]), (7, [3])] := by decide +kernel

/-- A state that is seen again right away is its own successor. -/
example : ((empty 1).observeAll [5, 5, 5]).adjacency = [(5, [5])] := by decide +kernel

end Automaton

end StateTrace
