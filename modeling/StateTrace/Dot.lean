import StateTrace.Automata
import StateTrace.Byte.Sink
import StateTrace.Names.Registry

/-!
# Automata as dot text

An automaton is written in the dot language as one `digraph` block named after
the context.  Each state has a statement of its own, also if it has no successor,
and the statements of its edges follow.  States and successors come in ascending
order of their numbers and appear under their names.

Every statement has a line and is written by itself, and the first one that does
not fit ends the writing.

A name is quoted.  Within quotes only the quote and the backslash are escaped,
each by one backslash, so every name can be read back and none ends its quotes
early.
-/

namespace StateTrace

namespace Dot

/-- A character inside quotes. -/
def escape : Char → List Char
  | '"' => ['\\', '"']
  | '\\' => ['\\', '\\']
  | c => [c]

/-- A name in quotes. -/
def quote (name : String) : List Char :=
  '"' :: name.toList.flatMap escape ++ ['"']

/-- The line that opens the block of a context. -/
def opening (name : String) : List Char :=
  ['d', 'i', 'g', 'r', 'a', 'p', 'h', ' '] ++ quote name ++ [' ', '\x7b', '\n']

/-- The line that closes a block. -/
def closing : List Char := ['\x7d', '\n']

/-- The statement of a vertex. -/
def vertex (name : String) : List Char :=
  quote name ++ [';', '\n']

/-- The statement of an edge. -/
def edge (source target : String) : List Char :=
  quote source ++ [' ', '-', '>', ' '] ++ quote target ++ [';', '\n']

/-- The bytes of a text. -/
def utf8 (text : List Char) : List UInt8 :=
  (String.ofList text).toUTF8.data.toList

/-- Write a text, or as much of it as fits. -/
def writeText (text : List Char) : Output Unit := Sink.write (utf8 text)

/-- Write the statement of a vertex and then those of its edges. -/
def writeNode (names : NameRegistry) (context : UInt16) (node : StateNode) : Output Unit := do
  let name := names.stateName context node.state
  writeText (vertex name)
  node.successors.toList.forM fun target => writeText (edge name (names.stateName context target))

/-- Write the block of an automaton. -/
def write (names : NameRegistry) (automaton : Automaton) : Output Unit := do
  writeText (opening (names.contextName automaton.context))
  automaton.vertices.forM (writeNode names automaton.context)
  writeText closing

example : quote "a\"b\\" = "\"a\\\"b\\\\\"".toList := by decide +kernel

example :
    (write (NameRegistry.empty.nameState 4 2 "on") ((Automaton.empty 4).observeAll [1, 2])
      .unlimited).2.bytes =
        utf8 "digraph \"4\" \x7b\n\"1\";\n\"1\" -> \"on\";\n\"on\";\n\x7d\n".toList := by
  decide +kernel

end Dot

/-- Write the blocks of all automata, contexts in ascending order. -/
def Automata.render (names : NameRegistry) (automata : Automata) : Output Unit :=
  automata.contexts.forM (Dot.write names)

end StateTrace
