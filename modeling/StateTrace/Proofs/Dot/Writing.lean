import StateTrace.Dot
import StateTrace.Proofs.Byte.Filling

/-!
# What is written as dot text

Automata are written statement by statement, and the first statement that does not fit ends
the writing.  The sink and the result are the same as for one write of the whole text
(`render_eq`).  For each of the loops this is a loop of writes that is one write
(`Sink.forM_write`), and the bytes of a text are those of its characters, one behind the
other (`utf8_eq_flatMap`), so texts can be put together before or after they are turned into
bytes.
-/

namespace StateTrace

namespace Dot

/-! ## Texts -/

/-- The statements of a state and of its edges. -/
def state (names : NameRegistry) (context source : UInt16) (targets : List UInt16) : List Char :=
  let name := names.stateName context source
  vertex name ++ targets.flatMap fun target => edge name (names.stateName context target)

/-- The block of an automaton. -/
def digraph (names : NameRegistry) (automaton : Automaton) : List Char :=
  opening (names.contextName automaton.context) ++
    automaton.adjacency.flatMap (fun (source, targets) =>
      state names automaton.context source targets) ++
    closing

/-! ## Bytes -/

/-- The bytes of a text are those of its characters. -/
theorem utf8_eq_flatMap (text : List Char) : utf8 text = text.flatMap String.utf8EncodeChar := by
  rw [utf8, String.toUTF8_eq_toByteArray, String.toByteArray_ofList, List.utf8Encode,
    List.data_toByteArray, List.toList_toArray]

theorem utf8_append (text more : List Char) : utf8 (text ++ more) = utf8 text ++ utf8 more := by
  rw [utf8_eq_flatMap, utf8_eq_flatMap, utf8_eq_flatMap, List.flatMap_append]

theorem utf8_flatMap {α : Type} (text : α → List Char) (list : List α) :
    utf8 (list.flatMap text) = list.flatMap fun a => utf8 (text a) := by
  simp only [utf8_eq_flatMap, List.flatMap_assoc]

/-! ## Writing -/

theorem writeText_bind (text more : List Char) :
    (writeText text >>= fun _ => writeText more) = writeText (text ++ more) := by
  rw [writeText, writeText, writeText, utf8_append, Sink.write_bind_write]

/-- What a loop writes is one text. -/
theorem forM_writeText {α : Type} (text : α → List Char) (list : List α) :
    (list.forM fun a => writeText (text a)) = writeText (list.flatMap text) := by
  rw [writeText, utf8_flatMap]
  exact Sink.forM_write _ list

theorem writeNode_eq (names : NameRegistry) (context : UInt16) (node : StateNode) :
    writeNode names context node =
      writeText (state names context node.state node.successors.toList) := by
  rw [writeNode, forM_writeText, writeText_bind]
  rfl

/-- A block is written as one text. -/
theorem write_eq (names : NameRegistry) (automaton : Automaton) :
    write names automaton = writeText (digraph names automaton) := by
  rw [write, funext (writeNode_eq names automaton.context), forM_writeText, writeText_bind,
    writeText_bind, digraph, Automaton.adjacency, List.flatMap_map, List.append_assoc]

end Dot

namespace Automata

/-- The blocks of all automata, contexts in ascending order. -/
def dot (names : NameRegistry) (automata : Automata) : List Char :=
  automata.contexts.flatMap (Dot.digraph names)

/-- The blocks are written as one text, or as much of it as fits. -/
theorem render_eq (names : NameRegistry) (automata : Automata) :
    automata.render names = Sink.write (Dot.utf8 (automata.dot names)) := by
  rw [render, funext (Dot.write_eq names), Dot.forM_writeText]
  rfl

end Automata

end StateTrace
