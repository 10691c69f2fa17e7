import Mathlib.Data.List.Dedup
import Mathlib.Data.List.Sort
import StateTrace.Proofs.Automaton.Contexts
import StateTrace.Proofs.Dot.Writing

/-!
# Drawings

What the dot text of automata says, made from the state events alone.  There is one
block for each context of an event, and in a block one statement for each state of the
context with one for each state that came right after it.  Contexts, states and
successors are in ascending order, each once.  Names are in quotes, and the bytes are
UTF-8.

`Shows.render` says that automata which show the events are written as this text.  Of the
maps that carry the automata only this is needed: they list their keys in ascending
order, and an ascending list is determined by its members (`eq_ascending`).
-/

namespace StateTrace

/-! ## Ascending lists -/

/-- The members of a list in ascending order, each once. -/
def ascending (numbers : List UInt16) : List UInt16 :=
  numbers.dedup.insertionSort (· ≤ ·)

section Ascending
variable {numbers : List UInt16}

theorem mem_ascending {u : UInt16} : u ∈ ascending numbers ↔ u ∈ numbers := by
  rw [ascending, List.mem_insertionSort, List.mem_dedup]

theorem pairwise_ascending (numbers : List UInt16) : (ascending numbers).Pairwise (· < ·) := by
  have hsorted : (ascending numbers).Pairwise (· ≤ ·) := List.pairwise_insertionSort _ _
  have hnodup : (ascending numbers).Nodup :=
    (List.perm_insertionSort _ _).nodup_iff.mpr numbers.nodup_dedup
  exact (hsorted.and hnodup).imp fun h => UInt16.lt_of_le_of_ne h.1 h.2

/-- An ascending list is determined by its members. -/
theorem eq_ascending {list : List UInt16} (hsorted : list.Pairwise (· < ·))
    (hmem : ∀ u, u ∈ list ↔ u ∈ numbers) : list = ascending numbers :=
  hsorted.eq_of_mem_iff (pairwise_ascending numbers) fun u => (hmem u).trans mem_ascending.symm

end Ascending

/-! ## The text of events -/

/-- A context has states just if it has events. -/
theorem statesOf_ne_nil_iff {context : UInt16} {events : List MonitorState} :
    statesOf context events ≠ [] ↔ context ∈ events.map MonitorState.context := by
  rw [statesOf, ne_eq, List.map_eq_nil_iff, List.filter_eq_nil_iff, List.mem_map]
  simp

/-- The states that come right after a state, as often as they do. -/
def followers (s : List UInt16) (state : UInt16) : List UInt16 :=
  ((s.zip s.tail).filter fun pair => pair.1 == state).map Prod.snd

theorem mem_followers {s : List UInt16} {u v : UInt16} : v ∈ followers s u ↔ [u, v] <:+: s := by
  rw [← mem_zip_tail_iff]
  simp [followers]

namespace Dot

/-- A name in quotes, with a backslash in front of each quote and each backslash in it. -/
def quoted (name : String) : List Char :=
  '"' :: name.toList.flatMap (fun c => if c = '"' ∨ c = '\\' then ['\\', c] else [c]) ++ ['"']

/-- The statement of a state, and one for each of the states that came right after it. -/
def statements (name : UInt16 → String) (u : UInt16) (next : List UInt16) : List Char :=
  quoted (name u) ++ [';', '\n'] ++
    next.flatMap fun v => quoted (name u) ++ [' ', '-', '>', ' '] ++ quoted (name v) ++ [';', '\n']

/-- The block of a context whose states were `s`, in this order. -/
def block (names : NameRegistry) (context : UInt16) (s : List UInt16) : List Char :=
  ['d', 'i', 'g', 'r', 'a', 'p', 'h', ' '] ++ quoted (names.contextName context) ++
      [' ', '\x7b', '\n'] ++
    (ascending s).flatMap (fun u =>
      statements (names.stateName context) u (ascending (followers s u))) ++
    ['\x7d', '\n']

/-- The blocks of the contexts of events. -/
def drawing (names : NameRegistry) (events : List MonitorState) : List Char :=
  (ascending (events.map MonitorState.context)).flatMap fun context =>
    block names context (statesOf context events)

/-- The blocks of the contexts of events, as bytes. -/
def drawn (names : NameRegistry) (events : List MonitorState) : List UInt8 :=
  (drawing names events).flatMap String.utf8EncodeChar

/-- A context that goes to a state and back, and one that stays in a state. -/
example : drawing .empty [⟨7, 0, 2⟩, ⟨4, 0, 9⟩, ⟨7, 1, 1⟩, ⟨4, 0, 9⟩, ⟨7, 0, 2⟩] =
    ("digraph \"4\" \x7b\n\"9\";\n\"9\" -> \"9\";\n\x7d\n" ++
      "digraph \"7\" \x7b\n\"1\";\n\"1\" -> \"2\";\n\"2\";\n\"2\" -> \"1\";\n\x7d\n").toList := by
  decide +kernel

end Dot

/-! ## The text of automata -/

/-- The vertices and successors of an automaton are those of the states it shows. -/
theorem Automaton.Shows.adjacency {automaton : Automaton} {s : List UInt16}
    (h : automaton.Shows s) :
    automaton.adjacency = (ascending s).map fun u => (u, ascending (followers s u)) := by
  have hstates : automaton.states = ascending s :=
    eq_ascending h.keyed.states_ascending fun u => h.keyed.mem_states.trans (h.mem u)
  rw [← hstates, states, List.map_map, Automaton.adjacency]
  apply List.map_congr_left
  intro node hmem
  have hnext : automaton.successors? node.state = some node.successors.toList := by
    rw [successors?, h.keyed.mem_vertices.mp hmem, Option.map_some]
  obtain ⟨hsorted, hedges⟩ := successors?_eq_some hnext
  have hfollowers : node.successors.toList = ascending (followers s node.state) :=
    eq_ascending hsorted fun v => by rw [hedges, h.hasEdge, mem_followers]
  show (node.state, node.successors.toList) = (node.state, ascending (followers s node.state))
  rw [hfollowers]

theorem Dot.escape_eq (c : Char) :
    escape c = if c = '"' ∨ c = '\\' then ['\\', c] else [c] := by
  unfold escape
  split
  · simp
  · simp
  · next hquote hbackslash => rw [if_neg (not_or.mpr ⟨hquote, hbackslash⟩)]

/-- Names are quoted as in a drawing. -/
theorem Dot.quote_eq_quoted (name : String) : quote name = quoted name := by
  rw [quote, quoted, funext escape_eq]

theorem Automaton.Shows.digraph {automaton : Automaton} {s : List UInt16} (h : automaton.Shows s)
    (names : NameRegistry) :
    Dot.digraph names automaton = Dot.block names automaton.context s := by
  rw [Dot.digraph, Dot.block, h.adjacency, List.flatMap_map]
  simp only [Dot.opening, Dot.closing, Dot.state, Dot.vertex, Dot.edge, Dot.quote_eq_quoted,
    Dot.statements]

/-- The text of automata is the drawing of the events that they show. -/
theorem Automata.Shows.dot {automata : Automata} {events : List MonitorState}
    (h : automata.Shows events) (names : NameRegistry) :
    automata.dot names = Dot.drawing names events := by
  have hblock : ∀ automaton ∈ automata.contexts, Dot.digraph names automaton =
      Dot.block names automaton.context (statesOf automaton.context events) := by
    intro automaton hmem
    obtain ⟨context, hcontext⟩ := mem_contexts.mp hmem
    obtain ⟨rfl, hshows⟩ := h.shows_of_context? hcontext
    exact hshows.digraph names
  have hcontexts : automata.contexts.map Automaton.context =
      ascending (events.map MonitorState.context) := by
    refine eq_ascending h.contexts_ascending fun context => ?_
    rw [← statesOf_ne_nil_iff, ← h.isSome, List.mem_map]
    constructor
    · rintro ⟨automaton, hmem, rfl⟩
      obtain ⟨context, hcontext⟩ := mem_contexts.mp hmem
      rw [(h.shows_of_context? hcontext).1, hcontext]
      rfl
    · intro hsome
      obtain ⟨automaton, hcontext⟩ := Option.isSome_iff_exists.mp hsome
      exact ⟨automaton, mem_contexts.mpr ⟨context, hcontext⟩, (h.shows_of_context? hcontext).1⟩
  rw [Automata.dot, Dot.drawing, ← hcontexts, List.flatMap_map]
  exact List.flatMap_congr hblock

/-- So it is what they write. -/
theorem Automata.Shows.render {automata : Automata} {events : List MonitorState}
    (h : automata.Shows events) (names : NameRegistry) :
    automata.render names = Sink.write (Dot.drawn names events) := by
  rw [render_eq, h.dot, Dot.utf8_eq_flatMap, Dot.drawn]

end StateTrace
