import StateTrace.Automata
import StateTrace.Proofs.Automaton.Observation

/-!
# The automata of all contexts

The events of different contexts may come in any order, and the automaton of a
context shows just the states of its own events (`Automata.Shows`).  The step is that
an event changes the automaton of its context and no other (`automatonOf_observe`).

`foldl_observe_reconstructs` collects what is seen of the automata after any number
of events, and what each single observation answered on the way.
-/

namespace StateTrace

/-- The states of the events of one context, in order and for all entities. -/
def statesOf (context : UInt16) (events : List MonitorState) : List UInt16 :=
  (events.filter fun event => event.context == context).map MonitorState.state

theorem statesOf_concat_self (events : List MonitorState) (event : MonitorState) :
    statesOf event.context (events ++ [event]) =
      statesOf event.context events ++ [event.state] := by
  simp [statesOf]

theorem statesOf_concat_of_ne {events : List MonitorState} {event : MonitorState}
    {context : UInt16} (h : event.context ≠ context) :
    statesOf context (events ++ [event]) = statesOf context events := by
  simp [statesOf, h]

namespace Automata

/-- The automaton of each context shows the states of its events, and the contexts
are those that had one. -/
structure Shows (automata : Automata) (events : List MonitorState) : Prop where
  isSome : ∀ context, (automata.context? context).isSome = true ↔ statesOf context events ≠ []
  context : ∀ context, (automata.automatonOf context).context = context
  shows : ∀ context, (automata.automatonOf context).Shows (statesOf context events)

section Shows
variable {automata : Automata} {events : List MonitorState}

theorem automatonOf_eq {context : UInt16} :
    automata.automatonOf context = (automata.context? context).getD (.empty context) :=
  Std.TreeMap.getD_eq_getD_getElem?

theorem mem_contexts {automaton : Automaton} :
    automaton ∈ automata.contexts ↔ ∃ context, automata.context? context = some automaton := by
  simp only [contexts, List.mem_map, Prod.exists, exists_eq_right, context?,
    Std.TreeMap.mem_toList_iff_getElem?_eq_some]

theorem context?_observe (automata : Automata) (event : MonitorState) (context : UInt16) :
    (automata.observe event).context? context =
      if event.context = context then
        some ((automata.automatonOf event.context).observe event.state).2
      else automata.context? context := by
  rw [context?, observe, Std.TreeMap.getElem?_insert]
  simp only [Std.LawfulEqOrd.compare_eq_iff_eq]
  rfl

/-- An event changes the automaton of its context and no other. -/
theorem automatonOf_observe (automata : Automata) (event : MonitorState) (context : UInt16) :
    (automata.observe event).automatonOf context =
      if event.context = context then
        ((automata.automatonOf event.context).observe event.state).2
      else automata.automatonOf context := by
  rw [automatonOf_eq, context?_observe]
  split
  · rfl
  · rw [automatonOf_eq]

/-- No context, no event. -/
theorem shows_nil (h : automata.contexts = []) : automata.Shows [] := by
  have hnone : ∀ context, automata.context? context = none := by
    intro context
    cases hcontext : automata.context? context with
    | none => rfl
    | some automaton =>
        have hmem := mem_contexts.mpr ⟨context, hcontext⟩
        rw [h] at hmem
        cases hmem
  refine ⟨fun context => ?_, fun context => ?_, fun context => ?_⟩
  · rw [hnone]
    simp [statesOf]
  · rw [automatonOf_eq, hnone]
    rfl
  · rw [automatonOf_eq, hnone]
    exact Automaton.shows_empty context

/-- One more event is one more event in the list. -/
theorem Shows.observe (h : automata.Shows events) (event : MonitorState) :
    (automata.observe event).Shows (events ++ [event]) := by
  refine ⟨fun context => ?_, fun context => ?_, fun context => ?_⟩
  · rw [context?_observe]
    split
    · next hcontext =>
        rw [← hcontext, statesOf_concat_self]
        simp
    · next hne =>
        rw [statesOf_concat_of_ne hne]
        exact h.isSome context
  · rw [automatonOf_observe]
    split
    · next hcontext =>
        rw [((h.shows event.context).observed event.state).context, h.context, hcontext]
    · exact h.context context
  · rw [automatonOf_observe]
    split
    · next hcontext =>
        rw [← hcontext, statesOf_concat_self]
        exact (h.shows event.context).observe event.state
    · next hne =>
        rw [statesOf_concat_of_ne hne]
        exact h.shows context

/-- A whole run of events. -/
theorem Shows.foldl_observe (h : automata.Shows events) (more : List MonitorState) :
    (more.foldl Automata.observe automata).Shows (events ++ more) := by
  induction more generalizing automata events with
  | nil =>
      rw [List.append_nil]
      exact h
  | cons event more ih =>
      rw [List.append_cons]
      exact ih (h.observe event)

theorem Shows.shows_of_context? (h : automata.Shows events) {context : UInt16}
    {automaton : Automaton} (hcontext : automata.context? context = some automaton) :
    automaton.context = context ∧ automaton.Shows (statesOf context events) := by
  have heq : automata.automatonOf context = automaton := by
    rw [automatonOf_eq, hcontext, Option.getD_some]
  exact ⟨heq ▸ h.context context, heq ▸ h.shows context⟩

/-- The automata come in the order of their contexts, each context once. -/
theorem Shows.contexts_ascending (h : automata.Shows events) :
    (automata.contexts.map Automaton.context).Pairwise (· < ·) := by
  have hkeys : automata.contexts.map Automaton.context = automata.byContext.keys := by
    rw [contexts, List.map_map, ← Std.TreeMap.map_fst_toList_eq_keys]
    apply List.map_congr_left
    rintro ⟨context, automaton⟩ hentry
    have hcontext := Std.TreeMap.mem_toList_iff_getElem?_eq_some.mp hentry
    exact (h.shows_of_context? hcontext).1
  rw [hkeys]
  exact automata.byContext.ordered_keys.imp Std.compare_eq_lt.mp

end Shows

/-- From no contexts on, the automata are those of the states that the events have,
context by context.  Successors are listed for the vertices and for nothing else.  An
observation answers that it made an edge if and only if a state came before it in its
context, right after which its own state had not been seen yet, and there always is a
place for the edge. -/
theorem foldl_observe_reconstructs {automata : Automata} (h : automata.contexts = [])
    (events : List MonitorState) :
    let grown := events.foldl observe automata
    (∀ context, (grown.context? context).isSome = true ↔ statesOf context events ≠ []) ∧
      (∀ context automaton, grown.context? context = some automaton →
        let s := statesOf context events
        automaton.context = context ∧
          (∀ u, u ∈ automaton.states ↔ u ∈ s) ∧
          (∀ u v, automaton.hasEdge u v = true ↔ [u, v] <:+: s) ∧
          automaton.edgeCount = (s.zip s.tail).toFinset.card ∧
          automaton.last = s.getLast? ∧
          automaton.states.Pairwise (· < ·) ∧
          (∀ u, (automaton.successors? u).isSome = true ↔ u ∈ automaton.states) ∧
          ∀ u next, automaton.successors? u = some next →
            next.Pairwise (· < ·) ∧ ∀ v, v ∈ next ↔ automaton.hasEdge u v = true) ∧
      (grown.contexts.map Automaton.context).Pairwise (· < ·) ∧
      (∀ automaton, automaton ∈ grown.contexts ↔
        ∃ context, grown.context? context = some automaton) ∧
      ∀ before event after, events = before ++ event :: after →
        let s := statesOf event.context before
        let observed := (before.foldl observe automata).automatonOf event.context
        (∀ previous, observed.last = some previous →
            ((observed.addVertex event.state).addEdge? previous event.state).isSome = true) ∧
          ((observed.observe event.state).1 = true ↔
            ∃ previous, s.getLast? = some previous ∧ ¬[previous, event.state] <:+: s) := by
  intro grown
  have hgrown : ∀ events : List MonitorState, (events.foldl observe automata).Shows events :=
    fun events => (shows_nil h).foldl_observe events
  refine ⟨(hgrown events).isSome, fun context automaton hcontext => ?_,
    (hgrown events).contexts_ascending, fun automaton => mem_contexts, ?_⟩
  · obtain ⟨heq, hshows⟩ := (hgrown events).shows_of_context? hcontext
    exact ⟨heq, fun u => hshows.keyed.mem_states.trans (hshows.mem u), hshows.hasEdge,
      hshows.edgeCount, hshows.last, hshows.keyed.states_ascending,
      fun u => Automaton.isSome_successors?.trans hshows.keyed.mem_states.symm,
      fun u next hnext => Automaton.successors?_eq_some hnext⟩
  · intro before event after _
    have hshows := (hgrown before).shows event.context
    exact ⟨fun previous hlast => hshows.addEdge?_isSome hlast event.state,
      hshows.added_iff event.state⟩

/-- Two entities share a context, and another context comes in between. -/
theorem foldl_observe_interleaved :
    let events : List MonitorState := [⟨2, 1, 7⟩, ⟨1, 1, 3⟩, ⟨2, 9, 8⟩, ⟨2, 1, 7⟩]
    ∃ automaton, (events.foldl observe empty).context? 2 = some automaton ∧
      automaton.hasEdge 7 8 = true ∧ automaton.edgeCount = 2 := by
  intro events
  have hempty : empty.contexts = [] := rfl
  obtain ⟨hsome, hshown, -⟩ := foldl_observe_reconstructs hempty events
  obtain ⟨automaton, hcontext⟩ := Option.isSome_iff_exists.mp ((hsome 2).mpr (by decide))
  obtain ⟨-, -, hedge, hcount, -⟩ := hshown 2 automaton hcontext
  exact ⟨automaton, hcontext, (hedge 7 8).mpr ⟨[], [7], rfl⟩, hcount.trans (by decide)⟩

end Automata

end StateTrace
