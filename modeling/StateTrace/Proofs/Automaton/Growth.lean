import Mathlib.Data.Finset.Prod
import Mathlib.Logic.Relation
import StateTrace.Proofs.Automaton.Observation

/-!
# How automata grow

One observation adds a vertex at most and an edge at most, and takes nothing away
(`Observed.vertexCount`, `Observed.edgeCount`, `Observed.hasEdge_iff`).

The vertices and edges are those of a walk.  `Walked` is the invariant: the first state reaches
every vertex, every vertex reaches the last state, and there are not more vertices than the walk
can visit with its edges.  Its step is `Walked.observe`, and the run is `Walked.observeAll`.

`observeAll_grows` is all that is known of an automaton that was made by observations.
-/

namespace StateTrace.Automaton

/-! ## Counts -/

theorem vertexCount_eq_card (automaton : Automaton) :
    automaton.vertexCount = automaton.nodes.keys.toFinset.card := by
  have hnodup : automaton.nodes.keys.Nodup :=
    automaton.nodes.ordered_keys.imp fun hlt => UInt16.ne_of_lt (Std.compare_eq_lt.mp hlt)
  rw [List.toFinset_card_of_nodup hnodup, Std.TreeMap.length_keys, vertexCount]

theorem edgeCount_eq_card (automaton : Automaton) :
    automaton.edgeCount = automaton.edges.toFinset.card := by
  rw [List.toFinset_card_of_nodup automaton.nodup_edges, length_edges]

/-! ## One observation -/

section Observed
variable {automaton grown : Automaton} {state : UInt16} {added : Bool}

/-- The new edge is the one from the last state, if the answer says that there is one. -/
theorem Observed.hasEdge_iff (h : Observed automaton state added grown) (u v : UInt16) :
    grown.hasEdge u v = true ↔
      automaton.hasEdge u v = true ∨ added = true ∧ automaton.last = some u ∧ v = state := by
  rw [h.hasEdge]
  by_cases hedge : automaton.hasEdge u v = true
  · exact iff_of_true (.inl hedge) (.inl hedge)
  · constructor
    · intro hgrown
      obtain ⟨hlast, rfl⟩ := hgrown.resolve_left hedge
      exact .inr ⟨h.added.mpr ⟨u, hlast, Bool.not_eq_true _ ▸ hedge⟩, hlast, rfl⟩
    · intro hgrown
      exact .inr (hgrown.resolve_left hedge).2

/-- A state is counted when it is new. -/
theorem Observed.vertexCount (h : Observed automaton state added grown) :
    grown.vertexCount =
      automaton.vertexCount + if state ∈ automaton.nodes then 0 else 1 := by
  have hkeys : grown.nodes.keys.toFinset = insert state automaton.nodes.keys.toFinset := by
    ext u
    rw [Finset.mem_insert, List.mem_toFinset, List.mem_toFinset, Std.TreeMap.mem_keys,
      Std.TreeMap.mem_keys, h.mem, or_comm]
  rw [vertexCount_eq_card, vertexCount_eq_card, hkeys]
  split
  · next hmem =>
      have hkey := List.mem_toFinset.mpr (Std.TreeMap.mem_keys.mpr hmem)
      rw [Finset.insert_eq_of_mem hkey, Nat.add_zero]
  · next hnew =>
      rw [Finset.card_insert_of_notMem]
      rw [List.mem_toFinset, Std.TreeMap.mem_keys]
      exact hnew

/-- An edge is counted when the answer says that it is new. -/
theorem Observed.edgeCount (h : Observed automaton state added grown) :
    grown.edgeCount = automaton.edgeCount + if added then 1 else 0 := by
  rw [edgeCount_eq_card, edgeCount_eq_card]
  cases added with
  | false =>
      have hedges : grown.edges.toFinset = automaton.edges.toFinset := by
        ext ⟨u, v⟩
        rw [List.mem_toFinset, List.mem_toFinset, mem_edges, mem_edges, h.hasEdge_iff]
        simp
      rw [hedges]
      rfl
  | true =>
      obtain ⟨previous, hlast, hnew⟩ := h.added.mp rfl
      have hedges : grown.edges.toFinset = insert (previous, state) automaton.edges.toFinset := by
        ext ⟨u, v⟩
        rw [Finset.mem_insert, List.mem_toFinset, List.mem_toFinset, mem_edges, mem_edges,
          h.hasEdge_iff, hlast]
        constructor
        · intro hgrown
          cases hgrown with
          | inl hedge => exact .inr hedge
          | inr hpair =>
              obtain ⟨-, hsource, rfl⟩ := hpair
              cases hsource
              exact .inl rfl
        · intro hgrown
          cases hgrown with
          | inl hpair =>
              cases hpair
              exact .inr ⟨rfl, rfl, rfl⟩
          | inr hedge => exact .inl hedge
      have hmem : (previous, state) ∉ automaton.edges.toFinset := by
        rw [List.mem_toFinset, mem_edges, hnew]
        exact Bool.false_ne_true
      rw [hedges, Finset.card_insert_of_notMem hmem]
      rfl

end Observed

/-! ## Walks -/

/-- One state can be reached from the other by edges. -/
def Reaches (automaton : Automaton) : UInt16 → UInt16 → Prop :=
  Relation.ReflTransGen fun u v => automaton.hasEdge u v = true

/-- The automaton was walked from its first state to its last one. -/
structure Walked (automaton : Automaton) (first last : UInt16) : Prop where
  ends : automaton.last = some last
  reaches : ∀ u ∈ automaton.nodes, automaton.Reaches first u ∧ automaton.Reaches u last
  /-- Each vertex but the first one was entered by an edge of its own. -/
  vertexCount_le : automaton.vertexCount ≤ automaton.edgeCount + 1

section Walked
variable {automaton grown : Automaton} {first last state u v : UInt16} {s : List UInt16}

/-- Edges stay, so what was reached is reached. -/
theorem Observed.reaches {added : Bool} (h : Observed automaton state added grown)
    (hreaches : automaton.Reaches u v) : grown.Reaches u v := by
  refine Relation.ReflTransGen.mono (fun x y hedge => ?_) _ _ hreaches
  exact (h.hasEdge x y).mpr (.inl hedge)

/-- Edges are between vertices. -/
theorem Shows.mem_of_hasEdge (h : automaton.Shows s) (hedge : automaton.hasEdge u v = true) :
    u ∈ automaton.nodes ∧ v ∈ automaton.nodes := by
  have hpair := (h.hasEdge u v).mp hedge
  rw [h.mem, h.mem]
  exact ⟨hpair.subset (by simp), hpair.subset (by simp)⟩

/-- A single state is a walk. -/
theorem walked_observe_empty (context first : UInt16) :
    Walked ((empty context).observe first).2 first first := by
  have hobserved := (shows_empty context).observed first
  refine ⟨hobserved.last, fun u hu => ?_, ?_⟩
  · rcases (hobserved.mem u).mp hu with hmem | rfl
    · exact absurd hmem (List.not_mem_nil ∘ ((shows_empty context).mem u).mp)
    · exact ⟨.refl, .refl⟩
  · have hnone : (empty context).vertexCount = 0 := rfl
    rw [hobserved.vertexCount, hnone]
    split <;> omega

/-- A state that is observed is where the walk goes next. -/
theorem Walked.observe (h : Walked automaton first last) (hshows : automaton.Shows s)
    (state : UInt16) : Walked (automaton.observe state).2 first state := by
  have hobserved := hshows.observed state
  have hlast := hshows.last_mem h.ends
  have hedge : (automaton.observe state).2.Reaches last state :=
    .single ((hobserved.hasEdge last state).mpr (.inr ⟨h.ends, rfl⟩))
  refine ⟨hobserved.last, fun u hu => ?_, ?_⟩
  · rcases (hobserved.mem u).mp hu with hmem | rfl
    · obtain ⟨hfirst, hreaches⟩ := h.reaches u hmem
      exact ⟨hobserved.reaches hfirst, (hobserved.reaches hreaches).trans hedge⟩
    · exact ⟨(hobserved.reaches (h.reaches last hlast).1).trans hedge, .refl⟩
  · have hle := h.vertexCount_le
    rw [hobserved.vertexCount, hobserved.edgeCount]
    split
    · omega
    · next hnew =>
        -- There was no edge to a state that was no vertex.
        have hnoEdge : ¬automaton.hasEdge last state = true :=
          fun hedge => hnew (hshows.mem_of_hasEdge hedge).2
        have hadded := hobserved.added.mpr ⟨last, h.ends, Bool.not_eq_true _ ▸ hnoEdge⟩
        rw [hadded, if_pos rfl]
        omega

/-- So a whole run of observations is a walk. -/
theorem Walked.observeAll (h : Walked automaton first last) (hshows : automaton.Shows s)
    (states : List UInt16) : ∃ last, Walked (automaton.observeAll states) first last := by
  induction states generalizing automaton last s with
  | nil => exact ⟨last, h⟩
  | cons state states ih => exact ih (h.observe hshows state) (hshows.observe state)

end Walked

/-! ## Runs -/

section Runs
variable {automaton : Automaton} {s : List UInt16}

/-- The edge from the last state has a place, and the answer is whether it is new there. -/
theorem Shows.exists_addEdge? (h : automaton.Shows s) {previous : UInt16}
    (hlast : automaton.last = some previous) (state : UInt16) :
    ∃ grown, (automaton.addVertex state).addEdge? previous state =
      some ((automaton.observe state).1, grown) := by
  obtain ⟨⟨added, grown⟩, hedge⟩ :=
    Option.isSome_iff_exists.mp (h.addEdge?_isSome hlast state)
  refine ⟨grown, hedge.trans ?_⟩
  simp only [Automaton.observe, hlast, hedge, Option.getD_some]

theorem Shows.context_observeAll (h : automaton.Shows s) (states : List UInt16) :
    (automaton.observeAll states).context = automaton.context := by
  induction states generalizing automaton s with
  | nil => rfl
  | cons state states ih => exact (ih (h.observe state)).trans (h.observed state).context

/-- There are not more edges than steps from one state to the next. -/
theorem Shows.edgeCount_le_length (h : automaton.Shows s) : automaton.edgeCount ≤ s.length - 1 := by
  have hcard := List.toFinset_card_le (s.zip s.tail)
  rw [← h.edgeCount, List.length_zip, List.length_tail] at hcard
  omega

/-- There are not more edges than pairs of vertices. -/
theorem Shows.edgeCount_le_sq (h : automaton.Shows s) :
    automaton.edgeCount ≤ automaton.vertexCount ^ 2 := by
  have hedges : automaton.edges.toFinset ⊆
      automaton.nodes.keys.toFinset ×ˢ automaton.nodes.keys.toFinset := by
    intro ⟨u, v⟩ hedge
    rw [List.mem_toFinset, mem_edges] at hedge
    rw [Finset.mem_product, List.mem_toFinset, List.mem_toFinset, Std.TreeMap.mem_keys,
      Std.TreeMap.mem_keys]
    exact h.mem_of_hasEdge hedge
  rw [edgeCount_eq_card, vertexCount_eq_card, sq, ← Finset.card_product]
  exact Finset.card_le_card hedges

end Runs

/-- An automaton that was made by observing any states in order.  Its context is the one that it
was made for.  There always is a place for the edge from the last state.  A vertex is kept under
its state, so the lookup of a state finds just what the listing has for it, and the states that are
listed are all that can be looked up.  All successors are vertices, and so is the last state, which
is missing only as long as there is no vertex.  One more observation keeps all vertices and edges.
It adds the state, which is counted if it is new, and the edge from the last state, which is
counted if the answer says so.  As soon as a state was seen, the first state reaches all vertices
and all of them reach the last one, so the vertices but one are not more than the edges.  These are
not more than the steps, and not more than the pairs of vertices. -/
theorem observeAll_grows (context : UInt16) (seen : List UInt16) :
    let automaton : Automaton := (empty context).observeAll seen
    automaton.context = context ∧
      (∀ state previous, automaton.last = some previous →
        ∃ grown, (automaton.addVertex state).addEdge? previous state =
          some ((automaton.observe state).1, grown)) ∧
      (∀ (key : UInt16) (node : StateNode), automaton.nodes[key]? = some node →
        node.state = key) ∧
      (∀ u next, automaton.successors? u = some next ↔ (u, next) ∈ automaton.adjacency) ∧
      automaton.adjacency.map Prod.fst = automaton.states ∧
      (∀ u next, automaton.successors? u = some next → ∀ v ∈ next, v ∈ automaton.states) ∧
      (automaton.last = none ↔ automaton.states = []) ∧
      (∀ u, automaton.last = some u → u ∈ automaton.states) ∧
      (∀ state,
        let added := (automaton.observe state).1
        let grown := (automaton.observe state).2
        grown.context = context ∧ grown.last = some state ∧
        (∀ u, u ∈ grown.states ↔ u ∈ automaton.states ∨ u = state) ∧
        (∀ u v, grown.hasEdge u v = true ↔ automaton.hasEdge u v = true ∨
          added = true ∧ automaton.last = some u ∧ v = state) ∧
        grown.vertexCount = automaton.vertexCount + (if state ∈ automaton.states then 0 else 1) ∧
        grown.edgeCount = automaton.edgeCount + (if added then 1 else 0)) ∧
      ∀ first rest, seen = first :: rest → ∃ last, automaton.last = some last ∧
        (∀ u ∈ automaton.states, automaton.Reaches first u ∧ automaton.Reaches u last) ∧
        automaton.vertexCount - 1 ≤ automaton.edgeCount ∧
        automaton.edgeCount ≤ min (seen.length - 1) (automaton.vertexCount ^ 2) := by
  intro automaton
  have hempty := shows_empty context
  have hcontext : automaton.context = context := hempty.context_observeAll seen
  have hshows : automaton.Shows seen := hempty.observeAll seen
  have hstates : ∀ {u}, u ∈ automaton.states ↔ u ∈ automaton.nodes := hshows.keyed.mem_states
  refine ⟨hcontext, fun state previous hlast => hshows.exists_addEdge? hlast state, hshows.keyed,
    fun u next => hshows.keyed.successors?_eq_some_iff, automaton.map_fst_adjacency,
    fun u next hnext v hv => ?_, ?_, fun u hlast => hstates.mpr (hshows.last_mem hlast),
    fun state => ?_, fun first rest hseen => ?_⟩
  · have hedge := ((successors?_eq_some hnext).2 v).mp hv
    exact hstates.mpr (hshows.mem_of_hasEdge hedge).2
  · rw [hshows.last, List.getLast?_eq_none_iff, List.eq_nil_iff_forall_not_mem,
      List.eq_nil_iff_forall_not_mem]
    simp only [hstates, hshows.mem]
  · have hobserved := hshows.observed state
    have hgrown := hobserved.keyed hshows.keyed
    refine ⟨hobserved.context.trans hcontext, hobserved.last, fun u => ?_, hobserved.hasEdge_iff,
      ?_, hobserved.edgeCount⟩
    · rw [hgrown.mem_states, hstates, hobserved.mem]
    · simp only [hstates]
      exact hobserved.vertexCount
  · subst hseen
    obtain ⟨last, hwalked⟩ :=
      (walked_observe_empty context first).observeAll (hempty.observe first) rest
    have hle := hwalked.vertexCount_le
    refine ⟨last, hwalked.ends, fun u hu => hwalked.reaches u (hstates.mp hu), ?_, ?_⟩
    · exact Nat.sub_le_of_le_add hle
    · exact Nat.le_min.mpr ⟨hshows.edgeCount_le_length, hshows.edgeCount_le_sq⟩

end StateTrace.Automaton
