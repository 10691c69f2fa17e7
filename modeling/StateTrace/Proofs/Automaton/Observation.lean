import Mathlib.Data.Finset.Card
import StateTrace.Automaton

/-!
# What an automaton shows

An automaton is made from the list of the states that were observed, and it shows
what this list says.  `Automaton.Shows` is the invariant: the vertices are the
members of the list, the edges are its consecutive pairs, and the last state is the
last member.  `Shows.observe` is its step, and `Shows.observeAll` a whole run.

The step needs that the last state is a vertex, for otherwise there is no place for
the edge (`addEdge?_isSome`).  That is part of the invariant, since the last member
of a list is a member.
-/

namespace StateTrace

/-! ## Consecutive pairs -/

section Pairs
variable {α : Type}

/-- One more member makes one more consecutive pair, with the last one before it. -/
theorem pair_infix_concat {s : List α} {u v x : α} :
    [u, v] <:+: s ++ [x] ↔ [u, v] <:+: s ∨ s.getLast? = some u ∧ v = x := by
  have hend : [u, v] <:+ s ++ [x] ↔ s.getLast? = some u ∧ v = x := by
    rw [List.suffix_concat_iff, ← List.singleton_suffix_iff_getLast?_eq_some]
    constructor
    · rintro (hnil | ⟨t, hsplit, ht⟩)
      · cases hnil
      · have hconcat : [u] ++ [v] = t ++ [x] := hsplit
        obtain ⟨rfl, hv⟩ := List.append_inj' hconcat rfl
        exact ⟨ht, List.singleton_inj.mp hv⟩
    · rintro ⟨ht, rfl⟩
      exact .inr ⟨[u], rfl, ht⟩
  rw [List.infix_concat_iff, hend, or_comm]

/-- Pairing a list with its tail gives its consecutive pairs. -/
theorem mem_zip_tail_iff {s : List α} {u v : α} :
    (u, v) ∈ s.zip s.tail ↔ [u, v] <:+: s := by
  induction s with
  | nil => simp
  | cons a s ih =>
      rw [List.infix_cons_iff, ← ih]
      cases s with
      | nil => simp
      | cons b s => simp

end Pairs

namespace Automaton

/-! ## Vertices -/

/-- Every vertex is kept under its state. -/
def Keyed (automaton : Automaton) : Prop :=
  ∀ (key : UInt16) (node : StateNode), automaton.nodes[key]? = some node → node.state = key

section Vertices
variable {automaton : Automaton} {u : UInt16} {node : StateNode}

theorem keyed_empty (context : UInt16) : (empty context).Keyed := by
  intro key node h
  simp [empty] at h

theorem mem_vertices :
    node ∈ automaton.vertices ↔ ∃ key : UInt16, automaton.nodes[key]? = some node := by
  simp only [vertices, List.mem_map, Prod.exists, exists_eq_right,
    Std.TreeMap.mem_toList_iff_getElem?_eq_some]

/-- So the lookup of its state finds a vertex, and finds no other. -/
theorem Keyed.mem_vertices (h : automaton.Keyed) :
    node ∈ automaton.vertices ↔ automaton.nodes[node.state]? = some node := by
  rw [Automaton.mem_vertices]
  constructor
  · intro ⟨key, hnode⟩
    rwa [h key node hnode]
  · exact fun hnode => ⟨_, hnode⟩

theorem Keyed.states_eq_keys (h : automaton.Keyed) : automaton.states = automaton.nodes.keys := by
  rw [states, vertices, List.map_map, ← Std.TreeMap.map_fst_toList_eq_keys]
  apply List.map_congr_left
  intro ⟨key, node⟩ hentry
  exact h key node (Std.TreeMap.mem_toList_iff_getElem?_eq_some.mp hentry)

theorem Keyed.mem_states (h : automaton.Keyed) : u ∈ automaton.states ↔ u ∈ automaton.nodes := by
  rw [h.states_eq_keys, Std.TreeMap.mem_keys]

theorem Keyed.states_ascending (h : automaton.Keyed) : automaton.states.Pairwise (· < ·) := by
  rw [h.states_eq_keys]
  exact automaton.nodes.ordered_keys.imp Std.compare_eq_lt.mp

theorem hasEdge_iff {v : UInt16} : automaton.hasEdge u v = true ↔
    ∃ node, automaton.nodes[u]? = some node ∧ v ∈ node.successors := by
  rw [hasEdge, Option.any_eq_true]
  simp only [Std.TreeSet.contains_iff_mem]

theorem isSome_successors? : (automaton.successors? u).isSome = true ↔ u ∈ automaton.nodes := by
  rw [successors?, Option.isSome_map, Std.TreeMap.mem_iff_isSome_getElem?]

end Vertices

/-! ## Vertices and edges that are added -/

section Edges
variable {automaton : Automaton} {u v x : UInt16}

theorem mem_addVertex {state : UInt16} :
    u ∈ (automaton.addVertex state).nodes ↔ u ∈ automaton.nodes ∨ u = state := by
  rw [addVertex, Std.TreeMap.mem_insertIfNew, Std.LawfulEqOrd.compare_eq_iff_eq, or_comm, eq_comm]

/-- A new vertex is kept under its state too. -/
theorem Keyed.addVertex (h : automaton.Keyed) (state : UInt16) :
    (automaton.addVertex state).Keyed := by
  intro key node hnode
  rw [Automaton.addVertex, Std.TreeMap.getElem?_insertIfNew] at hnode
  split at hnode
  · next hnew =>
      cases hnode
      exact Std.LawfulEqOrd.eq_of_compare hnew.1
  · exact h key node hnode

/-- A new vertex has no successors, and an old one keeps its own. -/
theorem hasEdge_addVertex (state : UInt16) :
    (automaton.addVertex state).hasEdge u v = automaton.hasEdge u v := by
  rw [hasEdge, hasEdge, addVertex, Std.TreeMap.getElem?_insertIfNew]
  split
  · next h =>
      obtain ⟨hcompare, hnew⟩ := h
      have hstate : state = u := Std.LawfulEqOrd.eq_of_compare hcompare
      rw [Std.TreeMap.getElem?_eq_none (hstate ▸ hnew)]
      simp
  · rfl

/-- There is a place for an edge whose source was seen. -/
theorem addEdge?_isSome (h : u ∈ automaton.nodes) : (automaton.addEdge? u v).isSome = true := by
  rw [addEdge?, Option.isSome_map, ← Std.TreeMap.mem_iff_isSome_getElem?]
  exact h

/-- The lookup of a state after an edge was added to a vertex that was there. -/
theorem getElem?_addEdge? {added : Bool} {grown : Automaton}
    (h : automaton.addEdge? u v = some (added, grown)) :
    ∃ node, automaton.nodes[u]? = some node ∧ added = !node.successors.contains v ∧
      grown.context = automaton.context ∧
      ∀ x : UInt16, grown.nodes[x]? =
        if u = x then some { node with successors := node.successors.insert v }
        else automaton.nodes[x]? := by
  obtain ⟨node, hnode, hgrown⟩ := Option.map_eq_some_iff.mp h
  cases hgrown
  refine ⟨node, hnode, rfl, rfl, fun x => ?_⟩
  rw [Std.TreeMap.getElem?_insert]
  simp only [Std.LawfulEqOrd.compare_eq_iff_eq]

section Added
variable {added : Bool} {grown : Automaton}

/-- The answer is whether the edge is new. -/
theorem added_addEdge? (h : automaton.addEdge? u v = some (added, grown)) :
    added = true ↔ automaton.hasEdge u v = false := by
  obtain ⟨node, hnode, rfl, -⟩ := getElem?_addEdge? h
  simp [hasEdge, hnode]

theorem mem_addEdge? (h : automaton.addEdge? u v = some (added, grown)) :
    x ∈ grown.nodes ↔ x ∈ automaton.nodes := by
  obtain ⟨node, hnode, -, -, hgrown⟩ := getElem?_addEdge? h
  rw [Std.TreeMap.mem_iff_isSome_getElem?, Std.TreeMap.mem_iff_isSome_getElem?, hgrown]
  split
  · next hx => simp [← hx, hnode]
  · rfl

/-- The edge is there afterwards, with those that were there. -/
theorem hasEdge_addEdge? (h : automaton.addEdge? u v = some (added, grown)) {y : UInt16} :
    grown.hasEdge x y = true ↔ automaton.hasEdge x y = true ∨ u = x ∧ y = v := by
  obtain ⟨node, hnode, -, -, hgrown⟩ := getElem?_addEdge? h
  rw [hasEdge, hasEdge, hgrown]
  split
  · next hx =>
      rw [← hx, hnode, Option.any_some, Option.any_some, Std.TreeSet.contains_insert,
        Bool.or_eq_true, beq_iff_eq, Std.LawfulEqOrd.compare_eq_iff_eq]
      constructor
      · rintro (hy | hy)
        · exact .inr ⟨rfl, hy.symm⟩
        · exact .inl hy
      · rintro (hy | ⟨-, hy⟩)
        · exact .inr hy
        · exact .inl hy.symm
  · next hx =>
      constructor
      · exact .inl
      · rintro (hy | ⟨hux, -⟩)
        · exact hy
        · exact absurd hux hx

theorem Keyed.addEdge? (hkeyed : automaton.Keyed)
    (h : automaton.addEdge? u v = some (added, grown)) : grown.Keyed := by
  obtain ⟨node, hnode, -, -, hgrown⟩ := getElem?_addEdge? h
  intro key found hfound
  rw [hgrown] at hfound
  split at hfound
  · next hx =>
      cases hfound
      exact (hkeyed u node hnode).trans hx
  · exact hkeyed key found hfound

end Added

end Edges

/-! ## One observation -/

/-- All that observing a state does. -/
structure Observed (automaton : Automaton) (state : UInt16) (added : Bool) (grown : Automaton) :
    Prop where
  added : added = true ↔
    ∃ previous, automaton.last = some previous ∧ automaton.hasEdge previous state = false
  context : grown.context = automaton.context
  last : grown.last = some state
  mem : ∀ u, u ∈ grown.nodes ↔ u ∈ automaton.nodes ∨ u = state
  hasEdge : ∀ u v, grown.hasEdge u v = true ↔
    automaton.hasEdge u v = true ∨ automaton.last = some u ∧ v = state
  keyed : automaton.Keyed → grown.Keyed

/-- If the last state is a vertex, observing adds a vertex and an edge to it. -/
theorem observed_observe {automaton : Automaton}
    (hlast : ∀ previous, automaton.last = some previous → previous ∈ automaton.nodes)
    (state : UInt16) :
    Observed automaton state (automaton.observe state).1 (automaton.observe state).2 := by
  cases h : automaton.last with
  | none =>
      have hobserve : automaton.observe state =
          (false, { automaton.addVertex state with last := some state }) := by
        simp only [observe, h]
      rw [hobserve]
      refine ⟨?_, rfl, rfl, fun u => mem_addVertex, fun u v => ?_, fun h => h.addVertex state⟩
      · simp [h]
      · have hedge : (automaton.addVertex state).hasEdge u v = automaton.hasEdge u v :=
          hasEdge_addVertex state
        rw [h]
        exact (Bool.eq_iff_iff.mp hedge).trans (by simp)
  | some previous =>
      have hsource : previous ∈ (automaton.addVertex state).nodes :=
        mem_addVertex.mpr (.inl (hlast previous h))
      obtain ⟨⟨added, grown⟩, hedge⟩ :=
        Option.isSome_iff_exists.mp (addEdge?_isSome (v := state) hsource)
      have hobserve : automaton.observe state = (added, { grown with last := some state }) := by
        simp only [observe, h, hedge, Option.getD_some]
      obtain ⟨-, -, -, hcontext, -⟩ := getElem?_addEdge? hedge
      have hkeyed : automaton.Keyed → grown.Keyed := fun h => (h.addVertex state).addEdge? hedge
      rw [hobserve]
      refine ⟨?_, hcontext, rfl, fun u => (mem_addEdge? hedge).trans mem_addVertex, fun u v => ?_,
        hkeyed⟩
      · rw [added_addEdge? hedge, hasEdge_addVertex]
        simp [h]
      · have hadd : grown.hasEdge u v = true ↔ _ := hasEdge_addEdge? hedge
        rw [hasEdge_addVertex] at hadd
        rw [h, Option.some_inj]
        exact hadd

/-! ## Histories -/

/-- The automaton shows the list of the states that were observed. -/
structure Shows (automaton : Automaton) (s : List UInt16) : Prop where
  last : automaton.last = s.getLast?
  mem : ∀ u, u ∈ automaton.nodes ↔ u ∈ s
  hasEdge : ∀ u v, automaton.hasEdge u v = true ↔ [u, v] <:+: s
  keyed : automaton.Keyed

theorem shows_empty (context : UInt16) : (empty context).Shows [] where
  last := rfl
  mem u := by simp [empty]
  hasEdge u v := by simp [empty, Automaton.hasEdge]
  keyed := keyed_empty context

section Shows
variable {automaton : Automaton} {s : List UInt16}

/-- The last state is a vertex. -/
theorem Shows.last_mem (h : automaton.Shows s) {previous : UInt16}
    (hlast : automaton.last = some previous) : previous ∈ automaton.nodes := by
  rw [h.mem]
  exact List.mem_of_getLast? (h.last.symm.trans hlast)

theorem Shows.observed (h : automaton.Shows s) (state : UInt16) :
    Observed automaton state (automaton.observe state).1 (automaton.observe state).2 :=
  observed_observe (fun _ => h.last_mem) state

/-- There always is a place for the edge from the last state. -/
theorem Shows.addEdge?_isSome (h : automaton.Shows s) {previous : UInt16}
    (hlast : automaton.last = some previous) (state : UInt16) :
    ((automaton.addVertex state).addEdge? previous state).isSome = true :=
  Automaton.addEdge?_isSome (mem_addVertex.mpr (.inl (h.last_mem hlast)))

/-- One more observation is one more state in the list. -/
theorem Shows.observe (h : automaton.Shows s) (state : UInt16) :
    (automaton.observe state).2.Shows (s ++ [state]) where
  last := by rw [(h.observed state).last, List.getLast?_concat]
  mem u := by rw [(h.observed state).mem, h.mem, List.mem_append, List.mem_singleton]
  hasEdge u v := by rw [(h.observed state).hasEdge, h.hasEdge, h.last, pair_infix_concat]
  keyed := (h.observed state).keyed h.keyed

/-- The answer is whether a state came before and the pair of the two is new. -/
theorem Shows.added_iff (h : automaton.Shows s) (state : UInt16) :
    (automaton.observe state).1 = true ↔
      ∃ previous, s.getLast? = some previous ∧ ¬[previous, state] <:+: s := by
  rw [(h.observed state).added, h.last]
  simp only [← h.hasEdge, Bool.not_eq_true]

/-- A whole run of observations. -/
theorem Shows.observeAll (h : automaton.Shows s) (states : List UInt16) :
    (automaton.observeAll states).Shows (s ++ states) := by
  induction states generalizing automaton s with
  | nil =>
      rw [List.append_nil]
      exact h
  | cons state states ih =>
      rw [List.append_cons]
      exact ih (h.observe state)

end Shows

/-! ## Order and number -/

/-- The listing has each vertex under its state. -/
theorem map_fst_adjacency (automaton : Automaton) :
    automaton.adjacency.map Prod.fst = automaton.states := by
  rw [adjacency, List.map_map, states]
  rfl

theorem successors?_eq_some {automaton : Automaton} {u : UInt16} {next : List UInt16}
    (h : automaton.successors? u = some next) :
    next.Pairwise (· < ·) ∧ ∀ v, v ∈ next ↔ automaton.hasEdge u v = true := by
  obtain ⟨node, hnode, rfl⟩ := Option.map_eq_some_iff.mp h
  refine ⟨node.successors.ordered_toList.imp Std.compare_eq_lt.mp, fun v => ?_⟩
  rw [Std.TreeSet.mem_toList, hasEdge, hnode, Option.any_some, Std.TreeSet.contains_iff_mem]

/-- The lookup of a state finds what the listing shows for it. -/
theorem Keyed.successors?_eq_some_iff {automaton : Automaton} (h : automaton.Keyed) {u : UInt16}
    {next : List UInt16} :
    automaton.successors? u = some next ↔ (u, next) ∈ automaton.adjacency := by
  rw [successors?, adjacency, List.mem_map, Option.map_eq_some_iff]
  constructor
  · intro ⟨node, hnode, hnext⟩
    refine ⟨node, Automaton.mem_vertices.mpr ⟨u, hnode⟩, ?_⟩
    rw [h u node hnode, hnext]
  · intro ⟨node, hmem, hpair⟩
    cases hpair
    exact ⟨node, h.mem_vertices.mp hmem, rfl⟩

/-- The edges, source by source. -/
def edges (automaton : Automaton) : List (UInt16 × UInt16) :=
  automaton.nodes.toList.flatMap fun entry => entry.2.successors.toList.map (entry.1, ·)

theorem mem_edges {automaton : Automaton} {u v : UInt16} :
    (u, v) ∈ automaton.edges ↔ automaton.hasEdge u v = true := by
  rw [edges, List.mem_flatMap, hasEdge_iff]
  constructor
  · intro ⟨⟨source, node⟩, hentry, hedge⟩
    obtain ⟨target, htarget, hpair⟩ := List.mem_map.mp hedge
    cases hpair
    exact ⟨node, Std.TreeMap.mem_toList_iff_getElem?_eq_some.mp hentry,
      Std.TreeSet.mem_toList.mp htarget⟩
  · intro ⟨node, hnode, hmem⟩
    exact ⟨(u, node), Std.TreeMap.mem_toList_iff_getElem?_eq_some.mpr hnode,
      List.mem_map.mpr ⟨v, Std.TreeSet.mem_toList.mpr hmem, rfl⟩⟩

theorem nodup_edges (automaton : Automaton) : automaton.edges.Nodup := by
  rw [edges, List.nodup_flatMap]
  constructor
  · intro entry _
    have hnodup : entry.2.successors.toList.Nodup :=
      entry.2.successors.ordered_toList.imp fun hlt => UInt16.ne_of_lt (Std.compare_eq_lt.mp hlt)
    exact hnodup.map fun _ _ h => (Prod.mk.inj h).2
  · -- Different sources have different keys.
    refine automaton.nodes.distinct_keys_toList.imp fun hne => ?_
    intro edge hleft hright
    obtain ⟨_, -, rfl⟩ := List.mem_map.mp hleft
    obtain ⟨_, -, heq⟩ := List.mem_map.mp hright
    exact hne (Std.LawfulEqOrd.compare_eq_iff_eq.mpr (Prod.mk.inj heq).1.symm)

theorem length_edges (automaton : Automaton) : automaton.edges.length = automaton.edgeCount := by
  rw [edges, edgeCount, Std.TreeMap.foldl_eq_foldl_toList, List.length_flatMap,
    List.sum_eq_foldl_nat, List.foldl_map]
  simp only [List.length_map, Std.TreeSet.length_toList]

/-- The edges are counted once each. -/
theorem Shows.edgeCount {automaton : Automaton} {s : List UInt16} (h : automaton.Shows s) :
    automaton.edgeCount = (s.zip s.tail).toFinset.card := by
  rw [← length_edges, ← List.toFinset_card_of_nodup automaton.nodup_edges]
  congr 1
  ext ⟨u, v⟩
  rw [List.mem_toFinset, List.mem_toFinset, mem_edges, h.hasEdge, mem_zip_tail_iff]

end Automaton

end StateTrace
