import Mathlib.Data.Set.Function
import StateTrace.Names.File
import StateTrace.Proofs.Automaton.Report
import StateTrace.Proofs.Dot.Reading

/-!
# What dot text determines

The output of automata is read back as their blocks (`Dot.blocks?_dot`), so it determines all
names in it, and which of them are vertices, successors and contexts.  It determines the
numbers behind the names as far as the names tell them apart (`render_reads_back`).

It is not enough for this that the states of each automaton have different names.  A state that
was seen in one automaton and a state that was seen in another may share a name, and so may two
contexts.  Then different automata have the same output (`output_of_shared_names`).
-/

namespace StateTrace

/-! ## Output as text -/

/-- The bytes of a text are read as the text. -/
theorem textOfBytes?_utf8 (text : List Char) :
    textOfBytes? (Dot.utf8 text) = some (String.ofList text) := by
  have hbytes : (⟨(Dot.utf8 text).toArray⟩ : ByteArray) = (String.ofList text).toByteArray := by
    rw [Dot.utf8, Array.toArray_toList]
    rfl
  rw [textOfBytes?, hbytes, String.fromUTF8?, dif_pos (String.ofList text).isValidUTF8]
  rfl

namespace Automata

/-- What automata print. -/
def output (names : NameRegistry) (automata : Automata) : List UInt8 :=
  (automata.render names .unlimited).2.bytes

theorem output_eq (names : NameRegistry) (automata : Automata) :
    automata.output names = Dot.utf8 (automata.dot names) := by
  rw [output, render_eq, Sink.bytes_write]
  rfl

/-- Reading what was printed gives the blocks of the automata. -/
theorem blocks?_output (names : NameRegistry) (automata : Automata) :
    (textOfBytes? (automata.output names)).bind (fun text => Dot.blocks? text.toList) =
      some (automata.contexts.map (Dot.Block.ofAutomaton names)) := by
  rw [output_eq, textOfBytes?_utf8, Option.bind_some, String.toList_ofList, Dot.blocks?_dot]

end Automata

/-! ## Names and what has them -/

/-- What a function tells apart, it tells apart in lists. -/
theorem injOn_list_map {α β : Type} {f : α → β} {s : Set α} (h : Set.InjOn f s) :
    Set.InjOn (List.map f) {list | ∀ a ∈ list, a ∈ s} := by
  intro list hmem list' hmem' heq
  induction list generalizing list' with
  | nil => exact (List.map_eq_nil_iff.mp heq.symm).symm
  | cons a list ih =>
      cases list' with
      | nil => cases heq
      | cons a' list' =>
          obtain ⟨ha, hrest⟩ := List.cons.inj heq
          obtain ⟨hain, hlist⟩ := List.forall_mem_cons.mp hmem
          obtain ⟨hain', hlist'⟩ := List.forall_mem_cons.mp hmem'
          rw [h hain hain' ha, ih hlist hlist' hrest]

namespace Dot

def Statement.isEdge : Statement → Bool
  | edge _ _ => true
  | vertex _ => false

theorem outline_cons (source : String) (targets : List String)
    (entries : List (String × List String)) :
    outline ((source, targets) :: entries) =
      .vertex source :: (targets.map (.edge source) ++ outline entries) := by
  rw [outline, List.flatMap_cons]
  rfl

/-- The edges of a vertex end where the next vertex starts. -/
theorem takeWhile_isEdge (source : String) (targets : List String)
    (entries : List (String × List String)) :
    (targets.map (Statement.edge source) ++ outline entries).takeWhile Statement.isEdge =
      targets.map (.edge source) := by
  have hedges : ∀ statement ∈ targets.map (Statement.edge source), statement.isEdge = true := by
    intro statement hmem
    obtain ⟨target, -, rfl⟩ := List.mem_map.mp hmem
    rfl
  rw [List.takeWhile_append_of_pos hedges]
  cases entries with
  | nil => exact List.append_nil _
  | cons entry entries => exact List.append_nil _

/-- A list of statements is the outline of one list of entries at most. -/
theorem outline_injective : Function.Injective outline := by
  intro entries entries' h
  induction entries generalizing entries' with
  | nil =>
      cases entries' with
      | nil => rfl
      | cons entry' entries' => cases h
  | cons entry entries ih =>
      cases entries' with
      | nil => cases h
      | cons entry' entries' =>
          obtain ⟨source, targets⟩ := entry
          obtain ⟨source', targets'⟩ := entry'
          rw [outline_cons, outline_cons] at h
          obtain ⟨hvertex, hrest⟩ := List.cons.inj h
          cases hvertex
          have hedges := congrArg (List.takeWhile Statement.isEdge) hrest
          rw [takeWhile_isEdge, takeWhile_isEdge] at hedges
          have htargets : targets = targets' :=
            List.map_injective_iff.mpr (fun _ _ hedge => (Statement.edge.inj hedge).2) hedges
          rw [hedges] at hrest
          rw [htargets, ih (List.append_cancel_left hrest)]

end Dot

namespace Automaton

/-- With a state those are listed to which it has an edge, in ascending order. -/
theorem Keyed.mem_adjacency {automaton : Automaton} (h : automaton.Keyed) {u : UInt16}
    {next : List UInt16} (hmem : (u, next) ∈ automaton.adjacency) :
    next.Pairwise (· < ·) ∧ ∀ v, v ∈ next ↔ automaton.hasEdge u v = true :=
  successors?_eq_some (h.successors?_eq_some_iff.mpr hmem)

/-- An edge is one from a state that is listed to one that is listed with it. -/
theorem Keyed.hasEdge_iff {automaton : Automaton} (h : automaton.Keyed) (u v : UInt16) :
    automaton.hasEdge u v = true ↔ ∃ next, (u, next) ∈ automaton.adjacency ∧ v ∈ next := by
  constructor
  · intro hedge
    obtain ⟨node, hnode, hmem⟩ := Automaton.hasEdge_iff.mp hedge
    refine ⟨_, h.successors?_eq_some_iff.mp ?_, Std.TreeSet.mem_toList.mpr hmem⟩
    rw [successors?, hnode, Option.map_some]
  · rintro ⟨next, hmem, hv⟩
    exact ((h.mem_adjacency hmem).2 v).mp hv

/-- Automata with the same listing have the same edges. -/
theorem Keyed.hasEdge_congr {automaton automaton' : Automaton} (h : automaton.Keyed)
    (h' : automaton'.Keyed) (heq : automaton.adjacency = automaton'.adjacency) (u v : UInt16) :
    automaton.hasEdge u v = automaton'.hasEdge u v := by
  rw [Bool.eq_iff_iff, h.hasEdge_iff, h'.hasEdge_iff, heq]

section Shows
variable {automaton automaton' : Automaton} {s s' : List UInt16}

/-- Everything that is listed is a state. -/
theorem Shows.states_of_mem_adjacency (h : automaton.Shows s) {u : UInt16} {next : List UInt16}
    (hmem : (u, next) ∈ automaton.adjacency) :
    u ∈ automaton.states ∧ ∀ v ∈ next, v ∈ automaton.states := by
  constructor
  · rw [← map_fst_adjacency]
    exact List.mem_map_of_mem hmem
  · intro v hv
    have hedge := (h.hasEdge u v).mp (((h.keyed.mem_adjacency hmem).2 v).mp hv)
    exact h.keyed.mem_states.mpr ((h.mem v).mpr (hedge.subset (by simp)))

/-- Names that tell the states of two automata of a context apart determine the listing. -/
theorem Shows.adjacency_of_entriesOf (h : automaton.Shows s) (h' : automaton'.Shows s')
    (hcontext : automaton.context = automaton'.context) {names : NameRegistry}
    (hinj : Set.InjOn (names.stateName automaton.context)
      {u | u ∈ automaton.states ∨ u ∈ automaton'.states})
    (heq : Dot.entriesOf names automaton = Dot.entriesOf names automaton') :
    automaton.adjacency = automaton'.adjacency := by
  have hentries : Set.InjOn
      (fun entry => (names.stateName automaton.context entry.1,
        entry.2.map (names.stateName automaton.context)))
      {entry : UInt16 × List UInt16 | (entry.1 ∈ automaton.states ∨ entry.1 ∈ automaton'.states) ∧
        ∀ v ∈ entry.2, v ∈ automaton.states ∨ v ∈ automaton'.states} := by
    rintro ⟨source, targets⟩ ⟨hsource, htargets⟩ ⟨source', targets'⟩ ⟨hsource', htargets'⟩ hpair
    obtain ⟨hname, hnames⟩ := Prod.mk.inj hpair
    exact Prod.ext (hinj hsource hsource' hname) (injOn_list_map hinj htargets htargets' hnames)
  refine injOn_list_map hentries ?_ ?_ ?_
  · intro entry hmem
    obtain ⟨hsource, htargets⟩ := h.states_of_mem_adjacency hmem
    exact ⟨.inl hsource, fun v hv => .inl (htargets v hv)⟩
  · intro entry hmem
    obtain ⟨hsource, htargets⟩ := h'.states_of_mem_adjacency hmem
    exact ⟨.inr hsource, fun v hv => .inr (htargets v hv)⟩
  · rw [Dot.entriesOf, Dot.entriesOf, ← hcontext] at heq
    exact heq

end Shows

end Automaton

namespace Automata

/-! ## The automata there are -/

/-- The automata that come about: from none, by events, by running the report or a part of
it. -/
inductive Reached : Automata → Prop
  | empty : Reached .empty
  | observe {automata : Automata} (event : MonitorState) :
      Reached automata → Reached (automata.observe event)
  | receive {automata : Automata} (scope : Scope) (event : Event) :
      Reached automata → Reached (consumer.receive scope event automata).2
  | deliverTo {automata : Automata} (playback : Playback) :
      Reached automata → Reached (playback.deliverTo consumer automata).state
  | prepare {automata : Automata} (names : NameRegistry) :
      Reached automata → Reached ((report names).prepare automata)
  | conclude {automata : Automata} (names : NameRegistry) (sink : Sink) :
      Reached automata → Reached ((report names).conclude automata sink).2.1
  | report {automata : Automata} (names : NameRegistry) (sink : Sink) (playback : Playback) :
      Reached automata → Reached (playback.report (report names) automata sink).state

/-- Whatever was done, the automata show some events. -/
theorem Reached.exists_shows {automata : Automata} (h : automata.Reached) :
    ∃ events, automata.Shows events := by
  have hempty : Automata.empty.Shows [] := shows_nil rfl
  induction h with
  | empty => exact ⟨[], hempty⟩
  | observe event _ ih =>
      obtain ⟨events, hshows⟩ := ih
      exact ⟨_, hshows.observe event⟩
  | @receive automata scope event _ ih =>
      obtain ⟨events, hshows⟩ := ih
      have hreceive := receive_consumer ⟨scope, event⟩ automata
      rw [hreceive]
      cases event with
      | monitorState event => exact ⟨_, hshows.observe event⟩
      | _ => exact ⟨events, hshows⟩
  | @deliverTo automata playback _ ih =>
      obtain ⟨events, hshows⟩ := ih
      obtain ⟨records, error, rest, hplays⟩ := playback.exists_plays
      rw [hplays.deliverTo receive_consumer, foldl_take]
      exact ⟨_, hshows.foldl_observe (stateEvents records)⟩
  | prepare => exact ⟨[], hempty⟩
  | conclude => exact ⟨[], hempty⟩
  | report => exact ⟨[], hempty⟩

/-! ## Equal outputs -/

/-- The contexts that were seen. -/
def contextsSeen (automata : Automata) : List UInt16 := automata.contexts.map Automaton.context

section Output
variable {names : NameRegistry} {automata other : Automata} {events events' : List MonitorState}

theorem Shows.context?_of_mem (h : automata.Shows events) {automaton : Automaton}
    (hmem : automaton ∈ automata.contexts) :
    automata.context? automaton.context = some automaton := by
  obtain ⟨context, hcontext⟩ := mem_contexts.mp hmem
  rw [(h.shows_of_context? hcontext).1]
  exact hcontext

theorem Shows.mem_contextsSeen (h : automata.Shows events) {context : UInt16} :
    context ∈ automata.contextsSeen ↔ (automata.context? context).isSome = true := by
  rw [contextsSeen, List.mem_map, Option.isSome_iff_exists]
  constructor
  · rintro ⟨automaton, hmem, rfl⟩
    exact ⟨automaton, h.context?_of_mem hmem⟩
  · rintro ⟨automaton, hcontext⟩
    exact ⟨automaton, mem_contexts.mpr ⟨context, hcontext⟩, (h.shows_of_context? hcontext).1⟩

/-- Equal outputs have the same blocks. -/
theorem blocks_of_output (houtput : automata.output names = other.output names) :
    automata.contexts.map (Dot.Block.ofAutomaton names) =
      other.contexts.map (Dot.Block.ofAutomaton names) := by
  have hblocks := blocks?_output names automata
  rw [houtput, blocks?_output] at hblocks
  exact (Option.some.inj hblocks).symm

/-- Names that tell the contexts apart determine which of them were seen. -/
theorem contextsSeen_of_output (houtput : automata.output names = other.output names)
    (hinj : Set.InjOn names.contextName
      {context | context ∈ automata.contextsSeen ∨ context ∈ other.contextsSeen}) :
    automata.contextsSeen = other.contextsSeen := by
  have hnames : automata.contextsSeen.map names.contextName =
      other.contextsSeen.map names.contextName := by
    have hblocks := congrArg (List.map Dot.Block.name) (blocks_of_output houtput)
    rw [List.map_map, List.map_map] at hblocks
    rw [contextsSeen, contextsSeen, List.map_map, List.map_map]
    exact hblocks
  exact injOn_list_map hinj (fun _ => .inl) (fun _ => .inr) hnames

/-- If the same contexts were seen, an automaton and that of the same context have the same
block. -/
theorem Shows.exists_entriesOf (h' : other.Shows events')
    (houtput : automata.output names = other.output names)
    (hseen : automata.contextsSeen = other.contextsSeen) {automaton : Automaton}
    (hmem : automaton ∈ automata.contexts) :
    ∃ automaton', other.context? automaton.context = some automaton' ∧
      Dot.entriesOf names automaton = Dot.entriesOf names automaton' := by
  have hpairs := congrArg₂ List.zip hseen (blocks_of_output houtput)
  rw [contextsSeen, contextsSeen, List.zip_map', List.zip_map'] at hpairs
  have hpair := List.mem_map_of_mem
    (f := fun automaton => (automaton.context, Dot.Block.ofAutomaton names automaton)) hmem
  rw [hpairs, List.mem_map] at hpair
  obtain ⟨automaton', hmem', heq⟩ := hpair
  obtain ⟨hcontext, hblock⟩ := Prod.mk.inj heq
  refine ⟨automaton', ?_, Dot.outline_injective (congrArg Dot.Block.statements hblock).symm⟩
  rw [← hcontext]
  exact h'.context?_of_mem hmem'

/-- Names that tell the states of a context apart determine its automaton. -/
theorem Shows.adjacency_of_output (h : automata.Shows events) (h' : other.Shows events')
    (houtput : automata.output names = other.output names)
    (hseen : automata.contextsSeen = other.contextsSeen) {context : UInt16}
    (hinj : Set.InjOn (names.stateName context)
      {u | u ∈ (automata.automatonOf context).states ∨ u ∈ (other.automatonOf context).states}) :
    (automata.automatonOf context).adjacency = (other.automatonOf context).adjacency := by
  cases hcontext : automata.context? context with
  | none =>
      have hnone : other.context? context = none := by
        rw [← Option.not_isSome_iff_eq_none, ← h'.mem_contextsSeen, ← hseen, h.mem_contextsSeen,
          hcontext]
        exact nofun
      rw [automatonOf_eq, automatonOf_eq, hcontext, hnone]
  | some automaton =>
      obtain ⟨rfl, hshows⟩ := h.shows_of_context? hcontext
      obtain ⟨automaton', hcontext', hentries⟩ :=
        h'.exists_entriesOf houtput hseen (mem_contexts.mpr ⟨_, hcontext⟩)
      obtain ⟨hsame, hshows'⟩ := h'.shows_of_context? hcontext'
      rw [automatonOf_eq, automatonOf_eq, hcontext, hcontext'] at hinj ⊢
      exact hshows.adjacency_of_entriesOf hshows' hsame.symm hinj hentries

end Output

/-- The output of automata is read as their blocks, contexts in ascending order, and in each
block the states in ascending order, each with its successors in ascending order.  Equal outputs
come from the same contexts if the names tell the contexts apart that were seen in either.  If
the same contexts were seen, they come from the same states and edges in every context, provided
the names tell the states apart that were seen there in either. -/
theorem render_reads_back (names : NameRegistry) {automata : Automata} (h : automata.Reached) :
    ((textOfBytes? (automata.output names)).bind fun text => Dot.blocks? text.toList) =
        some (automata.contexts.map (Dot.Block.ofAutomaton names)) ∧
      automata.contextsSeen.Pairwise (· < ·) ∧
      (∀ automaton ∈ automata.contexts,
        automaton.adjacency.map Prod.fst = automaton.states ∧ automaton.states.Pairwise (· < ·) ∧
        ∀ u next, (u, next) ∈ automaton.adjacency →
          next.Pairwise (· < ·) ∧ ∀ v, v ∈ next ↔ automaton.hasEdge u v = true) ∧
      ∀ other : Automata, other.Reached → automata.output names = other.output names →
        (Set.InjOn names.contextName
            {context | context ∈ automata.contextsSeen ∨ context ∈ other.contextsSeen} →
          automata.contextsSeen = other.contextsSeen) ∧
        (automata.contextsSeen = other.contextsSeen →
          (∀ context, Set.InjOn (names.stateName context)
            {u | u ∈ (automata.automatonOf context).states ∨
              u ∈ (other.automatonOf context).states}) →
          ∀ context, (automata.automatonOf context).states = (other.automatonOf context).states ∧
            ∀ u v, (automata.automatonOf context).hasEdge u v =
              (other.automatonOf context).hasEdge u v) := by
  obtain ⟨events, hshows⟩ := h.exists_shows
  refine ⟨blocks?_output names automata, hshows.contexts_ascending, fun automaton hmem => ?_,
    fun other h' houtput => ⟨contextsSeen_of_output houtput, ?_⟩⟩
  · obtain ⟨context, hcontext⟩ := mem_contexts.mp hmem
    have hkeyed := (hshows.shows_of_context? hcontext).2.keyed
    exact ⟨automaton.map_fst_adjacency, hkeyed.states_ascending, fun u next hentry =>
      hkeyed.mem_adjacency hentry⟩
  intro hseen hinj context
  obtain ⟨events', hshows'⟩ := h'.exists_shows
  have hlisting := hshows.adjacency_of_output hshows' houtput hseen (hinj context)
  constructor
  · rw [← Automaton.map_fst_adjacency, hlisting, Automaton.map_fst_adjacency]
  · exact (hshows.shows context).keyed.hasEdge_congr (hshows'.shows context).keyed hlisting

/-- A context whose name would end its block and start another, and states whose names are a
backslash and the end of a statement. -/
theorem render_reads_back_hostile :
    let names := ((NameRegistry.empty.nameContext 1 "a\"\x7d\ndigraph \"b").nameState 1 0 "\\").nameState
      1 1 "\\\";"
    let automata := (empty.observe ⟨1, 0, 0⟩).observe ⟨1, 0, 1⟩
    ((textOfBytes? (automata.output names)).bind fun text => Dot.blocks? text.toList) =
      some [⟨"a\"\x7d\ndigraph \"b",
        [.vertex "\\", .edge "\\" "\\\";", .vertex "\\\";"]⟩] := by
  intro names automata
  have hreached : automata.Reached := .observe _ (.observe _ .empty)
  rw [(render_reads_back names hreached).1]
  decide +kernel

/-- What one event leaves has one state at most in each context. -/
theorem subsingleton_states_observe (event : MonitorState) (context : UInt16) :
    {u | u ∈ ((empty.observe event).automatonOf context).states}.Subsingleton := by
  have hempty : empty.Shows [] := shows_nil rfl
  have hshows : (empty.observe event).Shows [event] := hempty.observe event
  intro u hu v hv
  have hstate : ∀ u, u ∈ ((empty.observe event).automatonOf context).states → u = event.state := by
    intro u hu
    rw [(hshows.shows context).keyed.mem_states, (hshows.shows context).mem, statesOf,
      List.mem_map] at hu
    obtain ⟨event', hmem, rfl⟩ := hu
    rw [List.mem_singleton.mp (List.mem_of_mem_filter hmem)]
  rw [hstate u hu, hstate v hv]

/-- Two states of a context that share a name, of which each is seen without the other, have the
same output.  So do two contexts that share a name. -/
theorem output_of_shared_names :
    let names := (NameRegistry.empty.nameState 1 0 "S").nameState 1 1 "S"
    let first := empty.observe ⟨1, 0, 0⟩
    let second := empty.observe ⟨1, 0, 1⟩
    let names' := (NameRegistry.empty.nameContext 1 "C").nameContext 2 "C"
    let second' := empty.observe ⟨2, 0, 0⟩
    (first.Reached ∧ second.Reached ∧ second'.Reached) ∧
      (∀ names : NameRegistry, ∀ automata ∈ [first, second, second'], ∀ context,
        Set.InjOn (names.stateName context) {u | u ∈ (automata.automatonOf context).states}) ∧
      (first.output names = second.output names ∧
        (first.automatonOf 1).states = [0] ∧ (second.automatonOf 1).states = [1]) ∧
      (first.output names' = second'.output names' ∧
        (first.automatonOf 1).states = [0] ∧ (second'.automatonOf 1).states = []) := by
  intro names first second names' second'
  have hsame : first.dot names = second.dot names := by decide +kernel
  have hsame' : first.dot names' = second'.dot names' := by decide +kernel
  refine ⟨⟨.observe _ .empty, .observe _ .empty, .observe _ .empty⟩, ?_,
    ⟨?_, by decide +kernel, by decide +kernel⟩, ⟨?_, by decide +kernel, by decide +kernel⟩⟩
  · intro names automata hmem context
    have hobserve : ∃ event, automata = empty.observe event := by
      simp only [List.mem_cons, List.not_mem_nil, or_false] at hmem
      rcases hmem with rfl | rfl | rfl <;> exact ⟨_, rfl⟩
    obtain ⟨event, rfl⟩ := hobserve
    exact (subsingleton_states_observe event context).injOn _
  · rw [output_eq, output_eq, hsame]
  · rw [output_eq, output_eq, hsame']

end Automata

end StateTrace
