import Mathlib.Logic.Relation
import StateTrace.Proofs.Automaton.Report
import StateTrace.Proofs.Recording.Transcript

/-!
# What the report of automata depends on

Of a trace the report of the automata sees, for each context, the states in their order
(`statesIn`).  Playbacks that agree on these leave the same in a sink (`ReportAlike`), since
the drawing is made from nothing else (`Dot.drawing_congr`).

A *retouch* is a change of a trace that no context sees: another order of records that keeps
the order in each context, a record of another kind that comes or goes, another scope or
entity of a record.  One retouch keeps the states of every context (`Retouch.statesIn_eq`),
and so do any number of them (`statesIn_of_retouches`).
`report_determined` puts this in terms of the bytes of traces.
-/

namespace StateTrace

open Wire

/-! ## States by context -/

/-- The state that an event enters in a context, if it enters one there. -/
def Event.stateIn? (context : UInt16) : Event → Option UInt16
  | .monitorState event => if event.context = context then some event.state else none
  | _ => none

/-- The states that records enter in a context, in order. -/
def statesIn (context : UInt16) (records : List Record) : List UInt16 :=
  records.filterMap fun r => r.event.stateIn? context

/-- The entity of an event plays no part, and an event of another context does not either. -/
example : statesIn 2 [⟨.empty, .monitorState ⟨2, 1, 7⟩⟩, ⟨.empty, .monitorState ⟨1, 1, 3⟩⟩,
    ⟨.simulation .zero, .monitorState ⟨2, 9, 8⟩⟩, ⟨.empty, .nodeCreate⟩] = [7, 8] := by
  decide

theorem Event.stateIn?_of_kind {event : Event} (h : event.kind ≠ .monitorState)
    (context : UInt16) : event.stateIn? context = none := by
  cases event with
  | monitorState => exact absurd rfl h
  | _ => rfl

/-- The states of a context are those of its state events. -/
theorem statesOf_stateEvents (context : UInt16) (records : List Record) :
    statesOf context (stateEvents records) = statesIn context records := by
  rw [statesOf, stateEvents, statesIn, List.filter_filterMap, List.map_filterMap]
  congr 1
  funext r
  cases r.event with
  | monitorState event =>
      by_cases h : event.context = context <;> simp [Event.stateIn?, h, Option.filter]
  | _ => rfl

/-- The mark of unknown parts is no part of an event. -/
theorem statesIn_withoutUnknown (context : UInt16) (records : List Record) :
    statesIn context (records.map Record.withoutUnknown) = statesIn context records := by
  rw [statesIn, List.filterMap_map]
  rfl

/-- A drawing depends on the states of the contexts alone. -/
theorem Dot.drawing_congr (names : NameRegistry) {events events' : List MonitorState}
    (h : ∀ context, statesOf context events = statesOf context events') :
    drawing names events = drawing names events' := by
  have hcontexts : ascending (events.map MonitorState.context) =
      ascending (events'.map MonitorState.context) := by
    refine eq_ascending (pairwise_ascending _) fun context => ?_
    rw [mem_ascending, ← statesOf_ne_nil_iff, h, statesOf_ne_nil_iff]
  rw [drawing, drawing, hcontexts]
  exact List.flatMap_congr fun context _ => by rw [h]

/-! ## Reports -/

namespace Automata

/-- The report leaves in a sink what writing the drawing of the records leaves there. -/
theorem sink_report (names : NameRegistry) (automata : Automata) (playback : Playback)
    (sink : Sink) :
    (playback.report (report names) automata sink).sink =
      (Sink.write (Dot.drawn names (stateEvents playback.drain.1)) sink).2 := by
  obtain ⟨records, error, rest, hplays⟩ := playback.exists_plays
  rw [report_of_plays hplays, hplays.drain]

/-- The report of one playback leaves in any sink what that of the other leaves there,
whatever automata there were before. -/
def ReportAlike (names : NameRegistry) (playback other : Playback) : Prop :=
  ∀ (automata automata' : Automata) (sink : Sink),
    (playback.report (report names) automata sink).sink =
      (other.report (report names) automata' sink).sink

theorem reportAlike_of_statesIn (names : NameRegistry) {playback other : Playback}
    (h : ∀ context, statesIn context playback.drain.1 = statesIn context other.drain.1) :
    ReportAlike names playback other := by
  intro automata automata' sink
  have hevents : ∀ context, statesOf context (stateEvents playback.drain.1) =
      statesOf context (stateEvents other.drain.1) := by
    intro context
    rw [statesOf_stateEvents, statesOf_stateEvents, h]
  rw [sink_report, sink_report, Dot.drawn, Dot.drawn, Dot.drawing_congr names hevents]

/-! ## Retouches -/

/-- The entries of a context: those that enter a state of it. -/
def entriesIn (context : UInt16) (entries : List (Record × List UInt8)) :
    List (Record × List UInt8) :=
  entries.filter fun entry => (entry.1.event.stateIn? context).isSome

/-- A change of the entries of a trace that no context sees. -/
inductive Retouch : List (Record × List UInt8) → List (Record × List UInt8) → Prop
  /-- The entries of each context stay in their order. -/
  | reorder {entries entries' : List (Record × List UInt8)} :
      entries.Perm entries' →
      (∀ context, entriesIn context entries = entriesIn context entries') →
      Retouch entries entries'
  | insert {before after : List (Record × List UInt8)} {entry : Record × List UInt8} :
      entry.1.event.kind ≠ .monitorState →
      Retouch (before ++ after) (before ++ entry :: after)
  | delete {before after : List (Record × List UInt8)} {entry : Record × List UInt8} :
      entry.1.event.kind ≠ .monitorState →
      Retouch (before ++ entry :: after) (before ++ after)
  /-- The scope may change, the entity, and the bytes. -/
  | change {before after : List (Record × List UInt8)} {entry entry' : Record × List UInt8} :
      (∀ context, entry.1.event.stateIn? context = entry'.1.event.stateIn? context) →
      Retouch (before ++ entry :: after) (before ++ entry' :: after)

section Retouch
variable {entries entries' : List (Record × List UInt8)}

/-- The states of a context are those of its entries. -/
theorem statesIn_entriesIn (context : UInt16) (entries : List (Record × List UInt8)) :
    statesIn context ((entriesIn context entries).map Prod.fst) =
      statesIn context (entries.map Prod.fst) := by
  rw [statesIn, statesIn, List.filterMap_map, List.filterMap_map, entriesIn,
    List.filterMap_filter]
  congr 1
  funext entry
  show (if (entry.1.event.stateIn? context).isSome then entry.1.event.stateIn? context else none) =
    entry.1.event.stateIn? context
  cases entry.1.event.stateIn? context <;> rfl

theorem statesIn_append_cons (context : UInt16) (before after : List (Record × List UInt8))
    (entry : Record × List UInt8) :
    statesIn context ((before ++ entry :: after).map Prod.fst) =
      statesIn context (before.map Prod.fst) ++ (entry.1.event.stateIn? context).toList ++
        statesIn context (after.map Prod.fst) := by
  rw [statesIn, statesIn, statesIn, List.map_append, List.map_cons, List.filterMap_append,
    List.filterMap_cons]
  cases entry.1.event.stateIn? context <;> simp

/-- One retouch keeps the states of every context. -/
theorem Retouch.statesIn_eq (h : Retouch entries entries') (context : UInt16) :
    statesIn context (entries.map Prod.fst) = statesIn context (entries'.map Prod.fst) := by
  cases h with
  | reorder _ hsame => rw [← statesIn_entriesIn, hsame, statesIn_entriesIn]
  | insert hkind =>
      rw [statesIn_append_cons, Event.stateIn?_of_kind hkind]
      simp [statesIn]
  | delete hkind =>
      rw [statesIn_append_cons, Event.stateIn?_of_kind hkind]
      simp [statesIn]
  | change hstate => rw [statesIn_append_cons, hstate, statesIn_append_cons]

/-- So do any number of them. -/
theorem statesIn_of_retouches (h : Relation.ReflTransGen Retouch entries entries')
    (context : UInt16) :
    statesIn context (entries.map Prod.fst) = statesIn context (entries'.map Prod.fst) := by
  induction h with
  | refl => rfl
  | tail _ hretouch ih => exact ih.trans (hretouch.statesIn_eq context)

end Retouch

/-- What the report writes is determined by the states of each context, in their order.  So it
is the same for traces that come from each other by retouches, whatever their minor versions,
and for a trace and its transcript. -/
theorem report_determined (names : NameRegistry) :
    (∀ playback other : Playback,
      (∀ context, statesIn context playback.drain.1 = statesIn context other.drain.1) →
        ReportAlike names playback other) ∧
      (∀ (minor minor' : UInt32) (entries entries' : List (Record × List UInt8)),
        (∀ entry ∈ entries, Spells entry.1 entry.2) →
        (∀ entry ∈ entries', Spells entry.1 entry.2) →
        Relation.ReflTransGen Retouch entries entries' →
        ∀ source source' : Source,
          source.Delivers (headerBytes majorVersion minor ++ entries.flatMap Prod.snd) →
          source'.Delivers (headerBytes majorVersion minor' ++ entries'.flatMap Prod.snd) →
          ∃ playback other, Playback.start source = .ok playback ∧
            Playback.start source' = .ok other ∧ playback.drain.2.1 = none ∧
            other.drain.2.1 = none ∧ ReportAlike names playback other) ∧
      ∀ (playback : Playback) (source : Source),
        source.Delivers (Recording.transcribe playback).sink.bytes →
          ∃ again, Playback.start source = .ok again ∧ ReportAlike names playback again := by
  refine ⟨fun playback other => reportAlike_of_statesIn names, ?_, fun playback source hsource => ?_⟩
  · intro minor minor' entries entries' hspells hspells' hretouches source source' hsource hsource'
    obtain ⟨playback, hstart, -, -, hdelivers⟩ := Playback.start_header hsource
    obtain ⟨other, hstart', -, -, hdelivers'⟩ := Playback.start_header hsource'
    obtain ⟨hrecords, hend⟩ := (content_of_spells hspells).drain hdelivers
    obtain ⟨hrecords', hend'⟩ := (content_of_spells hspells').drain hdelivers'
    refine ⟨playback, other, hstart, hstart', hend, hend',
      reportAlike_of_statesIn names fun context => ?_⟩
    rw [hrecords, hrecords']
    exact statesIn_of_retouches hretouches context
  · obtain ⟨again, hstart, hrecords, -⟩ := Recording.exists_start_transcribe playback hsource
    refine ⟨again, hstart, reportAlike_of_statesIn names fun context => ?_⟩
    rw [hrecords, statesIn_withoutUnknown]

/-- Two contexts in another order, under another minor version.  One state event has another
entity and an unknown part in its scope, and an unknown event comes in between. -/
theorem report_determined_interleaved :
    let bytes := headerBytes majorVersion 0 ++
      [0, 0, 0, 0, 0, 2, 0, 0, 0, 6, 0, 1, 0, 2, 0, 3, 0, 0, 0, 0, 0, 2, 0, 0, 0, 6, 0, 7, 0, 2, 0, 4]
    let bytes' := headerBytes majorVersion 5 ++
      [0, 0, 0, 1, 0, 1, 0xaa, 0, 2, 0, 0, 0, 6, 0, 7, 0, 9, 0, 4, 0, 0, 0, 0, 0, 8, 0, 0, 0, 1, 0xbb,
        0, 0, 0, 0, 0, 2, 0, 0, 0, 6, 0, 1, 0, 2, 0, 3]
    ∃ playback other, Playback.start (.ofBytes bytes) = .ok playback ∧
      Playback.start (.ofBytes bytes') = .ok other ∧ ReportAlike .empty playback other := by
  intro bytes bytes'
  let playback : Playback := ⟨⟨.ofBytes (bytes.drop headerLength), []⟩, majorVersion, 0, 0⟩
  let other : Playback := ⟨⟨.ofBytes (bytes'.drop headerLength), []⟩, majorVersion, 5, 0⟩
  have hplays : playback.Plays
      [⟨.empty, .monitorState ⟨1, 2, 3⟩⟩, ⟨.empty, .monitorState ⟨7, 2, 4⟩⟩]
      none (playback.after 3) :=
    Playback.plays_of_answers (by decide +kernel)
  have hplays' : other.Plays
      [⟨Scope.empty.withUnknown, .monitorState ⟨7, 9, 4⟩⟩, ⟨.empty, .unknown 8⟩,
        ⟨.empty, .monitorState ⟨1, 2, 3⟩⟩] none (other.after 4) :=
    Playback.plays_of_answers (by decide +kernel)
  obtain ⟨hdetermined, -, -⟩ := report_determined .empty
  refine ⟨playback, other, by decide +kernel, by decide +kernel,
    hdetermined playback other fun context => ?_⟩
  rw [hplays.drain, hplays'.drain]
  by_cases hone : 1 = context
  · subst hone
    decide
  · by_cases hseven : 7 = context
    · subst hseven
      decide
    · simp [statesIn, Event.stateIn?, hone, hseven]

end Automata

end StateTrace
