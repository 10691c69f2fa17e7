import StateTrace.Playback
import StateTrace.Proofs.Record.ScopeForms

/-!
# Decoded scopes

The decoder makes scopes from the empty one by setting parts, whatever the source
does.  So the scope of a record that was read has the same form as a scope that was
built, but for the flag of the parts that are not known, and that one says whether
the mask of the record announced any (`Playback.scope_of_next`).

`Yields d P` says that every result of a decoder satisfies `P`.  Nothing is said about
when there is one, so its rules need no assumption on the source.
-/

namespace StateTrace

namespace Decoder

variable {α β : Type}

/-- Every result satisfies `P`. -/
def Yields (d : Decoder α) (P : α → Prop) : Prop :=
  ∀ input a rest, d input = (.ok a, rest) → P a

theorem yields_pure {P : α → Prop} {a : α} (h : P a) : Yields (pure a) P := by
  rintro input b rest ⟨⟩
  exact h

theorem yields_trivial (d : Decoder α) : Yields d fun _ => True :=
  fun _ _ _ _ => trivial

theorem Yields.bind {d : Decoder α} {f : α → Decoder β} {P : α → Prop} {Q : β → Prop}
    (hd : Yields d P) (hf : ∀ a, P a → Yields (f a) Q) : Yields (d >>= f) Q := by
  intro input b rest h
  rw [bind_apply] at h
  split at h
  · next a middle hs => exact hf a (hd input a middle hs) middle b rest h
  · cases h

/-! ## Scopes -/

theorem yields_simulationPart (flags : ScopeFlags) :
    Yields (simulationPart flags .empty) fun timed =>
      ∃ simUs, timed = Scope.ofParts simUs none false := by
  unfold simulationPart
  split
  · exact (yields_trivial double).bind fun simUs _ =>
      yields_pure ⟨some simUs, Scope.withSimulation_ofParts none none false simUs⟩
  · exact yields_pure ⟨none, Scope.empty_eq_ofParts⟩

theorem yields_nodePart (flags : ScopeFlags) (simUs : Option Double) :
    Yields (nodePart flags (Scope.ofParts simUs none false)) fun placed =>
      ∃ node, placed = Scope.ofParts simUs node false := by
  unfold nodePart
  split
  · exact (yields_trivial uint16).bind fun nodeId _ =>
      (yields_trivial nodeTime).bind fun time _ =>
        yields_pure ⟨some (nodeId, time), Scope.withNode_ofParts simUs none false nodeId time⟩
  · exact yields_pure ⟨none, rfl⟩

/-- Any part that is not known marks the scope, and nothing else happens to it. -/
theorem yields_foreignParts (foreign : ScopeFlags) (scope : Scope) :
    ∀ simUs node unknown, scope = Scope.ofParts simUs node unknown →
      Yields (foreignParts foreign scope) fun marked =>
        marked = Scope.ofParts simUs node (unknown || foreign.bits != 0) := by
  induction foreign, scope using foreignParts_induct with
  | done foreign scope hzero =>
      rintro simUs node unknown rfl
      rw [foreignParts_done hzero]
      refine yields_pure ?_
      rw [hzero, bne_self_eq_false, Bool.or_false]
  | passed foreign scope hne ih =>
      rintro simUs node unknown rfl
      rw [foreignParts_passed hne]
      have hmarked := ih simUs node true (Scope.withUnknown_ofParts simUs node unknown)
      rw [Bool.true_or] at hmarked
      rw [bne_iff_ne.mpr hne, Bool.or_true]
      exact (yields_trivial foreignPart).bind fun _ _ => hmarked

theorem yields_scope (flags : ScopeFlags) :
    Yields (scope flags) fun placed => ∃ simUs node,
      placed = Scope.ofParts simUs node ((flags.erase .decoded).bits != 0) := by
  refine (yields_simulationPart flags).bind ?_
  rintro _ ⟨simUs, rfl⟩
  refine (yields_nodePart flags simUs).bind ?_
  rintro _ ⟨node, rfl⟩
  intro input placed rest h
  exact ⟨simUs, node, yields_foreignParts _ _ simUs node false rfl input placed rest h⟩

theorem yields_recordBody (flags : ScopeFlags) :
    Yields (recordBody flags) fun r => ∃ simUs node,
      r.scope = Scope.ofParts simUs node ((flags.erase .decoded).bits != 0) :=
  (yields_scope flags).bind fun _ hscope =>
    (yields_trivial event).bind fun _ _ => yields_pure hscope

/-- A record that was read has flags and a body. -/
theorem exists_recordStart {input rest : Input} {r : Record}
    (h : record? input = (.ok (some r), rest)) :
    ∃ flags middle, recordStart input = (.ok (some flags), middle) ∧
      recordBody flags middle = (.ok r, rest) := by
  rw [record?, bind_apply] at h
  split at h
  · next start middle hstart =>
      cases start with
      | none => cases h
      | some flags =>
          have hbody : (recordBody flags >>= fun r => pure (some r)) middle =
              (.ok (some r), rest) := h
          rw [bind_apply] at hbody
          split at hbody
          · next hread =>
              cases hbody
              exact ⟨flags, middle, hstart, hread⟩
          · cases hbody
  · cases h

/-- The flags of a record are its first four bytes. -/
theorem bytes_of_recordStart {input rest : Input} {flags : ScopeFlags}
    (h : recordStart input = (.ok (some flags), rest)) :
    (input.source.gather 4).bytes = BigEndian.ofUInt32 flags.bits := by
  simp only [recordStart] at h
  split at h
  · next hfilled =>
      cases h
      exact (BigEndian.ofUInt32_toUInt32 (input.source.length_bytes_gather 4 hfilled)).symm
  · split at h <;> cases h
  · cases h

end Decoder

/-- The scope of a record that was read from any source, and the mask that the record starts
with.  The scope is marked if the mask announces a part that is not known. -/
theorem Playback.scope_of_next {playback after : Playback} {r : Record}
    (h : playback.next = (.ok (some r), after)) :
    ∃ mask simUs node,
      (playback.input.source.gather 4).bytes = BigEndian.ofUInt32 mask ∧
        r.scope = Scope.ofParts simUs node (mask &&& ~~~0x6 != 0) := by
  unfold next at h
  split at h
  · next _ rest hs =>
      cases h
      obtain ⟨flags, middle, hstart, hbody⟩ := Decoder.exists_recordStart hs
      obtain ⟨simUs, node, hscope⟩ := Decoder.yields_recordBody flags middle r rest hbody
      exact ⟨flags.bits, simUs, node, Decoder.bytes_of_recordStart hstart, hscope⟩
  · next hne hs =>
      cases h
      exact absurd rfl (hne r)

theorem Playback.hasForm_of_next {playback after : Playback} {r : Record}
    (h : playback.next = (.ok (some r), after)) : r.scope.HasForm := by
  obtain ⟨mask, simUs, node, -, hscope⟩ := Playback.scope_of_next h
  exact ⟨simUs, node, _, hscope⟩

namespace Scope

/-- Scopes that can occur: built, read, or made from these by setting parts. -/
inductive Reachable : Scope → Prop
  | built {scope : Scope} : Built scope → Reachable scope
  | read {playback after : Playback} {r : Record} :
      playback.next = (.ok (some r), after) → Reachable r.scope
  | withSimulation {scope : Scope} (simUs : Double) :
      Reachable scope → Reachable (scope.withSimulation simUs)
  | withNode {scope : Scope} (nodeId : UInt16) (nodeTime : NodeTime) :
      Reachable scope → Reachable (scope.withNode nodeId nodeTime)

theorem Reachable.hasForm {scope : Scope} (h : scope.Reachable) : scope.HasForm := by
  induction h with
  | built h => exact h.plain.hasForm
  | read h => exact Playback.hasForm_of_next h
  | withSimulation simUs _ ih => exact ih.withSimulation simUs
  | withNode nodeId nodeTime _ ih => exact ih.withNode nodeId nodeTime

end Scope

end StateTrace
