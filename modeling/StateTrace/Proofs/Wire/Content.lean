import StateTrace.Proofs.Wire.Acceptance

/-!
# The content of a trace

`Content bytes entries error` says what the bytes behind a header hold: records, each with
the bytes that spell it, one behind the other up to the end of the bytes or to the first
bytes that are refused.  Every byte list has a content (`exists_content`), and a record that
is spelled at its start is the first entry (`Content.of_spelled`).

What follows some bytes changes little of their content.  A record is never taken back
(`Content.isPrefix`).  Nor is an error, unless it is that the bytes end too soon
(`Content.append_failed`).  And bytes without an error go on with the content of what
follows (`Content.append`).  In the other direction, bytes that are cut anywhere keep the
entries before the cut, and what is left of the next one is a truncated trace
(`Content.take`).
-/

namespace StateTrace

open Wire

/-! ## Answers in the terms of the grammar -/

namespace Decoder

section Gives
variable {bytes after : List UInt8} {r : Record} {error : ReadError}

/-- A record is given only where it is spelled. -/
theorem spells_of_gives (h : Gives record? bytes (.ok (some r)) after) :
    ∃ w, Spells r w ∧ bytes = w ++ after := by
  rcases spelled_or_refused bytes with hnil | ⟨r', w, after', hspells, hbytes⟩ |
    ⟨error, after', hrefuses⟩
  · subst hnil
    cases (h.unique gives_nothing).1
  · subst hbytes
    obtain ⟨hanswer, hafter⟩ := h.unique (gives_spelled hspells after')
    cases hanswer
    exact ⟨w, hspells, by rw [hafter]⟩
  · cases (h.unique (gives_refused hrefuses)).1

/-- An error is given only where the grammar refuses. -/
theorem refuses_of_gives (h : Gives record? bytes (.error error) after) :
    Refuses bytes error after := by
  rcases spelled_or_refused bytes with hnil | ⟨r, w, after', hspells, hbytes⟩ |
    ⟨error', after', hrefuses⟩
  · subst hnil
    cases (h.unique gives_nothing).1
  · subst hbytes
    cases (h.unique (gives_spelled hspells after')).1
  · obtain ⟨hanswer, hafter⟩ := h.unique (gives_refused hrefuses)
    cases hanswer
    rw [hafter]
    exact hrefuses

end Gives

end Decoder

namespace Wire

section Spells
variable {r r' : Record} {w w' after after' : List UInt8}

/-- A record has at least a mask. -/
theorem Spells.ne_nil (h : Spells r w) : w ≠ [] := by
  intro hnil
  subst hnil
  cases ((Decoder.gives_spelled h []).unique Decoder.gives_nothing).1

/-- A spelling ends where it ends, whatever follows it. -/
theorem Spells.append_inj (h : Spells r w) (h' : Spells r' w')
    (heq : w ++ after = w' ++ after') : r = r' ∧ w = w' ∧ after = after' := by
  have hgives := Decoder.gives_spelled h after
  rw [heq] at hgives
  obtain ⟨hanswer, hafter⟩ := hgives.unique (Decoder.gives_spelled h' after')
  cases hanswer
  subst hafter
  exact ⟨rfl, List.append_cancel_right heq, rfl⟩

/-- What is spelled is not refused. -/
theorem Spells.not_refuses (h : Spells r w) {error : ReadError} :
    ¬Refuses (w ++ after) error after' := by
  intro hrefuses
  cases ((Decoder.gives_spelled h after).unique (Decoder.gives_refused hrefuses)).1

end Spells

/-! ## Refusals -/

/-- More bytes behind a payload do not change why it is refused, unless it is too short. -/
theorem RefusesEvent.append {number : UInt16} {length : Nat} {rest after : List UInt8}
    {error : ReadError} (h : RefusesEvent number length rest error after)
    (hne : error ≠ .truncated) (more : List UInt8) :
    RefusesEvent number length (rest ++ more) error (after ++ more) := by
  cases h with
  | reserved hzero => exact .reserved hzero
  | tooLarge hnumber hlarge => exact .tooLarge hnumber hlarge
  | wrongLength hmax hfixed hlength => exact .wrongLength hmax hfixed hlength
  | missing => exact absurd rfl hne
  | byteOrder hnumber hlength hoffsets hbig hlittle =>
      rw [List.append_assoc, List.cons_append]
      exact .byteOrder hnumber hlength hoffsets hbig hlittle
  | dataHeader hnumber hlength hlt =>
      rw [List.append_assoc]
      exact .dataHeader hnumber hlength hlt
  | dataLength hnumber hmax hlength hsize =>
      rw [List.append_assoc]
      exact .dataLength hnumber hmax hlength hsize

theorem Refuses.append {bytes after : List UInt8} {error : ReadError}
    (h : Refuses bytes error after) (hne : error ≠ .truncated) (more : List UInt8) :
    Refuses (bytes ++ more) error (after ++ more) := by
  cases h with
  | head => exact absurd rfl hne
  | event hevent =>
      rw [List.append_assoc]
      exact .event (hevent.append hne more)

/-! ## Contents -/

/-- The records that bytes hold, each with its own bytes, and the error that ends them if
there is one. -/
inductive Content : List UInt8 → List (Record × List UInt8) → Option ReadError → Prop
  | complete : Content [] [] none
  | failed {bytes after : List UInt8} {error : ReadError} :
      Refuses bytes error after → Content bytes [] (some error)
  | record {r : Record} {w after : List UInt8} {entries : List (Record × List UInt8)}
      {error : Option ReadError} :
      Spells r w → Content after entries error → Content (w ++ after) ((r, w) :: entries) error

/-- Every byte list has a content. -/
theorem exists_content (bytes : List UInt8) : ∃ entries error, Content bytes entries error := by
  rcases Decoder.spelled_or_refused bytes with hnil | ⟨r, w, after, hspells, hbytes⟩ |
    ⟨error, after, hrefuses⟩
  · subst hnil
    exact ⟨[], none, .complete⟩
  · have hshorter : after.length < bytes.length := by
      rw [hbytes, List.length_append]
      exact Nat.lt_add_of_pos_left (List.length_pos_iff.mpr hspells.ne_nil)
    obtain ⟨entries, error, hcontent⟩ := exists_content after
    rw [hbytes]
    exact ⟨(r, w) :: entries, error, .record hspells hcontent⟩
  · exact ⟨[], some error, .failed hrefuses⟩
termination_by bytes.length

/-- How many bytes entries have. -/
def extent (entries : List (Record × List UInt8)) : Nat :=
  (entries.flatMap Prod.snd).length

section Content
variable {bytes more : List UInt8} {entries entries' : List (Record × List UInt8)}
  {error error' : Option ReadError}

@[simp] theorem extent_nil : extent [] = 0 := rfl

@[simp] theorem extent_cons (entry : Record × List UInt8) (entries : List (Record × List UInt8)) :
    extent (entry :: entries) = entry.2.length + extent entries := by
  simp [extent]

/-- More entries have more bytes. -/
theorem extent_take_le {n m : Nat} (h : n ≤ m) (entries : List (Record × List UInt8)) :
    extent (entries.take n) ≤ extent (entries.take m) := by
  induction entries generalizing n m with
  | nil => simp
  | cons entry entries ih =>
      cases n with
      | zero => simp
      | succ n =>
          cases m with
          | zero => omega
          | succ m =>
              have := ih (Nat.le_of_succ_le_succ h)
              simp only [List.take_succ_cons, extent_cons]
              omega

/-- Spelled entries one behind the other, and nothing else. -/
theorem content_of_spells (h : ∀ entry ∈ entries, Spells entry.1 entry.2) :
    Content (entries.flatMap Prod.snd) entries none := by
  induction entries with
  | nil => exact .complete
  | cons entry entries ih =>
      rw [List.flatMap_cons]
      exact .record (h entry List.mem_cons_self) (ih fun e he => h e (List.mem_cons_of_mem entry he))

/-- A record that is spelled at the start is the first entry. -/
theorem Content.of_spelled {r : Record} {w after : List UInt8} (hspells : Spells r w)
    (h : Content (w ++ after) entries error) :
    ∃ rest, entries = (r, w) :: rest ∧ Content after rest error := by
  generalize hbytes : w ++ after = bytes at h
  cases h with
  | complete => exact absurd (List.append_eq_nil_iff.mp hbytes).1 hspells.ne_nil
  | failed hrefuses =>
      rw [← hbytes] at hrefuses
      exact absurd hrefuses hspells.not_refuses
  | record hspells' hrest =>
      obtain ⟨rfl, rfl, rfl⟩ := hspells.append_inj hspells' hbytes
      exact ⟨_, rfl, hrest⟩

/-- The entries are within the bytes. -/
theorem Content.extent_le (h : Content bytes entries error) : extent entries ≤ bytes.length := by
  induction h with
  | complete => exact Nat.le_refl 0
  | failed => exact Nat.zero_le _
  | record _ _ ih =>
      rw [extent_cons, List.length_append]
      exact Nat.add_le_add_left ih _

/-- If an entry ends at a cut, it is the last one that ends at the cut or before it. -/
theorem extent_take_eq_iff {count k : Nat} (hcount : count ≤ entries.length)
    (hends : ∀ n ≤ entries.length, n ≤ count ↔ extent (entries.take n) ≤ k) :
    extent (entries.take count) = k ↔ ∃ n ≤ entries.length, extent (entries.take n) = k := by
  constructor
  · intro hat
    exact ⟨count, hcount, hat⟩
  · intro ⟨n, hn, hat⟩
    have hbefore := extent_take_le ((hends n hn).mpr (Nat.le_of_eq hat)) entries
    have hwithin := (hends count hcount).mp (Nat.le_refl count)
    omega

/-! ## More bytes -/

/-- The entries stay the first ones when more bytes follow. -/
theorem Content.isPrefix (h : Content bytes entries error)
    (hmore : Content (bytes ++ more) entries' error') : entries <+: entries' := by
  induction h generalizing entries' with
  | complete => exact List.nil_prefix
  | failed => exact List.nil_prefix
  | record hspells _ ih =>
      rw [List.append_assoc] at hmore
      obtain ⟨rest, rfl, hrest⟩ := hmore.of_spelled hspells
      exact List.cons_prefix_cons.mpr ⟨rfl, ih hrest⟩

/-- So does the error, unless the bytes end too soon. -/
theorem Content.append_failed {failure : ReadError} (h : Content bytes entries (some failure))
    (hne : failure ≠ .truncated) (more : List UInt8) :
    Content (bytes ++ more) entries (some failure) := by
  generalize hending : some failure = ending at h
  induction h with
  | complete => cases hending
  | failed hrefuses =>
      cases hending
      exact .failed (hrefuses.append hne more)
  | record hspells _ ih =>
      rw [List.append_assoc]
      exact .record hspells (ih hending)

/-- Without an error, the content of what follows is added. -/
theorem Content.append (h : Content bytes entries none) (hmore : Content more entries' error) :
    Content (bytes ++ more) (entries ++ entries') error := by
  generalize hending : none = ending at h
  induction h with
  | complete => exact hmore
  | failed => cases hending
  | record hspells _ ih =>
      rw [List.append_assoc]
      exact .record hspells (ih hending)

/-! ## Fewer bytes -/

/-- A spelling without its end holds nothing, and is truncated if there is something of
it. -/
theorem content_part {r : Record} {part missing : List UInt8} (h : Spells r (part ++ missing))
    (hmissing : missing ≠ []) :
    Content part [] (if part.length = 0 then none else some .truncated) := by
  have hgives := Decoder.gives_cut h hmissing
  cases part with
  | nil => exact .complete
  | cons b part => exact .failed (Decoder.refuses_of_gives hgives)

/-- Bytes that are cut hold the entries that end at the cut or before it.  They are complete
if the last of these ends at the cut, and truncated otherwise. -/
theorem Content.take (h : Content bytes entries none) {k : Nat} (hk : k ≤ bytes.length) :
    ∃ count ≤ entries.length,
      (∀ n ≤ entries.length, n ≤ count ↔ extent (entries.take n) ≤ k) ∧
        Content (bytes.take k) (entries.take count)
          (if extent (entries.take count) = k then none else some .truncated) := by
  generalize hending : none = ending at h
  induction h generalizing k with
  | complete =>
      cases Nat.le_zero.mp hk
      refine ⟨0, Nat.le_refl 0, fun n hn => ?_, .complete⟩
      cases Nat.le_zero.mp hn
      simp
  | failed => cases hending
  | @record r w after entries error hspells hcontent ih =>
      subst hending
      rcases Nat.lt_or_ge k w.length with hlt | hge
      · -- The cut is inside the first entry.
        have hsplit := List.take_append_drop k w
        have hmissing : w.drop k ≠ [] := by
          intro hnil
          rw [List.drop_eq_nil_iff] at hnil
          omega
        rw [← hsplit] at hspells
        have hpart := content_part hspells hmissing
        rw [List.length_take_of_le (Nat.le_of_lt hlt)] at hpart
        refine ⟨0, Nat.zero_le _, fun n _ => ?_, ?_⟩
        · cases n with
          | zero => simp
          | succ n =>
              simp only [List.take_succ_cons, extent_cons]
              omega
        · rw [List.take_append_of_le_length (Nat.le_of_lt hlt), List.take_zero, extent_nil]
          simp only [eq_comm (a := 0)]
          exact hpart
      · rw [List.length_append] at hk
        obtain ⟨count, hcount, hends, htake⟩ := ih (k := k - w.length) (by omega) rfl
        refine ⟨count + 1, Nat.succ_le_succ hcount, fun n hn => ?_, ?_⟩
        · cases n with
          | zero => simp
          | succ n =>
              have := hends n (Nat.le_of_succ_le_succ hn)
              simp only [List.take_succ_cons, extent_cons]
              omega
        · have hcut : (w ++ after).take k = w ++ after.take (k - w.length) := by
            rw [List.take_append, List.take_of_length_le hge]
          have hboundary : extent (((r, w) :: entries).take (count + 1)) = k ↔
              extent (entries.take count) = k - w.length := by
            simp only [List.take_succ_cons, extent_cons]
            omega
          rw [hcut, List.take_succ_cons]
          rw [List.take_succ_cons] at hboundary
          simp only [hboundary]
          exact .record hspells htake

end Content

end Wire

end StateTrace
