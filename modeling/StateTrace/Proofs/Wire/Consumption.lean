import StateTrace.Proofs.Byte.Delivery
import StateTrace.Wire.Decode

/-!
# What decoders take

A decoder never looks ahead.  On any bytes it does one of two things.  Either some
first part of the bytes settles its answer, and it takes just this part, whatever
comes after it (`Takes`).  Or it takes all of them and reads on, and then it ends as
the source does: at an error, at a read without bytes, or at the end (`Wants`).
`Sequential` says that there is no third case.

A sequence of sequential decoders is sequential (`Sequential.bind`), so the header and
everything in a record is.  The start of a record differs in one point from the other
fields: a read without bytes is the end of the trace there and not a truncated trace
(`record?_takes_or_runsOut`).
-/

namespace StateTrace.Decoder

variable {α β : Type}

/-- The error of a field that gathering could not fill. -/
def shortage : Source.Outcome → ReadError
  | .failed error => .ofStream error
  | _ => .truncated

/-- The decoder takes just the bytes `used`, whatever follows them, and answers. -/
def Takes (d : Decoder α) (used : List UInt8) (answer : Except ReadError α) : Prop :=
  ∀ (input : Input) (left : List UInt8) (tail : List Answer),
    input.source.Starts (used ++ left) tail →
      (d input).1 = answer ∧ (d input).2.source.Starts left tail

/-- The decoder takes all of the bytes, reads on, and fails as the source stops. -/
def Wants (d : Decoder α) (bytes : List UInt8) : Prop :=
  ∀ (input : Input) (tail after : List Answer) (outcome : Source.Outcome),
    input.source.Starts bytes tail → Source.Stops tail outcome after →
      (d input).1 = .error (shortage outcome) ∧ (d input).2.source = ⟨after⟩

/-- Some first part of the bytes is taken and settles the answer, or all of them are
taken and are not enough. -/
def Sequential (d : Decoder α) : Prop :=
  ∀ bytes, (∃ used left answer, bytes = used ++ left ∧ Takes d used answer) ∨ Wants d bytes

/-! ## Single decoders -/

theorem takes_pure (a : α) : Takes (pure a) [] (.ok a) :=
  fun _ _ _ h => ⟨rfl, h⟩

theorem takes_throw (error : ReadError) : Takes (throw error : Decoder α) [] (.error error) :=
  fun _ _ _ h => ⟨rfl, h⟩

/-- What was taken before is decoded without the source. -/
theorem takes_within (bytes : List UInt8) (d : Decoder α) :
    Takes (within bytes d) [] (d ⟨.ofBytes bytes, []⟩).1 :=
  fun _ _ _ h => ⟨rfl, h⟩

theorem takes_exactly (bytes : List UInt8) : Takes (exactly bytes.length) bytes (.ok bytes) := by
  intro input left tail h
  obtain ⟨rest, hgather, hrest⟩ := Source.gather_of_starts h (n := bytes.length) (by simp)
  rw [List.drop_left] at hrest
  simp [exactly, hgather, hrest]

theorem wants_exactly {bytes : List UInt8} {n : Nat} (hlt : bytes.length < n) :
    Wants (exactly n) bytes := by
  intro input tail after outcome h hstops
  have hgather := Source.gather_of_stops h hstops hlt
  cases hstops <;> simp [exactly, hgather, shortage]

/-- What was read is what the source has no longer. -/
theorem pending_of_exactly {n : Nat} {input rest : Input} {bytes : List UInt8}
    (h : exactly n input = (.ok bytes, rest)) :
    bytes.length = n ∧ input.source.pending = bytes ++ rest.source.pending := by
  simp only [exactly] at h
  split at h
  · next hfilled =>
      cases h
      exact ⟨input.source.length_bytes_gather n hfilled, input.source.pending_gather n⟩
  · cases h
  · cases h

theorem takes_refill (bytes : List UInt8) : Takes (refill bytes.length) bytes (.ok bytes) := by
  intro input left tail h
  obtain ⟨rest, hgather, hrest⟩ := Source.gather_of_starts h (n := bytes.length) (by simp)
  rw [List.drop_left] at hrest
  simp [refill, hgather, hrest]

theorem wants_refill {bytes : List UInt8} {n : Nat} (hlt : bytes.length < n) :
    Wants (refill n) bytes := by
  intro input tail after outcome h hstops
  have hgather := Source.gather_of_stops h hstops hlt
  cases hstops <;> simp [refill, hgather, shortage]

/-! ## Sequences -/

/-- After a success the rest of the sequence takes its part. -/
theorem Takes.bind {d : Decoder α} {f : α → Decoder β} {used more : List UInt8} {a : α}
    {answer : Except ReadError β} (hd : Takes d used (.ok a)) (hf : Takes (f a) more answer) :
    Takes (d >>= f) (used ++ more) answer := by
  intro input left tail h
  rw [List.append_assoc] at h
  obtain ⟨ha, hrest⟩ := hd input (more ++ left) tail h
  have hstep : d input = (.ok a, (d input).2) := Prod.ext ha rfl
  rw [bind_ok hstep]
  exact hf _ left tail hrest

theorem Takes.bind_error {d : Decoder α} {f : α → Decoder β} {used : List UInt8}
    {error : ReadError} (hd : Takes d used (.error error)) :
    Takes (d >>= f) used (.error error) := by
  intro input left tail h
  obtain ⟨herror, hrest⟩ := hd input left tail h
  have hstep : d input = (.error error, (d input).2) := Prod.ext herror rfl
  rw [Decoder.bind_error hstep]
  exact ⟨rfl, hrest⟩

/-- The second decoder wants more than the first one left. -/
theorem Takes.bind_wants {d : Decoder α} {f : α → Decoder β} {used bytes : List UInt8} {a : α}
    (hd : Takes d used (.ok a)) (hf : Wants (f a) bytes) : Wants (d >>= f) (used ++ bytes) := by
  intro input tail after outcome h hstops
  obtain ⟨ha, hrest⟩ := hd input bytes tail h
  have hstep : d input = (.ok a, (d input).2) := Prod.ext ha rfl
  rw [bind_ok hstep]
  exact hf _ tail after outcome hrest hstops

/-- If the rest of the sequence takes nothing, the sequence takes what its first part does. -/
theorem Takes.exists_bind {d : Decoder α} {f : α → Decoder β} {used : List UInt8}
    {answer : Except ReadError α} (hd : Takes d used answer)
    (hf : ∀ a, ∃ more, Takes (f a) [] more) : ∃ more, Takes (d >>= f) used more := by
  cases answer with
  | error error => exact ⟨.error error, hd.bind_error⟩
  | ok a =>
      obtain ⟨more, hmore⟩ := hf a
      have hboth := hd.bind hmore
      rw [List.append_nil] at hboth
      exact ⟨more, hboth⟩

theorem Wants.bind {d : Decoder α} {f : α → Decoder β} {bytes : List UInt8} (hd : Wants d bytes) :
    Wants (d >>= f) bytes := by
  intro input tail after outcome h hstops
  obtain ⟨herror, hrest⟩ := hd input tail after outcome h hstops
  have hstep : d input = (.error (shortage outcome), (d input).2) := Prod.ext herror rfl
  rw [Decoder.bind_error hstep]
  exact ⟨rfl, hrest⟩

theorem Takes.sequential {d : Decoder α} {answer : Except ReadError α} (h : Takes d [] answer) :
    Sequential d :=
  fun bytes => .inl ⟨[], bytes, answer, rfl, h⟩

theorem sequential_pure (a : α) : Sequential (pure a : Decoder α) := (takes_pure a).sequential

/-- A sequence is sequential if its parts are. -/
theorem Sequential.bind {d : Decoder α} {f : α → Decoder β} (hd : Sequential d)
    (hf : ∀ a, Sequential (f a)) : Sequential (d >>= f) := by
  intro bytes
  rcases hd bytes with ⟨used, left, answer, rfl, htakes⟩ | hwants
  · cases answer with
    | error error => exact .inl ⟨used, left, .error error, rfl, htakes.bind_error⟩
    | ok a =>
        rcases hf a left with ⟨more, left, answer, rfl, hmore⟩ | hwants
        · exact .inl ⟨used ++ more, left, answer, (List.append_assoc _ _ _).symm,
            htakes.bind hmore⟩
        · exact .inr (htakes.bind_wants hwants)
  · exact .inr hwants.bind

/-- A decoder that asks for a number of bytes, and for nothing else. -/
theorem sequential_of_length {d : Decoder α} {n : Nat} (answer : List UInt8 → Except ReadError α)
    (htakes : ∀ bytes : List UInt8, bytes.length = n → Takes d bytes (answer bytes))
    (hwants : ∀ bytes : List UInt8, bytes.length < n → Wants d bytes) : Sequential d := by
  intro bytes
  rcases Nat.lt_or_ge bytes.length n with hlt | hge
  · exact .inr (hwants bytes hlt)
  · exact .inl ⟨bytes.take n, bytes.drop n, _, (List.take_append_drop n bytes).symm,
      htakes _ (List.length_take_of_le hge)⟩

theorem sequential_exactly (n : Nat) : Sequential (exactly n) := by
  refine sequential_of_length .ok (fun bytes hlength => ?_) fun bytes => wants_exactly
  rw [← hlength]
  exact takes_exactly bytes

theorem sequential_refill (n : Nat) : Sequential (refill n) := by
  refine sequential_of_length .ok (fun bytes hlength => ?_) fun bytes => wants_refill
  rw [← hlength]
  exact takes_refill bytes

theorem exists_takes_require (condition : Bool) (error : ReadError) :
    ∃ answer, Takes (require condition error) [] answer := by
  cases condition with
  | false => exact ⟨_, takes_throw error⟩
  | true => exact ⟨_, takes_pure ()⟩

theorem sequential_require (condition : Bool) (error : ReadError) :
    Sequential (require condition error) := by
  obtain ⟨answer, htakes⟩ := exists_takes_require condition error
  exact htakes.sequential

/-! ## The parts of a trace -/

theorem sequential_skip (n : Nat) : Sequential (skip n) :=
  (sequential_exactly n).bind fun _ => sequential_pure ()

theorem sequential_uint16 : Sequential uint16 :=
  (sequential_exactly 2).bind fun _ => sequential_pure _

theorem takes_uint16 (n : UInt16) : Takes uint16 (BigEndian.ofUInt16 n) (.ok n) := by
  have hbytes := takes_exactly (BigEndian.ofUInt16 n)
  rw [BigEndian.length_ofUInt16] at hbytes
  have hnumber : Takes uint16 (BigEndian.ofUInt16 n ++ [])
      (.ok (BigEndian.toUInt16 (BigEndian.ofUInt16 n))) := hbytes.bind (takes_pure _)
  rwa [BigEndian.toUInt16_ofUInt16, List.append_nil] at hnumber

theorem pending_of_uint16 {n : UInt16} {input rest : Input} (h : uint16 input = (.ok n, rest)) :
    input.source.pending = BigEndian.ofUInt16 n ++ rest.source.pending := by
  rw [uint16, bind_apply] at h
  split at h
  · next bytes middle hbytes =>
      cases h
      obtain ⟨hlength, hpending⟩ := pending_of_exactly hbytes
      rw [BigEndian.ofUInt16_toUInt16 hlength, hpending]
  · cases h

theorem sequential_uint32 : Sequential uint32 :=
  (sequential_exactly 4).bind fun _ => sequential_pure _

theorem sequential_uint64 : Sequential uint64 :=
  (sequential_exactly 8).bind fun _ => sequential_pure _

theorem sequential_double : Sequential double :=
  (sequential_exactly 8).bind fun _ => sequential_pure _

theorem sequential_nodeTime : Sequential nodeTime :=
  sequential_uint64.bind fun _ => sequential_double.bind fun _ => sequential_pure _

theorem sequential_header : Sequential header :=
  (sequential_exactly _).bind fun _ => (sequential_require _ _).bind fun _ =>
    (sequential_require _ _).bind fun _ => sequential_pure _

/-- A header takes its bytes, be it right or wrong. -/
theorem exists_takes_header {bytes : List UInt8} (hlength : bytes.length = Wire.headerLength) :
    ∃ answer, Takes header bytes answer := by
  have hexactly := takes_exactly bytes
  rw [hlength] at hexactly
  refine hexactly.exists_bind fun bytes => ?_
  obtain ⟨_, hmagic⟩ := exists_takes_require (bytes.take 4 = Wire.magic) (.badMagic (bytes.take 4))
  refine hmagic.exists_bind fun _ => ?_
  obtain ⟨_, hmajor⟩ := exists_takes_require
    (BigEndian.toUInt32 ((bytes.drop 4).take 4) = Wire.majorVersion)
    (.majorMismatch (BigEndian.toUInt32 ((bytes.drop 4).take 4)) Wire.majorVersion)
  exact hmajor.exists_bind fun _ => ⟨_, takes_pure _⟩

theorem sequential_simulationPart (flags : ScopeFlags) (scope : Scope) :
    Sequential (simulationPart flags scope) := by
  unfold simulationPart
  split
  · exact sequential_double.bind fun _ => sequential_pure _
  · exact sequential_pure _

theorem sequential_nodePart (flags : ScopeFlags) (scope : Scope) :
    Sequential (nodePart flags scope) := by
  unfold nodePart
  split
  · exact sequential_uint16.bind fun _ => sequential_nodeTime.bind fun _ => sequential_pure _
  · exact sequential_pure _

theorem sequential_foreignPart : Sequential foreignPart :=
  sequential_uint16.bind fun _ => (sequential_skip _).bind fun _ => sequential_pure _

theorem sequential_foreignParts (foreign : ScopeFlags) (scope : Scope) :
    Sequential (foreignParts foreign scope) := by
  induction foreign, scope using foreignParts_induct with
  | done foreign scope hzero =>
      rw [foreignParts_done hzero]
      exact sequential_pure _
  | passed foreign scope hne ih =>
      rw [foreignParts_passed hne]
      exact sequential_foreignPart.bind fun _ => ih

theorem sequential_scope (flags : ScopeFlags) : Sequential (scope flags) :=
  (sequential_simulationPart flags _).bind fun _ => (sequential_nodePart flags _).bind fun _ =>
    sequential_foreignParts _ _

theorem sequential_eventBody (raw : UInt16) (length : Nat) : Sequential (eventBody raw length) := by
  refine (sequential_require _ _).bind fun _ => (sequential_require _ _).bind fun _ => ?_
  split
  · exact (sequential_require _ _).bind fun _ => (sequential_refill _).bind fun bytes =>
      (takes_within bytes _).sequential
  · exact (sequential_skip _).bind fun _ => sequential_pure _

theorem sequential_event : Sequential event :=
  sequential_uint16.bind fun raw => sequential_uint32.bind fun length =>
    sequential_eventBody raw length.toNat

theorem sequential_recordBody (flags : ScopeFlags) : Sequential (recordBody flags) :=
  (sequential_scope flags).bind fun _ => sequential_event.bind fun _ => sequential_pure _

/-! ## Records -/

/-- The answer of a record that the source did not fill: the trace has ended if there
was no byte of it and no error. -/
def stopped (bytes : List UInt8) : Source.Outcome → Except ReadError (Option Record)
  | .failed error => .error (.ofStream error)
  | _ => if bytes = [] then .ok none else .error .truncated

theorem stopped_of_ne_nil {bytes : List UInt8} (h : bytes ≠ []) (outcome : Source.Outcome) :
    stopped bytes outcome = .error (shortage outcome) := by
  cases outcome <;> simp [stopped, shortage, h]

theorem takes_recordStart {bytes : List UInt8} (hlength : bytes.length = 4) :
    Takes recordStart bytes (.ok (some ⟨BigEndian.toUInt32 bytes⟩)) := by
  intro input left tail h
  obtain ⟨rest, hgather, hrest⟩ := Source.gather_of_starts h (n := 4) (by simp [hlength])
  rw [List.drop_left' hlength] at hrest
  rw [List.take_left' hlength] at hgather
  simp [recordStart, hgather, hrest]

/-- All of the bytes are taken and are not enough for a record or a refusal. -/
def RunsOut (bytes : List UInt8) : Prop :=
  ∀ (input : Input) (tail after : List Answer) (outcome : Source.Outcome),
    input.source.Starts bytes tail → Source.Stops tail outcome after →
      (record? input).1 = stopped bytes outcome ∧ (record? input).2.source = ⟨after⟩

/-- Fewer bytes than a mask has. -/
theorem runsOut_of_short {bytes : List UInt8} (hlt : bytes.length < 4) : RunsOut bytes := by
  intro input tail after outcome h hstops
  have hgather := Source.gather_of_stops h hstops hlt
  by_cases hnil : bytes = []
  · subst hnil
    cases hstops with
    | ended =>
        simp only [record?, bind_apply, recordStart, hgather]
        exact ⟨rfl, rfl⟩
    | nothing tail =>
        simp only [record?, bind_apply, recordStart, hgather]
        exact ⟨rfl, rfl⟩
    | failed tail hkind => simp [record?, bind_apply, recordStart, hgather, stopped]
  · cases hstops <;> simp [record?, bind_apply, recordStart, hgather, stopped, hnil]

/-- A first part of the bytes is a record or is refused, whatever follows it, or the bytes
run out. -/
theorem record?_takes_or_runsOut (bytes : List UInt8) :
    (∃ used left answer, bytes = used ++ left ∧ Takes record? used answer) ∨ RunsOut bytes := by
  rcases Nat.lt_or_ge bytes.length 4 with hlt | hge
  · exact .inr (runsOut_of_short hlt)
  · have hmask : Takes recordStart (bytes.take 4) (.ok (some _)) :=
      takes_recordStart (List.length_take_of_le hge)
    have hrest := (sequential_recordBody ⟨BigEndian.toUInt32 (bytes.take 4)⟩).bind fun r =>
      sequential_pure (some r)
    have hsplit := List.take_append_drop 4 bytes
    rcases hrest (bytes.drop 4) with ⟨used, left, answer, hdrop, htakes⟩ | hwants
    · refine .inl ⟨bytes.take 4 ++ used, left, answer, ?_, hmask.bind htakes⟩
      rw [List.append_assoc, ← hdrop, hsplit]
    · have hrecord : Wants record? bytes := by
        rw [← hsplit]
        exact hmask.bind_wants hwants
      have hne : bytes ≠ [] := List.ne_nil_of_length_pos (by omega)
      refine .inr fun input tail after outcome h hstops => ?_
      rw [stopped_of_ne_nil hne]
      exact hrecord input tail after outcome h hstops

end StateTrace.Decoder
