import StateTrace.Proofs.Wire.Consumption

/-!
# Answers of decoders

What a decoder answers on a source without faults depends on the bytes alone.
`Gives d bytes answer after` says that it is `answer` whenever the source delivers
`bytes`, and that the source then delivers `after`.  The buffer is left open, so a
statement of this form holds whatever the last payload left there.

The rules follow the decoders: one for each primitive, two for a sequence
(`Gives.bind` and `Gives.bind_error`).  No decoder gives two answers on the same
bytes (`Gives.unique`).

`Reads d Spells` says that `d` reads a language.  It accepts the spellings of each
value, whatever follows, and finds every unfinished spelling too short.  No byte
list is anything else.  Fields of a fixed layout are languages of this kind, and so
are sequences of them (`Reads.bind`).
-/

namespace StateTrace.Decoder

variable {α β : Type}

/-! ## Answers -/

/-- On every source that delivers `bytes` the answer is `answer`, and the source
left delivers `after`. -/
def Gives (d : Decoder α) (bytes : List UInt8) (answer : Except ReadError α)
    (after : List UInt8) : Prop :=
  ∀ input : Input, input.source.Delivers bytes →
    (d input).1 = answer ∧ (d input).2.source.Delivers after

/-- A decoder gives one answer on a byte list and leaves one byte list. -/
theorem Gives.unique {d : Decoder α} {bytes after after' : List UInt8}
    {answer answer' : Except ReadError α} (h : Gives d bytes answer after)
    (h' : Gives d bytes answer' after') : answer = answer' ∧ after = after' := by
  obtain ⟨hanswer, hafter⟩ := h ⟨.ofBytes bytes, []⟩ (Source.delivers_ofBytes bytes)
  obtain ⟨hanswer', hafter'⟩ := h' ⟨.ofBytes bytes, []⟩ (Source.delivers_ofBytes bytes)
  exact ⟨hanswer.symm.trans hanswer', hafter.unique hafter'⟩

theorem gives_pure (a : α) (bytes : List UInt8) :
    Gives (pure a) bytes (.ok a) bytes :=
  fun _ h => ⟨rfl, h⟩

theorem gives_throw (error : ReadError) (bytes : List UInt8) :
    Gives (throw error : Decoder α) bytes (.error error) bytes :=
  fun _ h => ⟨rfl, h⟩

/-- After a success the rest of the sequence answers. -/
theorem Gives.bind {d : Decoder α} {f : α → Decoder β} {bytes middle after : List UInt8} {a : α}
    {answer : Except ReadError β} (hd : Gives d bytes (.ok a) middle)
    (hf : Gives (f a) middle answer after) : Gives (d >>= f) bytes answer after := by
  intro input h
  obtain ⟨ha, hmiddle⟩ := hd input h
  have hstep : d input = (.ok a, (d input).2) := Prod.ext ha rfl
  rw [bind_ok hstep]
  exact hf _ hmiddle

/-- A failure is the answer of the whole sequence. -/
theorem Gives.bind_error {d : Decoder α} {f : α → Decoder β} {bytes after : List UInt8}
    {error : ReadError} (hd : Gives d bytes (.error error) after) :
    Gives (d >>= f) bytes (.error error) after := by
  intro input h
  obtain ⟨herror, hafter⟩ := hd input h
  have hstep : d input = (.error error, (d input).2) := Prod.ext herror rfl
  rw [Decoder.bind_error hstep]
  exact ⟨rfl, hafter⟩

/-- A result computed from what was read. -/
theorem Gives.map {d : Decoder α} {f : α → β} {bytes after : List UInt8}
    {answer : Except ReadError α} (hd : Gives d bytes answer after) :
    Gives (d >>= fun a => pure (f a)) bytes (answer.map f) after := by
  cases answer with
  | ok a => exact hd.bind (gives_pure _ _)
  | error error => exact hd.bind_error

theorem gives_require {condition : Bool} (h : condition = true) (error : ReadError)
    (bytes : List UInt8) : Gives (require condition error) bytes (.ok ()) bytes := by
  subst h
  exact gives_pure () bytes

theorem gives_require_error {condition : Bool} (h : condition = false) (error : ReadError)
    (bytes : List UInt8) : Gives (require condition error) bytes (.error error) bytes := by
  subst h
  exact gives_throw error bytes

/-- What a decoder takes whatever follows, it takes where bytes follow. -/
theorem Takes.gives {d : Decoder α} {used : List UInt8} {answer : Except ReadError α}
    (h : Takes d used answer) (after : List UInt8) : Gives d (used ++ after) answer after := by
  intro input hdelivers
  obtain ⟨hanswer, hafter⟩ := h input after [] hdelivers.starts
  exact ⟨hanswer, hafter.delivers⟩

/-- A decoder that wants more finds the end. -/
theorem Wants.gives {d : Decoder α} {bytes : List UInt8} (h : Wants d bytes) :
    Gives d bytes (.error .truncated) [] := by
  intro input hdelivers
  obtain ⟨hanswer, hafter⟩ := h input [] [] .drained hdelivers.starts .ended
  refine ⟨hanswer, ?_⟩
  rw [hafter]
  exact .done

theorem RunsOut.gives {bytes : List UInt8} (h : RunsOut bytes) :
    Gives record? bytes (stopped bytes .drained) [] := by
  intro input hdelivers
  obtain ⟨hanswer, hafter⟩ := h input [] [] .drained hdelivers.starts .ended
  refine ⟨hanswer, ?_⟩
  rw [hafter]
  exact .done

/-- On every byte list a sequential decoder has an answer. -/
theorem Sequential.exists_gives {d : Decoder α} (hd : Sequential d) (bytes : List UInt8) :
    ∃ answer after, Gives d bytes answer after := by
  rcases hd bytes with ⟨used, left, answer, rfl, htakes⟩ | hwants
  · exact ⟨answer, left, htakes.gives left⟩
  · exact ⟨_, _, hwants.gives⟩

/-- The next bytes are the first ones that the source delivers. -/
theorem gives_exactly (bytes after : List UInt8) :
    Gives (exactly bytes.length) (bytes ++ after) (.ok bytes) after :=
  (takes_exactly bytes).gives after

/-- Too few bytes are all taken before the end is seen. -/
theorem gives_exactly_short {bytes : List UInt8} {n : Nat} (hlt : bytes.length < n) :
    Gives (exactly n) bytes (.error .truncated) [] :=
  (wants_exactly hlt).gives

/-- A buffer that is filled holds the first bytes that the source delivers and
nothing of what it held before. -/
theorem gives_refill (bytes after : List UInt8) :
    Gives (refill bytes.length) (bytes ++ after) (.ok bytes) after :=
  (takes_refill bytes).gives after

theorem gives_refill_short {bytes : List UInt8} {n : Nat} (hlt : bytes.length < n) :
    Gives (refill n) bytes (.error .truncated) [] :=
  (wants_refill hlt).gives

theorem gives_recordStart (mask : UInt32) (after : List UInt8) :
    Gives recordStart (BigEndian.ofUInt32 mask ++ after) (.ok (some ⟨mask⟩)) after := by
  have h := (takes_recordStart (BigEndian.length_ofUInt32 mask)).gives after
  rwa [BigEndian.toUInt32_ofUInt32] at h

/-- What a decoder answers within bytes already taken, the source left alone. -/
theorem Gives.within {d : Decoder α} {payload rest : List UInt8} {answer : Except ReadError α}
    (hd : Gives d payload answer rest) (bytes : List UInt8) :
    Gives (within payload d) bytes answer bytes := by
  intro input h
  exact ⟨(hd ⟨.ofBytes payload, []⟩ (Source.delivers_ofBytes payload)).1, h⟩

/-! ## Languages -/

/-- The beginning of a spelling that lacks something at its end. -/
def Unfinished (Spells : α → List UInt8 → Prop) (bytes : List UInt8) : Prop :=
  ∃ a missing, missing ≠ [] ∧ Spells a (bytes ++ missing)

/-- A decoder that accepts the spellings of each value, whatever follows, and that
finds every other byte list too short. -/
structure Reads (d : Decoder α) (Spells : α → List UInt8 → Prop) : Prop where
  accepts : ∀ {a : α} {w : List UInt8}, Spells a w → ∀ after, Gives d (w ++ after) (.ok a) after
  truncates : ∀ {bytes}, Unfinished Spells bytes → Gives d bytes (.error .truncated) []
  covers : ∀ bytes, (∃ a w after, Spells a w ∧ bytes = w ++ after) ∨ Unfinished Spells bytes

/-- A spelling with nothing after it is read to its end. -/
theorem Reads.accepts_all {d : Decoder α} {S : α → List UInt8 → Prop} (hd : Reads d S) {a : α}
    {w : List UInt8} (hs : S a w) : Gives d w (.ok a) [] := by
  have h := hd.accepts hs []
  rwa [List.append_nil] at h

/-- Some value has a spelling, for even the empty byte list is the beginning of one. -/
theorem Reads.exists_spelling {d : Decoder α} {S : α → List UInt8 → Prop} (hd : Reads d S) :
    ∃ a w, S a w := by
  rcases hd.covers [] with ⟨a, w, _, hs, _⟩ | ⟨a, missing, _, hs⟩
  · exact ⟨a, w, hs⟩
  · exact ⟨a, missing, hs⟩

/-- If all spellings have one length, every byte list of that length is one. -/
theorem Reads.spells_of_length {d : Decoder α} {S : α → List UInt8 → Prop} (hd : Reads d S)
    {n : Nat} (hlength : ∀ a w, S a w → w.length = n) {bytes : List UInt8}
    (h : bytes.length = n) : ∃ a, S a bytes := by
  rcases hd.covers bytes with ⟨a, w, after, hs, rfl⟩ | ⟨a, missing, hne, hs⟩
  · have hw := hlength a w hs
    have hafter : after = [] := by
      rw [List.length_append] at h
      exact List.length_eq_zero_iff.mp (by omega)
    rw [hafter, List.append_nil]
    exact ⟨a, hs⟩
  · have hw := hlength a _ hs
    have hpos := List.length_pos_iff.mpr hne
    rw [List.length_append] at hw
    omega

theorem Reads.congr {d : Decoder α} {S T : α → List UInt8 → Prop} (hd : Reads d S)
    (h : ∀ a w, T a w ↔ S a w) : Reads d T where
  accepts ht after := hd.accepts ((h _ _).mp ht) after
  truncates := by
    rintro bytes ⟨a, missing, hne, ht⟩
    exact hd.truncates ⟨a, missing, hne, (h _ _).mp ht⟩
  covers bytes := by
    rcases hd.covers bytes with ⟨a, w, after, hs, hbytes⟩ | ⟨a, missing, hne, hs⟩
    · exact .inl ⟨a, w, after, (h a w).mpr hs, hbytes⟩
    · exact .inr ⟨a, missing, hne, (h a _).mpr hs⟩

theorem reads_pure (a : α) : Reads (pure a : Decoder α) fun b w => b = a ∧ w = [] where
  accepts := by
    rintro _ _ ⟨rfl, rfl⟩ after
    exact gives_pure _ after
  truncates := by
    rintro bytes ⟨_, missing, hne, _, hnil⟩
    exact absurd (List.append_eq_nil_iff.mp hnil).2 hne
  covers bytes := .inl ⟨a, [], bytes, ⟨rfl, rfl⟩, rfl⟩

/-- A sequence reads the spelling of its first part and then the one of its second,
which may depend on the first. -/
theorem Reads.bind {d : Decoder α} {f : α → Decoder β} {S : α → List UInt8 → Prop}
    {T : α → β → List UInt8 → Prop} (hd : Reads d S) (hf : ∀ a, Reads (f a) (T a)) :
    Reads (d >>= f) fun b w => ∃ a u v, S a u ∧ T a b v ∧ w = u ++ v where
  accepts := by
    rintro b w ⟨a, u, v, hs, ht, rfl⟩ after
    rw [List.append_assoc]
    exact (hd.accepts hs (v ++ after)).bind ((hf a).accepts ht after)
  truncates := by
    rintro bytes ⟨b, missing, hne, a, u, v, hs, ht, hsplit⟩
    -- The end of the bytes is in the second part, at its start, or in the first part.
    rcases List.append_eq_append_iff.mp hsplit with ⟨lacking, rfl, rfl⟩ | ⟨begun, rfl, rfl⟩
    · cases lacking with
      | nil =>
          rw [List.append_nil] at hs
          exact (hd.accepts_all hs).bind ((hf a).truncates ⟨b, v, hne, ht⟩)
      | cons c lacking =>
          exact (hd.truncates ⟨a, c :: lacking, List.cons_ne_nil c lacking, hs⟩).bind_error
    · exact (hd.accepts hs begun).bind ((hf a).truncates ⟨b, missing, hne, ht⟩)
  covers bytes := by
    rcases hd.covers bytes with ⟨a, u, middle, hs, rfl⟩ | ⟨a, missing, hne, hs⟩
    · rcases (hf a).covers middle with ⟨b, v, after, ht, rfl⟩ | ⟨b, missing, hne, ht⟩
      · exact .inl ⟨b, u ++ v, after, ⟨a, u, v, hs, ht, rfl⟩, (List.append_assoc u v after).symm⟩
      · exact .inr ⟨b, missing, hne, a, u, middle ++ missing, hs, ht, List.append_assoc _ _ _⟩
    · obtain ⟨b, v, ht⟩ := (hf a).exists_spelling
      refine .inr ⟨b, missing ++ v, ?_, a, bytes ++ missing, v, hs, ht, ?_⟩
      · exact fun hnil => hne (List.append_eq_nil_iff.mp hnil).1
      · exact (List.append_assoc bytes missing v).symm

/-- Just the byte lists of one length. -/
theorem reads_exactly (n : Nat) : Reads (exactly n) fun bytes w => bytes = w ∧ w.length = n where
  accepts := by
    rintro _ w ⟨rfl, rfl⟩ after
    exact gives_exactly _ after
  truncates := by
    rintro bytes ⟨_, missing, hne, _, hlength⟩
    have hpos := List.length_pos_iff.mpr hne
    rw [List.length_append] at hlength
    exact gives_exactly_short (by omega)
  covers bytes := by
    rcases Nat.lt_or_ge bytes.length n with hlt | hge
    · refine .inr ⟨_, List.replicate (n - bytes.length) 0, ?_, rfl, ?_⟩
      · rw [ne_eq, List.replicate_eq_nil_iff]
        omega
      · rw [List.length_append, List.length_replicate]
        omega
    · exact .inl ⟨bytes.take n, bytes.take n, bytes.drop n,
        ⟨rfl, List.length_take_of_le hge⟩, (List.take_append_drop n bytes).symm⟩

/-- A field of a fixed length whose bytes and values are in bijection. -/
theorem reads_field {n : Nat} {ofBytes : List UInt8 → α} {toBytes : α → List UInt8}
    (hlength : ∀ a, (toBytes a).length = n) (hleft : ∀ a, ofBytes (toBytes a) = a)
    (hright : ∀ w : List UInt8, w.length = n → toBytes (ofBytes w) = w) :
    Reads (exactly n >>= fun w => pure (ofBytes w)) fun a w => w = toBytes a := by
  refine ((reads_exactly n).bind fun w => reads_pure (ofBytes w)).congr fun a w => ?_
  constructor
  · rintro rfl
    exact ⟨toBytes a, toBytes a, [], ⟨rfl, hlength a⟩, ⟨(hleft a).symm, rfl⟩,
      (List.append_nil _).symm⟩
  · rintro ⟨_, u, _, ⟨rfl, hn⟩, ⟨rfl, rfl⟩, rfl⟩
    rw [List.append_nil, hright _ hn]

theorem reads_uint16 : Reads uint16 fun n w => w = BigEndian.ofUInt16 n :=
  reads_field BigEndian.length_ofUInt16 BigEndian.toUInt16_ofUInt16
    fun _ => BigEndian.ofUInt16_toUInt16

theorem reads_uint32 : Reads uint32 fun n w => w = BigEndian.ofUInt32 n :=
  reads_field BigEndian.length_ofUInt32 BigEndian.toUInt32_ofUInt32
    fun _ => BigEndian.ofUInt32_toUInt32

theorem reads_uint64 : Reads uint64 fun n w => w = BigEndian.ofUInt64 n :=
  reads_field BigEndian.length_ofUInt64 BigEndian.toUInt64_ofUInt64
    fun _ => BigEndian.ofUInt64_toUInt64

theorem reads_double : Reads double fun x w => w = x.toBytes :=
  reads_field Double.length_toBytes Double.ofBytes_toBytes fun _ => Double.toBytes_ofBytes

/-! ## Several fields -/

section Fields
variable {γ δ : Type} {d₁ : Decoder α} {d₂ : Decoder β} {d₃ : Decoder γ}
variable {A : α → List UInt8} {B : β → List UInt8} {C : γ → List UInt8}

/-- One field makes a value. -/
theorem Reads.one (h₁ : Reads d₁ fun a w => w = A a) (f : α → δ) :
    Reads (do return f (← d₁)) fun x w => ∃ a, x = f a ∧ w = A a := by
  refine (h₁.bind fun a => reads_pure (f a)).congr fun x w => ?_
  constructor
  · rintro ⟨a, rfl, rfl⟩
    exact ⟨a, _, [], rfl, ⟨rfl, rfl⟩, (List.append_nil _).symm⟩
  · rintro ⟨a, _, _, rfl, ⟨rfl, rfl⟩, rfl⟩
    exact ⟨a, rfl, List.append_nil _⟩

/-- Two fields make a value. -/
theorem Reads.two (h₁ : Reads d₁ fun a w => w = A a) (h₂ : Reads d₂ fun b w => w = B b)
    (f : α → β → δ) :
    Reads (do
        let a ← d₁
        return f a (← d₂))
      fun x w => ∃ a b, x = f a b ∧ w = A a ++ B b := by
  refine (h₁.bind fun a => h₂.one (f a)).congr fun x w => ?_
  constructor
  · rintro ⟨a, b, rfl, rfl⟩
    exact ⟨a, _, _, rfl, ⟨b, rfl, rfl⟩, rfl⟩
  · rintro ⟨a, _, _, rfl, ⟨b, rfl, rfl⟩, rfl⟩
    exact ⟨a, b, rfl, rfl⟩

/-- Three fields make a value. -/
theorem Reads.three (h₁ : Reads d₁ fun a w => w = A a) (h₂ : Reads d₂ fun b w => w = B b)
    (h₃ : Reads d₃ fun c w => w = C c) (f : α → β → γ → δ) :
    Reads (do
        let a ← d₁
        let b ← d₂
        return f a b (← d₃))
      fun x w => ∃ a b c, x = f a b c ∧ w = A a ++ B b ++ C c := by
  refine (h₁.bind fun a => h₂.two h₃ (f a)).congr fun x w => ?_
  constructor
  · rintro ⟨a, b, c, rfl, rfl⟩
    exact ⟨a, _, _, rfl, ⟨b, c, rfl, rfl⟩, List.append_assoc _ _ _⟩
  · rintro ⟨a, _, _, rfl, ⟨b, c, rfl, rfl⟩, rfl⟩
    exact ⟨a, b, c, rfl, (List.append_assoc _ _ _).symm⟩

/-- Every byte list of the right length is three fields. -/
theorem Reads.exists_three (h₁ : Reads d₁ fun a w => w = A a) (h₂ : Reads d₂ fun b w => w = B b)
    (h₃ : Reads d₃ fun c w => w = C c) {n : Nat}
    (hlength : ∀ a b c, (A a ++ B b ++ C c).length = n) {bytes : List UInt8}
    (h : bytes.length = n) : ∃ a b c, bytes = A a ++ B b ++ C c := by
  have hreads := h₁.three h₂ h₃ fun a b c => (a, b, c)
  have hspelling : ∀ (x : α × β × γ) w, (∃ a b c, x = (a, b, c) ∧ w = A a ++ B b ++ C c) →
      w.length = n := by
    rintro _ _ ⟨a, b, c, -, rfl⟩
    exact hlength a b c
  obtain ⟨_, a, b, c, -, hbytes⟩ := hreads.spells_of_length hspelling h
  exact ⟨a, b, c, hbytes⟩

/-- Fields that are there or not.  Without them nothing is read and the value is the
one before. -/
theorem Reads.optional {d : Decoder δ} {f : α → δ}
    (hd : Reads d fun x w => ∃ a, x = f a ∧ w = A a) (present : Bool) (absent : δ) :
    Reads (if present then d else pure absent) fun x w => ∃ part : Option α,
      part.isSome = present ∧ x = part.elim absent f ∧ w = part.elim [] A := by
  cases present with
  | false =>
      refine (reads_pure absent).congr fun x w => ?_
      constructor
      · rintro ⟨part, hnone, rfl, rfl⟩
        rw [Option.isSome_eq_false_iff, Option.isNone_iff_eq_none] at hnone
        rw [hnone]
        exact ⟨rfl, rfl⟩
      · rintro ⟨rfl, rfl⟩
        exact ⟨none, rfl, rfl, rfl⟩
  | true =>
      refine hd.congr fun x w => ?_
      constructor
      · rintro ⟨part, hsome, rfl, rfl⟩
        obtain ⟨a, rfl⟩ := Option.isSome_iff_exists.mp hsome
        exact ⟨a, rfl, rfl⟩
      · rintro ⟨a, rfl, rfl⟩
        exact ⟨some a, rfl, rfl, rfl⟩

end Fields

theorem reads_nodeTime : Reads nodeTime fun t w => w = t.toBytes := by
  refine (reads_uint64.two reads_double NodeTime.mk).congr fun t w => ?_
  constructor
  · rintro rfl
    exact ⟨t.cycles, t.nodeMs, rfl, rfl⟩
  · rintro ⟨cycles, nodeMs, rfl, rfl⟩
    rfl

end StateTrace.Decoder
