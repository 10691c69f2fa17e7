import StateTrace.Byte.Sink

/-!
# What sinks take

A write leaves in the sink the part of the data that fits (`bytes_write`).  It succeeds
just if that part is all of the data (`write_eq_ok_iff`), and it fails with the error of
the full sink (`write_of_not_fits_all`).

Writing one list and then another leaves what one write of both leaves
(`write_append`).  So what a sink holds after many writes is the part that fits of all
their data together, and which writes failed plays no part in it.  A program that stops at
the first write that fails cannot be told from one that writes everything at once
(`write_bind_write`, and `forM_write` for a loop).

A `Script` is any program that uses a sink, and `Script.bytes_run` says that nothing of what the
sink took is ever taken back.
-/

namespace StateTrace.Sink

/-- The part of `data` that fits. -/
def fitting (sink : Sink) (data : List UInt8) : List UInt8 :=
  match sink.room with
  | none => data
  | some n => data.take n

variable {sink : Sink} {data : List UInt8}

theorem fits_of_room_none (h : sink.room = none) (data : List UInt8) : sink.Fits data := by
  intro n hn
  rw [h] at hn
  cases hn

theorem fits_iff {n : Nat} (h : sink.room = some n) : sink.Fits data ↔ data.length ≤ n := by
  constructor
  · intro hfits
    exact hfits n h
  · intro hle m hm
    rw [h] at hm
    cases hm
    exact hle

/-- What does not fit meets a limit. -/
theorem exists_room_lt (h : ¬sink.Fits data) : ∃ n, sink.room = some n ∧ n < data.length := by
  cases hroom : sink.room with
  | none => exact absurd (fits_of_room_none hroom data) h
  | some n =>
      rw [fits_iff hroom, Nat.not_le] at h
      exact ⟨n, rfl, h⟩

theorem fits_nil (sink : Sink) : sink.Fits [] :=
  fun _ _ => Nat.zero_le _

/-- What fits does so also without its end. -/
theorem Fits.left {more : List UInt8} (h : sink.Fits (data ++ more)) : sink.Fits data := by
  intro n hn
  have := h n hn
  rw [List.length_append] at this
  omega

theorem fitting_of_fits (h : sink.Fits data) : sink.fitting data = data := by
  cases hroom : sink.room with
  | none => simp [fitting, hroom]
  | some n => simp [fitting, hroom, List.take_of_length_le (h n hroom)]

/-- Nothing fits behind data that does not fit. -/
theorem fitting_append_of_not_fits (h : ¬sink.Fits data) (more : List UInt8) :
    sink.fitting (data ++ more) = sink.fitting data := by
  obtain ⟨n, hroom, hlt⟩ := exists_room_lt h
  simp [fitting, hroom, List.take_append_of_le_length (Nat.le_of_lt hlt)]

/-- Of data that does not fit the end is missing. -/
theorem exists_missing (h : ¬sink.Fits data) :
    ∃ missing, missing ≠ [] ∧ sink.fitting data ++ missing = data := by
  obtain ⟨n, hroom, hlt⟩ := exists_room_lt h
  refine ⟨data.drop n, ?_, ?_⟩
  · intro hnil
    rw [List.drop_eq_nil_iff] at hnil
    omega
  · simp [fitting, hroom]

/-! ## One write -/

/-- A write takes what fits, and there is so much less room. -/
theorem write_snd (data : List UInt8) (sink : Sink) :
    (write data sink).2 = { sink with
      written := sink.written ++ sink.fitting data
      room := sink.room.map (· - data.length) } := by
  obtain ⟨written, room, refusal, flushError⟩ := sink
  cases room with
  | none => rfl
  | some n =>
      simp only [write, fitting, Option.map_some]
      split
      · next hle => rw [List.take_of_length_le hle]
      · next hlt => rw [Nat.sub_eq_zero_of_le (Nat.le_of_not_le hlt)]

/-- A write leaves the part that fits. -/
theorem bytes_write (data : List UInt8) (sink : Sink) :
    (write data sink).2.bytes = sink.bytes ++ sink.fitting data := by
  rw [write_snd]
  simp [bytes]

/-- Behind data that fits, what fits is what the write leaves room for. -/
theorem fitting_append (h : sink.Fits data) (more : List UInt8) :
    sink.fitting (data ++ more) = data ++ (write data sink).2.fitting more := by
  rw [write_snd]
  cases hroom : sink.room with
  | none => simp [fitting, hroom]
  | some n => simp [fitting, hroom, List.take_append, List.take_of_length_le (h n hroom)]

theorem write_of_not_fits_all (h : ¬sink.Fits data) :
    (write data sink).1 = .error sink.refusal.error := by
  obtain ⟨n, hroom, hlt⟩ := exists_room_lt h
  exact (write_of_not_fits hroom hlt).1

theorem write_eq_ok_iff : (write data sink).1 = .ok () ↔ sink.Fits data := by
  by_cases h : sink.Fits data
  · simp [(write_of_fits h).1, h]
  · simp [write_of_not_fits_all h, h]

theorem write_of_roomy (h : sink.room = none) (data : List UInt8) :
    write data sink = (.ok (), { sink with written := sink.written ++ data }) := by
  rw [write, h]

theorem write_nil (sink : Sink) : write [] sink = (.ok (), sink) := by
  obtain ⟨written, room, refusal, flushError⟩ := sink
  cases room with
  | none => simp [write]
  | some n => simp [write]

/-! ## Two writes -/

/-- After a write there is room for what fits behind the data, and for nothing. -/
theorem fits_write (data more : List UInt8) (sink : Sink) :
    (write data sink).2.Fits more ↔ more = [] ∨ sink.Fits (data ++ more) := by
  rw [write_snd]
  cases hroom : sink.room with
  | none => exact iff_of_true (fits_of_room_none rfl more) (.inr (fits_of_room_none hroom _))
  | some n =>
      have hleft : (some n).map (· - data.length) = some (n - data.length) := rfl
      rw [fits_iff hroom, fits_iff hleft, List.length_append, ← List.length_eq_zero_iff]
      omega

/-- Nothing fits any more. -/
def Full (sink : Sink) : Prop := ∀ data, sink.Fits data → data = []

/-- A full sink is full for ever. -/
theorem Full.write (h : sink.Full) (data : List UInt8) : (write data sink).2.Full := by
  intro more hfits
  rcases (fits_write data more sink).mp hfits with hnil | hfits
  · exact hnil
  · exact (List.append_eq_nil_iff.mp (h _ hfits)).2

/-- Data that does not fit fills the sink. -/
theorem full_of_not_fits (h : ¬sink.Fits data) : (write data sink).2.Full := by
  intro more hfits
  rcases (fits_write data more sink).mp hfits with hnil | hfits
  · exact hnil
  · exact absurd hfits.left h

/-- Two writes leave what one write of both leaves. -/
theorem write_append (data more : List UInt8) (sink : Sink) :
    (write (data ++ more) sink).2 = (write more (write data sink).2).2 := by
  have hbytes : sink.written ++ sink.fitting (data ++ more) =
      sink.written ++ sink.fitting data ++ (write data sink).2.fitting more := by
    apply Array.ext'
    rw [write_snd]
    cases hroom : sink.room with
    | none => simp [fitting, hroom]
    | some n => simp [fitting, hroom, List.take_append]
  rw [write_snd, write_snd more, hbytes, write_snd data]
  cases sink.room with
  | none => rfl
  | some n => simp [Nat.sub_sub]

/-! ## Writers -/

/-- A program goes on after a write that fits. -/
theorem bind_of_fits {α : Type} (h : sink.Fits data) (next : Unit → Output α) :
    (write data >>= next) sink = next () (write data sink).2 := by
  show ExceptT.bindCont next (write data sink).1 (write data sink).2 = _
  rw [write_eq_ok_iff.mpr h]
  rfl

/-- A write that does not fit ends the program. -/
theorem bind_of_not_fits {α : Type} (h : ¬sink.Fits data) (next : Unit → Output α) :
    (write data >>= next) sink = (.error sink.refusal.error, (write data sink).2) := by
  show ExceptT.bindCont next (write data sink).1 (write data sink).2 = _
  rw [write_of_not_fits_all h]
  rfl

/-- Behind data that does not fit nothing is taken. -/
theorem write_append_of_not_fits (h : ¬sink.Fits data) (more : List UInt8) :
    write (data ++ more) sink = (.error sink.refusal.error, (write data sink).2) := by
  obtain ⟨n, hroom, hlt⟩ := exists_room_lt h
  refine Prod.ext (write_of_not_fits_all fun hboth => h hboth.left) ?_
  rw [write_snd, write_snd, fitting_append_of_not_fits h, hroom, Option.map_some, Option.map_some,
    List.length_append, Nat.sub_eq_zero_of_le (by omega), Nat.sub_eq_zero_of_le (by omega)]

/-- What is written in two parts is written as one. -/
theorem write_bind_write (data more : List UInt8) :
    (write data >>= fun _ => write more) = write (data ++ more) := by
  funext sink
  by_cases h : sink.Fits data
  · rw [bind_of_fits h]
    refine Prod.ext ?_ (write_append data more sink).symm
    have hroom := fits_write data more sink
    by_cases hmore : sink.Fits (data ++ more)
    · rw [write_eq_ok_iff.mpr hmore, write_eq_ok_iff.mpr (hroom.mpr (.inr hmore))]
    · have hleft : ¬(write data sink).2.Fits more := by
        rw [hroom]
        rintro (rfl | hfits)
        · exact hmore ((List.append_nil data).symm ▸ h)
        · exact hmore hfits
      rw [write_of_not_fits_all hmore, write_of_not_fits_all hleft, write_snd]
  · rw [bind_of_not_fits h, write_append_of_not_fits h]

/-- So is what a loop writes, one part after the other. -/
theorem forM_write {α : Type} (part : α → List UInt8) (list : List α) :
    (list.forM fun a => write (part a)) = write (list.flatMap part) := by
  induction list with
  | nil => exact (funext write_nil).symm
  | cons a list ih =>
      rw [List.flatMap_cons, ← write_bind_write, ← ih]
      rfl

/-! ## Scripts -/

/-- What a program does with a sink.  It writes and flushes, one after the other, and it sees of
each write how many bytes were taken and what the result was. -/
inductive Script (α : Type) where
  | finish (answer : α)
  | write (data : List UInt8) (next : Nat → Except StreamError Unit → Script α)
  | flush (next : Except StreamError Unit → Script α)

namespace Script

variable {α : Type}

/-- The answer of a script and the sink that it leaves. -/
def run : Script α → Sink → α × Sink
  | finish answer, sink => (answer, sink)
  | write data next, sink =>
      let written := Sink.write data sink
      (next (sink.fitting data).length written.1).run written.2
  | flush next, sink =>
      let flushed := Sink.flush sink
      (next flushed.1).run flushed.2

/-- The bytes that the sink takes, write by write. -/
def accepted : Script α → Sink → List UInt8
  | finish _, _ => []
  | write data next, sink =>
      let written := Sink.write data sink
      sink.fitting data ++ (next (sink.fitting data).length written.1).accepted written.2
  | flush next, sink =>
      let flushed := Sink.flush sink
      (next flushed.1).accepted flushed.2

/-- The bytes that were taken stay, behind those that were there. -/
theorem bytes_run (script : Script α) (sink : Sink) :
    (script.run sink).2.bytes = sink.bytes ++ script.accepted sink := by
  induction script generalizing sink with
  | finish => exact (List.append_nil _).symm
  | write data next ih =>
      rw [run, accepted, ih, bytes_write, List.append_assoc]
  | flush next ih =>
      have hflush : (Sink.flush sink).2 = sink := by
        rw [Sink.flush]
        split <;> rfl
      rw [run, accepted, ih, hflush]

end Script

end StateTrace.Sink
