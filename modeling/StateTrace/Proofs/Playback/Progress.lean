import StateTrace.Proofs.Playback.Calls
import StateTrace.Proofs.Playback.Fault
import StateTrace.Proofs.Playback.Position
import StateTrace.Proofs.Playback.Prefix

/-!
# Progress

Each answer that is settled, a record or a rejection, takes the ten bytes at least that every
head has (`Moves.progress`).  All other answers leave nothing, and where nothing is left there is
only the end of the trace.  So the number of bytes bounds the number of settled answers
(`countP_settled_le`), also if the reading goes on past errors.

No consumer asks for more records than there are, and once more (`Runs.exists_after`).  So the
same number bounds every loop over a trace, and `reading_ends` puts this together.
-/

namespace StateTrace

open Wire

/-! ## One answer -/

theorem TakesPayload.settled {answer : Except ReadError (Option Record)} (h : TakesPayload answer) :
    settled answer = true := by
  cases h <;> rfl

theorem LeavesPayload.settled {answer : Except ReadError (Option Record)}
    (h : LeavesPayload answer) : settled answer = true := by
  cases h <;> rfl

/-- An answer is settled and takes a head at least, or it leaves nothing. -/
theorem Moves.progress {bytes left : List UInt8} {answer : Except ReadError (Option Record)}
    (h : Moves bytes answer left) :
    settled answer = true ∧ left.length + 10 ≤ bytes.length ∨
      (answer = .ok none ∨ answer = .error .truncated) ∧ left = [] := by
  cases h with
  | ended => exact .inr ⟨.inl rfl, rfl⟩
  | truncated => exact .inr ⟨.inr rfl, rfl⟩
  | @taken head _ _ _ htakes =>
      have hhead := head.ten_le_length_bytes
      refine .inl ⟨htakes.settled, ?_⟩
      rw [List.length_append, List.length_append]
      omega
  | @left head _ _ hleaves =>
      have hhead := head.ten_le_length_bytes
      refine .inl ⟨hleaves.settled, ?_⟩
      rw [List.length_append]
      omega

namespace Playback

/-! ## Many answers -/

theorem after_add (playback : Playback) (n m : Nat) :
    playback.after (n + m) = (playback.after n).after m := by
  induction n generalizing playback with
  | zero => rw [Nat.zero_add, after]
  | succ n ih => rw [Nat.add_right_comm, after, ih, after]

section Delivers
variable {playback : Playback} {bytes : List UInt8}

theorem exists_delivers_after (h : playback.input.source.Delivers bytes) (n : Nat) :
    ∃ left, (playback.after n).input.source.Delivers left := by
  induction n generalizing playback bytes with
  | zero => exact ⟨bytes, h⟩
  | succ n ih =>
      obtain ⟨left, hleft, -⟩ := next_moves h
      exact ih hleft

/-- Settled answers have ten bytes each. -/
theorem countP_settled_le (h : playback.input.source.Delivers bytes) (n : Nat) :
    10 * (playback.answers n).countP settled + (playback.after n).pending.length ≤
      bytes.length := by
  induction n generalizing playback bytes with
  | zero =>
      rw [pending, after, h.pending_eq, answers, List.countP_nil]
      omega
  | succ n ih =>
      obtain ⟨left, hleft, hmoves⟩ := next_moves h
      have hrest := ih hleft
      rw [answers, after]
      rcases hmoves.progress with ⟨hsettled, hlength⟩ | ⟨hends, rfl⟩
      · rw [List.countP_cons_of_pos hsettled]
        omega
      · have hunsettled : ¬settled playback.next.1 = true := by
          rcases hends with hend | hend <;> rw [hend] <;> exact Bool.false_ne_true
        rw [List.countP_cons_of_neg hunsettled]
        exact Nat.le_trans hrest (Nat.zero_le _)

/-- Where nothing is left, each answer is the end of the trace. -/
theorem next_after_of_nil (h : playback.input.source.Delivers []) (n : Nat) :
    (playback.after n).next.1 = .ok none := by
  induction n generalizing playback with
  | zero => exact (next_of_gives h Decoder.gives_nothing).1
  | succ n ih => exact ih (next_of_gives h Decoder.gives_nothing).2

/-- Each call gives a settled answer and takes ten bytes, or nothing comes after it any more. -/
theorem next_after_progress (h : playback.input.source.Delivers bytes) (n : Nat) :
    settled (playback.after n).next.1 = true ∧
        (playback.after (n + 1)).pending.length + 10 ≤ (playback.after n).pending.length ∨
      ((playback.after n).next.1 = .ok none ∨ (playback.after n).next.1 = .error .truncated) ∧
        ∀ m, n < m → (playback.after m).next.1 = .ok none := by
  obtain ⟨bytes, hbytes⟩ := exists_delivers_after h n
  obtain ⟨left, hleft, hmoves⟩ := next_moves hbytes
  have hnext : playback.after (n + 1) = (playback.after n).next.2 := after_add playback n 1
  rcases hmoves.progress with ⟨hsettled, hlength⟩ | ⟨hends, rfl⟩
  · refine .inl ⟨hsettled, ?_⟩
    rw [hnext, pending, pending, hleft.pending_eq, hbytes.pending_eq]
    exact hlength
  · refine .inr ⟨hends, fun m hm => ?_⟩
    obtain ⟨k, rfl⟩ := Nat.exists_eq_add_of_le hm
    rw [Nat.succ_eq_add_one, after_add, hnext]
    exact next_after_of_nil hleft k

end Delivers

/-! ## Loops -/

section Loops
variable {σ : Type} {callback : Callback σ} {playback rest : Playback} {state last : σ}
  {calls : Notes} {stop : Ending Int32} {records : List Record} {error : Option ReadError}

/-- A delivery asks for one record for each call, and once more at most. -/
theorem Runs.exists_after (h : Runs callback playback state calls stop last rest) :
    ∃ k ≤ calls.length + 1, rest = playback.after k := by
  induction h with
  | complete hnext => exact ⟨1, Nat.le_refl 1, by rw [after, hnext, after]⟩
  | failed hnext => exact ⟨1, Nat.le_refl 1, by rw [after, hnext, after]⟩
  | cancelled hnext _ => exact ⟨1, Nat.le_succ 1, by rw [after, hnext, after]⟩
  | proceeded hnext _ _ ih =>
      obtain ⟨k, hk, rfl⟩ := ih
      exact ⟨k + 1, Nat.succ_le_succ hk, by rw [after, hnext]⟩

/-- The records of a course are among its settled answers. -/
theorem Plays.length_le_countP (h : Plays playback records error rest) :
    records.length ≤ (playback.answers (records.length + 1)).countP settled := by
  have hrecords : (records.map fun r => Except.ok (some r)).countP settled = records.length := by
    rw [List.countP_map]
    exact List.countP_eq_length.mpr fun _ _ => rfl
  rw [h.answers, List.countP_append, hrecords]
  exact Nat.le_add_right _ _

end Loops

/-- Reading a trace, also past errors.  Each call gives a record or a rejection and takes ten bytes
at least, or it gives the end of the trace or a truncated trace, and then all later calls give the
end.  So there are no more records and rejections than the bytes behind the header make heads, and
a trace is truncated once at most.  Therefore every loop over the records ends.  Draining asks for
all records and once more.  The stream of records gives nothing after as many items, and a delivery
asks for no more and counts no more, whatever the callback or the consumer answers. -/
theorem reading_ends {source : Source} {bytes : List UInt8} {opened : Playback}
    (hsource : source.Delivers bytes) (hstart : start source = .ok opened) :
    let limit := (bytes.length - headerLength) / 10
    let place n := bytes.length - (opened.after n).pending.length
    let answer n := (opened.after n).next.1
    headerLength ≤ bytes.length ∧ place 0 = headerLength ∧
      (∀ n, settled (answer n) = true ∧ place n + 10 ≤ place (n + 1) ∨
        (answer n = .ok none ∨ answer n = .error .truncated) ∧ ∀ m, n < m → answer m = .ok none) ∧
      (∀ n, (opened.answers n).countP settled ≤ limit) ∧
      (∀ n m, answer n = .error .truncated → answer m = .error .truncated → n = m) ∧
      ∃ (records : List Record) (error : Option ReadError), records.length ≤ limit ∧
        opened.drain = (records, error, opened.after (records.length + 1)) ∧
        (∀ n, (RecordStream.ofPlayback opened).items (records.length + 1 + n) =
          records.map (fun r => some (.ok r)) ++ error.map .error :: List.replicate n none) ∧
        (∀ {σ : Type} (callback : Callback σ) (state : σ),
          let delivery := opened.deliver callback state
          let count := (opened.calls callback state).length
          count ≤ records.length ∧ (∃ k ≤ count + 1, delivery.playback = opened.after k) ∧
            (delivery.result = .ok count ∨ (∃ code, delivery.result = .error (.cancelled code count)) ∨
              ∃ error, delivery.result = .error (.read error))) ∧
        ∀ {σ : Type} (consumer : Consumer σ) (state : σ),
          opened.deliverTo consumer state = opened.deliver consumer.callback state := by
  intro limit place answer
  obtain ⟨hlength, hopened, -⟩ := start_of_header hsource hstart
  have hbehind : (bytes.drop headerLength).length = bytes.length - headerLength := List.length_drop
  have hcount : ∀ n, (opened.answers n).countP settled ≤ limit := by
    intro n
    have hle := countP_settled_le hopened n
    rw [Nat.le_div_iff_mul_le (by decide)]
    omega
  have hanswer : ∀ n, settled (answer n) = true ∧ place n + 10 ≤ place (n + 1) ∨
      (answer n = .ok none ∨ answer n = .error .truncated) ∧ ∀ m, n < m → answer m = .ok none := by
    intro n
    rcases next_after_progress hopened n with ⟨hsettled, htaken⟩ | hends
    · have hle := length_pending_after_le hopened n
      refine .inl ⟨hsettled, ?_⟩
      show bytes.length - _ + 10 ≤ bytes.length - _
      omega
    · exact .inr hends
  -- A truncated trace ends, so what comes after it is not truncated.
  have honce : ∀ n m, answer n = .error .truncated → ¬(n < m ∧ answer m = .error .truncated) := by
    intro n m hn ⟨hlt, hm⟩
    rcases hanswer n with ⟨hsettled, -⟩ | ⟨-, hafter⟩
    · rw [hn] at hsettled
      cases hsettled
    · cases hm.symm.trans (hafter m hlt)
  obtain ⟨records, error, rest, hplays⟩ := opened.exists_plays
  have hrecords : records.length ≤ limit := Nat.le_trans hplays.length_le_countP (hcount _)
  refine ⟨hlength, ?_, hanswer, hcount, fun n m hn hm => ?_, records, error, hrecords, ?_,
    fun n => (hplays.items n).1, fun callback state => ?_, fun _ _ => rfl⟩
  · show bytes.length - opened.input.source.pending.length = headerLength
    rw [hopened.pending_eq, hbehind]
    omega
  · rcases Nat.lt_trichotomy n m with hlt | heq | hlt
    · exact absurd ⟨hlt, hm⟩ (honce n m hn)
    · exact heq
    · exact absurd ⟨hlt, hn⟩ (honce m n hm)
  · rw [hplays.after]
    exact hplays.drain
  · obtain ⟨calls, stop, last, left, hruns⟩ := exists_runs callback opened state
    have hcalls := (hruns.isPrefix hplays).length_le
    rw [List.length_map, List.length_map] at hcalls
    intro delivery count
    have hdelivery : delivery = ⟨stop.result calls.length, last, left⟩ := hruns.deliver
    have hnumber : count = calls.length := congrArg List.length hruns.calls_eq
    rw [hdelivery, hnumber]
    refine ⟨hcalls, hruns.exists_after, ?_⟩
    cases stop with
    | complete => exact .inl rfl
    | stopped code => exact .inr (.inl ⟨code, rfl⟩)
    | failed error => exact .inr (.inr ⟨error, rfl⟩)

/-- A refused event and three more bytes.  They make one head, and at the third call the trace is
over for good. -/
theorem reading_ends_after_refusal :
    let bytes := headerBytes majorVersion 0 ++ [0, 0, 0, 0, 0, 0, 0, 0, 0, 0, 1, 2, 3]
    ∃ opened, start (.ofBytes bytes) = .ok opened ∧
      opened.answers 2 = [.error (.invalid "event type" 0), .error .truncated] ∧
      (∀ n, (opened.answers n).countP settled ≤ 1) ∧
      ∀ n, 1 < n → (opened.after n).next.1 = .ok none := by
  intro bytes
  let opened : Playback := ⟨⟨.ofBytes (bytes.drop 12), []⟩, 1, 0, 0⟩
  have hstart : start (.ofBytes bytes) = .ok opened := by decide +kernel
  have htruncated : (opened.after 1).next.1 = .error .truncated := by decide +kernel
  have hlimit : (bytes.length - headerLength) / 10 = 1 := by decide
  obtain ⟨-, -, hanswer, hcount, -⟩ := reading_ends (Source.delivers_ofBytes bytes) hstart
  rw [hlimit] at hcount
  refine ⟨opened, hstart, by decide +kernel, hcount, ?_⟩
  rcases hanswer 1 with ⟨hsettled, -⟩ | ⟨-, hafter⟩
  · cases hsettled.symm.trans (congrArg settled htruncated)
  · exact hafter

end Playback

end StateTrace
