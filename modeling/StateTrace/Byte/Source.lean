import StateTrace.Byte.StreamError

/-!
# Byte sources

A *source* is a stream of bytes as reading it shows it: the list of the answers
that its reads give.  An answer is some bytes or an error.  A read that asks for
fewer bytes than the next answer holds takes the first of them and leaves the
others.  A read that gives no bytes looks like the end of the stream, and so
does every read after the last answer.

`gather n` reads until it has `n` bytes.  It tries again after an interrupted
read and stops at a read without bytes or at any other error.  What it took
before that stays taken.  Asking for no bytes reads nothing.

The *size* of a source bounds the reads that it can still answer.
`size_rest_gather` says that gathering takes at least as much off the size as
it gives bytes, and `length_bytes_gather` that a gathering which was filled
gives as many bytes as it was asked for.  Loops over a source end by these two.
`gather_ofBytes` says what gathering does on a plain byte list.
-/

namespace StateTrace

/-! ## Sources -/

/-- What one read of a source gives. -/
inductive Answer where
  /-- Some bytes.  No bytes look like the end of the stream. -/
  | bytes (data : List UInt8)
  /-- An error. -/
  | fault (error : StreamError)
deriving DecidableEq, Repr, Inhabited

/-- A stream of bytes, by the answers that its reads give. -/
structure Source where
  /-- The answers, next one first. -/
  answers : List Answer
deriving DecidableEq, Repr, Inhabited

namespace Source

/-- A source that gives `data` in one piece and then ends. -/
def ofBytes : List UInt8 → Source
  | [] => ⟨[]⟩
  | b :: data => ⟨[.bytes (b :: data)]⟩

/-! ## Gathering -/

/-- Why gathering stopped. -/
inductive Outcome where
  /-- It got all that it was asked for. -/
  | filled
  /-- A read gave no bytes. -/
  | drained
  /-- A read failed. -/
  | failed (error : StreamError)
deriving DecidableEq, Repr, Inhabited

/-- The result of gathering. -/
structure Gathered where
  /-- The bytes taken. -/
  bytes : List UInt8
  /-- Why it stopped. -/
  outcome : Outcome
  /-- The source after it. -/
  rest : Source
deriving DecidableEq, Repr, Inhabited

/-- Gathering on top of the bytes `got`, latest first. -/
def gatherOnto (got : List UInt8) : Nat → List Answer → Gathered
  | 0, answers => ⟨got.reverse, .filled, ⟨answers⟩⟩
  | _ + 1, [] => ⟨got.reverse, .drained, ⟨[]⟩⟩
  | n + 1, .fault error :: answers =>
      if error.kind = .interrupted then gatherOnto got (n + 1) answers
      else ⟨got.reverse, .failed error, ⟨answers⟩⟩
  | _ + 1, .bytes [] :: answers => ⟨got.reverse, .drained, ⟨answers⟩⟩
  | n + 1, .bytes (b :: data) :: answers =>
      let part := (b :: data).take (n + 1)
      match (b :: data).drop (n + 1) with
      | [] => gatherOnto (part.reverseAux got) (n + 1 - part.length) answers
      | left => ⟨(part.reverseAux got).reverse, .filled, ⟨.bytes left :: answers⟩⟩
termination_by structural _ answers => answers

/-- Read until there are `n` bytes, a read gives none, or one fails. -/
def gather (n : Nat) (source : Source) : Gathered :=
  gatherOnto [] n source.answers

/-! ## Size -/

/-- One for the answer itself and one for each of its bytes. -/
def answerSize : Answer → Nat
  | .bytes data => data.length + 1
  | .fault _ => 1

/-- The sum of the sizes of answers. -/
def answersSize : List Answer → Nat
  | [] => 0
  | answer :: answers => answerSize answer + answersSize answers

/-- The sum of the sizes of the answers. -/
def size (source : Source) : Nat := answersSize source.answers

theorem size_rest_gatherOnto (got : List UInt8) (n : Nat) (answers : List Answer) :
    (gatherOnto got n answers).rest.size + (gatherOnto got n answers).bytes.length
      ≤ size ⟨answers⟩ + got.length := by
  fun_induction gatherOnto got n answers with
  | case1 => simp
  | case2 => simp
  | case3 _ _ _ _ _ ih =>
      simp only [size, answersSize] at ih ⊢
      omega
  | case4 =>
      simp only [size, answersSize, List.length_reverse]
      omega
  | case5 =>
      simp only [size, answersSize, List.length_reverse]
      omega
  | case6 got n b data answers part _ ih =>
      have hp : part.length ≤ (b :: data).length := by
        simp only [part, List.length_take]
        omega
      simp only [size, answersSize, answerSize, List.reverseAux_eq,
        List.length_append, List.length_reverse] at ih ⊢
      omega
  | case7 got n b data answers part _ =>
      have hp : part.length + ((b :: data).drop (n + 1)).length = (b :: data).length := by
        simp only [part, List.length_take, List.length_drop]
        omega
      simp only [size, answersSize, answerSize, List.reverseAux_eq,
        List.length_append, List.length_reverse]
      omega

/-- Gathering takes at least as much off the size of a source as it gives
bytes. -/
theorem size_rest_gather (n : Nat) (source : Source) :
    (source.gather n).rest.size + (source.gather n).bytes.length ≤ source.size :=
  size_rest_gatherOnto [] n source.answers

theorem length_bytes_gatherOnto (got : List UInt8) (n : Nat) (answers : List Answer)
    (h : (gatherOnto got n answers).outcome = .filled) :
    (gatherOnto got n answers).bytes.length = got.length + n := by
  fun_induction gatherOnto got n answers with
  | case1 => simp
  | case2 => cases h
  | case3 _ _ _ _ _ ih => exact ih h
  | case4 => cases h
  | case5 => cases h
  | case6 got n b data answers part _ ih =>
      have hp : part.length ≤ n + 1 := by
        simp only [part, List.length_take]
        omega
      rw [ih h, List.reverseAux_eq, List.length_append, List.length_reverse]
      omega
  | case7 got n b data answers part hleft =>
      have hd : (b :: data).drop (n + 1) ≠ [] := hleft
      have hp : part.length = n + 1 := by
        have := List.length_pos_iff.mpr hd
        simp only [List.length_drop] at this
        simp only [part, List.length_take]
        omega
      simp only [List.reverseAux_eq, List.length_reverse, List.length_append]
      omega

/-- A gathering that was filled gives as many bytes as it was asked for. -/
theorem length_bytes_gather (n : Nat) (source : Source)
    (h : (source.gather n).outcome = .filled) : (source.gather n).bytes.length = n :=
  (length_bytes_gatherOnto [] n source.answers h).trans (Nat.zero_add n)

theorem gatherOnto_nil (got : List UInt8) (n : Nat) :
    gatherOnto got n [] = ⟨got.reverse, if n = 0 then .filled else .drained, ⟨[]⟩⟩ := by
  cases n <;> simp [gatherOnto]

/-- On a plain byte list gathering splits the list, and it is drained if the
list is too short. -/
theorem gather_ofBytes (n : Nat) (data : List UInt8) :
    (ofBytes data).gather n =
      ⟨data.take n, if n ≤ data.length then .filled else .drained, ofBytes (data.drop n)⟩ := by
  cases n with
  | zero => simp [gather, gatherOnto, ofBytes]
  | succ n =>
      cases data with
      | nil => simp [gather, gatherOnto, ofBytes]
      | cons b data =>
          have hdrop : (b :: data).drop (n + 1) = data.drop n := rfl
          cases hleft : data.drop n with
          | nil =>
              have hlen : data.length ≤ n := List.drop_eq_nil_iff.mp hleft
              have htake : data.take n = data := List.take_of_length_le hlen
              simp only [gather, ofBytes, gatherOnto, hdrop, hleft, List.take_succ_cons, htake]
              simp [gatherOnto_nil, Nat.sub_eq_zero_iff_le]
          | cons c left =>
              have hn : n ≤ data.length := by
                have := congrArg List.length hleft
                simp only [List.length_drop, List.length_cons] at this
                omega
              simp [gather, ofBytes, gatherOnto, hdrop, hleft, hn]

end Source

end StateTrace
