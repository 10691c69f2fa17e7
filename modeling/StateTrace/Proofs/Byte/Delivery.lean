import StateTrace.Byte.Source

/-!
# What sources deliver

A source *delivers* a byte list if its reads give these bytes in order and then the
end.  The pieces may be of any size, and reads may be interrupted anywhere.  It
*starts* with a byte list and a tail if it gives these bytes in the same way and then
has the answers of the tail left, among which anything may be.

Gathering sees nothing but the bytes.  As long as there are enough of them it takes
the first ones and leaves the tail alone (`gather_of_starts`).  If it needs more, it
takes all of them and ends as the tail does (`gather_of_stops`): at a read without
bytes, at an error, or at the end of the source.  So no statement about a source
depends on how the source cuts its bytes.

Every source starts with some bytes behind which gathering stops (`exists_starts`).

`pending` are the bytes that a source has left, so it tells how far the source has been
read.  Gathering takes from them just the bytes that it gives (`pending_gather`).  A source
that `FailsOnce` has one fault somewhere, and goes on after it.
-/

namespace StateTrace

namespace Source

/-! ## Pieces -/

/-- The answers give these bytes in order and then the end. -/
inductive Pieces : List Answer → List UInt8 → Prop
  | done : Pieces [] []
  | piece {data bytes : List UInt8} {answers : List Answer} :
      data ≠ [] → Pieces answers bytes → Pieces (.bytes data :: answers) (data ++ bytes)
  | interrupted {error : StreamError} {bytes : List UInt8} {answers : List Answer} :
      error.kind = .interrupted → Pieces answers bytes → Pieces (.fault error :: answers) bytes

/-- The reads of a source give these bytes in order and then the end. -/
def Delivers (source : Source) (bytes : List UInt8) : Prop := Pieces source.answers bytes

/-- The reads of a source give these bytes in order and then the answers of `tail`. -/
def Starts (source : Source) (bytes : List UInt8) (tail : List Answer) : Prop :=
  ∃ pieces, source.answers = pieces ++ tail ∧ Pieces pieces bytes

/-- How gathering ends that reaches these answers and still needs bytes, and the
answers that are left. -/
inductive Stops : List Answer → Outcome → List Answer → Prop
  | ended : Stops [] .drained []
  | nothing (tail : List Answer) : Stops (.bytes [] :: tail) .drained tail
  | failed {error : StreamError} (tail : List Answer) :
      error.kind ≠ .interrupted → Stops (.fault error :: tail) (.failed error) tail

theorem Delivers.starts {source : Source} {bytes : List UInt8} (h : source.Delivers bytes) :
    source.Starts bytes [] :=
  ⟨source.answers, (List.append_nil _).symm, h⟩

theorem Starts.delivers {source : Source} {bytes : List UInt8} (h : source.Starts bytes []) :
    source.Delivers bytes := by
  obtain ⟨pieces, hanswers, hpieces⟩ := h
  rw [List.append_nil] at hanswers
  rw [Delivers, hanswers]
  exact hpieces

/-- Whatever a source answers, its reads give some bytes first, and then gathering stops. -/
theorem exists_starts (source : Source) :
    ∃ bytes tail outcome after, source.Starts bytes tail ∧ Stops tail outcome after := by
  obtain ⟨answers⟩ := source
  induction answers with
  | nil => exact ⟨[], [], _, _, ⟨[], rfl, .done⟩, .ended⟩
  | cons answer answers ih =>
      obtain ⟨bytes, tail, outcome, after, ⟨pieces, hanswers, hpieces⟩, hstops⟩ := ih
      have hcons : answer :: answers = answer :: pieces ++ tail := congrArg (answer :: ·) hanswers
      cases answer with
      | bytes data =>
          by_cases hdata : data = []
          · subst hdata
            exact ⟨[], _, _, _, ⟨[], rfl, .done⟩, .nothing answers⟩
          · exact ⟨data ++ bytes, tail, outcome, after, ⟨_, hcons, .piece hdata hpieces⟩, hstops⟩
      | fault error =>
          by_cases hkind : error.kind = .interrupted
          · exact ⟨bytes, tail, outcome, after, ⟨_, hcons, .interrupted hkind hpieces⟩, hstops⟩
          · exact ⟨[], _, _, _, ⟨[], rfl, .done⟩, .failed answers hkind⟩

/-- A source does not have more answers left than it has. -/
theorem not_starts_cons {answer : Answer} {later : List Answer} {bytes : List UInt8} :
    ¬Starts ⟨later⟩ bytes (answer :: later) := by
  intro ⟨pieces, hanswers, _⟩
  have hlength : later.length = (pieces ++ answer :: later).length := congrArg List.length hanswers
  rw [List.length_append, List.length_cons] at hlength
  omega

/-- A plain byte list is delivered in one piece. -/
theorem delivers_ofBytes : ∀ bytes : List UInt8, (ofBytes bytes).Delivers bytes
  | [] => .done
  | b :: bytes => by
      have h := Pieces.piece (List.cons_ne_nil b bytes) .done
      rwa [List.append_nil] at h

/-- The bytes that a source still has, whatever is between them. -/
def pending (source : Source) : List UInt8 :=
  source.answers.flatMap fun
    | .bytes data => data
    | .fault _ => []

theorem Pieces.pending_eq {answers : List Answer} {bytes : List UInt8} (h : Pieces answers bytes) :
    pending ⟨answers⟩ = bytes := by
  induction h with
  | done => rfl
  | piece _ _ ih =>
      rw [← ih]
      rfl
  | interrupted _ _ ih => exact ih

/-- A source delivers the bytes that it has. -/
theorem Delivers.pending_eq {source : Source} {bytes : List UInt8} (h : source.Delivers bytes) :
    source.pending = bytes :=
  Pieces.pending_eq h

/-- A source delivers no two byte lists. -/
theorem Delivers.unique {source : Source} {bytes bytes' : List UInt8}
    (h : source.Delivers bytes) (h' : source.Delivers bytes') : bytes = bytes' :=
  h.pending_eq.symm.trans h'.pending_eq

/-- The reads of a source give the bytes `before`, then the fault once, and then the bytes
`after`. -/
def FailsOnce (source : Source) (before : List UInt8) (fault : Answer) (after : List UInt8) :
    Prop :=
  ∃ later, source.Starts before (fault :: later) ∧ Pieces later after

/-! ## Gathering -/

/-- Gathering from pieces with a tail: within the bytes it splits them, and beyond
them it goes on with the tail. -/
theorem gatherOnto_append {pieces : List Answer} {bytes : List UInt8} (h : Pieces pieces bytes)
    (tail : List Answer) :
    ∀ (got : List UInt8) (n : Nat),
      (n ≤ bytes.length → ∃ rest, Pieces rest (bytes.drop n) ∧
        gatherOnto got n (pieces ++ tail) =
          ⟨got.reverse ++ bytes.take n, .filled, ⟨rest ++ tail⟩⟩) ∧
      (bytes.length < n → gatherOnto got n (pieces ++ tail) =
        gatherOnto (bytes.reverseAux got) (n - bytes.length) tail) := by
  induction h with
  | done =>
      intro got n
      refine ⟨fun hle => ?_, fun _ => rfl⟩
      cases Nat.le_zero.mp hle
      exact ⟨[], .done, by simp [gatherOnto]⟩
  | @piece data bytes answers hne h ih =>
      intro got n
      cases n with
      | zero =>
          refine ⟨fun _ => ⟨.bytes data :: answers, .piece hne h, ?_⟩, fun hlt => ?_⟩
          · simp [gatherOnto]
          · exact absurd hlt (Nat.not_lt_zero _)
      | succ n =>
          cases data with
          | nil => exact absurd rfl hne
          | cons b data =>
              cases hleft : (b :: data).drop (n + 1) with
              | nil =>
                  -- The whole piece is taken, and what follows gives what is missing.
                  have hlen : (b :: data).length ≤ n + 1 := List.drop_eq_nil_iff.mp hleft
                  have htake : (b :: data).take (n + 1) = b :: data := List.take_of_length_le hlen
                  have hstep : gatherOnto got (n + 1) (.bytes (b :: data) :: answers ++ tail) =
                      gatherOnto ((b :: data).reverseAux got) (n + 1 - (b :: data).length)
                        (answers ++ tail) := by
                    rw [List.cons_append, gatherOnto, hleft, htake]
                  rw [hstep, List.length_append]
                  obtain ⟨hwithin, hbeyond⟩ :=
                    ih ((b :: data).reverseAux got) (n + 1 - (b :: data).length)
                  refine ⟨fun hle => ?_, fun hlt => ?_⟩
                  · obtain ⟨rest, hrest, hgather⟩ := hwithin (by omega)
                    refine ⟨rest, ?_, ?_⟩
                    · rw [List.drop_append, hleft]
                      exact hrest
                    · rw [hgather, List.take_append, htake]
                      simp [List.reverseAux_eq]
                  · rw [hbeyond (by omega), Nat.sub_sub]
                    simp [List.reverseAux_eq]
              | cons c left =>
                  have hlt : n + 1 < (b :: data).length := by
                    have := congrArg List.length hleft
                    simp only [List.length_drop, List.length_cons] at this ⊢
                    omega
                  have hzero : n + 1 - (b :: data).length = 0 := by omega
                  refine ⟨fun _ => ⟨.bytes (c :: left) :: answers, ?_, ?_⟩, fun hbeyond => ?_⟩
                  · rw [List.drop_append, hleft, hzero, List.drop_zero]
                    exact .piece (List.cons_ne_nil c left) h
                  · rw [List.cons_append, gatherOnto, hleft, List.take_append, hzero,
                      List.take_zero]
                    simp [List.reverseAux_eq]
                  · rw [List.length_append] at hbeyond
                    omega
  | @interrupted error bytes answers hkind h ih =>
      intro got n
      cases n with
      | zero =>
          refine ⟨fun _ => ⟨.fault error :: answers, .interrupted hkind h, ?_⟩, fun hlt => ?_⟩
          · simp [gatherOnto]
          · exact absurd hlt (Nat.not_lt_zero _)
      | succ n =>
          have hstep : gatherOnto got (n + 1) (.fault error :: answers ++ tail) =
              gatherOnto got (n + 1) (answers ++ tail) := by
            rw [List.cons_append, gatherOnto, if_pos hkind]
          rw [hstep]
          exact ih got (n + 1)

theorem pending_gatherOnto (got : List UInt8) (n : Nat) (answers : List Answer) :
    (gatherOnto got n answers).bytes ++ (gatherOnto got n answers).rest.pending =
      got.reverse ++ pending ⟨answers⟩ := by
  fun_induction gatherOnto got n answers with
  | case1 => rfl
  | case2 => rfl
  | case3 _ _ _ _ _ ih => exact ih
  | case4 => rfl
  | case5 => rfl
  | case6 got n b data answers part hleft ih =>
      have hpart : part = b :: data := by
        rw [← List.take_append_drop (n + 1) (b :: data), hleft, List.append_nil]
      rw [ih, hpart, List.reverseAux_eq, List.reverse_append, List.reverse_reverse,
        List.append_assoc]
      rfl
  | case7 got n b data answers part hleft =>
      have hpending : pending ⟨.bytes (b :: data) :: answers⟩ =
          part ++ ((b :: data).drop (n + 1) ++ pending ⟨answers⟩) := by
        rw [← List.append_assoc, List.take_append_drop]
        rfl
      rw [hpending, List.reverseAux_eq, List.reverse_append, List.reverse_reverse,
        List.append_assoc]
      rfl

/-- Whatever a source answers, gathering takes from what it has just the bytes that it gives. -/
theorem pending_gather (n : Nat) (source : Source) :
    source.pending = (source.gather n).bytes ++ (source.gather n).rest.pending :=
  (pending_gatherOnto [] n source.answers).symm

section Gather
variable {source : Source} {bytes : List UInt8} {tail after : List Answer} {n : Nat}

/-- Gathering no more than the bytes takes the first of them and leaves the tail
alone. -/
theorem gather_of_starts (h : source.Starts bytes tail) (hle : n ≤ bytes.length) :
    ∃ rest, source.gather n = ⟨bytes.take n, .filled, rest⟩ ∧ rest.Starts (bytes.drop n) tail := by
  obtain ⟨pieces, hanswers, hpieces⟩ := h
  obtain ⟨rest, hrest, hgather⟩ := (gatherOnto_append hpieces tail [] n).1 hle
  refine ⟨⟨rest ++ tail⟩, ?_, rest, rfl, hrest⟩
  rw [gather, hanswers, hgather]
  rfl

/-- Gathering more than the bytes takes all of them and ends as the tail does. -/
theorem gather_of_stops {outcome : Outcome} (h : source.Starts bytes tail)
    (hstops : Stops tail outcome after) (hlt : bytes.length < n) :
    source.gather n = ⟨bytes, outcome, ⟨after⟩⟩ := by
  obtain ⟨pieces, hanswers, hpieces⟩ := h
  have hgather := (gatherOnto_append hpieces tail [] n).2 hlt
  obtain ⟨m, hm⟩ : ∃ m, n - bytes.length = m + 1 := ⟨n - bytes.length - 1, by omega⟩
  rw [gather, hanswers, hgather, hm]
  cases hstops with
  | ended => simp [gatherOnto, List.reverseAux_eq]
  | nothing tail => simp [gatherOnto, List.reverseAux_eq]
  | failed tail hkind => simp [gatherOnto, hkind, List.reverseAux_eq]

end Gather

end Source

end StateTrace
