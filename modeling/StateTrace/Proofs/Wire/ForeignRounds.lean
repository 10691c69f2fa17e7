import StateTrace.Proofs.Record.Places
import StateTrace.Proofs.Wire.DecodedScope
import StateTrace.Proofs.Wire.ScopeReading

/-!
# The rounds over the parts that are not known

The parts of a scope that have no fields here are passed over one after the other.  A
`Round` takes the lowest flag that is left, reads a length and a body of this length, and
marks the scope.  `Rounds` are all of them from some point on, with what comes of it in
the end.

Every loop has rounds and has no others (`exists_rounds`, `Rounds.unique`), and their
flags are the first ones of those that are left (`Rounds.isPrefix`).  So no bit is visited
twice or out of order, and the loop ends, whatever the source does.  What the loop notes
down are its rounds (`Rounds.loop_eq`).

Which rounds there are depends on the bytes alone.  They begin with a body for each flag, or
they are torn inside a part (`bodies_or_torn`).  In the first case there is a round for
each flag (`rounds_of_bodies`), in the second one for each body (`rounds_of_torn`).
-/

namespace StateTrace

namespace Wire

/-! ## The bytes of the parts -/

/-- There are `n` bodies at the start of the bytes, each behind its length. -/
structure Bodies (n : Nat) (bytes : List UInt8) (bodies : List (List UInt8))
    (left : List UInt8) : Prop where
  length_eq : bodies.length = n
  length_lt : ∀ body ∈ bodies, body.length < 65536
  split : bytes = bodies.flatMap ScopeParts.bodyBytes ++ left

/-- The bytes end inside the length or the body of a part. -/
def Torn (bytes : List UInt8) : Prop :=
  bytes.length < 2 ∨ ∃ (length : UInt16) (begun : List UInt8),
    bytes = BigEndian.ofUInt16 length ++ begun ∧ begun.length < length.toNat

section Bytes
variable {n : Nat} {bytes left : List UInt8} {bodies : List (List UInt8)}

theorem length_bodyBytes (body : List UInt8) :
    (ScopeParts.bodyBytes body).length = 2 + body.length := by
  rw [ScopeParts.bodyBytes, List.length_append, BigEndian.length_encode]

/-- The bodies take two bytes each and their own. -/
theorem Bodies.length_bytes (h : Bodies n bytes bodies left) :
    bytes.length = (bodies.map fun body => 2 + body.length).sum + left.length := by
  simp only [h.split, List.length_append, List.length_flatMap, length_bodyBytes]

/-- A part is there, or the bytes end in it. -/
theorem body_or_torn (bytes : List UInt8) :
    (∃ body left, body.length < 65536 ∧ bytes = ScopeParts.bodyBytes body ++ left) ∨
      Torn bytes := by
  rcases Nat.lt_or_ge bytes.length 2 with hlt | hge
  · exact .inr (.inl hlt)
  · let length := BigEndian.toUInt16 (bytes.take 2)
    have hsplit : bytes = BigEndian.ofUInt16 length ++ bytes.drop 2 := by
      rw [BigEndian.ofUInt16_toUInt16 (List.length_take_of_le hge), List.take_append_drop]
    rcases Nat.lt_or_ge (bytes.drop 2).length length.toNat with hshort | hlong
    · exact .inr (.inr ⟨length, bytes.drop 2, hsplit, hshort⟩)
    · have hsize := List.length_take_of_le hlong
      refine .inl ⟨(bytes.drop 2).take length.toNat, (bytes.drop 2).drop length.toNat, ?_, ?_⟩
      · rw [hsize]
        exact length.toNat_lt
      · rwa [ScopeParts.bodyBytes_of_toNat hsize.symm, List.append_assoc, List.take_append_drop]

theorem bodies_zero (bytes : List UInt8) : Bodies 0 bytes [] bytes :=
  ⟨rfl, fun _ h => absurd h List.not_mem_nil, rfl⟩

theorem Bodies.cons (h : Bodies n bytes bodies left) {body : List UInt8}
    (hbody : body.length < 65536) :
    Bodies (n + 1) (ScopeParts.bodyBytes body ++ bytes) (body :: bodies) left := by
  refine ⟨congrArg Nat.succ h.length_eq, List.forall_mem_cons.mpr ⟨hbody, h.length_lt⟩, ?_⟩
  rw [List.flatMap_cons, List.append_assoc, ← h.split]

/-- There is a body for each of `n` parts, or the bytes end in one of them. -/
theorem bodies_or_torn (n : Nat) (bytes : List UInt8) :
    (∃ bodies left, Bodies n bytes bodies left) ∨
      ∃ k < n, ∃ bodies part, Bodies k bytes bodies part ∧ Torn part := by
  induction n generalizing bytes with
  | zero => exact .inl ⟨[], bytes, bodies_zero bytes⟩
  | succ n ih =>
      rcases body_or_torn bytes with ⟨body, more, hbody, rfl⟩ | htorn
      · rcases ih more with ⟨bodies, left, hbodies⟩ | ⟨k, hk, bodies, part, hbodies, htorn⟩
        · exact .inl ⟨_, _, hbodies.cons hbody⟩
        · exact .inr ⟨k + 1, Nat.succ_lt_succ hk, _, part, hbodies.cons hbody, htorn⟩
      · exact .inr ⟨0, Nat.succ_pos n, [], bytes, bodies_zero bytes, htorn⟩

end Bytes

end Wire

namespace Decoder

open Wire

/-- The loop over the parts that are not known, between two rounds. -/
structure Passing where
  /-- The flags that are left. -/
  foreign : ScopeFlags
  /-- The scope so far. -/
  scope : Scope
  input : Input

/-- A part that was passed over: its flag and its body. -/
abbrev PassedPart := ScopeFlags × List UInt8

/-- What is noted down about a part. -/
def PassedPart.note (part : PassedPart) : PartNote := (part.1, .ofNat part.2.length)

namespace Passing

/-- What comes of the loop. -/
def run (loop : Passing) : Except ReadError Scope × Input :=
  foreignParts loop.foreign loop.scope loop.input

/-! ## One round -/

/-- The lowest flag that is left is taken out, a length and as many bytes are read, and the
scope is marked. -/
inductive Round : Passing → PassedPart → Passing → Prop
  | passed {loop : Passing} {length : UInt16} {body : List UInt8} {middle rest : Input} :
      loop.foreign.bits ≠ 0 → uint16 loop.input = (.ok length, middle) →
      exactly length.toNat middle = (.ok body, rest) →
      Round loop (loop.foreign.lowest, body)
        ⟨loop.foreign.erase loop.foreign.lowest, loop.scope.withUnknown, rest⟩

/-- No flag is left, or the length or the body of the next part cannot be read. -/
inductive Ends : Passing → Except ReadError Scope × Input → Prop
  | done {loop : Passing} : loop.foreign.bits = 0 → Ends loop (.ok loop.scope, loop.input)
  | length {loop : Passing} {error : ReadError} {rest : Input} :
      loop.foreign.bits ≠ 0 → uint16 loop.input = (.error error, rest) →
      Ends loop (.error error, rest)
  | body {loop : Passing} {length : UInt16} {error : ReadError} {middle rest : Input} :
      loop.foreign.bits ≠ 0 → uint16 loop.input = (.ok length, middle) →
      exactly length.toNat middle = (.error error, rest) → Ends loop (.error error, rest)

section Round
variable {loop next next' : Passing} {part part' : PassedPart}
  {answer answer' : Except ReadError Scope × Input}

/-- There is a round, or the loop is over. -/
theorem round_or_ends (loop : Passing) :
    (∃ part next, Round loop part next) ∨ ∃ answer, Ends loop answer := by
  by_cases hzero : loop.foreign.bits = 0
  · exact .inr ⟨_, .done hzero⟩
  · rcases hlength : uint16 loop.input with ⟨error | length, middle⟩
    · exact .inr ⟨_, .length hzero hlength⟩
    · rcases hbody : exactly length.toNat middle with ⟨error | body, rest⟩
      · exact .inr ⟨_, .body hzero hlength hbody⟩
      · exact .inl ⟨_, _, .passed hzero hlength hbody⟩

theorem Round.unique (h : Round loop part next) (h' : Round loop part' next') :
    part = part' ∧ next = next' := by
  cases h with
  | passed hne hlength hbody =>
      cases h' with
      | passed hne' hlength' hbody' =>
          cases hlength.symm.trans hlength'
          cases hbody.symm.trans hbody'
          exact ⟨rfl, rfl⟩

/-- A loop that is over has no round. -/
theorem Round.not_ends (h : Round loop part next) : ¬Ends loop answer := by
  intro hends
  cases h with
  | passed hne hlength hbody =>
      cases hends with
      | done hzero => exact hne hzero
      | length _ hlength' => cases hlength.symm.trans hlength'
      | body _ hlength' hbody' =>
          cases hlength.symm.trans hlength'
          cases hbody.symm.trans hbody'

/-- The flag of a round is the first one that is left, and the others stay. -/
theorem Round.singles_eq (h : Round loop part next) :
    loop.foreign.singles = part.1 :: next.foreign.singles := by
  cases h with
  | passed hne _ _ => exact ScopeFlags.singles_eq_cons hne

/-- A round is noted down, and the loop goes on behind it. -/
theorem Round.loop_eq (h : Round loop part next) (notes : List PartNote) :
    foreignLoop loop.foreign loop.scope notes loop.input =
      foreignLoop next.foreign next.scope (notes ++ [part.note]) next.input := by
  cases h with
  | @passed length body middle rest hne hlength hbody =>
      have hskip : skip length.toNat middle = (.ok (), rest) := bind_ok hbody
      have hpart : foreignPart loop.input = (.ok length, rest) :=
        (bind_ok hlength).trans (bind_ok hskip)
      have hsize : UInt16.ofNat body.length = length := by
        rw [(pending_of_exactly hbody).1, UInt16.ofNat_toNat]
      rw [foreignLoop_ok hne hpart, PassedPart.note, hsize]

/-- Nothing is noted down where the loop ends. -/
theorem Ends.loop_eq (h : Ends loop answer) (notes : List PartNote) :
    foreignLoop loop.foreign loop.scope notes loop.input = (answer.1, notes, answer.2) := by
  cases h with
  | done hzero => exact foreignLoop_done hzero
  | @length error rest hne hlength =>
      have hpart : foreignPart loop.input = (.error error, rest) := bind_error hlength
      exact foreignLoop_error hne hpart
  | @body length error middle rest hne hlength hbody =>
      have hskip : skip length.toNat middle = (.error error, rest) := bind_error hbody
      have hpart : foreignPart loop.input = (.error error, rest) :=
        (bind_ok hlength).trans (bind_error hskip)
      exact foreignLoop_error hne hpart

/-- A round takes the two bytes of a length and that many bytes more, and no others. -/
theorem Round.takes (h : Round loop part next) :
    part.2.length < 65536 ∧
      loop.input.source.pending = ScopeParts.bodyBytes part.2 ++ next.input.source.pending := by
  cases h with
  | @passed length body middle rest _ hlength hbody =>
      obtain ⟨hsize, hrest⟩ := pending_of_exactly hbody
      refine ⟨hsize ▸ length.toNat_lt, ?_⟩
      rw [pending_of_uint16 hlength, hrest, ScopeParts.bodyBytes_of_toNat hsize.symm,
        List.append_assoc]

end Round

/-! ## All rounds -/

/-- The parts that are passed over from here on, and what comes of the loop in the end. -/
inductive Rounds : Passing → List PassedPart → Except ReadError Scope × Input → Prop
  | ended {loop : Passing} {answer : Except ReadError Scope × Input} :
      Ends loop answer → Rounds loop [] answer
  | round {loop next : Passing} {part : PassedPart} {parts : List PassedPart}
      {answer : Except ReadError Scope × Input} :
      Round loop part next → Rounds next parts answer → Rounds loop (part :: parts) answer

section Rounds
variable {loop : Passing} {parts parts' : List PassedPart}
  {answer answer' : Except ReadError Scope × Input}

/-- Every loop has rounds and an end, because each round takes a flag out. -/
theorem exists_rounds (loop : Passing) : ∃ parts answer, Rounds loop parts answer := by
  rcases round_or_ends loop with ⟨part, next, hround⟩ | ⟨answer, hends⟩
  · obtain ⟨parts, answer, hparts⟩ := exists_rounds next
    exact ⟨part :: parts, answer, .round hround hparts⟩
  · exact ⟨[], answer, .ended hends⟩
termination_by loop.foreign.singles.length
decreasing_by
  rw [hround.singles_eq]
  exact Nat.lt_succ_self _

/-- The loop notes its rounds down, one after the other. -/
theorem Rounds.loop_eq (h : Rounds loop parts answer) (notes : List PartNote) :
    foreignLoop loop.foreign loop.scope notes loop.input =
      (answer.1, notes ++ parts.map PassedPart.note, answer.2) := by
  induction h generalizing notes with
  | ended hends => rw [hends.loop_eq, List.map_nil, List.append_nil]
  | round hround _ ih =>
      rw [hround.loop_eq, ih, List.map_cons, List.append_assoc, List.singleton_append]

theorem Rounds.run_eq (h : Rounds loop parts answer) : loop.run = answer := by
  rw [run, foreignParts, h.loop_eq]

/-- There are no other rounds. -/
theorem Rounds.unique (h : Rounds loop parts answer) (h' : Rounds loop parts' answer') :
    parts = parts' := by
  induction h generalizing parts' with
  | ended hends =>
      cases h' with
      | ended _ => rfl
      | round hround _ => exact absurd hends hround.not_ends
  | round hround _ ih =>
      cases h' with
      | ended hends => exact absurd hends hround.not_ends
      | round hround' hrounds' =>
          obtain ⟨rfl, rfl⟩ := hround.unique hround'
          rw [ih hrounds']

/-- The rounds take the flags that are left in their order. -/
theorem Rounds.isPrefix (h : Rounds loop parts answer) :
    parts.map Prod.fst <+: loop.foreign.singles := by
  induction h with
  | ended _ => exact List.nil_prefix
  | round hround _ ih =>
      rw [hround.singles_eq, List.map_cons, List.prefix_cons_inj]
      exact ih

end Rounds

/-! ## Rounds and bytes -/

section Bytes
variable {loop : Passing} {bytes left part : List UInt8} {bodies : List (List UInt8)}
  {tail after : List Answer} {outcome : Source.Outcome} {n : Nat}

/-- Where the next part is there, a round takes it. -/
theorem exists_round {body : List UInt8} (hne : loop.foreign.bits ≠ 0)
    (hbody : body.length < 65536)
    (hstarts : loop.input.source.Starts (ScopeParts.bodyBytes body ++ left) tail) :
    ∃ next, Round loop (loop.foreign.lowest, body) next ∧
      next.input.source.Starts left tail := by
  let length : UInt16 := .ofNat body.length
  have hsize : length.toNat = body.length := UInt16.toNat_ofNat_of_lt' hbody
  rw [ScopeParts.bodyBytes_of_toNat hsize, List.append_assoc] at hstarts
  obtain ⟨hlength, hmiddle⟩ := takes_uint16 length _ _ _ hstarts
  obtain ⟨hread, hrest⟩ := takes_exactly body _ _ _ hmiddle
  rw [← hsize] at hread hrest
  exact ⟨_, .passed hne (Prod.ext hlength rfl) (Prod.ext hread rfl), hrest⟩

/-- Where the next part is torn, the loop is over. -/
theorem exists_ends (hne : loop.foreign.bits ≠ 0) (hstarts : loop.input.source.Starts bytes tail)
    (hstops : Source.Stops tail outcome after) (htorn : Torn bytes) :
    ∃ rest, Ends loop (.error (shortage outcome), rest) ∧ rest.source = ⟨after⟩ := by
  rcases htorn with hlt | ⟨length, begun, rfl, hlt⟩
  · have hwants : Wants uint16 bytes := (wants_exactly hlt).bind
    obtain ⟨hanswer, hrest⟩ := hwants _ _ _ _ hstarts hstops
    exact ⟨_, .length hne (Prod.ext hanswer rfl), hrest⟩
  · obtain ⟨hlength, hmiddle⟩ := takes_uint16 length _ _ _ hstarts
    obtain ⟨hanswer, hrest⟩ := wants_exactly hlt _ _ _ _ hmiddle hstops
    exact ⟨_, .body hne (Prod.ext hlength rfl) (Prod.ext hanswer rfl), hrest⟩

/-- For each body that is there, one flag is taken, and then the loop goes on with the flags
that are left. -/
theorem exists_rounds_of_bodies (hcount : bodies.length ≤ loop.foreign.singles.length)
    (hbodies : ∀ body ∈ bodies, body.length < 65536)
    (hstarts : loop.input.source.Starts (bodies.flatMap ScopeParts.bodyBytes ++ left) tail) :
    ∃ last : Passing, last.foreign.singles = loop.foreign.singles.drop bodies.length ∧
      last.input.source.Starts left tail ∧
      ∀ answer, Ends last answer → Rounds loop (loop.foreign.singles.zip bodies) answer := by
  -- Each body has its round, and the rest of the bodies are for the loop after it.
  induction bodies generalizing loop with
  | nil =>
      refine ⟨loop, rfl, hstarts, fun answer hends => ?_⟩
      rw [List.zip_nil_right]
      exact .ended hends
  | cons body bodies ih =>
      obtain ⟨hbody, hmore⟩ := List.forall_mem_cons.mp hbodies
      have hne : loop.foreign.bits ≠ 0 := by
        intro hzero
        rw [loop.foreign.singles_eq_nil_iff.mpr hzero] at hcount
        exact Nat.not_succ_le_zero _ hcount
      rw [List.flatMap_cons, List.append_assoc] at hstarts
      obtain ⟨next, hround, hnext⟩ := exists_round hne hbody hstarts
      rw [hround.singles_eq] at hcount ⊢
      obtain ⟨last, hsingles, hlast, hrounds⟩ := ih (Nat.le_of_succ_le_succ hcount) hmore hnext
      exact ⟨last, hsingles, hlast, fun answer hends => .round hround (hrounds answer hends)⟩

/-- With a body for each flag that is left there is a round for each, and the loop is done. -/
theorem rounds_of_bodies (loop : Passing) (h : Bodies loop.foreign.singles.length bytes bodies left)
    (hstarts : loop.input.source.Starts bytes tail) :
    ∃ marked rest, Rounds loop (loop.foreign.singles.zip bodies) (.ok marked, rest) ∧
      rest.source.Starts left tail := by
  rw [h.split] at hstarts
  obtain ⟨last, hsingles, hlast, hrounds⟩ :=
    exists_rounds_of_bodies (Nat.le_of_eq h.length_eq) h.length_lt hstarts
  rw [h.length_eq, List.drop_length, ScopeFlags.singles_eq_nil_iff] at hsingles
  exact ⟨last.scope, last.input, hrounds _ (.done hsingles), hlast⟩

/-- If the bytes are torn before, there is a round for each body, and all the bytes are taken. -/
theorem rounds_of_torn (loop : Passing) (hn : n < loop.foreign.singles.length)
    (h : Bodies n bytes bodies part) (htorn : Torn part)
    (hstarts : loop.input.source.Starts bytes tail) (hstops : Source.Stops tail outcome after) :
    ∃ rest, Rounds loop (loop.foreign.singles.zip bodies) (.error (shortage outcome), rest) ∧
      rest.source = ⟨after⟩ := by
  rw [h.split] at hstarts
  rw [← h.length_eq] at hn
  obtain ⟨last, hsingles, hlast, hrounds⟩ :=
    exists_rounds_of_bodies (Nat.le_of_lt hn) h.length_lt hstarts
  have hne : last.foreign.bits ≠ 0 := by
    intro hzero
    rw [last.foreign.singles_eq_nil_iff.mpr hzero, eq_comm, List.drop_eq_nil_iff] at hsingles
    omega
  obtain ⟨rest, hends, hrest⟩ := exists_ends hne hlast hstops htorn
  exact ⟨rest, hrounds _ hends, hrest⟩

end Bytes

/-! ## The parts of a mask -/

section Mask
variable {mask : UInt32} {input middle start : Input} {timed placed : Scope}

/-- Behind the parts with fields a scope is what comes of the loop. -/
theorem scope_eq_run (hsimulation : simulationPart ⟨mask⟩ .empty input = (.ok timed, middle))
    (hnode : nodePart ⟨mask⟩ timed middle = (.ok placed, start)) :
    Decoder.scope ⟨mask⟩ input = run ⟨⟨mask &&& ~~~0x6⟩, placed, start⟩ := by
  rw [Decoder.scope, bind_ok hsimulation, bind_ok hnode]
  rfl

/-- The loop over the parts of a mask that are not known, where the source behind the other parts
may do anything.  It has one list of rounds and ends.  Their flags are the first ones of those
that are not known, in strictly ascending order, and each round takes two bytes and as many more
as these say.  The loop notes down the flag and the length of each round, and nothing else.  The
bytes that the source starts with have a body for each of the flags or are torn
in a part.  If all bodies are there, every flag has its round, the bytes behind the bodies are
left, and the scope is marked if there was a flag at all.  If the bytes are torn, the loop fails as
the source stops, and has taken all of them. -/
theorem foreign_flags_visited
    (hsimulation : simulationPart ⟨mask⟩ .empty input = (.ok timed, middle))
    (hnode : nodePart ⟨mask⟩ timed middle = (.ok placed, start)) :
    let foreign : ScopeFlags := ⟨mask &&& ~~~0x6⟩
    let count := (mask &&& ~~~0x6).toBitVec.cpop.toNat
    let loop : Passing := ⟨foreign, placed, start⟩
    let answer := Decoder.scope ⟨mask⟩ input
    (foreign.singles.length = count ∧ foreign.singles.Pairwise (fun f g => f.bits < g.bits) ∧
      ∀ flag, flag ∈ foreign.singles ↔
        ∃ i < 32, (mask &&& ~~~0x6).toNat.testBit i = true ∧ flag.bits.toNat = 2 ^ i) ∧
    (∀ before part next, Round before part next → part.2.length < 65536 ∧
      before.input.source.pending = ScopeParts.bodyBytes part.2 ++ next.input.source.pending) ∧
    ∃ parts, loop.Rounds parts answer ∧
      (∀ parts' answer', loop.Rounds parts' answer' → parts' = parts ∧ answer' = answer) ∧
      parts.map Prod.fst <+: foreign.singles ∧
      foreignLoop foreign placed [] start =
        (answer.1, parts.map fun part => (part.1, .ofNat part.2.length), answer.2) ∧
      ∀ bytes tail outcome after, start.source.Starts bytes tail →
        Source.Stops tail outcome after →
        ((∃ bodies left, Bodies count bytes bodies left) ∨
          ∃ k < count, ∃ bodies part, Bodies k bytes bodies part ∧ Torn part) ∧
        (∀ bodies left, Bodies count bytes bodies left →
          parts = foreign.singles.zip bodies ∧ parts.length = count ∧
          bytes.length = (bodies.map fun body => 2 + body.length).sum + left.length ∧
          ∃ marked, answer.1 = .ok marked ∧ answer.2.source.Starts left tail ∧
            (marked.flags.contains .unknown = true ↔ mask &&& ~~~0x6 ≠ 0)) ∧
        ∀ k < count, ∀ bodies part, Bodies k bytes bodies part → Torn part →
          parts = foreign.singles.zip bodies ∧ parts.length = k ∧
          answer.1 = .error (shortage outcome) ∧ answer.2.source = ⟨after⟩ ∧
          (tail = [] → answer.1 = .error .truncated ∧ answer.2.source.pending = []) := by
  intro foreign count loop answer
  have hread : Decoder.scope ⟨mask⟩ input = answer := rfl
  have hanswer : answer = loop.run := scope_eq_run hsimulation hnode
  have hcount : foreign.singles.length = count := foreign.length_singles
  clear_value answer count
  -- There is one list of rounds only, so it is the one that the bytes call for.
  obtain ⟨parts, ended, hparts⟩ := exists_rounds loop
  obtain rfl : answer = ended := hanswer.trans hparts.run_eq
  have hunique : ∀ {parts' answer'}, loop.Rounds parts' answer' →
      parts' = parts ∧ answer' = answer :=
    fun h => ⟨h.unique hparts, h.run_eq.symm.trans hanswer.symm⟩
  refine ⟨⟨hcount, foreign.pairwise_singles, fun _ => ScopeFlags.mem_singles⟩,
    fun _ _ _ h => h.takes, parts, hparts, fun _ _ h => hunique h, hparts.isPrefix,
    hparts.loop_eq [],
    fun bytes tail outcome after hstarts hstops => ⟨bodies_or_torn count bytes, ?_, ?_⟩⟩
  · intro bodies left hbodies
    rw [← hcount] at hbodies
    obtain ⟨marked, rest, hrounds, hrest⟩ := rounds_of_bodies loop hbodies hstarts
    obtain ⟨rfl, hmarked⟩ := hunique hrounds
    obtain ⟨simUs, node, hscope⟩ :=
      yields_scope ⟨mask⟩ input marked rest (hread.trans hmarked.symm)
    refine ⟨rfl, ?_, hbodies.length_bytes, marked, ?_, ?_, ?_⟩
    · rw [List.length_zip, hbodies.length_eq, Nat.min_self, hcount]
    · rw [← hmarked]
    · rw [← hmarked]
      exact hrest
    · rw [hscope, Scope.ofParts, ScopeFlags.contains_unknown_ofParts]
      exact bne_iff_ne
  · intro k hk bodies part hbodies htorn
    have hlt : k < foreign.singles.length := by rwa [hcount]
    obtain ⟨rest, hrounds, hrest⟩ := rounds_of_torn loop hlt hbodies htorn hstarts hstops
    obtain ⟨rfl, hmarked⟩ := hunique hrounds
    rw [← hmarked]
    refine ⟨rfl, ?_, rfl, hrest, ?_⟩
    · rw [List.length_zip, hbodies.length_eq]
      exact Nat.min_eq_right (Nat.le_of_lt hlt)
    · rintro rfl
      cases hstops
      rw [hrest]
      exact ⟨rfl, rfl⟩

/-- A time of the simulation, and parts at the lowest bit, at the highest and at one between.  A
read is interrupted inside the first body.  The last body is there, or the trace ends in it. -/
theorem foreign_flags_visited_at_both_ends :
    let start (last : List UInt8) : Input :=
      ⟨⟨[.bytes [0, 2, 1], .fault ⟨.interrupted, ""⟩, .bytes ([2, 0, 0, 0, 2, 9] ++ last)]⟩, []⟩
    let input (last : List UInt8) : Input :=
      ⟨⟨.bytes [0x40, 0, 0, 0, 0, 0, 0, 0] :: (start last).source.answers⟩, []⟩
    let loop (last : List UInt8) : Passing :=
      ⟨⟨0x80000009⟩, .simulation ⟨0x4000000000000000⟩, start last⟩
    let answer (last : List UInt8) := Decoder.scope ⟨0x8000000b⟩ (input last)
    ((loop [8, 4]).Rounds [(⟨0x1⟩, [1, 2]), (⟨0x8⟩, []), (⟨0x80000000⟩, [9, 8])] (answer [8, 4]) ∧
      (foreignLoop ⟨0x80000009⟩ (loop [8, 4]).scope [] (start [8, 4])).2.1 =
        [(⟨0x1⟩, 2), (⟨0x8⟩, 0), (⟨0x80000000⟩, 2)] ∧
      ∃ marked, (answer [8, 4]).1 = .ok marked ∧ marked.flags.contains .unknown = true ∧
        (answer [8, 4]).2.source.Delivers [4]) ∧
    (loop []).Rounds [(⟨0x1⟩, [1, 2]), (⟨0x8⟩, [])] (answer []) ∧
      (foreignLoop ⟨0x80000009⟩ (loop []).scope [] (start [])).2.1 = [(⟨0x1⟩, 2), (⟨0x8⟩, 0)] ∧
      (answer []).1 = .error .truncated ∧ (answer []).2.source.pending = [] := by
  intro start input loop answer
  have hsimulation : ∀ last, simulationPart ⟨0x8000000b⟩ .empty (input last) =
      (.ok (loop last).scope, start last) := fun _ => rfl
  have hnode : ∀ last, nodePart ⟨0x8000000b⟩ (loop last).scope (start last) =
      (.ok (loop last).scope, start last) := fun _ => rfl
  have hstarts : ∀ last, (start last).source.Starts
      ([0, 2, 1] ++ ([2, 0, 0, 0, 2, 9] ++ last ++ [])) [] := fun _ =>
    Source.Delivers.starts
      (.piece (by decide) <| .interrupted rfl <| .piece (List.cons_ne_nil _ _) .done)
  constructor
  · obtain ⟨-, -, parts, hrounds, -, -, hnotes, hbytes⟩ :=
      foreign_flags_visited (hsimulation [8, 4]) (hnode [8, 4])
    obtain ⟨-, hbodies, -⟩ := hbytes _ _ _ _ (hstarts [8, 4]) .ended
    obtain ⟨hparts, -, -, marked, hmarked, hleft, hunknown⟩ :=
      hbodies [[1, 2], [], [9, 8]] [4] ⟨by decide, by decide, by decide⟩
    have hflags : parts = [(⟨0x1⟩, [1, 2]), (⟨0x8⟩, []), (⟨0x80000000⟩, [9, 8])] := by
      rw [hparts]
      decide
    rw [hflags] at hrounds hnotes
    exact ⟨hrounds, congrArg (·.2.1) hnotes, marked, hmarked, hunknown.mpr (by decide),
      hleft.delivers⟩
  · obtain ⟨-, -, parts, hrounds, -, -, hnotes, hbytes⟩ :=
      foreign_flags_visited (hsimulation []) (hnode [])
    obtain ⟨-, -, htorn⟩ := hbytes _ _ _ _ (hstarts []) .ended
    obtain ⟨hparts, -, -, -, hends⟩ :=
      htorn 2 (by decide) [[1, 2], []] [0, 2, 9] ⟨by decide, by decide, by decide⟩
        (.inr ⟨2, [9], by decide, by decide⟩)
    have hflags : parts = [(⟨0x1⟩, [1, 2]), (⟨0x8⟩, [])] := by
      rw [hparts]
      decide
    rw [hflags] at hrounds hnotes
    exact ⟨hrounds, congrArg (·.2.1) hnotes, hends rfl⟩

end Mask

end Passing

end Decoder

end StateTrace
