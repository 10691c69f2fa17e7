import StateTrace.Proofs.Json.Grammar

/-!
# Reading JSON

Every text of the grammar is read, and as the value that it is written for (`Written.ofText?`).

The scanner and the machine are dealt with one after the other.  A text *reads as* tokens if it does
so in front of any text that would end a number (`ReadsAs`).  Tokens *parse as* a phrase if the
machine takes them for it in front of any other tokens, whatever frames are open (`ParsesAs`).
`Written.exists_tokens` goes through the productions of the grammar and gives both for each.
-/

namespace StateTrace.Json

/-! ## Texts and their tokens -/

/-- No number goes on with this text. -/
def EndsNumber (rest : List Char) : Prop :=
  ∀ c ∈ rest.head?, c.isDigit = false ∧ c ≠ '.' ∧ c ≠ 'e' ∧ c ≠ 'E'

/-- In front of any text that ends a number, the text is read as these tokens. -/
def ReadsAs (w : List Char) (tokens : List Token) : Prop :=
  ∀ (read : List Token) rest, EndsNumber rest →
    scan read.toArray .between (w ++ rest) = scan (read ++ tokens).toArray .between rest

section ReadsAs
variable {v w rest : List Char} {c : Char} {tokens more : List Token} {token : Token}

theorem endsNumber_nil : EndsNumber [] := fun _ h => nomatch h

theorem endsNumber_blanks (h : Blanks w) (hrest : EndsNumber rest) : EndsNumber (w ++ rest) := by
  cases w with
  | nil => exact hrest
  | cons c w =>
      have hc := h c List.mem_cons_self
      simp only [isBlank, Bool.or_eq_true, decide_eq_true_eq] at hc
      rintro _ ⟨⟩
      rcases hc with ((rfl | rfl) | rfl) | rfl <;> decide

theorem endsNumber_punctuation (h : punctuation? c = some token) : EndsNumber (c :: rest) := by
  rintro _ ⟨⟩
  unfold punctuation? at h
  split at h <;> cases h <;> decide

theorem ReadsAs.tokens? (h : ReadsAs w tokens) : Json.tokens? w = some tokens := by
  have hscan := h [] [] endsNumber_nil
  rw [List.append_nil] at hscan
  rw [Json.tokens?, hscan]
  simp [scan, Scan.finish]

theorem readsAs_nil : ReadsAs [] [] := by
  intro read rest _
  simp

/-- Blanks leave nothing. -/
theorem scan_blanks (h : Blanks w) (read : Array Token) (rest : List Char) :
    scan read .between (w ++ rest) = scan read .between rest := by
  induction w with
  | nil => rfl
  | cons c w ih =>
      have hstart : Scan.start read c = some (.between, read) := if_pos (h c List.mem_cons_self)
      rw [List.cons_append, scan, Scan.step, hstart]
      exact ih fun d hd => h d (List.mem_cons_of_mem c hd)

theorem readsAs_blanks (h : Blanks w) : ReadsAs w [] := by
  intro read rest _
  rw [scan_blanks h, List.append_nil]

theorem ReadsAs.between_blanks (hv : Blanks v) (h : ReadsAs w tokens) {after : List Char}
    (hafter : Blanks after) : ReadsAs (v ++ (w ++ after)) tokens := by
  intro read rest hrest
  rw [List.append_assoc, List.append_assoc, scan_blanks hv, h _ _ (endsNumber_blanks hafter hrest),
    scan_blanks hafter]

theorem start_punctuation (h : punctuation? c = some token) (read : Array Token) :
    Scan.start read c = some (.between, read.push token) := by
  unfold punctuation? at h
  split at h <;> cases h <;> rfl

/-- A punctuation character is a token between others. -/
theorem ReadsAs.punctuation (hv : ReadsAs v tokens) (hc : punctuation? c = some token)
    (hw : ReadsAs w more) : ReadsAs (v ++ c :: w) (tokens ++ token :: more) := by
  intro read rest hrest
  rw [List.append_assoc, List.cons_append, hv _ _ (endsNumber_punctuation hc), scan, Scan.step,
    start_punctuation hc, List.push_toArray]
  show scan (read ++ tokens ++ [token]).toArray .between (w ++ rest) = _
  rw [hw _ rest hrest, List.append_assoc, List.append_assoc, List.singleton_append]

end ReadsAs

/-! ### Words -/

section Word
variable {w : List Char} {c : Char} {token : Token}

/-- The letters of a word are read one after the other. -/
theorem scan_word (hne : w ≠ []) (token : Token) (read : Array Token) (rest : List Char) :
    scan read (.word w token) (w ++ rest) = scan (read.push token) .between rest := by
  induction w with
  | nil => exact absurd rfl hne
  | cons d w ih =>
      cases w with
      | nil => simp [scan, Scan.step]
      | cons e w => simpa [scan, Scan.step] using ih (List.cons_ne_nil e w)

theorem start_word (h : word? c = some (w, token)) (read : Array Token) :
    Scan.start read c = some (.word w token, read) := by
  unfold word? at h
  split at h <;> cases h <;> rfl

theorem word?_ne_nil (h : word? c = some (w, token)) : w ≠ [] := by
  unfold word? at h
  split at h <;> cases h <;> exact List.cons_ne_nil _ _

theorem readsAs_word (h : word? c = some (w, token)) : ReadsAs (c :: w) [token] := by
  intro read rest _
  rw [List.cons_append, scan, Scan.step, start_word h]
  show scan read.toArray (.word w token) (w ++ rest) = _
  rw [scan_word (word?_ne_nil h), List.push_toArray]

end Word

/-! ### Numbers -/

namespace NumberPart

/-- The part of a number that is reached after more characters of it. -/
def run? (part : NumberPart) (w : List Char) : Option NumberPart := w.foldlM next? part

/-- Digits lead from one part of a number to another. -/
def LeadsTo (part next : NumberPart) : Prop :=
  ∀ c : Char, c.isDigit = true → part.next? c = some next

theorem integer_leadsTo : integer.LeadsTo integer := fun c hc => by simp [next?, hc]

theorem point_leadsTo : point.LeadsTo fraction := fun c hc => by simp [next?, hc]

theorem fraction_leadsTo : fraction.LeadsTo fraction := fun c hc => by simp [next?, hc]

theorem mark_leadsTo : mark.LeadsTo exponent := by
  intro c hc
  have hplus : c ≠ '+' := by
    rintro rfl
    cases hc
  have hminus : c ≠ '-' := by
    rintro rfl
    cases hc
  simp [next?, hc, hplus, hminus]

theorem exponentSign_leadsTo : exponentSign.LeadsTo exponent := fun c hc => by simp [next?, hc]

theorem exponent_leadsTo : exponent.LeadsTo exponent := fun c hc => by simp [next?, hc]

end NumberPart

section Number
variable {part next last : NumberPart} {v w : List Char} {c : Char}

theorem run?_cons : part.run? (c :: w) = (part.next? c).bind (·.run? w) := List.foldlM_cons

theorem run?_append (hv : part.run? v = some next) (hw : next.run? w = some last) :
    part.run? (v ++ w) = some last := by
  rw [NumberPart.run?, List.foldlM_append]
  exact (congrArg (· >>= _) hv).trans hw

theorem run?_of_leadsTo_self (hpart : part.LeadsTo part) (hw : AllDigits w) :
    part.run? w = some part := by
  induction w with
  | nil => rfl
  | cons c w ih =>
      rw [run?_cons, hpart c (hw c List.mem_cons_self)]
      exact ih fun d hd => hw d (List.mem_cons_of_mem c hd)

/-- Digits lead into a part and stay there. -/
theorem run?_of_leadsTo (hpart : part.LeadsTo next) (hnext : next.LeadsTo next) (hne : w ≠ [])
    (hw : AllDigits w) : part.run? w = some next := by
  cases w with
  | nil => exact absurd rfl hne
  | cons c w =>
      rw [run?_cons, hpart c (hw c List.mem_cons_self)]
      exact run?_of_leadsTo_self hnext fun d hd => hw d (List.mem_cons_of_mem c hd)

theorem Integral.exists_run? (h : Integral w) :
    ∃ c rest part last, w = c :: rest ∧ NumberPart.start? c = some part ∧
      NumberPart.sign.next? c = some part ∧ part.run? rest = some last ∧
      (last = .zero ∨ last = .integer) := by
  cases h with
  | zero => exact ⟨'0', [], .zero, .zero, rfl, rfl, rfl, rfl, .inl rfl⟩
  | @digits c w hc hne hw =>
      have hsign : c ≠ '-' := by
        rintro rfl
        cases hc
      have hrest := run?_of_leadsTo_self NumberPart.integer_leadsTo hw
      refine ⟨c, w, .integer, .integer, rfl, ?_, ?_, hrest, .inr rfl⟩
      · simp [NumberPart.start?, hsign, hne, hc]
      · simp [NumberPart.next?, hne, hc]

theorem Fraction.exists_run? (h : Fraction w) (hpart : part = .zero ∨ part = .integer) :
    ∃ last, part.run? w = some last ∧ (last = .zero ∨ last = .integer ∨ last = .fraction) := by
  cases h with
  | none => exact ⟨part, rfl, hpart.imp_right .inl⟩
  | point hne hw =>
      have hpoint : part.next? '.' = some .point := by
        rcases hpart with rfl | rfl <;> rfl
      refine ⟨.fraction, ?_, .inr (.inr rfl)⟩
      rw [run?_cons, hpoint]
      exact run?_of_leadsTo NumberPart.point_leadsTo NumberPart.fraction_leadsTo hne hw

theorem Exponent.exists_run? (h : Exponent w)
    (hpart : part = .zero ∨ part = .integer ∨ part = .fraction) :
    ∃ last, part.run? w = some last ∧ last.complete = true := by
  cases h with
  | none =>
      refine ⟨part, rfl, ?_⟩
      rcases hpart with rfl | rfl | rfl <;> rfl
  | @mark letter sign w hletter hsign hne hw =>
      have hletter : part.next? letter = some .mark := by
        rcases hpart with rfl | rfl | rfl <;> rcases hletter with rfl | rfl <;> rfl
      have hsigned :=
        run?_of_leadsTo NumberPart.exponentSign_leadsTo NumberPart.exponent_leadsTo hne hw
      refine ⟨.exponent, ?_, rfl⟩
      rw [run?_cons, hletter]
      rcases hsign with rfl | rfl | rfl
      · exact run?_of_leadsTo NumberPart.mark_leadsTo NumberPart.exponent_leadsTo hne hw
      · exact hsigned
      · exact hsigned

/-- A numeral starts like a number and is complete at its end. -/
theorem Numeral.exists_run? (h : Numeral w) :
    ∃ c rest part last, w = c :: rest ∧ NumberPart.start? c = some part ∧
      part.run? rest = some last ∧ last.complete = true := by
  cases h with
  | @mk sign integral fraction exponent hsign hintegral hfraction hexponent =>
      obtain ⟨c, rest, first, whole, rfl, hstart, hnext, hwhole, hends⟩ := hintegral.exists_run?
      obtain ⟨behind, hbehind, hends⟩ := hfraction.exists_run? hends
      obtain ⟨last, hlast, hcomplete⟩ := hexponent.exists_run? hends
      have hrun := run?_append hwhole (run?_append hbehind hlast)
      rcases hsign with rfl | rfl
      · exact ⟨c, _, first, last, rfl, hstart, hrun, hcomplete⟩
      · refine ⟨'-', _, .sign, last, rfl, rfl, ?_, hcomplete⟩
        show NumberPart.sign.run? (c :: (rest ++ (fraction ++ exponent))) = some last
        rw [run?_cons, hnext]
        exact hrun

theorem scan_number (h : part.run? w = some last) (read : Array Token) (digits rest : List Char) :
    scan read (.number part digits) (w ++ rest) =
      scan read (.number last (w.reverse ++ digits)) rest := by
  induction w generalizing part digits with
  | nil =>
      cases h
      rfl
  | cons c w ih =>
      rw [run?_cons] at h
      obtain ⟨next, hnext, hw⟩ := Option.bind_eq_some_iff.mp h
      rw [List.cons_append, scan, Scan.step, hnext, List.reverse_cons, List.append_assoc]
      exact ih hw (c :: digits)

theorem next?_eq_none (hcomplete : part.complete = true)
    (hc : c.isDigit = false ∧ c ≠ '.' ∧ c ≠ 'e' ∧ c ≠ 'E') : part.next? c = none := by
  obtain ⟨hdigit, hpoint, he, hE⟩ := hc
  cases part <;> simp_all [NumberPart.next?, NumberPart.complete]

/-- A complete number is a token as soon as it does not go on. -/
theorem scan_number_end (hcomplete : last.complete = true) (read : Array Token)
    (digits : List Char) {rest : List Char} (hrest : EndsNumber rest) :
    scan read (.number last digits) rest =
      scan (read.push (.number digits.reverse)) .between rest := by
  cases rest with
  | nil => simp [scan, Scan.finish, hcomplete]
  | cons c rest =>
      have hnext := next?_eq_none hcomplete (hrest c rfl)
      simp only [scan, Scan.step, hnext, hcomplete, if_true]

theorem start_number (h : NumberPart.start? c = some part) (read : Array Token) :
    Scan.start read c = some (.number part [c], read) := by
  have hne : ∀ d, NumberPart.start? d = none → c ≠ d := by
    rintro d hd rfl
    rw [hd] at h
    cases h
  have hblank : isBlank c = false := by
    simp [isBlank, hne ' ' rfl, hne '\t' rfl, hne '\n' rfl, hne '\r' rfl]
  have hquote := hne '"' rfl
  have hpunctuation : punctuation? c = none := by
    unfold punctuation?
    split <;> first | rfl | exact absurd rfl (hne _ rfl)
  have hword : word? c = none := by
    unfold word?
    split <;> first | rfl | exact absurd rfl (hne _ rfl)
  simp [Scan.start, hblank, hquote, hpunctuation, hword, h]

theorem readsAs_number (h : Numeral w) : ReadsAs w [.number w] := by
  intro read rest hrest
  obtain ⟨c, w, part, last, rfl, hstart, hrun, hcomplete⟩ := h.exists_run?
  rw [List.cons_append, scan, Scan.step, start_number hstart]
  show scan read.toArray (.number part [c]) (w ++ rest) = _
  rw [scan_number hrun, scan_number_end hcomplete _ _ hrest, List.push_toArray,
    List.reverse_append, List.reverse_reverse]
  rfl

end Number

/-! ### Strings -/

section String
variable {piece : Piece} {text : Text} {v w : List Char}

theorem scan_piece (h : WrittenPiece piece v) (read : Array Token) (pieces : Text)
    (rest : List Char) :
    scan read (.string pieces) (v ++ rest) = scan read (.string (piece :: pieces)) rest := by
  cases h with
  | @plain c h =>
      simp only [isPlain, Bool.and_eq_true, decide_eq_true_eq, bne_iff_ne] at h
      obtain ⟨⟨hcontrol, hquote⟩, hslash⟩ := h
      simp [scan, Scan.step, hquote, hslash, Char.not_lt.mpr hcontrol]
  | @escaped letter c h =>
      have hunit : letter ≠ 'u' := by
        rintro rfl
        cases h
      simp [scan, Scan.step, hunit, h]
  | unit ha hb hc hd => simp [scan, Scan.step, ha, hb, hc, hd]

theorem scan_text (h : WrittenText text w) (read : Array Token) (pieces : Text)
    (rest : List Char) :
    scan read (.string pieces) (w ++ rest) = scan read (.string (text.reverse ++ pieces)) rest := by
  induction h generalizing pieces with
  | nil => rfl
  | cons hpiece _ ih =>
      rw [List.append_assoc, scan_piece hpiece, ih, List.reverse_cons, List.append_assoc]
      rfl

theorem readsAs_string (h : WrittenText text w) :
    ReadsAs ('"' :: (w ++ ['"'])) [.string text] := by
  intro read rest _
  have hstart : Scan.start read.toArray '"' = some (.string [], read.toArray) := rfl
  rw [List.cons_append, scan, Scan.step, hstart]
  show scan read.toArray (.string []) (w ++ ['"'] ++ rest) = _
  rw [List.append_assoc, scan_text h]
  simp [scan, Scan.step]

end String

/-! ## Tokens and their values -/

/-- A value may start here. -/
def Need.TakesValue (need : Need) : Prop := need = .value ∨ need = .itemOrEnd

/-- A key may come here, after these members. -/
def Need.TakesKey (need : Need) (members : List (Text × Value)) : Prop :=
  need = .key members ∨ members = [] ∧ need = .keyOrEnd

/-- In front of any other tokens, and whatever frames are open, the machine takes the tokens for the
phrase.  Where a phrase has no end of its own, the end of its array or object comes next. -/
def ParsesAs (tokens : List Token) : Phrase → Prop
  | .value value | .element value =>
      ∀ frames need rest, need.TakesValue →
        Parse.run ⟨frames, need⟩ (tokens ++ rest) = Parse.run ⟨frames, .separator value⟩ rest
  | .elements items =>
      ∀ frames before need rest, need.TakesValue →
        Parse.run ⟨.array before :: frames, need⟩ (tokens ++ .closeArray :: rest) =
          Parse.run ⟨frames, .separator (.array (before.reverse ++ items))⟩ rest
  | .member key value =>
      ∀ frames before need rest, need.TakesKey before →
        Parse.run ⟨frames, need⟩ (tokens ++ rest) =
          Parse.run ⟨.object before key :: frames, .separator value⟩ rest
  | .members members =>
      ∀ frames before need rest, need.TakesKey before →
        Parse.run ⟨frames, need⟩ (tokens ++ .closeObject :: rest) =
          Parse.run ⟨frames, .separator (.object (before.reverse ++ members))⟩ rest

section ParsesAs
variable {tokens more : List Token} {token : Token} {value : Value} {items : List Value}
  {key : Text} {members : List (Text × Value)}

/-- A value of one token. -/
theorem parsesAs_token
    (h : ∀ frames, Parse.stepValue frames token = some ⟨frames, .separator value⟩) :
    ParsesAs [token] (.value value) := by
  intro frames need rest hneed
  have hstep : Parse.step ⟨frames, need⟩ token = some ⟨frames, .separator value⟩ := by
    rcases hneed with rfl | rfl
    · exact h frames
    · cases token <;> first | exact h frames | cases h []
  rw [List.singleton_append, Parse.run, hstep]

theorem parsesAs_emptyArray : ParsesAs [.openArray, .closeArray] (.value (.array [])) := by
  intro frames need rest hneed
  rcases hneed with rfl | rfl <;> rfl

theorem parsesAs_array (h : ParsesAs tokens (.elements items)) :
    ParsesAs (.openArray :: (tokens ++ [.closeArray])) (.value (.array items)) := by
  intro frames need rest hneed
  have hitems := h frames [] .itemOrEnd rest (.inr rfl)
  rw [List.cons_append, List.append_assoc, List.singleton_append]
  rcases hneed with rfl | rfl <;> exact hitems

theorem parsesAs_emptyObject : ParsesAs [.openObject, .closeObject] (.value (.object [])) := by
  intro frames need rest hneed
  rcases hneed with rfl | rfl <;> rfl

theorem parsesAs_object (h : ParsesAs tokens (.members members)) :
    ParsesAs (.openObject :: (tokens ++ [.closeObject])) (.value (.object members)) := by
  intro frames need rest hneed
  have hmembers := h frames [] .keyOrEnd rest (.inr ⟨rfl, rfl⟩)
  rw [List.cons_append, List.append_assoc, List.singleton_append]
  rcases hneed with rfl | rfl <;> exact hmembers

theorem parsesAs_lastElement (h : ParsesAs tokens (.element value)) :
    ParsesAs tokens (.elements [value]) := by
  intro frames before need rest hneed
  rw [h _ _ _ hneed, ← List.reverse_cons]
  rfl

theorem parsesAs_elements (h : ParsesAs tokens (.element value))
    (hitems : ParsesAs more (.elements items)) :
    ParsesAs (tokens ++ .comma :: more) (.elements (value :: items)) := by
  intro frames before need rest hneed
  have hrest := hitems frames (value :: before) .value rest (.inl rfl)
  rw [List.reverse_cons, List.append_assoc] at hrest
  rw [List.append_assoc, h _ _ _ hneed]
  exact hrest

theorem parsesAs_member (h : ParsesAs tokens (.element value)) :
    ParsesAs (.string key :: .colon :: tokens) (.member key value) := by
  intro frames before need rest hneed
  have hvalue := h (.object before key :: frames) .value rest (.inl rfl)
  rcases hneed with rfl | ⟨rfl, rfl⟩ <;> exact hvalue

theorem parsesAs_lastMember (h : ParsesAs tokens (.member key value)) :
    ParsesAs tokens (.members [(key, value)]) := by
  intro frames before need rest hneed
  rw [h _ _ _ _ hneed, ← List.reverse_cons]
  rfl

theorem parsesAs_members (h : ParsesAs tokens (.member key value))
    (hmembers : ParsesAs more (.members members)) :
    ParsesAs (tokens ++ .comma :: more) (.members ((key, value) :: members)) := by
  intro frames before need rest hneed
  have hrest := hmembers frames ((key, value) :: before) (.key ((key, value) :: before)) rest
    (.inl rfl)
  rw [List.reverse_cons, List.append_assoc] at hrest
  rw [List.append_assoc, h _ _ _ _ hneed]
  exact hrest

end ParsesAs

/-! ## Texts and their values -/

/-- The text of a phrase has tokens, and they are those of the phrase. -/
theorem Written.exists_tokens {phrase : Phrase} {w : List Char} (h : Written phrase w) :
    ∃ tokens, ReadsAs w tokens ∧ ParsesAs tokens phrase := by
  induction h with
  | null => exact ⟨[.null], readsAs_word rfl, parsesAs_token fun _ => rfl⟩
  | wordTrue => exact ⟨[.bool true], readsAs_word rfl, parsesAs_token fun _ => rfl⟩
  | wordFalse => exact ⟨[.bool false], readsAs_word rfl, parsesAs_token fun _ => rfl⟩
  | number hw => exact ⟨_, readsAs_number hw, parsesAs_token fun _ => rfl⟩
  | string htext => exact ⟨_, readsAs_string htext, parsesAs_token fun _ => rfl⟩
  | emptyArray hblanks =>
      have hclose := (readsAs_blanks hblanks).punctuation (c := ']') rfl readsAs_nil
      exact ⟨_, readsAs_nil.punctuation rfl hclose, parsesAs_emptyArray⟩
  | array _ ih =>
      obtain ⟨tokens, hreads, hparses⟩ := ih
      have hclose := hreads.punctuation (c := ']') rfl readsAs_nil
      exact ⟨_, readsAs_nil.punctuation rfl hclose, parsesAs_array hparses⟩
  | emptyObject hblanks =>
      have hclose := (readsAs_blanks hblanks).punctuation (c := '\x7d') rfl readsAs_nil
      exact ⟨_, readsAs_nil.punctuation rfl hclose, parsesAs_emptyObject⟩
  | object _ ih =>
      obtain ⟨tokens, hreads, hparses⟩ := ih
      have hclose := hreads.punctuation (c := '\x7d') rfl readsAs_nil
      exact ⟨_, readsAs_nil.punctuation rfl hclose, parsesAs_object hparses⟩
  | element hbefore _ hafter ih =>
      obtain ⟨tokens, hreads, hparses⟩ := ih
      exact ⟨tokens, hreads.between_blanks hbefore hafter, hparses⟩
  | lastElement _ ih =>
      obtain ⟨tokens, hreads, hparses⟩ := ih
      exact ⟨tokens, hreads, parsesAs_lastElement hparses⟩
  | elements _ _ ih ihitems =>
      obtain ⟨tokens, hreads, hparses⟩ := ih
      obtain ⟨more, hmore, hitems⟩ := ihitems
      exact ⟨_, hreads.punctuation rfl hmore, parsesAs_elements hparses hitems⟩
  | member hbefore hkey hafter _ ih =>
      obtain ⟨tokens, hreads, hparses⟩ := ih
      have hkey := (readsAs_string hkey).between_blanks hbefore hafter
      exact ⟨_, hkey.punctuation rfl hreads, parsesAs_member hparses⟩
  | lastMember _ ih =>
      obtain ⟨tokens, hreads, hparses⟩ := ih
      exact ⟨tokens, hreads, parsesAs_lastMember hparses⟩
  | members _ _ ih ihmembers =>
      obtain ⟨tokens, hreads, hparses⟩ := ih
      obtain ⟨more, hmore, hmembers⟩ := ihmembers
      exact ⟨_, hreads.punctuation rfl hmore, parsesAs_members hparses hmembers⟩

/-- A document is read as the value that it is written for. -/
theorem Written.ofText? {value : Value} {text : String}
    (h : Written (.element value) text.toList) : Value.ofText? text = some value := by
  obtain ⟨tokens, hreads, hparses⟩ := h.exists_tokens
  have hvalue := hparses [] .value [] (.inl rfl)
  rw [List.append_nil] at hvalue
  rw [Value.ofText?, hreads.tokens?]
  exact hvalue

/-! ## Strings and what they stand for -/

namespace Text

theorem StandsFor.decodeOnto {text : Text} {s : List Char} (h : text.StandsFor s)
    (read : List Char) : text.decodeOnto read = some (read.reverse ++ s) := by
  induction h generalizing read with
  | nil => simp [Text.decodeOnto]
  | plain _ ih => simp [Text.decodeOnto, ih]
  | escaped _ ih => simp [Text.decodeOnto, ih]
  | @unit code text s hleading htrailing _ ih =>
      have hrest : Text.decodeOnto read (.unit code :: text) =
          text.decodeOnto (Char.ofNat code :: read) := by
        rcases text with _ | ⟨_ | _ | _, text⟩ <;> simp [Text.decodeOnto, hleading, htrailing]
      rw [hrest, ih, List.reverse_cons, List.append_assoc]
      rfl
  | halves hleading htrailing _ ih => simp [Text.decodeOnto, hleading, htrailing, ih]

theorem exists_standsFor {read : List Char} {text : Text} {s : List Char}
    (h : text.decodeOnto read = some s) : ∃ t, text.StandsFor t ∧ s = read.reverse ++ t := by
  -- In the cases 5, 6 and 8 there is half a character.
  fun_induction Text.decodeOnto read text with
  | case1 read =>
      cases h
      exact ⟨[], .nil, (List.append_nil _).symm⟩
  | case2 read c text ih =>
      obtain ⟨t, ht, rfl⟩ := ih h
      exact ⟨_, .plain ht, by simp⟩
  | case3 read c text ih =>
      obtain ⟨t, ht, rfl⟩ := ih h
      exact ⟨_, .escaped ht, by simp⟩
  | case4 read leading trailing text hleading htrailing ih =>
      obtain ⟨t, ht, rfl⟩ := ih h
      exact ⟨_, .halves hleading htrailing ht, by simp⟩
  | case5 => cases h
  | case6 => cases h
  | case7 read code next text hleading htrailing ih =>
      obtain ⟨t, ht, rfl⟩ := ih h
      simp only [Bool.not_eq_true] at hleading htrailing
      exact ⟨_, .unit hleading htrailing ht, by simp⟩
  | case8 => cases h
  | case9 read code text _ hhalf ih =>
      obtain ⟨t, ht, rfl⟩ := ih h
      simp only [Bool.or_eq_true, not_or, Bool.not_eq_true] at hhalf
      exact ⟨_, .unit hhalf.1 hhalf.2 ht, by simp⟩

theorem standsFor_iff {text : Text} {s : List Char} :
    text.StandsFor s ↔ text.decodeOnto [] = some s := by
  constructor
  · intro h
    exact h.decodeOnto []
  · intro h
    obtain ⟨t, ht, rfl⟩ := exists_standsFor h
    exact ht

theorem StandsFor.unique {text : Text} {s t : List Char} (hs : text.StandsFor s)
    (ht : text.StandsFor t) : s = t :=
  Option.some.inj ((standsFor_iff.mp hs).symm.trans (standsFor_iff.mp ht))

instance (text : Text) (s : List Char) : Decidable (text.StandsFor s) :=
  decidable_of_iff _ standsFor_iff.symm

/-- A text is decoded to the string that it stands for. -/
theorem decode?_eq_some_iff {text : Text} {s : String} :
    text.decode? = some s ↔ text.StandsFor s.toList := by
  rw [decode?, Option.map_eq_some_iff, standsFor_iff]
  constructor
  · rintro ⟨t, ht, rfl⟩
    rwa [String.toList_ofList]
  · intro h
    exact ⟨s.toList, h, String.ofList_toList⟩

theorem standsFor_plain (s : List Char) : StandsFor (s.map .plain) s := by
  induction s with
  | nil => exact .nil
  | cons c s ih => exact .plain ih

end Text

end StateTrace.Json
