import StateTrace.Proofs.Dot.Writing

/-!
# Reading dot text

The way back from dot text to what it says.  `tokens?` cuts a text into tokens, one character
at a time.  Quoted names may hold any character, and within them a backslash is followed by a
quote or by a backslash and by nothing else.  `blocks?` reads the tokens as blocks, each with a
name and its statements, and knows nothing of automata.

A text *reads as* tokens if it does so in front of any other text (`ReadsAs`).  Texts that do
can be put one behind the other (`ReadsAs.append`), so only quoted names need an argument about
characters (`readsAs_quote`), and that needs one about the characters of a name
(`scan_flatMap_escape`).  `blocks?_dot` is the result: the blocks of automata are read back,
whatever the names are.
-/

namespace StateTrace.Dot

/-! ## Tokens -/

/-- A token of dot text. -/
inductive Token where
  /-- A name in quotes, as what it stands for. -/
  | quoted (name : String)
  | word (letters : String)
  | openBlock
  | closeBlock
  | semicolon
  | arrow
deriving DecidableEq, Repr, Inhabited

/-- What the scanner is in the middle of. -/
inductive Scan where
  /-- Between tokens. -/
  | between
  /-- In a word: the letters read, latest first. -/
  | word (read : List Char)
  /-- Behind the dash of an arrow. -/
  | dash
  /-- In quotes: the characters read, latest first. -/
  | quoted (read : List Char)
  /-- Right behind a backslash. -/
  | escape (read : List Char)
deriving DecidableEq, Repr, Inhabited

namespace Scan

/-- The start of a token, or a blank. -/
def start (c : Char) : Option (List Token × Scan) :=
  if c = '"' then some ([], quoted [])
  else if c = '\x7b' then some ([.openBlock], between)
  else if c = '\x7d' then some ([.closeBlock], between)
  else if c = ';' then some ([.semicolon], between)
  else if c = '-' then some ([], dash)
  else if c = ' ' ∨ c = '\n' then some ([], between)
  else if c.isAlpha then some ([], word [c])
  else none

/-- One move of the scanner, and the tokens that it completes.  A word ends at the first
character that is no letter. -/
def step (c : Char) : Scan → Option (List Token × Scan)
  | between => start c
  | word read =>
      if c.isAlpha then some ([], word (c :: read))
      else (start c).map fun (tokens, next) => (.word (String.ofList read.reverse) :: tokens, next)
  | dash => if c = '>' then some ([.arrow], between) else none
  | quoted read =>
      if c = '"' then some ([.quoted (String.ofList read.reverse)], between)
      else if c = '\\' then some ([], escape read)
      else some ([], quoted (c :: read))
  | escape read => if c = '"' ∨ c = '\\' then some ([], quoted (c :: read)) else none

/-- The last tokens at the end of a text. -/
def finish : Scan → Option (List Token)
  | between => some []
  | word read => some [.word (String.ofList read.reverse)]
  | _ => none

end Scan

/-- The tokens of the characters that are left. -/
def scan (state : Scan) : List Char → Option (List Token)
  | [] => state.finish
  | c :: text =>
      match state.step c with
      | some (tokens, next) => (scan next text).map (tokens ++ ·)
      | none => none

/-- The tokens of a text. -/
def tokens? (text : List Char) : Option (List Token) := scan .between text

/-- A name may hold a whole block, and it is one token.  A backslash that escapes nothing is
none. -/
example : tokens? "a -> \"\\\"; \x7d\\\\\"".toList =
      some [.word "a", .arrow, .quoted "\"; \x7d\\"] ∧
    tokens? "\"\\n\"".toList = none := by
  decide +kernel

/-! ## Blocks -/

/-- A statement of a block. -/
inductive Statement where
  | vertex (name : String)
  | edge (source target : String)
deriving DecidableEq, Repr, Inhabited

/-- A block: its name and its statements in order. -/
structure Block where
  name : String
  statements : List Statement
deriving DecidableEq, Repr, Inhabited

/-- Where in a text a token stands. -/
inductive Place where
  | outside
  /-- In a block of this name, after these statements, latest first. -/
  | inside (name : String) (read : List Statement)
deriving DecidableEq, Repr, Inhabited

/-- The blocks of the tokens that are left. -/
def parse : Place → List Token → Option (List Block)
  | .outside, [] => some []
  | .outside, .word "digraph" :: .quoted name :: .openBlock :: tokens =>
      parse (.inside name []) tokens
  | .inside name read, .quoted vertex :: .semicolon :: tokens =>
      parse (.inside name (.vertex vertex :: read)) tokens
  | .inside name read, .quoted source :: .arrow :: .quoted target :: .semicolon :: tokens =>
      parse (.inside name (.edge source target :: read)) tokens
  | .inside name read, .closeBlock :: tokens =>
      (parse .outside tokens).map (⟨name, read.reverse⟩ :: ·)
  | _, _ => none

/-- The blocks that a text consists of, and nothing else in it. -/
def blocks? (text : List Char) : Option (List Block) := (tokens? text).bind (parse .outside)

def Statement.tokens : Statement → List Token
  | vertex name => [.quoted name, .semicolon]
  | edge source target => [.quoted source, .arrow, .quoted target, .semicolon]

def Block.tokens (block : Block) : List Token :=
  [.word "digraph", .quoted block.name, .openBlock] ++
    block.statements.flatMap Statement.tokens ++ [.closeBlock]

section Parse
variable {name : String} {read : List Statement}

theorem parse_statement (statement : Statement) (tokens : List Token) :
    parse (.inside name read) (statement.tokens ++ tokens) =
      parse (.inside name (statement :: read)) tokens := by
  cases statement <;> rfl

theorem parse_statements (statements : List Statement) (tokens : List Token) :
    parse (.inside name read) (statements.flatMap Statement.tokens ++ tokens) =
      parse (.inside name (statements.reverse ++ read)) tokens := by
  induction statements generalizing read with
  | nil => rfl
  | cons statement statements ih =>
      rw [List.flatMap_cons, List.append_assoc, parse_statement, ih, List.reverse_cons,
        List.append_assoc]
      rfl

/-- The tokens of a block are read as the block, whatever follows. -/
theorem parse_block (block : Block) (tokens : List Token) :
    parse .outside (block.tokens ++ tokens) = (parse .outside tokens).map (block :: ·) := by
  have hopen : parse .outside (block.tokens ++ tokens) =
      parse (.inside block.name [])
        (block.statements.flatMap Statement.tokens ++ (.closeBlock :: tokens)) := by
    rw [Block.tokens, List.append_assoc, List.append_assoc]
    rfl
  rw [hopen, parse_statements, List.append_nil, parse, List.reverse_reverse]

theorem parse_blocks (blocks : List Block) :
    parse .outside (blocks.flatMap Block.tokens) = some blocks := by
  induction blocks with
  | nil => rfl
  | cons block blocks ih => rw [List.flatMap_cons, parse_block, ih, Option.map_some]

end Parse

/-! ## Texts and their tokens -/

/-- In front of any text, the text is read as these tokens. -/
def ReadsAs (text : List Char) (tokens : List Token) : Prop :=
  ∀ rest, tokens? (text ++ rest) = (tokens? rest).map (tokens ++ ·)

section ReadsAs
variable {text text' : List Char} {tokens tokens' : List Token}

theorem ReadsAs.tokens? (h : ReadsAs text tokens) : Dot.tokens? text = some tokens := by
  have hnil := h []
  rwa [List.append_nil, Dot.tokens?, Dot.tokens?, scan, Scan.finish, Option.map_some,
    List.append_nil] at hnil

theorem readsAs_nil : ReadsAs [] [] := by
  intro rest
  simp

/-- Texts that stand one behind the other are read one after the other. -/
theorem ReadsAs.append (h : ReadsAs text tokens) (h' : ReadsAs text' tokens') :
    ReadsAs (text ++ text') (tokens ++ tokens') := by
  intro rest
  rw [List.append_assoc, h, h', Option.map_map]
  congr 1
  funext more
  exact (List.append_assoc tokens tokens' more).symm

theorem readsAs_flatMap {α : Type} {write : α → List Char} {read : α → List Token}
    (h : ∀ a, ReadsAs (write a) (read a)) (list : List α) :
    ReadsAs (list.flatMap write) (list.flatMap read) := by
  induction list with
  | nil => exact readsAs_nil
  | cons a list ih =>
      rw [List.flatMap_cons, List.flatMap_cons]
      exact (h a).append ih

end ReadsAs

/-! ### Quoted names -/

/-- An escaped character is read as the character. -/
theorem scan_escape (c : Char) (read text : List Char) :
    scan (.quoted read) (escape c ++ text) = scan (.quoted (c :: read)) text := by
  unfold escape
  split
  · simp [scan, Scan.step]
  · simp [scan, Scan.step]
  · next hquote hbackslash =>
      have hstep : (Scan.quoted read).step c = some ([], .quoted (c :: read)) := by
        rw [Scan.step, if_neg hquote, if_neg hbackslash]
      rw [List.singleton_append, scan, hstep]
      exact congrFun Option.map_id_fun' _

/-- No character of a name ends its quotes. -/
theorem scan_flatMap_escape (name read text : List Char) :
    scan (.quoted read) (name.flatMap escape ++ text) =
      scan (.quoted (name.reverse ++ read)) text := by
  induction name generalizing read with
  | nil => rfl
  | cons c name ih =>
      rw [List.flatMap_cons, List.append_assoc, scan_escape, ih, List.reverse_cons,
        List.append_assoc]
      rfl

theorem readsAs_quote (name : String) : ReadsAs (quote name) [.quoted name] := by
  intro rest
  have hstart : tokens? (quote name ++ rest) =
      scan (.quoted []) (name.toList.flatMap escape ++ '"' :: rest) := by
    simp [quote, tokens?, scan, Scan.step, Scan.start]
  rw [hstart, scan_flatMap_escape]
  simp [tokens?, scan, Scan.step]

/-! ### Statements and blocks -/

theorem readsAs_close : ReadsAs [';', '\n'] [.semicolon] := by
  intro rest
  simp [tokens?, scan, Scan.step, Scan.start]

theorem readsAs_arrow : ReadsAs [' ', '-', '>', ' '] [.arrow] := by
  intro rest
  simp [tokens?, scan, Scan.step, Scan.start, Function.comp_def]

theorem readsAs_digraph : ReadsAs ['d', 'i', 'g', 'r', 'a', 'p', 'h', ' '] [.word "digraph"] := by
  intro rest
  simp [tokens?, scan, Scan.step, Scan.start, Function.comp_def]

theorem readsAs_openBlock : ReadsAs [' ', '\x7b', '\n'] [.openBlock] := by
  intro rest
  simp [tokens?, scan, Scan.step, Scan.start, Function.comp_def]

theorem readsAs_closeBlock : ReadsAs ['\x7d', '\n'] [.closeBlock] := by
  intro rest
  simp [tokens?, scan, Scan.step, Scan.start]

theorem readsAs_vertex (name : String) : ReadsAs (vertex name) (Statement.vertex name).tokens :=
  (readsAs_quote name).append readsAs_close

theorem readsAs_edge (source target : String) :
    ReadsAs (edge source target) (Statement.edge source target).tokens :=
  (((readsAs_quote source).append readsAs_arrow).append (readsAs_quote target)).append readsAs_close

/-- The statements of vertices with their successors: that of the vertex, and then one for
each of its edges. -/
def outline (entries : List (String × List String)) : List Statement :=
  entries.flatMap fun (source, targets) => .vertex source :: targets.map (.edge source)

/-- The states of an automaton with their successors, by name. -/
def entriesOf (names : NameRegistry) (automaton : Automaton) : List (String × List String) :=
  let name := names.stateName automaton.context
  automaton.adjacency.map fun (source, targets) => (name source, targets.map name)

/-- What the block of an automaton says. -/
def Block.ofAutomaton (names : NameRegistry) (automaton : Automaton) : Block where
  name := names.contextName automaton.context
  statements := outline (entriesOf names automaton)

/-- The text of a state is read as the statements of its entry. -/
theorem readsAs_state (names : NameRegistry) (context source : UInt16) (targets : List UInt16) :
    let name := names.stateName context
    ReadsAs (state names context source targets)
      ((Statement.vertex (name source) :: (targets.map name).map (.edge (name source))).flatMap
        Statement.tokens) := by
  intro name
  rw [List.flatMap_cons, List.flatMap_map, List.flatMap_map]
  exact (readsAs_vertex _).append (readsAs_flatMap (fun target => readsAs_edge _ _) targets)

theorem readsAs_block (names : NameRegistry) (automaton : Automaton) :
    ReadsAs (digraph names automaton) (Block.ofAutomaton names automaton).tokens := by
  have hstates := readsAs_flatMap (fun entry : UInt16 × List UInt16 =>
    readsAs_state names automaton.context entry.1 entry.2) automaton.adjacency
  have hopen := (readsAs_digraph.append (readsAs_quote (names.contextName automaton.context))).append
    readsAs_openBlock
  have hblock := (hopen.append hstates).append readsAs_closeBlock
  rw [Block.tokens, Block.ofAutomaton, outline, entriesOf, List.flatMap_map, List.flatMap_assoc]
  exact hblock

/-- The text of automata is read as their blocks, whatever the names are. -/
theorem blocks?_dot (names : NameRegistry) (automata : Automata) :
    blocks? (automata.dot names) = some (automata.contexts.map (Block.ofAutomaton names)) := by
  have hreads := readsAs_flatMap (readsAs_block names) automata.contexts
  rw [blocks?, Automata.dot, hreads.tokens?, Option.bind_some, ← List.flatMap_map, parse_blocks]

end StateTrace.Dot
