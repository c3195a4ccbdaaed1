import ManifestPolicy.Manifest.Entry

/-!
# The grammar of statements

The reader of statements goes line by line and remembers where it is. Here the same
language is described by its productions: a block with all its lines is derived in one
step, and every derivation starts outside blocks.

`statementsFrom_eq_ok_iff` says that the reader accepts exactly the lines that have a
derivation, with the statements of that derivation. What every manifest satisfies is then
proved by induction on derivations, with one case for each production.

## Main definitions

* `TokenLine.Plain`, `TokenLine.Opens`, `TokenLine.OpensAndCloses`, `TokenLine.Closes`: the
  lines that the productions distinguish.
* `Mode.Step`: what a line does.
* `Body`: the lines of a block, up to its closing line.
* `Layout`: the lines of a manifest.
-/

namespace ManifestPolicy

/-- Two steps succeed where the first does and the second does on its result. -/
theorem bind_eq_ok_iff {ε α β : Type} {x : Except ε α} {f : α → Except ε β} {b : β} :
    (x >>= f) = .ok b ↔ ∃ a, x = .ok a ∧ f a = .ok b := by
  cases x with
  | error e => simp [bind, Except.bind]
  | ok a => simp [bind, Except.bind]

/-- Two steps fail where the first does, or where the second does on its result. -/
theorem bind_eq_error_iff {ε α β : Type} {x : Except ε α} {f : α → Except ε β} {e : ε} :
    (x >>= f) = .error e ↔ x = .error e ∨ ∃ a, x = .ok a ∧ f a = .error e := by
  cases x with
  | error e' => simp [bind, Except.bind]
  | ok a => simp [bind, Except.bind]

theorem pure_eq_ok_iff {ε α : Type} {a b : α} :
    (pure a : Except ε α) = .ok b ↔ a = b := by
  simp [pure, Except.pure]

theorem exists_eq_ok {ε α : Type} {x : Except ε α} (h : x.isOk = true) : ∃ a, x = .ok a := by
  cases x with
  | error e => simp [Except.isOk, Except.toBool] at h
  | ok a => exact ⟨a, rfl⟩

theorem toOption_eq_some_iff {ε α : Type} {x : Except ε α} {a : α} :
    x.toOption = some a ↔ x = .ok a := by
  cases x with
  | error e => simp [Except.toOption]
  | ok b => simp [Except.toOption]

namespace Manifest

/-! ## Lines by their parentheses -/

/-- No token of the line is a parenthesis. -/
def TokenLine.Plain (l : TokenLine) : Prop := ∀ t ∈ l.tokens, t.isParen = false

/-- The line is a word and an opening parenthesis. -/
structure TokenLine.Opens (l : TokenLine) (paren : Token) : Prop where
  rest : l.rest = [paren]
  verb : l.first.isParen = false
  paren : paren.text = openingParen

/-- The line is a word and two parentheses. -/
structure TokenLine.OpensAndCloses (l : TokenLine) (paren closing : Token) : Prop where
  rest : l.rest = [paren, closing]
  verb : l.first.isParen = false
  paren : paren.text = openingParen
  closing : closing.text = closingParen

/-- The line is a closing parenthesis. -/
structure TokenLine.Closes (l : TokenLine) : Prop where
  first : l.first.text = closingParen
  rest : l.rest = []

/-- The statement or the child that a line forms, with the comments above it. -/
def TokenLine.toLine (l : TokenLine) (above : List Comment) (inBlock : Bool) : Line :=
  ⟨l.first.start, l.last.stop, l.tokens.map Token.text, ⟨above, l.suffix⟩, inBlock⟩

/-- The block between an opening and a closing line. -/
def TokenLine.toBlock (header : TokenLine) (above : List Comment) (children : List Line)
    (left : List Comment) (closing : TokenLine) : Block :=
  ⟨header.first.start, closing.first.stop, [header.first.text], children,
    ⟨above, header.suffix⟩, ⟨left, closing.suffix⟩⟩

/-- The block that a line opens and closes. -/
def TokenLine.toEmptyBlock (header : TokenLine) (above : List Comment) (closing : Token) :
    Block :=
  ⟨header.first.start, closing.stop, [header.first.text], [], ⟨above, header.suffix⟩, {}⟩

theorem rejectParens_eq_ok_iff {tokens : List Token} {u : Unit} :
    rejectParens tokens = .ok u ↔ ∀ t ∈ tokens, t.isParen = false := by
  rw [rejectParens]
  cases h : tokens.find? Token.isParen with
  | none => simpa using h
  | some t =>
    have hmem := List.mem_of_find?_eq_some h
    have hparen := List.find?_some h
    simp only [reduceCtorEq, false_iff]
    intro hnone
    rw [hnone t hmem] at hparen
    exact absurd hparen (by simp)

theorem lineOf_eq_ok_iff {l : TokenLine} {above : List Comment} {inBlock : Bool} {x : Line} :
    lineOf l above inBlock = .ok x ↔ l.Plain ∧ x = l.toLine above inBlock := by
  rw [lineOf, bind_eq_ok_iff]
  simp only [pure_eq_ok_iff, rejectParens_eq_ok_iff]
  rw [TokenLine.Plain, TokenLine.toLine, @eq_comm _ x]
  exact ⟨fun ⟨_, h⟩ => h, fun h => ⟨(), h⟩⟩

theorem blockVerb_eq_ok_iff {l : TokenLine} {verb : List Token} {v : Text} :
    blockVerb l verb = .ok v ↔ ∃ t, verb = [t] ∧ t.isParen = false ∧ v = t.text := by
  cases verb with
  | nil => simp [blockVerb]
  | cons t rest =>
    cases rest with
    | nil =>
      rw [blockVerb, bind_eq_ok_iff]
      simp only [pure_eq_ok_iff, rejectParens_eq_ok_iff, List.mem_singleton, forall_eq]
      constructor
      · rintro ⟨-, ht, rfl⟩
        exact ⟨t, rfl, ht, rfl⟩
      · rintro ⟨u, hu, ht, rfl⟩
        rw [List.cons.injEq] at hu
        exact ⟨(), hu.1 ▸ ht, by rw [hu.1]⟩
    | cons u rest => simp [blockVerb]

theorem closingParen_ne_openingParen : closingParen ≠ openingParen := by decide

theorem Token.isParen_eq_false_iff {t : Token} :
    t.isParen = false ↔ t.text ≠ openingParen ∧ t.text ≠ closingParen := by
  simp [Token.isParen]

theorem Shape.ofReversed_eq_opening_iff {tokens verb : List Token} {paren : Token} :
    ofReversed tokens = .opening verb paren ↔
      tokens = paren :: verb.reverse ∧ paren.text = openingParen := by
  cases tokens with
  | nil => simp [ofReversed]
  | cons last before =>
    rw [List.cons.injEq]
    by_cases hopen : last.text = openingParen
    · simp only [ofReversed, if_pos hopen, opening.injEq]
      constructor
      · rintro ⟨rfl, rfl⟩
        simp [hopen]
      · rintro ⟨⟨rfl, rfl⟩, -⟩
        simp
    · have hne : ofReversed (last :: before) ≠ .opening verb paren := by
        simp only [ofReversed, if_neg hopen]
        repeat' split
        all_goals simp
      simp only [hne, false_iff]
      rintro ⟨⟨rfl, -⟩, h⟩
      exact hopen h

theorem Shape.ofReversed_eq_emptyBlock_iff {tokens verb : List Token} {closing : Token} :
    ofReversed tokens = .emptyBlock verb closing ↔
      ∃ paren, tokens = closing :: paren :: verb.reverse ∧ closing.text = closingParen ∧
        paren.text = openingParen := by
  match tokens with
  | [] => simp [ofReversed]
  | [last] =>
    simp only [ofReversed]
    repeat' split
    all_goals simp
  | last :: paren :: before =>
    by_cases hclose : last.text = closingParen
    · by_cases hopen : paren.text = openingParen
      · simp only [ofReversed, hclose, if_neg closingParen_ne_openingParen, if_pos hopen, if_true,
          emptyBlock.injEq, List.cons.injEq]
        constructor
        · rintro ⟨rfl, rfl⟩
          exact ⟨paren, by simp, hclose, hopen⟩
        · rintro ⟨_, ⟨rfl, rfl, rfl⟩, -, -⟩
          simp
      · simp only [ofReversed, hclose, if_neg closingParen_ne_openingParen, if_neg hopen, if_true,
          reduceCtorEq, false_iff, List.cons.injEq]
        rintro ⟨_, ⟨-, rfl, -⟩, -, h⟩
        exact hopen h
    · have hne : ofReversed (last :: paren :: before) ≠ .emptyBlock verb closing := by
        simp only [ofReversed, if_neg hclose]
        split <;> simp
      simp only [hne, false_iff, List.cons.injEq]
      rintro ⟨_, ⟨rfl, -⟩, h, -⟩
      exact hclose h

theorem TokenLine.shape_eq_opening_iff {l : TokenLine} {t paren : Token} :
    l.shape = .opening [t] paren ↔ l.first = t ∧ l.rest = [paren] ∧ paren.text = openingParen := by
  rw [shape, Shape.ofReversed_eq_opening_iff, List.reverse_eq_iff, tokens]
  simp [and_assoc]

theorem TokenLine.shape_eq_emptyBlock_iff {l : TokenLine} {t closing : Token} :
    l.shape = .emptyBlock [t] closing ↔
      l.first = t ∧ ∃ paren, l.rest = [paren, closing] ∧ closing.text = closingParen ∧
        paren.text = openingParen := by
  simp only [shape, Shape.ofReversed_eq_emptyBlock_iff, List.reverse_eq_iff, tokens]
  simp [and_assoc]

theorem TokenLine.shape_of_plain {l : TokenLine} (h : l.Plain) : l.shape = .plain := by
  rw [shape]
  cases hrev : l.tokens.reverse with
  | nil => rfl
  | cons t before =>
    have hmem : t ∈ l.tokens := by
      rw [← List.mem_reverse, hrev]
      exact List.mem_cons_self
    obtain ⟨hopen, hclose⟩ := Token.isParen_eq_false_iff.1 (h t hmem)
    simp [Shape.ofReversed, hopen, hclose]

theorem TokenLine.shape_of_opens {l : TokenLine} {paren : Token} (h : l.Opens paren) :
    l.shape = .opening [l.first] paren :=
  shape_eq_opening_iff.2 ⟨rfl, h.rest, h.paren⟩

theorem TokenLine.shape_of_opensAndCloses {l : TokenLine} {paren closing : Token}
    (h : l.OpensAndCloses paren closing) : l.shape = .emptyBlock [l.first] closing :=
  shape_eq_emptyBlock_iff.2 ⟨rfl, paren, h.rest, h.closing, h.paren⟩

/-! ## Derivations -/

/-- The lines of a block with the comments that wait before them: the children they form,
and the comments left for the closing line. Blank lines count for nothing. -/
inductive Body : List Comment → List ScannedLine → List Line → List Comment → Prop
  | done (waiting : List Comment) : Body waiting [] [] waiting
  | blank {waiting left : List Comment} {lines : List ScannedLine} {children : List Line}
      (rest : Body waiting lines children left) :
      Body waiting (.blank :: lines) children left
  | comment {waiting left : List Comment} {lines : List ScannedLine} {children : List Line}
      (c : Comment) (rest : Body (waiting ++ [c]) lines children left) :
      Body waiting (.comment c :: lines) children left
  | child {waiting left : List Comment} {lines : List ScannedLine} {children : List Line}
      (l : TokenLine) (plain : l.Plain) (rest : Body [] lines children left) :
      Body waiting (.tokens l :: lines) (l.toLine waiting true :: children) left

/-- The lines outside blocks with the comments that wait before them, up to the end of the
text, and the statements they form. -/
inductive Layout : List Comment → List ScannedLine → List Statement → Prop
  | done (waiting : List Comment) : Layout waiting [] (standalone waiting)
  | blank (waiting : List Comment) {lines : List ScannedLine} {statements : List Statement}
      (rest : Layout [] lines statements) :
      Layout waiting (.blank :: lines) (standalone waiting ++ statements)
  | comment {waiting : List Comment} {lines : List ScannedLine} {statements : List Statement}
      (c : Comment) (rest : Layout (waiting ++ [c]) lines statements) :
      Layout waiting (.comment c :: lines) statements
  | line (waiting : List Comment) {lines : List ScannedLine} {statements : List Statement}
      (l : TokenLine) (plain : l.Plain) (rest : Layout [] lines statements) :
      Layout waiting (.tokens l :: lines) (.line (l.toLine waiting false) :: statements)
  | emptyBlock (waiting : List Comment) {lines : List ScannedLine}
      {statements : List Statement} (l : TokenLine) {paren closing : Token}
      (header : l.OpensAndCloses paren closing) (rest : Layout [] lines statements) :
      Layout waiting (.tokens l :: lines)
        (.block (l.toEmptyBlock waiting closing) :: statements)
  | block (waiting : List Comment) {body lines : List ScannedLine} {children : List Line}
      {left : List Comment} {statements : List Statement} (l : TokenLine) {paren : Token}
      (header : l.Opens paren) (inside : Body [] body children left) (closing : TokenLine)
      (closes : closing.Closes) (rest : Layout [] lines statements) :
      Layout waiting (.tokens l :: (body ++ .tokens closing :: lines))
        (.block (l.toBlock waiting children left closing) :: statements)

/-- Comments that annotate nothing form a run of comments, if anything. -/
theorem exists_run_of_mem_standalone {waiting : List Comment} {s : Statement}
    (h : s ∈ standalone waiting) : ∃ r, s = .comments r := by
  cases waiting with
  | nil => simp [standalone] at h
  | cons c rest =>
    rw [standalone, List.mem_singleton] at h
    exact ⟨_, h⟩

/-! ## The reader and the grammar -/

theorem statementsFrom_nil_eq_ok_iff {mode : Mode} {statements : List Statement} :
    statementsFrom mode [] = .ok statements ↔ finish mode = .ok statements := by
  rw [statementsFrom, advance, bind_eq_ok_iff]
  simp only [Except.ok.injEq, exists_eq_left', bind_eq_ok_iff, pure_eq_ok_iff, List.nil_append,
    exists_eq_right]

/-- Reading a line and then the rest. -/
theorem statementsFrom_cons_eq_ok_iff {mode : Mode} {line : ScannedLine}
    {rest : List ScannedLine} {statements : List Statement} :
    statementsFrom mode (line :: rest) = .ok statements ↔
      ∃ done mode' more, step mode line = .ok (done, mode') ∧
        statementsFrom mode' rest = .ok more ∧ statements = done ++ more := by
  simp only [statementsFrom, advance, bind_eq_ok_iff, pure_eq_ok_iff, Prod.exists, Prod.mk.injEq]
  constructor
  · rintro ⟨_, last, ⟨done, mode', hstep, more, _, hrest, rfl, rfl⟩, final, hfinal, rfl⟩
    exact ⟨done, mode', more ++ final, hstep, ⟨more, _, hrest, final, hfinal, rfl⟩,
      List.append_assoc done more final⟩
  · rintro ⟨done, mode', _, hstep, ⟨more, last, hrest, final, hfinal, rfl⟩, rfl⟩
    exact ⟨done ++ more, last, ⟨done, mode', hstep, more, last, hrest, rfl, rfl⟩, final, hfinal,
      List.append_assoc done more final⟩

/-- A line with tokens outside blocks: one production for each shape. -/
theorem stepOutside_eq_ok_iff {waiting : List Comment} {l : TokenLine} {done : List Statement}
    {mode : Mode} :
    stepOutside waiting l = .ok (done, mode) ↔
      (l.Plain ∧ done = [.line (l.toLine waiting false)] ∧ mode = .outside []) ∨
      (∃ paren closing, l.OpensAndCloses paren closing ∧
        done = [.block (l.toEmptyBlock waiting closing)] ∧ mode = .outside []) ∨
      (∃ paren, l.Opens paren ∧ done = [] ∧
        mode = .inside ⟨l.first.start, paren.start, l.first.text, ⟨waiting, l.suffix⟩⟩ [] []) := by
  constructor
  · intro h
    rw [stepOutside] at h
    cases hshape : l.shape with
    | plain =>
      simp only [hshape, bind_eq_ok_iff, lineOf_eq_ok_iff, pure_eq_ok_iff, Prod.mk.injEq] at h
      obtain ⟨_, ⟨hplain, rfl⟩, rfl, rfl⟩ := h
      exact .inl ⟨hplain, rfl, rfl⟩
    | emptyBlock verb closing =>
      simp only [hshape, bind_eq_ok_iff, blockVerb_eq_ok_iff, pure_eq_ok_iff, Prod.mk.injEq] at h
      obtain ⟨_, ⟨t, rfl, ht, rfl⟩, rfl, rfl⟩ := h
      obtain ⟨rfl, paren, hrest, hclosing, hparen⟩ := TokenLine.shape_eq_emptyBlock_iff.1 hshape
      exact .inr (.inl ⟨paren, closing, ⟨hrest, ht, hparen, hclosing⟩, rfl, rfl⟩)
    | opening verb paren =>
      simp only [hshape, bind_eq_ok_iff, blockVerb_eq_ok_iff, pure_eq_ok_iff, Prod.mk.injEq] at h
      obtain ⟨_, ⟨t, rfl, ht, rfl⟩, rfl, rfl⟩ := h
      obtain ⟨rfl, hrest, hparen⟩ := TokenLine.shape_eq_opening_iff.1 hshape
      exact .inr (.inr ⟨paren, ⟨hrest, ht, hparen⟩, rfl, rfl⟩)
  · rintro (⟨hplain, rfl, rfl⟩ | ⟨paren, closing, hl, rfl, rfl⟩ | ⟨paren, hl, rfl, rfl⟩)
    · simp only [stepOutside, TokenLine.shape_of_plain hplain, bind_eq_ok_iff]
      exact ⟨_, lineOf_eq_ok_iff.2 ⟨hplain, rfl⟩, rfl⟩
    · simp only [stepOutside, TokenLine.shape_of_opensAndCloses hl, bind_eq_ok_iff]
      exact ⟨_, blockVerb_eq_ok_iff.2 ⟨l.first, rfl, hl.verb, rfl⟩, rfl⟩
    · simp only [stepOutside, TokenLine.shape_of_opens hl, bind_eq_ok_iff]
      exact ⟨_, blockVerb_eq_ok_iff.2 ⟨l.first, rfl, hl.verb, rfl⟩, rfl⟩

/-- A line with tokens inside a block is a child, or it closes the block. -/
theorem stepInside_eq_ok_iff {header : Header} {lines : List Line} {waiting : List Comment}
    {l : TokenLine} {done : List Statement} {mode : Mode} :
    stepInside header lines waiting l = .ok (done, mode) ↔
      (l.Plain ∧ done = [] ∧
        mode = .inside header (lines ++ [l.toLine waiting true]) []) ∨
      (l.Closes ∧ mode = .outside [] ∧
        done = [.block ⟨header.start, l.first.stop, [header.verb], lines, header.comments,
          ⟨waiting, l.suffix⟩⟩]) := by
  rw [stepInside]
  by_cases hfirst : l.first.text = closingParen
  · have hnotPlain : ¬ l.Plain := fun hplain =>
      (Token.isParen_eq_false_iff.1 (hplain l.first List.mem_cons_self)).2 hfirst
    simp only [if_pos hfirst, hnotPlain, false_and, false_or]
    cases hrest : l.rest with
    | nil =>
      simp only [Except.ok.injEq, Prod.mk.injEq]
      constructor
      · rintro ⟨rfl, rfl⟩
        exact ⟨⟨hfirst, hrest⟩, rfl, rfl⟩
      · rintro ⟨-, rfl, rfl⟩
        exact ⟨rfl, rfl⟩
    | cons t rest =>
      simp only [reduceCtorEq, false_iff]
      rintro ⟨hcloses, -⟩
      exact absurd hcloses.rest (by simp [hrest])
  · have hnotCloses : ¬ l.Closes := fun hcloses => hfirst hcloses.first
    simp only [if_neg hfirst, hnotCloses, false_and, or_false, bind_eq_ok_iff, lineOf_eq_ok_iff,
      pure_eq_ok_iff, Prod.mk.injEq]
    constructor
    · rintro ⟨_, ⟨hplain, rfl⟩, rfl, rfl⟩
      exact ⟨hplain, rfl, rfl⟩
    · rintro ⟨hplain, rfl, rfl⟩
      exact ⟨_, ⟨hplain, rfl⟩, rfl, rfl⟩

/-- What a line does: one case for each kind of line, outside blocks and inside. -/
inductive Mode.Step : Mode → ScannedLine → List Statement → Mode → Prop
  | blank (waiting : List Comment) :
      Step (.outside waiting) .blank (standalone waiting) (.outside [])
  | comment (waiting : List Comment) (c : Comment) :
      Step (.outside waiting) (.comment c) [] (.outside (waiting ++ [c]))
  | line (waiting : List Comment) {l : TokenLine} (plain : l.Plain) :
      Step (.outside waiting) (.tokens l) [.line (l.toLine waiting false)] (.outside [])
  | emptyBlock (waiting : List Comment) {l : TokenLine} {paren closing : Token}
      (header : l.OpensAndCloses paren closing) :
      Step (.outside waiting) (.tokens l) [.block (l.toEmptyBlock waiting closing)] (.outside [])
  | opens (waiting : List Comment) {l : TokenLine} {paren : Token} (header : l.Opens paren) :
      Step (.outside waiting) (.tokens l) []
        (.inside ⟨l.first.start, paren.start, l.first.text, ⟨waiting, l.suffix⟩⟩ [] [])
  | blankInside (header : Header) (lines : List Line) (waiting : List Comment) :
      Step (.inside header lines waiting) .blank [] (.inside header lines waiting)
  | commentInside (header : Header) (lines : List Line) (waiting : List Comment) (c : Comment) :
      Step (.inside header lines waiting) (.comment c) []
        (.inside header lines (waiting ++ [c]))
  | child (header : Header) (lines : List Line) (waiting : List Comment) {l : TokenLine}
      (plain : l.Plain) :
      Step (.inside header lines waiting) (.tokens l) []
        (.inside header (lines ++ [l.toLine waiting true]) [])
  | closes (header : Header) (lines : List Line) (waiting : List Comment) {l : TokenLine}
      (closes : l.Closes) :
      Step (.inside header lines waiting) (.tokens l)
        [.block ⟨header.start, l.first.stop, [header.verb], lines, header.comments,
          ⟨waiting, l.suffix⟩⟩] (.outside [])

/-- A line is accepted in one of these ways and in no other. -/
theorem step_eq_ok_iff {mode mode' : Mode} {line : ScannedLine} {done : List Statement} :
    step mode line = .ok (done, mode') ↔ mode.Step line done mode' := by
  constructor
  · intro h
    cases mode with
    | outside waiting =>
      cases line with
      | blank =>
        cases h
        exact .blank waiting
      | comment c =>
        cases h
        exact .comment waiting c
      | tokens l =>
        rw [step, stepOutside_eq_ok_iff] at h
        rcases h with ⟨plain, rfl, rfl⟩ | ⟨paren, closing, header, rfl, rfl⟩ |
          ⟨paren, header, rfl, rfl⟩
        · exact .line waiting plain
        · exact .emptyBlock waiting header
        · exact .opens waiting header
    | inside header lines waiting =>
      cases line with
      | blank =>
        cases h
        exact .blankInside header lines waiting
      | comment c =>
        cases h
        exact .commentInside header lines waiting c
      | tokens l =>
        rw [step, stepInside_eq_ok_iff] at h
        rcases h with ⟨plain, rfl, rfl⟩ | ⟨closes, rfl, rfl⟩
        · exact .child header lines waiting plain
        · exact .closes header lines waiting closes
  · intro h
    cases h with
    | blank | comment | blankInside | commentInside => rfl
    | line waiting plain => exact stepOutside_eq_ok_iff.2 (.inl ⟨plain, rfl, rfl⟩)
    | emptyBlock waiting header =>
      exact stepOutside_eq_ok_iff.2 (.inr (.inl ⟨_, _, header, rfl, rfl⟩))
    | opens waiting header => exact stepOutside_eq_ok_iff.2 (.inr (.inr ⟨_, header, rfl, rfl⟩))
    | child header lines waiting plain =>
      exact stepInside_eq_ok_iff.2 (.inl ⟨plain, rfl, rfl⟩)
    | closes header lines waiting closes =>
      exact stepInside_eq_ok_iff.2 (.inr ⟨closes, rfl, rfl⟩)

/-- Inside a block the reader takes the lines of the block up to the first closing line, and
goes on outside. -/
theorem statementsFrom_inside_eq_ok_iff {header : Header} {before : List Line}
    {waiting : List Comment} {lines : List ScannedLine} {statements : List Statement} :
    statementsFrom (.inside header before waiting) lines = .ok statements ↔
      ∃ body closing rest children left more,
        lines = body ++ .tokens closing :: rest ∧ Body waiting body children left ∧
        closing.Closes ∧ statementsFrom (.outside []) rest = .ok more ∧
        statements = .block ⟨header.start, closing.first.stop, [header.verb],
          before ++ children, header.comments, ⟨left, closing.suffix⟩⟩ :: more := by
  induction lines generalizing before waiting with
  | nil =>
    rw [statementsFrom_nil_eq_ok_iff, finish]
    simp
  | cons line lines ih =>
    rw [statementsFrom_cons_eq_ok_iff]
    simp only [step_eq_ok_iff]
    constructor
    · rintro ⟨done, mode, more, hstep, hrest, rfl⟩
      cases hstep with
      | blankInside =>
        obtain ⟨body, closing, rest, children, left, more, rfl, hbody, hclosing, hmore, rfl⟩ :=
          ih.1 hrest
        exact ⟨.blank :: body, closing, rest, children, left, more, rfl, .blank hbody, hclosing,
          hmore, rfl⟩
      | commentInside _ _ _ c =>
        obtain ⟨body, closing, rest, children, left, more, rfl, hbody, hclosing, hmore, rfl⟩ :=
          ih.1 hrest
        exact ⟨.comment c :: body, closing, rest, children, left, more, rfl, .comment c hbody,
          hclosing, hmore, rfl⟩
      | @child _ _ _ l plain =>
        obtain ⟨body, closing, rest, children, left, more, rfl, hbody, hclosing, hmore, rfl⟩ :=
          ih.1 hrest
        exact ⟨.tokens l :: body, closing, rest, l.toLine waiting true :: children, left, more,
          rfl, .child l plain hbody, hclosing, hmore, by simp⟩
      | @closes _ _ _ l closes =>
        exact ⟨[], l, lines, [], waiting, more, rfl, .done waiting, closes, hrest, by simp⟩
    · rintro ⟨body, closing, rest, children, left, more, hlines, hbody, hcloses, hmore, rfl⟩
      cases hbody with
      | done =>
        rw [List.nil_append, List.cons.injEq] at hlines
        obtain ⟨rfl, rfl⟩ := hlines
        exact ⟨_, _, more, .closes _ _ _ hcloses, hmore, by simp⟩
      | blank hbody =>
        rw [List.cons_append, List.cons.injEq] at hlines
        obtain ⟨rfl, rfl⟩ := hlines
        exact ⟨[], _, _, .blankInside _ _ _, ih.2 ⟨_, closing, rest, children, left, more, rfl,
          hbody, hcloses, hmore, rfl⟩, rfl⟩
      | comment c hbody =>
        rw [List.cons_append, List.cons.injEq] at hlines
        obtain ⟨rfl, rfl⟩ := hlines
        exact ⟨[], _, _, .commentInside _ _ _ c, ih.2 ⟨_, closing, rest, children, left, more, rfl,
          hbody, hcloses, hmore, rfl⟩, rfl⟩
      | child l hplain hbody =>
        rw [List.cons_append, List.cons.injEq] at hlines
        obtain ⟨rfl, rfl⟩ := hlines
        exact ⟨[], _, _, .child _ _ _ hplain,
          ih.2 ⟨_, closing, rest, _, left, more, rfl, hbody, hcloses, hmore, by simp⟩, rfl⟩

/-- Whatever the reader accepts has a derivation. The induction is on the number of lines,
since a block takes many of them at once. -/
theorem layout_of_statementsFrom {waiting : List Comment} {lines : List ScannedLine}
    {statements : List Statement}
    (h : statementsFrom (.outside waiting) lines = .ok statements) :
    Layout waiting lines statements := by
  induction hn : lines.length using Nat.strongRecOn generalizing waiting lines statements with
  | ind n ih =>
    cases lines with
    | nil =>
      rw [statementsFrom_nil_eq_ok_iff, finish, Except.ok.injEq] at h
      exact h ▸ .done waiting
    | cons line lines =>
      rw [List.length_cons] at hn
      obtain ⟨done, mode, more, hstep, hrest, rfl⟩ := statementsFrom_cons_eq_ok_iff.1 h
      cases step_eq_ok_iff.1 hstep with
      | blank => exact .blank waiting (ih lines.length (by omega) hrest rfl)
      | comment _ c => exact .comment c (ih lines.length (by omega) hrest rfl)
      | @line _ l plain => exact .line waiting l plain (ih lines.length (by omega) hrest rfl)
      | @emptyBlock _ l _ _ header =>
        exact .emptyBlock waiting l header (ih lines.length (by omega) hrest rfl)
      | @opens _ l _ header =>
        obtain ⟨body, closing, rest, children, left, more, rfl, hbody, hcloses, hmore, rfl⟩ :=
          statementsFrom_inside_eq_ok_iff.1 hrest
        have hlt : rest.length < n := by
          rw [List.length_append, List.length_cons] at hn
          omega
        exact .block waiting l header hbody closing hcloses (ih rest.length hlt hmore rfl)

/-- Whatever has a derivation is accepted. -/
theorem statementsFrom_of_layout {waiting : List Comment} {lines : List ScannedLine}
    {statements : List Statement} (h : Layout waiting lines statements) :
    statementsFrom (.outside waiting) lines = .ok statements := by
  induction h with
  | done waiting => exact statementsFrom_nil_eq_ok_iff.2 rfl
  | blank waiting _ ih =>
    exact statementsFrom_cons_eq_ok_iff.2 ⟨_, _, _, step_eq_ok_iff.2 (.blank waiting), ih, rfl⟩
  | comment c _ ih =>
    exact statementsFrom_cons_eq_ok_iff.2 ⟨_, _, _, step_eq_ok_iff.2 (.comment _ c), ih, rfl⟩
  | line waiting l plain _ ih =>
    exact statementsFrom_cons_eq_ok_iff.2
      ⟨_, _, _, step_eq_ok_iff.2 (.line waiting plain), ih, rfl⟩
  | emptyBlock waiting l header _ ih =>
    exact statementsFrom_cons_eq_ok_iff.2
      ⟨_, _, _, step_eq_ok_iff.2 (.emptyBlock waiting header), ih, rfl⟩
  | block waiting l header inside closing closes _ ih =>
    refine statementsFrom_cons_eq_ok_iff.2
      ⟨_, _, _, step_eq_ok_iff.2 (.opens waiting header), ?_, rfl⟩
    exact statementsFrom_inside_eq_ok_iff.2
      ⟨_, closing, _, _, _, _, rfl, inside, closes, ih, rfl⟩

/-- **The reader accepts the grammar.** -/
theorem statementsFrom_eq_ok_iff {waiting : List Comment} {lines : List ScannedLine}
    {statements : List Statement} :
    statementsFrom (.outside waiting) lines = .ok statements ↔
      Layout waiting lines statements :=
  ⟨layout_of_statementsFrom, statementsFrom_of_layout⟩

theorem mapError_eq_ok_iff {ε ε' α : Type} {f : ε → ε'} {x : Except ε α} {a : α} :
    x.mapError f = .ok a ↔ x = .ok a := by
  cases x with
  | error e =>
    change Except.error (f e) = .ok a ↔ Except.error e = .ok a
    simp
  | ok b =>
    change (Except.ok b : Except ε' α) = .ok a ↔ (Except.ok b : Except ε α) = .ok a
    simp

theorem mapError_eq_error_iff {ε ε' α : Type} {f : ε → ε'} {x : Except ε α} {e : ε'} :
    x.mapError f = .error e ↔ ∃ e', x = .error e' ∧ e = f e' := by
  cases x with
  | error e' =>
    change Except.error (f e') = .error e ↔ _
    simp [@eq_comm _ e]
  | ok a =>
    change (Except.ok a : Except ε' α) = .error e ↔ _
    simp

/-- A manifest is read where its lines are, where they have a derivation, and where the
entries of the statements are declarations. -/
theorem read_eq_ok_iff {name text : Text} {m : Manifest} :
    read name text = .ok m ↔
      ∃ lines statements d, scanLines 1 text.lines = .ok lines ∧ Layout [] lines statements ∧
        declarations statements = .ok d ∧
        m = ⟨name, statements, d.moduleEntry, d.goEntry, d.requirements⟩ := by
  rw [read, mapError_eq_ok_iff, readStatements]
  change ((scanLines 1 text.lines >>= statementsFrom (.outside [])) >>= ofStatements name) = _ ↔ _
  simp only [bind_eq_ok_iff, ofStatements, pure_eq_ok_iff, statementsFrom_eq_ok_iff, @eq_comm _ m]
  constructor
  · rintro ⟨statements, ⟨lines, hlines, hlayout⟩, d, hd, rfl⟩
    exact ⟨lines, statements, d, hlines, hlayout, hd, rfl⟩
  · rintro ⟨lines, statements, d, hlines, hlayout, hd, rfl⟩
    exact ⟨statements, ⟨lines, hlines, hlayout⟩, d, hd, rfl⟩

/-- Where the statements of a manifest are no declarations, it is refused for that. -/
theorem read_eq_error_of_declarations {name text : Text} {lines : List ScannedLine}
    {statements : List Statement} {f : Fault} (hlines : scanLines 1 text.lines = .ok lines)
    (hlayout : Layout [] lines statements) (hd : declarations statements = .error f) :
    read name text = .error (f.named name) := by
  have hstatements : readStatements text = .ok statements := by
    rw [readStatements, bind_eq_ok_iff]
    exact ⟨lines, hlines, statementsFrom_of_layout hlayout⟩
  have hrefused : ofStatements name statements = .error f := by
    rw [ofStatements, hd]
    rfl
  rw [read, hstatements]
  change (ofStatements name statements).mapError _ = _
  rw [hrefused]
  rfl

end Manifest

end ManifestPolicy
