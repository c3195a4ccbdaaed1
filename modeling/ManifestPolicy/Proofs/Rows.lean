import ManifestPolicy.Proofs.Attachment

/-!
# A manifest as a walk over its rows

Which lines form statements depends on their tokens alone, not on blank lines and comments.
So a manifest can be walked row by row, a row being a line with tokens, and at every row it
is known whether it stands outside blocks or inside one. Each row that is allowed there
holds at most one entry.

The reader does more: it keeps comments and places, and gives the entries of a block only
when the block ends. Both go on together: what the reader has completed and what it still
holds back are the entries of the walk so far.

## Main definitions

* `Row`, `rowsFrom`: the lines with tokens, as texts.
* `Place.Step`: the rows that are allowed at a place.
* `Walk`: the rows of a manifest and the entries on them.

## Main statements

* `rows_of_scanLines`: the rows of a text are those of the lines that are read.
* `Walk.unique`: a walk has one outcome.
* `walk_of_statementsFrom`, `exists_statementsFrom_of_walk`: the reader accepts the rows that
  can be walked, with the entries of the walk.
-/

namespace ManifestPolicy.Manifest

/-- A line with tokens: its number, and its tokens as texts. -/
structure Row where
  number : Int
  tokens : List Text
deriving DecidableEq

/-- The tokens of a line as texts. A line with an open quote has none. -/
def tokenTexts (t : Text) : List Text :=
  match scanFrom 1 1 t with
  | .ok (tokens, _) => tokens.map Token.text
  | .error _ => []

/-- The rows of some lines, of which the first has this number. -/
def rowsFrom (number : Int) : List Text → List Row
  | [] => []
  | t :: rest =>
    if tokenTexts t = [] then rowsFrom (number + 1) rest
    else ⟨number, tokenTexts t⟩ :: rowsFrom (number + 1) rest

/-- The row of a line that was read. -/
def ScannedLine.row? : ScannedLine → Option Row
  | .tokens l => some ⟨l.first.start.line, l.tokens.map Token.text⟩
  | _ => none

/-- The texts of the tokens do not depend on where a line stands. -/
theorem tokenTexts_of_scanFrom {number column : Int} {t : Text} {tokens : List Token}
    {comment : Option Comment} (h : scanFrom number column t = .ok (tokens, comment)) :
    tokenTexts t = tokens.map Token.text := by
  obtain ⟨ps, gap, remark, rfl, hspelled, hgap, hremark, rfl, -⟩ := exists_spell_of_scanFrom h
  rw [tokenTexts, scanFrom_spell_remark hspelled hgap hremark, map_text_tokensAt]
  exact map_text_tokensAt 1 1 ps

theorem row?_of_ofText {number : Int} {t : Text} {line : ScannedLine}
    (h : ScannedLine.ofText number t = .ok line) :
    line.row? = if tokenTexts t = [] then none else some ⟨number, tokenTexts t⟩ := by
  have hon := on_ofText h
  obtain ⟨tokens, comment, hscan, rfl⟩ := ofText_eq_ok_iff.1 h
  rw [tokenTexts_of_scanFrom hscan]
  cases tokens with
  | nil => cases comment <;> rfl
  | cons first rest =>
    have hnumber : first.start.line = number := hon.first.1
    rw [if_neg (by simp), ← hnumber]
    rfl

/-- The rows of a text are those of the lines that are read. -/
theorem rows_of_scanLines {number : Int} {texts : List Text} {lines : List ScannedLine}
    (h : scanLines number texts = .ok lines) :
    lines.filterMap ScannedLine.row? = rowsFrom number texts := by
  induction texts generalizing number lines with
  | nil =>
    rw [scanLines, Except.ok.injEq] at h
    rw [← h]
    rfl
  | cons t texts ih =>
    obtain ⟨line, more, hline, hmore, rfl⟩ := scanLines_cons_eq_ok_iff.1 h
    have hrow := row?_of_ofText hline
    by_cases hnil : tokenTexts t = []
    · rw [if_pos hnil] at hrow
      rw [List.filterMap_cons_none hrow, rowsFrom, if_pos hnil, ih hmore]
    · rw [if_neg hnil] at hrow
      rw [List.filterMap_cons_some hrow, rowsFrom, if_neg hnil, ih hmore]

/-- An entry as it is written, with the number of its line. -/
structure RowEntry where
  number : Int
  verb : Text
  arguments : List Text
deriving DecidableEq

/-- Where a row stands: outside blocks, or inside a block with this verb. -/
inductive Place
  | outside
  | inside (verb : Text)
deriving DecidableEq

/-- Whether a token is a parenthesis. -/
def isParenText (t : Text) : Bool := t = openingParen || t = closingParen

/-- The rows that are allowed at a place, the entries on them, and the place below. Outside
blocks parentheses stand at the end of a row, after one word; inside a block there is only
the closing one, alone. -/
inductive Place.Step : Place → Row → List RowEntry → Place → Prop
  | opens (number : Int) {verb : Text} (word : isParenText verb = false) :
      Step .outside ⟨number, [verb, openingParen]⟩ [] (.inside verb)
  | opensAndCloses (number : Int) {verb : Text} (word : isParenText verb = false) :
      Step .outside ⟨number, [verb, openingParen, closingParen]⟩ [] .outside
  | line (number : Int) {verb : Text} {arguments : List Text}
      (plain : ∀ t ∈ verb :: arguments, isParenText t = false) :
      Step .outside ⟨number, verb :: arguments⟩ [⟨number, verb, arguments⟩] .outside
  | child (number : Int) (verb : Text) {tokens : List Text}
      (plain : ∀ t ∈ tokens, isParenText t = false) :
      Step (.inside verb) ⟨number, tokens⟩ [⟨number, verb, tokens⟩] (.inside verb)
  | closes (number : Int) (verb : Text) :
      Step (.inside verb) ⟨number, [closingParen]⟩ [] .outside

/-- The rows from a place on, up to the end of the text outside blocks, and the entries on
them in order. -/
inductive Walk : Place → List Row → List RowEntry → Prop
  | done : Walk .outside [] []
  | step {place below : Place} {row : Row} {rows : List Row} {entries more : List RowEntry}
      (first : place.Step row entries below) (rest : Walk below rows more) :
      Walk place (row :: rows) (entries ++ more)

theorem isParenText_openingParen : isParenText openingParen = true := by decide

theorem isParenText_closingParen : isParenText closingParen = true := by decide

/-- A row is allowed in one way at most. -/
theorem Place.Step.unique {place below below' : Place} {row : Row}
    {entries entries' : List RowEntry} (h : place.Step row entries below)
    (h' : place.Step row entries' below') : entries = entries' ∧ below = below' := by
  cases h with
  | opens number word =>
    cases h' with
    | opens => exact ⟨rfl, rfl⟩
    | line _ plain => simp [isParenText_openingParen] at plain
  | opensAndCloses number word =>
    cases h' with
    | opensAndCloses => exact ⟨rfl, rfl⟩
    | line _ plain => simp [isParenText_openingParen] at plain
  | line number plain =>
    cases h' with
    | opens => simp [isParenText_openingParen] at plain
    | opensAndCloses => simp [isParenText_openingParen] at plain
    | line => exact ⟨rfl, rfl⟩
  | child number verb plain =>
    cases h' with
    | child => exact ⟨rfl, rfl⟩
    | closes => simp [isParenText_closingParen] at plain
  | closes number verb =>
    cases h' with
    | child _ _ plain => simp [isParenText_closingParen] at plain
    | closes => exact ⟨rfl, rfl⟩

/-- A walk has one outcome. -/
theorem Walk.unique {place : Place} {rows : List Row} {entries entries' : List RowEntry}
    (h : Walk place rows entries) (h' : Walk place rows entries') : entries = entries' := by
  induction h generalizing entries' with
  | done =>
    cases h'
    rfl
  | step first _ ih =>
    cases h' with
    | step first' rest' =>
      obtain ⟨rfl, rfl⟩ := first.unique first'
      rw [ih rest']

/-- The arguments of the entries are tokens of the rows. -/
theorem Walk.forall_arguments {p : Text → Prop} {place : Place} {rows : List Row}
    {entries : List RowEntry} (h : Walk place rows entries)
    (hrows : ∀ r ∈ rows, ∀ t ∈ r.tokens, p t) : ∀ e ∈ entries, ∀ t ∈ e.arguments, p t := by
  induction h with
  | done => simp
  | @step place below row rows entries more first _ ih =>
    obtain ⟨hrow, hrest⟩ := List.forall_mem_cons.1 hrows
    intro e he
    rcases List.mem_append.1 he with he | he
    · cases first with
      | line number plain =>
        obtain rfl := List.mem_singleton.1 he
        exact fun t ht => hrow t (List.mem_cons_of_mem _ ht)
      | child number verb plain =>
        obtain rfl := List.mem_singleton.1 he
        exact hrow
      | opens | opensAndCloses | closes => simp at he
    · exact ih hrest e he

/-- The row of a line with tokens. -/
def TokenLine.row (l : TokenLine) : Row := ⟨l.first.start.line, l.tokens.map Token.text⟩

/-- Only a line with tokens has a row. -/
theorem exists_tokens_of_row {line : ScannedLine} {row : Row} (h : line.row? = some row) :
    ∃ l, line = .tokens l ∧ row = l.row := by
  cases line with
  | blank => cases h
  | comment c => cases h
  | tokens l => exact ⟨l, rfl, (Option.some.inj h).symm⟩

theorem TokenLine.plain_iff {l : TokenLine} :
    l.Plain ↔ ∀ t ∈ l.tokens.map Token.text, isParenText t = false := by
  rw [TokenLine.Plain, List.forall_mem_map]
  rfl

/-- The rows outside blocks are the lines of the three shapes. -/
theorem step_outside_iff {l : TokenLine} {entries : List RowEntry} {below : Place} :
    Place.Step .outside l.row entries below ↔
      (l.Plain ∧ entries = [⟨l.first.start.line, l.first.text, l.rest.map Token.text⟩] ∧
        below = .outside) ∨
      (∃ paren closing, l.OpensAndCloses paren closing ∧ entries = [] ∧ below = .outside) ∨
      (∃ paren, l.Opens paren ∧ entries = [] ∧ below = .inside l.first.text) := by
  have hrow : l.row = ⟨l.first.start.line, l.first.text :: l.rest.map Token.text⟩ := rfl
  constructor
  · intro h
    rw [hrow] at h
    generalize hrest : l.rest.map Token.text = rest at h
    cases h with
    | opens number word =>
      obtain ⟨paren, htokens, hparen⟩ := List.map_eq_singleton_iff.1 hrest
      exact .inr (.inr ⟨paren, ⟨htokens, word, hparen⟩, rfl, rfl⟩)
    | opensAndCloses number word =>
      obtain ⟨paren, more, htokens, hparen, hmore⟩ := List.map_eq_cons_iff.1 hrest
      obtain ⟨closing, rfl, hclosing⟩ := List.map_eq_singleton_iff.1 hmore
      exact .inr (.inl ⟨paren, closing, ⟨htokens, word, hparen, hclosing⟩, rfl, rfl⟩)
    | line number plain =>
      refine .inl ⟨TokenLine.plain_iff.2 ?_, rfl, rfl⟩
      rw [TokenLine.tokens, List.map_cons, hrest]
      exact plain
  · rw [hrow]
    rintro (⟨plain, rfl, rfl⟩ | ⟨paren, closing, hl, rfl, rfl⟩ | ⟨paren, hl, rfl, rfl⟩)
    · exact .line _ (TokenLine.plain_iff.1 plain)
    · rw [hl.rest, List.map_cons, List.map_singleton, hl.paren, hl.closing]
      exact .opensAndCloses _ hl.verb
    · rw [hl.rest, List.map_singleton, hl.paren]
      exact .opens _ hl.verb

/-- The rows inside a block are its children and its closing line. -/
theorem step_inside_iff {l : TokenLine} {verb : Text} {entries : List RowEntry} {below : Place} :
    Place.Step (.inside verb) l.row entries below ↔
      (l.Plain ∧ entries = [⟨l.first.start.line, verb, l.tokens.map Token.text⟩] ∧
        below = .inside verb) ∨
      (l.Closes ∧ entries = [] ∧ below = .outside) := by
  have hrow : l.row = ⟨l.first.start.line, l.tokens.map Token.text⟩ := rfl
  constructor
  · intro h
    rw [hrow] at h
    generalize htokens : l.tokens.map Token.text = tokens at h
    cases h with
    | child number verb plain =>
      exact .inl ⟨TokenLine.plain_iff.2 (htokens ▸ plain), rfl, rfl⟩
    | closes number verb =>
      rw [TokenLine.tokens, List.map_cons, List.cons.injEq, List.map_eq_nil_iff] at htokens
      exact .inr ⟨⟨htokens.1, htokens.2⟩, rfl, rfl⟩
  · rw [hrow]
    rintro (⟨plain, rfl, rfl⟩ | ⟨closes, rfl, rfl⟩)
    · exact .child _ verb (TokenLine.plain_iff.1 plain)
    · rw [TokenLine.tokens, closes.rest, List.map_singleton, closes.first]
      exact .closes _ verb

/-- The place of the next row. -/
def Mode.place : Mode → Place
  | .outside _ => .outside
  | .inside header _ _ => .inside header.verb

/-- The entries of a block that is not complete. -/
def Mode.pending : Mode → List RowEntry
  | .outside _ => []
  | .inside header lines _ => lines.map fun l => ⟨l.start.line, header.verb, l.tokens⟩

/-- An entry as it is written. -/
def Entry.written (e : Entry) : RowEntry := ⟨e.line.start.line, e.verb, e.arguments⟩

/-- The entries of some statements as they are written. -/
def writtenEntries (statements : List Statement) : List RowEntry :=
  (statements.flatMap entriesOf).map Entry.written

theorem writtenEntries_append (s t : List Statement) :
    writtenEntries (s ++ t) = writtenEntries s ++ writtenEntries t := by
  rw [writtenEntries, List.flatMap_append, List.map_append]
  rfl

theorem writtenEntries_standalone (waiting : List Comment) :
    writtenEntries (standalone waiting) = [] := by
  cases waiting <;> rfl

/-- The entries of a block are those of its lines. -/
theorem writtenEntries_block {b : Block} {verb : Text} (h : b.tokens = [verb]) :
    writtenEntries [.block b] = b.lines.map fun l => ⟨l.start.line, verb, l.tokens⟩ := by
  rw [writtenEntries, List.flatMap_singleton, entriesOf, h, List.map_map]
  rfl

/-- A line that the reader accepts is allowed where it stands. What it completes and what is
held back after it are the entries held back before it and those on it. -/
theorem walk_of_step {mode mode' : Mode} {line : ScannedLine} {done : List Statement}
    (h : mode.Step line done mode') :
    ∃ entries, writtenEntries done ++ mode'.pending = mode.pending ++ entries ∧
      ∀ rows more, Walk mode'.place rows more →
        Walk mode.place (line.row?.toList ++ rows) (entries ++ more) := by
  cases h with
  | blank waiting => exact ⟨[], by rw [writtenEntries_standalone]; rfl, fun _ _ hrest => hrest⟩
  | comment => exact ⟨[], rfl, fun _ _ hrest => hrest⟩
  | line waiting plain =>
    refine ⟨_, rfl, fun rows more hrest => ?_⟩
    exact .step (step_outside_iff.2 (.inl ⟨plain, rfl, rfl⟩)) hrest
  | emptyBlock waiting header =>
    refine ⟨[], rfl, fun rows more hrest => ?_⟩
    exact .step (step_outside_iff.2 (.inr (.inl ⟨_, _, header, rfl, rfl⟩))) hrest
  | opens waiting header =>
    refine ⟨[], rfl, fun rows more hrest => ?_⟩
    exact .step (step_outside_iff.2 (.inr (.inr ⟨_, header, rfl, rfl⟩))) hrest
  | blankInside => exact ⟨[], by simp [writtenEntries], fun _ _ hrest => hrest⟩
  | commentInside => exact ⟨[], by simp [writtenEntries, Mode.pending], fun _ _ hrest => hrest⟩
  | child header lines waiting plain =>
    refine ⟨_, ?_, fun rows more hrest =>
      .step (step_inside_iff.2 (.inl ⟨plain, rfl, rfl⟩)) hrest⟩
    rw [Mode.pending, List.map_append]
    rfl
  | closes header lines waiting closes =>
    refine ⟨[], ?_, fun rows more hrest =>
      .step (step_inside_iff.2 (.inr ⟨closes, rfl, rfl⟩)) hrest⟩
    rw [writtenEntries_block rfl]
    rfl

/-- A line with an allowed row is accepted by the reader. -/
theorem exists_step_of_placeStep {mode : Mode} {l : TokenLine} {entries : List RowEntry}
    {place : Place} (h : mode.place.Step l.row entries place) :
    ∃ done mode', mode.Step (.tokens l) done mode' ∧ mode'.place = place := by
  cases mode with
  | outside waiting =>
    rcases step_outside_iff.1 h with ⟨plain, -, rfl⟩ | ⟨paren, closing, hl, -, rfl⟩ |
      ⟨paren, hl, -, rfl⟩
    · exact ⟨_, _, .line waiting plain, rfl⟩
    · exact ⟨_, _, .emptyBlock waiting hl, rfl⟩
    · exact ⟨_, _, .opens waiting hl, rfl⟩
  | inside header lines waiting =>
    rcases step_inside_iff.1 h with ⟨plain, -, rfl⟩ | ⟨closes, -, rfl⟩
    · exact ⟨_, _, .child header lines waiting plain, rfl⟩
    · exact ⟨_, _, .closes header lines waiting closes, rfl⟩

/-- A line without tokens is accepted everywhere, and moves the reader nowhere. -/
theorem exists_step_of_no_row (mode : Mode) (line : ScannedLine) (h : line.row? = none) :
    ∃ done mode', mode.Step line done mode' ∧ mode'.place = mode.place := by
  cases mode with
  | outside waiting =>
    cases line with
    | blank => exact ⟨_, _, .blank waiting, rfl⟩
    | comment c => exact ⟨_, _, .comment waiting c, rfl⟩
    | tokens l => cases h
  | inside header lines waiting =>
    cases line with
    | blank => exact ⟨_, _, .blankInside header lines waiting, rfl⟩
    | comment c => exact ⟨_, _, .commentInside header lines waiting c, rfl⟩
    | tokens l => cases h

/-- A line that is allowed where it stands is accepted by the reader. -/
theorem exists_step_of_walk {mode : Mode} {line : ScannedLine} {rows : List Row}
    {entries : List RowEntry} (h : Walk mode.place (line.row?.toList ++ rows) entries) :
    ∃ done mode' more, mode.Step line done mode' ∧ Walk mode'.place rows more := by
  cases hrow : line.row? with
  | none =>
    rw [hrow] at h
    obtain ⟨done, mode', hstep, hplace⟩ := exists_step_of_no_row mode line hrow
    exact ⟨done, mode', entries, hstep, hplace ▸ h⟩
  | some row =>
    obtain ⟨l, rfl, rfl⟩ := exists_tokens_of_row hrow
    rw [hrow] at h
    generalize hplace : mode.place = place at h
    cases h with
    | step first rest =>
      obtain ⟨done, mode', hstep, rfl⟩ := exists_step_of_placeStep (hplace ▸ first)
      exact ⟨done, mode', _, hstep, rest⟩

theorem filterMap_row?_cons (line : ScannedLine) (lines : List ScannedLine) :
    (line :: lines).filterMap ScannedLine.row? =
      line.row?.toList ++ lines.filterMap ScannedLine.row? := by
  cases h : line.row? with
  | none => rw [List.filterMap_cons_none h]; rfl
  | some row => rw [List.filterMap_cons_some h]; rfl

/-- What the reader accepts can be walked, with the entries of its statements. -/
theorem walk_of_statementsFrom {mode : Mode} {lines : List ScannedLine}
    {statements : List Statement} (h : statementsFrom mode lines = .ok statements) :
    ∃ entries, Walk mode.place (lines.filterMap ScannedLine.row?) entries ∧
      writtenEntries statements = mode.pending ++ entries := by
  induction lines generalizing mode statements with
  | nil =>
    rw [statementsFrom_nil_eq_ok_iff] at h
    cases mode with
    | outside waiting =>
      rw [finish, Except.ok.injEq] at h
      exact ⟨[], .done, by rw [← h, writtenEntries_standalone]; rfl⟩
    | inside header lines waiting => simp [finish] at h
  | cons line lines ih =>
    obtain ⟨done, mode', more, hstep, hrest, rfl⟩ := statementsFrom_cons_eq_ok_iff.1 h
    obtain ⟨entries, hentries, hwalk⟩ := walk_of_step (step_eq_ok_iff.1 hstep)
    obtain ⟨entries', hwalk', hmore⟩ := ih hrest
    refine ⟨entries ++ entries', ?_, ?_⟩
    · rw [filterMap_row?_cons]
      exact hwalk _ _ hwalk'
    · rw [writtenEntries_append, hmore, ← List.append_assoc, hentries, List.append_assoc]

/-- What can be walked is accepted by the reader. -/
theorem exists_statementsFrom_of_walk {mode : Mode} {lines : List ScannedLine}
    {entries : List RowEntry} (h : Walk mode.place (lines.filterMap ScannedLine.row?) entries) :
    ∃ statements, statementsFrom mode lines = .ok statements := by
  induction lines generalizing mode entries with
  | nil =>
    cases mode with
    | outside waiting => exact ⟨_, statementsFrom_nil_eq_ok_iff.2 rfl⟩
    | inside header lines waiting => cases h
  | cons line lines ih =>
    rw [filterMap_row?_cons] at h
    obtain ⟨done, mode', more, hstep, hrest⟩ := exists_step_of_walk h
    obtain ⟨statements, hstatements⟩ := ih hrest
    exact ⟨_, statementsFrom_cons_eq_ok_iff.2
      ⟨_, _, _, step_eq_ok_iff.2 hstep, hstatements, rfl⟩⟩

end ManifestPolicy.Manifest
