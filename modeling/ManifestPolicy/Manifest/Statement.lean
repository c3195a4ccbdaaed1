import ManifestPolicy.Manifest.Token

/-!
# The statements of a manifest

Statements are read line by line. Between two lines the reader is either outside all
blocks or inside one, and in both places it holds the whole-line comments that wait for
something to annotate. Each line moves it on and completes at most one statement.

Outside blocks a blank line, or the end of the text, turns the waiting comments into a
statement of their own. Inside a block blank lines change nothing, so comments wait for
the next line of the block or for its closing parenthesis.

## Main definitions

* `Mode`: where the reader is between two lines.
* `step`, `finish`: what a line does, and what the end of the text does.
* `advance`: what several lines do.
* `readStatements`: the statements of a text.

## Main statements

* `advance_append`: reading two lists of lines one after the other.
-/

namespace ManifestPolicy.Manifest

/-- The opening parenthesis as a token. -/
def openingParen : Text := ['(']

/-- The closing parenthesis as a token. -/
def closingParen : Text := [')']

/-- Whether a token is a parenthesis. -/
def Token.isParen (t : Token) : Bool := t.text = openingParen || t.text = closingParen

/-- Refuses the first parenthesis among some tokens. -/
def rejectParens (tokens : List Token) : Except Fault Unit :=
  match tokens.find? Token.isParen with
  | none => .ok ()
  | some t => .error ⟨.unexpectedParen t.text, t.start⟩

/-- What the parentheses at the end of a line make of it, outside blocks. -/
inductive Shape
  /-- The line opens a block: the tokens before the parenthesis, and the parenthesis. -/
  | opening (verb : List Token) (paren : Token)
  /-- The line is a block without lines: the tokens before the two parentheses, and the
  closing one. -/
  | emptyBlock (verb : List Token) (closing : Token)
  /-- The line is a statement by itself. -/
  | plain

/-- The shape of a list of tokens given from its end. -/
def Shape.ofReversed : List Token → Shape
  | [] => .plain
  | last :: before =>
    if last.text = openingParen then .opening before.reverse last
    else if last.text = closingParen then
      match before with
      | [] => .plain
      | paren :: verb =>
        if paren.text = openingParen then .emptyBlock verb.reverse last else .plain
    else .plain

/-- The shape of a line. -/
def TokenLine.shape (l : TokenLine) : Shape := Shape.ofReversed l.tokens.reverse

/-- The directive a block applies to its lines: the only token before the parenthesis. -/
def blockVerb (l : TokenLine) (verb : List Token) : Except Fault Text :=
  match verb with
  | [t] => do
    rejectParens [t]
    return t.text
  | _ => .error ⟨.blockHeader, l.first.start⟩

/-- The line that some tokens form, with the comments above it. -/
def lineOf (l : TokenLine) (before : List Comment) (inBlock : Bool) :
    Except Fault Line := do
  rejectParens l.tokens
  return ⟨l.first.start, l.last.stop, l.tokens.map Token.text, ⟨before, l.suffix⟩, inBlock⟩

/-- The opening line of a block. -/
structure Header where
  start : Position
  /-- Where the opening parenthesis stands. -/
  paren : Position
  verb : Text
  comments : Comments
deriving DecidableEq

/-- Where the reader is between two lines. -/
inductive Mode
  /-- Outside all blocks, with the comments that wait. -/
  | outside (waiting : List Comment)
  /-- Inside a block, with its lines so far and the comments that wait. -/
  | inside (header : Header) (lines : List Line) (waiting : List Comment)
deriving DecidableEq

/-- The statement of comments that annotate nothing, if there are any. -/
def standalone : List Comment → List Statement
  | [] => []
  | first :: rest =>
    let last := rest.getLastD first
    [.comments ⟨first.start, ⟨last.start.line, last.start.column + last.text.length⟩,
      ⟨first :: rest, []⟩⟩]

/-- What a line with tokens does outside blocks. -/
def stepOutside (waiting : List Comment) (l : TokenLine) :
    Except Fault (List Statement × Mode) :=
  match l.shape with
  | .opening verb paren => do
    let verb ← blockVerb l verb
    return ([], .inside ⟨l.first.start, paren.start, verb, ⟨waiting, l.suffix⟩⟩ [] [])
  | .emptyBlock verb closing => do
    let verb ← blockVerb l verb
    return ([.block ⟨l.first.start, closing.stop, [verb], [], ⟨waiting, l.suffix⟩, {}⟩],
      .outside [])
  | .plain => do
    let line ← lineOf l waiting false
    return ([.line line], .outside [])

/-- What a line with tokens does inside a block. -/
def stepInside (header : Header) (lines : List Line) (waiting : List Comment)
    (l : TokenLine) : Except Fault (List Statement × Mode) :=
  if l.first.text = closingParen then
    match l.rest with
    | t :: _ => .error ⟨.afterClosing, t.start⟩
    | [] =>
      .ok ([.block ⟨header.start, l.first.stop, [header.verb], lines, header.comments,
        ⟨waiting, l.suffix⟩⟩], .outside [])
  else do
    let line ← lineOf l waiting true
    return ([], .inside header (lines ++ [line]) [])

/-- What one line does: the statement it completes, if any, and where the reader is
after it. -/
def step : Mode → ScannedLine → Except Fault (List Statement × Mode)
  | .outside waiting, .blank => .ok (standalone waiting, .outside [])
  | .outside waiting, .comment c => .ok ([], .outside (waiting ++ [c]))
  | .outside waiting, .tokens l => stepOutside waiting l
  | .inside header lines waiting, .blank => .ok ([], .inside header lines waiting)
  | .inside header lines waiting, .comment c =>
    .ok ([], .inside header lines (waiting ++ [c]))
  | .inside header lines waiting, .tokens l => stepInside header lines waiting l

/-- What the end of the text does. -/
def finish : Mode → Except Fault (List Statement)
  | .outside waiting => .ok (standalone waiting)
  | .inside header _ _ => .error ⟨.unterminatedBlock, header.paren⟩

/-- Reads lines up to no particular end: the statements they complete, and where the
reader is after them. -/
def advance (mode : Mode) : List ScannedLine → Except Fault (List Statement × Mode)
  | [] => .ok ([], mode)
  | line :: rest => do
    let (done, mode) ← step mode line
    let (more, mode) ← advance mode rest
    return (done ++ more, mode)

/-- The statements of the lines that follow, up to the end of the text. -/
def statementsFrom (mode : Mode) (lines : List ScannedLine) :
    Except Fault (List Statement) := do
  let (done, mode) ← advance mode lines
  return done ++ (← finish mode)

/-- Reading two lists of lines one after the other. -/
theorem advance_append (mode : Mode) (l₁ l₂ : List ScannedLine) :
    advance mode (l₁ ++ l₂) = do
      let (done, mode) ← advance mode l₁
      let (more, mode) ← advance mode l₂
      return (done ++ more, mode) := by
  induction l₁ generalizing mode with
  | nil =>
    simp only [List.nil_append, advance, bind, Except.bind]
    cases advance mode l₂ <;> rfl
  | cons line rest ih =>
    simp only [List.cons_append, advance]
    cases step mode line with
    | error f => rfl
    | ok s =>
      simp only [bind, Except.bind, ih]
      cases advance s.2 rest with
      | error f => rfl
      | ok r =>
        simp only [pure, Except.pure]
        cases advance r.2 l₂ with
        | error f => rfl
        | ok q => simp

/-- The statements of a text. Every line is cut into tokens before any statement is
read. -/
def readStatements (t : Text) : Except Fault (List Statement) := do
  statementsFrom (.outside []) (← scanLines 1 (Text.lines t))

end ManifestPolicy.Manifest
