import ManifestPolicy.Manifest.Fault
import ManifestPolicy.Text.Blank
import ManifestPolicy.Text.Lines

/-!
# The tokens of a manifest line

A line is cut into tokens and at most one comment. A token is a single parenthesis, a
quoted string with its quotes, or a bare word; a comment runs from its marker to the end
of the line. Blanks separate and are dropped.

Reading works on what is left of the line: each token is cut off its front, so a column
is one more than the length of what was cut off before.

## Main definitions

* `cutToken`: cuts the first token off a text.
* `ScannedLine`: a line that is blank, holds only a comment, or holds tokens.
* `ScannedLine.ofText`: reads one line.
* `scanLines`: reads the lines of a manifest.

## Main statements

* `append_of_cutToken`: a token and the rest are the text they were cut from.
* `length_lt_of_cutToken`: a token is never empty, so reading ends.
-/

namespace ManifestPolicy

/-- What starts a comment. -/
def commentMarker : Text := ['/', '/']

namespace Manifest

/-- Whether a code point is a parenthesis. -/
def isParen (c : CodePoint) : Bool := c = '(' || c = ')'

/-- The grave accent, which quotes a text without escapes. -/
def graveAccent : CodePoint := ⟨0x60, by decide⟩

/-- Whether a code point opens a quoted string. -/
def isQuote (c : CodePoint) : Bool := c = quotation || c = graveAccent

/-- Whether a bare word ends before this text. -/
def endsWord : Text → Bool
  | [] => true
  | c :: t => c.isBlank || isParen c || isQuote c || Text.startsWith commentMarker (c :: t)

/-- Cuts off the part of a bare word that a text starts with. -/
def cutWord : Text → Text × Text
  | [] => ([], [])
  | c :: t =>
    if endsWord (c :: t) then ([], c :: t)
    else (c :: (cutWord t).1, (cutWord t).2)

/-- Cuts off a quoted string after its opening quote, up to the closing one. Between double
quotes an escape mark takes the next code point with it, which is then `escaped`. -/
def cutQuoted (quote : CodePoint) : Bool → Text → Option (Text × Text)
  | _, [] => none
  | true, c :: t => (cutQuoted quote false t).map fun cut => (c :: cut.1, cut.2)
  | false, c :: t =>
    if quote = quotation ∧ c = backslash then
      (cutQuoted quote true t).map fun cut => (c :: cut.1, cut.2)
    else if c = quote then some ([c], t)
    else (cutQuoted quote false t).map fun cut => (c :: cut.1, cut.2)

/-- Cuts the first token off a text that starts with neither a blank nor a comment. There
is none where a quote has no closing quote. -/
def cutToken : Text → Option (Text × Text)
  | [] => none
  | c :: t =>
    if isParen c then some ([c], t)
    else if isQuote c then (cutQuoted c false t).map fun cut => (c :: cut.1, cut.2)
    else some (c :: (cutWord t).1, (cutWord t).2)

theorem append_cutWord (t : Text) : (cutWord t).1 ++ (cutWord t).2 = t := by
  induction t with
  | nil => rfl
  | cons c t ih =>
    simp only [cutWord]
    split
    · rfl
    · simp [ih]

/-- A quoted string ends with its quote, and the rest follows it in the text. -/
theorem exists_inside_of_cutQuoted {quote : CodePoint} {escaped : Bool} {t body rest : Text}
    (h : cutQuoted quote escaped t = some (body, rest)) :
    ∃ inside, body = inside ++ [quote] ∧ t = inside ++ quote :: rest := by
  induction t generalizing escaped body rest with
  | nil => simp [cutQuoted] at h
  | cons c t ih =>
    have push {e : Bool}
        (h : (cutQuoted quote e t).map (fun cut => (c :: cut.1, cut.2)) = some (body, rest)) :
        ∃ inside, body = inside ++ [quote] ∧ c :: t = inside ++ quote :: rest := by
      obtain ⟨cut, hcut, hb⟩ := Option.map_eq_some_iff.1 h
      obtain ⟨inside, hbody, ht⟩ := ih hcut
      cases hb
      exact ⟨c :: inside, by rw [hbody]; rfl, by rw [ht]; rfl⟩
    cases escaped with
    | true => exact push h
    | false =>
      simp only [cutQuoted] at h
      split at h
      · exact push h
      · split at h
        · next hclose =>
          cases h
          exact ⟨[], by rw [hclose]; rfl, by rw [hclose]; rfl⟩
        · exact push h

theorem append_of_cutQuoted {quote : CodePoint} {escaped : Bool} {t body rest : Text}
    (h : cutQuoted quote escaped t = some (body, rest)) : body ++ rest = t := by
  obtain ⟨inside, rfl, rfl⟩ := exists_inside_of_cutQuoted h
  rw [List.append_assoc, List.singleton_append]

/-- A token and the rest are the text they were cut from. -/
theorem append_of_cutToken {t token rest : Text} (h : cutToken t = some (token, rest)) :
    token ++ rest = t := by
  cases t with
  | nil => simp [cutToken] at h
  | cons c t =>
    simp only [cutToken] at h
    split at h
    · cases h; rfl
    · split at h
      · obtain ⟨cut, hcut, hb⟩ := Option.map_eq_some_iff.1 h
        cases hb
        simp [append_of_cutQuoted hcut]
      · cases h
        simp [append_cutWord]

/-- A token is never empty. -/
theorem ne_nil_of_cutToken {t token rest : Text} (h : cutToken t = some (token, rest)) :
    token ≠ [] := by
  cases t with
  | nil => simp [cutToken] at h
  | cons c t =>
    simp only [cutToken] at h
    split at h
    · cases h; simp
    · split at h
      · obtain ⟨cut, -, hb⟩ := Option.map_eq_some_iff.1 h
        cases hb
        simp
      · cases h; simp

theorem length_lt_of_cutToken {t token rest : Text} (h : cutToken t = some (token, rest)) :
    rest.length < t.length := by
  have hlen := congrArg List.length (append_of_cutToken h)
  have hpos := List.length_pos_iff.2 (ne_nil_of_cutToken h)
  rw [List.length_append] at hlen
  omega

/-- A token and the places where it starts and after which it ends. -/
structure Token where
  text : Text
  start : Position
  stop : Position
deriving DecidableEq

/-- The tokens and the comment of line `number` from column `column` on. The fault is a
quote without its closing quote. -/
def scanFrom (number column : Int) : Text → Except Fault (List Token × Option Comment)
  | [] => .ok ([], none)
  | c :: t =>
    if c.isBlank then scanFrom number (column + 1) t
    else if Text.startsWith commentMarker (c :: t) then
      .ok ([], some ⟨⟨number, column⟩, Text.trimEnd (c :: t)⟩)
    else
      match _h : cutToken (c :: t) with
      | none => .error ⟨.unterminatedQuote, ⟨number, column⟩⟩
      | some (token, rest) => do
        let (tokens, comment) ← scanFrom number (column + token.length) rest
        return (⟨token, ⟨number, column⟩, ⟨number, column + token.length⟩⟩ :: tokens, comment)
termination_by t => t.length
decreasing_by
  · simp
  · exact length_lt_of_cutToken _h

/-- A line that holds tokens. -/
structure TokenLine where
  first : Token
  rest : List Token
  comment : Option Comment
deriving DecidableEq

/-- One line of a manifest. -/
inductive ScannedLine
  | blank
  | comment (comment : Comment)
  | tokens (line : TokenLine)
deriving DecidableEq

/-- All tokens of a line, in order. -/
def TokenLine.tokens (l : TokenLine) : List Token := l.first :: l.rest

/-- The last token of a line. -/
def TokenLine.last (l : TokenLine) : Token := l.rest.getLastD l.first

/-- The comment at the end of a line with tokens, as a list. -/
def TokenLine.suffix (l : TokenLine) : List Comment := l.comment.toList

/-- The kind of a line with these tokens and this comment. -/
def ScannedLine.ofParts : List Token → Option Comment → ScannedLine
  | first :: rest, c => .tokens ⟨first, rest, c⟩
  | [], some c => .comment c
  | [], none => .blank

/-- Reads line `number`. -/
def ScannedLine.ofText (number : Int) (t : Text) : Except Fault ScannedLine := do
  let (ts, c) ← scanFrom number 1 t
  return .ofParts ts c

/-- Reads the lines of a manifest, the first of them with the given number. Every line is
read before anything is made of them, so the first line with an open quote is reported
before any other fault. -/
def scanLines (number : Int) : List Text → Except Fault (List ScannedLine)
  | [] => .ok []
  | t :: rest => do
    let line ← ScannedLine.ofText number t
    return line :: (← scanLines (number + 1) rest)

end Manifest

end ManifestPolicy
