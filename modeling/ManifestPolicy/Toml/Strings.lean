import ManifestPolicy.Toml.Cut

/-!
# Strings and keys

The four kinds of string of the settings format, and keys. A basic string has escapes, a
literal one has none; both can be written over several lines between three quotes.

## Main definitions

* `string?`: reads a string of any kind.
* `key?`: reads a key, which is a path of parts with dots between them.
-/

namespace ManifestPolicy.Toml

/-- The code point an escape with one letter names. -/
def letterEscape? (c : CodePoint) : Option CodePoint :=
  if c = 'b' then some (CodePoint.ofNat 0x08)
  else if c = 't' then some '\t'
  else if c = 'n' then some '\n'
  else if c = 'f' then some (CodePoint.ofNat 0x0C)
  else if c = 'r' then some '\r'
  else if c = quotation then some quotation
  else if c = backslash then some backslash
  else none

/-- The code point with the given hexadecimal digits, if it can stand in a text. -/
def scalar? (digits : Text) : Option CodePoint := do
  let n ← Text.hexValue? digits
  let c := CodePoint.ofNat n
  if n < 0x110000 && !c.isSurrogate then some c else none

/-- Reads an escape after its mark. -/
def escape? : (s : Text) → Option (Cut s CodePoint)
  | [] => none
  | c :: t =>
    if c = 'u' then
      if t.length < 4 then none else (scalar? (t.take 4)).map (Cut.take c t 5)
    else if c = 'U' then
      if t.length < 8 then none else (scalar? (t.take 8)).map (Cut.take c t 9)
    else (letterEscape? c).map (Cut.head c)

/-- Reads a basic string after its opening quote. -/
def basicLine? (s : Text) : Option (Cut s Text) :=
  match s with
  | [] => none
  | c :: t =>
    if c = quotation then some (Cut.head c [])
    else if c = backslash then
      match escape? t with
      | none => none
      | some e =>
        (basicLine? e.rest).map fun more => ((e.follow more).behind c).map (e.value :: ·)
    else if isControl c then none
    else (basicLine? t).map fun more => (more.behind c).map (c :: ·)
termination_by s.length
decreasing_by
  · have := e.shorter
    simp only [List.length_cons]
    omega
  · simp

/-- Reads a literal string after its opening quote. -/
def literalLine? : (s : Text) → Option (Cut s Text)
  | [] => none
  | c :: t =>
    if c = apostrophe then some (Cut.head c [])
    else if isControl c then none
    else (literalLine? t).map fun more => (more.behind c).map (c :: ·)

/-- Reads the three closing quotes of a string, with up to two more before them that belong
to the string. -/
def closing? (quote : CodePoint) : (s : Text) → Option (Cut s Text)
  | c₁ :: c₂ :: c₃ :: t =>
    if c₁ = quote ∧ c₂ = quote ∧ c₃ = quote then
      let extra := (t.take 2).takeWhile fun c => c = quote
      some (Cut.take c₁ (c₂ :: c₃ :: t) (3 + extra.length) extra)
    else none
  | _ => none

/-- What is left after the end of a line and everything up to the next visible code point,
where an escape mark stands at the end of the line. -/
def afterLineEnd? (s : Text) : Option Text :=
  match skipBlanks s with
  | [] => none
  | c :: t => if c = '\n' then some (t.dropWhile fun d => isBlank d || d = '\n') else none

theorem length_afterLineEnd? {s rest : Text} (h : afterLineEnd? s = some rest) :
    rest.length < s.length := by
  have hs := length_skipBlanks s
  simp only [afterLineEnd?] at h
  split at h
  · simp at h
  · next c t ht =>
    rw [ht, List.length_cons] at hs
    split at h
    · cases h
      exact Nat.lt_of_le_of_lt (List.dropWhile_sublist _).length_le hs
    · simp at h

/-- Skips the end of a line after an escape mark. -/
def continuation? (s : Text) : Option (Cut s Unit) :=
  match h : afterLineEnd? s with
  | none => none
  | some rest => some ⟨(), rest, length_afterLineEnd? h⟩

/-- Reads a basic string over several lines after its opening quotes. -/
def basicBlock? (s : Text) : Option (Cut s Text) :=
  match s with
  | [] => none
  | c :: t =>
    match closing? quotation (c :: t) with
    | some cut => some cut
    | none =>
      if c = backslash then
        if t.head?.any fun d => isBlank d || d = '\n' then
          match continuation? t with
          | none => none
          | some skip => (basicBlock? skip.rest).map fun more => (skip.follow more).behind c
        else
          match escape? t with
          | none => none
          | some e =>
            (basicBlock? e.rest).map fun more => ((e.follow more).behind c).map (e.value :: ·)
      else if isControl c && c ≠ '\n' then none
      else (basicBlock? t).map fun more => (more.behind c).map (c :: ·)
termination_by s.length
decreasing_by
  · have := skip.shorter
    simp only [List.length_cons]
    omega
  · have := e.shorter
    simp only [List.length_cons]
    omega
  · simp

/-- Reads a literal string over several lines after its opening quotes. -/
def literalBlock? : (s : Text) → Option (Cut s Text)
  | [] => none
  | c :: t =>
    match closing? apostrophe (c :: t) with
    | some cut => some cut
    | none =>
      if isControl c && c ≠ '\n' then none
      else (literalBlock? t).map fun more => (more.behind c).map (c :: ·)

/-- Reads a string that starts with the given quote. A line end directly after three opening
quotes is not part of the string. -/
def quoted? (quote : CodePoint) (line block : (s : Text) → Option (Cut s Text)) :
    (s : Text) → Option (Cut s Text)
  | c₁ :: c₂ :: c₃ :: t =>
    if c₁ = quote ∧ c₂ = quote ∧ c₃ = quote then
      match t with
      | [] => none
      | c₄ :: u =>
        let inner := if c₄ = '\n' then (block u).map (Cut.behind c₄) else block (c₄ :: u)
        inner.map fun cut => ((cut.behind c₃).behind c₂).behind c₁
    else if c₁ = quote then (line (c₂ :: c₃ :: t)).map (Cut.behind c₁)
    else none
  | c₁ :: t => if c₁ = quote then (line t).map (Cut.behind c₁) else none
  | [] => none

/-- Reads a string of any kind. -/
def string? (s : Text) : Option (Cut s Text) :=
  if s.head? = some quotation then quoted? quotation basicLine? basicBlock? s
  else quoted? apostrophe literalLine? literalBlock? s

/-- The code points of a key part without quotes. -/
def isBare (c : CodePoint) : Bool := c.isLetter || c.isDigit || c = '_' || c = '-'

/-- Reads one part of a key. -/
def keyPart? : (s : Text) → Option (Cut s Text)
  | [] => none
  | c :: t =>
    if c = quotation then (basicLine? t).map (Cut.behind c)
    else if c = apostrophe then (literalLine? t).map (Cut.behind c)
    else if isBare c then
      let part := c :: t.takeWhile isBare
      some (Cut.take c t part.length part)
    else none

/-- Reads a key and the blanks after it: its first parts, and its last. -/
def key? (s : Text) : Option (Cut s (List Text × Text)) :=
  match keyPart? s with
  | none => none
  | some part =>
    let first := part.skipBlanks
    match first.expect? '.' with
    | none => some (first.map fun last => ([], last))
    | some dot =>
      let next := dot.skipBlanks
      (key? next.rest).map fun more =>
        (next.follow more).map fun key => (part.value :: key.1, key.2)
termination_by s.length
decreasing_by exact next.shorter

end ManifestPolicy.Toml
