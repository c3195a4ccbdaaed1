import ManifestPolicy.Toml.Limits
import ManifestPolicy.Toml.Strings
import ManifestPolicy.Toml.Value

/-!
# Numbers, dates and times

These values have no closing mark: each is the longest initial part of a text that has the
form of the value. A recogniser returns that part, and what follows it is judged by
whoever reads on.

The forms are tried in a fixed order: dates before times before numbers before the special
floats. A text that has the form of a date is a date or a fault, never a number.

A whole number in base ten has to be converted, so there is a limit on its digits, whatever
stands between them. In the other bases there is none.

## Main definitions

* `date?`, `clock?`, `number?`, `special?`: the recognisers.
* `scalar`: the value a text starts with.
-/

namespace ManifestPolicy.Toml

/-- The longest initial part made of digits and single underscores between digits, where a
digit came before. -/
def moreDigits (digit : CodePoint → Bool) : Text → Text
  | [] => []
  | c :: t =>
    if digit c || (c = '_' && t.head?.any digit) then c :: moreDigits digit t else []

/-- The longest initial part made of digits and single underscores between digits. -/
def digits? (digit : CodePoint → Bool) : Text → Option Text
  | [] => none
  | c :: t => if digit c then some (c :: moreDigits digit t) else none

/-- The number two decimal digits write. -/
def twoDigits? (c d : CodePoint) : Option Nat :=
  if c.isDigit && d.isDigit then some ((c.val - 0x30) * 10 + (d.val - 0x30)) else none

/-- A sign, if there is one. -/
def sign : Text → Text
  | [] => []
  | c :: _ => if c = '+' || c = '-' then [c] else []

/-- A whole number in a base other than ten: a zero, the letter of the base, and digits. -/
def basedInteger? : Text → Option Text
  | c :: b :: t =>
    if c = '0' then
      let digit : Option (CodePoint → Bool) :=
        if b = 'x' then some fun d => d.hexValue?.isSome
        else if b = 'o' then some (CodePoint.between 0x30 0x37)
        else if b = 'b' then some (CodePoint.between 0x30 0x31)
        else none
      (digit.bind fun p => digits? p t).map fun ds => c :: b :: ds
    else none
  | _ => none

/-- A whole number in base ten. Zero alone may start with a zero. -/
def decimalInteger? (s : Text) : Option Text :=
  match s.drop (sign s).length with
  | [] => none
  | c :: t =>
    if c = '0' then some (sign s ++ [c])
    else if c.isDigit then some (sign s ++ c :: moreDigits CodePoint.isDigit t)
    else none

/-- A fraction: a point and digits. -/
def fraction : Text → Text
  | [] => []
  | c :: t => if c = '.' then ((digits? CodePoint.isDigit t).map (c :: ·)).getD [] else []

/-- An exponent: a letter, perhaps a sign, and digits. -/
def exponent : Text → Text
  | [] => []
  | c :: t =>
    if c = 'e' || c = 'E' then
      ((digits? CodePoint.isDigit (t.drop (sign t).length)).map
        fun ds => c :: sign t ++ ds).getD []
    else []

/-- A number. One with a fraction or an exponent is a float. -/
def number? (s : Text) : Option (Text × Value) :=
  match basedInteger? s with
  | some whole => some (whole, .integer whole)
  | none =>
    (decimalInteger? s).map fun whole =>
      let point := fraction (s.drop whole.length)
      let scale := exponent (s.drop (whole ++ point).length)
      let literal := whole ++ point ++ scale
      (literal, if literal.length = whole.length then .integer literal else .float literal)

/-- The floats that are not numbers in digits. -/
def special? (s : Text) : Option (Text × Value) :=
  let word := (s.drop (sign s).length).take 3
  if word = Text.ofString "inf" || word = Text.ofString "nan" then
    some (sign s ++ word, .float (sign s ++ word))
  else none

/-- A time of day, with any number of digits after the seconds. -/
def clock? : Text → Option Text
  | h₁ :: h₂ :: s₁ :: m₁ :: m₂ :: s₂ :: c₁ :: c₂ :: t => do
    let hour ← twoDigits? h₁ h₂
    let minute ← twoDigits? m₁ m₂
    let second ← twoDigits? c₁ c₂
    if s₁ = ':' ∧ s₂ = ':' ∧ hour < 24 ∧ minute < 60 ∧ second < 60 then
      let parts :=
        match t with
        | [] => []
        | c :: u =>
          let ds := u.takeWhile CodePoint.isDigit
          if c = '.' && !ds.isEmpty then c :: ds else []
      some ([h₁, h₂, s₁, m₁, m₂, s₂, c₁, c₂] ++ parts)
    else none
  | _ => none

/-- The distance of a time from universal time, if it is written. -/
def zone : Text → Text
  | [] => []
  | c :: t =>
    if c = 'Z' || c = 'z' then [c]
    else if c = '+' || c = '-' then
      match t with
      | h₁ :: h₂ :: s :: m₁ :: m₂ :: _ =>
        match twoDigits? h₁ h₂, twoDigits? m₁ m₂ with
        | some hour, some minute =>
          if s = ':' ∧ hour < 24 ∧ minute < 60 then [c, h₁, h₂, s, m₁, m₂] else []
        | _, _ => []
      | _ => []
    else []

/-- How many days a month has, in the calendar extended to all years. -/
def daysInMonth (year month : Nat) : Nat :=
  if month = 2 then
    if year % 4 = 0 ∧ (year % 100 ≠ 0 ∨ year % 400 = 0) then 29 else 28
  else if month = 4 ∨ month = 6 ∨ month = 9 ∨ month = 11 then 30
  else 31

/-- What has the form of a date: its ten code points, and whether the calendar has it. -/
def date? : Text → Option (Text × Bool)
  | y₁ :: y₂ :: y₃ :: y₄ :: s₁ :: m₁ :: m₂ :: s₂ :: d₁ :: d₂ :: _ => do
    let century ← twoDigits? y₁ y₂
    let rest ← twoDigits? y₃ y₄
    let month ← twoDigits? m₁ m₂
    let day ← twoDigits? d₁ d₂
    let year := century * 100 + rest
    if s₁ = '-' ∧ s₂ = '-' ∧ 1 ≤ month ∧ month ≤ 12 ∧ 1 ≤ day ∧ day ≤ 31 then
      some ([y₁, y₂, y₃, y₄, s₁, m₁, m₂, s₂, d₁, d₂],
        decide (1 ≤ year ∧ day ≤ daysInMonth year month))
    else none
  | _ => none

/-- What follows a date when a time follows it: a separator, the time, and its zone. -/
def clockAfterDate (s : Text) : Text :=
  match s with
  | [] => []
  | c :: t =>
    if c = 'T' || c = 't' || c = ' ' then
      match clock? t with
      | none => []
      | some clock => c :: clock ++ zone (t.drop clock.length)
    else []

/-- The number, date or time that a text starts with, as written and as a value. -/
def scalarPart? (s : Text) : Option (Text × Value) :=
  match date? s with
  | some (date, valid) =>
    if valid then
      let clock := clockAfterDate (s.drop date.length)
      if clock.isEmpty then some (date, .date date)
      else some (date ++ clock, .dateTime (date ++ clock))
    else none
  | none =>
    match clock? s with
    | some clock => some (clock, .time clock)
    | none => (number? s).or (special? s)

/-- How many decimal digits have to be converted to have a value. -/
def Value.decimalDigits : Value → Nat
  | .integer literal =>
    if (basedInteger? literal).isSome then 0 else literal.countP CodePoint.isDigit
  | _ => 0

/-- Reads a number, a date or a time. -/
def scalar (limits : Limits) : (s : Text) → Except Fault (Cut s Value)
  | [] => .error .invalid
  | c :: t =>
    match scalarPart? (c :: t) with
    | none => .error .invalid
    | some (part, value) =>
      if limits.digits < value.decimalDigits then
        .error (.excess (.digits value.decimalDigits limits.digits))
      else .ok (Cut.take c t part.length value)

end ManifestPolicy.Toml
