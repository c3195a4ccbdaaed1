import ManifestPolicy.Command.Arguments
import ManifestPolicy.Text.Display

/-!
# The console of the program

A stream that is no terminal cannot show everything: control sequences for a terminal are
left out of a line, and lone surrogates are written as escapes.

## Main definitions

* `Command.withoutControls`: leaves control sequences out of a text.
* `Command.Console.standard`: the console of the program.
-/

namespace ManifestPolicy.Command

/-- Whether a code point can stand between the start and the letter of a control
sequence. -/
def isParameter (c : CodePoint) : Bool := c.isDigit || c = ';' || c = '?'

/-- The length of the control sequence for a terminal that a text starts with. -/
def controlSequence? : Text → Option Nat
  | e :: b :: t =>
    if e.val = 0x1B ∧ b = '[' then
      let parameters := t.takeWhile isParameter
      match t.drop parameters.length with
      | [] => none
      | c :: _ => if c.isLetter then some (parameters.length + 3) else none
    else none
  | _ => none

/-- Leaves control sequences out of a text, from `skip` code points on. -/
def withoutControls (skip : Nat) : Text → Text
  | [] => []
  | c :: t =>
    match skip with
    | skip + 1 => withoutControls skip t
    | 0 =>
      match controlSequence? (c :: t) with
      | some length => withoutControls (length - 1) t
      | none => c :: withoutControls 0 t

/-- The console of the program. -/
def Console.standard : Console where
  parse := Parse.ofArguments false
  echo line := (withoutControls 0 line).showSurrogates ++ Text.ofString "\n"

end ManifestPolicy.Command
