import ManifestPolicy.Manifest.Syntax
import ManifestPolicy.Text.Display

/-!
# Faults in a manifest

Reading stops at the first fault. A fault is a reason and a place; with the name of the
manifest it is a `SyntaxError`.

## Main definitions

* `Manifest.Reason`: what is wrong.
* `Manifest.Fault`: a reason and its place.
* `SyntaxError.message`: the wording.
-/

namespace ManifestPolicy

namespace Manifest

/-- What is wrong with a manifest. -/
inductive Reason
  /-- A quote has no closing quote on its line. -/
  | unterminatedQuote
  /-- A block has no closing parenthesis. -/
  | unterminatedBlock
  /-- The opening line of a block is not one word and a parenthesis. -/
  | blockHeader
  /-- A parenthesis stands where none may stand. -/
  | unexpectedParen (paren : Text)
  /-- Something follows the closing parenthesis of a block. -/
  | afterClosing
  | repeatedModule
  | repeatedGo
  /-- A module entry has other than one argument. -/
  | moduleUsage
  /-- A go entry has other than one argument. -/
  | goUsage
  /-- A require entry has other than two arguments. -/
  | requireUsage
  /-- A quoted argument is not a well-formed string. -/
  | invalidQuoted (token : Text)
deriving DecidableEq

/-- The wording of a reason. -/
def Reason.message : Reason → Text
  | .unterminatedQuote => "unterminated quoted string"
  | .unterminatedBlock => "unterminated block"
  | .blockHeader => "expected a single directive before '('"
  | .unexpectedParen paren => Text.ofString "unexpected " ++ paren.display
  | .afterClosing => "unexpected token after ')'"
  | .repeatedModule => "repeated module statement"
  | .repeatedGo => "repeated go statement"
  | .moduleUsage => "usage: module module/path"
  | .goUsage => "usage: go 1.23"
  | .requireUsage => "usage: require module/path v1.2.3"
  | .invalidQuoted token => Text.ofString "invalid quoted string " ++ token

/-- A reason and the place where it was found. -/
structure Fault where
  reason : Reason
  position : Position
deriving DecidableEq

end Manifest

/-- The first fault of a named manifest. -/
structure SyntaxError where
  name : Text
  position : Position
  reason : Manifest.Reason
deriving DecidableEq

/-- The wording of a syntax error. -/
def SyntaxError.message (e : SyntaxError) : Text :=
  e.name ++ Text.ofString ":" ++ e.position.message ++ Text.ofString ": " ++ e.reason.message

end ManifestPolicy
