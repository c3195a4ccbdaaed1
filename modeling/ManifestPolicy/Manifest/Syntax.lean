import ManifestPolicy.Text.Basic

/-!
# The syntax of a manifest

A manifest is a list of statements. Every comment is kept, attached to what it annotates:
whole-line comments go before a line, a block or the end of a block, and the comment at
the end of a line is its suffix. A run of whole-line comments that annotates nothing is a
statement of its own.

## Main definitions

* `Position`, `Comment`, `Comments`.
* `Line`, `Block`, `CommentRun`: the three kinds of statement.
* `Statement`: one of them.
* `Requirement`, `Manifest`: the entries a manifest declares, beside its statements.
-/

namespace ManifestPolicy

/-- A place in a manifest. Lines and columns count from 1, columns in code points. They are
integers because a tree can also be built by hand, from any numbers. Writing out a number of more
than 4300 digits is an error that is not modelled, so `Position.message` and the messages with a
line number are meant for numbers up to that length, as all places of a real text are. -/
structure Position where
  line : Int
  column : Int
deriving DecidableEq

/-- The written form of a position. -/
def Position.message (p : Position) : Text :=
  Text.ofInt p.line ++ Text.ofString ":" ++ Text.ofInt p.column

/-- A comment and its text, from its marker on. -/
structure Comment where
  start : Position
  text : Text
deriving DecidableEq

/-- The comments attached to one part of a manifest. -/
structure Comments where
  /-- Whole-line comments above the part. -/
  before : List Comment := []
  /-- The comment at the end of the part's own line. -/
  suffix : List Comment := []
deriving DecidableEq

/-- All comments of a part, in the order of the text. -/
def Comments.all (c : Comments) : List Comment := c.before ++ c.suffix

/-- One line with tokens. -/
structure Line where
  start : Position
  /-- The place after the last token. -/
  stop : Position
  tokens : List Text
  comments : Comments
  /-- Whether the line stands inside a block. -/
  inBlock : Bool
deriving DecidableEq

/-- A directive applied to every line between two parentheses. -/
structure Block where
  start : Position
  /-- The place after the closing parenthesis. -/
  stop : Position
  /-- The tokens before the opening parenthesis. -/
  tokens : List Text
  lines : List Line
  /-- The comments of the opening line. -/
  comments : Comments
  /-- The comments of the closing line, and those above it that no line follows. -/
  closing : Comments
deriving DecidableEq

/-- Whole-line comments that annotate nothing. -/
structure CommentRun where
  start : Position
  /-- The place after the last comment. -/
  stop : Position
  comments : Comments
deriving DecidableEq

/-- A statement of a manifest. -/
inductive Statement
  | line (line : Line)
  | block (block : Block)
  | comments (run : CommentRun)
deriving DecidableEq

/-- The entry that names the module. -/
structure ModuleEntry where
  path : Text
  line : Line
deriving DecidableEq

/-- The entry that names the language version. -/
structure GoEntry where
  version : Text
  line : Line
deriving DecidableEq

/-- An entry that requires another module. -/
structure Requirement where
  path : Text
  version : Text
  line : Line
  /-- Whether the line is marked as an indirect requirement. -/
  indirect : Bool
deriving DecidableEq

/-- A manifest with the entries found in its statements. -/
structure Manifest where
  /-- The name used in messages. -/
  name : Text
  statements : List Statement
  moduleEntry : Option ModuleEntry
  goEntry : Option GoEntry
  requirements : List Requirement
deriving DecidableEq

end ManifestPolicy
