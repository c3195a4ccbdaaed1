import ManifestPolicy.Manifest.Statement
import ManifestPolicy.Text.Quoted
import ManifestPolicy.Text.Utf8

/-!
# The entries of a manifest

A line outside blocks is an entry: its first token is the verb and the others are the
arguments. In a block every line is an entry with the verb of the block. The entries with
the verbs `module`, `go` and `require` are checked and kept; any other verb is allowed and
ignored.

## Main definitions

* `Statement.entries`: the entries of a statement.
* `Line.isIndirect`: whether a line is marked as an indirect requirement.
* `Declarations`, `Declarations.add`: what the entries declare, one entry at a time.
* `Manifest.read`: reads a manifest from a text.
* `Manifest.readOctets`: reads a manifest from octets.
* `Manifest.readFile`: reads a manifest from the octets of a file.
-/

namespace ManifestPolicy

/-- Whether the comment at the end of a line starts with the word that marks an indirect
requirement, alone or before a semicolon. -/
def Line.isIndirect (l : Line) : Bool :=
  match l.comments.suffix with
  | [] => false
  | c :: _ =>
    match Text.fields (Text.dropStart commentMarker c.text) with
    | [] => false
    | field :: _ =>
      field = Text.ofString "indirect" || Text.startsWith (Text.ofString "indirect;") field

namespace Manifest

/-- A verb with its arguments, and the line that holds them. -/
structure Entry where
  verb : Text
  arguments : List Text
  line : Line
deriving DecidableEq

/-- The entries of a statement, in order. -/
def entriesOf : Statement → List Entry
  | .line l =>
    match l.tokens with
    | [] => []
    | verb :: arguments => [⟨verb, arguments, l⟩]
  | .block b =>
    match b.tokens with
    | [] => []
    | verb :: _ => b.lines.map fun l => ⟨verb, l.tokens, l⟩
  | .comments _ => []

/-- The text an argument stands for: the inside of a string between grave accents, the
text of a string between double quotes, and any other token itself. -/
def unquote (position : Position) (token : Text) : Except Fault Text :=
  match token with
  | [] => .ok []
  | c :: t =>
    if c = graveAccent then .ok t.dropLast
    else if c = quotation then
      match Quoted.decode? token with
      | some text => .ok text
      | none => .error ⟨.invalidQuoted token, position⟩
    else .ok token

/-- What the entries read so far declare. -/
structure Declarations where
  moduleEntry : Option ModuleEntry := none
  goEntry : Option GoEntry := none
  requirements : List Requirement := []
deriving DecidableEq

/-- Adds a module entry: the only one, with one argument. -/
def Declarations.addModule (d : Declarations) (e : Entry) : Except Fault Declarations :=
  if d.moduleEntry.isSome then .error ⟨.repeatedModule, e.line.start⟩
  else
    match e.arguments with
    | [path] => do
      let path ← unquote e.line.start path
      return { d with moduleEntry := some ⟨path, e.line⟩ }
    | _ => .error ⟨.moduleUsage, e.line.start⟩

/-- Adds a go entry: the only one, with one argument, which is kept as written. -/
def Declarations.addGo (d : Declarations) (e : Entry) : Except Fault Declarations :=
  if d.goEntry.isSome then .error ⟨.repeatedGo, e.line.start⟩
  else
    match e.arguments with
    | [version] => .ok { d with goEntry := some ⟨version, e.line⟩ }
    | _ => .error ⟨.goUsage, e.line.start⟩

/-- Adds a require entry, which has two arguments. -/
def Declarations.addRequire (d : Declarations) (e : Entry) : Except Fault Declarations :=
  match e.arguments with
  | [path, version] => do
    let path ← unquote e.line.start path
    let version ← unquote e.line.start version
    return { d with
      requirements := d.requirements ++ [⟨path, version, e.line, e.line.isIndirect⟩] }
  | _ => .error ⟨.requireUsage, e.line.start⟩

/-- Adds an entry to what the entries before it declare. -/
def Declarations.add (d : Declarations) (e : Entry) : Except Fault Declarations :=
  if e.verb = Text.ofString "module" then d.addModule e
  else if e.verb = Text.ofString "go" then d.addGo e
  else if e.verb = Text.ofString "require" then d.addRequire e
  else .ok d

/-- What the statements of a manifest declare. -/
def declarations (statements : List Statement) : Except Fault Declarations :=
  (statements.flatMap entriesOf).foldlM Declarations.add {}

/-- The manifest with the given name and statements. -/
def ofStatements (name : Text) (statements : List Statement) : Except Fault Manifest := do
  let d ← declarations statements
  return ⟨name, statements, d.moduleEntry, d.goEntry, d.requirements⟩

/-- A fault of the manifest with the given name. -/
def Fault.named (name : Text) (f : Fault) : SyntaxError := ⟨name, f.position, f.reason⟩

/-- Reads a manifest. The name is the one that messages use. -/
def read (name text : Text) : Except SyntaxError Manifest :=
  ((readStatements text).bind (ofStatements name)).mapError (Fault.named name)

/-- Why octets are no manifest. -/
inductive OctetsError
  | encoding (fault : Utf8.Fault)
  | parsing (error : SyntaxError)
deriving DecidableEq

/-- Reads a manifest from octets, which must be UTF-8. -/
def readOctets (name : Text) (octets : List UInt8) : Except OctetsError Manifest := do
  let text ← (Utf8.decode octets).mapError .encoding
  (read name text).mapError .parsing

/-- Reads a manifest from the octets of a file. Files are read as texts, in which newlines are
unified before anything else looks at them. -/
def readFile (name : Text) (octets : List UInt8) : Except OctetsError Manifest := do
  let text ← (Utf8.decode octets).mapError .encoding
  (read name text.unifyNewlines).mapError .parsing

end Manifest

end ManifestPolicy
