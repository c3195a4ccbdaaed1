import ManifestPolicy.Toml.Value

/-!
# Tables under construction

A document fills its tables piece by piece, and what a later piece may still add to depends
on how a table came about:

* a table written with a header cannot get a second header, nor be entered by a dotted key
  from outside;
* a table made by dotted keys is closed when the next header comes;
* a table that exists only because a table inside it was declared can still be declared
  itself, or be entered by a dotted key once;
* a table or an array that was written as a value is complete.

Of an array of tables only the last one can be added to. Every statement either adds to
the tables or is a fault, and one fault makes the whole document invalid.

## Main definitions

* `Origin`, `Node`: a table under construction and how it came about.
* `declareTable?`, `declareItem?`, `assign?`: what the three kinds of statement do.
* `toEntries`: the finished table.
-/

namespace ManifestPolicy.Toml

/-- How a table came about. -/
inductive Origin
  /-- A table inside it was declared. -/
  | implied
  /-- By dotted keys in the part of the document that follows `part` headers. -/
  | dotted (part : Nat)
  /-- By its own header. -/
  | header
deriving DecidableEq

/-- What a key leads to while the document is read. -/
inductive Node
  | value (value : Value)
  | table (origin : Origin) (entries : List (Text × Node))
  /-- An array of tables: the complete ones, and the entries of the last one. -/
  | tables (complete : List Value) (last : List (Text × Node))

/-- The entries of a table under construction, in the order of their keys. -/
abbrev Nodes := List (Text × Node)

mutual

/-- The value that a node has come to. -/
def Node.toValue : Node → Value
  | .value v => v
  | .table _ entries => .table (toEntries entries)
  | .tables complete last => .array (complete ++ [.table (toEntries last)])

/-- The entries of a finished table. -/
def toEntries : List (Text × Node) → List (Text × Value)
  | [] => []
  | e :: rest => (e.1, e.2.toValue) :: toEntries rest

end

/-- Changes the table at a path from a header, whose parts are declared by it if they do
not exist. -/
def changeAt? (change : Nodes → Option Nodes) : List Text → Nodes → Option Nodes
  | [], nodes => change nodes
  | k :: path, nodes => do
    let node ← match Entries.get? k nodes with
      | none => (changeAt? change path []).map (.table .implied)
      | some (.table origin inner) => (changeAt? change path inner).map (.table origin)
      | some (.tables complete last) => (changeAt? change path last).map (.tables complete)
      | some (.value _) => none
    return Entries.insert k node nodes

/-- Changes the table at the path of a dotted key in part `part` of a document. -/
def changeAtDotted? (part : Nat) (change : Nodes → Option Nodes) :
    List Text → Nodes → Option Nodes
  | [], nodes => change nodes
  | k :: path, nodes => do
    let inner ← match Entries.get? k nodes with
      | none => some []
      | some (.table .implied inner) => some inner
      | some (.table (.dotted n) inner) => if n = part then some inner else none
      | some (.table .header _) => none
      | some (.tables _ _) => none
      | some (.value _) => none
    let inner ← changeAtDotted? part change path inner
    return Entries.insert k (.table (.dotted part) inner) nodes

/-- Declares a table by its header. -/
def declareTable? (path : List Text) (last : Text) : Nodes → Option Nodes :=
  changeAt? (fun nodes =>
    match Entries.get? last nodes with
    | none => some (Entries.insert last (.table .header []) nodes)
    | some (.table .implied inner) => some (Entries.insert last (.table .header inner) nodes)
    | _ => none) path

/-- Declares one more table of an array by its header. -/
def declareItem? (path : List Text) (last : Text) : Nodes → Option Nodes :=
  changeAt? (fun nodes =>
    match Entries.get? last nodes with
    | none => some (Entries.insert last (.tables [] []) nodes)
    | some (.tables complete inner) =>
      some (Entries.insert last (.tables (complete ++ [.table (toEntries inner)]) []) nodes)
    | _ => none) path

/-- Gives a key, which must have none, its value; the key may be dotted. -/
def assignDotted? (part : Nat) (path : List Text) (last : Text) (value : Value) :
    Nodes → Option Nodes :=
  changeAtDotted? part (fun nodes =>
    match Entries.get? last nodes with
    | none => some (Entries.insert last (.value value) nodes)
    | some _ => none) path

/-- Gives a key its value in the table of the last header. -/
def assign? (part : Nat) (header path : List Text) (last : Text) (value : Value) :
    Nodes → Option Nodes :=
  changeAt? (assignDotted? part path last value) header

end ManifestPolicy.Toml
