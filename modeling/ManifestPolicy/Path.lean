import ManifestPolicy.Text.Basic

/-!
# Paths

A path is a root and the names to follow from it. Names that are empty or a single dot
lead nowhere and are dropped, so two spellings that differ in them are one path. Two dots
are kept: where they lead depends on the files.

## Main definitions

* `Path.ofText`: reads a path.
* `Path.display`: its shortest spelling.
* `Path.child`: the path of a name below another path.
-/

namespace ManifestPolicy

/-- A path. The root is empty for a path from the working directory. -/
structure Path where
  root : Text
  names : List Text
deriving DecidableEq

namespace Path

/-- The code point between names. -/
def separator : CodePoint := '/'

/-- The name that leads nowhere. -/
def here : Text := ['.']

/-- The name that leads up. -/
def up : Text := ['.', '.']

/-- The root of a path: one separator, unless it starts with exactly two. -/
def rootOf (t : Text) : Text :=
  let slashes := t.takeWhile fun c => c = separator
  if slashes.isEmpty then [] else if slashes.length = 2 then slashes else [separator]

/-- Reads a path. -/
def ofText (t : Text) : Path :=
  ⟨rootOf t, (t.cutAt fun c => c = separator).filter fun n => !n.isEmpty && n ≠ here⟩

/-- The shortest spelling of a path. The empty path is spelled with a dot. -/
def display (p : Path) : Text :=
  if p.root.isEmpty && p.names.isEmpty then here
  else p.root ++ Text.join [separator] p.names

/-- The path of the working directory. -/
def current : Path := ⟨[], []⟩

/-- The path of a name below a path. -/
def child (p : Path) (name : Text) : Path := ⟨p.root, p.names ++ [name]⟩

end Path

end ManifestPolicy
