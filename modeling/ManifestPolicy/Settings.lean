import ManifestPolicy.Access
import ManifestPolicy.Text.Blank
import ManifestPolicy.Toml.Document

/-!
# Settings

The namespace of the directives and the nil policy. Each is taken from the first of three
places that gives it: an explicit value, the settings file, and the value built in. An
empty explicit value gives nothing, and neither does a value of the file that is no text
or only blanks.

A settings file that does not exist, that the system refuses, or that is no valid document
gives nothing. Everything else that can go wrong is an escape: a malformed path, a file that is
not UTF-8, and a text that the reader gives up.

## Main definitions

* `Settings.file`: the path of the settings file.
* `Settings.table`: what the file says.
* `Settings.directives`: what it says about directives.
* `Settings.ofDirectives`: the settings in effect.
-/

namespace ManifestPolicy

/-- The namespace of the directives, and the policy that stands for having none. -/
structure Settings where
  ns : Text
  nilPolicy : Text
deriving DecidableEq

namespace Settings

/-- The settings built in. -/
def builtIn : Settings := ⟨"gomodjail", "unconfined"⟩

/-- The settings file: the one given, or the one with the usual name below the root. -/
def file (root config : Option Path) : Path :=
  config.getD ((root.getD .current).child "gomoddirectivecomments.toml")

/-- The table that the settings file describes, which is empty for a file that gives
nothing. -/
def table (limits : Toml.Limits) : Access → Except Escape (List (Text × Toml.Value))
  | .missing => .ok []
  | .failed _ => .ok []
  | .malformed error => .error (.path error)
  | .file octets => do
    let text ← (Utf8.decode octets).mapError .encoding
    match Toml.parse limits text with
    | .ok entries => return entries
    | .error .invalid => return []
    | .error (.excess excess) => throw (.excess excess)

/-- What the settings file says about directives. -/
def directives (limits : Toml.Limits) (access : Access) :
    Except Escape (List (Text × Toml.Value)) := do
  let entries ← table limits access
  return ((Entries.get? "directives" entries).bind Toml.Value.entries?).getD []

/-- The text that the settings file gives to a key: without the blanks around it, and not
empty. -/
def configured? (directives : List (Text × Toml.Value)) (key : Text) : Option Text :=
  (((Entries.get? key directives).bind Toml.Value.text?).map Text.trim).filter
    fun t => !t.isEmpty

/-- The settings in effect. -/
def ofDirectives (ns nilPolicy : Option Text) (directives : List (Text × Toml.Value)) :
    Settings where
  ns :=
    ((ns.filter fun t => !t.isEmpty).or (configured? directives "namespace")).getD builtIn.ns
  nilPolicy :=
    ((nilPolicy.filter fun t => !t.isEmpty).or (configured? directives "nil_policy")).getD
      builtIn.nilPolicy

end Settings

end ManifestPolicy
