import ManifestPolicy.Dictionary
import ManifestPolicy.Text.Quoted

/-!
# Reports

The policies of a manifest as printed: one line for each path, in the order of the paths,
or one object with the paths as names. Paths and policies are written as quoted strings,
so a report is ASCII and no path or policy can be taken for another part of it.

## Main definitions

* `Report.Format`: the two forms.
* `Report.render`: the report of a mapping.
-/

namespace ManifestPolicy.Report

/-- The forms of a report. -/
inductive Format
  | json
  | text
deriving DecidableEq

/-- The form with a given name. Any other name stands for the text form. -/
def Format.ofName (name : Text) : Format :=
  if name = Text.ofString "json" then .json else .text

/-- One entry of the object: two spaces, the path, and the policy after a colon. -/
def member (e : Text × Text) : Text :=
  Text.ofString "  " ++ Quoted.encode e.1 ++ Text.ofString ": " ++ Quoted.encode e.2

/-- One line of the text form. -/
def sentence (e : Text × Text) : Text :=
  Text.ofString "module " ++ Quoted.encode e.1 ++ Text.ofString " has policy " ++
    Quoted.encode e.2

/-- The report of some entries in the given form. -/
def renderEntries : Format → List (Text × Text) → Text
  | .json, [] => "\x7b\x7d"
  | .json, e :: rest =>
    Text.ofString "\x7b\n" ++ Text.join (Text.ofString ",\n") ((e :: rest).map member) ++
      Text.ofString "\n\x7d"
  | .text, entries => Text.join (Text.ofString "\n") (entries.map sentence)

/-- The report of a mapping. -/
def render (policies : Dictionary Text) (format : Format) : Text :=
  renderEntries format policies.toList

end ManifestPolicy.Report
