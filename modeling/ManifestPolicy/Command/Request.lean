import ManifestPolicy.Path
import ManifestPolicy.Report

/-!
# Requests

The program has one command, which takes one optional argument and five options. Sorting a
list of arguments into the values of these, and showing a line on a stream, is left to the
console that the program runs on. The program turns the values into paths and a format, which
has to be one of two.

## Main definitions

* `Command.Values`: the values of the argument and of the options.
* `Command.Console`: what the program runs on.
* `Command.Request`: what the command is asked to do.
* `Command.Console.invocation`: what the arguments of the program ask for.
-/

namespace ManifestPolicy.Command

/-- The values of the argument and of the options, as they were given. -/
structure Values where
  manifest : Option Text := none
  ns : Option Text := none
  nilPolicy : Option Text := none
  root : Option Text := none
  config : Option Text := none
  format : Option Text := none
deriving DecidableEq

/-- What a list of arguments says. -/
inductive Parse
  /-- The arguments are not well formed. -/
  | usageError
  | help
  /-- The command is called with these values. -/
  | command (values : Values)
deriving DecidableEq

/-- What the program runs on. -/
structure Console where
  /-- Sorts the arguments of the program. -/
  parse : List Text → Parse
  /-- What a stream gets where a line is to be shown on it. -/
  echo : Text → Text

/-- What the command is asked to do. -/
structure Request where
  manifest : Path
  ns : Option Text
  nilPolicy : Option Text
  root : Option Path
  config : Option Path
  format : Report.Format
deriving DecidableEq

/-- The format with a given name, of the ones the command takes. -/
def format? (name : Text) : Option Report.Format :=
  if name = Text.ofString "json" then some .json
  else if name = Text.ofString "text" then some .text
  else none

/-- The argument for the manifest, or the one that it has by default. -/
def Values.manifestArgument (values : Values) : Text := values.manifest.getD "go.mod"

/-- The request that some values make. There is none if the format is unknown. -/
def Values.request? (values : Values) : Option Request :=
  (format? (values.format.getD "json")).map fun format =>
    ⟨.ofText values.manifestArgument, values.ns, values.nilPolicy, values.root.map .ofText,
      values.config.map .ofText, format⟩

/-- What the arguments of the program ask for. -/
inductive Invocation
  /-- The arguments are not well formed. -/
  | usageError
  | help
  | run (request : Request)
deriving DecidableEq

/-- What the arguments of the program ask for. -/
def Console.invocation (console : Console) (arguments : List Text) : Invocation :=
  match console.parse arguments with
  | .usageError => .usageError
  | .help => .help
  | .command values =>
    match values.request? with
    | none => .usageError
    | some request => .run request

end ManifestPolicy.Command
