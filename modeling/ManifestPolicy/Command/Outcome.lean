import ManifestPolicy.Command.Request
import ManifestPolicy.Manifest.Entry
import ManifestPolicy.Resolution
import ManifestPolicy.Settings

/-!
# Running the command

The command reads the settings, then the manifest, and prints the policies of the manifest.
Overwrites are reported as warnings once the whole manifest is resolved, so a run that
fails prints its one error and nothing else.

Files are given as a function from paths to what comes of trying to read them. An error that
nobody makes up for ends the run with nothing written.

## Main definitions

* `Command.Outcome`: how a run ends.
* `Command.manifestText`: reads the manifest from its file or from the input.
* `Command.Request.run`: runs the command.
* `Command.run`: runs the program.
-/

namespace ManifestPolicy.Command

/-- How a run ends. -/
inductive Outcome
  /-- The arguments were not well formed. -/
  | usageError
  | help
  /-- An error that nobody makes up for. -/
  | escaped (escape : Escape)
  /-- A failure, with what was written to the messages. -/
  | failed (messages : Text)
  /-- A success, with what was printed and what was written to the messages. -/
  | finished (printed messages : Text)
deriving DecidableEq

/-- Why there is no policy to print. -/
inductive Failure
  | noFile (path : Path)
  | parsing (error : SyntaxError)
  | misplaced (error : MisplacedDirective)
deriving DecidableEq

/-- The wording of a failure. -/
def Failure.message : Failure → Text
  | .noFile path => path.display ++ Text.ofString ": no such file"
  | .parsing e => e.message
  | .misplaced e => e.message

/-- The line that reports a failure. -/
def Failure.line (failure : Failure) : Text := Text.ofString "error: " ++ failure.message

/-- The line that reports a warning. -/
def warningLine (warning : Text) : Text := Text.ofString "warning: " ++ warning

/-- The path that stands for the input. -/
def inputPath : Path := .ofText "-"

/-- The text of the manifest and its name in messages. It is read from the file, or from the
input for the path that stands for it; newlines are unified on the way. There is no such file
where the path is malformed, but where the system refuses it, this escapes. -/
def manifestText (files : Path → Access) (input : Text) (path : Path) :
    Except Escape (Except Failure (Text × Text)) :=
  if path = inputPath then .ok (.ok (Text.ofString "<stdin>", input.unifyNewlines))
  else
    match files path with
    | .missing => .ok (.error (.noFile path))
    | .malformed _ => .ok (.error (.noFile path))
    | .failed error => .error (.system error)
    | .file octets => do
      let text ← (Utf8.decode octets).mapError .encoding
      return .ok (path.display, text.unifyNewlines)

/-- The resolution of a manifest text under settings, with its warnings. -/
def resolveText (settings : Settings) (name text : Text) :
    Except Failure (Resolution × List Text) := do
  let manifest ← (Manifest.read name text).mapError .parsing
  let resolution ← (manifest.resolve settings.ns settings.nilPolicy).mapError .misplaced
  return (resolution, manifest.warnings settings.ns settings.nilPolicy)

/-- What a success prints: the report, if there is a line of it. -/
def Console.print (console : Console) (format : Report.Format) (policies : Dictionary Text) :
    Text :=
  let report := Report.render policies format
  if report.isEmpty then [] else console.echo report

variable (console : Console) (limits : Toml.Limits)

/-- Runs the command. -/
def Request.run (r : Request) (files : Path → Access) (input : Text) : Outcome :=
  let result := do
    let directives ← Settings.directives limits (files (Settings.file r.root r.config))
    let settings := Settings.ofDirectives r.ns r.nilPolicy directives
    let source ← manifestText files input r.manifest
    return source.bind fun s => resolveText settings s.1 s.2
  match result with
  | .error escape => .escaped escape
  | .ok (.error failure) => .failed (console.echo failure.line)
  | .ok (.ok (resolution, warnings)) =>
    .finished (console.print r.format resolution.policies)
      (warnings.flatMap fun warning => console.echo (warningLine warning))

/-- Runs the program. -/
def run (arguments : List Text) (files : Path → Access) (input : Text) : Outcome :=
  match console.invocation arguments with
  | .usageError => .usageError
  | .help => .help
  | .run request => request.run console limits files input

end ManifestPolicy.Command
