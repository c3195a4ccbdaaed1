import ManifestPolicy.Command.Outcome
import ManifestPolicy.Command.Terminal

/-!
# The program

Reads the files and the input that the command may need, runs the command, and writes what
it printed and its messages. The status is 0 for a success, 1 for a failure and 2 for
arguments that are not well formed.
-/

namespace ManifestPolicy

/-- The characters of a text. -/
def stringOf (t : Text) : String :=
  t.showSurrogates.foldl (fun acc c => acc.push (Char.ofNat c.val)) ""

/-- Tries to read the file that a path leads to. -/
def readFile (p : Path) : IO Access := do
  match p.malformed? with
  | some error => return .malformed error
  | none =>
    try
      let octets ← IO.FS.readBinFile (stringOf p.display)
      return .file octets.toList
    catch
      | .noFileOrDirectory .. => return .missing
      | .inappropriateType .. => return .missing
      | error => return .failed (Text.ofString (toString error))

/-- The text of the input. Octets that are not UTF-8 are refused. -/
def readInput : IO Text := do
  let octets ← (← IO.getStdin).readToEnd
  return Text.ofString octets

/-- The files and the input that a request needs. -/
def gather (r : Command.Request) : IO ((Path → Access) × Text) := do
  let settingsPath := Settings.file r.root r.config
  let settings ← readFile settingsPath
  if r.manifest = Command.inputPath then
    return (fun p => if p = settingsPath then settings else .missing, ← readInput)
  else
    let manifest ← readFile r.manifest
    return (fun p => if p = r.manifest then manifest else if p = settingsPath then settings
      else .missing, [])

/-- How the arguments are written. -/
def usage : String :=
  "usage: policies [--namespace NAME] [--nil-policy NAME] [--root DIRECTORY] " ++
    "[--config FILE] [--format json|text] [MANIFEST]"

/-- Writes what a run printed, and answers with its status. -/
def report : Command.Outcome → IO UInt32
  | .usageError => do
    IO.eprintln usage
    return 2
  | .help => do
    IO.println usage
    return 0
  | .escaped escape => do
    IO.eprintln (stringOf escape.message)
    return 1
  | .failed messages => do
    IO.eprint (stringOf messages)
    return 1
  | .finished printed messages => do
    IO.eprint (stringOf messages)
    IO.print (stringOf printed)
    return 0

end ManifestPolicy

open ManifestPolicy in
/-- The program. -/
def main (arguments : List String) : IO UInt32 := do
  let words := arguments.map Text.ofString
  match Command.Console.standard.invocation words with
  | .run request =>
    let (files, input) ← gather request
    report (request.run .standard .usual files input)
  | _ => report (Command.run .standard .usual words (fun _ => .missing) [])
