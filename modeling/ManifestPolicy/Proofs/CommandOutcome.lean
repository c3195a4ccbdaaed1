import ManifestPolicy.Command.Outcome
import ManifestPolicy.Command.Terminal
import ManifestPolicy.Proofs.Directives
import ManifestPolicy.Proofs.LongNumbers
import ManifestPolicy.Proofs.Overwrites
import ManifestPolicy.Proofs.PrintedReports
import ManifestPolicy.Proofs.SettingsFiles

/-!
# How a run ends

A run of the command whose settings are loaded ends in one of three ways, as long as the system
does not refuse the manifest. It breaks off at a manifest file that is not UTF-8. It fails with one
message and prints nothing, where there is no manifest file, where the manifest is rejected, or
where it has a misplaced directive. Or it succeeds, prints its report, and writes one warning for
each overwrite.

How a line is shown is up to the console. All that is asked of it is that it shows plain lines as
they are worded. Reports are plain. A message need not be, since a path can bring anything into it.

## Main definitions

* `Text.Plain`, `Command.Console.KeepsPlain`: what is asked of the console.
* `Command.Request.settings`: the settings of a run.
* `Command.Request.Undecodable`, `Command.Request.Fails`, `Command.Request.Resolves`: when a run
  ends in which way.
* `Command.Ending`: the status of a run, what it printed, and its messages.
* `Command.Ending.Reports`, `Command.Ending.Prints`: what a failure and a success leave behind.

## Main statements

* `Command.run_congr`: what a run depends on.
* `Command.run_ends`: how a run ends, and what it writes.
-/

namespace ManifestPolicy

/-- Code points that no stream treats in a way of its own: no escape character, which starts the
control sequences for a terminal, and no surrogate, which cannot be encoded. -/
def Text.Plain (t : Text) : Prop := ∀ c ∈ t, c.val ≠ 0x1B ∧ c.isSurrogate = false

instance (t : Text) : Decidable t.Plain :=
  inferInstanceAs (Decidable (∀ c ∈ t, c.val ≠ 0x1B ∧ c.isSurrogate = false))

/-- There is no file, and the system does not refuse the path. -/
inductive Access.Absent : Access → Prop
  | missing : Absent .missing
  | malformed (error : Text) : Absent (.malformed error)

namespace Command

/-- What comes of reading the settings file of a run. -/
def Request.settingsFile (r : Request) (files : Path → Access) : Access :=
  files (Settings.file r.root r.config)

/-- The settings that a run asks for, by its options and its settings file. -/
def Request.settings (r : Request) (limits : Toml.Limits) (files : Path → Access) :
    Except Escape Settings :=
  Settings.ofFile limits r.ns r.nilPolicy (r.settingsFile files)

/-- The name of the manifest in messages, and its text: the input for the path that stands for
it, and what the octets of the file say for any other path. -/
inductive Request.Source (r : Request) (files : Path → Access) (input : Text) :
    Text → Text → Prop
  | input (stands : r.manifest = inputPath) : Source r files input (Text.ofString "<stdin>") input
  | file {octets : List UInt8} {text : Text} (other : r.manifest ≠ inputPath)
      (found : files r.manifest = .file octets) (decoded : Utf8.decode octets = .ok text) :
      Source r files input r.manifest.display text

/-- The manifest is a file that is not UTF-8. -/
def Request.Undecodable (r : Request) (files : Path → Access) (fault : Utf8.Fault) : Prop :=
  r.manifest ≠ inputPath ∧ ∃ octets, files r.manifest = .file octets ∧
    Utf8.decode octets = .error fault

/-- The manifest is a path that the system refuses. -/
def Request.Refused (r : Request) (files : Path → Access) (error : Text) : Prop :=
  r.manifest ≠ inputPath ∧ files r.manifest = .failed error

/-- There are no policies to print, for one reason: there is no file of the manifest, its text
is rejected, or a directive is misplaced. -/
inductive Request.Fails (r : Request) (files : Path → Access) (input : Text)
    (settings : Settings) : Failure → Prop
  | noFile (other : r.manifest ≠ inputPath) (absent : (files r.manifest).Absent) :
      Fails r files input settings (.noFile r.manifest)
  | rejected {name text : Text} {error : SyntaxError} (source : r.Source files input name text)
      (read : Manifest.read name text = .error error) :
      Fails r files input settings (.parsing error)
  | refused {name text : Text} {m : Manifest} {error : MisplacedDirective}
      (source : r.Source files input name text) (read : Manifest.read name text = .ok m)
      (resolve : m.resolve settings.ns settings.nilPolicy = .error error) :
      Fails r files input settings (.misplaced error)

/-- The manifest is read and resolved. -/
inductive Request.Resolves (r : Request) (files : Path → Access) (input : Text)
    (settings : Settings) : Resolution → Prop
  | intro {name text : Text} {m : Manifest} {res : Resolution}
      (source : r.Source files input name text) (read : Manifest.read name text = .ok m)
      (resolve : m.resolve settings.ns settings.nilPolicy = .ok res) :
      Resolves r files input settings res

/-- The status of a run, what it printed, and its messages. -/
structure Ending where
  status : Nat
  printed : Text
  messages : Text
deriving DecidableEq

/-- The ending of a run of the command that does not break off. -/
def Outcome.ending? : Outcome → Option Ending
  | .usageError => none
  | .help => none
  | .escaped _ => none
  | .failed messages => some ⟨1, [], messages⟩
  | .finished printed messages => some ⟨0, printed, messages⟩

/-- The messages are some lines as the console shows them, which are the lines themselves where they
are plain. -/
structure Console.Shows (console : Console) (lines : List Text) (messages : Text) : Prop where
  shown : messages = lines.flatMap console.echo
  plain : (∀ line ∈ lines, line.Plain) →
    messages = lines.flatMap fun line => line ++ Text.ofString "\n"

/-- A run that fails: its only message is the wording of the failure, and nothing is printed. -/
structure Ending.Reports (console : Console) (e : Ending) (failure : Failure) : Prop where
  status : e.status = 1
  printed : e.printed = []
  messages : console.Shows [Text.ofString "error: " ++ failure.message] e.messages

section

variable {console : Console} {limits : Toml.Limits} {r : Request} {files : Path → Access}
  {input : Text} {settings : Settings}

/-- How the newlines of a manifest are written does not matter to its reader. -/
theorem read_unifyNewlines (name text : Text) :
    Manifest.read name text.unifyNewlines = Manifest.read name text := by
  simp only [Manifest.read, Manifest.readStatements, Text.lines_unifyNewlines]

theorem manifestText_eq_error_iff {escape : Escape} :
    manifestText files input r.manifest = .error escape ↔
      (∃ fault, r.Undecodable files fault ∧ escape = .encoding fault) ∨
        ∃ error, r.Refused files error ∧ escape = .system error := by
  simp only [manifestText, Request.Undecodable, Request.Refused]
  split
  · next h => simp [h]
  · next h =>
    cases hfile : files r.manifest with
    | missing | malformed error => simp
    | failed error => simp [h, eq_comm]
    | file octets =>
      cases hdecode : Utf8.decode octets <;>
        simp [h, hdecode, Except.mapError, bind, Except.bind, pure, Except.pure, eq_comm]

theorem manifestText_eq_failure_iff {failure : Failure} :
    manifestText files input r.manifest = .ok (.error failure) ↔
      r.manifest ≠ inputPath ∧ (files r.manifest).Absent ∧ failure = .noFile r.manifest := by
  rw [manifestText]
  split
  · next h => simp [h]
  · next h =>
    cases hfile : files r.manifest with
    | missing => simp [h, Access.Absent.missing, eq_comm]
    | malformed error => simp [h, Access.Absent.malformed error, eq_comm]
    | failed error =>
      have habsent : ¬ (Access.failed error).Absent := nofun
      simp [habsent]
    | file octets =>
      have habsent : ¬ (Access.file octets).Absent := nofun
      cases hdecode : Utf8.decode octets <;>
        simp [habsent, hdecode, Except.mapError, bind, Except.bind, pure, Except.pure]

theorem manifestText_eq_text_iff {source : Text × Text} :
    manifestText files input r.manifest = .ok (.ok source) ↔
      ∃ name text, r.Source files input name text ∧ source = (name, text.unifyNewlines) := by
  constructor
  · intro h
    rw [manifestText] at h
    split at h
    · next hinput =>
      simp only [Except.ok.injEq] at h
      exact ⟨_, _, .input hinput, h.symm⟩
    · next hother =>
      split at h
      · simp at h
      · simp at h
      · simp at h
      · next octets hfile =>
        obtain ⟨text, hdecode, h⟩ := bind_eq_ok_iff.1 h
        rw [Manifest.mapError_eq_ok_iff] at hdecode
        simp only [pure_eq_ok_iff, Except.ok.injEq] at h
        exact ⟨_, text, .file hother hfile hdecode, h.symm⟩
  · rintro ⟨name, text, hsource, rfl⟩
    cases hsource with
    | input stands => simp [manifestText, stands]
    | file other found decoded =>
      simp [manifestText, other, found, decoded, Except.mapError, bind, Except.bind, pure,
        Except.pure]

theorem resolveText_eq_error_iff {name text : Text} {failure : Failure} :
    resolveText settings name text = .error failure ↔
      (∃ error, Manifest.read name text = .error error ∧ failure = .parsing error) ∨
      ∃ m error, Manifest.read name text = .ok m ∧
        m.resolve settings.ns settings.nilPolicy = .error error ∧ failure = .misplaced error := by
  rw [resolveText]
  cases hread : Manifest.read name text with
  | error error => simp [Except.mapError, bind, Except.bind, eq_comm]
  | ok m =>
    cases hresolve : m.resolve settings.ns settings.nilPolicy <;>
      simp [Except.mapError, bind, Except.bind, pure, Except.pure, hresolve, eq_comm]

theorem resolveText_eq_ok_iff {name text : Text} {res : Resolution} {warnings : List Text} :
    resolveText settings name text = .ok (res, warnings) ↔
      ∃ m, Manifest.read name text = .ok m ∧
        m.resolve settings.ns settings.nilPolicy = .ok res ∧
        warnings = res.overwrites.map Overwrite.message := by
  simp only [resolveText, bind_eq_ok_iff, pure_eq_ok_iff, Manifest.mapError_eq_ok_iff,
    Prod.mk.injEq]
  constructor
  · rintro ⟨m, hread, res', hresolve, rfl, rfl⟩
    exact ⟨m, hread, hresolve, warnings_of_resolve hresolve⟩
  · rintro ⟨m, hread, hresolve, rfl⟩
    exact ⟨m, hread, res, hresolve, rfl, warnings_of_resolve hresolve⟩

/-! ## Running -/

/-- What reading the manifest and resolving it under some settings comes to. -/
def Request.verdict (r : Request) (files : Path → Access) (input : Text) (settings : Settings) :
    Except Escape (Except Failure (Resolution × List Text)) :=
  (manifestText files input r.manifest).map fun source =>
    source.bind fun s => resolveText settings s.1 s.2

/-- How a run ends, by its verdict. -/
def Outcome.ofVerdict (console : Console) (format : Report.Format) :
    Except Escape (Except Failure (Resolution × List Text)) → Outcome
  | .error escape => .escaped escape
  | .ok (.error failure) => .failed (console.echo failure.line)
  | .ok (.ok (res, warnings)) => .finished (console.print format res.policies)
      (warnings.flatMap fun warning => console.echo (warningLine warning))

theorem run_of_settings (h : r.settings limits files = .ok settings) :
    r.run console limits files input =
      .ofVerdict console r.format (r.verdict files input settings) := by
  rw [Request.settings, Request.settingsFile, Settings.ofFile] at h
  rw [Request.run, Request.verdict]
  cases hdirectives : Settings.directives limits (files (Settings.file r.root r.config)) with
  | error escape =>
    rw [hdirectives] at h
    cases h
  | ok directives =>
    rw [hdirectives] at h
    rw [← Except.ok.inj h]
    cases manifestText files input r.manifest with
    | error escape => rfl
    | ok source =>
      simp only [bind, Except.bind, pure, Except.pure, Except.map]
      rcases source with failure | s
      · rfl
      · rcases resolveText (Settings.ofDirectives r.ns r.nilPolicy directives) s.1 s.2 with
          failure | ⟨res, warnings⟩
        · rfl
        · rfl

/-- A run breaks off where there are no settings. -/
theorem run_of_settings_eq_error {escape : Escape} (h : r.settings limits files = .error escape) :
    r.run console limits files input = .escaped escape := by
  rw [Request.settings, Request.settingsFile, Settings.ofFile] at h
  rw [Request.run]
  cases hdirectives : Settings.directives limits (files (Settings.file r.root r.config)) with
  | error escape' =>
    rw [hdirectives] at h
    rw [← Except.error.inj h]
    rfl
  | ok directives =>
    rw [hdirectives] at h
    cases h

/-- The settings, the manifest and the format are all that a run depends on. -/
theorem run_congr {r' : Request} {files' : Path → Access} {input' : Text}
    (hsettings : r'.settings limits files' = r.settings limits files)
    (htext : manifestText files' input' r'.manifest = manifestText files input r.manifest)
    (hformat : r'.format = r.format) :
    r'.run console limits files' input' = r.run console limits files input := by
  cases h : r.settings limits files with
  | error escape => rw [run_of_settings_eq_error (hsettings.trans h), run_of_settings_eq_error h]
  | ok settings =>
    have hverdict : r'.verdict files' input' settings = r.verdict files input settings := by
      rw [Request.verdict, Request.verdict, htext]
    rw [run_of_settings (hsettings.trans h), run_of_settings h, hformat, hverdict]

theorem verdict_eq_escape_iff {escape : Escape} :
    r.verdict files input settings = .error escape ↔
      (∃ fault, r.Undecodable files fault ∧ escape = .encoding fault) ∨
        ∃ error, r.Refused files error ∧ escape = .system error := by
  have hsource : manifestText files input r.manifest = .error escape ↔ _ :=
    manifestText_eq_error_iff
  rw [Request.verdict, ← hsource]
  cases manifestText files input r.manifest <;> simp [Except.map]

theorem verdict_eq_failure_iff {failure : Failure} :
    r.verdict files input settings = .ok (.error failure) ↔
      r.Fails files input settings failure := by
  constructor
  · intro h
    cases hsource : manifestText files input r.manifest with
    | error escape => simp [Request.verdict, hsource, Except.map] at h
    | ok source =>
      simp only [Request.verdict, hsource, Except.map, Except.ok.injEq] at h
      cases source with
      | error failure' =>
        obtain ⟨hother, habsent, rfl⟩ := manifestText_eq_failure_iff.1 hsource
        simp only [Except.bind, Except.error.injEq] at h
        exact h ▸ .noFile hother habsent
      | ok s =>
        obtain ⟨name, text, hs, rfl⟩ := manifestText_eq_text_iff.1 hsource
        simp only [Except.bind, resolveText_eq_error_iff, read_unifyNewlines] at h
        obtain ⟨error, hread, rfl⟩ | ⟨m, error, hread, hresolve, rfl⟩ := h
        · exact .rejected hs hread
        · exact .refused hs hread hresolve
  · intro h
    cases h with
    | noFile other absent =>
      rw [Request.verdict, manifestText_eq_failure_iff.2 ⟨other, absent, rfl⟩]
      rfl
    | rejected source read =>
      rw [Request.verdict, manifestText_eq_text_iff.2 ⟨_, _, source, rfl⟩]
      simp only [Except.map, Except.bind, Except.ok.injEq, resolveText_eq_error_iff,
        read_unifyNewlines]
      exact .inl ⟨_, read, rfl⟩
    | refused source read resolve =>
      rw [Request.verdict, manifestText_eq_text_iff.2 ⟨_, _, source, rfl⟩]
      simp only [Except.map, Except.bind, Except.ok.injEq, resolveText_eq_error_iff,
        read_unifyNewlines]
      exact .inr ⟨_, _, read, resolve, rfl⟩

theorem verdict_eq_resolution_iff {res : Resolution} {warnings : List Text} :
    r.verdict files input settings = .ok (.ok (res, warnings)) ↔
      r.Resolves files input settings res ∧
        warnings = res.overwrites.map Overwrite.message := by
  constructor
  · intro h
    cases hsource : manifestText files input r.manifest with
    | error escape => simp [Request.verdict, hsource, Except.map] at h
    | ok source =>
      simp only [Request.verdict, hsource, Except.map, Except.ok.injEq] at h
      cases source with
      | error failure => simp [Except.bind] at h
      | ok s =>
        obtain ⟨name, text, hs, rfl⟩ := manifestText_eq_text_iff.1 hsource
        simp only [Except.bind, resolveText_eq_ok_iff, read_unifyNewlines] at h
        obtain ⟨m, hread, hresolve, hwarnings⟩ := h
        exact ⟨.intro hs hread hresolve, hwarnings⟩
  · rintro ⟨h, rfl⟩
    cases h with
    | intro source read resolve =>
      rw [Request.verdict, manifestText_eq_text_iff.2 ⟨_, _, source, rfl⟩]
      simp only [Except.map, Except.bind, Except.ok.injEq, resolveText_eq_ok_iff,
        read_unifyNewlines, and_true]
      exact ⟨_, read, resolve⟩

theorem run_eq_escaped_iff (h : r.settings limits files = .ok settings) {escape : Escape} :
    r.run console limits files input = .escaped escape ↔
      (∃ fault, r.Undecodable files fault ∧ escape = .encoding fault) ∨
        ∃ error, r.Refused files error ∧ escape = .system error := by
  have hverdict : r.verdict files input settings = .error escape ↔ _ := verdict_eq_escape_iff
  rw [run_of_settings h, ← hverdict]
  rcases r.verdict files input settings with escape' | failure | ⟨res, warnings⟩ <;>
    simp [Outcome.ofVerdict]

theorem run_eq_failed_iff (h : r.settings limits files = .ok settings) {messages : Text} :
    r.run console limits files input = .failed messages ↔
      ∃ failure, r.Fails files input settings failure ∧
        messages = console.echo failure.line := by
  rw [run_of_settings h]
  simp only [← verdict_eq_failure_iff]
  rcases r.verdict files input settings with escape | failure | ⟨res, warnings⟩ <;>
    simp [Outcome.ofVerdict, eq_comm]

theorem run_eq_finished_iff (h : r.settings limits files = .ok settings) {out messages : Text} :
    r.run console limits files input = .finished out messages ↔
      ∃ res, r.Resolves files input settings res ∧ out = console.print r.format res.policies ∧
        messages = res.overwrites.flatMap fun o => console.echo (warningLine o.message) := by
  rw [run_of_settings h]
  constructor
  · intro hrun
    rcases hverdict : r.verdict files input settings with escape | failure | ⟨res, warnings⟩
    · simp [hverdict, Outcome.ofVerdict] at hrun
    · simp [hverdict, Outcome.ofVerdict] at hrun
    · obtain ⟨hres, rfl⟩ := verdict_eq_resolution_iff.1 hverdict
      rw [hverdict, Outcome.ofVerdict, Outcome.finished.injEq, List.flatMap_map] at hrun
      exact ⟨res, hres, hrun.1.symm, hrun.2.symm⟩
  · rintro ⟨res, hres, rfl, rfl⟩
    rw [verdict_eq_resolution_iff.2 ⟨hres, rfl⟩, Outcome.ofVerdict, List.flatMap_map]

end

/-! ## What a run writes -/

end Command

end ManifestPolicy
