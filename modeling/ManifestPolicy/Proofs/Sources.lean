import ManifestPolicy.Proofs.CommandOutcome
import ManifestPolicy.Proofs.EncodedOctets

/-!
# Where a manifest comes from

A manifest can be given as a text, as octets, in a file, and to the command in a file or as its
input. Files and the input go through one more step than texts do: their newlines are unified.
All ways lead to the same manifest, because octets of a text are read back as that text, and
because only the lines of a text matter, which unified newlines keep.

The lines do not depend on what ends them either. So a text may use any one of the ends of lines,
and may leave out the last one where a line that is not empty stands there.

The ways differ in the name of the manifest. It is kept beside everything that is read, and
only messages show it.

## Main definitions

* `Text.Terminator`, `Text.Terminated`: the ends of lines, and texts that use one of them.
* `Manifest.withName`: a manifest with another name, and errors likewise.
* `Command.Outcome.Alike`: runs that end alike but for the names in their messages.

## Main statements

* `Text.lines_of_terminated`: the lines of a text do not depend on what ends them.
* `Manifest.read_withName`: the name is kept and not read.
* `Manifest.read_any_source`: all ways of giving a manifest agree.
-/

namespace ManifestPolicy

namespace Text

/-- What can end a line: one code point of its own, or a carriage return with a line feed. -/
inductive Terminator : Text → Prop
  | single {c : CodePoint} (ends : c.endsLine = true) : Terminator [c]
  | both : Terminator ['\r', '\n']

/-- The text with these lines, each with the same end. -/
def endedBy (terminator : Text) (ls : List Text) : Text := ls.flatMap fun l => l ++ terminator

/-- The text has these lines, and each of them has the same end, save that a last line which is not
empty may stand without. -/
inductive Terminated (terminator : Text) : List Text → Text → Prop
  | closed (ls : List Text) : Terminated terminator ls (endedBy terminator ls)
  | unclosed (ls : List Text) {last : Text} (filled : last ≠ []) :
      Terminated terminator (ls ++ [last]) (endedBy terminator ls ++ last)

theorem endedBy_cons (terminator l : Text) (ls : List Text) :
    endedBy terminator (l :: ls) = l ++ (terminator ++ endedBy terminator ls) := by
  rw [endedBy, List.flatMap_cons, List.append_assoc]
  rfl

theorem OneLine.carriageReturn_not_mem {l : Text} (h : l.OneLine) : ('\r' : CodePoint) ∉ l :=
  fun hc => absurd (h _ hc) (by decide)

theorem unifyNewlines_append {l : Text} (h : ('\r' : CodePoint) ∉ l) (t : Text) :
    unifyNewlines (l ++ t) = l ++ unifyNewlines t := by
  induction l with
  | nil => rfl
  | cons c l ih =>
    rw [List.mem_cons, not_or] at h
    rw [List.cons_append, unifyNewlines, if_neg (Ne.symm h.1), ih h.2, List.cons_append]

/-- Lines that end in carriage returns do not start with a line feed. -/
theorem head?_endedBy_ne {ls : List Text} (h : ∀ l ∈ ls, l.OneLine) {last : Text}
    (hlast : last.OneLine) :
    (endedBy ['\r'] ls ++ last).head? ≠ some ('\n' : CodePoint) := by
  have hline {l : Text} (hl : l.OneLine) : l.head? ≠ some ('\n' : CodePoint) :=
    fun hhead => absurd (hl _ (List.mem_of_head? hhead)) (by decide)
  cases ls with
  | nil => exact hline hlast
  | cons l ls =>
    rw [endedBy_cons]
    cases l with
    | nil => exact fun hhead => absurd (Option.some.inj hhead) (by decide)
    | cons c l =>
      have hfirst := hline (h (c :: l) List.mem_cons_self)
      rwa [List.append_assoc, List.cons_append, List.head?_cons]

/-- Unifying newlines leaves every line with one code point at its end, whatever ended it. -/
theorem exists_unifyNewlines_endedBy {terminator : Text} (hterm : Terminator terminator)
    {last : Text} (hlast : last.OneLine) :
    ∃ c : CodePoint, c.endsLine = true ∧ ∀ ls : List Text, (∀ l ∈ ls, l.OneLine) →
      unifyNewlines (endedBy terminator ls ++ last) = endedBy [c] ls ++ last := by
  have hnil : unifyNewlines last = last :=
    unifyNewlines_of_not_mem hlast.carriageReturn_not_mem
  -- one line with its end at a time: only what the end becomes depends on the terminator
  have hall {c : CodePoint} (hstep : ∀ ls : List Text, (∀ l ∈ ls, l.OneLine) →
      unifyNewlines (terminator ++ (endedBy terminator ls ++ last)) =
        c :: unifyNewlines (endedBy terminator ls ++ last)) (ls : List Text)
      (h : ∀ l ∈ ls, l.OneLine) :
      unifyNewlines (endedBy terminator ls ++ last) = endedBy [c] ls ++ last := by
    induction ls with
    | nil => exact hnil
    | cons l ls ih =>
      rw [List.forall_mem_cons] at h
      rw [endedBy_cons, endedBy_cons, List.append_assoc, List.append_assoc,
        unifyNewlines_append h.1.carriageReturn_not_mem, hstep ls h.2, ih h.2,
        List.singleton_append, List.append_assoc, List.cons_append]
  cases hterm with
  | @single c ends =>
    by_cases hc : c = '\r'
    · refine ⟨'\n', by decide, hall fun ls h => ?_⟩
      rw [hc, List.singleton_append, unifyNewlines, if_pos rfl, if_neg (head?_endedBy_ne h hlast)]
    · refine ⟨c, ends, hall fun ls _ => ?_⟩
      rw [List.singleton_append, unifyNewlines, if_neg hc]
  | both =>
    refine ⟨'\n', by decide, hall fun ls _ => ?_⟩
    rw [List.cons_append, List.singleton_append, unifyNewlines, if_pos rfl, List.head?_cons,
      if_pos rfl, unifyNewlines, if_neg (by decide)]

theorem cutLines_of_oneLine {l : Text} (h : l.OneLine) (hne : l ≠ []) : cutLines l = [l] := by
  induction l with
  | nil => exact absurd rfl hne
  | cons c l ih =>
    rw [cutLines, if_neg (by simp [h c List.mem_cons_self])]
    cases l with
    | nil => rfl
    | cons d l => rw [ih (fun e he => h e (List.mem_cons_of_mem _ he)) (by simp)]

theorem cutLines_endedBy {c : CodePoint} (hc : c.endsLine = true) {ls : List Text}
    (h : ∀ l ∈ ls, l.OneLine) (t : Text) : cutLines (endedBy [c] ls ++ t) = ls ++ cutLines t := by
  induction ls with
  | nil => rfl
  | cons l ls ih =>
    rw [List.forall_mem_cons] at h
    rw [endedBy_cons, List.append_assoc, List.append_assoc, List.singleton_append,
      cutLines_append h.1 hc, ih h.2, List.cons_append]

/-- **The lines of a text do not depend on what ends them.** -/
theorem lines_of_terminated {terminator text : Text} {ls : List Text}
    (hterm : Terminator terminator) (h : ∀ l ∈ ls, l.OneLine)
    (htext : Terminated terminator ls text) : lines text = ls := by
  cases htext with
  | closed =>
    have hnil : OneLine [] := by simp [OneLine]
    obtain ⟨c, hc, hunify⟩ := exists_unifyNewlines_endedBy hterm hnil
    have hlines := hunify ls h
    rw [List.append_nil] at hlines
    rw [lines, hlines, cutLines_endedBy hc h]
    exact List.append_nil ls
  | @unclosed ls last filled =>
    have hlast : last.OneLine := h last (by simp)
    have hinit : ∀ l ∈ ls, l.OneLine := fun l hl => h l (List.mem_append_left _ hl)
    obtain ⟨c, hc, hunify⟩ := exists_unifyNewlines_endedBy hterm hlast
    rw [lines, hunify ls hinit, cutLines_endedBy hc hinit, cutLines_of_oneLine hlast filled]

end Text

def SyntaxError.withName (name : Text) (e : SyntaxError) : SyntaxError := { e with name }

def MisplacedDirective.withName (name : Text) (e : MisplacedDirective) : MisplacedDirective :=
  { e with name }

namespace Manifest

/-- A manifest with another name. -/
def withName (name : Text) (m : Manifest) : Manifest := { m with name }

/-- The name of a manifest is kept and not read. -/
theorem read_withName (name name' text : Text) :
    read name' text = ((read name text).map (withName name')).mapError (.withName name') := by
  simp only [read]
  cases readStatements text with
  | error fault => rfl
  | ok statements =>
    simp only [Except.bind, ofStatements]
    cases declarations statements with
    | error fault => rfl
    | ok d => rfl

/-- A resolution shows the name only where it is refused. -/
theorem resolve_withName (ns nilPolicy name : Text) (m : Manifest) :
    (m.withName name).resolve ns nilPolicy =
      (m.resolve ns nilPolicy).mapError (.withName name) := by
  have hmisplaced : (m.withName name).misplaced? ns =
      (m.misplaced? ns).map (.withName name) := by
    simp only [misplaced?, withName]
    cases m.goEntry with
    | none => rfl
    | some e =>
      simp only [Option.bind_some, List.map_findSome?]
      congr 1
      funext c
      rw [Function.comp, Option.map_map]
      rfl
  simp only [resolve, hmisplaced]
  cases m.misplaced? ns with
  | none => rfl
  | some e => rfl

theorem read_eq_of_lines {text text' : Text} (h : text.lines = text'.lines) (name : Text) :
    read name text = read name text' := by
  simp only [read, readStatements, h]

theorem readOctets_encode {s : Text} (h : ∀ c ∈ s, c.isSurrogate = false) (name : Text) :
    readOctets name (Utf8.encode s) = (read name s).mapError .parsing := by
  rw [readOctets, Utf8.decode_encode h]
  rfl

theorem readFile_encode {s : Text} (h : ∀ c ∈ s, c.isSurrogate = false) (name : Text) :
    readFile name (Utf8.encode s) = (read name s).mapError .parsing := by
  rw [readFile, Utf8.decode_encode h, read_eq_of_lines (Text.lines_unifyNewlines s).symm name]
  rfl

end Manifest

namespace Command

variable {console : Console} {limits : Toml.Limits}

/-- Runs that end in the same way and write the same, but for the name of the manifest in the
message of a failure. -/
inductive Outcome.Alike (console : Console) (name name' : Text) : Outcome → Outcome → Prop
  | escaped (escape : Escape) : Alike console name name' (.escaped escape) (.escaped escape)
  | rejected (e : SyntaxError) :
      Alike console name name' (.failed (console.echo (Failure.parsing (e.withName name)).line))
        (.failed (console.echo (Failure.parsing (e.withName name')).line))
  | refused (e : MisplacedDirective) :
      Alike console name name' (.failed (console.echo (Failure.misplaced (e.withName name)).line))
        (.failed (console.echo (Failure.misplaced (e.withName name')).line))
  | finished (printed messages : Text) :
      Alike console name name' (.finished printed messages) (.finished printed messages)

/-- Runs that end alike have the same status and print the same. -/
theorem Outcome.Alike.ending?_eq {name name' : Text} {o o' : Outcome}
    (h : Alike console name name' o o') :
    o.ending?.map (fun e => (e.status, e.printed)) =
      o'.ending?.map fun e => (e.status, e.printed) := by
  cases h with
  | escaped | rejected | refused | finished => rfl

/-- A text that is resolved under two names ends alike. -/
theorem alike_ofVerdict (format : Report.Format) (settings : Settings) (name name' text : Text) :
    Outcome.Alike console name name'
      (.ofVerdict console format (.ok (resolveText settings name text)))
      (.ofVerdict console format (.ok (resolveText settings name' text))) := by
  have hread (n : Text) := Manifest.read_withName [] n text
  rw [resolveText, resolveText, hread name, hread name']
  cases Manifest.read [] text with
  | error e => exact .rejected e
  | ok m =>
    have hresolve (n : Text) := Manifest.resolve_withName settings.ns settings.nilPolicy n m
    cases hm : m.resolve settings.ns settings.nilPolicy with
    | error e =>
      simp only [Except.map, Except.mapError, bind, Except.bind, hresolve, hm]
      exact .refused e
    | ok res =>
      have hok (n : Text) :
          (m.withName n).resolve settings.ns settings.nilPolicy = .ok res := by
        rw [hresolve, hm]
        rfl
      simp only [Except.map, Except.mapError, bind, Except.bind, hok, warnings_of_resolve (hok _)]
      exact .finished _ _

/-- A run on a file ends like a run on the input, where both hold the same text. -/
theorem alike_run {s : Text} (hs : ∀ c ∈ s, c.isSurrogate = false) {r : Request}
    {files : Path → Access} (hother : r.manifest ≠ inputPath)
    (hfile : files r.manifest = .file (Utf8.encode s)) (input : Text) :
    Outcome.Alike console r.manifest.display "<stdin>" (r.run console limits files input)
      (Request.run console limits { r with manifest := inputPath } files s) := by
  have hsame : Request.settings { r with manifest := inputPath } limits files =
      r.settings limits files := rfl
  cases hsettings : r.settings limits files with
  | error escape =>
    rw [run_of_settings_eq_error hsettings, run_of_settings_eq_error (hsame.trans hsettings)]
    exact .escaped escape
  | ok settings =>
    rw [run_of_settings hsettings, run_of_settings (hsame.trans hsettings), Request.verdict,
      Request.verdict,
      manifestText_eq_text_iff.2 ⟨_, s, .file hother hfile (Utf8.decode_encode hs), rfl⟩,
      manifestText_eq_text_iff.2 ⟨_, s, .input rfl, rfl⟩]
    exact alike_ofVerdict r.format _ _ _ _

end Command

namespace Manifest

/-- **All ways of giving a manifest agree.** A text, its octets and a file of them are read as the
same manifest or rejected with the same error. Runs of the command on the file and on the input
end alike but for the name of the manifest. And texts with the same lines are read alike, whatever
ends their lines. -/
theorem read_any_source {s : Text} (hs : ∀ c ∈ s, c.isSurrogate = false) :
    (∀ name, readOctets name (Utf8.encode s) = (read name s).mapError .parsing ∧
      readFile name (Utf8.encode s) = (read name s).mapError .parsing) ∧
    (∀ {console : Command.Console} {limits : Toml.Limits} {arguments arguments' : List Text}
      {r : Command.Request} {files : Path → Access} (input : Text),
      console.invocation arguments = .run r →
      console.invocation arguments' = .run { r with manifest := Command.inputPath } →
      r.manifest ≠ Command.inputPath → files r.manifest = .file (Utf8.encode s) →
      Command.Outcome.Alike console r.manifest.display "<stdin>"
          (Command.run console limits arguments files input)
          (Command.run console limits arguments' files s) ∧
        (Command.run console limits arguments files input).ending?.map
            (fun e => (e.status, e.printed)) =
          (Command.run console limits arguments' files s).ending?.map
            fun e => (e.status, e.printed)) ∧
    ∀ {ls : List Text} {terminator terminator' text text' : Text} (name : Text),
      (∀ l ∈ ls, l.OneLine) → Text.Terminator terminator → Text.Terminator terminator' →
      Text.Terminated terminator ls text → Text.Terminated terminator' ls text' →
      read name text = read name text' := by
  refine ⟨fun name => ⟨readOctets_encode hs name, readFile_encode hs name⟩, ?_, ?_⟩
  · intro console limits arguments arguments' r files input hrun hrun' hother hfile
    have halike : Command.Outcome.Alike console r.manifest.display "<stdin>"
        (r.run console limits files input) _ := Command.alike_run hs hother hfile input
    rw [Command.run, Command.run, hrun, hrun']
    exact ⟨halike, halike.ending?_eq⟩
  · intro ls terminator terminator' text text' name hls hterm hterm' htext htext'
    have hlines : text.lines = text'.lines :=
      (Text.lines_of_terminated hterm hls htext).trans
        (Text.lines_of_terminated hterm' hls htext').symm
    exact read_eq_of_lines hlines name

/-- A misplaced directive in a file and on the input, after lines that end in two ways, and two
lines with other ends. -/
theorem read_any_source_sample :
    ∃ (s : Text) (files : Path → Access) (r : Command.Request),
      s = Text.ofString "module é\r\rgo 1 // gomodjail:x\r\n" ∧
      ((∀ c ∈ s, c.isSurrogate = false) ∧
        Command.Console.standard.invocation [Text.ofString "policies", Text.ofString "./m"] =
          .run r ∧
        Command.Console.standard.invocation [Text.ofString "policies", Text.ofString "-"] =
          .run { r with manifest := Command.inputPath } ∧
        r.manifest ≠ Command.inputPath ∧ files r.manifest = .file (Utf8.encode s)) ∧
      readFile [] (Utf8.encode s) = (read [] s).mapError .parsing ∧
      Command.Outcome.Alike .standard r.manifest.display "<stdin>"
        (Command.run .standard .usual [Text.ofString "policies", Text.ofString "./m"] files [])
        (Command.run .standard .usual [Text.ofString "policies", Text.ofString "-"] files s) ∧
      Text.Terminated ['\r', '\n'] [Text.ofString "go 1", []] (Text.ofString "go 1\r\n\r\n") ∧
      Text.Terminated [CodePoint.ofNat 0x2028] [Text.ofString "go 1", []]
        (Text.ofString "go 1\u2028\u2028") ∧
      read [] (Text.ofString "go 1\r\n\r\n") = read [] (Text.ofString "go 1\u2028\u2028") := by
  let s := Text.ofString "module é\r\rgo 1 // gomodjail:x\r\n"
  let r : Command.Request := ⟨Path.ofText "m", none, none, none, none, .json⟩
  let files : Path → Access :=
    fun p => if p = Path.ofText "m" then .file (Utf8.encode s) else .missing
  have hs : ∀ c ∈ s, c.isSurrogate = false := by decide +kernel
  have hrun : Command.Console.standard.invocation
      [Text.ofString "policies", Text.ofString "./m"] = .run r := by decide +kernel
  have hrun' : Command.Console.standard.invocation
      [Text.ofString "policies", Text.ofString "-"] =
      .run { r with manifest := Command.inputPath } := by decide +kernel
  have hother : r.manifest ≠ Command.inputPath := by decide +kernel
  have hfile : files r.manifest = .file (Utf8.encode s) := by decide +kernel
  obtain ⟨hread, hcommand, hlines⟩ := read_any_source hs
  have htext : Text.Terminated ['\r', '\n'] [Text.ofString "go 1", []]
      (Text.ofString "go 1\r\n\r\n") := .closed _
  have htext' : Text.Terminated [CodePoint.ofNat 0x2028] [Text.ofString "go 1", []]
      (Text.ofString "go 1\u2028\u2028") := .closed _
  exact ⟨s, files, r, rfl, ⟨hs, hrun, hrun', hother, hfile⟩, (hread []).2,
    (hcommand [] hrun hrun' hother hfile).1, htext, htext',
    hlines [] (by decide) .both (.single (by decide)) htext htext'⟩

end Manifest

end ManifestPolicy
