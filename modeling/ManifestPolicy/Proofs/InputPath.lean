import ManifestPolicy.Proofs.CommandOutcome

/-!
# Paths that stand for the input

The command takes its manifest from the input where the argument is a dash. It looks at the path
that the argument spells, and not at the argument. So every other spelling of that path stands for
the input as well: names that lead nowhere may stand before the dash and behind it. A file that is
called so is never read, unless its path is spelled from the root.

Any other argument names a file. Then nothing of the input is read, and there is an error where
the file does not exist. All this holds of every console, since it starts from the argument that the
console has found.

## Main definitions

* `Command.SpellsInput`: the arguments that stand for the input.

## Main statements

* `Text.join_cutAt`, `Text.cutAt_join`: cutting a text at a code point, and joining the pieces.
* `Command.ofText_eq_inputPath_iff`: which arguments lead to the path that stands for the input.
* `Command.input_counts_iff`: when the input counts, and what counts where it does not.
-/

namespace ManifestPolicy

namespace Text

theorem join_cons_cons (separator t u : Text) (rest : List Text) :
    join separator (t :: u :: rest) = t ++ (separator ++ join separator (u :: rest)) := by
  rw [join, List.append_assoc]

/-- The pieces of a text are joined to the text. -/
theorem join_cutAt (b : CodePoint) (t : Text) : join [b] (cutAt (fun c => c = b) t) = t := by
  induction t with
  | nil => rfl
  | cons c t ih =>
    obtain ⟨p, ps, hcut⟩ := List.exists_cons_of_ne_nil (cutAt_ne_nil (fun c => c = b) t)
    rw [hcut] at ih
    rw [cutAt]
    by_cases hc : c = b
    · rw [if_pos (by simpa using hc), hcut, join_cons_cons, ih, hc]
      rfl
    · rw [if_neg (by simpa using hc), hcut]
      cases ps with
      | nil =>
        rw [join] at ih
        rw [join, ih]
      | cons q ps =>
        rw [join_cons_cons] at ih
        rw [join_cons_cons, List.cons_append, ih]

/-- Pieces without the separator are the pieces of the text they are joined to. -/
theorem cutAt_join {b : CodePoint} {pieces : List Text} (hne : pieces ≠ [])
    (h : ∀ p ∈ pieces, ∀ c ∈ p, c ≠ b) : cutAt (fun c => c = b) (join [b] pieces) = pieces := by
  induction pieces with
  | nil => exact absurd rfl hne
  | cons p ps ih =>
    rw [List.forall_mem_cons] at h
    have hp : cutAt (fun c => decide (c = b)) p = [p] :=
      cutAt_of_forall_not fun c hc => by simpa using h.1 c hc
    cases ps with
    | nil => exact hp
    | cons q ps =>
      rw [join_cons_cons, List.singleton_append, cutAt_append_cons _ _ (by simp), hp,
        ih (List.cons_ne_nil q ps) h.2]
      rfl

end Text

/-- A path starts at the working directory where its text does not start with a separator. -/
theorem Path.rootOf_eq_nil_iff {t : Text} :
    Path.rootOf t = [] ↔ t.head? ≠ some Path.separator := by
  cases t with
  | nil => simp [rootOf]
  | cons c t =>
    by_cases hc : c = separator
    · have hne : rootOf (c :: t) ≠ [] := by
        rw [rootOf, List.takeWhile_cons_of_pos (by simpa using hc), List.isEmpty_cons,
          if_neg (by simp)]
        split <;> exact List.cons_ne_nil _ _
      have hhead : (c :: t).head? = some separator := by rw [List.head?_cons, hc]
      exact iff_of_false hne (fun h => h hhead)
    · simp [rootOf, hc]

namespace Command

/-- The text spells the path that stands for the input. Between separators there is a dash, and
else there are names that lead nowhere. It does not start with a separator. -/
def SpellsInput (a : Text) : Prop :=
  ∃ before after : List Text,
    a = Text.join [Path.separator] (before ++ Text.ofString "-" :: after) ∧
    (∀ name ∈ before ++ after, name = [] ∨ name = Path.here) ∧ before.head? ≠ some []

theorem head?_join_of_ne {p : Text} (h : p ≠ []) (separator : Text) (rest : List Text) :
    (Text.join separator (p :: rest)).head? = p.head? := by
  obtain ⟨c, p, rfl⟩ := List.exists_cons_of_ne_nil h
  cases rest <;> rfl

/-- Whether the first piece is empty is seen from the first code point. -/
theorem head?_join_eq_separator_iff {before after : List Text}
    (hnames : ∀ name ∈ before ++ after, name = [] ∨ name = Path.here) :
    (Text.join [Path.separator] (before ++ Text.ofString "-" :: after)).head? =
      some Path.separator ↔ before.head? = some [] := by
  cases before with
  | nil =>
    rw [List.nil_append, head?_join_of_ne (by decide)]
    exact iff_of_false (by decide) (by simp)
  | cons p before =>
    rcases hnames p (by simp) with rfl | rfl
    · obtain ⟨q, qs, hq⟩ : ∃ q qs, before ++ Text.ofString "-" :: after = q :: qs :=
        List.exists_cons_of_ne_nil (by simp)
      rw [List.cons_append, hq, Text.join_cons_cons]
      exact iff_of_true rfl rfl
    · rw [List.cons_append, head?_join_of_ne (by decide)]
      exact iff_of_false (by decide) (by simp [Path.here])

/-- **The arguments that lead to the path that stands for the input.** -/
theorem ofText_eq_inputPath_iff {a : Text} : Path.ofText a = inputPath ↔ SpellsInput a := by
  have hinput : inputPath = ⟨[], [Text.ofString "-"]⟩ := by decide
  have hkept (n : Text) : (!n.isEmpty && decide (n ≠ Path.here)) = false ↔
      n = [] ∨ n = Path.here := by
    simp only [Bool.and_eq_false_iff, Bool.not_eq_false', List.isEmpty_iff, decide_eq_false_iff_not,
      ne_eq, not_not]
  rw [hinput, Path.ofText, Path.mk.injEq, Path.rootOf_eq_nil_iff, List.filter_eq_cons_iff]
  simp only [List.filter_eq_nil_iff, Bool.not_eq_true, hkept]
  constructor
  · rintro ⟨hroot, before, after, hcut, hbefore, -, hafter⟩
    have hjoin : a = Text.join [Path.separator] (before ++ Text.ofString "-" :: after) := by
      rw [← hcut, Text.join_cutAt]
    have hnames := List.forall_mem_append.2 ⟨hbefore, hafter⟩
    refine ⟨before, after, hjoin, hnames, fun hhead => hroot ?_⟩
    rw [hjoin, head?_join_eq_separator_iff hnames, hhead]
  · rintro ⟨before, after, rfl, hnames, hhead⟩
    obtain ⟨hbefore, hafter⟩ := List.forall_mem_append.1 hnames
    have hplain : ∀ p ∈ before ++ Text.ofString "-" :: after, ∀ c ∈ p, c ≠ Path.separator := by
      have hname (p : Text) (hp : p = [] ∨ p = Path.here) : ∀ c ∈ p, c ≠ Path.separator := by
        rcases hp with rfl | rfl <;> decide
      exact List.forall_mem_append.2 ⟨fun p hp => hname p (hbefore p hp),
        List.forall_mem_cons.2 ⟨by decide, fun p hp => hname p (hafter p hp)⟩⟩
    refine ⟨?_, before, after, Text.cutAt_join (by simp) hplain, hbefore, by decide, hafter⟩
    rwa [ne_eq, head?_join_eq_separator_iff hnames]

section

variable {console : Console} {limits : Toml.Limits} {r : Request} {files files' : Path → Access}
  {input input' : Text} {settings : Settings}

theorem manifestText_of_ne {path : Path} (h : path ≠ inputPath) (hfile : files' path = files path) :
    manifestText files' input' path = manifestText files input path := by
  rw [manifestText, manifestText, if_neg h, if_neg h, hfile]

theorem manifestText_inputPath :
    manifestText files' input inputPath = manifestText files input inputPath := by
  rw [manifestText, manifestText, if_pos rfl, if_pos rfl]

/-- An input with no manifest in it, and an input that is none, make a difference. -/
theorem exists_run_ne (hsettings : r.settings limits files = .ok settings)
    (hinput : r.manifest = inputPath) :
    ∃ input input', r.run console limits files input ≠ r.run console limits files input' := by
  have hempty : r.Resolves files [] settings .empty := by
    have hread : (Manifest.read (Text.ofString "<stdin>") []).toOption =
        some ⟨Text.ofString "<stdin>", [], none, none, []⟩ := by decide +kernel
    exact .intro (.input hinput) (toOption_eq_some_iff.1 hread) rfl
  obtain ⟨error, hparen⟩ : ∃ error, r.Fails files (Text.ofString "(") settings error := by
    have hread : (Manifest.read (Text.ofString "<stdin>") (Text.ofString "(")).toOption = none := by
      decide +kernel
    cases herror : Manifest.read (Text.ofString "<stdin>") (Text.ofString "(") with
    | ok m =>
      rw [herror] at hread
      cases hread
    | error error => exact ⟨_, .rejected (.input hinput) herror⟩
  refine ⟨[], Text.ofString "(", fun h => ?_⟩
  rw [(run_eq_finished_iff hsettings).2 ⟨_, hempty, rfl, rfl⟩,
    (run_eq_failed_iff hsettings).2 ⟨_, hparen, rfl⟩] at h
  cases h

/-- For another path the file that it leads to is all that counts beside the settings file. -/
theorem run_congr_of_ne (hother : r.manifest ≠ inputPath)
    (hsettings : r.settingsFile files' = r.settingsFile files)
    (hfile : files' r.manifest = files r.manifest) :
    r.run console limits files' input' = r.run console limits files input :=
  run_congr (congrArg (Settings.ofFile limits r.ns r.nilPolicy) hsettings)
    (manifestText_of_ne hother hfile) rfl

/-- For the path that stands for the input no file of a manifest counts. -/
theorem run_congr_of_eq (hinput : r.manifest = inputPath)
    (hsettings : r.settingsFile files' = r.settingsFile files) :
    r.run console limits files' input = r.run console limits files input := by
  refine run_congr (congrArg (Settings.ofFile limits r.ns r.nilPolicy) hsettings) ?_ rfl
  rw [hinput]
  exact manifestText_inputPath

theorem exists_run_ne_iff :
    (∃ input input', r.run console limits files input ≠ r.run console limits files input') ↔
      r.manifest = inputPath ∧ Settings.Loads limits (r.settingsFile files) := by
  constructor
  · rintro ⟨input, input', hne⟩
    constructor
    · by_contra hother
      exact hne (run_congr_of_ne hother rfl rfl)
    · by_contra hunloaded
      obtain ⟨escape, herror⟩ : ∃ escape, r.settings limits files = .error escape := by
        cases hresult : r.settings limits files with
        | ok settings => exact absurd (Settings.exists_ofFile_iff.1 ⟨settings, hresult⟩) hunloaded
        | error escape => exact ⟨escape, rfl⟩
      rw [run_of_settings_eq_error herror, run_of_settings_eq_error herror] at hne
      exact hne rfl
  · rintro ⟨hinput, hloads⟩
    obtain ⟨settings, hsettings⟩ := Settings.exists_ofFile_iff.2 hloads
    exact exists_run_ne hsettings hinput

variable {arguments : List Text} {values : Values}

/-- A run depends on the values of the arguments alone. -/
theorem run_eq_of_values (hparse : console.parse arguments = .command values)
    (hrequest : values.request? = some r) :
    run console limits arguments files input = r.run console limits files input := by
  rw [run, Console.invocation, hparse]
  simp only [hrequest]

theorem manifest_of_values (hrequest : values.request? = some r) :
    r.manifest = Path.ofText values.manifestArgument := by
  obtain ⟨format, -, rfl⟩ := Option.map_eq_some_iff.1 hrequest
  rfl

end

/-- **When the input counts.** It counts exactly if the argument for the manifest spells a dash and
the settings are loaded, and then no file of a manifest counts. For any other argument the file that
it names is all that counts beside the settings file. Where there is none, this is reported; where
the system refuses it, or the settings are not loaded, the error escapes. -/
theorem input_counts_iff {console : Console} {limits : Toml.Limits} {arguments : List Text}
    {values : Values} {r : Request} {files : Path → Access}
    (hparse : console.parse arguments = .command values) (hrequest : values.request? = some r) :
    let path := Path.ofText values.manifestArgument
    ((∃ input input', run console limits arguments files input ≠
        run console limits arguments files input') ↔
      SpellsInput values.manifestArgument ∧ Settings.Loads limits (r.settingsFile files)) ∧
    (SpellsInput values.manifestArgument → ∀ files' input,
      r.settingsFile files' = r.settingsFile files →
        run console limits arguments files' input = run console limits arguments files input) ∧
    (¬ SpellsInput values.manifestArgument →
      (∀ files' input input', r.settingsFile files' = r.settingsFile files →
        files' path = files path →
        run console limits arguments files' input' = run console limits arguments files input) ∧
      (Settings.Loads limits (r.settingsFile files) →
        ((files path).Absent → ∀ input, run console limits arguments files input =
          .failed (console.echo (Text.ofString "error: " ++ path.display ++
            Text.ofString ": no such file"))) ∧
        ∀ error, files path = .failed error → ∀ input,
          run console limits arguments files input = .escaped (.system error))) ∧
    ∀ escape, Settings.Escapes limits (r.settingsFile files) escape → ∀ input,
      run console limits arguments files input = .escaped escape := by
  intro path
  have hpath : r.manifest = path := manifest_of_values hrequest
  have hspells : SpellsInput values.manifestArgument ↔ r.manifest = inputPath := by
    rw [hpath, ofText_eq_inputPath_iff]
  simp only [run_eq_of_values hparse hrequest, hspells, ← hpath]
  refine ⟨exists_run_ne_iff, fun hinput files' input h => run_congr_of_eq hinput h,
    fun hother => ⟨fun files' input input' h hfile => run_congr_of_ne hother h hfile, ?_⟩,
    fun escape h input => run_of_settings_eq_error (Settings.ofFile_eq_error_iff.2 h)⟩
  intro hloads
  obtain ⟨settings, hsettings⟩ := Settings.exists_ofFile_iff.2 hloads
  refine ⟨fun habsent input => ?_, fun error hrefused input => ?_⟩
  · rw [(run_eq_failed_iff hsettings).2 ⟨_, .noFile hother habsent, rfl⟩, Failure.line,
      Failure.message, List.append_assoc]
  · exact (run_eq_escaped_iff hsettings).2 (.inr ⟨error, ⟨hother, hrefused⟩, rfl⟩)

/-- A spelling of a dash, and a path with a dash as its last name. -/
theorem input_counts_iff_sample :
    let spelled := [Text.ofString "policies", Text.ofString "--format", Text.ofString "text",
      Text.ofString ".//-/."]
    let named := [Text.ofString "policies", Text.ofString "--", Text.ofString "a/-"]
    let files : Path → Access := fun _ => .missing
    ∃ (values values' : Values) (r r' : Request),
      (Console.standard.parse spelled = .command values ∧ values.request? = some r ∧
        Console.standard.parse named = .command values' ∧ values'.request? = some r') ∧
      (∃ input input', run .standard .usual spelled files input ≠
        run .standard .usual spelled files input') ∧
      run .standard .usual named files (Text.ofString "(") =
        .failed (Text.ofString "error: a/-: no such file\n") := by
  intro spelled named files
  have hspelled : Console.standard.parse spelled =
      .command { manifest := some ".//-/.", format := some "text" } := by decide +kernel
  have hnamed : Console.standard.parse named = .command { manifest := some "a/-" } := by
    decide +kernel
  obtain ⟨hcounts, -⟩ := @input_counts_iff .standard .usual spelled _ _ files hspelled rfl
  obtain ⟨-, -, hother, -⟩ := @input_counts_iff .standard .usual named _ _ files hnamed rfl
  have hdash : SpellsInput (Text.ofString ".//-/.") := by
    rw [← ofText_eq_inputPath_iff]
    decide
  have hname : ¬ SpellsInput (Text.ofString "a/-") := by
    rw [← ofText_eq_inputPath_iff]
    decide
  obtain ⟨habsent, -⟩ := (hother hname).2 .missing
  refine ⟨_, _, _, _, ⟨hspelled, rfl, hnamed, rfl⟩, hcounts.2 ⟨hdash, .missing⟩, ?_⟩
  rw [habsent .missing]
  decide +kernel

/-- A file of that name is not read, though the argument is no dash. -/
theorem input_hides_file :
    let arguments := [Text.ofString "policies", Text.ofString "./-"]
    let files : Path → Access := fun path =>
      if path = Path.ofText "./-" then
        .file (Utf8.encode (Text.ofString "require a v1 // gomodjail:confined\n"))
      else .missing
    Console.standard.parse arguments = .command { manifest := some "./-" } ∧
      Text.ofString "./-" ≠ Text.ofString "-" ∧
      run .standard .usual arguments files [] = .finished (Text.ofString "\x7b\x7d\n") [] ∧
      run .standard .usual arguments files (Text.ofString "require b v1 // gomodjail:strict\n") =
        .finished (Text.ofString "\x7b\n  \"b\": \"strict\"\n\x7d\n") [] := by
  intro arguments files
  exact ⟨by decide +kernel, by decide, by decide +kernel, by decide +kernel⟩

end Command

end ManifestPolicy
