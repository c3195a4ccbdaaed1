import ManifestPolicy.Proofs.ArgumentLists
import ManifestPolicy.Proofs.InputPath

/-!
# Where the settings come from

The two settings do not depend on each other. Each of them is the explicit value if that is not
empty, else the text that the settings file gives to its key, without the blanks around it, and
else the value built in. A file gives nothing to a key where it has no table of directives, and
where the value there is no string or only blanks. So no setting is ever empty. All this is so
where the file is loaded. A number with too many digits is no string either, but it keeps the file
from being loaded.

A run sees the settings and not their source. What a file gives can be given by an option as well,
and then the file does not matter any more, but for the other setting. Of the console this asks
that an option more is an option more.

## Main definitions

* `Settings.Holds`, `Settings.HasAt`: what a settings file has at a key and for a setting.
* `Settings.Effective`: the value of one setting, by its three sources.
* `Command.Console.TakesOptions`: what is asked of the console.
* `Command.SameBesides`: two runs that can only differ in one setting.

## Main statements

* `Settings.hasAt_iff`: the values of a file are those that are read from it.
* `Settings.get_eq_iff`: the settings in effect, one by one.
* `Command.sources_interchange`: files and options can stand for each other.
-/

namespace ManifestPolicy

/-- Only blanks are trimmed to nothing. -/
theorem Text.trim_eq_nil_iff {t : Text} : Text.trim t = [] ↔ Manifest.Blanks t := by
  rw [Text.trim, Text.trimEnd_eq, List.rdropWhile_eq_nil_iff]
  constructor
  · intro h c hc
    rw [← List.takeWhile_append_dropWhile (p := CodePoint.isBlank) (l := t)] at hc
    rcases List.mem_append.1 hc with hc | hc
    · exact List.mem_takeWhile_imp hc
    · exact h c hc
  · intro h c hc
    exact h c (List.dropWhile_subset _ hc)

namespace Settings

/-! ## One setting -/

/-- Which setting. -/
inductive Field
  | ns
  | nilPolicy
deriving DecidableEq

/-- The key of a setting in the settings file. -/
def Field.key : Field → Text
  | .ns => "namespace"
  | .nilPolicy => "nil_policy"

/-- The value of a setting. -/
def get (settings : Settings) : Field → Text
  | .ns => settings.ns
  | .nilPolicy => settings.nilPolicy

theorem ext_get {settings settings' : Settings}
    (h : ∀ field, settings'.get field = settings.get field) : settings' = settings := by
  cases settings'
  cases settings
  exact congrArg₂ Settings.mk (h .ns) (h .nilPolicy)

variable (limits : Toml.Limits)

/-- The file is a document with this value at a key of its outermost table. -/
def Holds (file : Access) (key : Text) (v : Toml.Value) : Prop :=
  ∃ t entries, file = .file (Utf8.encode t) ∧ (∀ c ∈ t, c.isSurrogate = false) ∧
    Toml.parse limits t = .ok entries ∧ Entries.get? key entries = some v

/-- The file has a table of directives with this value at the key of a setting. -/
def HasAt (file : Access) (field : Field) (v : Toml.Value) : Prop :=
  ∃ entries, Holds limits file "directives" (.table entries) ∧
    Entries.get? field.key entries = some v

/-- **The value of a setting**, from the first of its sources that gives one. Nothing explicit is
the same as an explicit value that is empty. -/
inductive Effective (explicit : Option Text) (file : Access) (field : Field) : Text → Prop
  | explicit {v : Text} (given : explicit = some v) (nonempty : v ≠ []) :
      Effective explicit file field v
  | configured {t : Text} (unset : ∀ v, explicit = some v → v = [])
      (has : HasAt limits file field (.string t)) (notBlank : ¬ Manifest.Blanks t) :
      Effective explicit file field (Text.trim t)
  | builtIn (unset : ∀ v, explicit = some v → v = [])
      (blank : ∀ t, HasAt limits file field (.string t) → Manifest.Blanks t) :
      Effective explicit file field (builtIn.get field)

section

variable {limits : Toml.Limits} {explicit : Option Text} {file : Access} {field : Field} {v : Text}

theorem Effective.ne_nil (h : Effective limits explicit file field v) : v ≠ [] := by
  cases h with
  | explicit _ nonempty => exact nonempty
  | configured _ _ notBlank => rwa [ne_eq, Text.trim_eq_nil_iff]
  | builtIn => cases field <;> decide

/-- The texts that a file has at the key are all that counts of it. -/
theorem Effective.congr {file' : Access} (h : Effective limits explicit file field v)
    (hsame : ∀ t, HasAt limits file' field (.string t) ↔ HasAt limits file field (.string t)) :
    Effective limits explicit file' field v := by
  cases h with
  | explicit given nonempty => exact .explicit given nonempty
  | configured unset has notBlank => exact .configured unset ((hsame _).2 has) notBlank
  | builtIn unset blank => exact .builtIn unset fun t has => blank t ((hsame t).1 has)

/-- The values of a settings file are those in the table that is read from it. -/
theorem holds_iff {entries : List (Text × Toml.Value)} {key : Text} {w : Toml.Value}
    (h : table limits file = .ok entries) :
    Holds limits file key w ↔ Entries.get? key entries = some w := by
  cases file with
  | missing | failed error =>
    rw [← Except.ok.inj h]
    refine iff_of_false ?_ (by simp [Entries.get?])
    rintro ⟨_, _, hfile, _⟩
    cases hfile
  | malformed error => cases h
  | file octets =>
    cases hdecode : Utf8.decode octets with
    | error fault =>
      rw [table, hdecode] at h
      cases h
    | ok t =>
      obtain ⟨rfl, hplain⟩ := Utf8.decode_eq_ok_iff.1 hdecode
      have hholds : Holds limits (.file (Utf8.encode t)) key w ↔
          ∃ entries, Toml.parse limits t = .ok entries ∧ Entries.get? key entries = some w := by
        constructor
        · rintro ⟨t', entries, hfile, hplain', hread⟩
          rw [Access.file.inj hfile, Utf8.decode_encode hplain', Except.ok.injEq] at hdecode
          exact ⟨entries, hdecode ▸ hread⟩
        · rintro ⟨entries, hread⟩
          exact ⟨t, entries, rfl, hplain, hread⟩
      rw [table_encode hplain] at h
      rw [hholds]
      split at h
      · next hparse => simp [hparse, ← Except.ok.inj h]
      · next hparse => simp [hparse, ← Except.ok.inj h, Entries.get?]
      · cases h

theorem not_hasAt_missing {w : Toml.Value} : ¬ HasAt limits .missing field w := by
  rintro ⟨_, ⟨_, _, hfile, _⟩, _⟩
  cases hfile

theorem directives_eq_ok_iff {entries : List (Text × Toml.Value)} :
    directives limits file = .ok entries ↔ ∃ outermost, table limits file = .ok outermost ∧
      entries = ((Entries.get? "directives" outermost).bind Toml.Value.entries?).getD [] := by
  simp only [directives, bind_eq_ok_iff, pure_eq_ok_iff]
  constructor <;> rintro ⟨outermost, h, rfl⟩ <;> exact ⟨outermost, h, rfl⟩

/-- The values for the settings are those among the directives. -/
theorem hasAt_iff {entries : List (Text × Toml.Value)} {w : Toml.Value}
    (h : directives limits file = .ok entries) :
    HasAt limits file field w ↔ Entries.get? field.key entries = some w := by
  obtain ⟨outermost, htable, rfl⟩ := directives_eq_ok_iff.1 h
  simp only [HasAt, holds_iff htable]
  rcases Entries.get? "directives" outermost with _ | value
  · simp [Entries.get?]
  · cases value <;> simp [Toml.Value.entries?, Entries.get?]

/-- A file that has a value is loaded. -/
theorem HasAt.loads {w : Toml.Value} (h : HasAt limits file field w) : Loads limits file := by
  obtain ⟨_, ⟨t, entries, rfl, hplain, hparse, -⟩, -⟩ := h
  refine .file hplain fun excess hstops => ?_
  rw [Toml.parse_eq_error_iff.2 hstops] at hparse
  cases hparse

/-- Whether the file has a text for a setting can be computed. -/
theorem hasAt_string_iff :
    HasAt limits file field (.string v) ↔
      ((directives limits file).toOption.bind (Entries.get? field.key)).bind Toml.Value.text? =
        some v := by
  have htext (w : Toml.Value) : w.text? = some v ↔ w = .string v := by
    cases w <;> simp [Toml.Value.text?]
  cases hfile : directives limits file with
  | ok entries =>
    rw [hasAt_iff hfile, Except.toOption, Option.bind_some, Option.bind_eq_some_iff]
    simp only [htext, exists_eq_right]
  | error escape =>
    refine iff_of_false (fun has => ?_) (by simp [Except.toOption])
    obtain ⟨settings, hok⟩ : ∃ settings, ofFile limits none none file = .ok settings :=
      exists_ofFile_iff.2 has.loads
    rw [ofFile, hfile] at hok
    cases hok

theorem noText_iff :
    (∀ w, HasAt limits file field w → w.kind ≠ .string) ↔
      ∀ t, ¬ HasAt limits file field (.string t) := by
  constructor
  · exact fun h t has => h _ has rfl
  · intro h w has hkind
    cases w with
    | string t => exact h t has
    | _ => cases hkind

theorem configured?_eq_some_iff {entries : List (Text × Toml.Value)}
    (h : directives limits file = .ok entries) :
    configured? entries field.key = some v ↔
      ∃ t, HasAt limits file field (.string t) ∧ ¬ Manifest.Blanks t ∧ Text.trim t = v := by
  simp only [hasAt_string_iff, h, Except.toOption, Option.bind_some, configured?,
    Option.filter_eq_some_iff, Option.map_eq_some_iff, Bool.not_eq_true',
    List.isEmpty_eq_false_iff]
  constructor
  · rintro ⟨⟨t, ht, rfl⟩, hne⟩
    exact ⟨t, ht, fun hblank => hne (Text.trim_eq_nil_iff.2 hblank), rfl⟩
  · rintro ⟨t, ht, hblank, rfl⟩
    exact ⟨⟨t, ht, rfl⟩, fun hnil => hblank (Text.trim_eq_nil_iff.1 hnil)⟩

theorem filter_nonempty_eq_none_iff :
    (explicit.filter fun t => !t.isEmpty) = none ↔ ∀ v, explicit = some v → v = [] := by
  simp [Option.filter_eq_none_iff]

/-! ## The settings in effect -/

/-- The three sources of a setting, in order. -/
theorem get_ofDirectives (explicit : Field → Option Text) (entries : List (Text × Toml.Value))
    (field : Field) :
    (ofDirectives (explicit .ns) (explicit .nilPolicy) entries).get field =
      (((explicit field).filter fun t => !t.isEmpty).or (configured? entries field.key)).getD
        (builtIn.get field) := by
  cases field <;> rfl

theorem effective_iff {entries : List (Text × Toml.Value)}
    (h : directives limits file = .ok entries) :
    Effective limits explicit file field v ↔
      ((explicit.filter fun t => !t.isEmpty).or (configured? entries field.key)).getD
        (builtIn.get field) = v := by
  constructor
  · intro heffective
    cases heffective with
    | explicit given nonempty => simp [given, Option.filter, nonempty]
    | configured unset has notBlank =>
      rw [filter_nonempty_eq_none_iff.2 unset,
        (configured?_eq_some_iff h).2 ⟨_, has, notBlank, rfl⟩]
      rfl
    | builtIn unset blank =>
      have hnone : configured? entries field.key = none :=
        Option.eq_none_iff_forall_ne_some.2 fun v hv =>
          have ⟨t, has, notBlank, _⟩ := (configured?_eq_some_iff h).1 hv
          notBlank (blank t has)
      rw [filter_nonempty_eq_none_iff.2 unset, hnone]
      rfl
  · rintro rfl
    cases hexplicit : explicit.filter fun t => !t.isEmpty with
    | some v =>
      obtain ⟨given, nonempty⟩ := Option.filter_eq_some_iff.1 hexplicit
      exact .explicit given (by simpa using nonempty)
    | none =>
      have unset := filter_nonempty_eq_none_iff.1 hexplicit
      cases hconfigured : configured? entries field.key with
      | some v =>
        obtain ⟨t, has, notBlank, rfl⟩ := (configured?_eq_some_iff h).1 hconfigured
        exact .configured unset has notBlank
      | none =>
        refine .builtIn unset fun t has => ?_
        by_contra notBlank
        rw [(configured?_eq_some_iff h).2 ⟨t, has, notBlank, rfl⟩] at hconfigured
        cases hconfigured

end

section

variable {limits : Toml.Limits} {explicit : Field → Option Text} {file : Access}
  {settings : Settings} {field : Field}

/-- **The settings in effect**, each by its own sources. -/
theorem get_eq_iff {v : Text}
    (h : ofFile limits (explicit .ns) (explicit .nilPolicy) file = .ok settings) :
    settings.get field = v ↔ Effective limits (explicit field) file field v := by
  rw [ofFile] at h
  cases hfile : directives limits file with
  | error escape =>
    rw [hfile] at h
    cases h
  | ok entries =>
    rw [hfile] at h
    rw [← Except.ok.inj h, get_ofDirectives, effective_iff hfile]

/-- What is no string counts as missing. -/
theorem effective_of_noText {value : Option Text} {v : Text}
    (h : ∀ w, HasAt limits file field w → w.kind ≠ .string) :
    Effective limits value file field v ↔ Effective limits value .missing field v := by
  have hsame (t : Text) :
      HasAt limits file field (.string t) ↔ HasAt limits .missing field (.string t) :=
    iff_of_false (noText_iff.1 h t) not_hasAt_missing
  constructor
  · intro heffective
    exact heffective.congr fun t => (hsame t).symm
  · intro heffective
    exact heffective.congr hsame

/-- What is no table of directives has no values. -/
theorem not_hasAt_of_noTable (h : ∀ w, Holds limits file "directives" w → w.kind ≠ .table)
    (w : Toml.Value) : ¬ HasAt limits file field w := by
  rintro ⟨entries, holds, -⟩
  exact h _ holds rfl

end

end Settings

namespace Command

open Settings (Field Effective HasAt Holds)

/-! ## Options for the settings -/

/-- What sets a setting. -/
def setting : Field → Setting
  | .ns => .ns
  | .nilPolicy => .nilPolicy

/-- The option for a setting. -/
def optionName : Field → Text
  | .ns => "--namespace"
  | .nilPolicy => "--nil-policy"

/-- The explicit value of a setting. -/
def Values.explicit (values : Values) : Field → Option Text
  | .ns => values.ns
  | .nilPolicy => values.nilPolicy

/-- The values with an explicit value for a setting. -/
def Values.give (values : Values) (field : Field) (v : Text) : Values :=
  match field with
  | .ns => { values with ns := some v }
  | .nilPolicy => { values with nilPolicy := some v }

/-- The console takes an option for a setting wherever it may stand, if the setting had none. It
sets its value then, and nothing else changes. -/
def Console.TakesOptions (console : Console) : Prop :=
  ∀ (field : Field) (v : Text) (arguments arguments' : List Text) (values : Values),
    console.parse arguments = .command values → values.explicit field = none →
    GivenAlso (withValue (optionName field) v) arguments arguments' →
    console.parse arguments' = .command (values.give field v)

theorem values?_insert {p : Parsed} {values : Values} {before after : List (Setting × Text)}
    {field : Field} (hvalues : p.values? = some values) (hlist : p.values = before ++ after)
    (hunset : values.explicit field = none) (v : Text) :
    Parsed.values? { p with values := before ++ (setting field, v) :: after } =
      some (values.give field v) := by
  rw [Parsed.values?] at hvalues ⊢
  split at hvalues
  · cases hvalues
  · next hone =>
    cases hvalues
    rw [if_neg hone]
    cases field with
    | ns => simp [setting, Values.give, value?_insert_of_ne hlist, value?_insert_self hlist hunset]
    | nilPolicy =>
      simp [setting, Values.give, value?_insert_of_ne hlist, value?_insert_self hlist hunset]

/-- The console of the program does what is asked of it. -/
theorem takesOptions_standard : Console.standard.TakesOptions := by
  intro field v arguments arguments' values hparse hunset hgiven
  have hname : (optionName field, setting field) ∈ settingNames := by cases field <;> decide
  obtain ⟨p, before, after, hlist, hvalues, hasked⟩ :=
    ofArguments_of_givenAlso hname hgiven hparse
  exact hasked _ (values?_insert hvalues hlist hunset v)

namespace Request

variable (r : Request)

/-- The explicit value of a setting. -/
def explicit : Field → Option Text
  | .ns => r.ns
  | .nilPolicy => r.nilPolicy

/-- The request with an explicit value for a setting. -/
def give (field : Field) (v : Text) : Request :=
  match field with
  | .ns => { r with ns := some v }
  | .nilPolicy => { r with nilPolicy := some v }

variable (field : Field) (v : Text)

@[simp] theorem manifest_give : (r.give field v).manifest = r.manifest := by
  cases field <;> rfl

@[simp] theorem format_give : (r.give field v).format = r.format := by
  cases field <;> rfl

@[simp] theorem settingsFile_give (files : Path → Access) :
    (r.give field v).settingsFile files = r.settingsFile files := by
  cases field <;> rfl

@[simp] theorem explicit_give_self : (r.give field v).explicit field = some v := by
  cases field <;> rfl

theorem explicit_give_of_ne {other : Field} (h : other ≠ field) :
    (r.give field v).explicit other = r.explicit other := by
  cases field with
  | ns =>
    cases other with
    | ns => exact absurd rfl h
    | nilPolicy => rfl
  | nilPolicy =>
    cases other with
    | ns => rfl
    | nilPolicy => exact absurd rfl h

end Request

theorem request?_give {values : Values} {r : Request} (h : values.request? = some r)
    (field : Field) (v : Text) : (values.give field v).request? = some (r.give field v) := by
  obtain ⟨format, hformat, rfl⟩ := Option.map_eq_some_iff.1 h
  cases field <;> exact Option.map_eq_some_iff.2 ⟨format, hformat, rfl⟩

theorem explicit_of_request? {values : Values} {r : Request} (h : values.request? = some r)
    (field : Field) : r.explicit field = values.explicit field := by
  obtain ⟨format, -, rfl⟩ := Option.map_eq_some_iff.1 h
  cases field <;> rfl

theorem invocation_eq_run_iff {console : Console} {arguments : List Text} {r : Request} :
    console.invocation arguments = .run r ↔
      ∃ values, console.parse arguments = .command values ∧ values.request? = some r := by
  rw [Console.invocation]
  cases console.parse arguments with
  | usageError | help => simp
  | command values => cases hrequest : values.request? <;> simp [hrequest]

/-- **An option in place of a missing one** is all that the arguments ask for besides. -/
theorem invocation_give {console : Console} (hconsole : console.TakesOptions)
    {arguments arguments' : List Text} {r : Request} {field : Field} {v : Text}
    (hrun : console.invocation arguments = .run r) (hunset : r.explicit field = none)
    (hgiven : GivenAlso (withValue (optionName field) v) arguments arguments') :
    console.invocation arguments' = .run (r.give field v) := by
  obtain ⟨values, hparse, hrequest⟩ := invocation_eq_run_iff.1 hrun
  rw [explicit_of_request? hrequest] at hunset
  exact invocation_eq_run_iff.2 ⟨_, hconsole _ _ _ _ _ hparse hunset hgiven,
    request?_give hrequest field v⟩

/-- Beside one setting the requests and the files agree in all that a run depends on: in the
manifest, in the format, and in the value of each other setting. The settings files may have
nothing in common, and neither need their paths. -/
structure SameBesides (limits : Toml.Limits) (field : Field) (r : Request) (files : Path → Access)
    (r' : Request) (files' : Path → Access) : Prop where
  manifest : r'.manifest = r.manifest
  format : r'.format = r.format
  text : r.manifest ≠ inputPath → files' r.manifest = files r.manifest
  others : ∀ other, other ≠ field → ∀ v,
    Effective limits (r'.explicit other) (r'.settingsFile files') other v ↔
      Effective limits (r.explicit other) (r.settingsFile files) other v

section

variable {console : Console} {limits : Toml.Limits} {r r' : Request} {files files' : Path → Access}
  {field : Field}

/-- The one setting can be given freely. -/
theorem SameBesides.give (h : SameBesides limits field r files r' files') (v : Text) :
    SameBesides limits field r files (r'.give field v) files' where
  manifest := (r'.manifest_give field v).trans h.manifest
  format := (r'.format_give field v).trans h.format
  text := h.text
  others other hother := by
    rw [r'.explicit_give_of_ne field v hother, r'.settingsFile_give]
    exact h.others other hother

theorem get_settings_iff {settings : Settings} (h : r.settings limits files = .ok settings)
    (other : Field) {v : Text} :
    settings.get other = v ↔
      Effective limits (r.explicit other) (r.settingsFile files) other v :=
  have hexplicit : Settings.ofFile limits (r.explicit .ns) (r.explicit .nilPolicy)
      (r.settingsFile files) = .ok settings := h
  Settings.get_eq_iff hexplicit

/-- Runs whose settings have the same values are the same. -/
theorem run_eq_of_sameBesides (hsame : SameBesides limits field r files r' files')
    (hloads : Settings.Loads limits (r.settingsFile files))
    (hloads' : Settings.Loads limits (r'.settingsFile files'))
    {v : Text} (hv : Effective limits (r.explicit field) (r.settingsFile files) field v)
    (hv' : Effective limits (r'.explicit field) (r'.settingsFile files') field v) (input : Text) :
    r'.run console limits files' input = r.run console limits files input := by
  obtain ⟨settings, hsettings⟩ : ∃ settings, r.settings limits files = .ok settings :=
    Settings.exists_ofFile_iff.2 hloads
  obtain ⟨settings', hsettings'⟩ : ∃ settings', r'.settings limits files' = .ok settings' :=
    Settings.exists_ofFile_iff.2 hloads'
  have heq : settings' = settings := by
    refine Settings.ext_get fun other => ?_
    by_cases hother : other = field
    · subst hother
      rw [(get_settings_iff hsettings' other).2 hv', (get_settings_iff hsettings other).2 hv]
    · rw [get_settings_iff hsettings' other, hsame.others other hother]
      exact (get_settings_iff hsettings other).1 rfl
  refine run_congr (hsettings'.trans (heq ▸ hsettings.symm)) ?_ hsame.format
  rw [hsame.manifest]
  by_cases hinput : r.manifest = inputPath
  · rw [hinput]
    exact manifestText_inputPath
  · exact manifestText_of_ne hinput (hsame.text hinput)

end

/-- **Files and options can stand for each other.** There are settings exactly where the settings
file is loaded, and else what keeps it from being loaded escapes. Each setting has its own value,
which is not empty, by its own sources. A file without a table of directives, or without a string at
the key, is a missing file for that setting. A run whose file gives a text for a setting is the run
with that text, without the blanks around it, as the value of the option, under any other file that
is loaded and leaves the other setting as it is. -/
theorem sources_interchange {console : Console} (hconsole : console.TakesOptions)
    (limits : Toml.Limits) :
    (∀ (explicit : Field → Option Text) (file : Access),
      ((∃ settings, Settings.ofFile limits (explicit .ns) (explicit .nilPolicy) file =
        .ok settings) ↔ Settings.Loads limits file) ∧
      (∀ escape, Settings.ofFile limits (explicit .ns) (explicit .nilPolicy) file =
        .error escape ↔ Settings.Escapes limits file escape) ∧
      ∀ settings, Settings.ofFile limits (explicit .ns) (explicit .nilPolicy) file = .ok settings →
        ∀ field, settings.get field ≠ [] ∧
          (∀ v, settings.get field = v ↔ Effective limits (explicit field) file field v) ∧
          ((∀ w, Holds limits file "directives" w → w.kind ≠ .table) ∨
              (∀ w, HasAt limits file field w → w.kind ≠ .string) →
            ∀ v, settings.get field = v ↔
              Effective limits (explicit field) .missing field v)) ∧
    ∀ (field : Field) (t : Text) (arguments others arguments' : List Text) (r r' : Request)
      (files files' : Path → Access),
      console.invocation arguments = .run r → r.explicit field = none →
      HasAt limits (r.settingsFile files) field (.string t) → ¬ Manifest.Blanks t →
      console.invocation others = .run r' → r'.explicit field = none →
      GivenAlso (withValue (optionName field) (Text.trim t)) others arguments' →
      Settings.Loads limits (r'.settingsFile files') →
      SameBesides limits field r files r' files' →
      ∀ input, run console limits arguments' files' input =
        run console limits arguments files input := by
  constructor
  · intro explicit file
    refine ⟨Settings.exists_ofFile_iff, fun escape => Settings.ofFile_eq_error_iff,
      fun settings hsettings field =>
      ⟨((Settings.get_eq_iff hsettings).1 rfl).ne_nil, fun v => Settings.get_eq_iff hsettings,
        fun habsent v => (Settings.get_eq_iff hsettings).trans (Settings.effective_of_noText ?_)⟩⟩
    rcases habsent with hnoTable | hnoText
    · exact fun w has => absurd has (Settings.not_hasAt_of_noTable hnoTable w)
    · exact hnoText
  · intro field t arguments others arguments' r r' files files' hrun hunset has hblank hothers
      hunset' hgiven hloads' hsame input
    have hrun' : console.invocation arguments' = .run (r'.give field (Text.trim t)) :=
      invocation_give hconsole hothers hunset' hgiven
    have hunsetValue : ∀ v, r.explicit field = some v → v = [] := by simp [hunset]
    have hvalue : Effective limits (r.explicit field) (r.settingsFile files) field (Text.trim t) :=
      .configured hunsetValue has hblank
    have hvalue' : Effective limits ((r'.give field (Text.trim t)).explicit field)
        ((r'.give field (Text.trim t)).settingsFile files') field (Text.trim t) :=
      .explicit (r'.explicit_give_self field _) hvalue.ne_nil
    have hloadsGive :
        Settings.Loads limits ((r'.give field (Text.trim t)).settingsFile files') := by
      rwa [r'.settingsFile_give]
    simp only [run, hrun, hrun']
    exact run_eq_of_sameBesides (hsame.give _) has.loads hloadsGive hvalue hvalue' input

/-- A namespace with blanks around it in one file, and the same namespace as an option beside
another file, which has a number in its place. -/
theorem sources_interchange_sample :
    let t := Text.ofString " s "
    let arguments := [Text.ofString "policies", Text.ofString "m"]
    let others := [Text.ofString "policies", Text.ofString "--config=c", Text.ofString "m"]
    let arguments' := [Text.ofString "policies", Text.ofString "--config=c",
      Text.ofString "--namespace=s", Text.ofString "m"]
    let files (settings : Text) (path : Path) := Access.file <| Utf8.encode <|
      if path = Path.ofText "m" then Text.ofString "require a v1 // s:p\n" else settings
    let files₁ := files (Text.ofString "[directives]\nnamespace = ' s '\n")
    let files₂ := files (Text.ofString "directives.namespace = 1")
    let r : Request := ⟨Path.ofText "m", none, none, none, none, .json⟩
    let r' : Request := ⟨Path.ofText "m", none, none, none, some (Path.ofText "c"), .json⟩
    (Console.standard.TakesOptions ∧
      Console.standard.invocation arguments = .run r ∧ r.explicit .ns = none ∧
      HasAt .usual (r.settingsFile files₁) .ns (.string t) ∧ ¬ Manifest.Blanks t ∧
      Console.standard.invocation others = .run r' ∧ r'.explicit .ns = none ∧
      GivenAlso (withValue (optionName .ns) (Text.trim t)) others arguments' ∧
      Settings.Loads .usual (r'.settingsFile files₂) ∧
      SameBesides .usual .ns r files₁ r' files₂) ∧
    run .standard .usual arguments' files₂ [] = run .standard .usual arguments files₁ [] ∧
    (∀ w, HasAt .usual (r'.settingsFile files₂) .ns w → w.kind ≠ .string) ∧
    ∃ settings, Settings.ofFile .usual none none (r'.settingsFile files₂) = .ok settings ∧
      settings.get .ns ≠ [] ∧
      ∀ v, settings.get .ns = v ↔ Effective .usual none .missing .ns v := by
  intro t arguments others arguments' files files₁ files₂ r r'
  have has : HasAt .usual (r.settingsFile files₁) .ns (.string t) := by
    rw [Settings.hasAt_string_iff]
    decide +kernel
  have hnumber : ∀ w, HasAt .usual (r'.settingsFile files₂) .ns w → w.kind ≠ .string := by
    simp only [Settings.noText_iff, Settings.hasAt_string_iff, ← Option.eq_none_iff_forall_ne_some]
    decide +kernel
  have hsorts : Sorts [withValue (Text.ofString "--config") (Text.ofString "c")]
      [(.config, Text.ofString "c")] [] := .joined (by decide) .nil
  have hgiven : GivenAlso (withValue (optionName .ns) (Text.trim t)) others arguments' :=
    .intro (.inl rfl) hsorts
  have hsettings : r.settings .usual files₁ = .ok ⟨Text.ofString "s", Text.ofString "unconfined"⟩ :=
    toOption_eq_some_iff.1 (by decide +kernel)
  have hsettings' : r'.settings .usual files₂ =
      .ok ⟨Text.ofString "gomodjail", Text.ofString "unconfined"⟩ :=
    toOption_eq_some_iff.1 (by decide +kernel)
  have hloads : Settings.Loads .usual (r'.settingsFile files₂) :=
    Settings.exists_ofFile_iff.1 ⟨_, hsettings'⟩
  have hsame : SameBesides .usual .ns r files₁ r' files₂ := by
    have hmanifest : files₂ r.manifest = files₁ r.manifest := by simp [files₁, files₂, files, r]
    refine ⟨rfl, rfl, fun _ => hmanifest, fun other hother v => ?_⟩
    cases other with
    | ns => exact absurd rfl hother
    | nilPolicy =>
      rw [← get_settings_iff hsettings, ← get_settings_iff hsettings']
      rfl
  have hrun : Console.standard.invocation arguments = .run r := by decide +kernel
  have hrun' : Console.standard.invocation others = .run r' := by decide +kernel
  have hblank : ¬ Manifest.Blanks t := fun h => absurd (h 's' (by decide)) (by decide)
  obtain ⟨hfile, hcommand⟩ := sources_interchange takesOptions_standard .usual
  refine ⟨⟨takesOptions_standard, hrun, rfl, has, hblank, hrun', rfl, hgiven, hloads, hsame⟩,
    ?_, hnumber, ?_⟩
  · exact hcommand .ns t arguments others arguments' r r' files₁ files₂ hrun rfl has hblank hrun'
      rfl hgiven hloads hsame []
  · obtain ⟨-, -, heach⟩ := hfile (fun _ => none) (r'.settingsFile files₂)
    obtain ⟨hne, -, habsent⟩ := heach _ hsettings' .ns
    exact ⟨_, hsettings', hne, habsent (.inr hnumber)⟩

/-- A number with more digits than are converted does not count as missing. It leaves no settings,
though both are given explicitly, where a missing file leaves them. -/
theorem settings_lost_to_number :
    let explicit (file : Access) := Settings.ofFile .usual (some (Text.ofString "n"))
      (some (Text.ofString "p")) file
    (∀ c ∈ Toml.nines 4301, c.isSurrogate = false) ∧
      explicit (.file (Utf8.encode (Toml.nines 4301))) = .error (.excess (.digits 4301 4300)) ∧
      explicit .missing = .ok ⟨Text.ofString "n", Text.ofString "p"⟩ := by
  have hplain : ∀ c ∈ Toml.nines 4301, c.isSurrogate = false :=
    fun _ => Toml.noSurrogate_of_mem_nines
  refine ⟨hplain, Settings.ofFile_eq_error_iff.2 (.excess hplain ?_), rfl⟩
  exact Toml.stops_nines (fun _ => rfl) (by decide) (by decide)

end Command

end ManifestPolicy
