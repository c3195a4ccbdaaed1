import ManifestPolicy.Proofs.DocumentLines
import ManifestPolicy.Proofs.EncodedOctets
import ManifestPolicy.Settings

/-!
# Settings files that cannot be used

A settings file is UTF-8, and its text is a document. Where the text is none, the file counts as
missing: a line that cannot be read takes away what the lines before it have said. The same holds
where the system refuses the file.

Not so elsewhere. The path of the file may be malformed, the file may not be UTF-8, and its text may
reach a limit of the reader before any fault. Then there are no settings at all, also where both of
them are given explicitly.

## Main definitions

* `Settings.ofFile`: the settings in effect under a file, which may be missing.
* `Settings.Loads`, `Settings.Escapes`: the files that leave settings, and those that do not.

## Main statements

* `Settings.exists_ofFile_iff`, `Settings.ofFile_eq_error_iff`: when there are settings.
* `Settings.ofFile_of_unusable`: what comes of a file that cannot be used.
-/

namespace ManifestPolicy.Settings

variable (limits : Toml.Limits)

/-- The settings in effect under some explicit values and what comes of reading the settings
file. -/
def ofFile (ns nilPolicy : Option Text) (access : Access) : Except Escape Settings :=
  (directives limits access).map (ofDirectives ns nilPolicy)

/-- The settings file is loaded. It is missing, or the system refuses it, or it is UTF-8 and its
text reaches no limit. -/
inductive Loads : Access → Prop
  | missing : Loads .missing
  | failed (error : Text) : Loads (.failed error)
  | file {t : Text} (plain : ∀ c ∈ t, c.isSurrogate = false)
      (within : ∀ excess, ¬ Toml.Stops limits t (.excess excess)) : Loads (.file (Utf8.encode t))

/-- The settings file is not loaded, for one reason: its path is malformed, or its octets have a
fault, or a line of its text reaches a limit. -/
inductive Escapes : Access → Escape → Prop
  | path (error : Text) : Escapes (.malformed error) (.path error)
  | encoding {octets : List UInt8} {fault : Utf8.Fault}
      (undecoded : Utf8.decode octets = .error fault) : Escapes (.file octets) (.encoding fault)
  | excess {t : Text} {excess : Toml.Excess} (plain : ∀ c ∈ t, c.isSurrogate = false)
      (stops : Toml.Stops limits t (.excess excess)) :
      Escapes (.file (Utf8.encode t)) (.excess excess)

section

variable {limits : Toml.Limits} {ns nilPolicy : Option Text} {access : Access} {escape : Escape}

theorem table_encode {t : Text} (h : ∀ c ∈ t, c.isSurrogate = false) :
    table limits (.file (Utf8.encode t)) =
      match Toml.parse limits t with
      | .ok entries => .ok entries
      | .error .invalid => .ok []
      | .error (.excess excess) => .error (.excess excess) := by
  rw [table, Utf8.decode_encode h]
  simp only [Except.mapError, bind, Except.bind]
  cases Toml.parse limits t with
  | ok entries => rfl
  | error fault => cases fault <;> rfl

theorem table_eq_error_iff :
    table limits access = .error escape ↔ Escapes limits access escape := by
  constructor
  · intro h
    cases access with
    | missing | failed error => cases h
    | malformed error => exact Except.error.inj h ▸ .path error
    | file octets =>
      cases hdecode : Utf8.decode octets with
      | error fault =>
        rw [table, hdecode] at h
        exact Except.error.inj h ▸ .encoding hdecode
      | ok t =>
        obtain ⟨rfl, hplain⟩ := Utf8.decode_eq_ok_iff.1 hdecode
        rw [table_encode hplain] at h
        split at h
        · cases h
        · cases h
        · next hparse =>
          exact Except.error.inj h ▸ .excess hplain (Toml.parse_eq_error_iff.1 hparse)
  · intro h
    cases h with
    | path error => rfl
    | encoding undecoded =>
      rw [table, undecoded]
      rfl
    | excess plain stops => rw [table_encode plain, Toml.parse_eq_error_iff.2 stops]

/-- What keeps the table from being read is all that leaves no settings. -/
theorem ofFile_eq_error_iff :
    ofFile limits ns nilPolicy access = .error escape ↔ Escapes limits access escape := by
  rw [← table_eq_error_iff, ofFile, directives]
  cases table limits access <;> simp [Except.map, bind, Except.bind, pure, Except.pure]

theorem loads_iff : Loads limits access ↔ ∀ escape, ¬ Escapes limits access escape := by
  constructor
  · rintro h escape hescapes
    cases h with
    | missing | failed => cases hescapes
    | file plain within =>
      generalize hfile : Utf8.encode _ = octets at hescapes
      cases hescapes with
      | encoding undecoded =>
        rw [← hfile, Utf8.decode_encode plain] at undecoded
        cases undecoded
      | excess plain' stops =>
        have htext := congrArg Utf8.decode hfile
        rw [Utf8.decode_encode plain, Utf8.decode_encode plain', Except.ok.injEq] at htext
        exact within _ (htext ▸ stops)
  · intro h
    cases access with
    | missing => exact .missing
    | failed error => exact .failed error
    | malformed error => exact absurd (.path error) (h _)
    | file octets =>
      cases hdecode : Utf8.decode octets with
      | error fault => exact absurd (.encoding hdecode) (h _)
      | ok t =>
        obtain ⟨rfl, hplain⟩ := Utf8.decode_eq_ok_iff.1 hdecode
        exact .file hplain fun excess hstops => h _ (.excess hplain hstops)

theorem exists_ofFile_iff :
    (∃ settings, ofFile limits ns nilPolicy access = .ok settings) ↔ Loads limits access := by
  have hescapes (escape : Escape) :
      ofFile limits ns nilPolicy access = .error escape ↔ Escapes limits access escape :=
    ofFile_eq_error_iff
  simp only [loads_iff, ← hescapes]
  cases ofFile limits ns nilPolicy access <;> simp

/-- A text that is no document leaves what a missing file leaves. -/
theorem ofFile_of_stops {t : Text} (hplain : ∀ c ∈ t, c.isSurrogate = false)
    (h : Toml.Stops limits t .invalid) :
    ofFile limits ns nilPolicy (.file (Utf8.encode t)) = ofFile limits ns nilPolicy .missing := by
  rw [ofFile, ofFile, directives, directives, table_encode hplain, Toml.parse_eq_error_iff.2 h]
  rfl

end

/-- **A settings file that cannot be used.** There are settings exactly where the file is loaded;
else there is what keeps it from being loaded. Where the system refuses the file, or its text is no
document, since some line cannot be read, the settings are those under a missing file, whatever
tables the lines before it have filled. -/
theorem ofFile_of_unusable (ns nilPolicy : Option Text) (access : Access) :
    ((∃ settings, ofFile limits ns nilPolicy access = .ok settings) ↔ Loads limits access) ∧
    (∀ escape, ofFile limits ns nilPolicy access = .error escape ↔ Escapes limits access escape) ∧
    (∀ error, access = .failed error →
      ofFile limits ns nilPolicy access = ofFile limits ns nilPolicy .missing) ∧
    (∀ t, access = .file (Utf8.encode t) → (∀ c ∈ t, c.isSurrogate = false) →
      Toml.Stops limits t .invalid →
      ofFile limits ns nilPolicy access = ofFile limits ns nilPolicy .missing) ∧
    ∀ t, ¬ Toml.IsDocument limits t ↔
      Toml.Stops limits t .invalid ∨ ∃ excess, Toml.Stops limits t (.excess excess) := by
  refine ⟨exists_ofFile_iff, fun escape => ofFile_eq_error_iff, ?_, ?_, fun t => ?_⟩
  · rintro error rfl
    rfl
  · rintro t rfl hplain h
    exact ofFile_of_stops hplain h
  · rw [Toml.not_isDocument_iff]
    constructor
    · rintro ⟨_ | excess, h⟩
      · exact .inl h
      · exact .inr ⟨excess, h⟩
    · rintro (h | ⟨excess, h⟩)
      · exact ⟨_, h⟩
      · exact ⟨_, h⟩

/-- The last line has something behind its value, and the namespace of the line before is lost. -/
theorem ofFile_of_unusable_sample :
    let before := Text.ofString "[directives]\nnamespace = 's'\n"
    let t := before ++ Text.ofString "nil_policy = 'p' x\n"
    ((∀ c ∈ t, c.isSurrogate = false) ∧ Toml.Stops .usual t .invalid) ∧
      ofFile .usual none none (.file (Utf8.encode t)) = ofFile .usual none none .missing ∧
      ofFile .usual none none (.file (Utf8.encode before)) ≠ ofFile .usual none none .missing := by
  intro before t
  have hplain : ∀ c ∈ t, c.isSurrogate = false := by decide +kernel
  have hstops : Toml.Stops .usual t .invalid := by decide +kernel
  obtain ⟨-, -, -, hsame, -⟩ := ofFile_of_unusable .usual none none (.file (Utf8.encode t))
  refine ⟨⟨hplain, hstops⟩, hsame t rfl hplain hstops, ?_⟩
  have hbefore : (ofFile .usual none none (.file (Utf8.encode before))).toOption =
      some ⟨Text.ofString "s", Text.ofString "unconfined"⟩ := by decide +kernel
  intro h
  rw [h] at hbefore
  exact absurd hbefore (by decide +kernel)

/-- One octet that is no UTF-8 leaves no settings, though both are given explicitly. A missing file
leaves them. -/
theorem ofFile_of_stray_octet :
    let explicit (access : Access) :=
      ofFile .usual (some (Text.ofString "n")) (some (Text.ofString "p")) access
    explicit (.file [0xFF]) = .error (.encoding ⟨.invalidStart, 0, 1, 0xFF⟩) ∧
      explicit .missing = .ok ⟨Text.ofString "n", Text.ofString "p"⟩ :=
  ⟨rfl, rfl⟩

end ManifestPolicy.Settings
