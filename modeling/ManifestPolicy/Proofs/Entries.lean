import ManifestPolicy.Proofs.Grammar
import Mathlib.Data.List.Forall2

/-!
# What an entry declares

An entry is added to the declarations in one of four ways, and each says what the entry must
look like and what it changes. Everything about the declarations of a manifest follows from
them, one entry at a time.

## Main definitions

* `Adds`: the declarations before and after an entry.
* `Entry.Related`, `Declarations.Related`: entries and declarations that differ in their lines.
* `Entry.Restated`: entries that differ also in how their arguments are written.

## Main statements

* `add_eq_ok_iff`: an entry is accepted in one of these ways and in no other.
* `unquote_eq_ok`: what an argument stands for does not depend on its place.
* `Declarations.Related.add`, `related_of_foldlM`: restated entries are accepted together.
* `related_self_of_declarations`: what is declared stands where its entry does.
-/

namespace ManifestPolicy.Manifest

/-- What a manifest declares. -/
def declared (m : Manifest) : Declarations := ⟨m.moduleEntry, m.goEntry, m.requirements⟩

/-- What an entry does to the declarations. -/
inductive Adds (d : Declarations) (e : Entry) : Declarations → Prop
  | module {token path : Text} (verb : e.verb = Text.ofString "module")
      (first : d.moduleEntry = none) (arguments : e.arguments = [token])
      (unquoted : unquote e.line.start token = .ok path) :
      Adds d e { d with moduleEntry := some ⟨path, e.line⟩ }
  | go {version : Text} (verb : e.verb = Text.ofString "go") (first : d.goEntry = none)
      (arguments : e.arguments = [version]) :
      Adds d e { d with goEntry := some ⟨version, e.line⟩ }
  | require {token₁ token₂ path version : Text} (verb : e.verb = Text.ofString "require")
      (arguments : e.arguments = [token₁, token₂])
      (unquoted₁ : unquote e.line.start token₁ = .ok path)
      (unquoted₂ : unquote e.line.start token₂ = .ok version) :
      Adds d e { d with
        requirements := d.requirements ++ [⟨path, version, e.line, e.line.isIndirect⟩] }
  | other (noModule : e.verb ≠ Text.ofString "module") (noGo : e.verb ≠ Text.ofString "go")
      (noRequire : e.verb ≠ Text.ofString "require") : Adds d e d

variable {d d' : Declarations} {e : Entry}

theorem adds_of_addModule (verb : e.verb = Text.ofString "module")
    (h : d.addModule e = .ok d') : Adds d e d' := by
  rw [Declarations.addModule] at h
  split at h
  · simp at h
  · next hnone =>
    split at h
    · next token harguments =>
      obtain ⟨path, hpath, hd⟩ := bind_eq_ok_iff.1 h
      rw [pure_eq_ok_iff] at hd
      rw [← hd]
      exact .module verb (by simpa using hnone) harguments hpath
    · simp at h

theorem adds_of_addGo (verb : e.verb = Text.ofString "go") (h : d.addGo e = .ok d') :
    Adds d e d' := by
  rw [Declarations.addGo] at h
  split at h
  · simp at h
  · next hnone =>
    split at h
    · next version harguments =>
      rw [Except.ok.injEq] at h
      rw [← h]
      exact .go verb (by simpa using hnone) harguments
    · simp at h

theorem adds_of_addRequire (verb : e.verb = Text.ofString "require")
    (h : d.addRequire e = .ok d') : Adds d e d' := by
  rw [Declarations.addRequire] at h
  split at h
  · next token₁ token₂ harguments =>
    simp only [bind_eq_ok_iff, pure_eq_ok_iff] at h
    obtain ⟨path, hpath, version, hversion, hd⟩ := h
    rw [← hd]
    exact .require verb harguments hpath hversion
  · simp at h

/-- An entry is accepted in one of these ways and in no other. -/
theorem add_eq_ok_iff : d.add e = .ok d' ↔ Adds d e d' := by
  rw [Declarations.add]
  constructor
  · intro h
    by_cases hmodule : e.verb = Text.ofString "module"
    · rw [if_pos hmodule] at h
      exact adds_of_addModule hmodule h
    · rw [if_neg hmodule] at h
      by_cases hgo : e.verb = Text.ofString "go"
      · rw [if_pos hgo] at h
        exact adds_of_addGo hgo h
      · rw [if_neg hgo] at h
        by_cases hrequire : e.verb = Text.ofString "require"
        · rw [if_pos hrequire] at h
          exact adds_of_addRequire hrequire h
        · rw [if_neg hrequire, Except.ok.injEq] at h
          rw [← h]
          exact .other hmodule hgo hrequire
  · intro h
    cases h with
    | module verb first arguments unquoted =>
      rw [if_pos verb, Declarations.addModule, first, arguments]
      simp only [Option.isSome_none, unquoted]
      rfl
    | go verb first arguments =>
      rw [if_neg (by rw [verb]; decide), if_pos verb, Declarations.addGo, first, arguments]
      rfl
    | require verb arguments unquoted₁ unquoted₂ =>
      rw [if_neg (by rw [verb]; decide), if_neg (by rw [verb]; decide), if_pos verb,
        Declarations.addRequire, arguments]
      simp only [unquoted₁, unquoted₂]
      rfl
    | other noModule noGo noRequire =>
      rw [if_neg noModule, if_neg noGo, if_neg noRequire]

/-- What an argument stands for does not depend on its place. -/
theorem unquote_eq_ok {p : Position} {token text : Text} (h : unquote p token = .ok text)
    (q : Position) : unquote q token = .ok text := by
  cases token with
  | nil => exact h
  | cons c t =>
    rw [unquote] at h ⊢
    by_cases haccent : c = graveAccent
    · rw [if_pos haccent] at h ⊢
      exact h
    · rw [if_neg haccent] at h ⊢
      by_cases hquote : c = quotation
      · rw [if_pos hquote] at h ⊢
        cases hdecode : Quoted.decode? (c :: t) with
        | none => simp [hdecode] at h
        | some decoded =>
          rw [hdecode] at h
          exact h
      · rw [if_neg hquote] at h ⊢
        exact h

/-! The line of an entry is kept and not read, and an argument counts for what it stands for. So two
lists of entries that say the same are accepted together, and whatever relates their lines
relates the lines of the declarations. -/

/-- Entries that say the same, on lines that are related. -/
structure Entry.Related (R : Text → Line → Line → Prop) (e e' : Entry) : Prop where
  verb : e'.verb = e.verb
  arguments : e'.arguments = e.arguments
  line : R e.verb e.line e'.line

/-- Declarations that say the same, on lines that are related. -/
structure Declarations.Related (R : Text → Line → Line → Prop) (d d' : Declarations) : Prop where
  module : Option.Rel (fun x x' => x'.path = x.path ∧ R (Text.ofString "module") x.line x'.line)
    d.moduleEntry d'.moduleEntry
  go : Option.Rel (fun x x' => x'.version = x.version ∧ R (Text.ofString "go") x.line x'.line)
    d.goEntry d'.goEntry
  requirements : List.Forall₂
    (fun r r' => r'.path = r.path ∧ R (Text.ofString "require") r.line r'.line)
    d.requirements d'.requirements

theorem rel_imp {α β : Type} {p q : α → β → Prop} {x : Option α} {y : Option β}
    (h : Option.Rel p x y) (himp : ∀ a b, p a b → q a b) : Option.Rel q x y := by
  cases h with
  | none => exact .none
  | some hab => exact .some (himp _ _ hab)

theorem eq_none_of_rel {α β : Type} {p : α → β → Prop} {y : Option β}
    (h : Option.Rel p none y) : y = none := by
  cases h
  rfl

section

variable {R : Text → Line → Line → Prop}

/-- Arguments that stand for the same wherever they are read. -/
def SameArgument (a a' : Text) : Prop := ∀ p q t, unquote p a = .ok t → unquote q a' = .ok t

theorem sameArgument_refl (a : Text) : SameArgument a a := fun _ q _ h => unquote_eq_ok h q

/-- Entries whose arguments stand for the same, on lines that are related. What a go entry names
is kept as it is written. -/
structure Entry.Restated (R : Text → Line → Line → Prop) (e e' : Entry) : Prop where
  verb : e'.verb = e.verb
  arguments : List.Forall₂ SameArgument e.arguments e'.arguments
  version : e.verb = Text.ofString "go" → e'.arguments = e.arguments
  line : R e.verb e.line e'.line

theorem Entry.Related.restated {e e' : Entry} (h : Entry.Related R e e') :
    Entry.Restated R e e' where
  verb := h.verb
  arguments := by
    rw [h.arguments, List.forall₂_same]
    exact fun a _ => sameArgument_refl a
  version := fun _ => h.arguments
  line := h.line

/-- Declarations on related lines are on lines that are related in any weaker way. -/
theorem Declarations.Related.imp {R' : Text → Line → Line → Prop} {d d' : Declarations}
    (h : Declarations.Related R d d') (himp : ∀ verb l l', R verb l l' → R' verb l l') :
    Declarations.Related R' d d' := by
  obtain ⟨hmodule, hgo, hrequirements⟩ := h
  exact ⟨rel_imp hmodule fun _ _ hx => ⟨hx.1, himp _ _ _ hx.2⟩,
    rel_imp hgo fun _ _ hx => ⟨hx.1, himp _ _ _ hx.2⟩,
    hrequirements.imp fun _ _ hr => ⟨hr.1, himp _ _ _ hr.2⟩⟩

/-- Restated entries keep declarations related. -/
theorem Declarations.Related.add {d d' d₁ : Declarations} {e e' : Entry}
    (h : Declarations.Related R d d') (he : Entry.Restated R e e') (hadd : d.add e = .ok d₁) :
    ∃ d₁', d'.add e' = .ok d₁' ∧ Declarations.Related R d₁ d₁' := by
  simp only [add_eq_ok_iff] at hadd ⊢
  obtain ⟨hmodule, hgo, hrequirements⟩ := h
  obtain ⟨hverb, hsame, hversion, hline⟩ := he
  cases hadd with
  | module verb first arguments unquoted =>
    rw [first] at hmodule
    rw [verb] at hline
    rw [arguments] at hsame
    generalize harguments : e'.arguments = arguments' at hsame
    cases hsame with
    | cons ha hsame =>
      cases hsame
      exact ⟨_, .module (hverb.trans verb) (eq_none_of_rel hmodule) harguments (ha _ _ _ unquoted),
        .some ⟨rfl, hline⟩, hgo, hrequirements⟩
  | go verb first arguments =>
    rw [first] at hgo
    rw [verb] at hline
    exact ⟨_, .go (hverb.trans verb) (eq_none_of_rel hgo) ((hversion verb).trans arguments),
      hmodule, .some ⟨rfl, hline⟩, hrequirements⟩
  | require verb arguments unquoted₁ unquoted₂ =>
    rw [verb] at hline
    rw [arguments] at hsame
    generalize harguments : e'.arguments = arguments' at hsame
    cases hsame with
    | cons ha hsame =>
      cases hsame with
      | cons hb hsame =>
        cases hsame
        exact ⟨_, .require (hverb.trans verb) harguments (ha _ _ _ unquoted₁)
          (hb _ _ _ unquoted₂), hmodule, hgo,
          List.rel_append hrequirements (.cons ⟨rfl, hline⟩ .nil)⟩
  | other noModule noGo noRequire =>
    exact ⟨_, .other (hverb ▸ noModule) (hverb ▸ noGo) (hverb ▸ noRequire), hmodule, hgo,
      hrequirements⟩

/-- Restated entries are accepted together. -/
theorem related_of_foldlM {entries entries' : List Entry} {d d' d₁ : Declarations}
    (h : Declarations.Related R d d') (hentries : List.Forall₂ (Entry.Restated R) entries entries')
    (hadd : entries.foldlM Declarations.add d = .ok d₁) :
    ∃ d₁', entries'.foldlM Declarations.add d' = .ok d₁' ∧ Declarations.Related R d₁ d₁' := by
  induction hentries generalizing d d' with
  | nil =>
    rw [List.foldlM_nil, pure_eq_ok_iff] at hadd
    exact ⟨d', rfl, hadd ▸ h⟩
  | cons he _ ih =>
    rw [List.foldlM_cons, bind_eq_ok_iff] at hadd
    obtain ⟨d₂, hstep, hrest⟩ := hadd
    obtain ⟨d₂', hstep', hrelated⟩ := h.add he hstep
    obtain ⟨d₁', hrest', hresult⟩ := ih hrelated hrest
    refine ⟨d₁', ?_, hresult⟩
    rw [List.foldlM_cons, bind_eq_ok_iff]
    exact ⟨d₂', hstep', hrest'⟩

/-- Statements with restated entries declare the same. -/
theorem related_of_restated {statements statements' : List Statement}
    {d : Declarations} (hentries : List.Forall₂ (Entry.Restated R)
      (statements.flatMap entriesOf) (statements'.flatMap entriesOf))
    (h : declarations statements = .ok d) :
    ∃ d', declarations statements' = .ok d' ∧ Declarations.Related R d d' :=
  related_of_foldlM ⟨.none, .none, .nil⟩ hentries h

/-- Statements with related entries declare the same. -/
theorem related_of_declarations {statements statements' : List Statement} {d : Declarations}
    (hentries : List.Forall₂ (Entry.Related R) (statements.flatMap entriesOf)
      (statements'.flatMap entriesOf)) (h : declarations statements = .ok d) :
    ∃ d', declarations statements' = .ok d' ∧ Declarations.Related R d d' :=
  related_of_restated (hentries.imp fun _ _ he => he.restated) h

/-- What holds of the lines of all entries holds of the lines of the declarations. -/
theorem related_self_of_declarations {P : Text → Line → Prop} {statements : List Statement}
    {d : Declarations} (hentries : ∀ e ∈ statements.flatMap entriesOf, P e.verb e.line)
    (h : declarations statements = .ok d) :
    Declarations.Related (fun verb l _ => P verb l) d d := by
  have hself : List.Forall₂ (Entry.Related fun verb l _ => P verb l)
      (statements.flatMap entriesOf) (statements.flatMap entriesOf) := by
    rw [List.forall₂_same]
    intro e he
    exact ⟨rfl, rfl, hentries e he⟩
  obtain ⟨d', hd', hrelated⟩ := related_of_declarations hself h
  rw [h, Except.ok.injEq] at hd'
  exact hd' ▸ hrelated

end

end ManifestPolicy.Manifest
