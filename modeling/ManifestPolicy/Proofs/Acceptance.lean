import ManifestPolicy.Proofs.QuotedStrings
import ManifestPolicy.Proofs.Rows
import Mathlib.Data.List.Forall2

/-!
# Which manifests are read

A text is a manifest where three conditions hold, and each can be seen without the reader:
every quote is closed on its line, the rows can be walked, and the entries of the walk are
declarations that fit together. What a manifest declares is then what these entries say.

The entries are checked one after the other, against what the earlier ones declared. By
position this says only that there is at most one module and one go entry, that each entry
has its number of arguments, and that quoted arguments are strings.

## Main definitions

* `endsQuoted`: a line with an open quote.
* `Denotes`: what a token stands for.
* `Declarable`, `Declares`: entries that fit together, and what they declare.
* `Accepted`: a text that is a manifest, and its entries.

## Main statements

* `exists_scanLines_iff`: lines are cut into tokens where every quote is closed.
* `Declares.add`, `declares_of_foldlM`: the declarations of some entries, one at a time.
* `exists_foldlM_add_iff`: entries are accepted where they fit together.
* `read_accepts`: which manifests are read, and what they declare.
-/

namespace ManifestPolicy.Manifest

/-! ## Quotes -/

/-- Whether a line ends inside a quoted string. What follows its comment marker does not
count. -/
def endsQuoted (quoting : Quoting) : Text → Bool
  | [] => decide (quoting ≠ .outside)
  | c :: t =>
    if quoting = .outside ∧ Text.startsWith commentMarker (c :: t) = true then false
    else endsQuoted (quoting.next c) t

theorem endsQuoted_passes {quoting : Quoting} {s rest : Text} (h : Passes quoting s rest) :
    endsQuoted quoting (s ++ rest) = endsQuoted .outside rest := by
  induction h with
  | done rest => rfl
  | @step quoting c t rest noMarker _ ih =>
    rw [List.cons_append, endsQuoted, if_neg, ih]
    rintro ⟨houtside, hstarts⟩
    simp [noMarker houtside] at hstarts

theorem endsQuoted_remark {remark : Text} (h : IsRemark remark) :
    endsQuoted .outside remark = false := by
  rcases h with rfl | h
  · rfl
  · cases remark with
    | nil => rfl
    | cons c t => simp [endsQuoted, h]

/-- A quote that is not closed stays open up to the end of the line. -/
theorem endsQuoted_of_cutQuoted {quote : CodePoint} {escaped : Bool} {t : Text}
    (h : cutQuoted quote escaped t = none) : endsQuoted (.within quote escaped) t = true := by
  induction t generalizing escaped with
  | nil => rfl
  | cons c t ih =>
    rw [endsQuoted, if_neg (by simp)]
    cases escaped with
    | true =>
      simp only [cutQuoted, Option.map_eq_none_iff] at h
      exact ih h
    | false =>
      rw [Quoting.next]
      simp only [cutQuoted] at h
      split at h
      · next hescape =>
        rw [if_pos hescape]
        exact ih (by simpa using h)
      · next hescape =>
        rw [if_neg hescape]
        split at h
        · simp at h
        · next hclose =>
          rw [if_neg hclose]
          exact ih (by simpa using h)

/-- A line is cut into tokens exactly where its quotes are closed. -/
theorem exists_scanFrom_iff {number column : Int} {t : Text} :
    (∃ r, scanFrom number column t = .ok r) ↔ endsQuoted .outside t = false := by
  constructor
  · rintro ⟨⟨tokens, comment⟩, h⟩
    obtain ⟨ps, gap, remark, rfl, hspelled, hgap, hremark, -, -⟩ := exists_spell_of_scanFrom h
    rw [← List.nil_append (gap ++ remark), spell_append_tail,
      endsQuoted_passes (passes_spell hspelled), endsQuoted_passes (passes_blanks hgap _),
      endsQuoted_remark hremark]
  · intro h
    induction t using lineInduction generalizing column with
    | nil => exact ⟨_, scanFrom_nil number column⟩
    | blank c t hblank ih =>
      have hpasses : Passes .outside [c] t := passes_blanks (by simpa [Blanks] using hblank) t
      rw [← List.singleton_append, endsQuoted_passes hpasses] at h
      rw [scanFrom, if_pos hblank]
      exact ih h
    | remark t hmarker => exact ⟨_, scanFrom_remark _ _ (.inr hmarker)⟩
    | openQuote c t hquote hopen =>
      have hmarker := startsWith_commentMarker_of_ne (quote_not_special hquote).2.2 t
      rw [endsQuoted, if_neg (by simp [hmarker]), Quoting.next, if_pos hquote,
        endsQuoted_of_cutQuoted hopen] at h
      exact absurd h (by simp)
    | token token rest hcuts ih =>
      rw [endsQuoted_passes (passes_token hcuts)] at h
      obtain ⟨r, hr⟩ := ih h
      rw [scanFrom_token _ _ hcuts, hr]
      exact ⟨_, rfl⟩

/-- Lines are cut into tokens exactly where every quote is closed on its line. -/
theorem exists_scanLines_iff {number : Int} {texts : List Text} :
    (∃ lines, scanLines number texts = .ok lines) ↔ ∀ t ∈ texts, endsQuoted .outside t = false := by
  induction texts generalizing number with
  | nil => simp [scanLines]
  | cons t texts ih =>
    rw [List.forall_mem_cons, ← exists_scanFrom_iff, ← ih]
    constructor
    · rintro ⟨lines, h⟩
      obtain ⟨line, more, hline, hmore, -⟩ := scanLines_cons_eq_ok_iff.1 h
      obtain ⟨tokens, comment, hscan, -⟩ := ofText_eq_ok_iff.1 hline
      exact ⟨⟨_, hscan⟩, more, hmore⟩
    · rintro ⟨⟨r, hscan⟩, more, hmore⟩
      exact ⟨_, scanLines_cons_eq_ok_iff.2
        ⟨_, more, ofText_eq_ok_iff.2 ⟨r.1, r.2, hscan, rfl⟩, hmore, rfl⟩⟩

/-- What a token stands for: the inside of a text between grave accents, the text of a
string, and any other token itself. -/
inductive Denotes : Text → Text → Prop
  | raw (inside : Text) : Denotes (graveAccent :: (inside ++ [graveAccent])) inside
  | string {body : Text} {items : List Quoted.Item} (spelled : Quoted.SpellsAll body items) :
      Denotes (('"' : CodePoint) :: (body ++ [('"' : CodePoint)])) (Quoted.joinItems items)
  | word {c : CodePoint} (noQuote : isQuote c = false) (t : Text) : Denotes (c :: t) (c :: t)

/-- A token is not empty, and a grave accent at its start is closed by one at its end. -/
def IsToken (token : Text) : Prop :=
  token ≠ [] ∧ ∀ body, token = graveAccent :: body → ∃ inside, body = inside ++ [graveAccent]

theorem isQuote_graveAccent : isQuote graveAccent = true := by decide

theorem isToken_of_cuts {token rest : Text} (h : Cuts token rest) : IsToken token := by
  refine ⟨?_, fun body hbody => ?_⟩
  · obtain ⟨c, body, rfl, -⟩ := h.head
    simp
  · rcases h.cases with ⟨c, rfl, hparen⟩ | ⟨q, body', rfl, -, -, hcut⟩ |
      ⟨c, word, rfl, -, hquote, -⟩
    · rw [List.cons.injEq] at hbody
      rw [hbody.1] at hparen
      exact absurd hparen (by decide)
    · rw [List.cons.injEq] at hbody
      obtain ⟨inside, hinside, -⟩ := exists_inside_of_cutQuoted hcut
      exact ⟨inside, by rw [← hbody.2, hinside, hbody.1]⟩
    · rw [List.cons.injEq] at hbody
      rw [hbody.1, isQuote_graveAccent] at hquote
      exact absurd hquote (by simp)

theorem isToken_of_spelled {ps : List Piece} {tail : Text} (h : Spelled ps tail) :
    ∀ a ∈ ps.map Piece.token, IsToken a := by
  induction ps with
  | nil => simp
  | cons p ps ih =>
    obtain ⟨-, hcuts, hrest⟩ := h
    exact List.forall_mem_cons.2 ⟨isToken_of_cuts hcuts, ih hrest⟩

theorem isToken_of_mem_tokenTexts {t a : Text} (h : a ∈ tokenTexts t) : IsToken a := by
  cases hscan : scanFrom 1 1 t with
  | error e => simp [tokenTexts, hscan] at h
  | ok r =>
    obtain ⟨ps, gap, remark, -, hspelled, -, -, htokens, -⟩ := exists_spell_of_scanFrom hscan
    rw [tokenTexts_of_scanFrom hscan, htokens, map_text_tokensAt] at h
    exact isToken_of_spelled hspelled a h

theorem isToken_of_rows {number : Int} {texts : List Text} :
    ∀ r ∈ rowsFrom number texts, ∀ a ∈ r.tokens, IsToken a := by
  induction texts generalizing number with
  | nil => simp [rowsFrom]
  | cons t texts ih =>
    rw [rowsFrom]
    split
    · exact ih
    · exact List.forall_mem_cons.2 ⟨fun a ha => isToken_of_mem_tokenTexts ha, ih⟩

theorem quotation_ne_graveAccent : quotation ≠ graveAccent := by decide

theorem unquote_eq_ok_iff {p : Position} {token text : Text} (h : IsToken token) :
    unquote p token = .ok text ↔ Denotes token text := by
  obtain ⟨hne, hclosed⟩ := h
  cases token with
  | nil => exact absurd rfl hne
  | cons c t =>
    rw [unquote]
    by_cases haccent : c = graveAccent
    · rw [if_pos haccent, Except.ok.injEq]
      obtain ⟨inside, rfl⟩ := hclosed t (by rw [haccent])
      rw [haccent, List.dropLast_concat]
      constructor
      · rintro rfl
        exact .raw inside
      · intro hdenotes
        generalize htoken : graveAccent :: (inside ++ [graveAccent]) = token at hdenotes
        cases hdenotes with
        | raw => simpa using htoken
        | string => exact absurd (List.cons.inj htoken).1 quotation_ne_graveAccent.symm
        | word noQuote =>
          rw [← (List.cons.inj htoken).1, isQuote_graveAccent] at noQuote
          exact absurd noQuote (by simp)
    · rw [if_neg haccent]
      by_cases hquote : c = quotation
      · rw [if_pos hquote]
        refine Iff.trans (b := Quoted.decode? (c :: t) = some text) ?_ ?_
        · cases Quoted.decode? (c :: t) <;> simp
        rw [Quoted.decode?_eq_some_iff]
        constructor
        · rintro ⟨body, items, htoken, hspells, rfl⟩
          rw [htoken]
          exact .string hspells
        · intro hdenotes
          generalize htoken : c :: t = token at hdenotes
          cases hdenotes with
          | raw => exact absurd (List.cons.inj htoken).1 haccent
          | string spelled => exact ⟨_, _, rfl, spelled, rfl⟩
          | word noQuote =>
            rw [← (List.cons.inj htoken).1, hquote] at noQuote
            exact absurd noQuote (by decide)
      · rw [if_neg hquote, Except.ok.injEq]
        constructor
        · rintro rfl
          exact .word (by simp [isQuote, haccent, hquote]) t
        · intro hdenotes
          generalize htoken : c :: t = token at hdenotes ⊢
          cases hdenotes with
          | raw => exact absurd (List.cons.inj htoken).1 haccent
          | string => exact absurd (List.cons.inj htoken).1 hquote
          | word => rfl

/-- A token stands for something where it is a string or no string at all. -/
theorem exists_denotes {token : Text} (h : IsToken token)
    (hquote : token.head? = some quotation → Quoted.IsString token) :
    ∃ text, Denotes token text := by
  obtain ⟨hne, hclosed⟩ := h
  cases token with
  | nil => exact absurd rfl hne
  | cons c t =>
    by_cases haccent : c = graveAccent
    · obtain ⟨inside, rfl⟩ := hclosed t (by rw [haccent])
      exact ⟨inside, haccent ▸ .raw inside⟩
    · by_cases hc : c = quotation
      · obtain ⟨body, items, htoken, hspells⟩ := hquote (by rw [hc]; rfl)
        exact ⟨_, by rw [htoken]; exact .string hspells⟩
      · exact ⟨_, .word (by simp [isQuote, haccent, hc]) t⟩

theorem Denotes.isString {token text : Text} (h : Denotes token text)
    (hquote : token.head? = some quotation) : Quoted.IsString token := by
  cases h with
  | raw => exact absurd (Option.some.inj hquote) quotation_ne_graveAccent.symm
  | string spelled => exact ⟨_, _, rfl, spelled⟩
  | word noQuote =>
    rw [Option.some.inj hquote] at noQuote
    exact absurd noQuote (by decide)

/-! ## Entries that fit together -/

/-- Whether an entry has this verb. -/
def RowEntry.hasVerb (verb : String) (e : RowEntry) : Bool := e.verb = Text.ofString verb

/-- The arguments of an entry that start with a double quote are strings. -/
def RowEntry.QuotesStrings (e : RowEntry) : Prop :=
  ∀ a ∈ e.arguments, a.head? = some quotation → Quoted.IsString a

/-- Entries that fit together. Entries with other verbs are free. -/
structure Declarable (entries : List RowEntry) : Prop where
  oneModule : (entries.filter (RowEntry.hasVerb "module")).length ≤ 1
  oneGo : (entries.filter (RowEntry.hasVerb "go")).length ≤ 1
  moduleArguments : ∀ e ∈ entries, e.hasVerb "module" = true → e.arguments.length = 1
  goArguments : ∀ e ∈ entries, e.hasVerb "go" = true → e.arguments.length = 1
  requireArguments : ∀ e ∈ entries, e.hasVerb "require" = true → e.arguments.length = 2
  moduleStrings : ∀ e ∈ entries, e.hasVerb "module" = true → e.QuotesStrings
  requireStrings : ∀ e ∈ entries, e.hasVerb "require" = true → e.QuotesStrings

/-- What a module entry declares. -/
structure RowEntry.NamesModule (e : RowEntry) (d : ModuleEntry) : Prop where
  number : d.line.start.line = e.number
  arguments : ∃ path, e.arguments = [path] ∧ Denotes path d.path

/-- What a go entry declares: its version is kept as written. -/
structure RowEntry.NamesGo (e : RowEntry) (d : GoEntry) : Prop where
  number : d.line.start.line = e.number
  arguments : e.arguments = [d.version]

/-- What a require entry declares. -/
structure RowEntry.Requires (e : RowEntry) (r : Requirement) : Prop where
  number : r.line.start.line = e.number
  arguments : ∃ path version, e.arguments = [path, version] ∧ Denotes path r.path ∧
    Denotes version r.version
  indirect : r.indirect = r.line.isIndirect

/-- What entries declare: each entry with a verb of its own one thing, in order. -/
structure Declares (entries : List RowEntry) (d : Declarations) : Prop where
  module : List.Forall₂ RowEntry.NamesModule (entries.filter (RowEntry.hasVerb "module"))
    d.moduleEntry.toList
  go : List.Forall₂ RowEntry.NamesGo (entries.filter (RowEntry.hasVerb "go")) d.goEntry.toList
  requirements : List.Forall₂ RowEntry.Requires (entries.filter (RowEntry.hasVerb "require"))
    d.requirements

theorem RowEntry.hasVerb_iff {verb : String} {e : RowEntry} :
    e.hasVerb verb = true ↔ e.verb = Text.ofString verb := by
  rw [hasVerb, decide_eq_true_eq]

theorem filter_concat_of_hasVerb {verb : String} {entries : List RowEntry} {e : RowEntry}
    (h : e.verb = Text.ofString verb) :
    (entries ++ [e]).filter (RowEntry.hasVerb verb) =
      entries.filter (RowEntry.hasVerb verb) ++ [e] := by
  rw [List.filter_append, List.filter_cons_of_pos (RowEntry.hasVerb_iff.2 h), List.filter_nil]

theorem filter_concat_of_ne {verb : String} {entries : List RowEntry} {e : RowEntry}
    (h : e.verb ≠ Text.ofString verb) :
    (entries ++ [e]).filter (RowEntry.hasVerb verb) = entries.filter (RowEntry.hasVerb verb) := by
  rw [List.filter_append, List.filter_cons_of_neg (by rwa [RowEntry.hasVerb_iff]), List.filter_nil,
    List.append_nil]

/-- An entry adds what it declares. -/
theorem Declares.add {entries : List RowEntry} {d d' : Declarations} {e : Entry}
    (h : Declares entries d) (htokens : ∀ a ∈ e.arguments, IsToken a)
    (hadd : d.add e = .ok d') : Declares (entries ++ [e.written]) d' := by
  obtain ⟨hmodule, hgo, hrequirements⟩ := h
  have hverb : e.written.verb = e.verb := rfl
  cases add_eq_ok_iff.1 hadd with
  | @module token path verb first arguments unquoted =>
    have hdenotes := (unquote_eq_ok_iff (htokens token (by simp [arguments]))).1 unquoted
    rw [first] at hmodule
    refine ⟨?_, ?_, ?_⟩
    · rw [filter_concat_of_hasVerb (hverb.trans verb)]
      exact List.rel_append hmodule (.cons ⟨rfl, token, arguments, hdenotes⟩ .nil)
    · rwa [filter_concat_of_ne (by rw [hverb, verb]; decide)]
    · rwa [filter_concat_of_ne (by rw [hverb, verb]; decide)]
  | @go version verb first arguments =>
    rw [first] at hgo
    refine ⟨?_, ?_, ?_⟩
    · rwa [filter_concat_of_ne (by rw [hverb, verb]; decide)]
    · rw [filter_concat_of_hasVerb (hverb.trans verb)]
      exact List.rel_append hgo (.cons ⟨rfl, arguments⟩ .nil)
    · rwa [filter_concat_of_ne (by rw [hverb, verb]; decide)]
  | @require token₁ token₂ path version verb arguments unquoted₁ unquoted₂ =>
    have hdenotes₁ := (unquote_eq_ok_iff (htokens token₁ (by simp [arguments]))).1 unquoted₁
    have hdenotes₂ := (unquote_eq_ok_iff (htokens token₂ (by simp [arguments]))).1 unquoted₂
    refine ⟨?_, ?_, ?_⟩
    · rwa [filter_concat_of_ne (by rw [hverb, verb]; decide)]
    · rwa [filter_concat_of_ne (by rw [hverb, verb]; decide)]
    · rw [filter_concat_of_hasVerb (hverb.trans verb)]
      exact List.rel_append hrequirements
        (.cons ⟨rfl, ⟨token₁, token₂, arguments, hdenotes₁, hdenotes₂⟩, rfl⟩ .nil)
  | other noModule noGo noRequire =>
    refine ⟨?_, ?_, ?_⟩
    · rwa [filter_concat_of_ne noModule]
    · rwa [filter_concat_of_ne noGo]
    · rwa [filter_concat_of_ne noRequire]

theorem foldlM_concat_eq_ok_iff {entries : List Entry} {e : Entry} {d d' : Declarations} :
    (entries ++ [e]).foldlM Declarations.add d = .ok d' ↔
      ∃ d₁, entries.foldlM Declarations.add d = .ok d₁ ∧ d₁.add e = .ok d' := by
  rw [List.foldlM_append, bind_eq_ok_iff]
  simp only [List.foldlM_cons, List.foldlM_nil, bind_pure]

/-- Entries declare what they say, each in its place. -/
theorem declares_of_foldlM {entries : List Entry} {d : Declarations}
    (htokens : ∀ e ∈ entries, ∀ a ∈ e.arguments, IsToken a)
    (h : entries.foldlM Declarations.add {} = .ok d) : Declares (entries.map Entry.written) d := by
  induction entries using List.reverseRecOn generalizing d with
  | nil =>
    rw [List.foldlM_nil, pure_eq_ok_iff] at h
    exact h ▸ ⟨.nil, .nil, .nil⟩
  | append_singleton entries e ih =>
    obtain ⟨d₁, hbefore, hadd⟩ := foldlM_concat_eq_ok_iff.1 h
    have hdeclares := ih (fun e' he' => htokens e' (List.mem_append_left _ he')) hbefore
    rw [List.map_append]
    exact hdeclares.add (htokens e (by simp)) hadd

theorem exists_of_forall₂_left {α β : Type} {p : α → β → Prop} {l : List α} {l' : List β}
    (h : List.Forall₂ p l l') : ∀ a ∈ l, ∃ b ∈ l', p a b := by
  induction h with
  | nil => simp
  | cons hab _ ih =>
    refine List.forall_mem_cons.2 ⟨⟨_, List.mem_cons_self, hab⟩, fun a ha => ?_⟩
    obtain ⟨b, hb, hp⟩ := ih a ha
    exact ⟨b, List.mem_cons_of_mem _ hb, hp⟩

/-- Entries that declare something fit together. -/
theorem Declares.declarable {entries : List RowEntry} {d : Declarations} (h : Declares entries d) :
    Declarable entries := by
  have hmodule : ∀ e ∈ entries, e.hasVerb "module" = true → ∃ x, e.NamesModule x := by
    intro e he hverb
    obtain ⟨x, -, hx⟩ := exists_of_forall₂_left h.module e (List.mem_filter.2 ⟨he, hverb⟩)
    exact ⟨x, hx⟩
  have hgo : ∀ e ∈ entries, e.hasVerb "go" = true → ∃ x, e.NamesGo x := by
    intro e he hverb
    obtain ⟨x, -, hx⟩ := exists_of_forall₂_left h.go e (List.mem_filter.2 ⟨he, hverb⟩)
    exact ⟨x, hx⟩
  have hrequire : ∀ e ∈ entries, e.hasVerb "require" = true → ∃ r, e.Requires r := by
    intro e he hverb
    obtain ⟨r, -, hr⟩ := exists_of_forall₂_left h.requirements e (List.mem_filter.2 ⟨he, hverb⟩)
    exact ⟨r, hr⟩
  refine ⟨?_, ?_, fun e he hverb => ?_, fun e he hverb => ?_, fun e he hverb => ?_,
    fun e he hverb => ?_, fun e he hverb => ?_⟩
  · rw [h.module.length_eq]
    exact d.moduleEntry.length_toList_le
  · rw [h.go.length_eq]
    exact d.goEntry.length_toList_le
  · obtain ⟨x, -, path, harguments, -⟩ := hmodule e he hverb
    rw [harguments]
    rfl
  · obtain ⟨x, -, harguments⟩ := hgo e he hverb
    rw [harguments]
    rfl
  · obtain ⟨r, -, ⟨path, version, harguments, -⟩, -⟩ := hrequire e he hverb
    rw [harguments]
    rfl
  · obtain ⟨x, -, path, harguments, hpath⟩ := hmodule e he hverb
    rw [RowEntry.QuotesStrings, harguments, List.forall_mem_singleton]
    exact hpath.isString
  · obtain ⟨r, -, ⟨path, version, harguments, hpath, hversion⟩, -⟩ := hrequire e he hverb
    rw [RowEntry.QuotesStrings, harguments, List.forall_mem_cons, List.forall_mem_singleton]
    exact ⟨hpath.isString, hversion.isString⟩

theorem Declarable.of_append {entries more : List RowEntry} (h : Declarable (entries ++ more)) :
    Declarable entries := by
  have hmem {e : RowEntry} (he : e ∈ entries) : e ∈ entries ++ more := List.mem_append_left _ he
  have hlength (verb : String) : (entries.filter (RowEntry.hasVerb verb)).length ≤
      ((entries ++ more).filter (RowEntry.hasVerb verb)).length := by
    rw [List.filter_append, List.length_append]
    exact Nat.le_add_right _ _
  exact ⟨Nat.le_trans (hlength _) h.oneModule, Nat.le_trans (hlength _) h.oneGo,
    fun e he => h.moduleArguments e (hmem he), fun e he => h.goArguments e (hmem he),
    fun e he => h.requireArguments e (hmem he), fun e he => h.moduleStrings e (hmem he),
    fun e he => h.requireStrings e (hmem he)⟩

/-- Where an entry with a verb may be added and only one may have it, none has it yet. -/
theorem eq_none_of_declares {α : Type} {p : RowEntry → α → Prop} {verb : String}
    {entries : List RowEntry} {e : RowEntry} {x : Option α}
    (h : List.Forall₂ p (entries.filter (RowEntry.hasVerb verb)) x.toList)
    (hverb : e.verb = Text.ofString verb)
    (hone : ((entries ++ [e]).filter (RowEntry.hasVerb verb)).length ≤ 1) : x = none := by
  rw [filter_concat_of_hasVerb hverb, List.length_append, List.length_singleton,
    h.length_eq] at hone
  cases x with
  | none => rfl
  | some a => simp at hone

/-- An entry is accepted where it fits together with the entries before it. -/
theorem exists_add {entries : List RowEntry} {d : Declarations} {e : Entry}
    (h : Declares entries d) (htokens : ∀ a ∈ e.arguments, IsToken a)
    (hfit : Declarable (entries ++ [e.written])) : ∃ d', d.add e = .ok d' := by
  have hmem : e.written ∈ entries ++ [e.written] := by simp
  simp only [add_eq_ok_iff]
  by_cases hmodule : e.verb = Text.ofString "module"
  · have hverb : e.written.hasVerb "module" = true := RowEntry.hasVerb_iff.2 hmodule
    obtain ⟨token, harguments⟩ := List.length_eq_one_iff.1 (hfit.moduleArguments _ hmem hverb)
    have htoken : token ∈ e.arguments := by
      rw [show e.arguments = [token] from harguments]
      exact List.mem_singleton_self token
    obtain ⟨path, hpath⟩ :=
      exists_denotes (htokens token htoken) (hfit.moduleStrings _ hmem hverb token htoken)
    exact ⟨_, .module hmodule (eq_none_of_declares h.module hmodule hfit.oneModule) harguments
      ((unquote_eq_ok_iff (htokens token htoken)).2 hpath)⟩
  · by_cases hgo : e.verb = Text.ofString "go"
    · have hverb : e.written.hasVerb "go" = true := RowEntry.hasVerb_iff.2 hgo
      obtain ⟨version, harguments⟩ := List.length_eq_one_iff.1 (hfit.goArguments _ hmem hverb)
      exact ⟨_, .go hgo (eq_none_of_declares h.go hgo hfit.oneGo) harguments⟩
    · by_cases hrequire : e.verb = Text.ofString "require"
      · have hverb : e.written.hasVerb "require" = true := RowEntry.hasVerb_iff.2 hrequire
        obtain ⟨token₁, token₂, harguments⟩ :=
          List.length_eq_two.1 (hfit.requireArguments _ hmem hverb)
        have harguments : e.arguments = [token₁, token₂] := harguments
        have hunquote : ∀ a ∈ e.arguments, ∃ text, unquote e.line.start a = .ok text := by
          intro a ha
          obtain ⟨text, htext⟩ :=
            exists_denotes (htokens a ha) (hfit.requireStrings _ hmem hverb a ha)
          exact ⟨text, (unquote_eq_ok_iff (htokens a ha)).2 htext⟩
        obtain ⟨path, hpath⟩ := hunquote token₁ (by simp [harguments])
        obtain ⟨version, hversion⟩ := hunquote token₂ (by simp [harguments])
        exact ⟨_, .require hrequire harguments hpath hversion⟩
      · exact ⟨d, .other hmodule hgo hrequire⟩

/-- Entries are accepted exactly where they fit together. -/
theorem exists_foldlM_add_iff {entries : List Entry}
    (htokens : ∀ e ∈ entries, ∀ a ∈ e.arguments, IsToken a) :
    (∃ d, entries.foldlM Declarations.add {} = .ok d) ↔
      Declarable (entries.map Entry.written) := by
  constructor
  · rintro ⟨d, hd⟩
    exact (declares_of_foldlM htokens hd).declarable
  · intro h
    induction entries using List.reverseRecOn with
    | nil => exact ⟨{}, rfl⟩
    | append_singleton entries e ih =>
      rw [List.map_append] at h
      have hbefore : ∀ e' ∈ entries, ∀ a ∈ e'.arguments, IsToken a :=
        fun e' he' => htokens e' (List.mem_append_left _ he')
      obtain ⟨d, hd⟩ := ih hbefore h.of_append
      obtain ⟨d', hadd⟩ := exists_add (declares_of_foldlM hbefore hd) (htokens e (by simp)) h
      exact ⟨d', foldlM_concat_eq_ok_iff.2 ⟨d, hd, hadd⟩⟩

/-! ## Accepted texts -/

/-- The text is a manifest with these entries. -/
structure Accepted (text : Text) (entries : List RowEntry) : Prop where
  closed : ∀ t ∈ text.lines, endsQuoted .outside t = false
  walk : Walk .outside (rowsFrom 1 text.lines) entries
  declarable : Declarable entries

/-- The entries of what is read are those of the walk over the rows, and their arguments are
tokens. -/
theorem walk_of_layout {text : Text} {lines : List ScannedLine} {statements : List Statement}
    (hlines : scanLines 1 text.lines = .ok lines) (hlayout : Layout [] lines statements) :
    Walk .outside (rowsFrom 1 text.lines) (writtenEntries statements) ∧
      ∀ e ∈ statements.flatMap entriesOf, ∀ a ∈ e.arguments, IsToken a := by
  obtain ⟨entries, hwalk, hentries⟩ := walk_of_statementsFrom (statementsFrom_of_layout hlayout)
  have hwritten : writtenEntries statements = entries := hentries
  rw [rows_of_scanLines hlines, ← hwritten] at hwalk
  refine ⟨hwalk, fun e he => ?_⟩
  exact hwalk.forall_arguments isToken_of_rows e.written (List.mem_map_of_mem he)

/-- **The reader accepts its grammar.** A text is read exactly where every quote is closed, its
rows can be walked, and the entries of the walk fit together; and then these are the entries
of its statements, and the manifest declares what they say. -/
theorem read_accepts (name text : Text) :
    ((∃ m, read name text = .ok m) ↔ ∃ entries, Accepted text entries) ∧
    ∀ m entries, read name text = .ok m → Accepted text entries →
      writtenEntries m.statements = entries ∧ Declares entries m.declared := by
  refine ⟨⟨?_, ?_⟩, ?_⟩
  · rintro ⟨m, h⟩
    obtain ⟨lines, statements, d, hlines, hlayout, hd, rfl⟩ := read_eq_ok_iff.1 h
    obtain ⟨hwalk, htokens⟩ := walk_of_layout hlines hlayout
    exact ⟨writtenEntries statements, exists_scanLines_iff.1 ⟨lines, hlines⟩, hwalk,
      (exists_foldlM_add_iff htokens).1 ⟨d, hd⟩⟩
  · rintro ⟨entries, hclosed, hwalk, hdeclarable⟩
    obtain ⟨lines, hlines⟩ := exists_scanLines_iff.2 hclosed
    have hplace : Walk (Mode.outside []).place (lines.filterMap ScannedLine.row?) entries := by
      rw [rows_of_scanLines hlines]
      exact hwalk
    obtain ⟨statements, hstatements⟩ := exists_statementsFrom_of_walk hplace
    have hlayout := layout_of_statementsFrom hstatements
    obtain ⟨hwalk', htokens⟩ := walk_of_layout hlines hlayout
    rw [hwalk.unique hwalk'] at hdeclarable
    obtain ⟨d, hd⟩ := (exists_foldlM_add_iff htokens).2 hdeclarable
    exact ⟨_, read_eq_ok_iff.2 ⟨lines, statements, d, hlines, hlayout, hd, rfl⟩⟩
  · intro m entries h haccepted
    obtain ⟨lines, statements, d, hlines, hlayout, hd, rfl⟩ := read_eq_ok_iff.1 h
    obtain ⟨hwalk, htokens⟩ := walk_of_layout hlines hlayout
    have hentries : writtenEntries statements = entries := hwalk.unique haccepted.walk
    exact ⟨hentries, hentries ▸ declares_of_foldlM htokens hd⟩

/-- A module, a go entry in a block, and a requirement with quoted parentheses as its path. -/
theorem read_accepts_sample :
    ∃ text m entries,
      text = Text.ofString "module m\ngo (\n 1\n)\nrequire \"()\" v\n" ∧
      entries = [⟨1, Text.ofString "module", [Text.ofString "m"]⟩,
        ⟨3, Text.ofString "go", [Text.ofString "1"]⟩,
        ⟨5, Text.ofString "require", [Text.ofString "\"()\"", Text.ofString "v"]⟩] ∧
      (read [] text = .ok m ∧ Accepted text entries) ∧
      writtenEntries m.statements = entries ∧ Declares entries m.declared := by
  obtain ⟨text, htext⟩ : ∃ t, t =
      Text.ofString "module m\ngo (\n 1\n)\nrequire \"()\" v\n" := ⟨_, rfl⟩
  have hread : (read [] text).toOption.map (fun m => writtenEntries m.statements) =
      some [⟨1, Text.ofString "module", [Text.ofString "m"]⟩,
        ⟨3, Text.ofString "go", [Text.ofString "1"]⟩,
        ⟨5, Text.ofString "require", [Text.ofString "\"()\"", Text.ofString "v"]⟩] := by
    rw [htext]
    decide +kernel
  obtain ⟨m, hm, hentries⟩ := Option.map_eq_some_iff.1 hread
  rw [toOption_eq_some_iff] at hm
  obtain ⟨hiff, hdeclares⟩ := read_accepts [] text
  obtain ⟨entries, haccepted⟩ := hiff.1 ⟨m, hm⟩
  obtain ⟨hwritten, hdeclared⟩ := hdeclares m entries hm haccepted
  exact ⟨text, m, entries, htext, hwritten.symm.trans hentries, ⟨hm, haccepted⟩, hwritten,
    hdeclared⟩

end ManifestPolicy.Manifest
