import ManifestPolicy.Proofs.RelatedLines
import ManifestPolicy.Proofs.StructureFaults
import ManifestPolicy.Proofs.Tiling

/-!
# The fault that is reported

A text that is no manifest has one reported fault, although it may have many. It is the open quote
of the first line that has one; otherwise the fault of the structure; otherwise that of the first
entry that does not fit to the entries before it. So an open quote is reported before anything that
is wrong further up, and a misplaced parenthesis before any entry.

Every fault is at a code point of the text, which is no blank.

## Main definitions

* `Offends`: an entry that does not fit to the entries before it, and what is wrong with it.
* `Reports`: the fault that is reported for a text.
* `Fault.Marks`: the code point at the place of a fault.
* `Statement.HasFirst`: what is looked up in a statement is there.

## Main statements

* `add_eq_error_iff`: an entry is refused where it offends.
* `foldlM_add_eq_error_iff`: entries are refused at the first one that offends.
* `exists_place_of_token`: a token starts at a code point of its line.
* `read_reports`: a text is refused with the fault that is reported for it.
-/

namespace ManifestPolicy

/-- Whatever is looked up in a statement is there: the first token of a line, of a block and of the
lines in it, and the first comment of a run. -/
def Statement.HasFirst : Statement → Prop
  | .line l => l.tokens ≠ []
  | .block b => b.tokens ≠ [] ∧ ∀ l ∈ b.lines, l.tokens ≠ []
  | .comments r => r.comments.before ≠ []

namespace Manifest

/-! ## Refused entries -/

/-- A token that starts as a string and is none. -/
def Malformed (token : Text) : Prop := token.head? = some quotation ∧ ¬ Quoted.IsString token

/-- An entry that does not fit to the entries before it, and what is wrong with it: first that it
is repeated, then its number of arguments, then the first argument that is malformed. -/
inductive Offends (earlier : List RowEntry) (e : RowEntry) : Reason → Prop
  | repeatedModule (verb : e.hasVerb "module" = true)
      (again : ∃ b ∈ earlier, b.hasVerb "module" = true) : Offends earlier e .repeatedModule
  | moduleUsage (verb : e.hasVerb "module" = true)
      (first : ∀ b ∈ earlier, b.hasVerb "module" = false) (number : e.arguments.length ≠ 1) :
      Offends earlier e .moduleUsage
  | modulePath {path : Text} (verb : e.hasVerb "module" = true)
      (first : ∀ b ∈ earlier, b.hasVerb "module" = false) (arguments : e.arguments = [path])
      (malformed : Malformed path) : Offends earlier e (.invalidQuoted path)
  | repeatedGo (verb : e.hasVerb "go" = true) (again : ∃ b ∈ earlier, b.hasVerb "go" = true) :
      Offends earlier e .repeatedGo
  | goUsage (verb : e.hasVerb "go" = true) (first : ∀ b ∈ earlier, b.hasVerb "go" = false)
      (number : e.arguments.length ≠ 1) : Offends earlier e .goUsage
  | requireUsage (verb : e.hasVerb "require" = true) (number : e.arguments.length ≠ 2) :
      Offends earlier e .requireUsage
  | requirePath {path version : Text} (verb : e.hasVerb "require" = true)
      (arguments : e.arguments = [path, version]) (malformed : Malformed path) :
      Offends earlier e (.invalidQuoted path)
  | requireVersion {path version : Text} (verb : e.hasVerb "require" = true)
      (arguments : e.arguments = [path, version]) (wellFormed : ¬ Malformed path)
      (malformed : Malformed version) : Offends earlier e (.invalidQuoted version)

theorem decode?_eq_none_iff {token : Text} :
    Quoted.decode? token = none ↔ ¬ Quoted.IsString token := by
  rw [Option.eq_none_iff_forall_ne_some, Quoted.IsString]
  constructor
  · rintro h ⟨body, items, htoken, hspells⟩
    exact h _ (Quoted.decode?_eq_some_iff.2 ⟨body, items, htoken, hspells, rfl⟩)
  · intro h text hdecode
    obtain ⟨body, items, htoken, hspells, -⟩ := Quoted.decode?_eq_some_iff.1 hdecode
    exact h ⟨body, items, htoken, hspells⟩

theorem unquote_eq_error_iff {p : Position} {token : Text} {f : Fault} :
    unquote p token = .error f ↔ Malformed token ∧ f = ⟨.invalidQuoted token, p⟩ := by
  cases token with
  | nil => simp [unquote, Malformed]
  | cons c t =>
    rw [unquote, Malformed, List.head?_cons, Option.some.injEq]
    by_cases haccent : c = graveAccent
    · rw [if_pos haccent]
      simp [haccent, quotation_ne_graveAccent.symm]
    · rw [if_neg haccent]
      by_cases hquote : c = quotation
      · rw [if_pos hquote, ← decode?_eq_none_iff]
        cases Quoted.decode? (c :: t) with
        | none => simp [hquote, @eq_comm _ f]
        | some text => simp
      · rw [if_neg hquote]
        simp [hquote]

theorem exists_unquote_iff {p : Position} {token : Text} :
    (∃ text, unquote p token = .ok text) ↔ ¬ Malformed token := by
  cases h : unquote p token with
  | ok text =>
    refine iff_of_true ⟨text, rfl⟩ fun hmalformed => ?_
    rw [unquote_eq_error_iff.2 ⟨hmalformed, rfl⟩] at h
    cases h
  | error f => exact iff_of_false (by simp) (not_not.2 (unquote_eq_error_iff.1 h).1)

/-- Whether something was declared can be seen from the entries with its verb. -/
theorem isSome_iff_of_forall₂ {α : Type} {p : RowEntry → α → Prop} {verb : String}
    {entries : List RowEntry} {x : Option α}
    (h : List.Forall₂ p (entries.filter (RowEntry.hasVerb verb)) x.toList) :
    x.isSome = true ↔ ∃ b ∈ entries, b.hasVerb verb = true := by
  have hlength := h.length_eq
  constructor
  · intro hsome
    obtain ⟨a, rfl⟩ := Option.isSome_iff_exists.1 hsome
    obtain ⟨b, hb⟩ := List.exists_mem_of_length_pos (l := entries.filter (RowEntry.hasVerb verb))
      (by rw [hlength]; simp)
    exact ⟨b, List.mem_filter.1 hb⟩
  · rintro ⟨b, hb⟩
    have hpos := List.length_pos_of_mem (List.mem_filter.2 hb)
    cases x with
    | none => rw [hlength] at hpos; simp at hpos
    | some a => rfl

section

variable {earlier : List RowEntry} {d : Declarations} {e : Entry} {f : Fault}

theorem add_of_module (h : e.verb = Text.ofString "module") : d.add e = d.addModule e := by
  rw [Declarations.add, if_pos h]

theorem add_of_go (h : e.verb = Text.ofString "go") : d.add e = d.addGo e := by
  rw [Declarations.add, if_neg (by rw [h]; decide), if_pos h]

theorem add_of_require (h : e.verb = Text.ofString "require") : d.add e = d.addRequire e := by
  rw [Declarations.add, if_neg (by rw [h]; decide), if_neg (by rw [h]; decide), if_pos h]

theorem addModule_eq_error_iff :
    d.addModule e = .error f ↔
      (d.moduleEntry.isSome = true ∧ f = ⟨.repeatedModule, e.line.start⟩) ∨
      (d.moduleEntry.isSome = false ∧ e.arguments.length ≠ 1 ∧ f = ⟨.moduleUsage, e.line.start⟩) ∨
      ∃ path, d.moduleEntry.isSome = false ∧ e.arguments = [path] ∧ Malformed path ∧
        f = ⟨.invalidQuoted path, e.line.start⟩ := by
  rw [Declarations.addModule]
  by_cases hsome : d.moduleEntry.isSome = true
  · rw [if_pos hsome]
    simp [hsome, @eq_comm _ f]
  · rw [if_neg hsome]
    cases e.arguments with
    | nil => simp [hsome, @eq_comm _ f]
    | cons path rest =>
      cases rest with
      | nil => simp [hsome, bind_eq_error_iff, unquote_eq_error_iff, pure, Except.pure]
      | cons _ _ => simp [hsome, @eq_comm _ f]

theorem addGo_eq_error_iff :
    d.addGo e = .error f ↔
      (d.goEntry.isSome = true ∧ f = ⟨.repeatedGo, e.line.start⟩) ∨
      (d.goEntry.isSome = false ∧ e.arguments.length ≠ 1 ∧ f = ⟨.goUsage, e.line.start⟩) := by
  rw [Declarations.addGo]
  by_cases hsome : d.goEntry.isSome = true
  · rw [if_pos hsome]
    simp [hsome, @eq_comm _ f]
  · rw [if_neg hsome]
    cases e.arguments with
    | nil => simp [hsome, @eq_comm _ f]
    | cons version rest =>
      cases rest with
      | nil => simp [hsome]
      | cons _ _ => simp [hsome, @eq_comm _ f]

theorem addRequire_eq_error_iff :
    d.addRequire e = .error f ↔
      (e.arguments.length ≠ 2 ∧ f = ⟨.requireUsage, e.line.start⟩) ∨
      ∃ path version, e.arguments = [path, version] ∧
        ((Malformed path ∧ f = ⟨.invalidQuoted path, e.line.start⟩) ∨
          (¬ Malformed path ∧ Malformed version ∧
            f = ⟨.invalidQuoted version, e.line.start⟩)) := by
  rw [Declarations.addRequire]
  cases e.arguments with
  | nil => simp [@eq_comm _ f]
  | cons path rest =>
    cases rest with
    | nil => simp [@eq_comm _ f]
    | cons version rest =>
      cases rest with
      | nil =>
        simp [bind_eq_error_iff, unquote_eq_error_iff, exists_unquote_iff, pure, Except.pure]
      | cons _ _ => simp [@eq_comm _ f]

/-- An entry is refused where it offends, and at the start of its line. -/
theorem add_eq_error_iff (h : Declares earlier d) :
    d.add e = .error f ↔
      ∃ reason, Offends earlier e.written reason ∧ f = ⟨reason, e.line.start⟩ := by
  have hmodule := isSome_iff_of_forall₂ h.module
  have hgo := isSome_iff_of_forall₂ h.go
  have hnone {verb : String} {some? : Bool}
      (hsome : some? = true ↔ ∃ b ∈ earlier, b.hasVerb verb = true) :
      some? = false ↔ ∀ b ∈ earlier, b.hasVerb verb = false := by
    rw [← Bool.not_eq_true, hsome]
    simp only [not_exists, not_and, Bool.not_eq_true]
  constructor
  · intro hadd
    by_cases hverb : e.verb = Text.ofString "module"
    · have hwritten : e.written.hasVerb "module" = true := RowEntry.hasVerb_iff.2 hverb
      rw [add_of_module hverb, addModule_eq_error_iff] at hadd
      rcases hadd with ⟨hsome, rfl⟩ | ⟨hfirst, hnumber, rfl⟩ |
        ⟨path, hfirst, harguments, hpath, rfl⟩
      · exact ⟨_, .repeatedModule hwritten (hmodule.1 hsome), rfl⟩
      · exact ⟨_, .moduleUsage hwritten ((hnone hmodule).1 hfirst) hnumber, rfl⟩
      · exact ⟨_, .modulePath hwritten ((hnone hmodule).1 hfirst) harguments hpath, rfl⟩
    · by_cases hverb' : e.verb = Text.ofString "go"
      · have hwritten : e.written.hasVerb "go" = true := RowEntry.hasVerb_iff.2 hverb'
        rw [add_of_go hverb', addGo_eq_error_iff] at hadd
        rcases hadd with ⟨hsome, rfl⟩ | ⟨hfirst, hnumber, rfl⟩
        · exact ⟨_, .repeatedGo hwritten (hgo.1 hsome), rfl⟩
        · exact ⟨_, .goUsage hwritten ((hnone hgo).1 hfirst) hnumber, rfl⟩
      · by_cases hverb'' : e.verb = Text.ofString "require"
        · have hwritten : e.written.hasVerb "require" = true := RowEntry.hasVerb_iff.2 hverb''
          rw [add_of_require hverb'', addRequire_eq_error_iff] at hadd
          rcases hadd with ⟨hnumber, rfl⟩ | ⟨path, version, harguments, ⟨hpath, rfl⟩ |
            ⟨hpath, hversion, rfl⟩⟩
          · exact ⟨_, .requireUsage hwritten hnumber, rfl⟩
          · exact ⟨_, .requirePath hwritten harguments hpath, rfl⟩
          · exact ⟨_, .requireVersion hwritten harguments hpath hversion, rfl⟩
        · rw [Declarations.add, if_neg hverb, if_neg hverb', if_neg hverb''] at hadd
          cases hadd
  · rintro ⟨reason, hoffends, rfl⟩
    cases hoffends with
    | repeatedModule verb again =>
      rw [add_of_module (RowEntry.hasVerb_iff.1 verb), addModule_eq_error_iff]
      exact .inl ⟨hmodule.2 again, rfl⟩
    | moduleUsage verb first number =>
      rw [add_of_module (RowEntry.hasVerb_iff.1 verb), addModule_eq_error_iff]
      exact .inr (.inl ⟨(hnone hmodule).2 first, number, rfl⟩)
    | modulePath verb first arguments malformed =>
      rw [add_of_module (RowEntry.hasVerb_iff.1 verb), addModule_eq_error_iff]
      exact .inr (.inr ⟨_, (hnone hmodule).2 first, arguments, malformed, rfl⟩)
    | repeatedGo verb again =>
      rw [add_of_go (RowEntry.hasVerb_iff.1 verb), addGo_eq_error_iff]
      exact .inl ⟨hgo.2 again, rfl⟩
    | goUsage verb first number =>
      rw [add_of_go (RowEntry.hasVerb_iff.1 verb), addGo_eq_error_iff]
      exact .inr ⟨(hnone hgo).2 first, number, rfl⟩
    | requireUsage verb number =>
      rw [add_of_require (RowEntry.hasVerb_iff.1 verb), addRequire_eq_error_iff]
      exact .inl ⟨number, rfl⟩
    | requirePath verb arguments malformed =>
      rw [add_of_require (RowEntry.hasVerb_iff.1 verb), addRequire_eq_error_iff]
      exact .inr ⟨_, _, arguments, .inl ⟨malformed, rfl⟩⟩
    | requireVersion verb arguments wellFormed malformed =>
      rw [add_of_require (RowEntry.hasVerb_iff.1 verb), addRequire_eq_error_iff]
      exact .inr ⟨_, _, arguments, .inr ⟨wellFormed, malformed, rfl⟩⟩

end

/-- The first entry that offends, with the entries before it. -/
structure FirstOffence (entries before : List RowEntry) (e : RowEntry) (reason : Reason) :
    Prop where
  split : ∃ after, entries = before ++ e :: after
  first : ∀ b x after, before = b ++ x :: after → ∀ r, ¬ Offends b x r
  offends : Offends before e reason

/-- Entries are refused at one of them that offends, and accepted up to there. -/
theorem exists_offends_of_foldlM {entries : List Entry} {earlier : List RowEntry}
    {d : Declarations} {f : Fault} (h : Declares earlier d)
    (htokens : ∀ e ∈ entries, ∀ a ∈ e.arguments, IsToken a) :
    entries.foldlM Declarations.add d = .error f ↔
      ∃ before e after reason, entries = before ++ e :: after ∧
        (∃ d', before.foldlM Declarations.add d = .ok d') ∧
        Offends (earlier ++ before.map Entry.written) e.written reason ∧
        f = ⟨reason, e.line.start⟩ := by
  induction entries generalizing earlier d with
  | nil => simp [pure, Except.pure]
  | cons e entries ih =>
    obtain ⟨he, hrest⟩ := List.forall_mem_cons.1 htokens
    rw [List.foldlM_cons, bind_eq_error_iff, add_eq_error_iff h]
    constructor
    · rintro (⟨reason, hoffends, rfl⟩ | ⟨d', hadd, hfold⟩)
      · exact ⟨[], e, entries, reason, rfl, ⟨d, rfl⟩, by simpa using hoffends, rfl⟩
      · obtain ⟨before, x, after, reason, rfl, ⟨d'', hbefore⟩, hoffends, rfl⟩ :=
          (ih (h.add he hadd) hrest).1 hfold
        refine ⟨e :: before, x, after, reason, rfl, ⟨d'', ?_⟩, ?_, rfl⟩
        · exact bind_eq_ok_iff.2 ⟨d', hadd, hbefore⟩
        · rwa [List.append_assoc] at hoffends
    · rintro ⟨before, x, after, reason, hentries, ⟨d'', hbefore⟩, hoffends, rfl⟩
      cases before with
      | nil =>
        rw [List.nil_append, List.cons.injEq] at hentries
        obtain ⟨rfl, rfl⟩ := hentries
        exact .inl ⟨reason, by simpa using hoffends, rfl⟩
      | cons y before =>
        rw [List.cons_append, List.cons.injEq] at hentries
        obtain ⟨rfl, rfl⟩ := hentries
        obtain ⟨d', hadd, hbefore⟩ := bind_eq_ok_iff.1 hbefore
        refine .inr ⟨d', hadd, (ih (h.add he hadd) hrest).2 ?_⟩
        refine ⟨before, x, after, reason, rfl, ⟨d'', hbefore⟩, ?_, rfl⟩
        rwa [List.append_assoc]

theorem declares_nil : Declares [] {} := ⟨.nil, .nil, .nil⟩

/-- Some entries are accepted where none of them offends. -/
theorem exists_foldlM_iff_not_offends {entries : List Entry}
    (htokens : ∀ e ∈ entries, ∀ a ∈ e.arguments, IsToken a) :
    (∃ d, entries.foldlM Declarations.add {} = .ok d) ↔
      ∀ b x after, entries.map Entry.written = b ++ x :: after → ∀ r, ¬ Offends b x r := by
  constructor
  · rintro ⟨d, hd⟩ b x after hsplit r hoffends
    obtain ⟨before, rest, rfl, rfl, hrest⟩ := List.map_eq_append_iff.1 hsplit
    obtain ⟨e, tail, rfl, rfl, rfl⟩ := List.map_eq_cons_iff.1 hrest
    have hbefore : ∃ d', before.foldlM Declarations.add {} = .ok d' := by
      rw [List.foldlM_append, bind_eq_ok_iff] at hd
      exact hd.imp fun _ h => h.1
    have herror := (exists_offends_of_foldlM declares_nil htokens).2
      ⟨before, e, tail, r, rfl, hbefore, hoffends, rfl⟩
    rw [hd] at herror
    cases herror
  · intro h
    cases hfold : entries.foldlM Declarations.add {} with
    | ok d => exact ⟨d, rfl⟩
    | error f =>
      obtain ⟨before, e, after, reason, rfl, -, hoffends, -⟩ :=
        (exists_offends_of_foldlM declares_nil htokens).1 hfold
      exact absurd hoffends (h _ _ (after.map Entry.written) (by simp) reason)

/-- **Entries are refused at the first one that offends.** -/
theorem foldlM_add_eq_error_iff {entries : List Entry} {f : Fault}
    (htokens : ∀ e ∈ entries, ∀ a ∈ e.arguments, IsToken a) :
    entries.foldlM Declarations.add {} = .error f ↔
      ∃ before e after reason, entries = before ++ e :: after ∧
        FirstOffence (entries.map Entry.written) (before.map Entry.written) e.written reason ∧
        f = ⟨reason, e.line.start⟩ := by
  have hbefore {before after : List Entry} {e : Entry} (h : entries = before ++ e :: after) :
      ∀ x ∈ before, ∀ a ∈ x.arguments, IsToken a := by
    intro x hx
    exact htokens x (h ▸ List.mem_append_left _ hx)
  rw [exists_offends_of_foldlM declares_nil htokens]
  constructor
  · rintro ⟨before, e, after, reason, hentries, haccepted, hoffends, rfl⟩
    have hfirst := (exists_foldlM_iff_not_offends (hbefore hentries)).1 haccepted
    refine ⟨before, e, after, reason, hentries, ⟨?_, hfirst, hoffends⟩, rfl⟩
    exact ⟨after.map Entry.written, by rw [hentries, List.map_append, List.map_cons]⟩
  · rintro ⟨before, e, after, reason, hentries, ⟨-, hfirst, hoffends⟩, rfl⟩
    have haccepted := (exists_foldlM_iff_not_offends (hbefore hentries)).2 hfirst
    exact ⟨before, e, after, reason, hentries, haccepted, hoffends, rfl⟩

/-! ## The fault of a text -/

/-- The fault that is reported for a text. -/
inductive Reports (text : Text) : Fault → Prop
  /-- The open quote of the first line that has one. -/
  | openQuote {above below : List Text} {before after : Text} {quote : CodePoint}
      (split : text.lines = above ++ (before ++ quote :: after) :: below)
      (closed : ∀ t ∈ above, endsQuoted .outside t = false)
      (opens : OpensQuote before quote after) :
      Reports text ⟨.unterminatedQuote, ⟨1 + above.length, 1 + before.length⟩⟩
  /-- Otherwise the fault of the structure. -/
  | structural {lines : List ScannedLine} {f : Fault}
      (scanned : scanLines 1 text.lines = .ok lines) (breaks : BreaksStructure lines f) :
      Reports text f
  /-- Otherwise the first entry that offends, at the first token of its line. -/
  | entry {lines : List ScannedLine} {entries before : List RowEntry} {e : RowEntry}
      {reason : Reason} {l : TokenLine} (scanned : scanLines 1 text.lines = .ok lines)
      (walk : Walk .outside (lines.filterMap ScannedLine.row?) entries)
      (offence : FirstOffence entries before e reason) (line : .tokens l ∈ lines)
      (number : l.first.start.line = e.number) : Reports text ⟨reason, l.first.start⟩

/-- No two lines have the same number. -/
theorem Numbered.eq_of_line_eq {n : Int} {lines : List ScannedLine} (h : Numbered n lines)
    {l k : TokenLine} (hl : .tokens l ∈ lines) (hk : .tokens k ∈ lines)
    (hline : k.first.start.line = l.first.start.line) : k = l := by
  obtain ⟨above, below, rfl⟩ := List.append_of_mem hl
  have hnumber : l.first.start.line = n + above.length :=
    (numbered_cons_iff.1 (numbered_append_iff.1 h).2).1.first.1
  exact eq_of_number h hk (hline.trans hnumber)

/-- Statements are refused for their first entry that offends. -/
theorem declarations_eq_error_iff {text : Text} {lines : List ScannedLine}
    {statements : List Statement} {f : Fault} (hlines : scanLines 1 text.lines = .ok lines)
    (hlayout : Layout [] lines statements) :
    declarations statements = .error f ↔ ∃ entries before e reason l,
      Walk .outside (lines.filterMap ScannedLine.row?) entries ∧
      FirstOffence entries before e reason ∧ .tokens l ∈ lines ∧
      l.first.start.line = e.number ∧ f = ⟨reason, l.first.start⟩ := by
  obtain ⟨hwalk, htokens⟩ := walk_of_layout hlines hlayout
  rw [← rows_of_scanLines hlines] at hwalk
  have hnumbered := numbered_of_scanLines hlines
  rw [declarations, foldlM_add_eq_error_iff htokens]
  constructor
  · rintro ⟨before, e, after, reason, hentries, hoffence, rfl⟩
    have he : e ∈ statements.flatMap entriesOf := by
      rw [hentries]
      simp
    obtain ⟨l, above, inBlock, hl, -, hline⟩ := exists_tokens_of_mem_entries hlayout hnumbered he
    have hstart : e.line.start = l.first.start := by
      rw [hline]
      rfl
    refine ⟨_, _, _, reason, l, hwalk, hoffence, hl, ?_, by rw [hstart]⟩
    exact congrArg Position.line hstart.symm
  · rintro ⟨entries, before, e, reason, l, hwalk', hoffence, hl, hnumber, rfl⟩
    obtain rfl := hwalk'.unique hwalk
    obtain ⟨after, hsplit⟩ := hoffence.split
    obtain ⟨before', rest, hentries, rfl, hrest⟩ := List.map_eq_append_iff.1 hsplit
    obtain ⟨e', after', rfl, rfl, rfl⟩ := List.map_eq_cons_iff.1 hrest
    have he : e' ∈ statements.flatMap entriesOf := by
      rw [hentries]
      simp
    obtain ⟨k, above, inBlock, hk, -, hline⟩ := exists_tokens_of_mem_entries hlayout hnumbered he
    have hstart : e'.line.start = k.first.start := by
      rw [hline]
      rfl
    have hkl : k.first.start.line = l.first.start.line := by
      rw [hnumber, ← hstart]
      rfl
    obtain rfl := hnumbered.eq_of_line_eq hl hk hkl
    exact ⟨before', e', after', reason, hentries, hoffence, by rw [hstart]⟩

theorem Fault.named_inj {name : Text} {f g : Fault} : f.named name = g.named name ↔ f = g := by
  obtain ⟨reason, position⟩ := f
  obtain ⟨reason', position'⟩ := g
  simp [Fault.named, and_comm]

/-- A text is refused with the fault that is reported for it. -/
theorem read_eq_error_iff {name text : Text} {e : SyntaxError} :
    read name text = .error e ↔ ∃ f, Reports text f ∧ e = f.named name := by
  rw [read, mapError_eq_error_iff]
  refine exists_congr fun f => and_congr_left fun _ => ?_
  change ((scanLines 1 text.lines >>= statementsFrom (.outside [])) >>= ofStatements name) = _ ↔ _
  have hofStatements (statements : List Statement) :
      ofStatements name statements = .error f ↔ declarations statements = .error f := by
    rw [ofStatements, bind_eq_error_iff]
    constructor
    · rintro (h | ⟨_, -, h⟩)
      · exact h
      · cases h
    · exact .inl
  rw [bind_eq_error_iff, bind_eq_error_iff, scanLines_eq_error_iff]
  simp only [statementsFrom_eq_error_iff, hofStatements, bind_eq_ok_iff]
  constructor
  · rintro ((⟨above, before, quote, after, below, hlines, hclosed, hopens, rfl⟩ |
      ⟨lines, hlines, hbreaks⟩) | ⟨statements, ⟨lines, hlines, hstatements⟩, hd⟩)
    · exact .openQuote hlines hclosed hopens
    · exact .structural hlines hbreaks
    · have hlayout := layout_of_statementsFrom hstatements
      obtain ⟨entries, before, e, reason, l, hwalk, hoffence, hl, hnumber, rfl⟩ :=
        (declarations_eq_error_iff hlines hlayout).1 hd
      exact .entry hlines hwalk hoffence hl hnumber
  · intro h
    cases h with
    | openQuote split closed opens =>
      exact .inl (.inl ⟨_, _, _, _, _, split, closed, opens, rfl⟩)
    | structural scanned breaks => exact .inl (.inr ⟨_, scanned, breaks⟩)
    | @entry lines entries before e reason l scanned walk offence line number =>
      have hplace : Walk (Mode.outside []).place (lines.filterMap ScannedLine.row?) entries := walk
      obtain ⟨statements, hstatements⟩ := exists_statementsFrom_of_walk hplace
      refine .inr ⟨statements, ⟨lines, scanned, hstatements⟩, ?_⟩
      exact (declarations_eq_error_iff scanned (layout_of_statementsFrom hstatements)).2
        ⟨entries, before, e, reason, l, walk, offence, line, number, rfl⟩

/-- The code point of a text at the place of a fault. It is a quote or a parenthesis where the
fault is one. -/
structure Fault.Marks (f : Fault) (text : Text) (c : CodePoint) : Prop where
  place : ∃ above before after below, text.lines = above ++ (before ++ c :: after) :: below ∧
    f.position = ⟨1 + above.length, 1 + before.length⟩
  notBlank : c.isBlank = false
  quote : f.reason = .unterminatedQuote → isQuote c = true
  paren : ∀ p, f.reason = .unexpectedParen p → p = [c] ∧ isParen c = true
  opening : f.reason = .unterminatedBlock → [c] = openingParen

/-- A token starts at a code point of its line. -/
theorem exists_place_of_token {text : Text} {lines : List ScannedLine} {l : TokenLine} {t : Token}
    (hlines : scanLines 1 text.lines = .ok lines) (hl : .tokens l ∈ lines) (ht : t ∈ l.tokens) :
    ∃ c body above before after below, t.text = c :: body ∧ c.isBlank = false ∧
      text.lines = above ++ (before ++ c :: after) :: below ∧
      t.start = ⟨1 + above.length, 1 + before.length⟩ := by
  obtain ⟨labove, lbelow, rfl⟩ := List.append_of_mem hl
  obtain ⟨above, rest, htexts, -, hrest⟩ := exists_append_of_scanLines hlines
  cases rest with
  | nil => simp [scanLines] at hrest
  | cons s below =>
    obtain ⟨line, more, hline, -, hcons⟩ := scanLines_cons_eq_ok_iff.1 hrest
    obtain ⟨tokens, comment, hscan, hparts⟩ := ofText_eq_ok_iff.1 hline
    have htokens : tokens = l.tokens := by
      rw [← (List.cons.inj hcons).1] at hparts
      cases tokens with
      | nil => cases comment <;> cases hparts
      | cons first rest =>
        rw [ScannedLine.ofParts, ScannedLine.tokens.injEq] at hparts
        rw [hparts]
        rfl
    obtain ⟨ps, gap, remark, rfl, hspelled, -, -, rfl, -⟩ := exists_spell_of_scanFrom hscan
    rw [← htokens] at ht
    obtain ⟨before, after, hstands, hcuts⟩ := exists_stands_of_mem_tokensAt hspelled [] ht
    obtain ⟨c, body, htext, hblank⟩ := hcuts.head
    refine ⟨c, body, above, before, body ++ after, below, htext, hblank, ?_, ?_⟩
    · rw [htexts, ← List.nil_append (spell ps (gap ++ remark)), hstands.line, htext,
        List.cons_append]
    · rw [hstands.start, Int.add_comm 1 (before.length : Int)]

theorem Token.isParen_iff_of_text {t : Token} {c : CodePoint} {body : Text}
    (htext : t.text = c :: body) (h : t.isParen = true) :
    body = [] ∧ Manifest.isParen c = true := by
  rw [Token.isParen, htext, Bool.or_eq_true, decide_eq_true_eq, decide_eq_true_eq, openingParen,
    closingParen, List.cons.injEq, List.cons.injEq] at h
  rcases h with ⟨rfl, rfl⟩ | ⟨rfl, rfl⟩ <;> exact ⟨rfl, by decide⟩

/-- A fault at the start of a token marks its first code point. -/
theorem exists_marks_of_token {text : Text} {lines : List ScannedLine} {l : TokenLine} {t : Token}
    {reason : Reason} (hlines : scanLines 1 text.lines = .ok lines) (hl : .tokens l ∈ lines)
    (ht : t ∈ l.tokens) (hquote : reason ≠ .unterminatedQuote)
    (hparen : ∀ p, reason = .unexpectedParen p → p = t.text ∧ t.isParen = true)
    (hopening : reason = .unterminatedBlock → t.text = openingParen) :
    ∃ c, Fault.Marks ⟨reason, t.start⟩ text c := by
  obtain ⟨c, body, above, before, after, below, htext, hblank, hsplit, hstart⟩ :=
    exists_place_of_token hlines hl ht
  refine ⟨c, ⟨above, before, after, below, hsplit, hstart⟩, hblank, fun h => absurd h hquote,
    ?_, ?_⟩
  · intro p hp
    obtain ⟨rfl, hisParen⟩ := hparen p hp
    obtain ⟨rfl, hc⟩ := Token.isParen_iff_of_text htext hisParen
    exact ⟨htext, hc⟩
  · intro hp
    have hopen := hopening hp
    rw [htext, openingParen, List.cons.injEq] at hopen
    rw [hopen.1, openingParen]

theorem mem_of_firstParen {tokens : List Token} {t : Token} (h : FirstParen tokens t) :
    t ∈ tokens := by
  obtain ⟨before, after, rfl, -, -⟩ := h
  simp

/-- A row is refused at one of its tokens, for a parenthesis only where that token is one. -/
theorem Place.Refuses.exists_token {place : Place} {l : TokenLine} {f : Fault}
    (h : place.Refuses l f) : ∃ t ∈ l.tokens, f.position = t.start ∧
      f.reason ≠ .unterminatedQuote ∧ f.reason ≠ .unterminatedBlock ∧
      ∀ p, f.reason = .unexpectedParen p → p = t.text ∧ t.isParen = true := by
  have hunexpected {t : Token} (hparen : t.isParen = true) (p : Text)
      (hp : Reason.unexpectedParen t.text = .unexpectedParen p) :
      p = t.text ∧ t.isParen = true := by
    rw [Reason.unexpectedParen.injEq] at hp
    exact ⟨hp.symm, hparen⟩
  cases h with
  | header =>
    exact ⟨l.first, List.mem_cons_self, rfl, by simp, by simp, by simp⟩
  | @verb _ t heads isParen =>
    refine ⟨t, ?_, rfl, by simp, by simp, hunexpected isParen⟩
    cases heads with
    | opens tokens | opensAndCloses tokens => simp [tokens]
  | line _ first =>
    have hmem := mem_of_firstParen first
    obtain ⟨_, _, -, -, hparen⟩ := first
    exact ⟨_, hmem, rfl, by simp, by simp, hunexpected hparen⟩
  | @afterClosing _ _ t _ _ more =>
    have hmem : t ∈ l.tokens := by
      rw [TokenLine.tokens, more]
      simp
    exact ⟨t, hmem, rfl, by simp, by simp, by simp⟩
  | child _ _ first =>
    have hmem := mem_of_firstParen first
    obtain ⟨_, _, -, -, hparen⟩ := first
    exact ⟨_, hmem, rfl, by simp, by simp, hunexpected hparen⟩

theorem Offends.reason_ne {earlier : List RowEntry} {e : RowEntry} {reason : Reason}
    (h : Offends earlier e reason) : reason ≠ .unterminatedQuote ∧ reason ≠ .unterminatedBlock ∧
      ∀ p, reason ≠ .unexpectedParen p := by
  cases h <;> simp

/-- **Every fault is at a code point of the text.** -/
theorem Reports.exists_marks {text : Text} {f : Fault} (h : Reports text f) :
    ∃ c, f.Marks text c := by
  cases h with
  | @openQuote above below before after quote split closed opens =>
    refine ⟨quote, ⟨above, before, after, below, split, rfl⟩, ?_, fun _ => opens.isQuote, by simp,
      by simp⟩
    rw [Bool.eq_false_iff]
    intro hblank
    have hnoQuote := (blank_not_special hblank).1
    rw [opens.isQuote] at hnoQuote
    exact absurd hnoQuote (by simp)
  | structural scanned breaks =>
    cases breaks with
    | @row above below l place f split allowed refuses =>
      obtain ⟨t, ht, hstart, hquote, hblock, hparen⟩ := refuses.exists_token
      have hl : .tokens l ∈ above ++ .tokens l :: below := by simp
      obtain ⟨c, hc⟩ := exists_marks_of_token scanned (split ▸ hl) ht hquote hparen
        fun h => absurd h hblock
      rw [← hstart] at hc
      exact ⟨c, hc⟩
    | @unterminated above below l paren split allowed opens inside =>
      have hl : .tokens l ∈ above ++ .tokens l :: below := by simp
      have hparen : paren ∈ l.tokens := by
        rw [TokenLine.tokens, opens.rest]
        simp
      exact exists_marks_of_token scanned (split ▸ hl) hparen (by simp) (by simp)
        fun _ => opens.paren
  | @entry lines entries before e reason l scanned walk offence line number =>
    obtain ⟨hquote, hblock, hparen⟩ := offence.offends.reason_ne
    exact exists_marks_of_token scanned line List.mem_cons_self hquote
      (fun p hp => absurd hp (hparen p)) fun h => absurd h hblock

/-! ## Refused texts -/

theorem TokenLine.map_tokens_ne_nil (l : TokenLine) : l.tokens.map Token.text ≠ [] := by
  simp [tokens]

theorem tokens_ne_nil_of_body {waiting left : List Comment} {body : List ScannedLine}
    {children : List Line} (h : Body waiting body children left) :
    ∀ l ∈ children, l.tokens ≠ [] := by
  induction h with
  | done => simp
  | blank _ ih => exact ih
  | comment _ _ ih => exact ih
  | child l _ _ ih => exact List.forall_mem_cons.2 ⟨l.map_tokens_ne_nil, ih⟩

theorem hasFirst_standalone (waiting : List Comment) : ∀ s ∈ standalone waiting, s.HasFirst := by
  cases waiting with
  | nil => simp [standalone]
  | cons c rest =>
    rw [standalone, List.forall_mem_singleton]
    exact List.cons_ne_nil c rest

theorem hasFirst_of_layout {waiting : List Comment} {lines : List ScannedLine}
    {statements : List Statement} (h : Layout waiting lines statements) :
    ∀ s ∈ statements, s.HasFirst := by
  induction h with
  | done waiting => exact hasFirst_standalone waiting
  | blank waiting _ ih => exact List.forall_mem_append.2 ⟨hasFirst_standalone waiting, ih⟩
  | comment _ _ ih => exact ih
  | line _ l _ _ ih => exact List.forall_mem_cons.2 ⟨l.map_tokens_ne_nil, ih⟩
  | emptyBlock _ l _ _ ih =>
    exact List.forall_mem_cons.2 ⟨⟨List.cons_ne_nil _ _, by simp [TokenLine.toEmptyBlock]⟩, ih⟩
  | block _ l _ inside _ _ _ ih =>
    exact List.forall_mem_cons.2 ⟨⟨List.cons_ne_nil _ _, tokens_ne_nil_of_body inside⟩, ih⟩

/-- **A text is refused with the fault that is reported for it**, under the name of the manifest and
for no other reason: an open quote before everything else, the structure before the entries, and of
each the first. The fault is at a code point of the text that is no blank, and at a quote or a
parenthesis where it is about one. Whatever is looked up in the statements of a text is there. -/
theorem read_reports (name text : Text) :
    (∀ e, read name text = .error e ↔ ∃ f, Reports text f ∧ e = f.named name) ∧
    (∀ f, Reports text f → ∃ c, f.Marks text c) ∧
    ∀ statements, readStatements text = .ok statements → ∀ s ∈ statements, s.HasFirst := by
  refine ⟨fun e => read_eq_error_iff, fun f hf => hf.exists_marks, fun statements h => ?_⟩
  obtain ⟨lines, -, hstatements⟩ := bind_eq_ok_iff.1 h
  exact hasFirst_of_layout (layout_of_statementsFrom hstatements)

/-- An open quote is reported before a repeated entry and a parenthesis further up, and the
parenthesis before the entry. -/
theorem read_reports_sample :
    (∃ text f, text = Text.ofString "go 1\ngo 2\n)\n \"a\n" ∧
      (read [] text = .error (f.named []) ∧ f = ⟨.unterminatedQuote, ⟨4, 2⟩⟩) ∧
      Reports text f ∧ ∃ c, f.Marks text c) ∧
    (∃ text f, text = Text.ofString "go 1\ngo 2\n)\n" ∧
      (read [] text = .error (f.named []) ∧ f = ⟨.unexpectedParen closingParen, ⟨3, 1⟩⟩) ∧
      Reports text f ∧ ∃ c, f.Marks text c) ∧
    ∃ text f, text = Text.ofString "go 1\n go 2 3\n" ∧
      (read [] text = .error (f.named []) ∧ f = ⟨.repeatedGo, ⟨2, 2⟩⟩) ∧
      Reports text f ∧ ∃ c, f.Marks text c := by
  have hreported {text : Text} {f : Fault} (h : read [] text = .error (f.named [])) :
      Reports text f ∧ ∃ c, f.Marks text c := by
    obtain ⟨hiff, hmarks, -⟩ := read_reports [] text
    obtain ⟨f', hreports, hnamed⟩ := (hiff _).1 h
    obtain rfl := Fault.named_inj.1 hnamed
    exact ⟨hreports, hmarks f hreports⟩
  refine ⟨⟨_, _, rfl, ⟨?_, rfl⟩, hreported ?_⟩, ⟨_, _, rfl, ⟨?_, rfl⟩, hreported ?_⟩,
    _, _, rfl, ⟨?_, rfl⟩, hreported ?_⟩
  all_goals decide +kernel

end Manifest

end ManifestPolicy
