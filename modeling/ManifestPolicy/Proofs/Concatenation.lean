import ManifestPolicy.Proofs.RelatedLines
import ManifestPolicy.Proofs.Renumbering

/-!
# Two manifests in one text

Two manifests with an empty line between them are one manifest: its statements are those of the
first and, further down, those of the second. The empty line ends the comments that wait at the end
of the first text just as the end of the text does, so nothing is carried over to the second.

Only the declarations of the first text meet those of the second. Where both have a module entry,
or both have a go entry, the second one is repeated, and the reader stops there.

## Main definitions

* `Text.joined`: two texts with an empty line between them.
* `Declarations.join`, `Manifest.followedBy`: what the two declare, and the manifest they are.
* `Declarations.Disjoint`, `Declarations.Repeats`: whether the second text repeats an entry.

## Main statements

* `Text.lines_joined`: the lines of the two texts, and the empty lines between them.
* `Layout.append`: one derivation after another, below a blank line.
* `join_foldlM`, `declarations_append`: the entries of the second text after those of the first.
* `read_joined`: two manifests are one, or the second repeats an entry of the first.
-/

namespace ManifestPolicy

namespace Text

/-- Two texts with an empty line between them. -/
def joined (t₁ t₂ : Text) : Text := t₁ ++ Text.ofString "\n\n" ++ t₂

/-- The number of lines above the second of two texts. -/
def linesAbove (t₁ : Text) : Nat := (t₁ ++ Text.ofString "\n\n").lines.length

/-- A line feed stays the end of a line, also where it stands for a carriage return too. -/
theorem exists_unifyNewlines_feed (s : Text) :
    ∃ u, ∀ t, unifyNewlines (s ++ ('\n' : CodePoint) :: t) =
      u ++ ('\n' : CodePoint) :: unifyNewlines t := by
  induction s with
  | nil => exact ⟨[], fun t => by rw [List.nil_append, unifyNewlines, if_neg (by decide)]; rfl⟩
  | cons c s ih =>
    obtain ⟨u, hu⟩ := ih
    by_cases hc : c = '\r'
    · by_cases hhead : s.head?.getD '\n' = '\n'
      · refine ⟨u, fun t => ?_⟩
        rw [List.cons_append, unifyNewlines, if_pos hc, hu, if_pos]
        cases s with
        | nil => rfl
        | cons d s => simpa using hhead
      · refine ⟨('\n' : CodePoint) :: u, fun t => ?_⟩
        rw [List.cons_append, unifyNewlines, if_pos hc, hu, if_neg, List.cons_append]
        cases s with
        | nil => exact absurd rfl hhead
        | cons d s => simpa using hhead
    · exact ⟨c :: u, fun t => by rw [List.cons_append, unifyNewlines, if_neg hc, hu]; rfl⟩

theorem cutLines_cons_ne_nil (c : CodePoint) (t : Text) : cutLines (c :: t) ≠ [] := by
  rw [cutLines]
  split
  · simp
  · split <;> simp

/-- The end of a line ends the lines before it and starts the lines after it. -/
theorem cutLines_append_end {c : CodePoint} (hc : c.endsLine = true) (s t : Text) :
    cutLines (s ++ c :: t) = cutLines (s ++ [c]) ++ cutLines t := by
  induction s with
  | nil => simp [cutLines, hc]
  | cons d s ih =>
    have hne : cutLines (s ++ [c]) ≠ [] := by
      cases s with
      | nil => exact cutLines_cons_ne_nil c []
      | cons e s => exact cutLines_cons_ne_nil e _
    simp only [List.cons_append, cutLines, ih]
    split
    · rfl
    · cases hcut : cutLines (s ++ [c]) with
      | nil => exact absurd hcut hne
      | cons l ls => rfl

/-- A line feed adds an empty line, or it ends the last line. -/
theorem cutLines_feed (t : Text) :
    cutLines (t ++ [('\n' : CodePoint)]) = cutLines t ∨
      cutLines (t ++ [('\n' : CodePoint)]) = cutLines t ++ [[]] := by
  induction t with
  | nil => exact .inr rfl
  | cons c t ih =>
    rw [List.cons_append, cutLines, cutLines]
    by_cases hc : c.endsLine = true
    · rw [if_pos hc, if_pos hc]
      exact ih.imp (congrArg ([] :: ·)) (congrArg ([] :: ·))
    · rw [if_neg hc, if_neg hc]
      rcases ih with ih | ih
      · rw [ih]
        exact .inl rfl
      · rw [ih]
        cases cutLines t with
        | nil => exact .inl rfl
        | cons l ls => exact .inr rfl

/-- A line feed after a carriage return is no further end of a line. -/
theorem unifyNewlines_feed (t : Text) :
    unifyNewlines (t ++ [('\n' : CodePoint)]) = unifyNewlines t ∨
      unifyNewlines (t ++ [('\n' : CodePoint)]) = unifyNewlines t ++ [('\n' : CodePoint)] := by
  induction t with
  | nil => exact .inr (by decide)
  | cons c t ih =>
    rw [List.cons_append, unifyNewlines, unifyNewlines]
    by_cases hc : c = '\r'
    · rw [if_pos hc, if_pos hc]
      cases t with
      | nil => exact .inl (by decide)
      | cons d t =>
        rw [List.cons_append, List.head?_cons, List.head?_cons]
        split
        · exact ih
        · exact ih.imp (congrArg (('\n' : CodePoint) :: ·)) (congrArg (('\n' : CodePoint) :: ·))
    · rw [if_neg hc, if_neg hc]
      exact ih.imp (congrArg (c :: ·)) (congrArg (c :: ·))

theorem lines_feed (t : Text) :
    ∃ n, lines (t ++ [('\n' : CodePoint)]) = lines t ++ List.replicate n [] := by
  rcases unifyNewlines_feed t with hunify | hunify
  · exact ⟨0, by rw [lines, hunify, List.replicate_zero, List.append_nil, lines]⟩
  · rcases cutLines_feed (unifyNewlines t) with hcut | hcut
    · exact ⟨0, by rw [lines, hunify, hcut, List.replicate_zero, List.append_nil, lines]⟩
    · exact ⟨1, by rw [lines, hunify, hcut, lines]; rfl⟩

theorem lines_append_feed (s t : Text) :
    lines (s ++ ('\n' : CodePoint) :: t) = lines (s ++ [('\n' : CodePoint)]) ++ lines t := by
  obtain ⟨u, hu⟩ := exists_unifyNewlines_feed s
  rw [lines, lines, hu, hu, cutLines_append_end (by decide), lines]
  rfl

/-- The lines of two texts are those of the first, some empty lines, and those of the second. -/
theorem lines_joined (t₁ t₂ : Text) :
    ∃ n, (joined t₁ t₂).lines = t₁.lines ++ ([] :: List.replicate n [] ++ t₂.lines) ∧
      linesAbove t₁ = t₁.lines.length + (n + 1) := by
  have hfeeds (t : Text) : t₁ ++ Text.ofString "\n\n" ++ t =
      (t₁ ++ [('\n' : CodePoint)]) ++ ('\n' : CodePoint) :: t := by
    rw [List.append_assoc, List.append_assoc]
    rfl
  have hempty : lines [('\n' : CodePoint)] = [[]] := by decide
  obtain ⟨n, hn⟩ := lines_feed t₁
  have hlines (t : Text) : (joined t₁ t).lines =
      t₁.lines ++ (List.replicate (n + 1) [] ++ t.lines) := by
    rw [joined, hfeeds, lines_append_feed, List.append_assoc, List.singleton_append,
      lines_append_feed, hn, hempty, List.replicate_add, List.append_assoc, List.append_assoc,
      List.append_assoc]
    rfl
  refine ⟨n, by rw [hlines, List.replicate_succ], ?_⟩
  have habove := congrArg List.length (hlines [])
  have hnil : lines [] = [] := rfl
  rw [joined, List.append_nil, hnil, List.append_nil, List.length_append,
    List.length_replicate] at habove
  exact habove

end Text

namespace Manifest

theorem scanLines_replicate (number : Int) (n : Nat) :
    scanLines number (List.replicate n []) = .ok (List.replicate n .blank) := by
  induction n generalizing number with
  | zero => rfl
  | succ n ih =>
    have hblank : ScannedLine.ofText number [] = .ok .blank := by
      rw [ScannedLine.ofText, scanFrom_nil]
      rfl
    rw [List.replicate_succ, List.replicate_succ]
    exact scanLines_cons_eq_ok_iff.2 ⟨.blank, _, hblank, ih (number + 1), rfl⟩

theorem Layout.blanks {lines : List ScannedLine} {statements : List Statement}
    (h : Layout [] lines statements) (n : Nat) :
    Layout [] (List.replicate n .blank ++ lines) statements := by
  induction n with
  | zero => exact h
  | succ n ih => exact .blank [] ih

/-- One derivation after another. The blank line between them ends what waits in the first. -/
theorem Layout.append {waiting : List Comment} {l₁ l₂ : List ScannedLine} {s₁ s₂ : List Statement}
    (h₁ : Layout waiting l₁ s₁) (h₂ : Layout [] l₂ s₂) :
    Layout waiting (l₁ ++ .blank :: l₂) (s₁ ++ s₂) := by
  induction h₁ with
  | done waiting => exact .blank waiting h₂
  | blank waiting _ ih =>
    rw [List.append_assoc]
    exact .blank waiting ih
  | comment c _ ih => exact .comment c ih
  | line waiting l plain _ ih => exact .line waiting l plain ih
  | emptyBlock waiting l header _ ih => exact .emptyBlock waiting l header ih
  | block waiting l header inside closing closes _ ih =>
    rw [List.cons_append, List.append_assoc, List.cons_append, List.cons_append]
    exact .block waiting l header inside closing closes ih

/-- The lines of two texts are read as the statements of the first and, on other lines, those of
the second. -/
theorem exists_layout_joined {t₁ t₂ : Text} {l₁ l₂ : List ScannedLine} {s₁ s₂ : List Statement}
    (hl₁ : scanLines 1 t₁.lines = .ok l₁) (h₁ : Layout [] l₁ s₁)
    (hl₂ : scanLines 1 t₂.lines = .ok l₂) (h₂ : Layout [] l₂ s₂) :
    ∃ lines, scanLines 1 (t₁.joined t₂).lines = .ok lines ∧
      Layout [] lines (s₁ ++ s₂.map (Statement.renumber (· + (t₁.linesAbove : Int)))) := by
  obtain ⟨n, hlines, habove⟩ := Text.lines_joined t₁ t₂
  have hmoved : scanLines (1 + t₁.lines.length + (List.replicate (n + 1) ([] : Text)).length)
      t₂.lines = .ok (l₂.map (ScannedLine.renumber (· + (t₁.linesAbove : Int)))) := by
    have hcount : 1 + (t₁.lines.length : Int) + (List.replicate (n + 1) ([] : Text)).length =
        1 + t₁.linesAbove := by
      rw [habove, List.length_replicate]
      omega
    rw [hcount]
    exact scanLines_add hl₂ _
  refine ⟨l₁ ++ (List.replicate (n + 1) .blank ++
    l₂.map (ScannedLine.renumber (· + (t₁.linesAbove : Int)))), ?_, ?_⟩
  · rw [hlines, ← List.replicate_succ, scanLines_append_eq_ok_iff]
    exact ⟨l₁, _, hl₁, scanLines_append_eq_ok_iff.2 ⟨_, _, scanLines_replicate _ _, hmoved, rfl⟩,
      rfl⟩
  · rw [List.replicate_succ, List.cons_append]
    exact h₁.append ((h₂.renumber _).blanks n)

/-- What two texts declare together. Of two module entries, and of two go entries, the first one
counts. -/
def Declarations.join (d₁ d₂ : Declarations) : Declarations :=
  ⟨d₁.moduleEntry.or d₂.moduleEntry, d₁.goEntry.or d₂.goEntry,
    d₁.requirements ++ d₂.requirements⟩

/-- Not both declare a module, and not both a language version. -/
structure Declarations.Disjoint (d₁ d₂ : Declarations) : Prop where
  module : d₁.moduleEntry = none ∨ d₂.moduleEntry = none
  go : d₁.goEntry = none ∨ d₂.goEntry = none

/-- The second repeats an entry of the first, for this reason and on this line. -/
inductive Declarations.Repeats (d₁ d₂ : Declarations) : Reason → Line → Prop
  | module {x y : ModuleEntry} (first : d₁.moduleEntry = some x)
      (again : d₂.moduleEntry = some y) : Repeats d₁ d₂ .repeatedModule y.line
  | go {x y : GoEntry} (first : d₁.goEntry = some x) (again : d₂.goEntry = some y) :
      Repeats d₁ d₂ .repeatedGo y.line

theorem Declarations.not_repeats_of_disjoint {d₁ d₂ : Declarations} (h : d₁.Disjoint d₂)
    {reason : Reason} {l : Line} : ¬ d₁.Repeats d₂ reason l := by
  rintro (⟨first, again⟩ | ⟨first, again⟩)
  · rcases h.module with hnone | hnone
    · simp [hnone] at first
    · simp [hnone] at again
  · rcases h.go with hnone | hnone
    · simp [hnone] at first
    · simp [hnone] at again

section

variable {f : Int → Int} {d₁ d₂ d : Declarations} {reason : Reason} {l : Line}

/-- A further entry declares nothing again that was declared before it. -/
theorem Declarations.Repeats.add {e : Entry} (h : d₁.Repeats d₂ reason l)
    (hadd : d₂.add e = .ok d) : d₁.Repeats d reason l := by
  cases h with
  | module first again =>
    cases add_eq_ok_iff.1 hadd with
    | module _ hnone => simp [hnone] at again
    | go | require | other => exact .module first again
  | go first again =>
    cases add_eq_ok_iff.1 hadd with
    | go _ hnone => simp [hnone] at again
    | module | require | other => exact .go first again

theorem Declarations.Repeats.foldlM {entries : List Entry} (h : d₁.Repeats d₂ reason l)
    (hadd : entries.foldlM Declarations.add d₂ = .ok d) : d₁.Repeats d reason l := by
  induction entries generalizing d₂ with
  | nil =>
    rw [List.foldlM_nil, pure_eq_ok_iff] at hadd
    exact hadd ▸ h
  | cons e entries ih =>
    rw [List.foldlM_cons, bind_eq_ok_iff] at hadd
    obtain ⟨d', hstep, hrest⟩ := hadd
    exact ih (h.add hstep) hrest

/-- One entry of the second text, after the first text. -/
theorem join_add {e : Entry} (hdisjoint : d₁.Disjoint d₂) (hadd : d₂.add e = .ok d) :
    (d₁.Disjoint d ∧ (d₁.join d₂).add e = .ok (d₁.join d)) ∨
    ∃ reason, d₁.Repeats d reason e.line ∧
      (d₁.join d₂).add e = .error ⟨reason, e.line.start⟩ := by
  obtain ⟨hmodule, hgo⟩ := hdisjoint
  cases add_eq_ok_iff.1 hadd with
  | @module token path verb first arguments unquoted =>
    cases hfirst : d₁.moduleEntry with
    | none =>
      have hnone : (d₁.join d₂).moduleEntry = none := by simp [Declarations.join, hfirst, first]
      have hjoin : d₁.join { d₂ with moduleEntry := some ⟨path, e.line⟩ } =
          { d₁.join d₂ with moduleEntry := some ⟨path, e.line⟩ } := by
        rw [Declarations.join, Declarations.join, hfirst]
        rfl
      have hadds := Adds.module verb hnone arguments unquoted
      exact .inl ⟨⟨.inl hfirst, hgo⟩, hjoin ▸ add_eq_ok_iff.2 hadds⟩
    | some x =>
      refine .inr ⟨.repeatedModule, .module (y := ⟨path, e.line⟩) hfirst rfl, ?_⟩
      rw [Declarations.add, if_pos verb, Declarations.addModule,
        if_pos (by simp [Declarations.join, hfirst])]
  | @go version verb first arguments =>
    cases hfirst : d₁.goEntry with
    | none =>
      have hnone : (d₁.join d₂).goEntry = none := by simp [Declarations.join, hfirst, first]
      have hjoin : d₁.join { d₂ with goEntry := some ⟨version, e.line⟩ } =
          { d₁.join d₂ with goEntry := some ⟨version, e.line⟩ } := by
        rw [Declarations.join, Declarations.join, hfirst]
        rfl
      have hadds := Adds.go verb hnone arguments
      exact .inl ⟨⟨hmodule, .inl hfirst⟩, hjoin ▸ add_eq_ok_iff.2 hadds⟩
    | some x =>
      refine .inr ⟨.repeatedGo, .go (y := ⟨version, e.line⟩) hfirst rfl, ?_⟩
      rw [Declarations.add, if_neg (by rw [verb]; decide), if_pos verb, Declarations.addGo,
        if_pos (by simp [Declarations.join, hfirst])]
  | @require token₁ token₂ path version verb arguments unquoted₁ unquoted₂ =>
    have hjoin : d₁.join { d₂ with
          requirements := d₂.requirements ++ [⟨path, version, e.line, e.line.isIndirect⟩] } =
        { d₁.join d₂ with
          requirements := (d₁.join d₂).requirements ++
            [⟨path, version, e.line, e.line.isIndirect⟩] } := by
      simp only [Declarations.join, List.append_assoc]
    have hadds := Adds.require (d := d₁.join d₂) verb arguments unquoted₁ unquoted₂
    exact .inl ⟨⟨hmodule, hgo⟩, hjoin ▸ add_eq_ok_iff.2 hadds⟩
  | other noModule noGo noRequire =>
    exact .inl ⟨⟨hmodule, hgo⟩, add_eq_ok_iff.2 (.other noModule noGo noRequire)⟩

/-- **The entries of the second text, after the first text.** They add what they declare by
themselves, up to the first entry that is repeated. -/
theorem join_foldlM {entries : List Entry} (hdisjoint : d₁.Disjoint d₂)
    (hadd : entries.foldlM Declarations.add d₂ = .ok d) :
    (d₁.Disjoint d ∧ entries.foldlM Declarations.add (d₁.join d₂) = .ok (d₁.join d)) ∨
    ∃ reason l, d₁.Repeats d reason l ∧
      entries.foldlM Declarations.add (d₁.join d₂) = .error ⟨reason, l.start⟩ := by
  induction entries generalizing d₂ with
  | nil =>
    rw [List.foldlM_nil, pure_eq_ok_iff] at hadd
    subst hadd
    exact .inl ⟨hdisjoint, rfl⟩
  | cons e entries ih =>
    rw [List.foldlM_cons, bind_eq_ok_iff] at hadd
    obtain ⟨d', hstep, hrest⟩ := hadd
    rw [List.foldlM_cons]
    rcases join_add hdisjoint hstep with ⟨hdisjoint', hjoin⟩ | ⟨reason, hrepeats, hjoin⟩
    · rw [hjoin]
      exact ih hdisjoint' hrest
    · rw [hjoin]
      exact .inr ⟨reason, e.line, hrepeats.foldlM hrest, rfl⟩

/-- What the statements of both texts declare. -/
theorem declarations_append {s₁ s₂ : List Statement} (h₁ : declarations s₁ = .ok d₁)
    (h₂ : declarations s₂ = .ok d₂) :
    (d₁.Disjoint d₂ ∧ declarations (s₁ ++ s₂) = .ok (d₁.join d₂)) ∨
    ∃ reason l, d₁.Repeats d₂ reason l ∧
      declarations (s₁ ++ s₂) = .error ⟨reason, l.start⟩ := by
  have hjoin : d₁.join {} = d₁ := by simp [Declarations.join]
  have happend : declarations (s₁ ++ s₂) =
      (s₂.flatMap entriesOf).foldlM Declarations.add (d₁.join {}) := by
    rw [declarations] at h₁
    rw [declarations, List.flatMap_append, List.foldlM_append, h₁, hjoin]
    rfl
  rw [happend]
  exact join_foldlM ⟨.inr rfl, .inr rfl⟩ h₂

/-- Whether an entry is repeated does not depend on the lines of the second text. -/
theorem Declarations.disjoint_renumber_iff :
    d₁.Disjoint (d₂.renumber f) ↔ d₁.Disjoint d₂ := by
  constructor
  · rintro ⟨hmodule, hgo⟩
    exact ⟨hmodule.imp_right Option.map_eq_none_iff.1, hgo.imp_right Option.map_eq_none_iff.1⟩
  · rintro ⟨hmodule, hgo⟩
    exact ⟨hmodule.imp_right Option.map_eq_none_iff.2, hgo.imp_right Option.map_eq_none_iff.2⟩

theorem Declarations.Repeats.exists_of_renumber (h : d₁.Repeats (d₂.renumber f) reason l) :
    ∃ l₂, d₁.Repeats d₂ reason l₂ ∧ l = l₂.renumber f := by
  cases h with
  | module first again =>
    obtain ⟨y, hy, rfl⟩ := Option.map_eq_some_iff.1 again
    exact ⟨_, .module first hy, rfl⟩
  | go first again =>
    obtain ⟨y, hy, rfl⟩ := Option.map_eq_some_iff.1 again
    exact ⟨_, .go first hy, rfl⟩

end

/-- A manifest and, on other lines below it, a second one. -/
def followedBy (m₁ m₂ : Manifest) (f : Int → Int) : Manifest where
  name := m₁.name
  statements := m₁.statements ++ m₂.statements.map (.renumber f)
  moduleEntry := m₁.moduleEntry.or (m₂.moduleEntry.map (.renumber f))
  goEntry := m₁.goEntry.or (m₂.goEntry.map (.renumber f))
  requirements := m₁.requirements ++ m₂.requirements.map (.renumber f)

/-- What a text repeats stands on one of its lines. -/
theorem Declarations.Repeats.bounds {name text : Text} {m : Manifest} (h : read name text = .ok m)
    {d : Declarations} {reason : Reason} {l : Line} (hrepeats : d.Repeats (declared m) reason l) :
    1 ≤ l.start.line ∧ l.start.line ≤ text.lines.length := by
  obtain ⟨lines, statements, d', hlines, hlayout, hd', rfl⟩ := read_eq_ok_iff.1 h
  have hentries : ∀ e ∈ statements.flatMap entriesOf,
      1 ≤ e.line.start.line ∧ e.line.start.line ≤ text.lines.length := by
    intro e he
    have hnumbered := numbered_of_scanLines hlines
    obtain ⟨l, above, inBlock, hl, -, hline⟩ := exists_tokens_of_mem_entries hlayout hnumbered he
    have hbounds := hnumbered.bounds hl
    rw [length_of_scanLines hlines] at hbounds
    rw [hline]
    change 1 ≤ l.first.start.line ∧ l.first.start.line ≤ text.lines.length
    omega
  have hrelated := related_self_of_declarations
    (P := fun _ l => 1 ≤ l.start.line ∧ l.start.line ≤ text.lines.length) hentries hd'
  cases hrepeats with
  | module _ again =>
    have hmodule := hrelated.module
    rw [show d'.moduleEntry = _ from again, Option.rel_some_some] at hmodule
    exact hmodule.2
  | go _ again =>
    have hgo := hrelated.go
    rw [show d'.goEntry = _ from again, Option.rel_some_some] at hgo
    exact hgo.2

/-- **Two manifests with an empty line between them.** They are one manifest, in which everything
of the second stands as many lines further down as there are lines above it. Only where both
declare a module, or both a language version, is there none: the entry of the second text is
refused as a repeated one, at its own place. -/
theorem read_joined {name t₁ t₂ : Text} {m₁ m₂ : Manifest} (h₁ : read name t₁ = .ok m₁)
    (h₂ : read name t₂ = .ok m₂) :
    ((declared m₁).Disjoint (declared m₂) → read name (t₁.joined t₂) =
      .ok (m₁.followedBy m₂ (· + (t₁.linesAbove : Int)))) ∧
    (¬ (declared m₁).Disjoint (declared m₂) → ∃ reason l,
      (declared m₁).Repeats (declared m₂) reason l ∧
      read name (t₁.joined t₂) =
        .error ⟨name, ⟨l.start.line + t₁.linesAbove, l.start.column⟩, reason⟩ ∧
      1 ≤ l.start.line ∧ l.start.line ≤ t₂.lines.length) := by
  obtain ⟨l₁, s₁, d₁, hl₁, hlayout₁, hd₁, rfl⟩ := read_eq_ok_iff.1 h₁
  obtain ⟨l₂, s₂, d₂, hl₂, hlayout₂, hd₂, rfl⟩ := read_eq_ok_iff.1 h₂
  obtain ⟨lines, hlines, hlayout⟩ := exists_layout_joined hl₁ hlayout₁ hl₂ hlayout₂
  have hrenumber : declarations (s₂.map (Statement.renumber (· + (t₁.linesAbove : Int)))) =
      .ok (d₂.renumber (· + (t₁.linesAbove : Int))) := by
    rw [declarations_relocate, relocated_eq_ok_iff]
    exact ⟨d₂, hd₂, rfl⟩
  rcases declarations_append hd₁ hrenumber with
    ⟨hdisjoint, hjoin⟩ | ⟨reason, l', hrenumbered, hjoin⟩
  · rw [Declarations.disjoint_renumber_iff] at hdisjoint
    refine ⟨fun _ => ?_, fun hnot => absurd hdisjoint hnot⟩
    exact read_eq_ok_iff.2 ⟨lines, _, _, hlines, hlayout, hjoin, rfl⟩
  · obtain ⟨l, hrepeats, rfl⟩ := hrenumbered.exists_of_renumber
    refine ⟨fun hdisjoint => absurd hrepeats (d₁.not_repeats_of_disjoint hdisjoint), fun _ => ?_⟩
    refine ⟨reason, l, hrepeats, ?_, hrepeats.bounds h₂⟩
    exact read_eq_error_of_declarations hlines hlayout hjoin

/-- Comments wait at the end of the first text, and its last line end takes the line feed after
it. A second text that names a module again is refused. -/
theorem read_joined_sample :
    ∃ (t₁ t₂ : Text) (m₁ m₂ : Manifest),
      (t₁ = Text.ofString "module m\r// c\r" ∧ t₂ = Text.ofString "// d\nrequire a v1") ∧
      (read [] t₁ = .ok m₁ ∧ read [] t₂ = .ok m₂ ∧ (declared m₁).Disjoint (declared m₂) ∧
        ¬ (declared m₁).Disjoint (declared m₁)) ∧
      t₁.linesAbove = 3 ∧
      read [] (t₁.joined t₂) = .ok (m₁.followedBy m₂ (· + (t₁.linesAbove : Int))) ∧
      ∃ reason l, (declared m₁).Repeats (declared m₁) reason l ∧
        read [] (t₁.joined t₁) =
          .error ⟨[], ⟨l.start.line + t₁.linesAbove, l.start.column⟩, reason⟩ ∧
        1 ≤ l.start.line ∧ l.start.line ≤ t₁.lines.length := by
  let t₁ := Text.ofString "module m\r// c\r"
  let t₂ := Text.ofString "// d\nrequire a v1"
  have hfirst : (read [] t₁).toOption.map (fun m => m.moduleEntry.isSome) = some true := by
    decide +kernel
  have hsecond : (read [] t₂).toOption.map (fun m => (m.moduleEntry, m.goEntry)) =
      some (none, none) := by
    decide +kernel
  obtain ⟨m₁, h₁, hmodule⟩ := Option.map_eq_some_iff.1 hfirst
  obtain ⟨m₂, h₂, hnone⟩ := Option.map_eq_some_iff.1 hsecond
  rw [toOption_eq_some_iff] at h₁ h₂
  rw [Prod.mk.injEq] at hnone
  have hdisjoint : (declared m₁).Disjoint (declared m₂) := ⟨.inr hnone.1, .inr hnone.2⟩
  have hrepeats : ¬ (declared m₁).Disjoint (declared m₁) := by
    rintro ⟨hmodule' | hmodule', -⟩ <;> simp [declared] at hmodule' <;> simp [hmodule'] at hmodule
  exact ⟨t₁, t₂, m₁, m₂, ⟨rfl, rfl⟩, ⟨h₁, h₂, hdisjoint, hrepeats⟩, by decide +kernel,
    (read_joined h₁ h₂).1 hdisjoint, (read_joined h₁ h₁).2 hrepeats⟩

end Manifest

end ManifestPolicy
