import ManifestPolicy.Proofs.FlatLines

/-!
# Manifests without blocks of requirements

In a text every block of requirements is replaced by the lines of its children, from the
comments above it to its closing line, and all other lines stay as they are.

What is read from the new text is described without it: a statement that is no block of
requirements is read again with other line numbers, and a block of requirements is read as
one line for each child.

The comments that wait are kept back in the induction, because only the next statement
tells whether they stay with it or go with a block.

## Main definitions

* `replaceBlocks`: the lines of a text without its blocks of requirements.
* `Flattens`: the statements that are read from them.
* `Rewrites`: texts that are read so wherever they stand.

## Main statements

* `Rewrites.block`, `Rewrites.keep`: one statement, by its kind.
* `rewrites_of_layout`: what is read from a text without its blocks of requirements.
-/

namespace ManifestPolicy

/-- The statement is a block of requirements. -/
def Statement.isRequireBlock : Statement → Bool
  | .block b => b.isRequire
  | .line _ => false
  | .comments _ => false

/-- Replaces the blocks of requirements in a text, with the comments above them. The texts
are the lines of it from line `number` on. -/
def replaceBlocks (ns : Text) (lineAt : Int → Text) (number : Int) :
    List Statement → List Text → List Text
  | [], texts => texts
  | .line _ :: statements, texts => replaceBlocks ns lineAt number statements texts
  | .comments _ :: statements, texts => replaceBlocks ns lineAt number statements texts
  | .block b :: statements, texts =>
    if b.isRequire then
      texts.take ((Statement.block b).top - number).toNat ++
        (b.flat ns lineAt ++
          replaceBlocks ns lineAt (b.stop.line + 1) statements
            (texts.drop (b.stop.line + 1 - number).toNat))
    else replaceBlocks ns lineAt number statements texts

/-- The second statements are the first ones with the children of the blocks of requirements
as lines of their own. Line numbers do not count. -/
inductive Flattens (ns : Text) : List Statement → List Statement → Prop
  | nil : Flattens ns [] []
  | keep {s : Statement} {rest flat : List Statement} (other : s.isRequireBlock = false)
      (f : Int → Int) (more : Flattens ns rest flat) :
      Flattens ns (s :: rest) (s.renumber f :: flat)
  | block {b : Block} {lines : List Line} {rest flat : List Statement}
      (require : b.isRequire = true)
      (children : List.Forall₂ (Line.StandsFor ns (b.policy? ns)) b.lines lines)
      (more : Flattens ns rest flat) :
      Flattens ns (.block b :: rest) (lines.map Statement.line ++ flat)

theorem Statement.isRequireBlock_renumber (f : Int → Int) (s : Statement) :
    (s.renumber f).isRequireBlock = s.isRequireBlock := by
  cases s with
  | line l => rfl
  | block b => rfl
  | comments r => rfl

theorem Flattens.append_keep {ns : Text} {kept rest flat : List Statement}
    (other : ∀ s ∈ kept, s.isRequireBlock = false) (f : Int → Int)
    (more : Flattens ns rest flat) :
    Flattens ns (kept ++ rest) (kept.map (Statement.renumber f) ++ flat) := by
  induction kept with
  | nil => exact more
  | cons s kept ih =>
    exact .keep (other s List.mem_cons_self) f
      (ih fun t ht => other t (List.mem_cons_of_mem _ ht))

/-- No block of requirements is left. -/
theorem Flattens.isRequireBlock_eq_false {ns : Text} {statements flat : List Statement}
    (h : Flattens ns statements flat) : ∀ s ∈ flat, s.isRequireBlock = false := by
  induction h with
  | nil => simp
  | keep other f _ ih =>
    refine List.forall_mem_cons.2 ⟨?_, ih⟩
    rw [Statement.isRequireBlock_renumber]
    exact other
  | block _ _ _ ih =>
    intro s hs
    rcases List.mem_append.1 hs with hs | hs
    · obtain ⟨l, -, rfl⟩ := List.mem_map.1 hs
      rfl
    · exact ih s hs

namespace Manifest

/-- Wherever they stand, the texts are read as lines that derive the flat statements. -/
structure Rewrites (ns : Text) (texts : List Text) (statements : List Statement) : Prop where
  oneLine : ∀ t ∈ texts, t.OneLine
  reads : ∀ n, ∃ lines flat, scanLines n texts = .ok lines ∧ Layout [] lines flat ∧
    Flattens ns statements flat

section

variable {ns : Text} {lineAt : Int → Text} {texts : List Text} {statements : List Statement}

/-- A block of requirements is rewritten as the lines of its children. -/
theorem Rewrites.block {b : Block} (h : Rewrites ns texts statements)
    (hns : Directive.Writable ns) (require : b.isRequire = true)
    (hchildren : ∀ l ∈ b.lines, Written lineAt l) :
    Rewrites ns (b.flat ns lineAt ++ texts) (.block b :: statements) := by
  have hpolicy := isCommentText_written_of_block (b := b) hns
  refine ⟨fun t ht => ?_, fun n => ?_⟩
  · rcases List.mem_append.1 ht with ht | ht
    · obtain ⟨l, hl, ht⟩ := List.mem_flatMap.1 ht
      exact oneLine_flat (hchildren l hl) hpolicy t ht
    · exact h.oneLine t ht
  · obtain ⟨lines, flat, hlines, hflat, hlayout⟩ :=
      exists_scanLines_children hchildren hpolicy n
    obtain ⟨rest, more, hrest, hmore, hflattens⟩ := h.reads (n + (b.flat ns lineAt).length)
    exact ⟨_, _, scanLines_append_eq_ok_iff.2 ⟨_, _, hlines, hrest, rfl⟩,
      hlayout rest more hmore, .block require hflat hflattens⟩

/-- Other statements are kept, with the lines they are read from. -/
theorem Rewrites.keep {number : Int} {kept : List Text} {lines : List ScannedLine}
    {new : List Statement} (h : Rewrites ns texts statements)
    (other : ∀ s ∈ new, s.isRequireBlock = false) (honeLine : ∀ t ∈ kept, t.OneLine)
    (hscan : scanLines number kept = .ok lines)
    (hlayout : ∀ f rest flat, Layout [] rest flat →
      Layout [] (lines.map (ScannedLine.renumber f) ++ rest)
        (new.map (Statement.renumber f) ++ flat)) :
    Rewrites ns (kept ++ texts) (new ++ statements) := by
  refine ⟨fun t ht => ?_, fun n => ?_⟩
  · rcases List.mem_append.1 ht with ht | ht
    · exact honeLine t ht
    · exact h.oneLine t ht
  · obtain ⟨rest, more, hrest, hmore, hflattens⟩ := h.reads (n + kept.length)
    exact ⟨_, _, scanLines_append_eq_ok_iff.2 ⟨_, _, scanLines_at hscan n, hrest, rfl⟩,
      hlayout _ rest more hmore, .append_keep other _ hflattens⟩

theorem replaceBlocks_append {new : List Statement}
    (other : ∀ s ∈ new, s.isRequireBlock = false) (k : Int) :
    replaceBlocks ns lineAt k (new ++ statements) texts =
      replaceBlocks ns lineAt k statements texts := by
  induction new with
  | nil => rfl
  | cons s new ih =>
    have hnew := ih fun t ht => other t (List.mem_cons_of_mem _ ht)
    have hs := other s List.mem_cons_self
    rw [List.cons_append]
    cases s with
    | line l => exact hnew
    | comments r => exact hnew
    | block b =>
      have hb : b.isRequire = false := hs
      rw [replaceBlocks, hb, if_neg (by simp)]
      exact hnew

/-- The lines above all statements stay as they are. -/
theorem replaceBlocks_keep {k : Int} {kept : List Text}
    (h : Ordered (k + kept.length) statements) :
    replaceBlocks ns lineAt k statements (kept ++ texts) =
      kept ++ replaceBlocks ns lineAt (k + kept.length) statements texts := by
  have hbounds := h.bounds
  clear h
  induction statements with
  | nil => rfl
  | cons s statements ih =>
    have hrest := ih fun t ht => hbounds t (List.mem_cons_of_mem _ ht)
    obtain ⟨hlower, htop, hspan⟩ := hbounds s List.mem_cons_self
    cases s with
    | line l => exact hrest
    | comments r => exact hrest
    | block b =>
      rw [replaceBlocks, replaceBlocks]
      by_cases hb : b.isRequire = true
      · have hcut (n : Int) (hn : k + kept.length ≤ n) :
            (n - k).toNat = kept.length + (n - (k + kept.length)).toNat := by omega
        have hstop : k + kept.length ≤ b.stop.line + 1 := by
          have hstart : b.start.line ≤ b.stop.line := hspan
          have htop : (Statement.block b).top ≤ b.start.line := htop
          omega
        rw [if_pos hb, if_pos hb, hcut _ hlower, hcut _ hstop, List.take_length_add_append,
          List.drop_length_add_append, List.append_assoc]
      · rw [if_neg hb, if_neg hb]
        exact hrest

/-- A block of requirements is replaced, with all lines down to its closing line. -/
theorem replaceBlocks_block {k : Int} {t₁ : List Text} {b : Block} (require : b.isRequire = true)
    (htop : (Statement.block b).top = k) (hstop : b.stop.line + 1 = k + t₁.length) :
    replaceBlocks ns lineAt k (.block b :: statements) (t₁ ++ texts) =
      b.flat ns lineAt ++ replaceBlocks ns lineAt (k + t₁.length) statements texts := by
  have hnone : (k - k).toNat = 0 := by omega
  have hall : (k + (t₁.length : Int) - k).toNat = t₁.length := by omega
  rw [replaceBlocks, if_pos require, htop, hstop, hnone, hall, List.drop_left]
  rfl

/-- Statements that are no blocks of requirements, and the lines they are read from. -/
theorem Rewrites.others {k : Int} {t₁ : List Text} {lines : List ScannedLine}
    {new : List Statement}
    (h : Rewrites ns (replaceBlocks ns lineAt (k + t₁.length) statements texts) statements)
    (hordered : Ordered (k + t₁.length) statements)
    (other : ∀ s ∈ new, s.isRequireBlock = false) (honeLine : ∀ t ∈ t₁, t.OneLine)
    (hscan : scanLines k t₁ = .ok lines)
    (hlayout : ∀ f rest flat, Layout [] rest flat →
      Layout [] (lines.map (ScannedLine.renumber f) ++ rest)
        (new.map (Statement.renumber f) ++ flat)) :
    Rewrites ns (replaceBlocks ns lineAt k (new ++ statements) (t₁ ++ texts))
      (new ++ statements) := by
  rw [replaceBlocks_append other, replaceBlocks_keep hordered]
  exact h.keep other honeLine hscan hlayout

/-- A block and the lines it is read from, with the comments above it. -/
theorem Rewrites.anyBlock {k : Int} {t₁ : List Text} {lines : List ScannedLine} {b : Block}
    (h : Rewrites ns (replaceBlocks ns lineAt (k + t₁.length) statements texts) statements)
    (hordered : Ordered (k + t₁.length) statements) (hns : Directive.Writable ns)
    (hchildren : ∀ l ∈ b.lines, Written lineAt l) (honeLine : ∀ t ∈ t₁, t.OneLine)
    (hscan : scanLines k t₁ = .ok lines) (htop : (Statement.block b).top = k)
    (hstop : b.stop.line + 1 = k + t₁.length)
    (hlayout : ∀ f rest flat, Layout [] rest flat →
      Layout [] (lines.map (ScannedLine.renumber f) ++ rest) (.block (b.renumber f) :: flat)) :
    Rewrites ns (replaceBlocks ns lineAt k (.block b :: statements) (t₁ ++ texts))
      (.block b :: statements) := by
  by_cases hb : b.isRequire = true
  · rw [replaceBlocks_block hb htop hstop]
    exact h.block hns hb hchildren
  · have hother : ∀ s ∈ [Statement.block b], s.isRequireBlock = false := by
      simpa [Statement.isRequireBlock] using hb
    exact h.others hordered hother honeLine hscan hlayout

end

/-- The last of some lines stands where the next ones start. -/
theorem stop_add_one_of_last {k : Int} {texts : List Text} {lines : List ScannedLine}
    {l : TokenLine} (h : scanLines k texts = .ok (lines ++ [.tokens l])) {t : Token}
    (ht : t ∈ l.tokens) : t.stop.line + 1 = k + texts.length := by
  have hlast := (numbered_append_iff.1 (numbered_of_scanLines h)).2
  have hstop := ((numbered_cons_iff.1 hlast).1.1 t ht).2
  have hlen := length_of_scanLines h
  rw [List.length_append, List.length_singleton] at hlen
  omega

/-- The comments that wait stand right above the line that follows them. -/
theorem top_of_numbered {k : Int} {waiting : List Comment} {l : TokenLine}
    {lines : List ScannedLine}
    (h : Numbered k (waiting.map ScannedLine.comment ++ .tokens l :: lines))
    (suffix : List Comment) : Comments.top l.first.start.line ⟨waiting, suffix⟩ = k := by
  cases waiting with
  | nil => exact (numbered_cons_iff.1 h).1.first.1
  | cons c waiting => exact (numbered_cons_iff.1 h).1

theorem Layout.comments_renumber {f : Int → Int} {waiting : List Comment}
    {lines rest : List ScannedLine} {statements : List Statement}
    (h : Layout (waiting.map (Comment.renumber f))
      (lines.map (ScannedLine.renumber f) ++ rest) statements) :
    Layout [] ((waiting.map ScannedLine.comment ++ lines).map (ScannedLine.renumber f) ++ rest)
      statements := by
  have hcomments : (waiting.map ScannedLine.comment).map (ScannedLine.renumber f) =
      (waiting.map (Comment.renumber f)).map ScannedLine.comment := by
    rw [List.map_map, List.map_map]
    rfl
  rw [List.map_append, List.append_assoc, hcomments]
  exact Layout.comments h

theorem isRequireBlock_of_mem_standalone (waiting : List Comment) :
    ∀ s ∈ standalone waiting, s.isRequireBlock = false := by
  intro s hs
  obtain ⟨r, rfl⟩ := exists_run_of_mem_standalone hs
  rfl

/-- **A text without its blocks of requirements** is read as its flat statements. -/
theorem rewrites_of_layout {ns : Text} {lineAt : Int → Text} {waiting : List Comment}
    {lines : List ScannedLine} {statements : List Statement}
    (h : Layout waiting lines statements) (hns : Directive.Writable ns)
    (hchildren : ∀ b, .block b ∈ statements → ∀ l ∈ b.lines, Written lineAt l) {k : Int}
    {texts : List Text} (honeLine : ∀ t ∈ texts, t.OneLine)
    (hscan : scanLines k texts = .ok (waiting.map ScannedLine.comment ++ lines)) :
    Rewrites ns (replaceBlocks ns lineAt k statements texts) statements := by
  induction h generalizing k texts with
  | done waiting =>
    have hother := isRequireBlock_of_mem_standalone waiting
    have hkeep : replaceBlocks ns lineAt k (standalone waiting ++ []) texts = texts :=
      replaceBlocks_append hother k
    rw [List.append_nil] at hkeep hscan
    rw [hkeep]
    refine ⟨honeLine, fun n => ⟨_, (standalone waiting).map (Statement.renumber (· + (n - k))),
      scanLines_at hscan n, ?_, ?_⟩⟩
    · rw [← List.append_nil (waiting.map ScannedLine.comment), ← List.append_nil (List.map _ _)]
      exact Layout.comments_renumber (Layout.renumber _ (.done waiting))
    · have hflat : Flattens ns (standalone waiting ++ [])
          ((standalone waiting).map (Statement.renumber (· + (n - k))) ++ []) :=
        .append_keep hother _ .nil
      rw [List.append_nil, List.append_nil] at hflat
      exact hflat
  | @blank waiting lines statements rest ih =>
    rw [List.append_cons] at hscan
    obtain ⟨t₁, t₂, rfl, h₁, h₂⟩ := exists_append_of_scanLines hscan
    have hordered := ordered_of_numbered rest (numbered_of_scanLines h₂)
    obtain ⟨honeLine₁, honeLine₂⟩ := List.forall_mem_append.1 honeLine
    have hrest := ih (fun b hb => hchildren b (List.mem_append_right _ hb)) honeLine₂ h₂
    exact hrest.others hordered (isRequireBlock_of_mem_standalone waiting) honeLine₁ h₁
      fun f rest flat h => Layout.comments_renumber (Layout.blank_renumber f h)
  | comment c _ ih =>
    refine ih hchildren honeLine ?_
    rw [hscan, List.map_append, List.append_assoc]
    rfl
  | @line waiting lines statements l plain rest ih =>
    rw [List.append_cons] at hscan
    obtain ⟨t₁, t₂, rfl, h₁, h₂⟩ := exists_append_of_scanLines hscan
    have hordered := ordered_of_numbered rest (numbered_of_scanLines h₂)
    obtain ⟨honeLine₁, honeLine₂⟩ := List.forall_mem_append.1 honeLine
    have hrest := ih (fun b hb => hchildren b (List.mem_cons_of_mem _ hb)) honeLine₂ h₂
    have hother : ∀ s ∈ [Statement.line (l.toLine waiting false)], s.isRequireBlock = false := by
      simp [Statement.isRequireBlock]
    exact hrest.others hordered hother honeLine₁ h₁
      fun f rest flat h => Layout.comments_renumber (Layout.line_renumber f plain h)
  | @emptyBlock waiting lines statements l paren closing header rest ih =>
    have htop := top_of_numbered (numbered_of_scanLines hscan) l.suffix
    rw [List.append_cons] at hscan
    obtain ⟨t₁, t₂, rfl, h₁, h₂⟩ := exists_append_of_scanLines hscan
    have hordered := ordered_of_numbered rest (numbered_of_scanLines h₂)
    obtain ⟨honeLine₁, honeLine₂⟩ := List.forall_mem_append.1 honeLine
    have hrest := ih (fun b hb => hchildren b (List.mem_cons_of_mem _ hb)) honeLine₂ h₂
    have hstop := stop_add_one_of_last h₁ header.closing_mem
    exact hrest.anyBlock hordered hns (hchildren _ List.mem_cons_self) honeLine₁ h₁ htop hstop
      fun f rest flat h => Layout.comments_renumber (Layout.emptyBlock_renumber f header h)
  | @block waiting body lines children left statements l paren header inside closing closes rest
      ih =>
    have htop := top_of_numbered (numbered_of_scanLines hscan) l.suffix
    rw [← List.cons_append, List.append_cons, ← List.append_assoc, ← List.append_assoc] at hscan
    obtain ⟨t₁, t₂, rfl, h₁, h₂⟩ := exists_append_of_scanLines hscan
    have hordered := ordered_of_numbered rest (numbered_of_scanLines h₂)
    obtain ⟨honeLine₁, honeLine₂⟩ := List.forall_mem_append.1 honeLine
    have hrest := ih (fun b hb => hchildren b (List.mem_cons_of_mem _ hb)) honeLine₂ h₂
    have hstop := stop_add_one_of_last h₁ (t := closing.first) List.mem_cons_self
    refine hrest.anyBlock hordered hns (hchildren _ List.mem_cons_self) honeLine₁ h₁ htop hstop ?_
    intro f rest flat h
    rw [List.append_assoc]
    apply Layout.comments_renumber
    rw [List.map_append, List.append_assoc]
    exact Layout.block_renumber f header inside closes h

end Manifest

end ManifestPolicy
