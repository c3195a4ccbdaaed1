import ManifestPolicy.Proofs.Entries
import ManifestPolicy.Proofs.Precedence
import ManifestPolicy.Proofs.Spelling

/-!
# Lines find their block

A line does not know the block it stands in. The resolution finds the block by comparing
line numbers, which is right because the statements of a manifest that was read take up
disjoint ranges of lines, in order, and the lines of a block lie strictly inside its range.

The invariant is carried by derivations: the lines that are left have consecutive numbers,
and the comments that wait stand above them and below all statements so far.

## Main definitions

* `Numbered`: lines with consecutive numbers.
* `Ordered`: statements in the order of their lines, with the comments above them.
* `Nested`: how statements, blocks and lines lie.

## Main statements

* `numbered_of_scanLines`: the lines that are read have consecutive numbers.
* `ordered_of_layout`, `wellNested_of_layout`: what every derivation keeps.
* `Manifest.read_nested`: in a manifest that was read every line finds its block.
-/

namespace ManifestPolicy

/-! ## The places of statements -/

/-- The lines of a statement: itself, or those between its parentheses. -/
def Statement.lines : Statement → List Line
  | .line l => [l]
  | .block b => b.lines
  | .comments _ => []

def Statement.start : Statement → Position
  | .line l => l.start
  | .block b => b.start
  | .comments r => r.start

def Statement.stop : Statement → Position
  | .line l => l.stop
  | .block b => b.stop
  | .comments r => r.stop

/-- The first line of the comments above a part, or `line` where there are none. -/
def Comments.top (line : Int) (c : Comments) : Int :=
  (c.before.head?.map fun d => d.start.line).getD line

/-- The first line of a statement, with the comments above it. -/
def Statement.top : Statement → Int
  | .line l => l.comments.top l.start.line
  | .block b => b.comments.top b.start.line
  | .comments r => r.start.line

/-- The children of a block stand on lines of their own, one below the other. -/
structure InOrder (m n : Int) (children : List Line) : Prop where
  sorted : children.Pairwise fun l l' => l.start.line < l'.start.line
  lower : ∀ l ∈ children, m ≤ l.start.line
  oneLine : ∀ l ∈ children, l.start.line = l.stop.line
  upper : ∀ l ∈ children, l.stop.line < n
  inBlock : ∀ l ∈ children, l.inBlock = true

theorem InOrder.weaken {m m' n : Int} {children : List Line} (h : InOrder m' n children)
    (hm : m ≤ m') : InOrder m n children :=
  ⟨h.sorted, fun l hl => Int.le_trans hm (h.lower l hl), h.oneLine, h.upper, h.inBlock⟩

/-- A line outside blocks is marked so. The lines of a block are marked as inside, and stand
strictly between its opening and its closing line. -/
def Statement.WellNested : Statement → Prop
  | .line l => l.inBlock = false ∧ l.start.line = l.stop.line
  | .block b => InOrder (b.start.line + 1) b.stop.line b.lines
  | .comments _ => True

namespace Manifest

/-- Every place of the line has this line number. -/
def ScannedLine.On (number : Int) : ScannedLine → Prop
  | .blank => True
  | .comment c => c.start.line = number
  | .tokens l =>
    (∀ t ∈ l.tokens, t.start.line = number ∧ t.stop.line = number) ∧
      ∀ c ∈ l.comment, c.start.line = number

/-- The lines have consecutive numbers, the first of them this one. -/
inductive Numbered : Int → List ScannedLine → Prop
  | nil (number : Int) : Numbered number []
  | cons {number : Int} {line : ScannedLine} {lines : List ScannedLine}
      (first : line.On number) (rest : Numbered (number + 1) lines) :
      Numbered number (line :: lines)

/-- The line below a first line, counted from that line. -/
theorem add_length_cons {α : Type} (n : Int) (a : α) (l : List α) :
    n + ((a :: l).length : Int) = n + 1 + (l.length : Int) := by
  rw [List.length_cons]
  omega

theorem numbered_cons_iff {number : Int} {line : ScannedLine} {lines : List ScannedLine} :
    Numbered number (line :: lines) ↔ line.On number ∧ Numbered (number + 1) lines := by
  constructor
  · intro h
    cases h with
    | cons first rest => exact ⟨first, rest⟩
  · rintro ⟨first, rest⟩
    exact .cons first rest

theorem numbered_append_iff {number : Int} {l₁ l₂ : List ScannedLine} :
    Numbered number (l₁ ++ l₂) ↔ Numbered number l₁ ∧ Numbered (number + l₁.length) l₂ := by
  induction l₁ generalizing number with
  | nil =>
    simp only [List.nil_append, List.length_nil, Int.natCast_zero, Int.add_zero]
    exact ⟨fun h => ⟨.nil number, h⟩, fun h => h.2⟩
  | cons line l₁ ih =>
    rw [List.cons_append, numbered_cons_iff, numbered_cons_iff, ih, add_length_cons, and_assoc]

theorem ofText_eq_ok_iff {number : Int} {t : Text} {line : ScannedLine} :
    ScannedLine.ofText number t = .ok line ↔
      ∃ tokens comment, scanFrom number 1 t = .ok (tokens, comment) ∧
        line = .ofParts tokens comment := by
  rw [ScannedLine.ofText, bind_eq_ok_iff]
  simp only [Prod.exists, pure_eq_ok_iff, @eq_comm _ line]

theorem scanLines_cons_eq_ok_iff {number : Int} {t : Text} {rest : List Text}
    {lines : List ScannedLine} :
    scanLines number (t :: rest) = .ok lines ↔
      ∃ line more, ScannedLine.ofText number t = .ok line ∧
        scanLines (number + 1) rest = .ok more ∧ lines = line :: more := by
  rw [scanLines, bind_eq_ok_iff]
  simp only [bind_eq_ok_iff, pure_eq_ok_iff, @eq_comm _ lines]
  constructor
  · rintro ⟨line, hline, more, hmore, rfl⟩
    exact ⟨line, more, hline, hmore, rfl⟩
  · rintro ⟨line, more, hline, hmore, rfl⟩
    exact ⟨line, hline, more, hmore, rfl⟩

theorem on_ofText {number : Int} {t : Text} {line : ScannedLine}
    (h : ScannedLine.ofText number t = .ok line) : line.On number := by
  obtain ⟨tokens, comment, hscan, rfl⟩ := ofText_eq_ok_iff.1 h
  obtain ⟨ps, gap, remark, -, -, -, -, rfl, rfl⟩ := exists_spell_of_scanFrom hscan
  have hcomment (column : Int) : ∀ c ∈ remarkAt number column remark, c.start.line = number := by
    cases remark with
    | nil => simp [remarkAt]
    | cons c remark => simp [remarkAt]
  cases ps with
  | nil =>
    cases remark with
    | nil => trivial
    | cons c remark => exact hcomment _ _ rfl
  | cons p ps =>
    refine ⟨fun u hu => ?_, hcomment _⟩
    have hmem : u ∈ tokensAt number 1 (p :: ps) := hu
    exact line_of_mem_tokensAt hmem

/-- Lines are read with consecutive numbers. -/
theorem numbered_of_scanLines {number : Int} {texts : List Text} {lines : List ScannedLine}
    (h : scanLines number texts = .ok lines) : Numbered number lines := by
  induction texts generalizing number lines with
  | nil =>
    rw [scanLines, Except.ok.injEq] at h
    exact h ▸ .nil number
  | cons t texts ih =>
    obtain ⟨line, more, hline, hmore, rfl⟩ := scanLines_cons_eq_ok_iff.1 h
    exact .cons (on_ofText hline) (ih hmore)

/-! ## Statements in order -/

/-- The comments stand one below the other, from line `m` on and above line `n`. -/
structure Waits (m n : Int) (waiting : List Comment) : Prop where
  sorted : waiting.Pairwise fun c d => c.start.line < d.start.line
  lower : ∀ c ∈ waiting, m ≤ c.start.line
  upper : ∀ c ∈ waiting, c.start.line < n

theorem waits_nil (m n : Int) : Waits m n [] :=
  ⟨.nil, by simp, by simp⟩

theorem Waits.append {m n : Int} {waiting : List Comment} (h : Waits m n waiting) (hmn : m ≤ n)
    {c : Comment} (hc : c.start.line = n) : Waits m (n + 1) (waiting ++ [c]) := by
  refine ⟨?_, ?_, ?_⟩
  · rw [List.pairwise_append]
    refine ⟨h.sorted, List.pairwise_singleton _ _, fun d hd e he => ?_⟩
    have hlt := h.upper d hd
    rw [List.mem_singleton.1 he]
    omega
  · intro d hd
    rcases List.mem_append.1 hd with hd | hd
    · exact h.lower d hd
    · rw [List.mem_singleton.1 hd]
      omega
  · intro d hd
    rcases List.mem_append.1 hd with hd | hd
    · have := h.upper d hd
      omega
    · rw [List.mem_singleton.1 hd]
      omega

/-- The comments that wait begin between their bounds. -/
theorem Waits.top {m n : Int} {waiting : List Comment} (h : Waits m n waiting) (hmn : m ≤ n)
    (suffix : List Comment) :
    m ≤ Comments.top n ⟨waiting, suffix⟩ ∧ Comments.top n ⟨waiting, suffix⟩ ≤ n := by
  cases waiting with
  | nil =>
    simp only [Comments.top, List.head?_nil, Option.map_none, Option.getD_none]
    omega
  | cons c rest =>
    have hlower := h.lower c List.mem_cons_self
    have hupper := h.upper c List.mem_cons_self
    simp only [Comments.top, List.head?_cons, Option.map_some, Option.getD_some]
    omega

/-- The statements take up disjoint ranges of lines, in order, from line `m` on. The
comments above a statement belong to its range. -/
inductive Ordered : Int → List Statement → Prop
  | nil (m : Int) : Ordered m []
  | cons {m : Int} {s : Statement} {rest : List Statement} (lower : m ≤ s.top)
      (top : s.top ≤ s.start.line) (span : s.start.line ≤ s.stop.line)
      (later : Ordered (s.stop.line + 1) rest) : Ordered m (s :: rest)

theorem Ordered.bounds {m : Int} {statements : List Statement} (h : Ordered m statements) :
    ∀ s ∈ statements, m ≤ s.top ∧ s.top ≤ s.start.line ∧ s.start.line ≤ s.stop.line := by
  induction h with
  | nil => simp
  | cons lower top span _ ih =>
    intro s hs
    rcases List.mem_cons.1 hs with rfl | hs
    · exact ⟨lower, top, span⟩
    · obtain ⟨hlower, htop, hspan⟩ := ih s hs
      exact ⟨by omega, htop, hspan⟩

theorem Ordered.pairwise {m : Int} {statements : List Statement} (h : Ordered m statements) :
    statements.Pairwise fun s t => s.stop.line < t.top := by
  induction h with
  | nil => exact .nil
  | cons _ _ _ later ih =>
    refine List.pairwise_cons.2 ⟨fun t ht => ?_, ih⟩
    have hbound := (later.bounds t ht).1
    omega

/-- Waiting comments that annotate nothing keep the order. -/
theorem Ordered.standalone_append {m n : Int} {waiting : List Comment}
    {statements : List Statement} (hw : Waits m n waiting) (hmn : m ≤ n)
    (h : ∀ k, k ≤ n → Ordered k statements) : Ordered m (standalone waiting ++ statements) := by
  cases waiting with
  | nil => exact h m hmn
  | cons first rest =>
    have hlower := hw.lower first List.mem_cons_self
    obtain ⟨hfirst, -⟩ := List.pairwise_cons.1 hw.sorted
    have hlast : first.start.line ≤ (rest.getLastD first).start.line ∧
        (rest.getLastD first).start.line < n := by
      cases hrest : rest.getLast? with
      | none =>
        have hnil : rest = [] := List.getLast?_eq_none_iff.1 hrest
        have hupper := hw.upper first List.mem_cons_self
        rw [hnil, List.getLastD_nil]
        omega
      | some last =>
        have hmem := List.mem_of_getLast? hrest
        have hsorted := hfirst last hmem
        have hupper := hw.upper last (List.mem_cons_of_mem _ hmem)
        rw [List.getLastD_eq_getLast?, hrest, Option.getD_some]
        omega
    exact Ordered.cons (m := m) hlower (Int.le_refl first.start.line) hlast.1 (h _ hlast.2)

theorem TokenLine.last_mem_tokens (l : TokenLine) : l.last ∈ l.tokens := by
  rw [last, tokens, List.getLastD_eq_getLast?]
  cases h : l.rest.getLast? with
  | none => exact List.mem_cons_self
  | some t => exact List.mem_cons_of_mem _ (List.mem_of_getLast? h)

theorem ScannedLine.On.first {number : Int} {l : TokenLine}
    (h : ScannedLine.On number (.tokens l)) :
    l.first.start.line = number ∧ l.first.stop.line = number :=
  h.1 l.first List.mem_cons_self

theorem ScannedLine.On.last {number : Int} {l : TokenLine}
    (h : ScannedLine.On number (.tokens l)) : l.last.stop.line = number :=
  (h.1 l.last l.last_mem_tokens).2

theorem TokenLine.OpensAndCloses.closing_mem {l : TokenLine} {paren closing : Token}
    (h : l.OpensAndCloses paren closing) : closing ∈ l.tokens := by
  rw [TokenLine.tokens, h.rest]
  simp

/-- A line that opens and closes a block does both on itself. -/
theorem ScannedLine.On.closing {number : Int} {l : TokenLine} {paren closing : Token}
    (h : ScannedLine.On number (.tokens l)) (header : l.OpensAndCloses paren closing) :
    closing.stop.line = number :=
  (h.1 closing header.closing_mem).2

theorem inOrder_of_body {waiting left : List Comment} {body : List ScannedLine}
    {children : List Line} (h : Body waiting body children left) {n : Int}
    (hn : Numbered n body) : InOrder n (n + body.length) children := by
  induction h generalizing n with
  | done => exact ⟨.nil, by simp, by simp, by simp, by simp⟩
  | blank _ ih =>
    rw [add_length_cons]
    exact (ih (numbered_cons_iff.1 hn).2).weaken (by omega)
  | comment c _ ih =>
    rw [add_length_cons]
    exact (ih (numbered_cons_iff.1 hn).2).weaken (by omega)
  | @child waiting _ lines children l plain _ ih =>
    obtain ⟨hline, hrest⟩ := numbered_cons_iff.1 hn
    obtain ⟨hsorted, hlower, honeLine, hupper, hinBlock⟩ := ih hrest
    have hstart : (l.toLine waiting true).start.line = n := hline.first.1
    have hstop : (l.toLine waiting true).stop.line = n := hline.last
    rw [add_length_cons]
    refine ⟨List.pairwise_cons.2 ⟨fun l' hl' => ?_, hsorted⟩, ?_, ?_, ?_, ?_⟩
    · have := hlower l' hl'
      omega
    · intro l' hl'
      rcases List.mem_cons.1 hl' with rfl | hl'
      · omega
      · have := hlower l' hl'
        omega
    · intro l' hl'
      rcases List.mem_cons.1 hl' with rfl | hl'
      · omega
      · exact honeLine l' hl'
    · intro l' hl'
      rcases List.mem_cons.1 hl' with rfl | hl'
      · omega
      · exact hupper l' hl'
    · intro l' hl'
      rcases List.mem_cons.1 hl' with rfl | hl'
      · rfl
      · exact hinBlock l' hl'

/-- The lines of a block, between its opening and its closing line. -/
theorem numbered_block_iff {n : Int} {l closing : TokenLine} {body lines : List ScannedLine} :
    Numbered n (.tokens l :: (body ++ .tokens closing :: lines)) ↔
      ScannedLine.On n (.tokens l) ∧ Numbered (n + 1) body ∧
        ScannedLine.On (n + 1 + body.length) (.tokens closing) ∧
        Numbered (n + 1 + body.length + 1) lines := by
  rw [numbered_cons_iff, numbered_append_iff, numbered_cons_iff]

theorem ordered_of_layout {waiting : List Comment} {lines : List ScannedLine}
    {statements : List Statement} (h : Layout waiting lines statements) {m n : Int}
    (hw : Waits m n waiting) (hmn : m ≤ n) (hn : Numbered n lines) : Ordered m statements := by
  induction h generalizing m n with
  | done waiting =>
    rw [← List.append_nil (standalone waiting)]
    exact .standalone_append hw hmn fun k _ => .nil k
  | blank waiting _ ih =>
    obtain ⟨-, hrest⟩ := numbered_cons_iff.1 hn
    exact .standalone_append hw hmn fun k hk => ih (waits_nil _ _) (by omega) hrest
  | comment c _ ih =>
    obtain ⟨hc, hrest⟩ := numbered_cons_iff.1 hn
    exact ih (hw.append hmn hc) (by omega) hrest
  | line waiting l _ _ ih =>
    obtain ⟨hline, hrest⟩ := numbered_cons_iff.1 hn
    have hstart : l.first.start.line = n := hline.first.1
    have hstop : l.last.stop.line = n := hline.last
    obtain ⟨hlower, htop⟩ := hw.top hmn l.suffix
    refine .cons ?_ ?_ ?_ (ih (waits_nil _ _) ?_ hrest)
    all_goals
      simp only [Statement.top, Statement.start, Statement.stop, TokenLine.toLine, hstart, hstop]
      omega
  | @emptyBlock waiting _ _ l _ closing header _ ih =>
    obtain ⟨hline, hrest⟩ := numbered_cons_iff.1 hn
    have hstart : l.first.start.line = n := hline.first.1
    have hstop : closing.stop.line = n := hline.closing header
    obtain ⟨hlower, htop⟩ := hw.top hmn l.suffix
    refine .cons ?_ ?_ ?_ (ih (waits_nil _ _) ?_ hrest)
    all_goals
      simp only [Statement.top, Statement.start, Statement.stop, TokenLine.toEmptyBlock, hstart,
        hstop]
      omega
  | @block waiting body _ _ _ _ l _ _ _ closing _ _ ih =>
    obtain ⟨hline, -, hclosing, hrest⟩ := numbered_block_iff.1 hn
    have hstart : l.first.start.line = n := hline.first.1
    have hstop : closing.first.stop.line = n + 1 + body.length := hclosing.first.2
    obtain ⟨hlower, htop⟩ := hw.top hmn l.suffix
    refine .cons ?_ ?_ ?_ (ih (waits_nil _ _) ?_ hrest)
    all_goals
      simp only [Statement.top, Statement.start, Statement.stop, TokenLine.toBlock, hstart, hstop]
      omega

theorem ordered_of_numbered {lines : List ScannedLine} {statements : List Statement}
    (h : Layout [] lines statements) {n : Int} (hn : Numbered n lines) : Ordered n statements :=
  ordered_of_layout h (waits_nil n n) (Int.le_refl n) hn

theorem wellNested_of_layout {waiting : List Comment} {lines : List ScannedLine}
    {statements : List Statement} (h : Layout waiting lines statements) {n : Int}
    (hn : Numbered n lines) : ∀ s ∈ statements, s.WellNested := by
  have hstandalone (waiting : List Comment) : ∀ s ∈ standalone waiting, s.WellNested := by
    intro s hs
    obtain ⟨r, rfl⟩ := exists_run_of_mem_standalone hs
    trivial
  induction h generalizing n with
  | done waiting => exact hstandalone waiting
  | blank waiting _ ih =>
    obtain ⟨-, hrest⟩ := numbered_cons_iff.1 hn
    intro s hs
    rcases List.mem_append.1 hs with hs | hs
    · exact hstandalone waiting s hs
    · exact ih hrest s hs
  | comment c _ ih => exact ih (numbered_cons_iff.1 hn).2
  | line waiting l _ _ ih =>
    obtain ⟨hline, hrest⟩ := numbered_cons_iff.1 hn
    refine List.forall_mem_cons.2 ⟨⟨rfl, ?_⟩, ih hrest⟩
    exact hline.first.1.trans hline.last.symm
  | emptyBlock waiting l _ _ ih =>
    refine List.forall_mem_cons.2 ⟨?_, ih (numbered_cons_iff.1 hn).2⟩
    exact ⟨.nil, by simp [TokenLine.toEmptyBlock], by simp [TokenLine.toEmptyBlock],
      by simp [TokenLine.toEmptyBlock], by simp [TokenLine.toEmptyBlock]⟩
  | block waiting l _ inside closing _ _ ih =>
    obtain ⟨hline, hbody, hclosing, hrest⟩ := numbered_block_iff.1 hn
    refine List.forall_mem_cons.2 ⟨?_, ih hrest⟩
    have hstart : l.first.start.line = n := hline.first.1
    have hchildren := inOrder_of_body inside hbody
    rw [← hclosing.first.2, ← hstart] at hchildren
    exact hchildren

/-! ## Every line finds its block -/

/-- The lines that hold the entries found so far. -/
def Declarations.lines (d : Declarations) : List Line :=
  d.moduleEntry.toList.map ModuleEntry.line ++
    (d.goEntry.toList.map GoEntry.line ++ d.requirements.map Requirement.line)

theorem Declarations.forall_mem_lines {P : Line → Prop} {d : Declarations}
    (h : Declarations.Related (fun _ l _ => P l) d d) : ∀ l ∈ d.lines, P l := by
  obtain ⟨hmodule, hgo, hrequirements⟩ := h
  intro l hl
  rw [lines, List.mem_append, List.mem_append] at hl
  rcases hl with hl | hl | hl
  · obtain ⟨x, hx, rfl⟩ := List.mem_map.1 hl
    rw [Option.mem_toList.1 hx] at hmodule
    cases hmodule with
    | some hline => exact hline.2
  · obtain ⟨x, hx, rfl⟩ := List.mem_map.1 hl
    rw [Option.mem_toList.1 hx] at hgo
    cases hgo with
    | some hline => exact hline.2
  · obtain ⟨r, hr, rfl⟩ := List.mem_map.1 hl
    rw [List.forall₂_same] at hrequirements
    exact (hrequirements r hr).2

/-- The entries of a statement stand on its lines. -/
theorem line_mem_of_mem_entriesOf {s : Statement} {e : Entry} (h : e ∈ entriesOf s) :
    e.line ∈ s.lines := by
  cases s with
  | line l =>
    rw [entriesOf] at h
    split at h
    · simp at h
    · rw [List.mem_singleton] at h
      simp [h, Statement.lines]
  | block b =>
    rw [entriesOf] at h
    split at h
    · simp at h
    · obtain ⟨l, hl, rfl⟩ := List.mem_map.1 h
      exact hl
  | comments r => simp [entriesOf] at h

/-- Every declaration stands on a line of the statements. -/
theorem mem_lines_of_declarations {statements : List Statement} {d : Declarations}
    (h : declarations statements = .ok d) :
    ∀ l ∈ d.lines, l ∈ statements.flatMap Statement.lines := by
  refine Declarations.forall_mem_lines (related_self_of_declarations ?_ h)
  intro e he
  obtain ⟨s, hs, he⟩ := List.mem_flatMap.1 he
  exact List.mem_flatMap.2 ⟨s, hs, line_mem_of_mem_entriesOf he⟩

theorem Ordered.start_le_of_mem {m : Int} {above below : List Statement} {s : Statement}
    (h : Ordered m (above ++ s :: below)) {t : Statement} (ht : t ∈ above) :
    t.stop.line < s.start.line := by
  have hpair := (List.pairwise_append.1 h.pairwise).2.2 t ht s List.mem_cons_self
  have hs := (h.bounds s (by simp)).2.1
  omega

/-- The block of a child is the first block around it. -/
theorem firstWithin_of_child {m : Int} {above below : List Statement} {b : Block} {l : Line}
    (hordered : Ordered m (above ++ .block b :: below)) (hb : (Statement.block b).WellNested)
    (hl : l ∈ b.lines) : l.FirstWithin (above ++ .block b :: below) b := by
  have hlower := hb.lower l hl
  have hupper := hb.upper l hl
  refine ⟨above, below, rfl, ⟨by omega, by omega⟩, fun b' hb' hwithin => ?_⟩
  have hlt : b'.stop.line < b.start.line := hordered.start_le_of_mem hb'
  have honeLine := hb.oneLine l hl
  have hstop := hwithin.2
  omega

/-- No block stands around a line outside blocks. -/
theorem not_within_of_topLevel {m : Int} {statements : List Statement} {l : Line}
    (hordered : Ordered m statements) (hl : .line l ∈ statements)
    (hline : (Statement.line l).WellNested) {b : Block} (hb : .block b ∈ statements) :
    ¬ l.Within b := by
  obtain ⟨above, below, rfl⟩ := List.append_of_mem hl
  rintro ⟨hstart, hstop⟩
  have honeLine := hline.2
  rcases List.mem_append.1 hb with hb | hb
  · have hlt : b.stop.line < l.start.line := hordered.start_le_of_mem hb
    omega
  · rcases List.mem_cons.1 hb with hb | hb
    · simp at hb
    · have hpair := (List.pairwise_append.1 hordered.pairwise).2.1
      have hlt : l.stop.line < (Statement.block b).top := (List.pairwise_cons.1 hpair).1 _ hb
      have hle : (Statement.block b).top ≤ b.start.line :=
        (hordered.bounds (.block b) (by simp [hb])).2.1
      omega

/-- A statement encloses a line where it is a block around it. -/
theorem encloses_eq_false {s : Statement} {l : Line} (h : ∀ b, s = .block b → ¬ l.Within b) :
    s.encloses l = false := by
  cases s with
  | line x => rfl
  | comments x => rfl
  | block b =>
    rw [Statement.encloses, Bool.eq_false_iff, ne_eq, Block.encloses_iff]
    exact h b rfl

/-- A child finds its own block, also where another block is equal to it in all but its
place. -/
theorem enclosingIndex?_of_child {m : Int} {statements : List Statement} {b : Block} {l : Line}
    {i : Nat} (hordered : Ordered m statements) (hb : (Statement.block b).WellNested)
    (hi : statements[i]? = some (.block b)) (hl : l ∈ b.lines) :
    enclosingIndex? statements l = some i := by
  obtain ⟨hlt, hget⟩ := List.getElem?_eq_some_iff.1 hi
  have hlower := hb.lower l hl
  have hupper := hb.upper l hl
  rw [enclosingIndex?, List.findIdx?_eq_some_iff_getElem]
  refine ⟨hlt, ?_, fun j hj => ?_⟩
  · rw [hget, Statement.encloses, Block.encloses_iff]
    exact ⟨by omega, by omega⟩
  · rw [encloses_eq_false]
    · simp
    · intro b' hb' hwithin
      have hpair := List.pairwise_iff_getElem.1 hordered.pairwise j i (by omega) hlt hj
      have htop := (hordered.bounds _ (List.getElem_mem hlt)).2.1
      rw [hb', hget] at hpair
      rw [hget] at htop
      have hstop : b'.stop.line < b.start.line := Int.lt_of_lt_of_le hpair htop
      have honeLine := hb.oneLine l hl
      have hle := hwithin.2
      omega

/-- The lines that hold the entries of a manifest. -/
def entryLines (m : Manifest) : List Line :=
  m.moduleEntry.toList.map ModuleEntry.line ++
    (m.goEntry.toList.map GoEntry.line ++ m.requirements.map Requirement.line)

/-- How the statements, blocks and lines of a manifest lie, and which block a line finds. -/
structure Nested (m : Manifest) : Prop where
  /-- A statement ends above the line on which the next one starts. -/
  disjoint : m.statements.Pairwise fun s t => s.stop.line < t.start.line
  span : ∀ s ∈ m.statements, s.start.line ≤ s.stop.line
  /-- A child takes up one line, strictly inside its block. -/
  child : ∀ b, .block b ∈ m.statements → ∀ l ∈ b.lines, l.inBlock = true ∧
    l.start.line = l.stop.line ∧ b.start.line < l.start.line ∧ l.stop.line < b.stop.line
  children : ∀ b, .block b ∈ m.statements →
    b.lines.Pairwise fun l l' => l.start.line < l'.start.line
  topLevel : ∀ l, .line l ∈ m.statements → l.inBlock = false
  /-- The module entry, the go entry and the requirements stand on lines of the statements. -/
  declared : ∀ l ∈ m.entryLines, l ∈ m.statements.flatMap Statement.lines
  /-- A child finds the block it is a child of. -/
  blockOfChild : ∀ i b, m.statements[i]? = some (.block b) → ∀ l ∈ b.lines,
    enclosingIndex? m.statements l = some i ∧ enclosingBlock? l m.statements = some b
  /-- A line outside blocks finds none. -/
  blockOfLine : ∀ l, .line l ∈ m.statements →
    enclosingIndex? m.statements l = none ∧ enclosingBlock? l m.statements = none

theorem nested_of_ordered {m : Manifest} {k : Int} (hordered : Ordered k m.statements)
    (hwell : ∀ s ∈ m.statements, s.WellNested)
    (hdeclared : ∀ l ∈ m.entryLines, l ∈ m.statements.flatMap Statement.lines) : m.Nested where
  disjoint := by
    refine List.Pairwise.imp_of_mem ?_ hordered.pairwise
    intro s t _ ht hlt
    have htop := (hordered.bounds t ht).2.1
    omega
  span := fun s hs => (hordered.bounds s hs).2.2
  child := by
    intro b hb l hl
    have hblock := hwell _ hb
    have hlower := hblock.lower l hl
    exact ⟨hblock.inBlock l hl, hblock.oneLine l hl, by omega, hblock.upper l hl⟩
  children := fun b hb => (hwell _ hb).sorted
  topLevel := fun l hl => (hwell _ hl).1
  declared := hdeclared
  blockOfChild := by
    intro i b hi l hl
    have hmem : .block b ∈ m.statements := List.mem_of_getElem? hi
    refine ⟨enclosingIndex?_of_child hordered (hwell _ hmem) hi hl, ?_⟩
    obtain ⟨above, below, hsplit⟩ := List.append_of_mem hmem
    rw [enclosingBlock?_eq_some_iff, hsplit]
    exact firstWithin_of_child (hsplit ▸ hordered) (hwell _ hmem) hl
  blockOfLine := by
    intro l hl
    have hnone : ∀ b, .block b ∈ m.statements → ¬ l.Within b := fun b hb =>
      not_within_of_topLevel hordered hl (hwell _ hl) hb
    constructor
    · rw [enclosingIndex?, List.findIdx?_eq_none_iff]
      exact fun s hs => encloses_eq_false fun b hb => hnone b (hb ▸ hs)
    · rw [Option.eq_none_iff_forall_ne_some]
      intro b hb
      obtain ⟨above, below, hsplit, hwithin, -⟩ := enclosingBlock?_eq_some_iff.1 hb
      exact hnone b (by simp [hsplit]) hwithin

/-- **Lines find their block** in every manifest that was read. -/
theorem read_nested {name text : Text} {m : Manifest} (h : read name text = .ok m) :
    m.Nested := by
  obtain ⟨lines, statements, d, hlines, hlayout, hd, rfl⟩ := read_eq_ok_iff.1 h
  have hnumbered := numbered_of_scanLines hlines
  have hordered := ordered_of_numbered hlayout hnumbered
  exact nested_of_ordered hordered (wellNested_of_layout hlayout hnumbered)
    (mem_lines_of_declarations hd)

/-- A line outside blocks, an empty block with a comment above it, and a block with a child
below a blank line. -/
theorem read_nested_sample :
    ∃ m, read ['m'] (Text.ofString "module m\n// c\nrequire ( )\nrequire (\n\n a v1\n)\n") =
      .ok m ∧ m.Nested := by
  have hread : (read ['m'] (Text.ofString
      "module m\n// c\nrequire ( )\nrequire (\n\n a v1\n)\n")).isOk = true := by
    decide +kernel
  obtain ⟨m, hm⟩ := exists_eq_ok hread
  exact ⟨m, hm, read_nested hm⟩

end Manifest

end ManifestPolicy
