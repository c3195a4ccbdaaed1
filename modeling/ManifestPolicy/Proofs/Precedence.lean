import ManifestPolicy.Resolution
import Mathlib.Data.List.Induction

/-!
# Which policy a path gets

Four rules decide the policy of a requirement, and each reads its comments in another
way: the last directive of the requirement counts, but the first one of its block, and of
the blocks whose lines include the requirement only the first is asked. They are stated
here by position, as splits of the list of comments, of statements or of requirements.

The resolution is a run over the requirements that sets, replaces and removes policies.
`get?_assign` says what one requirement does to a path, and `get?_foldl_assign` that after
a run a path stands as its last requirement left it.

## Main definitions

* `Directive.First`, `Directive.Last`: a comment that decides for a list of comments.
* `Manifest.Takes`: the rules of precedence.
* `Manifest.Misplaces`: the misplaced directive that is reported.

## Main statements

* `Manifest.takes_iff`: a requirement takes exactly one policy, its effective one.
* `Manifest.resolve_iff_precedence`: when a manifest resolves, and to what.
-/

namespace ManifestPolicy

/-- The comment `c` names `policy`, and none above it names any. -/
def Directive.First (ns : Text) (comments : List Comment) (c : Comment) (policy : Text) :
    Prop :=
  ∃ above below, comments = above ++ c :: below ∧ policy? ns c.text = some policy ∧
    ∀ d ∈ above, policy? ns d.text = none

/-- The comment `c` names `policy`, and none below it names any. -/
def Directive.Last (ns : Text) (comments : List Comment) (c : Comment) (policy : Text) :
    Prop :=
  ∃ above below, comments = above ++ c :: below ∧ policy? ns c.text = some policy ∧
    ∀ d ∈ below, policy? ns d.text = none

/-- The lines of a block include those of a line. -/
def Line.Within (l : Line) (b : Block) : Prop :=
  b.start.line ≤ l.start.line ∧ l.stop.line ≤ b.stop.line

/-- The block `b` is the first of the statements whose lines include those of a line. -/
def Line.FirstWithin (l : Line) (statements : List Statement) (b : Block) : Prop :=
  ∃ above below, statements = above ++ .block b :: below ∧ l.Within b ∧
    ∀ b', .block b' ∈ above → ¬ l.Within b'

/-- The comments of a line name a policy for it. -/
def Line.Names (ns : Text) (l : Line) (policy : Text) : Prop :=
  ∃ c, Directive.Last ns l.comments.all c policy

/-- A line inside a block takes a policy from the opening line of that block. Where the
first block around it names none, a later one is not asked. -/
def Manifest.BlockNames (ns : Text) (m : Manifest) (l : Line) (policy : Text) : Prop :=
  l.inBlock = true ∧
    ∃ b c, l.FirstWithin m.statements b ∧ Directive.First ns b.comments.all c policy

/-- The module entry names a policy for every requirement. -/
def Manifest.ModuleNames (ns : Text) (m : Manifest) (policy : Text) : Prop :=
  ∃ e, m.moduleEntry = some e ∧ e.line.Names ns policy

/-- The policy a requirement takes, by the rules of precedence. -/
inductive Manifest.Takes (ns nilPolicy : Text) (m : Manifest) (r : Requirement) :
    Text → Prop
  | own {policy : Text} (own : r.line.Names ns policy) : Takes ns nilPolicy m r policy
  | fromBlock {policy : Text} (noOwn : ∀ p, ¬ r.line.Names ns p)
      (block : m.BlockNames ns r.line policy) : Takes ns nilPolicy m r policy
  | fromModule {policy : Text} (noOwn : ∀ p, ¬ r.line.Names ns p)
      (noBlock : ∀ p, ¬ m.BlockNames ns r.line p) (module : m.ModuleNames ns policy) :
      Takes ns nilPolicy m r policy
  | fromNothing (noOwn : ∀ p, ¬ r.line.Names ns p)
      (noBlock : ∀ p, ¬ m.BlockNames ns r.line p) (noModule : ∀ p, ¬ m.ModuleNames ns p) :
      Takes ns nilPolicy m r nilPolicy

/-- The requirement `r` has the path, and none after it has. -/
def LastRequiring (path : Text) (requirements : List Requirement) (r : Requirement) : Prop :=
  ∃ before after, requirements = before ++ r :: after ∧ r.path = path ∧
    ∀ s ∈ after, s.path ≠ path

/-- The first directive on the go entry, with its place and the name of the manifest. -/
def Manifest.Misplaces (ns : Text) (m : Manifest) (e : MisplacedDirective) : Prop :=
  ∃ g c, m.goEntry = some g ∧ Directive.First ns g.line.comments.all c e.policy ∧
    e.position = c.start ∧ e.name = m.name

theorem Block.policy?_eq_some_iff {ns policy : Text} {b : Block} :
    b.policy? ns = some policy ↔ ∃ c, Directive.First ns b.comments.all c policy := by
  rw [Block.policy?, Directive.policies, List.head?_filterMap, List.findSome?_eq_some_iff]
  constructor
  · rintro ⟨above, c, below, hsplit, hc, habove⟩
    exact ⟨c, above, below, hsplit, hc, habove⟩
  · rintro ⟨c, above, below, hsplit, hc, habove⟩
    exact ⟨above, c, below, hsplit, hc, habove⟩

theorem Line.policy?_eq_some_iff {ns policy : Text} {l : Line} :
    l.policy? ns = some policy ↔ l.Names ns policy := by
  rw [Line.policy?, Directive.policies, List.getLast?_filterMap, List.findSome?_eq_some_iff]
  constructor
  · rintro ⟨below, c, above, hsplit, hc, hbelow⟩
    refine ⟨c, above.reverse, below.reverse, ?_, hc, fun d hd => hbelow d (by simpa using hd)⟩
    have hrev := congrArg List.reverse hsplit
    simpa using hrev
  · rintro ⟨c, above, below, hsplit, hc, hbelow⟩
    refine ⟨below.reverse, c, above.reverse, ?_, hc, fun d hd => hbelow d (by simpa using hd)⟩
    rw [hsplit]
    simp

theorem Block.encloses_iff {b : Block} {l : Line} : b.encloses l = true ↔ l.Within b := by
  simp [Block.encloses, Line.Within]

/-- A statement that is no block around a line does not change which block is the first. -/
theorem Line.firstWithin_cons {l : Line} {s : Statement} {rest : List Statement} {b : Block}
    (hs : ∀ b', s = .block b' → ¬ l.Within b') :
    l.FirstWithin (s :: rest) b ↔ l.FirstWithin rest b := by
  constructor
  · rintro ⟨above, below, hsplit, hb, habove⟩
    cases above with
    | nil =>
      rw [List.nil_append, List.cons.injEq] at hsplit
      exact absurd hb (hs b hsplit.1)
    | cons a above =>
      rw [List.cons_append, List.cons.injEq] at hsplit
      exact ⟨above, below, hsplit.2, hb, fun b' hb' => habove b' (List.mem_cons_of_mem _ hb')⟩
  · rintro ⟨above, below, rfl, hb, habove⟩
    refine ⟨s :: above, below, rfl, hb, fun b' hb' => ?_⟩
    rcases List.mem_cons.1 hb' with h | h
    · exact hs b' h.symm
    · exact habove b' h

theorem enclosingBlock?_eq_some_iff {l : Line} {statements : List Statement} {b : Block} :
    enclosingBlock? l statements = some b ↔ l.FirstWithin statements b := by
  induction statements with
  | nil => simp [enclosingBlock?, Line.FirstWithin]
  | cons s rest ih =>
    cases s with
    | line x =>
      rw [enclosingBlock?]
      exact ih.trans (Line.firstWithin_cons (by simp)).symm
    | comments x =>
      rw [enclosingBlock?]
      exact ih.trans (Line.firstWithin_cons (by simp)).symm
    | block x =>
      by_cases hx : l.Within x
      · rw [enclosingBlock?, if_pos (Block.encloses_iff.2 hx), Option.some.injEq]
        constructor
        · rintro rfl
          exact ⟨[], rest, rfl, hx, by simp⟩
        · rintro ⟨above, below, hsplit, -, habove⟩
          cases above with
          | nil =>
            rw [List.nil_append, List.cons.injEq, Statement.block.injEq] at hsplit
            exact hsplit.1
          | cons a above =>
            rw [List.cons_append, List.cons.injEq] at hsplit
            exact absurd hx (habove x (hsplit.1 ▸ List.mem_cons_self))
      · rw [enclosingBlock?, if_neg (by rwa [Block.encloses_iff])]
        exact ih.trans (Line.firstWithin_cons (by simpa using hx)).symm

namespace Manifest

variable {ns nilPolicy policy : Text} {m : Manifest}

theorem blockPolicy?_eq_some_iff {l : Line} :
    m.blockPolicy? ns l = some policy ↔ m.BlockNames ns l policy := by
  rw [blockPolicy?, BlockNames]
  by_cases h : l.inBlock = true
  · rw [if_pos h, Option.bind_eq_some_iff]
    constructor
    · rintro ⟨b, hb, hp⟩
      obtain ⟨c, hc⟩ := Block.policy?_eq_some_iff.1 hp
      exact ⟨h, b, c, enclosingBlock?_eq_some_iff.1 hb, hc⟩
    · rintro ⟨-, b, c, hb, hc⟩
      exact ⟨b, enclosingBlock?_eq_some_iff.2 hb, Block.policy?_eq_some_iff.2 ⟨c, hc⟩⟩
  · simp [h]

theorem defaultPolicy?_eq_some_iff :
    m.defaultPolicy? ns = some policy ↔ m.ModuleNames ns policy := by
  rw [defaultPolicy?, Option.bind_eq_some_iff]
  simp only [Line.policy?_eq_some_iff, ModuleNames]

/-- The rules leave one policy to every requirement, and it is the effective one. -/
theorem takes_iff {r : Requirement} :
    m.Takes ns nilPolicy r policy ↔ m.effectivePolicy ns nilPolicy r = policy := by
  have own (p : Text) : r.line.policy? ns = some p ↔ r.line.Names ns p :=
    Line.policy?_eq_some_iff
  have block (p : Text) : m.blockPolicy? ns r.line = some p ↔ m.BlockNames ns r.line p :=
    blockPolicy?_eq_some_iff
  have default (p : Text) : m.defaultPolicy? ns = some p ↔ m.ModuleNames ns p :=
    defaultPolicy?_eq_some_iff
  constructor
  · intro h
    simp only [effectivePolicy]
    -- each rule says which of the four sources is the first to name a policy
    cases h with
    | own h => simp [(own policy).2 h]
    | fromBlock h₁ h₂ =>
      simp only [← own] at h₁
      simp [Option.eq_none_iff_forall_ne_some.2 h₁, (block policy).2 h₂]
    | fromModule h₁ h₂ h₃ =>
      simp only [← own] at h₁
      simp only [← block] at h₂
      simp [Option.eq_none_iff_forall_ne_some.2 h₁, Option.eq_none_iff_forall_ne_some.2 h₂,
        (default policy).2 h₃]
    | fromNothing h₁ h₂ h₃ =>
      simp only [← own] at h₁
      simp only [← block] at h₂
      simp only [← default] at h₃
      simp [Option.eq_none_iff_forall_ne_some.2 h₁, Option.eq_none_iff_forall_ne_some.2 h₂,
        Option.eq_none_iff_forall_ne_some.2 h₃]
  · rintro rfl
    simp only [effectivePolicy]
    cases h₁ : r.line.policy? ns with
    | some p => exact .own ((own p).1 h₁)
    | none =>
      have noOwn : ∀ p, ¬ r.line.Names ns p := fun p hp => by simp [(own p).2 hp] at h₁
      cases h₂ : m.blockPolicy? ns r.line with
      | some p => exact .fromBlock noOwn ((block p).1 h₂)
      | none =>
        have noBlock : ∀ p, ¬ m.BlockNames ns r.line p :=
          fun p hp => by simp [(block p).2 hp] at h₂
        cases h₃ : m.defaultPolicy? ns with
        | some p => exact .fromModule noOwn noBlock ((default p).1 h₃)
        | none =>
          exact .fromNothing noOwn noBlock fun p hp => by simp [(default p).2 hp] at h₃

theorem misplaced?_eq_some_iff {e : MisplacedDirective} :
    m.misplaced? ns = some e ↔ m.Misplaces ns e := by
  rw [misplaced?, Option.bind_eq_some_iff]
  simp only [List.findSome?_eq_some_iff, Option.map_eq_some_iff, Option.map_eq_none_iff]
  constructor
  · rintro ⟨g, hg, above, c, below, hsplit, ⟨p, hp, rfl⟩, habove⟩
    exact ⟨g, c, hg, ⟨above, below, hsplit, hp, habove⟩, rfl, rfl⟩
  · rintro ⟨g, c, hg, ⟨above, below, hsplit, hp, habove⟩, hposition, hname⟩
    refine ⟨g, hg, above, c, below, hsplit, ⟨e.policy, hp, ?_⟩, habove⟩
    cases e
    simp_all

end Manifest

/-- One requirement sets or removes the policy of its own path and of no other. -/
theorem Resolution.get?_assign (nilPolicy : Text) (res : Resolution) (r : Requirement)
    (policy path : Text) :
    (res.assign nilPolicy r policy).policies.get? path =
      if r.path = path then (if policy = nilPolicy then none else some policy)
      else res.policies.get? path := by
  by_cases h : policy = nilPolicy
  · simp [Resolution.assign, h]
  · simp [Resolution.assign, h]

/-- The last requirement with a path. -/
def lastRequiring? (path : Text) (requirements : List Requirement) : Option Requirement :=
  requirements.reverse.find? fun r => r.path = path

theorem lastRequiring?_append_singleton (path : Text) (requirements : List Requirement)
    (r : Requirement) :
    lastRequiring? path (requirements ++ [r]) =
      if r.path = path then some r else lastRequiring? path requirements := by
  rw [lastRequiring?, List.reverse_append, List.reverse_singleton, List.singleton_append,
    List.find?_cons]
  by_cases h : r.path = path
  · simp [h]
  · simp [h, lastRequiring?]

theorem lastRequiring?_eq_some_iff {path : Text} {requirements : List Requirement}
    {r : Requirement} :
    lastRequiring? path requirements = some r ↔ LastRequiring path requirements r := by
  rw [lastRequiring?, List.find?_eq_some_iff_append]
  constructor
  · rintro ⟨hr, after, before, hsplit, hafter⟩
    refine ⟨before.reverse, after.reverse, ?_, by simpa using hr, fun s hs => ?_⟩
    · have hrev := congrArg List.reverse hsplit
      simpa using hrev
    · simpa using hafter s (by simpa using hs)
  · rintro ⟨before, after, hsplit, hr, hafter⟩
    refine ⟨by simpa using hr, after.reverse, before.reverse, ?_, fun s hs => ?_⟩
    · rw [hsplit]
      simp
    · simpa using hafter s (by simpa using hs)

/-- After a run from no policies a path stands as its last requirement left it. -/
theorem get?_foldl_assign (nilPolicy : Text) (policyOf : Requirement → Text)
    (requirements : List Requirement) (path : Text) :
    (requirements.foldl (fun res r => res.assign nilPolicy r (policyOf r))
      Resolution.empty).policies.get? path =
      ((lastRequiring? path requirements).map policyOf).filter fun p => p ≠ nilPolicy := by
  induction requirements using List.reverseRecOn with
  | nil => rfl
  | append_singleton requirements r ih =>
    rw [List.foldl_append, List.foldl_cons, List.foldl_nil, Resolution.get?_assign, ih,
      lastRequiring?_append_singleton]
    by_cases hpath : r.path = path
    · by_cases hnil : policyOf r = nilPolicy
      · simp [hpath, hnil, Option.filter_some]
      · simp [hpath, hnil, Option.filter_some]
    · simp [hpath]

namespace Manifest

/-- The policies of a manifest that resolves: the policy that the last requirement of a path
takes, where it is not the nil policy. -/
theorem get?_of_resolve {ns nilPolicy : Text} {m : Manifest} {res : Resolution}
    (h : m.resolve ns nilPolicy = .ok res) (path policy : Text) :
    res.policies.get? path = some policy ↔
      ∃ r, LastRequiring path m.requirements r ∧ m.Takes ns nilPolicy r policy ∧
        policy ≠ nilPolicy := by
  rw [resolve] at h
  split at h
  · simp at h
  · rw [Except.ok.injEq] at h
    rw [← h, get?_foldl_assign, Option.filter_eq_some_iff, Option.map_eq_some_iff]
    simp only [takes_iff, ← lastRequiring?_eq_some_iff, decide_eq_true_eq]
    constructor
    · rintro ⟨⟨r, hr, hp⟩, hne⟩
      exact ⟨r, hr, hp, hne⟩
    · rintro ⟨r, hr, hp, hne⟩
      exact ⟨⟨r, hr, hp⟩, hne⟩

/-- A manifest is refused exactly for its first directive on the go entry. -/
theorem resolve_eq_error_iff {ns nilPolicy : Text} {m : Manifest} {e : MisplacedDirective} :
    m.resolve ns nilPolicy = .error e ↔ m.Misplaces ns e := by
  rw [← misplaced?_eq_some_iff, resolve]
  cases m.misplaced? ns with
  | none => simp
  | some e' => simp

/-- Some comment of the go entry names a policy exactly where one of them is the first. -/
theorem exists_misplaces_iff {ns : Text} {m : Manifest} :
    (∃ e, m.Misplaces ns e) ↔
      ∃ g, m.goEntry = some g ∧ ∃ c ∈ g.line.comments.all, Directive.policy? ns c.text ≠ none := by
  simp only [← misplaced?_eq_some_iff, ← Option.isSome_iff_exists, misplaced?]
  cases m.goEntry with
  | none => simp
  | some g => simp [Option.ne_none_iff_isSome]

/-- **The meaning of a resolution**, of any tree. A manifest with a directive on its go entry
is refused with the first of them; any other resolves, and a path then has exactly the policy
that its last requirement takes by the rules of precedence, unless that is the nil policy. -/
theorem resolve_iff_precedence (ns nilPolicy : Text) (m : Manifest) :
    (∀ e, m.resolve ns nilPolicy = .error e ↔ m.Misplaces ns e) ∧
    ((∃ e, m.resolve ns nilPolicy = .error e) ↔
      ∃ g, m.goEntry = some g ∧
        ∃ c ∈ g.line.comments.all, Directive.policy? ns c.text ≠ none) ∧
    ((∀ e, ¬ m.Misplaces ns e) → ∃ res, m.resolve ns nilPolicy = .ok res ∧
      ∀ path policy, res.policies.get? path = some policy ↔
        ∃ r, LastRequiring path m.requirements r ∧ m.Takes ns nilPolicy r policy ∧
          policy ≠ nilPolicy) := by
  refine ⟨fun e => resolve_eq_error_iff, ?_, fun hnone => ?_⟩
  · rw [← exists_misplaces_iff]
    exact exists_congr fun e => resolve_eq_error_iff
  · cases hres : m.resolve ns nilPolicy with
    | error e => exact absurd (resolve_eq_error_iff.1 hres) (hnone e)
    | ok res => exact ⟨res, rfl, get?_of_resolve hres⟩

/-- Of two blocks around a requirement the first one is asked, and it names nothing. -/
example :
    let l : Line := ⟨⟨2, 1⟩, ⟨2, 5⟩, [], {}, true⟩
    let silent : Block := ⟨⟨1, 1⟩, ⟨3, 1⟩, [], [l], {}, {}⟩
    let naming : Block := { silent with comments := ⟨[⟨⟨0, 1⟩, Text.ofString "//ns:p"⟩], []⟩ }
    let m : Manifest :=
      ⟨[], [.block silent, .block naming], none, none, [⟨Text.ofString "a", [], l, false⟩]⟩
    m.resolve (Text.ofString "ns") [] = .ok .empty := by
  decide

end Manifest

end ManifestPolicy
