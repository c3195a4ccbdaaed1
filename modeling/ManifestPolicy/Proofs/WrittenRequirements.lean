import ManifestPolicy.Proofs.Entries
import ManifestPolicy.Proofs.EncodedStrings
import ManifestPolicy.Proofs.FlatLines

/-!
# Mappings written as requirements

A mapping from paths to policies can be written as a manifest: one line for each entry, which
requires the path, as a string, and names the policy in a comment. Reading the manifest and
resolving it gives the mapping back, in whatever order the lines stand.

The strings make this hold for any paths, because a string is one token of one line and is read
back. Each line names a policy of its own, and no path is required twice, so nothing is taken
from elsewhere and nothing is overwritten.

## Main definitions

* `requireLine`: the line that is written for an entry.
* `Recordable`: the entries that can be written.

## Main statements

* `Dictionary.ofList_of_perm`: the entries of a dictionary make it again, in any order.
* `Manifest.exists_ofText_requireLine`: a line is read as its entry.
* `Manifest.exists_read_requireLines`: a manifest of such lines resolves to their entries.
-/

namespace ManifestPolicy

section

variable {α : Type}

/-- Where the keys are different, the value of a key is the one of its entry. -/
theorem Entries.get?_eq_some_iff {entries : List (Text × α)} (h : (entries.map Prod.fst).Nodup)
    {k : Text} {v : α} : Entries.get? k entries = some v ↔ (k, v) ∈ entries := by
  induction entries with
  | nil => simp [get?]
  | cons e entries ih =>
    rw [List.map_cons, List.nodup_cons] at h
    obtain ⟨hfresh, hrest⟩ := h
    rw [get?, List.mem_cons]
    by_cases hkey : e.1 = k
    · have hnot : (k, v) ∉ entries := fun hmem => hfresh (hkey ▸ List.mem_map_of_mem hmem)
      simp [hkey, hnot, Prod.ext_iff, eq_comm]
    · have hne : (k, v) ≠ e := fun he => hkey (by rw [← he])
      simp [hkey, hne, ih hrest]

namespace Dictionary

/-- Where the keys are different, no entry is replaced. -/
theorem get?_ofList_eq_some_iff {entries : List (Text × α)} (h : (entries.map Prod.fst).Nodup)
    {k : Text} {v : α} : (ofList entries).get? k = some v ↔ (k, v) ∈ entries := by
  induction entries using List.reverseRecOn with
  | nil => simp [ofList]
  | append_singleton entries e ih =>
    rw [List.map_append, List.map_singleton, List.nodup_append] at h
    obtain ⟨hrest, -, hfresh⟩ := h
    have hfold : ofList (entries ++ [e]) = (ofList entries).insert e.1 e.2 := by
      rw [ofList, List.foldl_append]
      rfl
    rw [hfold, get?_insert, List.mem_append, List.mem_singleton]
    by_cases hkey : e.1 = k
    · have hnot : (k, v) ∉ entries := fun hmem =>
        hfresh k (List.mem_map_of_mem hmem) e.1 (List.mem_singleton_self _) hkey.symm
      simp [hkey, hnot, Prod.ext_iff, eq_comm]
    · have hne : (k, v) ≠ e := fun he => hkey (by rw [← he])
      simp [hkey, hne, ih hrest]

theorem nodup_keys (d : Dictionary α) : (d.toList.map Prod.fst).Nodup := by
  rw [List.Nodup, List.pairwise_map]
  refine d.sorted.imp fun hlt heq => ?_
  exact Text.lt_irrefl _ (heq ▸ hlt)

/-- The entries of a dictionary make it again, in any order. -/
theorem ofList_of_perm {d : Dictionary α} {entries : List (Text × α)}
    (h : entries.Perm d.toList) : ofList entries = d := by
  have hnodup : (entries.map Prod.fst).Nodup := (h.map Prod.fst).nodup_iff.2 d.nodup_keys
  apply ext_get?
  intro k
  apply Option.ext
  intro v
  exact (get?_ofList_eq_some_iff hnodup).trans
    (h.mem_iff.trans (Entries.get?_eq_some_iff d.nodup_keys).symm)

end Dictionary

end

/-- Requirements of different paths, none of which has a policy yet, each give their path its
policy, and nothing is overwritten. -/
theorem foldl_assign_of_nodup {nilPolicy : Text} {policyOf : Requirement → Text}
    {requirements : List Requirement} (hpaths : (requirements.map Requirement.path).Nodup)
    (hkept : ∀ r ∈ requirements, policyOf r ≠ nilPolicy) {res : Resolution}
    (hfresh : ∀ r ∈ requirements, res.policies.get? r.path = none) :
    requirements.foldl (fun res r => res.assign nilPolicy r (policyOf r)) res =
      ⟨(requirements.map fun r => (r.path, policyOf r)).foldl (fun d e => d.insert e.1 e.2)
        res.policies, res.overwrites⟩ := by
  induction requirements generalizing res with
  | nil => rfl
  | cons r requirements ih =>
    rw [List.map_cons, List.nodup_cons] at hpaths
    rw [List.forall_mem_cons] at hkept hfresh
    have hassign : res.assign nilPolicy r (policyOf r) =
        ⟨res.policies.insert r.path (policyOf r), res.overwrites⟩ := by
      simp [Resolution.assign, Resolution.overwrite?, hkept.1, hfresh.1]
    rw [List.foldl_cons, hassign, ih hpaths.2 hkept.2]
    · rfl
    · intro s hs
      have hne : r.path ≠ s.path := fun heq => hpaths.1 (heq ▸ List.mem_map_of_mem hs)
      rw [Dictionary.get?_insert, if_neg hne, hfresh.2 s hs]

namespace Text

/-- The text is made of these lines, each ended by a line feed, or the last one by the end of the
text. -/
def MadeOf (text : Text) (ls : List Text) : Prop :=
  text = ofLines ls ∨ text ++ [('\n' : CodePoint)] = ofLines ls

/-- A line feed ends a line that is not empty, and starts no further line. -/
theorem cutLines_concat (t : Text) {c : CodePoint} (hc : c.endsLine = false) :
    cutLines (t ++ [c, '\n']) = cutLines (t ++ [c]) := by
  induction t with
  | nil =>
    have hfeed : CodePoint.endsLine '\n' = true := by decide
    simp [cutLines, hc, hfeed]
  | cons d t ih => rw [List.cons_append, List.cons_append, cutLines, cutLines, ih]

/-- A text that is made of lines has these lines. The last one may lack its line feed, as it is not
empty. -/
theorem lines_of_madeOf {text : Text} {ls : List Text} (h : ∀ l ∈ ls, l.OneLine ∧ l ≠ [])
    (htext : text.MadeOf ls) : lines text = ls := by
  have honeLine : ∀ l ∈ ls, l.OneLine := fun l hl => (h l hl).1
  rcases htext with htext | htext
  · rw [htext, lines_ofLines honeLine]
  have hlines : cutLines (text ++ [('\n' : CodePoint)]) = ls := by
    rw [htext, ← unifyNewlines_of_not_mem (carriageReturn_not_mem_ofLines honeLine)]
    exact lines_ofLines honeLine
  have hreturn : ('\r' : CodePoint) ∉ text := fun hmem =>
    carriageReturn_not_mem_ofLines honeLine (htext ▸ List.mem_append_left _ hmem)
  rw [lines, unifyNewlines_of_not_mem hreturn]
  cases ls using List.reverseRecOn with
  | nil => simp [ofLines] at htext
  | append_singleton init last =>
    obtain ⟨hlast, hne⟩ := h last (by simp)
    rw [ofLines, List.flatMap_append, List.flatMap_singleton, ← List.append_assoc,
      List.append_cancel_right_eq, ← List.dropLast_concat_getLast hne, ← List.append_assoc] at htext
    rw [htext] at hlines ⊢
    rw [← cutLines_concat _ (hlast _ (List.getLast_mem hne)), ← hlines]
    simp

end Text

/-- The line that requires a path, as a string, and names its policy. -/
def requireLine (ns : Text) (e : Text × Text) : Text :=
  requireVerb ++ (' ' : CodePoint) :: (Quoted.encode e.1 ++ (' ' : CodePoint) ::
    (Text.ofString "v0" ++ (' ' : CodePoint) :: Directive.written ns e.2))

/-- The entries that can be written: the path is read back, and the policy is one that a comment
can name and that is kept. -/
structure Recordable (nilPolicy : Text) (e : Text × Text) : Prop where
  path : Quoted.Unpaired e.1
  named : e.2 ≠ []
  noBlank : ∀ c ∈ e.2, c.isBlank = false
  kept : e.2 ≠ nilPolicy

variable {ns nilPolicy : Text}

theorem Recordable.isCommentText {e : Text × Text} (h : Recordable nilPolicy e)
    (hns : Directive.Writable ns) : IsCommentText (Directive.written ns e.2) :=
  Directive.isCommentText_written hns h.named h.noBlank

theorem Recordable.oneLine {e : Text × Text} (h : Recordable nilPolicy e)
    (hns : Directive.Writable ns) : (requireLine ns e).OneLine := by
  have hverb : Text.OneLine (requireVerb ++ [(' ' : CodePoint)]) := by decide
  have hversion : Text.OneLine (((' ' : CodePoint) :: Text.ofString "v0") ++ [(' ' : CodePoint)]) :=
    by decide
  have hpath : (Quoted.encode e.1).OneLine := (Quoted.visible_encode e.1).oneLine
  have hall := hverb.append (hpath.append (hversion.append (h.isCommentText hns).oneLine))
  simpa [requireLine] using hall

namespace Manifest

/-- A path as a string is read back as an argument. -/
theorem unquote_encode {path : Text} (h : Quoted.Unpaired path) (p : Position) :
    unquote p (Quoted.encode path) = .ok path := by
  have hdecode := Quoted.decode?_encode h
  rw [Quoted.encode, List.cons_append] at hdecode ⊢
  rw [unquote, if_neg (by decide), if_pos (by decide), hdecode]

/-- The line of an entry is read as the verb, the string of the path and the version, and the
comment that names the policy. -/
theorem exists_ofText_requireLine {e : Text × Text} (h : Recordable nilPolicy e)
    (hns : Directive.Writable ns) (number : Int) :
    ∃ l : TokenLine, ScannedLine.ofText number (requireLine ns e) = .ok (.tokens l) ∧
      l.tokens.map Token.text = [requireVerb, Quoted.encode e.1, Text.ofString "v0"] ∧
      l.suffix.map Comment.text = [Directive.written ns e.2] := by
  have hspace : CodePoint.isBlank ' ' = true := by decide
  have hblanks : Blanks [(' ' : CodePoint)] := fun c hc => List.mem_singleton.1 hc ▸ hspace
  have hcomment := h.isCommentText hns
  let ps : List Piece := [⟨[], requireVerb⟩, ⟨[(' ' : CodePoint)], Quoted.encode e.1⟩,
    ⟨[(' ' : CodePoint)], Text.ofString "v0"⟩]
  have hversion : Cuts (Text.ofString "v0") [] := ⟨⟨_, _, rfl, by decide⟩, by decide, by decide⟩
  have hpath := cuts_string (Quoted.spellsAll_encode e.1)
  have hspelled : Spelled ps ([(' ' : CodePoint)] ++ Directive.written ns e.2) :=
    ⟨by simp [Blanks], cuts_requireVerb (breaks_of_blank hspace _), hblanks, hpath _, hblanks,
      hversion.of_breaks (breaks_of_blank hspace _), trivial⟩
  have hscan := scanFrom_spell_remark hspelled hblanks (.inr hcomment.marker) number 1
  rw [remarkAt_of_marker _ _ hcomment.marker, hcomment.trimmed] at hscan
  have hline : requireLine ns e = spell ps ([(' ' : CodePoint)] ++ Directive.written ns e.2) := by
    simp [ps, requireLine, spell]
  rw [hline]
  exact ⟨_, ofText_eq_ok_iff.2 ⟨_, _, hscan, rfl⟩, map_text_tokensAt number 1 ps, rfl⟩

/-- A requirement is that of an entry: it has the path, and its own comment names the policy. -/
structure Records (ns : Text) (e : Text × Text) (r : Requirement) : Prop where
  path : r.path = e.1
  policy : r.line.policy? ns = some e.2

/-- A string is no parenthesis. -/
theorem isParenText_encode (path : Text) : isParenText (Quoted.encode path) = false := by
  have hopening : ('"' : CodePoint) ≠ '(' := by decide
  have hclosing : ('"' : CodePoint) ≠ ')' := by decide
  simp [isParenText, Quoted.encode, openingParen, closingParen, hopening, hclosing]

/-- The line of an entry is a requirement of its path. -/
theorem exists_add_requireLine {e : Text × Text} (h : Recordable nilPolicy e)
    (hns : Directive.Writable ns) (number : Int) (d : Declarations) :
    ∃ (l : TokenLine) (r : Requirement),
      ScannedLine.ofText number (requireLine ns e) = .ok (.tokens l) ∧ l.Plain ∧
      (entriesOf (.line (l.toLine [] false))).foldlM Declarations.add d =
        .ok { d with requirements := d.requirements ++ [r] } ∧
      r.line.start.line = number ∧ Records ns e r := by
  obtain ⟨l, hl, htokens, hsuffix⟩ := exists_ofText_requireLine h hns number
  have hplain : l.Plain := by
    rw [TokenLine.plain_iff, htokens]
    have hverb : isParenText requireVerb = false := by decide
    have hversion : isParenText (Text.ofString "v0") = false := by decide
    simp [hverb, hversion, isParenText_encode]
  have hentries : entriesOf (.line (l.toLine [] false)) =
      [⟨requireVerb, [Quoted.encode e.1, Text.ofString "v0"], l.toLine [] false⟩] := by
    simp only [entriesOf, TokenLine.toLine, htokens]
  have hcomments : (l.toLine [] false).comments.all.map Comment.text =
      [Directive.written ns e.2] := hsuffix
  refine ⟨l, ⟨e.1, Text.ofString "v0", l.toLine [] false, (l.toLine [] false).isIndirect⟩, hl,
    hplain, ?_, (on_ofText hl).first.1, rfl, ?_⟩
  · rw [hentries, List.foldlM_cons, bind_eq_ok_iff]
    exact ⟨_, add_eq_ok_iff.2 (.require rfl rfl (unquote_encode h.path _) rfl), rfl⟩
  · have hpolicies : Directive.policies ns (l.toLine [] false).comments.all = [e.2] := by
      rw [Directive.policies_map_text, hcomments]
      simp [Directive.policy?_written hns h.named h.noBlank]
    rw [Line.policy?, hpolicies]
    rfl

/-- The lines of some entries are requirements of their paths, in order. -/
theorem exists_layout_requireLines {entries : List (Text × Text)}
    (h : ∀ e ∈ entries, Recordable nilPolicy e) (hns : Directive.Writable ns) (number : Int)
    (d : Declarations) :
    ∃ lines statements requirements,
      scanLines number (entries.map (requireLine ns)) = .ok lines ∧ Layout [] lines statements ∧
      (statements.flatMap entriesOf).foldlM Declarations.add d =
        .ok { d with requirements := d.requirements ++ requirements } ∧
      requirements.map (fun r => (r.line.start.line, r.path)) =
        entries.mapIdx (fun i e => (number + i, e.1)) ∧
      List.Forall₂ (Records ns) entries requirements := by
  induction entries generalizing number d with
  | nil => exact ⟨[], [], [], rfl, .done [], by simp [pure, Except.pure], rfl, .nil⟩
  | cons e entries ih =>
    rw [List.forall_mem_cons] at h
    obtain ⟨l, r, hl, hplain, hadd, hnumber, hrecords⟩ :=
      exists_add_requireLine h.1 hns number d
    obtain ⟨lines, statements, rs, hscan, hlayout, hrest, hnumbers, hall⟩ :=
      ih h.2 (number + 1) { d with requirements := d.requirements ++ [r] }
    refine ⟨.tokens l :: lines, _, r :: rs, scanLines_cons_eq_ok_iff.2 ⟨_, _, hl, hscan, rfl⟩,
      .line [] l hplain hlayout, ?_, ?_, .cons hrecords hall⟩
    · rw [List.flatMap_cons, List.foldlM_append, bind_eq_ok_iff]
      refine ⟨_, hadd, hrest.trans ?_⟩
      simp
    · rw [List.map_cons, List.mapIdx_cons, hnumber, hnumbers, hrecords.path]
      simp [Int.add_assoc, Int.add_comm 1]

/-- Requirements of entries with different keys resolve to the mapping of the entries. -/
theorem resolve_of_records {m : Manifest} {entries : List (Text × Text)}
    (hgo : m.goEntry = none) (hall : List.Forall₂ (Records ns) entries m.requirements)
    (hkeys : (entries.map Prod.fst).Nodup) (hkept : ∀ e ∈ entries, e.2 ≠ nilPolicy) :
    m.resolve ns nilPolicy = .ok ⟨Dictionary.ofList entries, []⟩ := by
  have hentries : m.requirements.map (fun r => (r.path, m.effectivePolicy ns nilPolicy r)) =
      entries := by
    rw [← List.forall₂_eq_eq_eq, List.forall₂_map_left_iff]
    refine hall.flip.imp fun r e hr => ?_
    rw [hr.path, effectivePolicy, hr.policy]
    rfl
  have hpaths : (m.requirements.map Requirement.path).Nodup := by
    rw [← hentries, List.map_map] at hkeys
    exact hkeys
  have hpolicies : ∀ r ∈ m.requirements, m.effectivePolicy ns nilPolicy r ≠ nilPolicy := by
    intro r hr
    apply hkept (r.path, m.effectivePolicy ns nilPolicy r)
    rw [← hentries]
    exact List.mem_map_of_mem hr
  have hmisplaced : m.misplaced? ns = none := by rw [misplaced?, hgo]; rfl
  rw [resolve, hmisplaced, Dictionary.ofList, ← hentries]
  exact congrArg Except.ok (foldl_assign_of_nodup hpaths hpolicies fun _ _ => rfl)

/-- A manifest of lines for the entries of a mapping, in any order, is read with a requirement of
the path on each line, and resolves to the mapping. -/
theorem exists_read_requireLines {policies : Dictionary Text} {entries : List (Text × Text)}
    (h : ∀ e ∈ entries, Recordable nilPolicy e) (hns : Directive.Writable ns)
    (hperm : entries.Perm policies.toList) {text : Text}
    (htext : text.MadeOf (entries.map (requireLine ns))) (name : Text) :
    ∃ m, read name text = .ok m ∧
      m.requirements.map (fun r => (r.line.start.line, r.path)) =
        entries.mapIdx (fun i e => (1 + (i : Int), e.1)) ∧
      m.resolve ns nilPolicy = .ok ⟨policies, []⟩ := by
  obtain ⟨lines, statements, requirements, hscan, hlayout, hadd, hnumbers, hall⟩ :=
    exists_layout_requireLines h hns 1 {}
  have hkeys : (entries.map Prod.fst).Nodup := (hperm.map Prod.fst).nodup_iff.2 policies.nodup_keys
  have hlines : text.lines = entries.map (requireLine ns) := by
    refine Text.lines_of_madeOf (List.forall_mem_map.2 fun e he => ⟨(h e he).oneLine hns, ?_⟩) htext
    simp [requireLine]
  refine ⟨⟨name, statements, none, none, requirements⟩,
    read_eq_ok_iff.2 ⟨lines, statements, _, by rwa [hlines], hlayout, hadd, rfl⟩, hnumbers, ?_⟩
  rw [← Dictionary.ofList_of_perm hperm]
  exact resolve_of_records rfl hall hkeys fun e he => (h e he).kept

end Manifest

end ManifestPolicy
