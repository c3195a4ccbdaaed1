import ManifestPolicy.Proofs.Acceptance
import ManifestPolicy.Proofs.EncodedOctets
import ManifestPolicy.Proofs.EncodedStrings
import ManifestPolicy.Proofs.NilPolicy
import ManifestPolicy.Proofs.OutlyingComments

/-!
# Where paths and policies come from

The paths and policies of a resolution are taken from the text of the manifest. A policy is a part
of a comment, and a comment is a part of a line. A path is a part of a token, or a token, or the
text of a string, and the text of a string has code points that the text of the manifest does not
have: those that it names by escapes.

Octets hold no surrogates, so in a manifest that was read from octets only an escape can name one.
Reading joins two escapes that name a pair, and so no path and no policy has a pair of surrogates
in it, although a path can have single ones.

## Main statements

* `Text.subset_of_mem_lines`, `subset_of_mem_tokenTexts`, `exists_subset_of_mem_physicalComments`:
  lines, tokens and comments are parts of the text.
* `exists_comment_of_namedPolicy?`: a policy is named by a comment of the manifest.
* `Quoted.unpaired_joinItems`: the text of a string has no pair of surrogates, if the string names
  them by escapes only.
* `Manifest.unpaired_of_resolve`: no path and no policy of a manifest that was read from octets has
  one.
-/

namespace ManifestPolicy

namespace Text

theorem subset_of_mem_cutAt {cuts : CodePoint → Bool} {t p : Text} (h : p ∈ cutAt cuts t) :
    p ⊆ t := by
  induction t generalizing p with
  | nil =>
    rw [cutAt, List.mem_singleton] at h
    simp [h]
  | cons d t ih =>
    rw [cutAt] at h
    split at h
    · rcases List.mem_cons.1 h with rfl | h
      · exact List.nil_subset _
      · exact List.subset_cons_of_subset d (ih h)
    · cases hcut : cutAt cuts t with
      | nil => exact absurd hcut (cutAt_ne_nil cuts t)
      | cons q qs =>
        rw [hcut] at h ih
        rcases List.mem_cons.1 h with rfl | h
        · exact List.cons_subset_cons d (ih List.mem_cons_self)
        · exact List.subset_cons_of_subset d (ih (List.mem_cons_of_mem _ h))

theorem subset_of_mem_fields {t field : Text} (h : field ∈ fields t) : field ⊆ t :=
  subset_of_mem_cutAt (List.mem_filter.1 h).1

theorem subset_of_mem_cutLines {t l : Text} (h : l ∈ cutLines t) : l ⊆ t := by
  induction t generalizing l with
  | nil => cases h
  | cons d t ih =>
    rw [cutLines] at h
    split at h
    · rcases List.mem_cons.1 h with rfl | h
      · exact List.nil_subset _
      · exact List.subset_cons_of_subset d (ih h)
    · cases hcut : cutLines t with
      | nil =>
        rw [hcut, List.mem_singleton] at h
        simp [h]
      | cons k ks =>
        rw [hcut] at h ih
        rcases List.mem_cons.1 h with rfl | h
        · exact List.cons_subset_cons d (ih List.mem_cons_self)
        · exact List.subset_cons_of_subset d (ih (List.mem_cons_of_mem _ h))

theorem mem_of_mem_unifyNewlines {t : Text} {c : CodePoint} (h : c ∈ unifyNewlines t) :
    c = '\n' ∨ c ∈ t := by
  induction t with
  | nil => cases h
  | cons d t ih =>
    rw [unifyNewlines] at h
    split at h
    · split at h
      · exact (ih h).imp_right (List.mem_cons_of_mem d)
      · rcases List.mem_cons.1 h with rfl | h
        · exact .inl rfl
        · exact (ih h).imp_right (List.mem_cons_of_mem d)
    · rcases List.mem_cons.1 h with rfl | h
      · exact .inr List.mem_cons_self
      · exact (ih h).imp_right (List.mem_cons_of_mem d)

theorem subset_of_mem_lines {t l : Text} (h : l ∈ lines t) : l ⊆ t := by
  intro c hc
  refine (mem_of_mem_unifyNewlines (subset_of_mem_cutLines h hc)).resolve_left ?_
  rintro rfl
  exact absurd (oneLine_of_mem_lines h _ hc) (by decide)

end Text

theorem Directive.subset_of_policy? {ns comment policy : Text}
    (h : policy? ns comment = some policy) : policy ⊆ comment := by
  intro c hc
  obtain ⟨-, field, hfield, hdrop⟩ := exists_of_policy? h
  have hmem : c ∈ Text.dropStart commentMarker field := hdrop ▸ List.mem_append_right _ hc
  exact mem_of_mem_dropStart (Text.subset_of_mem_fields hfield (mem_of_mem_dropStart hmem))

namespace Quoted

/-- The text of a string starts with a low surrogate only where an escape names it there. -/
theorem exists_escape_of_low {items : List Item}
    (hplain : ∀ c, .plain c ∈ items → c.isSurrogate = false) {d : CodePoint}
    (hhead : (joinItems items).head? = some d) (hlow : d.isLowSurrogate = true) :
    ∃ more, items = .escape d :: more := by
  have hsurrogate : d.isSurrogate = true := by
    simp only [CodePoint.isLowSurrogate, CodePoint.isSurrogate, CodePoint.between,
      Bool.and_eq_true, decide_eq_true_eq] at hlow ⊢
    omega
  rw [joinItems.eq_def] at hhead
  split at hhead
  · next high low rest =>
    split at hhead
    · next hpair =>
      -- what a pair stands for lies above all surrogates
      rw [List.head?_cons, Option.some.injEq] at hhead
      rw [← hhead, pairPoint] at hlow
      simp only [CodePoint.isHighSurrogate, CodePoint.isLowSurrogate, CodePoint.between,
        Bool.and_eq_true, decide_eq_true_eq] at hpair hlow
      rw [CodePoint.val_ofNat (by omega)] at hlow
      omega
    · rw [List.head?_cons, Option.some.injEq] at hhead
      rw [← hhead]
      exact ⟨_, rfl⟩
  · next item rest _ =>
    rw [List.head?_cons, Option.some.injEq] at hhead
    cases item with
    | plain c =>
      have hc := hplain c List.mem_cons_self
      rw [show c = d from hhead, hsurrogate] at hc
      cases hc
    | escape c =>
      rw [← hhead]
      exact ⟨rest, rfl⟩
  · cases hhead

/-- A text of items has no pair of surrogates, where only escapes name surrogates: a pair of
escapes would have been joined. -/
theorem unpaired_joinItems {items : List Item}
    (h : ∀ c, .plain c ∈ items → c.isSurrogate = false) : Unpaired (joinItems items) := by
  have rest {item : Item} {more : List Item}
      (hall : ∀ c, .plain c ∈ item :: more → c.isSurrogate = false) (c : CodePoint) :
      .plain c ∈ more → c.isSurrogate = false := fun hc => hall c (List.mem_cons_of_mem _ hc)
  induction items using joinItems.induct with
  | case1 high low more hpair ih =>
    rw [joinItems, if_pos hpair, Unpaired, List.isChain_cons]
    refine ⟨?_, ih (rest (rest h))⟩
    intro d _ hsurrogates
    have hhigh := hsurrogates.1
    rw [pairPoint] at hhigh
    simp only [CodePoint.isHighSurrogate, CodePoint.isLowSurrogate, CodePoint.between,
      Bool.and_eq_true, decide_eq_true_eq] at hpair hhigh
    rw [CodePoint.val_ofNat (by omega)] at hhigh
    omega
  | case2 high low more hpair ih =>
    rw [joinItems, if_neg hpair, Unpaired, List.isChain_cons]
    refine ⟨?_, ih (rest h)⟩
    intro d hd hsurrogates
    obtain ⟨hhigh, hlow⟩ := hsurrogates
    obtain ⟨_, hitems⟩ := exists_escape_of_low (rest h) hd hlow
    obtain ⟨hescape, -⟩ := List.cons.inj hitems
    apply hpair
    rw [Item.escape.inj hescape, hhigh, hlow]
    rfl
  | case3 item more hno ih =>
    have htail := ih (rest h)
    cases item with
    | plain c =>
      have hhigh : c.isHighSurrogate = false := by
        have hc := h c List.mem_cons_self
        simp only [CodePoint.isSurrogate, CodePoint.isHighSurrogate, CodePoint.between,
          Bool.and_eq_false_iff, decide_eq_false_iff_not] at hc ⊢
        omega
      rw [joinItems_plain, Unpaired, List.isChain_cons]
      exact ⟨fun d _ hpair => by simp [hhigh] at hpair, htail⟩
    | escape c =>
      have hnext (d : CodePoint) (others : List Item) : more ≠ .escape d :: others :=
        fun hmore => hno c d others rfl hmore
      rw [joinItems_escape fun d others hmore => absurd hmore (hnext d others), Unpaired,
        List.isChain_cons]
      refine ⟨fun d hd hpair => ?_, htail⟩
      obtain ⟨others, hmore⟩ := exists_escape_of_low (rest h) hd hpair.2
      exact hnext d others hmore
  | case4 => exact .nil

theorem noSurrogate_of_shortEscape? {e c : CodePoint} (h : shortEscape? e = some c) :
    c.isSurrogate = false := by
  rw [shortEscape?] at h
  split_ifs at h
  all_goals
    rw [← Option.some.inj h]
    decide

/-- Where no surrogate is written, only escapes name surrogates. -/
theorem noSurrogate_of_spellsAll {body : Text} {items : List Item} (h : SpellsAll body items)
    (hbody : ∀ c ∈ body, c.isSurrogate = false) :
    ∀ c, .plain c ∈ items → c.isSurrogate = false := by
  induction h with
  | nil => simp
  | cons first _ ih =>
    rw [List.forall_mem_append] at hbody
    intro c hc
    rcases List.mem_cons.1 hc with hc | hc
    · cases first with
      | plain => exact hbody.1 c (by simp [Item.plain.inj hc])
      | short letter => exact Item.plain.inj hc ▸ noSurrogate_of_shortEscape? letter
      | unit => cases hc
    · exact ih hbody.2 c hc

end Quoted

namespace Manifest

/-- A token without surrogates stands for a text without pairs of them. -/
theorem Denotes.unpaired {token text : Text} (h : Denotes token text)
    (htoken : ∀ c ∈ token, c.isSurrogate = false) : Quoted.Unpaired text := by
  cases h with
  | raw inside =>
    refine Quoted.unpaired_of_noSurrogate fun c hc => htoken c ?_
    exact List.mem_cons_of_mem _ (List.mem_append_left _ hc)
  | string spelled =>
    refine Quoted.unpaired_joinItems (Quoted.noSurrogate_of_spellsAll spelled fun c hc => ?_)
    exact htoken c (List.mem_cons_of_mem _ (List.mem_append_left _ hc))
  | word => exact Quoted.unpaired_of_noSurrogate htoken

theorem subset_spell {ps : List Piece} {p : Piece} (h : p ∈ ps) (tail : Text) :
    p.token ⊆ spell ps tail := by
  induction ps with
  | nil => cases h
  | cons q ps ih =>
    rw [spell]
    rcases List.mem_cons.1 h with rfl | h
    · exact List.subset_append_of_subset_right _ (List.subset_append_left _ _)
    · exact List.subset_append_of_subset_right _
        (List.subset_append_of_subset_right _ (ih h))

theorem subset_of_mem_tokenTexts {t a : Text} (h : a ∈ tokenTexts t) : a ⊆ t := by
  cases hscan : scanFrom 1 1 t with
  | error e => simp [tokenTexts, hscan] at h
  | ok r =>
    obtain ⟨ps, gap, remark, rfl, -, -, -, htokens, -⟩ := exists_spell_of_scanFrom hscan
    rw [tokenTexts_of_scanFrom hscan, htokens, map_text_tokensAt] at h
    obtain ⟨p, hp, rfl⟩ := List.mem_map.1 h
    exact subset_spell hp _

/-- The tokens of the rows are parts of the lines. -/
theorem exists_subset_of_rows {number : Int} {texts : List Text} :
    ∀ r ∈ rowsFrom number texts, ∀ a ∈ r.tokens, ∃ t ∈ texts, a ⊆ t := by
  induction texts generalizing number with
  | nil => simp [rowsFrom]
  | cons t texts ih =>
    have below (r : Row) (hr : r ∈ rowsFrom (number + 1) texts) (a : Text) (ha : a ∈ r.tokens) :
        ∃ u ∈ t :: texts, a ⊆ u := by
      obtain ⟨u, hu, hsubset⟩ := ih r hr a ha
      exact ⟨u, List.mem_cons_of_mem _ hu, hsubset⟩
    rw [rowsFrom]
    split
    · exact below
    · exact List.forall_mem_cons.2
        ⟨fun a ha => ⟨t, List.mem_cons_self, subset_of_mem_tokenTexts ha⟩, below⟩

theorem exists_subset_of_mem_physicalComments {number : Int} {texts : List Text} :
    ∀ c ∈ physicalComments number texts, ∃ t ∈ texts, c.text ⊆ t := by
  induction texts generalizing number with
  | nil => simp [physicalComments]
  | cons t texts ih =>
    intro c hc
    rcases List.mem_append.1 hc with hc | hc
    · obtain ⟨k, -, rfl⟩ := Option.map_eq_some_iff.1 (Option.mem_toList.1 hc)
      exact ⟨t, List.mem_cons_self, fun x hx => List.mem_of_mem_drop (Text.mem_of_mem_trimEnd hx)⟩
    · obtain ⟨u, hu, hsubset⟩ := ih c hc
      exact ⟨u, List.mem_cons_of_mem _ hu, hsubset⟩

end Manifest

/-- The comments of a line of a statement are among those of the statement. -/
theorem Statement.mem_allComments_of_line {s : Statement} {l : Line} (hl : l ∈ s.lines)
    {c : Comment} (hc : c ∈ l.comments.all) : c ∈ s.allComments := by
  cases s with
  | line x =>
    rw [lines, List.mem_singleton] at hl
    rw [allComments, placed, Comments.map_snd_placed]
    exact hl ▸ hc
  | block b =>
    rw [allComments, placed, List.map_append, List.map_append, List.map_flatMap]
    refine List.mem_append_right _ (List.mem_append_left _ (List.mem_flatMap.2 ⟨l, hl, ?_⟩))
    rw [Comments.map_snd_placed]
    exact hc
  | comments r => cases hl

namespace Manifest

variable {ns nilPolicy policy : Text} {m : Manifest}

theorem exists_comment_of_mem_policies {comments : List Comment}
    (h : policy ∈ Directive.policies ns comments) :
    ∃ c ∈ comments, Directive.policy? ns c.text = some policy :=
  List.mem_filterMap.1 h

/-- A policy is named by a comment of the manifest. -/
theorem exists_comment_of_namedPolicy? {name text : Text} (hread : read name text = .ok m)
    {r : Requirement} (hr : r ∈ m.requirements) (h : m.namedPolicy? ns r = some policy) :
    ∃ c ∈ physicalComments 1 text.lines, Directive.policy? ns c.text = some policy := by
  obtain ⟨_, _, hplaced⟩ := read_placed hread
  obtain ⟨lines, statements, d, -, -, hd, rfl⟩ := read_eq_ok_iff.1 hread
  have among {s : Statement} (hs : s ∈ statements) {c : Comment} (hc : c ∈ s.allComments) :
      c ∈ physicalComments 1 text.lines :=
    hplaced.comments ▸ List.mem_flatMap.2 ⟨s, hs, hc⟩
  have ofLine {l : Line} (hl : l ∈ d.lines) (hpolicy : l.policy? ns = some policy) :
      ∃ c ∈ physicalComments 1 text.lines, Directive.policy? ns c.text = some policy := by
    obtain ⟨c, hc, hnames⟩ := exists_comment_of_mem_policies (List.mem_of_getLast? hpolicy)
    obtain ⟨s, hs, hl⟩ := List.mem_flatMap.1 (mem_lines_of_declarations hd l hl)
    exact ⟨c, among hs (Statement.mem_allComments_of_line hl hc), hnames⟩
  rw [namedPolicy?, Option.or_eq_some_iff, Option.or_eq_some_iff] at h
  rcases h with hown | ⟨-, hblock | ⟨-, hdefault⟩⟩
  · refine ofLine ?_ hown
    exact List.mem_append_right _ (List.mem_append_right _ (List.mem_map_of_mem hr))
  · obtain ⟨-, b, c, ⟨above, below, hsplit, -⟩, hfirst⟩ := blockPolicy?_eq_some_iff.1 hblock
    obtain ⟨before, after, hcomments, hnames, -⟩ := hfirst
    have hb : .block b ∈ statements := by
      rw [show statements = above ++ .block b :: below from hsplit]
      exact List.mem_append_right _ List.mem_cons_self
    have hc : c ∈ (Statement.block b).allComments := by
      rw [Statement.allComments, Statement.placed, List.map_append, Comments.map_snd_placed]
      exact List.mem_append_left _ (hcomments ▸ List.mem_append_right _ List.mem_cons_self)
    exact ⟨c, among hb hc, hnames⟩
  · obtain ⟨e, he, hpolicy⟩ := Option.bind_eq_some_iff.1 hdefault
    refine ofLine (List.mem_append_left _ ?_) hpolicy
    exact List.mem_map_of_mem (Option.mem_toList.2 he)

/-- A path is denoted by a part of a line. -/
theorem exists_denotes_of_required {name text : Text} (hread : read name text = .ok m)
    {r : Requirement} (hr : r ∈ m.requirements) :
    ∃ token, Denotes token r.path ∧ ∃ t ∈ text.lines, token ⊆ t := by
  obtain ⟨hiff, hdeclares⟩ := read_accepts name text
  obtain ⟨entries, haccepted⟩ := hiff.1 ⟨m, hread⟩
  obtain ⟨-, hdeclared⟩ := hdeclares m entries hread haccepted
  obtain ⟨e, he, hrequires⟩ := exists_of_forall₂_left hdeclared.requirements.flip r hr
  obtain ⟨path, version, harguments, hdenotes, -⟩ := hrequires.arguments
  refine ⟨path, hdenotes, haccepted.walk.forall_arguments exists_subset_of_rows e
    (List.mem_of_mem_filter he) path ?_⟩
  rw [harguments]
  exact List.mem_cons_self

/-- No path and no policy of a manifest that was read from octets has a pair of surrogates. -/
theorem unpaired_of_resolve {octets : List UInt8} {name text : Text} {res : Resolution}
    (hdecode : Utf8.decode octets = .ok text) (hread : read name text = .ok m)
    (hresolve : m.resolve ns nilPolicy = .ok res) :
    ∀ e ∈ res.policies.toList, Quoted.Unpaired e.1 ∧ Quoted.Unpaired e.2 := by
  have hplain {t : Text} (ht : t ∈ text.lines) : ∀ c ∈ t, c.isSurrogate = false :=
    fun c hc => Utf8.noSurrogate_of_decode hdecode c (Text.subset_of_mem_lines ht hc)
  rintro ⟨path, policy⟩ he
  have hvalue : res.policies.get? path = some policy :=
    (Entries.get?_eq_some_iff res.policies.nodup_keys).2 he
  rw [get?_eq_namedPolicy? hresolve, Option.filter_eq_some_iff, Option.bind_eq_some_iff] at hvalue
  obtain ⟨⟨r, hlast, hnamed⟩, -⟩ := hvalue
  obtain ⟨before, after, hsplit, rfl, -⟩ := lastRequiring?_eq_some_iff.1 hlast
  have hr : r ∈ m.requirements := hsplit ▸ List.mem_append_right _ List.mem_cons_self
  obtain ⟨token, hdenotes, t, ht, htoken⟩ := exists_denotes_of_required hread hr
  obtain ⟨c, hc, hnames⟩ := exists_comment_of_namedPolicy? hread hr hnamed
  obtain ⟨u, hu, hcomment⟩ := exists_subset_of_mem_physicalComments c hc
  refine ⟨hdenotes.unpaired fun x hx => hplain ht x (htoken hx),
    Quoted.unpaired_of_noSurrogate fun x hx => ?_⟩
  exact hplain hu x (hcomment (Directive.subset_of_policy? hnames hx))

end Manifest

end ManifestPolicy
