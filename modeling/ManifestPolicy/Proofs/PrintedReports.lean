import ManifestPolicy.Proofs.Provenance
import ManifestPolicy.Report

/-!
# What a report says

A report says which mapping it was printed from. Each entry is written with two strings between
fixed texts, and a string ends at its own closing quote, whatever is in it; so an entry can be told
from what is written after it, and a list of entries from the report of the list. The order of the
entries is that of their paths, and the order in which the mapping was filled does not show.

For the strings alone this needs that no text has a pair of surrogates in it, as the string of
such a pair is that of the code point they stand for. Everything else holds of all mappings: the
reports are ASCII, and the text form has one line for each path.

## Main definitions

* `Format.opening`, `Format.entry`, `Format.separator`, `Format.closing`: the parts of a report.
* `Delimits`: what is written for an entry can be told from what follows it.
* `Readable`: the path and the policy have no pair of surrogates in them.

## Main statements

* `renderEntries_inj`: a report determines the entries it was printed from.
* `lines_render`: the lines of the text form.
* `render_determines`: a report determines the mapping, and no entry can be mistaken for another.
-/

namespace ManifestPolicy

namespace Text

theorem join_cons (separator t : Text) (rest : List Text) :
    join separator (t :: rest) = t ++ rest.flatMap fun u => separator ++ u := by
  induction rest generalizing t with
  | nil => simp [join]
  | cons u rest ih => rw [join, ih, List.flatMap_cons, List.append_assoc, List.append_assoc]

/-- Texts with line feeds between them are made of these texts as lines. -/
theorem madeOf_join (ls : List Text) : (join (ofString "\n") ls).MadeOf ls := by
  cases ls with
  | nil => exact .inl rfl
  | cons l ls =>
    right
    rw [join_cons]
    induction ls generalizing l with
    | nil => simp [ofLines]
    | cons k ls ih =>
      have hfeed : ofString "\n" = [('\n' : CodePoint)] := rfl
      have hrest := ih k
      rw [hfeed, ofLines] at hrest ⊢
      rw [List.flatMap_cons, List.flatMap_cons, ← hrest]
      simp

/-- All code points are ASCII. -/
def Ascii (t : Text) : Prop := ∀ c ∈ t, c.val < 0x80

end Text

namespace Quoted

/-- A string ends at its closing quote, so it can be told from what follows it, and it is read
back. -/
theorem encode_append_inj {s t rest more : Text} (hs : Unpaired s) (ht : Unpaired t)
    (h : encode s ++ rest = encode t ++ more) : s = t ∧ rest = more := by
  have hcut (u tail : Text) :
      Manifest.cutQuoted quotation false ((encode u ++ tail).tail) =
        some ((encode u).tail, tail) := by
    have hall := Manifest.cutQuoted_spellsAll (spellsAll_encode u) tail
    simpa [encode] using hall
  have hsplit := hcut s rest
  rw [h, hcut t more, Option.some.injEq, Prod.mk.injEq] at hsplit
  obtain ⟨hstrings, hrest⟩ := hsplit
  have hencode : encode s = encode t := by
    rw [encode, encode] at hstrings ⊢
    exact congrArg (('"' : CodePoint) :: ·) hstrings.symm
  have hdecode := decode?_encode hs
  rw [hencode, decode?_encode ht, Option.some.injEq] at hdecode
  exact ⟨hdecode.symm, hrest.symm⟩

end Quoted

/-- Entries with different keys are those of their mapping, in some order. -/
theorem Dictionary.perm_toList_ofList {α : Type} {entries : List (Text × α)}
    (h : (entries.map Prod.fst).Nodup) : entries.Perm (ofList entries).toList := by
  have hkeys := (ofList entries).nodup_keys
  refine (List.perm_ext_iff_of_nodup (h.of_map _) (hkeys.of_map _)).2 fun e => ?_
  exact (get?_ofList_eq_some_iff h).symm.trans (Entries.get?_eq_some_iff hkeys)

theorem Dictionary.ofList_eq_ofList_iff {α : Type} {first second : List (Text × α)}
    (hfirst : (first.map Prod.fst).Nodup) (hsecond : (second.map Prod.fst).Nodup) :
    ofList first = ofList second ↔ first.Perm second := by
  have hperm := perm_toList_ofList hfirst
  constructor
  · intro h
    rw [h] at hperm
    exact hperm.trans (perm_toList_ofList hsecond).symm
  · intro h
    exact ofList_of_perm (h.trans (perm_toList_ofList hsecond))

namespace Report

/-- What is written for an entry. -/
def Format.entry : Format → Text × Text → Text
  | .json => member
  | .text => sentence

/-- What is written before the first entry. -/
def Format.opening : Format → Text
  | .json => "\x7b\n"
  | .text => []

/-- What is written between two entries. -/
def Format.separator : Format → Text
  | .json => ",\n"
  | .text => "\n"

/-- What is written after the last entry. -/
def Format.closing : Format → Text
  | .json => "\n\x7d"
  | .text => []

/-- The report of some entries, part by part. -/
theorem renderEntries_cons (format : Format) (e : Text × Text) (rest : List (Text × Text)) :
    renderEntries format (e :: rest) =
      format.opening ++ (format.entry e ++
        (rest.flatMap (fun f => format.separator ++ format.entry f) ++ format.closing)) := by
  cases format with
  | json =>
    rw [renderEntries, List.map_cons, Text.join_cons, List.flatMap_map]
    simp [Format.opening, Format.entry, Format.separator, Format.closing]
  | text =>
    rw [renderEntries, List.map_cons, Text.join_cons, List.flatMap_map]
    simp [Format.opening, Format.entry, Format.separator, Format.closing]

/-- The path and the policy have no pair of surrogates in them. -/
def Readable (e : Text × Text) : Prop := Quoted.Unpaired e.1 ∧ Quoted.Unpaired e.2

instance (e : Text × Text) : Decidable (Readable e) :=
  inferInstanceAs (Decidable (List.IsChain _ e.1 ∧ List.IsChain _ e.2))

/-- What is written for an entry can be told from what is written after it, and says which entry
it is. -/
def Delimits (write : Text × Text → Text) : Prop :=
  ∀ e f rest more, Readable e → Readable f → write e ++ rest = write f ++ more →
    e = f ∧ rest = more

/-- Two strings between fixed texts can be told from what follows. -/
theorem delimits_of_strings {write : Text × Text → Text} (opening middle : Text)
    (hwrite : ∀ e, write e = opening ++ Quoted.encode e.1 ++ middle ++ Quoted.encode e.2) :
    Delimits write := by
  intro e f rest more he hf h
  rw [hwrite, hwrite] at h
  simp only [List.append_assoc, List.append_cancel_left_eq] at h
  obtain ⟨hpath, hafter⟩ := Quoted.encode_append_inj he.1 hf.1 h
  rw [List.append_cancel_left_eq] at hafter
  obtain ⟨hpolicy, hrest⟩ := Quoted.encode_append_inj he.2 hf.2 hafter
  exact ⟨Prod.ext hpath hpolicy, hrest⟩

theorem delimits_entry (format : Format) : Delimits format.entry := by
  cases format with
  | json => exact delimits_of_strings (Text.ofString "  ") (Text.ofString ": ") fun _ => rfl
  | text =>
    exact delimits_of_strings (Text.ofString "module ") (Text.ofString " has policy ")
      fun _ => rfl

/-- What follows the last entry is not taken for a separator. -/
theorem separator_append_ne_closing (format : Format) (t : Text) :
    format.separator ++ t ≠ format.closing := by
  cases format with
  | json =>
    intro h
    exact absurd (List.cons.inj h).1 (by decide)
  | text =>
    intro h
    cases h

/-- What is written after the first entry determines the other entries. -/
theorem flatMap_entry_inj {format : Format} {first second : List (Text × Text)}
    (hfirst : ∀ e ∈ first, Readable e) (hsecond : ∀ e ∈ second, Readable e)
    (h : first.flatMap (fun e => format.separator ++ format.entry e) ++ format.closing =
      second.flatMap (fun e => format.separator ++ format.entry e) ++ format.closing) :
    first = second := by
  induction first generalizing second with
  | nil =>
    cases second with
    | nil => rfl
    | cons f second =>
      rw [List.flatMap_nil, List.nil_append, List.flatMap_cons, List.append_assoc,
        List.append_assoc] at h
      exact absurd h.symm (separator_append_ne_closing format _)
  | cons e first ih =>
    cases second with
    | nil =>
      rw [List.flatMap_nil, List.nil_append, List.flatMap_cons, List.append_assoc,
        List.append_assoc] at h
      exact absurd h (separator_append_ne_closing format _)
    | cons f second =>
      rw [List.forall_mem_cons] at hfirst hsecond
      simp only [List.flatMap_cons, List.append_assoc, List.append_cancel_left_eq] at h
      obtain ⟨hentry, hrest⟩ := delimits_entry format e f _ _ hfirst.1 hsecond.1 h
      rw [hentry, ih hfirst.2 hsecond.2 hrest]

/-- The report of no entries is that of no others. -/
theorem renderEntries_nil_ne (format : Format) (e : Text × Text) (rest : List (Text × Text)) :
    renderEntries format [] ≠ renderEntries format (e :: rest) := by
  rw [renderEntries_cons]
  cases format with
  | json =>
    intro h
    exact absurd (List.cons.inj (List.cons.inj h).2).1 (by decide)
  | text =>
    intro h
    cases h

/-- A report determines the entries it was printed from. -/
theorem renderEntries_inj {format : Format} {first second : List (Text × Text)}
    (hfirst : ∀ e ∈ first, Readable e) (hsecond : ∀ e ∈ second, Readable e)
    (h : renderEntries format first = renderEntries format second) : first = second := by
  cases first with
  | nil =>
    cases second with
    | nil => rfl
    | cons f second => exact absurd h (renderEntries_nil_ne format f second)
  | cons e first =>
    cases second with
    | nil => exact absurd h.symm (renderEntries_nil_ne format e first)
    | cons f second =>
      rw [List.forall_mem_cons] at hfirst hsecond
      rw [renderEntries_cons, renderEntries_cons, List.append_cancel_left_eq] at h
      obtain ⟨hentry, hrest⟩ := delimits_entry format e f _ _ hfirst.1 hsecond.1 h
      rw [hentry, flatMap_entry_inj hfirst.2 hsecond.2 hrest]

theorem visible_sentence (e : Text × Text) : Quoted.Visible (sentence e) := by
  have hopening : Quoted.Visible (Text.ofString "module ") := by decide
  have hmiddle : Quoted.Visible (Text.ofString " has policy ") := by decide
  exact ((hopening.append (Quoted.visible_encode _)).append hmiddle).append
    (Quoted.visible_encode _)

theorem visible_member (e : Text × Text) : Quoted.Visible (member e) := by
  have hopening : Quoted.Visible (Text.ofString "  ") := by decide
  have hmiddle : Quoted.Visible (Text.ofString ": ") := by decide
  exact ((hopening.append (Quoted.visible_encode _)).append hmiddle).append
    (Quoted.visible_encode _)

theorem visible_entry (format : Format) (e : Text × Text) : Quoted.Visible (format.entry e) := by
  cases format with
  | json => exact visible_member e
  | text => exact visible_sentence e

/-- Everything in a report is visible, but for the line feeds between its lines. -/
theorem visible_or_feed_of_mem_renderEntries {format : Format} {entries : List (Text × Text)}
    {c : CodePoint} (h : c ∈ renderEntries format entries) :
    c.between 0x20 0x7E = true ∨ c = '\n' := by
  have hfixed : ∀ d ∈ format.opening ++ format.separator ++ format.closing,
      d.between 0x20 0x7E = true ∨ d = '\n' := by cases format <;> decide
  simp only [List.forall_mem_append] at hfixed
  obtain ⟨⟨hopening, hseparator⟩, hclosing⟩ := hfixed
  cases entries with
  | nil =>
    have hnone : ∀ d ∈ renderEntries format [], d.between 0x20 0x7E = true ∨ d = '\n' := by
      cases format <;> decide
    exact hnone c h
  | cons e rest =>
    rw [renderEntries_cons] at h
    simp only [List.mem_append, List.mem_flatMap] at h
    obtain h | h | ⟨f, -, h | h⟩ | h := h
    · exact hopening c h
    · exact .inl (visible_entry format e c h)
    · exact hseparator c h
    · exact .inl (visible_entry format f c h)
    · exact hclosing c h

theorem ascii_renderEntries (format : Format) (entries : List (Text × Text)) :
    (renderEntries format entries).Ascii := by
  intro c hc
  rcases visible_or_feed_of_mem_renderEntries hc with hvisible | rfl
  · simp only [CodePoint.between, Bool.and_eq_true, decide_eq_true_eq] at hvisible
    omega
  · decide

/-- The text form has one line for each entry, in order. -/
theorem lines_render (policies : Dictionary Text) :
    (render policies .text).lines = policies.toList.map sentence := by
  refine Text.lines_of_madeOf (List.forall_mem_map.2 fun e _ => ?_) (Text.madeOf_join _)
  exact ⟨(visible_sentence e).oneLine, by simp [sentence, Text.ofString]⟩

/-- A line of the text form says of an entry that it is there. -/
theorem sentence_mem_lines_iff {policies : Dictionary Text} (h : ∀ e ∈ policies.toList, Readable e)
    {e : Text × Text} (he : Readable e) :
    sentence e ∈ (render policies .text).lines ↔ e ∈ policies.toList := by
  rw [lines_render, List.mem_map]
  constructor
  · rintro ⟨f, hf, hsentence⟩
    have hsame : sentence f ++ [] = sentence e ++ [] := congrArg (· ++ []) hsentence
    exact (delimits_entry .text f e [] [] (h f hf) he hsame).1 ▸ hf
  · exact fun hmem => ⟨e, hmem, rfl⟩

/-- **A report determines its mapping.** Two mappings, given by their entries in any order, have the
same report in a form exactly where they are the same mapping. A report is ASCII, and the text
form has one line for each path, in the order of the paths; it has the line of an entry exactly
where the mapping has the entry. All this is about texts without pairs of surrogates, and what a
manifest resolves to that was read from octets has no others. -/
theorem render_determines {first second : List (Text × Text)}
    (hfirst : (first.map Prod.fst).Nodup) (hsecond : (second.map Prod.fst).Nodup)
    (hreadable : ∀ e ∈ first ++ second, Readable e) :
    (∀ format, render (.ofList first) format = render (.ofList second) format ↔
      first.Perm second) ∧
    (∀ policies format, (render policies format).Ascii) ∧
    (∀ policies, (render policies .text).lines = policies.toList.map sentence ∧
      Entries.Sorted policies.toList) ∧
    (first.Perm (Dictionary.ofList first).toList ∧
      ∀ e, Readable e → (sentence e ∈ (render (.ofList first) .text).lines ↔ e ∈ first)) ∧
    ∀ octets name text m ns nilPolicy res, Utf8.decode octets = .ok text →
      Manifest.read name text = .ok m → m.resolve ns nilPolicy = .ok res →
      ∀ e ∈ res.policies.toList, Readable e := by
  rw [List.forall_mem_append] at hreadable
  have hperm := Dictionary.perm_toList_ofList hfirst
  have hperm' := Dictionary.perm_toList_ofList hsecond
  have hentries : ∀ e ∈ (Dictionary.ofList first).toList, Readable e :=
    fun e he => hreadable.1 e (hperm.mem_iff.2 he)
  have hentries' : ∀ e ∈ (Dictionary.ofList second).toList, Readable e :=
    fun e he => hreadable.2 e (hperm'.mem_iff.2 he)
  refine ⟨fun format => ?_, fun policies format => ascii_renderEntries format _,
    fun policies => ⟨lines_render policies, policies.sorted⟩, ⟨hperm, fun e he => ?_⟩, ?_⟩
  · rw [← Dictionary.ofList_eq_ofList_iff hfirst hsecond]
    constructor
    · intro h
      exact Dictionary.ext_entries (renderEntries_inj hentries hentries' h)
    · intro h
      rw [h]
  · exact (sentence_mem_lines_iff hentries he).trans hperm.mem_iff.symm
  · intro octets name text m ns nilPolicy res hdecode hread hresolve
    exact Manifest.unpaired_of_resolve hdecode hread hresolve

/-- A path that imitates the text around it, a policy with the end of a line in it, and one that is
a single surrogate. The second list has the same entries in the other order, the third has one
less. -/
theorem render_determines_sample :
    ∃ first second third : List (Text × Text),
      first = [(Text.ofString "b", Text.ofString "p\nmodule \"c\""),
        (Text.ofString "a\" has policy \"", [CodePoint.ofNat 0xD83D])] ∧
      second = [(Text.ofString "a\" has policy \"", [CodePoint.ofNat 0xD83D]),
        (Text.ofString "b", Text.ofString "p\nmodule \"c\"")] ∧
      third = [(Text.ofString "b", Text.ofString "p\nmodule \"c\"")] ∧
      ((first.map Prod.fst).Nodup ∧ (second.map Prod.fst).Nodup ∧ (third.map Prod.fst).Nodup ∧
        ∀ e ∈ first ++ (second ++ third), Readable e) ∧
      (∀ format, render (.ofList first) format = render (.ofList second) format) ∧
      (∀ format, render (.ofList first) format ≠ render (.ofList third) format) ∧
      sentence (Text.ofString "c", Text.ofString "p") ∉
        (render (.ofList first) .text).lines := by
  let e : Text × Text := (Text.ofString "b", Text.ofString "p\nmodule \"c\"")
  let f : Text × Text := (Text.ofString "a\" has policy \"", [CodePoint.ofNat 0xD83D])
  have hfirst : ([e, f].map Prod.fst).Nodup := by decide
  have hsecond : ([f, e].map Prod.fst).Nodup := by decide
  have hthird : ([e].map Prod.fst).Nodup := by decide
  have hreadable : ∀ x ∈ [e, f] ++ ([f, e] ++ [e]), Readable x := by decide
  obtain ⟨hsame, -, -, ⟨-, hforged⟩, -⟩ := render_determines hfirst hsecond fun x hx =>
    hreadable x (List.mem_append_left [e] hx)
  obtain ⟨hdiffer, -⟩ := render_determines hfirst hthird fun x hx => by
    refine hreadable x ?_
    simp only [List.mem_append] at hx ⊢
    exact hx.imp_right .inr
  refine ⟨[e, f], [f, e], [e], rfl, rfl, rfl, ⟨hfirst, hsecond, hthird, hreadable⟩,
    fun format => (hsame format).2 (List.Perm.swap f e []), fun format h => ?_, fun hmem => ?_⟩
  · exact absurd ((hdiffer format).1 h).length_eq (by decide)
  · exact absurd ((hforged _ (by decide)).1 hmem) (by decide)

end Report

end ManifestPolicy
