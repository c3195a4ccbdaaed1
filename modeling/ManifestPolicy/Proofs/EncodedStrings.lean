import ManifestPolicy.Proofs.Acceptance
import ManifestPolicy.Proofs.Directives
import Mathlib.Algebra.Group.Nat.Defs
import Mathlib.Data.List.Chain

/-!
# Strings that were written

A text that is written as a string is read back as itself, whatever is in it: quotes and escape
marks, code points below the space, ends of lines, and those that take two units. The only
texts that are not read back are those with a high surrogate directly before a low one, which
reading takes for one code point.

The string is ASCII without a single end of a line, and in a line of a manifest it is one token
whatever follows it. So it can stand wherever a path can.

## Main definitions

* `Quoted.pointItems`: the items that a code point is written as.
* `Quoted.Unpaired`: no high surrogate stands directly before a low one.

## Main statements

* `Quoted.spellsAll_encodePoint`: what is written for a code point is the spelling of its items.
* `Quoted.decode?_encode`: a text without pairs of surrogates is read back.
* `Manifest.cuts_string`: a string is a token, whatever follows it.
-/

namespace ManifestPolicy

theorem hexValue?_hexDigit {n : Nat} (h : n < 16) :
    (CodePoint.hexDigit n).hexValue? = some n := by
  have hall : ∀ d < 16, (CodePoint.hexDigit d).hexValue? = some d := by decide
  exact hall n h

/-- The digits of a number are read back, where they are enough of them. -/
theorem Text.hexValue?_hexDigits {width n : Nat} (h : n < 16 ^ width) :
    Text.hexValue? (Text.hexDigits width n) = some n := by
  induction width generalizing n with
  | zero =>
    rw [Nat.pow_zero, Nat.lt_one_iff] at h
    rw [h]
    rfl
  | succ width ih =>
    have hhigh : n / 16 < 16 ^ width := Nat.div_lt_of_lt_mul (by rwa [Nat.pow_succ'] at h)
    have hlow : n % 16 < 16 := Nat.mod_lt n (by decide)
    have hfirst := ih hhigh
    rw [Text.hexValue?] at hfirst ⊢
    rw [Text.hexDigits, List.foldl_append, hfirst]
    simp [hexValue?_hexDigit hlow, Nat.div_add_mod']

namespace Quoted

/-- The items that a code point is written as: itself or a short escape, the escape of its
number, or the escapes of its two units. -/
def pointItems (c : CodePoint) : List Item :=
  if c = '"' ∨ c = '\\' ∨ c = '\n' ∨ c = '\r' ∨ c = '\t' ∨ c.val = 0x08 ∨ c.val = 0x0C ∨
      c.between 0x20 0x7E = true then [.plain c]
  else if c.val < 0x10000 then [.escape c]
  else [.escape (CodePoint.ofNat (0xD800 + (c.val - 0x10000) / 0x400)),
    .escape (CodePoint.ofNat (0xDC00 + (c.val - 0x10000) % 0x400))]

theorem SpellsAll.append {s t : Text} {items more : List Item} (hs : SpellsAll s items)
    (ht : SpellsAll t more) : SpellsAll (s ++ t) (items ++ more) := by
  induction hs with
  | nil => exact ht
  | cons first _ ih => rw [List.append_assoc]; exact .cons first ih

theorem Spells.single {s : Text} {item : Item} (h : Spells s item) : SpellsAll s [item] := by
  simpa using SpellsAll.cons h .nil

theorem spells_unitEscape {n : Nat} (h : n < 0x10000) :
    Spells (unitEscape n) (.escape (CodePoint.ofNat n)) := by
  have hdigits : n < 16 ^ 4 := h
  exact .unit (Text.hexValue?_hexDigits hdigits)

/-- The two units of a code point that takes two. -/
theorem units_lt {c : CodePoint} (h : 0x10000 ≤ c.val) :
    0xD800 + (c.val - 0x10000) / 0x400 ≤ 0xDBFF ∧ 0xDC00 + (c.val - 0x10000) % 0x400 ≤ 0xDFFF := by
  have hlt := c.isLt
  omega

/-- What is written for a code point is the spelling of its items. -/
theorem spellsAll_encodePoint (c : CodePoint) : SpellsAll (encodePoint c) (pointItems c) := by
  have short {e : CodePoint} (hletter : shortEscape? e = some c)
      (hitems : pointItems c = [.plain c]) : SpellsAll ['\\', e] (pointItems c) :=
    hitems ▸ (Spells.short hletter).single
  rw [encodePoint]
  by_cases hquote : c = '"'
  · rw [if_pos hquote]
    exact short (e := '"') (by rw [hquote]; rfl) (if_pos (.inl hquote))
  by_cases hescape : c = '\\'
  · rw [if_neg hquote, if_pos hescape]
    exact short (e := '\\') (by rw [hescape]; rfl) (if_pos (.inr (.inl hescape)))
  rw [if_neg hquote, if_neg hescape]
  by_cases hfeed : c = '\n'
  · rw [if_pos hfeed]
    exact short (hfeed ▸ rfl) (if_pos (.inr (.inr (.inl hfeed))))
  by_cases hreturn : c = '\r'
  · rw [if_neg hfeed, if_pos hreturn]
    exact short (hreturn ▸ rfl) (if_pos (.inr (.inr (.inr (.inl hreturn)))))
  by_cases htab : c = '\t'
  · rw [if_neg hfeed, if_neg hreturn, if_pos htab]
    exact short (htab ▸ rfl) (if_pos (.inr (.inr (.inr (.inr (.inl htab))))))
  rw [if_neg hfeed, if_neg hreturn, if_neg htab]
  by_cases hback : c.val = 0x08
  · rw [if_pos hback]
    exact short (congrArg some (CodePoint.eq_of_val_eq hback.symm))
      (if_pos (.inr (.inr (.inr (.inr (.inr (.inl hback)))))))
  by_cases hform : c.val = 0x0C
  · rw [if_neg hback, if_pos hform]
    exact short (congrArg some (CodePoint.eq_of_val_eq hform.symm))
      (if_pos (.inr (.inr (.inr (.inr (.inr (.inr (.inl hform))))))))
  rw [if_neg hback, if_neg hform]
  by_cases hvisible : c.between 0x20 0x7E = true
  · have hlow : 0x20 ≤ c.val := by
      simp only [CodePoint.between, Bool.and_eq_true, decide_eq_true_eq] at hvisible
      exact hvisible.1
    rw [if_pos hvisible, pointItems,
      if_pos (.inr (.inr (.inr (.inr (.inr (.inr (.inr hvisible)))))))]
    exact (Spells.plain hquote hescape hlow).single
  have hspecial : ¬ (c = '"' ∨ c = '\\' ∨ c = '\n' ∨ c = '\r' ∨ c = '\t' ∨ c.val = 0x08 ∨
      c.val = 0x0C ∨ c.between 0x20 0x7E = true) := by
    rintro (h | h | h | h | h | h | h | h) <;> contradiction
  rw [if_neg hvisible, pointItems, if_neg hspecial]
  by_cases hunit : c.val < 0x10000
  · have hpoint : CodePoint.ofNat c.val = c :=
      CodePoint.eq_of_val_eq (CodePoint.val_ofNat c.isLt)
    rw [if_pos hunit, if_pos hunit]
    simpa only [hpoint] using (spells_unitEscape hunit).single
  · obtain ⟨hhigh, hlow⟩ := units_lt (Nat.le_of_not_lt hunit)
    rw [if_neg hunit, if_neg hunit]
    exact (spells_unitEscape (by omega)).single.append (spells_unitEscape (by omega)).single

theorem spellsAll_encode (t : Text) :
    SpellsAll (t.flatMap encodePoint) (t.flatMap pointItems) := by
  induction t with
  | nil => exact .nil
  | cons c t ih =>
    rw [List.flatMap_cons, List.flatMap_cons]
    exact (spellsAll_encodePoint c).append ih

/-- No high surrogate stands directly before a low one. -/
def Unpaired (t : Text) : Prop :=
  t.IsChain fun c d => ¬ (c.isHighSurrogate = true ∧ d.isLowSurrogate = true)

theorem joinItems_plain (c : CodePoint) (items : List Item) :
    joinItems (.plain c :: items) = c :: joinItems items := by
  rw [joinItems.eq_def]
  simp [Item.point]

/-- An escape stands for itself, unless it is the first of a pair. -/
theorem joinItems_escape {c : CodePoint} {items : List Item}
    (h : ∀ d more, items = .escape d :: more →
      ¬ (c.isHighSurrogate = true ∧ d.isLowSurrogate = true)) :
    joinItems (.escape c :: items) = c :: joinItems items := by
  match items with
  | [] => rfl
  | .plain d :: more => simp [joinItems, Item.point]
  | .escape d :: more =>
    have hpair := h d more rfl
    rw [joinItems, if_neg (by simpa using hpair)]

/-- The escapes of the units of a code point are joined to it. -/
theorem joinItems_pair {c : CodePoint} (h : 0x10000 ≤ c.val) (items : List Item) :
    joinItems (.escape (CodePoint.ofNat (0xD800 + (c.val - 0x10000) / 0x400)) ::
      .escape (CodePoint.ofNat (0xDC00 + (c.val - 0x10000) % 0x400)) :: items) =
      c :: joinItems items := by
  obtain ⟨hhigh, hlow⟩ := units_lt h
  have hpair : pairPoint (CodePoint.ofNat (0xD800 + (c.val - 0x10000) / 0x400))
      (CodePoint.ofNat (0xDC00 + (c.val - 0x10000) % 0x400)) = c := by
    rw [pairPoint, CodePoint.val_ofNat (by omega), CodePoint.val_ofNat (by omega)]
    apply CodePoint.eq_of_val_eq
    have hlt := c.isLt
    rw [CodePoint.val_ofNat (by omega)]
    omega
  have hunits : ((CodePoint.ofNat (0xD800 + (c.val - 0x10000) / 0x400)).isHighSurrogate &&
      (CodePoint.ofNat (0xDC00 + (c.val - 0x10000) % 0x400)).isLowSurrogate) = true := by
    simp only [CodePoint.isHighSurrogate, CodePoint.isLowSurrogate, CodePoint.between,
      CodePoint.val_ofNat (show 0xD800 + (c.val - 0x10000) / 0x400 < 0x110000 by omega),
      CodePoint.val_ofNat (show 0xDC00 + (c.val - 0x10000) % 0x400 < 0x110000 by omega),
      Bool.and_eq_true, decide_eq_true_eq]
    omega
  rw [joinItems, if_pos hunits, hpair]

/-- The items of a text start with an escape of a low surrogate only where the text starts with
that surrogate. -/
theorem isLowSurrogate_of_pointItems {c d : CodePoint} {items more : List Item}
    (h : pointItems c ++ items = .escape d :: more) (hd : d.isLowSurrogate = true) :
    c.isLowSurrogate = true := by
  simp only [pointItems] at h
  split_ifs at h with hplain hunit
  · simp at h
  · simp only [List.singleton_append, List.cons.injEq, Item.escape.injEq] at h
    exact h.1 ▸ hd
  · simp only [List.cons_append, List.cons.injEq, Item.escape.injEq] at h
    obtain ⟨hhigh, -⟩ := units_lt (Nat.le_of_not_lt hunit)
    rw [← h.1, CodePoint.isLowSurrogate, CodePoint.between, CodePoint.val_ofNat (by omega)] at hd
    simp only [Bool.and_eq_true, decide_eq_true_eq] at hd
    omega

/-- The items of a text are joined to the text. A code point of two units is joined again, and
an escape of a surrogate finds no partner after it. -/
theorem joinItems_pointItems {t : Text} (h : Unpaired t) :
    joinItems (t.flatMap pointItems) = t := by
  induction t with
  | nil => rfl
  | cons c t ih =>
    have hrest := ih (List.IsChain.tail h)
    rw [List.flatMap_cons, pointItems]
    split_ifs with hplain hunit
    · rw [List.singleton_append, joinItems_plain, hrest]
    · rw [List.singleton_append, joinItems_escape, hrest]
      rintro d more hitems ⟨hc, hd⟩
      cases t with
      | nil => simp at hitems
      | cons e t =>
        rw [List.flatMap_cons] at hitems
        have hchain := (List.isChain_cons_cons.1 h).1
        exact hchain ⟨hc, isLowSurrogate_of_pointItems hitems hd⟩
    · rw [List.cons_append, List.singleton_append, joinItems_pair (Nat.le_of_not_lt hunit), hrest]

theorem unpaired_of_noSurrogate {t : Text} (h : ∀ c ∈ t, c.isSurrogate = false) : Unpaired t := by
  refine List.Pairwise.isChain (List.pairwise_of_forall_mem_list fun c hc d _ ⟨hhigh, _⟩ => ?_)
  have hsurrogate := h c hc
  simp only [CodePoint.isHighSurrogate, CodePoint.isSurrogate, CodePoint.between,
    Bool.and_eq_true, Bool.and_eq_false_iff, decide_eq_true_eq, decide_eq_false_iff_not]
    at hhigh hsurrogate
  omega

/-- A text without pairs of surrogates is read back from its string. -/
theorem decode?_encode {t : Text} (h : Unpaired t) : decode? (encode t) = some t :=
  decode?_eq_some_iff.2 ⟨_, _, rfl, spellsAll_encode t, (joinItems_pointItems h).symm⟩

/-- Visible ASCII, or a space. -/
def Visible (t : Text) : Prop := ∀ c ∈ t, c.between 0x20 0x7E = true

instance (t : Text) : Decidable (Visible t) :=
  inferInstanceAs (Decidable (∀ c ∈ t, c.between 0x20 0x7E = true))

theorem Visible.append {s t : Text} (hs : Visible s) (ht : Visible t) : Visible (s ++ t) := by
  intro c hc
  rcases List.mem_append.1 hc with hc | hc
  · exact hs c hc
  · exact ht c hc

theorem Visible.oneLine {t : Text} (h : Visible t) : t.OneLine := by
  intro c hc
  have hbetween := h c hc
  rw [Bool.eq_false_iff]
  intro hend
  have hmem : c.val ∈ lineEnds := List.contains_iff_mem.1 hend
  simp only [CodePoint.between, Bool.and_eq_true, decide_eq_true_eq] at hbetween
  simp only [lineEnds, List.mem_cons, List.not_mem_nil, or_false] at hmem
  omega

theorem visible_hexDigits (width n : Nat) : Visible (Text.hexDigits width n) := by
  induction width generalizing n with
  | zero => simp [Text.hexDigits, Visible]
  | succ width ih =>
    have hall : ∀ d < 16, Visible [CodePoint.hexDigit d] := by decide
    exact (ih _).append (hall _ (Nat.mod_lt n (by decide)))

theorem visible_unitEscape (n : Nat) : Visible (unitEscape n) :=
  Visible.append (s := ['\\', 'u']) (by decide) (visible_hexDigits 4 n)

theorem Visible.ite {p : Prop} [Decidable p] {s t : Text} (hs : p → Visible s)
    (ht : ¬ p → Visible t) : Visible (if p then s else t) := by
  by_cases h : p
  · rw [if_pos h]
    exact hs h
  · rw [if_neg h]
    exact ht h

theorem visible_encodePoint (c : CodePoint) : Visible (encodePoint c) := by
  rw [encodePoint]
  iterate 7 refine .ite (fun _ => by decide) fun _ => ?_
  refine .ite (fun hvisible => ?_) fun _ => .ite (fun _ => visible_unitEscape _) fun _ =>
    (visible_unitEscape _).append (visible_unitEscape _)
  intro d hd
  rw [List.mem_singleton.1 hd]
  exact hvisible

theorem visible_encode (t : Text) : Visible (encode t) := by
  have hquote : Visible [('"' : CodePoint)] := by decide
  refine (hquote.append fun c hc => ?_).append hquote
  obtain ⟨d, -, hc⟩ := List.mem_flatMap.1 hc
  exact visible_encodePoint d c hc

end Quoted

namespace Manifest

/-- A digit is neither the quote nor the escape mark. -/
theorem ne_of_hexValue? {c : CodePoint} (h : c.hexValue?.isSome = true) :
    c ≠ quotation ∧ c ≠ backslash := by
  constructor
  all_goals
    rintro rfl
    exact absurd h (by decide)

theorem isSome_of_hexValue? {t : Text} {n : Nat} (h : Text.hexValue? t = some n) :
    ∀ c ∈ t, c.hexValue?.isSome = true := by
  suffices ∀ (t : Text) (value : Option Nat),
      t.foldl (fun acc c => do return (← acc) * 16 + (← c.hexValue?)) value = some n →
        value.isSome = true ∧ ∀ c ∈ t, c.hexValue?.isSome = true from
    (this t (some 0) h).2
  intro t
  induction t with
  | nil => intro value hvalue; simpa using Option.isSome_of_mem hvalue
  | cons c t ih =>
    intro value hvalue
    obtain ⟨hfirst, hrest⟩ := ih _ hvalue
    obtain ⟨m, hm⟩ := Option.isSome_iff_exists.1 hfirst
    simp only [bind, Option.bind_eq_some_iff] at hm
    obtain ⟨a, hvalue, d, hd, -⟩ := hm
    exact ⟨Option.isSome_of_mem hvalue, List.forall_mem_cons.2 ⟨Option.isSome_of_mem hd, hrest⟩⟩

/-- An item is passed over on the way to the closing quote. -/
theorem cutQuoted_spells {s : Text} {item : Quoted.Item} (h : Quoted.Spells s item) (rest : Text) :
    cutQuoted quotation false (s ++ rest) =
      (cutQuoted quotation false rest).map fun cut => (s ++ cut.1, cut.2) := by
  have plain {c : CodePoint} (hc : c ≠ quotation ∧ c ≠ backslash) (t : Text) :
      cutQuoted quotation false (c :: t) =
        (cutQuoted quotation false t).map fun cut => (c :: cut.1, cut.2) := by
    simp [cutQuoted, hc]
  have escape (e : CodePoint) (t : Text) :
      cutQuoted quotation false (('\\' : CodePoint) :: e :: t) =
        (cutQuoted quotation false t).map fun cut => (('\\' : CodePoint) :: e :: cut.1, cut.2) := by
    have hmark : ('\\' : CodePoint) = backslash := by decide
    simp [cutQuoted, hmark, Function.comp_def]
  cases h with
  | plain noQuote noEscape visible => exact plain ⟨noQuote, noEscape⟩ rest
  | short letter => exact escape _ rest
  | unit digits =>
    have hdigit := fun c hc => ne_of_hexValue? (isSome_of_hexValue? digits c hc)
    simp only [List.mem_cons, List.not_mem_nil, or_false, forall_eq_or_imp, forall_eq] at hdigit
    obtain ⟨h₁, h₂, h₃, h₄⟩ := hdigit
    simp [escape, plain, h₁, h₂, h₃, h₄, Function.comp_def]

theorem cutQuoted_spellsAll {body : Text} {items : List Quoted.Item}
    (h : Quoted.SpellsAll body items) (rest : Text) :
    cutQuoted quotation false (body ++ ('"' : CodePoint) :: rest) =
      some (body ++ [('"' : CodePoint)], rest) := by
  induction h with
  | nil => rfl
  | cons first _ ih => rw [List.append_assoc, cutQuoted_spells first, ih]; simp

/-- A string is a token, whatever follows it. -/
theorem cuts_string {body : Text} {items : List Quoted.Item} (h : Quoted.SpellsAll body items)
    (rest : Text) : Cuts (('"' : CodePoint) :: (body ++ [('"' : CodePoint)])) rest := by
  have hquote : isParen '"' = false ∧ isQuote '"' = true := by decide
  refine ⟨⟨_, _, rfl, by decide⟩, startsWith_commentMarker_of_ne (by decide) _, ?_⟩
  rw [List.cons_append, List.append_assoc, List.singleton_append, cutToken, hquote.1, hquote.2]
  have hcut : cutQuoted '"' false (body ++ ('"' : CodePoint) :: rest) =
      some (body ++ [('"' : CodePoint)], rest) := cutQuoted_spellsAll h rest
  simp [hcut]

end Manifest

end ManifestPolicy
