import ManifestPolicy.Text.Quoted

/-!
# The grammar of quoted strings

Between its quotes a string is a list of items, and an item has one of three forms: a code
point that stands for itself, an escape of one letter, or an escape of four hexadecimal
digits. Reading cuts the items off one by one, and accepts a text exactly where it is
spelled so.

## Main definitions

* `Quoted.Spells`, `Quoted.SpellsAll`: how an item is spelled, and how several are.
* `Quoted.IsString`: a text that is one string, quotes included.

## Main statements

* `Quoted.decode?_eq_some_iff`: what a text stands for, by its spelling.
-/

namespace ManifestPolicy.Quoted

/-- The three forms of an item. -/
inductive Spells : Text → Item → Prop
  | plain {c : CodePoint} (noQuote : c ≠ '"') (noEscape : c ≠ '\\') (visible : 0x20 ≤ c.val) :
      Spells [c] (.plain c)
  | short {e c : CodePoint} (letter : shortEscape? e = some c) : Spells ['\\', e] (.plain c)
  | unit {d₁ d₂ d₃ d₄ : CodePoint} {n : Nat}
      (digits : Text.hexValue? [d₁, d₂, d₃, d₄] = some n) :
      Spells ['\\', 'u', d₁, d₂, d₃, d₄] (.escape (CodePoint.ofNat n))

/-- Items are spelled one after the other. -/
inductive SpellsAll : Text → List Item → Prop
  | nil : SpellsAll [] []
  | cons {s t : Text} {item : Item} {items : List Item} (first : Spells s item)
      (rest : SpellsAll t items) : SpellsAll (s ++ t) (item :: items)

/-- The text is one string, from its opening to its closing quote. -/
def IsString (token : Text) : Prop :=
  ∃ body items, token = ('"' : CodePoint) :: (body ++ [('"' : CodePoint)]) ∧ SpellsAll body items

theorem quote_ne_escape : ('"' : CodePoint) ≠ '\\' := by decide

/-- No item starts with a quote. -/
theorem Spells.head_ne_quote {s : Text} {item : Item} (h : Spells s item) :
    ∃ c t, s = c :: t ∧ c ≠ '"' := by
  cases h with
  | plain noQuote noEscape visible => exact ⟨_, [], rfl, noQuote⟩
  | short letter => exact ⟨_, _, rfl, quote_ne_escape.symm⟩
  | unit digits => exact ⟨_, _, rfl, quote_ne_escape.symm⟩

theorem cutItem?_of_spells {s : Text} {item : Item} (h : Spells s item) (rest : Text) :
    cutItem? (s ++ rest) = some (item, rest) := by
  cases h with
  | plain noQuote noEscape visible =>
    have hvisible : ¬ _ < 0x20 := Nat.not_lt.2 visible
    simp [cutItem?, noQuote, noEscape, hvisible]
  | @short e c letter =>
    have hunit : e ≠ 'u' := by
      rintro rfl
      have hnone : shortEscape? 'u' = none := by decide
      simp [hnone] at letter
    simp [cutItem?, hunit, letter]
  | unit digits => simp [cutItem?, digits]

theorem exists_spells_of_cutItem? {t rest : Text} {item : Item}
    (h : cutItem? t = some (item, rest)) : ∃ s, Spells s item ∧ t = s ++ rest := by
  cases t with
  | nil => simp [cutItem?] at h
  | cons c t =>
    simp only [cutItem?] at h
    split at h
    · next hescape =>
      split at h
      · simp at h
      · next e t =>
        split at h
        · next hunit =>
          split at h
          · next d₁ d₂ d₃ d₄ t =>
            obtain ⟨n, hn, hitem⟩ := Option.map_eq_some_iff.1 h
            cases hitem
            exact ⟨[c, e, d₁, d₂, d₃, d₄], hescape ▸ hunit ▸ .unit hn, rfl⟩
          · simp at h
        · obtain ⟨point, hpoint, hitem⟩ := Option.map_eq_some_iff.1 h
          cases hitem
          exact ⟨[c, e], hescape ▸ .short hpoint, rfl⟩
    · next hescape =>
      split at h
      · simp at h
      · next hplain =>
        simp only [Bool.or_eq_true, decide_eq_true_eq, not_or, Nat.not_lt] at hplain
        cases h
        exact ⟨[c], .plain hplain.1 hescape hplain.2, rfl⟩

/-- The items up to a closing quote are those of a spelling. The induction is on the length
of what is left to read. -/
theorem exists_spellsAll_of_items? {t : Text} {items : List Item} (h : items? t = some items) :
    ∃ body, t = body ++ [('"' : CodePoint)] ∧ SpellsAll body items := by
  induction hn : t.length using Nat.strongRecOn generalizing t items with
  | ind n ih =>
    rw [items?] at h
    split at h
    · next hend =>
      rw [Option.some.injEq] at h
      exact ⟨[], hend, h ▸ .nil⟩
    · split at h
      · simp at h
      · next item rest hcut =>
        obtain ⟨more, hmore, rfl⟩ := Option.map_eq_some_iff.1 h
        have hlt := length_lt_of_cutItem? hcut
        obtain ⟨body, hbody, hspells⟩ := ih rest.length (by omega) hmore rfl
        obtain ⟨s, hs, ht⟩ := exists_spells_of_cutItem? hcut
        exact ⟨s ++ body, by rw [ht, hbody, List.append_assoc], .cons hs hspells⟩

theorem items?_of_spellsAll {body : Text} {items : List Item} (h : SpellsAll body items) :
    items? (body ++ [('"' : CodePoint)]) = some items := by
  induction h with
  | nil =>
    rw [items?]
    simp
  | @cons s t item items first rest ih =>
    obtain ⟨c, u, hs, hc⟩ := first.head_ne_quote
    have hmore : s ++ t ++ [('"' : CodePoint)] ≠ [('"' : CodePoint)] := by
      rw [hs]
      simp [hc]
    have hcut : cutItem? (s ++ t ++ [('"' : CodePoint)]) =
        some (item, t ++ [('"' : CodePoint)]) := by
      rw [List.append_assoc]
      exact cutItem?_of_spells first _
    rw [items?, if_neg hmore]
    split
    · next hnone =>
      rw [hcut] at hnone
      exact absurd hnone (by simp)
    · next item' rest' hsome =>
      rw [hcut, Option.some.injEq, Prod.mk.injEq] at hsome
      rw [← hsome.2, ih, ← hsome.1]
      rfl

/-- **What a string stands for**, by its spelling. -/
theorem decode?_eq_some_iff {token text : Text} :
    decode? token = some text ↔
      ∃ body items, token = ('"' : CodePoint) :: (body ++ [('"' : CodePoint)]) ∧
        SpellsAll body items ∧ text = joinItems items := by
  cases token with
  | nil => simp [decode?]
  | cons c t =>
    by_cases hc : c = '"'
    · rw [decode?, if_pos hc, Option.map_eq_some_iff, hc]
      constructor
      · rintro ⟨items, hitems, rfl⟩
        obtain ⟨body, rfl, hspells⟩ := exists_spellsAll_of_items? hitems
        exact ⟨body, items, rfl, hspells, rfl⟩
      · rintro ⟨body, items, htoken, hspells, rfl⟩
        rw [List.cons.injEq] at htoken
        exact ⟨items, htoken.2 ▸ items?_of_spellsAll hspells, rfl⟩
    · rw [decode?, if_neg hc]
      simp [hc]

end ManifestPolicy.Quoted
