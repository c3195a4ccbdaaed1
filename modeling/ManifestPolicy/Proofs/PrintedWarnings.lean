import ManifestPolicy.Proofs.EncodedStrings
import ManifestPolicy.Proofs.Overwrites
import Mathlib.Data.List.Basic

/-!
# What a warning says

A warning says which overwrite it is about. It cannot be read from its start: the path stands in
it as it is, so nothing shows where it ends, and it may hold the text of another warning. But a
warning can be read from its end. The number of the line follows the last space. The text before
that ends with a quote, and as such a quote stands inside the policy after an escape mark only,
the policy begins at the last one that follows a space. The other policy is found in the same
way, and what is left is the path.

Between its quotes a policy is read from the start, one code point after the other. Each is shown
as itself or by an escape whose first letter says how many digits follow.

## Main definitions

* `Text.StandsLast`: the place of a separator is its last one.
* `CodePoint.Shows`: the forms in which a code point is shown between two quotes.
* `Text.cutShown?`: reads the first code point of what stands between two quotes.

## Main statements

* `Text.cutShown?_of_shows`: a code point is read back, whatever follows it.
* `Text.append_display_inj`: a text shown at the end can be told from what stands before it.
* `Overwrite.message_inj`: a warning determines its overwrite.
* `Overwrite.message_determines`: the warnings of a manifest determine its log.
-/

namespace ManifestPolicy

namespace Text

/-- In `separator ++ rest` the separator stands at the start and nowhere else. -/
def StandsLast (separator rest : Text) : Prop := ¬ separator <:+: (separator ++ rest).tail

/-- No place of a separator lies after its last one. -/
theorem StandsLast.eq_nil {separator rest more between : Text} (hrest : separator.StandsLast rest)
    (h : separator ++ rest = between ++ (separator ++ more)) : between = [] := by
  cases between with
  | nil => rfl
  | cons c between =>
    refine absurd ⟨between, more, ?_⟩ hrest
    rw [h, List.cons_append, List.tail_cons, List.append_assoc]

/-- A text can be cut in one way only at the last place of a separator. -/
theorem StandsLast.append_inj {separator s t rest more : Text} (hrest : separator.StandsLast rest)
    (hmore : separator.StandsLast more) (h : s ++ (separator ++ rest) = t ++ (separator ++ more)) :
    s = t ∧ rest = more := by
  have hcut : s = t := by
    rcases List.append_eq_append_iff.1 h with ⟨between, ht, hseparator⟩ | ⟨between, hs, hseparator⟩
    · rw [ht, hrest.eq_nil hseparator, List.append_nil]
    · rw [hs, hmore.eq_nil hseparator, List.append_nil]
  rw [hcut, List.append_cancel_left_eq, List.append_cancel_left_eq] at h
  exact ⟨hcut, h⟩

end Text

namespace Text

/-- The digits of a number are all that is written of it. -/
theorem not_mem_toList_repr {c : Char} (h : c.isDigit = false) (n : Nat) : c ∉ n.repr.toList := by
  intro hc
  rw [Nat.toList_repr] at hc
  rw [Nat.isDigit_of_mem_toDigits (by decide) (by decide) hc] at h
  cases h

theorem repr_inj {m n : Nat} : m.repr = n.repr ↔ m = n := by
  refine ⟨fun h => ?_, congrArg Nat.repr⟩
  have hdigits : Nat.toDigits 10 m = Nat.toDigits 10 n := by
    rw [← Nat.toList_repr, ← Nat.toList_repr, h]
  have hread := congrArg (Nat.ofDigitChars 10 · 0) hdigits
  simpa only [Nat.ofDigitChars_ten_toDigits] using hread

theorem ofInt_inj {m n : Int} : ofInt m = ofInt n ↔ m = n := by
  refine ⟨fun h => ?_, congrArg ofInt⟩
  have hdash (k l : Nat) : k.repr ≠ "-" ++ l.repr := by
    intro heq
    refine not_mem_toList_repr (by decide : '-'.isDigit = false) k ?_
    rw [heq, String.toList_append]
    exact List.mem_append_left _ (by decide)
  rw [ofInt, ofInt, ofString_inj, Int.toString_eq_repr, Int.toString_eq_repr, Int.repr_eq_if,
    Int.repr_eq_if] at h
  split at h
  · split at h
    · have := repr_inj.1 h
      omega
    · exact absurd h (hdash _ _)
  · split at h
    · exact absurd h.symm (hdash _ _)
    · have := repr_inj.1 (String.append_right_inj _ |>.1 h)
      omega

/-- A number has no space in it. -/
theorem space_not_mem_ofInt (n : Int) : (' ' : CodePoint) ∉ ofInt n := by
  have hdigits (m : Nat) : ' ' ∉ m.repr.toList := not_mem_toList_repr (by decide) m
  intro h
  obtain ⟨c, hc, hspace⟩ := List.mem_map.1 h
  rw [CodePoint.ofChar_inj.1 hspace, Int.toString_eq_repr, Int.repr_eq_if] at hc
  split at hc
  · exact hdigits _ hc
  · rw [String.toList_append, List.mem_append] at hc
    exact hc.elim (by decide) (hdigits _)

/-- The number at the end of a warning follows its last space. -/
theorem append_number_inj {s t : Text} {m n : Int}
    (h : s ++ ((' ' : CodePoint) :: (ofInt m ++ ofString ")")) =
      t ++ ((' ' : CodePoint) :: (ofInt n ++ ofString ")"))) : s = t ∧ m = n := by
  have hlast (n : Int) : StandsLast [(' ' : CodePoint)] (ofInt n ++ ofString ")") := by
    intro hinfix
    have hmem : (' ' : CodePoint) ∈ ofInt n ++ ofString ")" := hinfix.subset (by simp)
    rcases List.mem_append.1 hmem with hmem | hmem
    · exact space_not_mem_ofInt n hmem
    · exact absurd hmem (by decide)
  obtain ⟨hstart, hnumber⟩ := (hlast m).append_inj (hlast n) h
  rw [List.append_cancel_right_eq, ofInt_inj] at hnumber
  exact ⟨hstart, hnumber⟩

end Text

namespace CodePoint

/-- One of the two quotes between which a text is shown. -/
def IsMark (c : CodePoint) : Prop := c = apostrophe ∨ c = quotation

/-- The count of digits that a letter announces after an escape mark. -/
def announced (letter : CodePoint) : Nat :=
  if letter = 'x' then 2
  else if letter = 'u' then 4
  else if letter = 'U' then 8
  else 0

/-- What a letter stands for after an escape mark, if it announces no digits. -/
def named (letter : CodePoint) : CodePoint :=
  if letter = 't' then '\t'
  else if letter = 'n' then '\n'
  else if letter = 'r' then '\r'
  else letter

/-- The three forms in which a code point is shown between two quotes. -/
inductive Shows (mark c : CodePoint) : Text → Prop
  /-- The code point stands for itself. It is not the quote, which needs an escape. -/
  | plain (noMark : c ≠ mark) (noEscape : c ≠ backslash) : Shows mark c [c]
  /-- An escape without digits. The quote and the escape mark are letters of this form. -/
  | letter {letter : CodePoint} (alone : letter.announced = 0) (named : letter.named = c) :
      Shows mark c [backslash, letter]
  /-- An escape with as many digits as its letter announces, which hold the number. -/
  | digits {letter : CodePoint} (announces : letter.announced ≠ 0)
      (fits : c.val < 16 ^ letter.announced) :
      Shows mark c (backslash :: letter :: Text.hexDigits letter.announced c.val)

theorem IsMark.ne_backslash {c : CodePoint} (h : c.IsMark) : c ≠ backslash := by
  rcases h with rfl | rfl <;> decide

theorem IsMark.announced {c : CodePoint} (h : c.IsMark) : c.announced = 0 := by
  rcases h with rfl | rfl <;> decide

theorem IsMark.named {c : CodePoint} (h : c.IsMark) : c.named = c := by
  rcases h with rfl | rfl <;> decide

theorem IsMark.hexValue? {c : CodePoint} (h : c.IsMark) : c.hexValue? = none := by
  rcases h with rfl | rfl <;> decide

/-- What is shown of a code point has one of the three forms. -/
theorem shows_escapeIn (c : CodePoint) {mark : CodePoint} (hmark : mark.IsMark) :
    Shows mark c (c.escapeIn mark) := by
  rw [escapeIn]
  split_ifs with hself htab hfeed hreturn hprintable hshort hmiddle
  · rcases hself with rfl | rfl
    · exact .letter hmark.announced hmark.named
    · exact .letter (by decide) (by decide)
  · exact .letter (by decide) htab.symm
  · exact .letter (by decide) hfeed.symm
  · exact .letter (by decide) hreturn.symm
  · rw [not_or] at hself
    exact .plain hself.1 hself.2
  · exact .digits (by decide) hshort
  · exact .digits (by decide) hmiddle
  · exact .digits (by decide) (Nat.lt_trans c.isLt (by decide))

end CodePoint

namespace Text

theorem isMark_quoteMark (t : Text) : t.quoteMark.IsMark := by
  rw [quoteMark]
  split
  · exact .inr rfl
  · exact .inl rfl

/-- Cuts the first code point off what stands between two quotes: one that is shown as itself,
or one that is shown by an escape. -/
def cutShown? : Text → Option (CodePoint × Text)
  | [] => none
  | c :: t =>
    if c = backslash then
      match t with
      | [] => none
      | letter :: t =>
        if letter.announced = 0 then some (letter.named, t)
        else
          (hexValue? (t.take letter.announced)).map fun n =>
            (CodePoint.ofNat n, t.drop letter.announced)
    else some (c, t)

/-- A code point is read back from what is shown of it, whatever follows. -/
theorem cutShown?_of_shows {mark c : CodePoint} {shown : Text} (h : CodePoint.Shows mark c shown)
    (rest : Text) : cutShown? (shown ++ rest) = some (c, rest) := by
  cases h with
  | plain noMark noEscape => simp [cutShown?, noEscape]
  | letter alone named => simp [cutShown?, alone, named]
  | @digits letter announces fits =>
    have hpoint : CodePoint.ofNat c.val = c := CodePoint.eq_of_val_eq (CodePoint.val_ofNat c.isLt)
    have hlength := length_hexDigits letter.announced c.val
    have htake : (hexDigits letter.announced c.val ++ rest).take letter.announced =
        hexDigits letter.announced c.val := List.take_left' hlength
    have hdrop : (hexDigits letter.announced c.val ++ rest).drop letter.announced = rest :=
      List.drop_left' hlength
    simp [cutShown?, announces, htake, hdrop, hexValue?_hexDigits fits, hpoint]

/-- What stands between two quotes determines the text. -/
theorem escapes_inj {mark : CodePoint} (hmark : mark.IsMark) {s t : Text}
    (h : (s.flatMap fun c => c.escapeIn mark) = t.flatMap fun c => c.escapeIn mark) : s = t := by
  have hread (c : CodePoint) (rest : Text) := cutShown?_of_shows (c.shows_escapeIn hmark) rest
  induction s generalizing t with
  | nil =>
    cases t with
    | nil => rfl
    | cons d t =>
      have hcut := congrArg cutShown? h
      rw [List.flatMap_cons, hread] at hcut
      cases hcut
  | cons c s ih =>
    have hcut := congrArg cutShown? h
    rw [List.flatMap_cons, hread] at hcut
    cases t with
    | nil => cases hcut
    | cons d t =>
      rw [List.flatMap_cons, hread, Option.some.injEq, Prod.mk.injEq] at hcut
      rw [hcut.1, ih hcut.2]

/-- The quote is in what is shown of a code point only as the letter of an escape. -/
theorem eq_of_mark_mem_shows {mark c : CodePoint} {shown : Text} (hmark : mark.IsMark)
    (h : CodePoint.Shows mark c shown) (hmem : mark ∈ shown) : shown = [backslash, mark] := by
  cases h with
  | plain noMark noEscape => exact absurd (List.mem_singleton.1 hmem).symm noMark
  | letter alone named =>
    have hletter := (List.mem_cons.1 hmem).resolve_left hmark.ne_backslash
    rw [List.mem_singleton.1 hletter]
  | digits announces fits =>
    have hrest := (List.mem_cons.1 hmem).resolve_left hmark.ne_backslash
    rcases List.mem_cons.1 hrest with rfl | hdigit
    · exact absurd hmark.announced announces
    · have hvalue := Manifest.isSome_of_hexValue? (hexValue?_hexDigits fits) mark hdigit
      rw [hmark.hexValue?] at hvalue
      exact absurd hvalue (by decide)

/-- Between two quotes such a quote stands only after an escape mark. -/
theorem exists_escape_before {mark : CodePoint} (hmark : mark.IsMark) {t before after : Text}
    (h : (t.flatMap fun c => c.escapeIn mark) = before ++ mark :: after) :
    ∃ front, before = front ++ [backslash] := by
  induction t generalizing before with
  | nil => simp at h
  | cons c t ih =>
    rw [List.flatMap_cons] at h
    rcases List.append_eq_append_iff.1 h with ⟨between, hbefore, hrest⟩ | ⟨between, hshown, hrest⟩
    · obtain ⟨front, hfront⟩ := ih hrest
      exact ⟨c.escapeIn mark ++ front, by rw [hbefore, hfront, List.append_assoc]⟩
    · cases between with
      | nil =>
        -- The quote would be the first of what stands for the next code points.
        have hfirst : (t.flatMap fun c => c.escapeIn mark) = [] ++ mark :: after := hrest.symm
        obtain ⟨front, hfront⟩ := ih hfirst
        simp at hfront
      | cons d between =>
        obtain ⟨rfl, -⟩ := List.cons.inj hrest
        have hmark_mem : mark ∈ c.escapeIn mark := by simp [hshown]
        rw [eq_of_mark_mem_shows hmark (c.shows_escapeIn hmark) hmark_mem] at hshown
        have hmem : mark ∉ [backslash] := by simpa using hmark.ne_backslash
        obtain ⟨hbefore, -⟩ := (List.append_cons_inj_of_notMem hmem List.not_mem_nil).1 hshown
        exact ⟨[], hbefore.symm⟩

/-- The opening quote of a text is the last one that follows a space. -/
theorem standsLast_mark {mark : CodePoint} (hmark : mark.IsMark) (t : Text) :
    StandsLast [' ', mark] (t.flatMap fun c => c.escapeIn mark) := by
  rintro ⟨before, after, h⟩
  cases before with
  | nil =>
    have hspace : (' ' : CodePoint) ≠ mark := by rcases hmark with rfl | rfl <;> decide
    exact hspace (List.cons.inj h).1
  | cons c before =>
    have hinside : (t.flatMap fun c => c.escapeIn mark) =
        before ++ [(' ' : CodePoint)] ++ mark :: after := by
      simpa using (List.cons.inj h).2.symm
    obtain ⟨front, hfront⟩ := exists_escape_before hmark hinside
    have hescape := (List.append_inj' hfront rfl).2
    exact absurd hescape (by decide)

/-- A text that is shown at the end, after a space, can be told from what stands before it. -/
theorem append_display_inj {s t u v : Text}
    (h : s ++ ((' ' : CodePoint) :: u.display) = t ++ ((' ' : CodePoint) :: v.display)) :
    s = t ∧ u = v := by
  have hparts (s u : Text) : s ++ ((' ' : CodePoint) :: u.display) =
      s ++ ([(' ' : CodePoint), u.quoteMark] ++ u.flatMap fun c => c.escapeIn u.quoteMark) ++
        [u.quoteMark] := by
    simp [display]
  rw [hparts, hparts] at h
  obtain ⟨hbefore, hclosing⟩ := List.append_inj' h rfl
  have hmark : u.quoteMark = v.quoteMark := (List.cons.inj hclosing).1
  rw [hmark] at hbefore
  have hlast := standsLast_mark v.isMark_quoteMark
  obtain ⟨hstart, hinside⟩ := (hlast u).append_inj (hlast v) hbefore
  exact ⟨hstart, escapes_inj v.isMark_quoteMark hinside⟩

end Text

namespace Overwrite

/-- A warning as it is read from its end: the number, the new policy, the old one, the path. -/
theorem message_eq (o : Overwrite) :
    o.message =
      Text.ofString "overwriting an existing policy for " ++ o.path ++ Text.ofString ":" ++
        ((' ' : CodePoint) :: o.old.display) ++ Text.ofString " ->" ++
        ((' ' : CodePoint) :: o.new.display) ++ Text.ofString " (line" ++
        ((' ' : CodePoint) :: (Text.ofInt o.line ++ Text.ofString ")")) := by
  have hcolon : Text.ofString ": " = Text.ofString ":" ++ [(' ' : CodePoint)] := rfl
  have harrow : Text.ofString " -> " = Text.ofString " ->" ++ [(' ' : CodePoint)] := rfl
  have hline : Text.ofString " (line " = Text.ofString " (line" ++ [(' ' : CodePoint)] := rfl
  simp [message, hcolon, harrow, hline]

/-- A warning determines its overwrite. -/
theorem message_inj {o p : Overwrite} : o.message = p.message ↔ o = p := by
  constructor
  · intro h
    rw [message_eq, message_eq] at h
    obtain ⟨hline, hnumber⟩ := Text.append_number_inj h
    rw [List.append_cancel_right_eq] at hline
    obtain ⟨hnew, hnewText⟩ := Text.append_display_inj hline
    rw [List.append_cancel_right_eq] at hnew
    obtain ⟨hold, holdText⟩ := Text.append_display_inj hnew
    rw [List.append_cancel_right_eq, List.append_cancel_left_eq] at hold
    cases o
    cases p
    rw [Overwrite.mk.injEq]
    exact ⟨hold, holdText, hnewText, hnumber⟩
  · intro h
    rw [h]

/-- **A warning identifies its overwrite.** Two overwrites are worded alike only where they are the
same, whatever is in their paths and policies. So the wording of an overwrite is among the
warnings of a manifest exactly where that overwrite took place, and the warnings determine the
whole log. -/
theorem message_determines :
    (∀ first second : Overwrite, first.message = second.message ↔ first = second) ∧
    ∀ {ns nilPolicy : Text} {m : Manifest} {res : Resolution}, m.resolve ns nilPolicy = .ok res →
      (∀ o : Overwrite, o.message ∈ m.warnings ns nilPolicy ↔ o ∈ res.overwrites) ∧
      ∀ {ns' nilPolicy' : Text} {m' : Manifest} {res' : Resolution},
        m'.resolve ns' nilPolicy' = .ok res' →
        (m.warnings ns nilPolicy = m'.warnings ns' nilPolicy' ↔
          res.overwrites = res'.overwrites) := by
  refine ⟨fun first second => message_inj, fun h => ⟨fun o => ?_, fun h' => ?_⟩⟩
  · rw [warnings_of_resolve h]
    exact List.mem_map_of_injective fun _ _ => message_inj.1
  · rw [warnings_of_resolve h, warnings_of_resolve h']
    exact List.map_inj_right fun _ _ => message_inj.1

/-- A path that imitates a warning, and a policy with both quotes and an escape mark at its end.
The warning starts like that of the overwrite that the path imitates. -/
theorem message_determines_sample :
    ∃ (o forged : Overwrite) (m m' : Manifest) (res res' : Resolution),
      o = ⟨Text.ofString "a: 'p' -> 'q' (line 2)", Text.ofString "p'\"\\", Text.ofString "q", 2⟩ ∧
      forged = ⟨Text.ofString "a", Text.ofString "p", Text.ofString "q", 2⟩ ∧
      (m.resolve (Text.ofString "s") (Text.ofString "n") = .ok res ∧ res.overwrites = [o]) ∧
      (m'.resolve (Text.ofString "s") (Text.ofString "n") = .ok res' ∧
        res'.overwrites = [forged]) ∧
      forged.message <+: o.message ∧ forged.message ≠ o.message ∧
      o.message ∈ m.warnings (Text.ofString "s") (Text.ofString "n") ∧
      forged.message ∉ m.warnings (Text.ofString "s") (Text.ofString "n") ∧
      m.warnings (Text.ofString "s") (Text.ofString "n") ≠
        m'.warnings (Text.ofString "s") (Text.ofString "n") := by
  have hlog (text : Text) (log : List Overwrite)
      (h : ((Manifest.read [] text).toOption.bind fun m =>
        (m.resolve (Text.ofString "s") (Text.ofString "n")).toOption.map Resolution.overwrites) =
          some log) :
      ∃ (m : Manifest) (res : Resolution),
        m.resolve (Text.ofString "s") (Text.ofString "n") = .ok res ∧ res.overwrites = log := by
    obtain ⟨m, -, hres⟩ := Option.bind_eq_some_iff.1 h
    obtain ⟨res, hres, hoverwrites⟩ := Option.map_eq_some_iff.1 hres
    exact ⟨m, res, toOption_eq_some_iff.1 hres, hoverwrites⟩
  let o : Overwrite :=
    ⟨Text.ofString "a: 'p' -> 'q' (line 2)", Text.ofString "p'\"\\", Text.ofString "q", 2⟩
  let forged : Overwrite := ⟨Text.ofString "a", Text.ofString "p", Text.ofString "q", 2⟩
  obtain ⟨m, res, hres, ho⟩ := hlog (Text.ofString
    "require \"a: 'p' -> 'q' (line 2)\" v1 // s:p'\"\\\nrequire \"a: 'p' -> 'q' (line 2)\" v2 // s:q")
    [o] (by decide +kernel)
  obtain ⟨m', res', hres', hforged⟩ := hlog (Text.ofString
    "require a v1 // s:p\nrequire a v2 // s:q") [forged] (by decide +kernel)
  have hne : forged ≠ o := by decide
  obtain ⟨hsame, hrun⟩ := message_determines
  obtain ⟨hmem, hlogs⟩ := hrun hres
  refine ⟨o, forged, m, m', res, res', rfl, rfl, ⟨hres, ho⟩, ⟨hres', hforged⟩, by decide +kernel,
    fun h => hne ((hsame _ _).1 h), (hmem o).2 ?_, fun h => ?_, fun h => ?_⟩
  · rw [ho]
    exact List.mem_singleton_self o
  · have hlogged := (hmem forged).1 h
    rw [ho] at hlogged
    exact hne (List.mem_singleton.1 hlogged)
  · have hequal := (hlogs hres').1 h
    rw [ho, hforged] at hequal
    exact hne (List.cons.inj hequal).1.symm

end Overwrite

end ManifestPolicy
