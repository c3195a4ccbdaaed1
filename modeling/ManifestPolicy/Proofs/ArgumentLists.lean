import ManifestPolicy.Command.Arguments
import Mathlib.Data.List.TakeWhile

/-!
# What argument lists say

An argument list of the command consists of options with their values and of other arguments, up
to two dashes, behind which every argument is another one. This module describes such lists by
what they say: the values of the options in order, and the other arguments in order. Sorting a
list finds what it says.

Options do not depend on each other. So one more option can be put between the others, and it
adds its value and changes nothing else.

## Main definitions

* `Command.Sorts`: what a list of options and other arguments says.
* `Command.GivenAlso`: a list of arguments with one more option.

## Main statements

* `Command.exists_sorts_of_read?`: sorting finds what a list says.
* `Command.ofArguments_of_givenAlso`: one more option.
-/

namespace ManifestPolicy.Command

theorem drop_length_takeWhile (p : CodePoint → Bool) (t : Text) :
    t.drop (t.takeWhile p).length = t.dropWhile p := by
  induction t with
  | nil => rfl
  | cons c t ih => by_cases h : p c = true <;> simp [h, ih]

/-- What sets the name of an option apart: it is longer than two dashes, it has no equals sign, and
it is found under itself. -/
structure IsName (name : Text) (s : Setting) : Prop where
  head : name.head? = some ('-' : CodePoint)
  length : 3 ≤ name.length
  noEquals : ∀ c ∈ name, c ≠ ('=' : CodePoint)
  noHelp : name ≠ Text.ofString "--help"
  found : (settingNames.find? fun e => e.1 = name) = some (name, s)

theorem isName_of_mem {name : Text} {s : Setting} (h : (name, s) ∈ settingNames) :
    IsName name s := by
  have hall : ∀ e ∈ settingNames, e.1.head? = some ('-' : CodePoint) ∧ 3 ≤ e.1.length ∧
      (∀ c ∈ e.1, c ≠ ('=' : CodePoint)) ∧ e.1 ≠ Text.ofString "--help" ∧
      (settingNames.find? fun e' => e'.1 = e.1) = some e := by decide
  obtain ⟨hhead, hlength, hequals, hhelp, hfind⟩ := hall _ h
  exact ⟨hhead, hlength, hequals, hhelp, hfind⟩

/-- An option with its value in one argument. -/
def withValue (name value : Text) : Text := name ++ ('=' : CodePoint) :: value

section

variable {name : Text} {s : Setting}

/-- Nothing that starts with the name of an option is as short as two dashes. -/
theorem IsName.append_ne (h : IsName name s) (t : Text) {u : Text} (hu : u.length ≤ 2) :
    name ++ t ≠ u := by
  rintro rfl
  have hlength := h.length
  rw [List.length_append] at hu
  omega

theorem IsName.isOption_append (h : IsName name s) (t : Text) : isOption (name ++ t) = true := by
  have hdash : name ++ t ≠ [('-' : CodePoint)] := h.append_ne t (by decide)
  simpa [isOption, List.head?_append, h.head] using hdash

theorem IsName.splitOption_withValue (h : IsName name s) (value : Text) :
    splitOption (withValue name value) = (name, some value) := by
  have hspan : (withValue name value).takeWhile (fun c : CodePoint => c ≠ '=') = name := by
    rw [withValue, List.takeWhile_append_of_pos fun c hc => by simpa using h.noEquals c hc]
    simp
  rw [splitOption, hspan, withValue, List.drop_left]
  rfl

theorem IsName.splitOption_name (h : IsName name s) : splitOption name = (name, none) := by
  have hspan : name.takeWhile (fun c : CodePoint => c ≠ '=') = name :=
    List.takeWhile_eq_self_iff.2 fun c hc => by simpa using h.noEquals c hc
  rw [splitOption, hspan, List.drop_length]
  rfl

/-- An option is put together again from its name and its value. -/
theorem eq_of_splitOption {argument : Text} {value? : Option Text}
    (h : splitOption argument = (name, value?)) :
    argument = value?.elim name (withValue name) := by
  obtain ⟨hname, hvalue⟩ := Prod.mk.inj h
  have happend : argument.takeWhile (fun c : CodePoint => c ≠ '=') ++
      argument.dropWhile (fun c : CodePoint => c ≠ '=') = argument :=
    List.takeWhile_append_dropWhile
  rw [drop_length_takeWhile] at hvalue
  rw [hname] at happend
  cases hrest : argument.dropWhile (fun c : CodePoint => c ≠ '=') with
  | nil =>
    rw [hrest] at hvalue happend
    rw [← hvalue, ← happend, List.append_nil]
    rfl
  | cons c rest =>
    -- The name ends at the first equals sign.
    have hne : argument.dropWhile (fun c : CodePoint => c ≠ '=') ≠ [] := by
      rw [hrest]
      exact List.cons_ne_nil c rest
    have hc := List.head_dropWhile_not _ hne
    simp only [hrest, List.head_cons, decide_eq_false_iff_not, ne_eq, not_not] at hc
    rw [hrest] at hvalue happend
    rw [← hvalue, ← happend, hc]
    rfl

end

/-- The arguments with the given values of options and the given other arguments, each in order. No
option among them waits for its value. -/
inductive Sorts : List Text → List (Setting × Text) → List Text → Prop
  | nil : Sorts [] [] []
  | other {a : Text} {rest positional : List Text} {values : List (Setting × Text)}
      (other : isOption a = false) (more : Sorts rest values positional) :
      Sorts (a :: rest) values (a :: positional)
  /-- An option with its value behind an equals sign. -/
  | joined {name value : Text} {s : Setting} {rest positional : List Text}
      {values : List (Setting × Text)} (option : (name, s) ∈ settingNames)
      (more : Sorts rest values positional) :
      Sorts (withValue name value :: rest) ((s, value) :: values) positional
  /-- An option with its value as the next argument, whatever that is. -/
  | next {name value : Text} {s : Setting} {rest positional : List Text}
      {values : List (Setting × Text)} (option : (name, s) ∈ settingNames)
      (more : Sorts rest values positional) :
      Sorts (name :: value :: rest) ((s, value) :: values) positional

/-- What ends the options: nothing, or two dashes and other arguments. -/
inductive Ended : List Text → List Text → Prop
  | nil : Ended [] []
  | dashes (rest : List Text) : Ended (Text.ofString "--" :: rest) rest

namespace Parsed

/-- Sorted arguments with more of both kinds. -/
def extend (p : Parsed) (values : List (Setting × Text)) (positional : List Text) : Parsed :=
  { p with values := p.values ++ values, positional := p.positional ++ positional }

variable (p : Parsed)

@[simp] theorem extend_nil : p.extend [] [] = p := by
  simp [extend]

@[simp] theorem extend_extend (values values' : List (Setting × Text))
    (positional positional' : List Text) :
    (p.extend values positional).extend values' positional' =
      p.extend (values ++ values') (positional ++ positional') := by
  simp [extend]

@[simp] theorem help_extend (values : List (Setting × Text)) (positional : List Text) :
    (p.extend values positional).help = p.help := rfl

theorem read?_other {a : Text} (h : isOption a = false) (rest : List Text) :
    read? none p (a :: rest) = read? none (p.extend [] [a]) rest := by
  have hdashes : a ≠ Text.ofString "--" := by
    rintro rfl
    exact absurd h (by decide)
  rw [read?, if_neg hdashes, if_neg (by simp [h])]
  simp [extend]

theorem read?_joined {name : Text} {s : Setting} (h : IsName name s) (value : Text)
    (rest : List Text) :
    read? none p (withValue name value :: rest) = read? none (p.extend [(s, value)] []) rest := by
  have hoption : isOption (withValue name value) = true := h.isOption_append _
  have hdashes : withValue name value ≠ Text.ofString "--" := h.append_ne _ (by decide)
  rw [read?, if_neg hdashes, if_pos hoption]
  simp only [h.splitOption_withValue, if_neg h.noHelp, h.found]
  simp [extend]

theorem read?_next {name : Text} {s : Setting} (h : IsName name s) (value : Text)
    (rest : List Text) :
    read? none p (name :: value :: rest) = read? none (p.extend [(s, value)] []) rest := by
  have hoption := h.isOption_append []
  have hdashes : name ++ [] ≠ Text.ofString "--" := h.append_ne [] (by decide)
  rw [List.append_nil] at hoption hdashes
  rw [read?, if_neg hdashes, if_pos hoption]
  simp only [h.splitOption_name, if_neg h.noHelp, h.found]
  simp [read?, extend]

end Parsed

section

variable {p p' : Parsed}

/-- Arguments are sorted one after the other. -/
theorem read?_append_of_sorts {sorted positional : List Text} {values : List (Setting × Text)}
    (h : Sorts sorted values positional) (rest : List Text) :
    Parsed.read? none p (sorted ++ rest) =
      Parsed.read? none (p.extend values positional) rest := by
  induction h generalizing p with
  | nil => rw [List.nil_append, Parsed.extend_nil]
  | other other _ ih => rw [List.cons_append, p.read?_other other, ih, Parsed.extend_extend]; rfl
  | joined option _ ih =>
    rw [List.cons_append, p.read?_joined (isName_of_mem option), ih, Parsed.extend_extend]
    rfl
  | next option _ ih =>
    rw [List.cons_append, List.cons_append, p.read?_next (isName_of_mem option), ih,
      Parsed.extend_extend]
    rfl

theorem read?_of_ended {tail more : List Text} (h : Ended tail more) :
    Parsed.read? none p tail = some (p.extend [] more) := by
  cases h with
  | nil => simp [Parsed.read?]
  | dashes rest => simp [Parsed.read?, Parsed.extend]

/-- One argument is sorted, or an option together with the argument that is its value. -/
inductive Parsed.Step (p : Parsed) : List Text → Parsed → List Text → Prop
  | other {a : Text} {rest : List Text} (other : isOption a = false) :
      Step p (a :: rest) (p.extend [] [a]) rest
  | help {a : Text} {rest : List Text} : Step p (a :: rest) { p with help := true } rest
  | joined {name value : Text} {s : Setting} {rest : List Text}
      (option : (name, s) ∈ settingNames) :
      Step p (withValue name value :: rest) (p.extend [(s, value)] []) rest
  | next {name value : Text} {s : Setting} {rest : List Text}
      (option : (name, s) ∈ settingNames) :
      Step p (name :: value :: rest) (p.extend [(s, value)] []) rest

/-- Arguments that are sorted end here, or they start with one of these steps. -/
theorem exists_step_of_read? {a : Text} {rest : List Text}
    (h : Parsed.read? none p (a :: rest) = some p') :
    (a = Text.ofString "--" ∧ p' = p.extend [] rest) ∨
      ∃ q rest', p.Step (a :: rest) q rest' ∧ Parsed.read? none q rest' = some p' := by
  rw [Parsed.read?] at h
  split at h
  · next hdashes =>
    refine .inl ⟨hdashes, ?_⟩
    rw [← Option.some.inj h]
    simp [Parsed.extend]
  split at h
  · obtain ⟨name, value?, hsplit⟩ : ∃ name value?, splitOption a = (name, value?) := ⟨_, _, rfl⟩
    have ha := eq_of_splitOption hsplit
    simp only [hsplit] at h
    split at h
    · split at h
      · cases h
      · exact .inr ⟨_, _, .help, h⟩
    · cases hfind : settingNames.find? fun e => e.1 = name with
      | none =>
        rw [hfind] at h
        cases h
      | some e =>
        have hoption : (name, e.2) ∈ settingNames := by
          have hname : e.1 = name := by simpa using List.find?_some hfind
          exact hname ▸ List.mem_of_find?_eq_some hfind
        rw [hfind] at h
        cases value? with
        | some value =>
          rw [Option.elim_some] at ha
          refine .inr ⟨_, _, ha ▸ Parsed.Step.joined hoption, ?_⟩
          simpa [Parsed.extend] using h
        | none =>
          cases rest with
          | nil => cases h
          | cons value rest =>
            rw [Option.elim_none] at ha
            refine .inr ⟨_, _, ha ▸ Parsed.Step.next hoption, ?_⟩
            simpa [Parsed.read?, Parsed.extend] using h
  · next hother =>
    refine .inr ⟨_, _, .other (by simpa using hother), ?_⟩
    simpa [Parsed.extend] using h

/-- What was sorted is what the arguments say, where they do not ask for help. -/
theorem exists_sorts_of_read? {arguments : List Text}
    (h : Parsed.read? none p arguments = some p') (hhelp : p'.help = false) :
    ∃ sorted tail values positional more, arguments = sorted ++ tail ∧
      Sorts sorted values positional ∧ Ended tail more ∧
      p' = p.extend values (positional ++ more) := by
  induction hn : arguments.length using Nat.strongRecOn generalizing arguments p with
  | _ n ih =>
    subst hn
    cases arguments with
    | nil =>
      rw [Parsed.read?, if_neg (by simp), Option.some.injEq] at h
      exact ⟨[], [], [], [], [], rfl, .nil, .nil, by simp [h]⟩
    | cons a rest =>
      obtain ⟨rfl, rfl⟩ | ⟨q, rest', hstep, h⟩ := exists_step_of_read? h
      · exact ⟨[], _, [], [], rest, rfl, .nil, .dashes rest, rfl⟩
      · have hlength : rest'.length < (a :: rest).length := by
          cases hstep <;> simp only [List.length_cons] <;> omega
        obtain ⟨sorted, tail, values, positional, more, rfl, hsorts, hended, rfl⟩ :=
          ih _ hlength h rfl
        cases hstep with
        | other other =>
          exact ⟨a :: sorted, tail, _, _, more, rfl, .other other hsorts, hended, by simp⟩
        | help => exact absurd hhelp (by simp)
        | joined option =>
          exact ⟨_ :: sorted, tail, _, _, more, rfl, .joined option hsorts, hended, by simp⟩
        | next option =>
          exact ⟨_ :: _ :: sorted, tail, _, _, more, rfl, .next option hsorts, hended, by simp⟩

/-- One more option puts its value between the others. -/
theorem read?_insert {name value : Text} {s : Setting} {before after positional : List Text}
    {values : List (Setting × Text)} (hname : (name, s) ∈ settingNames)
    (hsorts : Sorts before values positional)
    (hread : Parsed.read? none p (before ++ after) = some p') (hhelp : p'.help = false) :
    ∃ more, p'.values = p.values ++ values ++ more ∧
      Parsed.read? none p (before ++ withValue name value :: after) =
        some { p' with values := p.values ++ values ++ (s, value) :: more } := by
  rw [read?_append_of_sorts hsorts] at hread
  obtain ⟨sorted, tail, more, positional', others, rfl, hsorts', hended, rfl⟩ :=
    exists_sorts_of_read? hread hhelp
  refine ⟨more, by simp [Parsed.extend], ?_⟩
  rw [read?_append_of_sorts hsorts, Parsed.read?_joined _ (isName_of_mem hname),
    read?_append_of_sorts hsorts', read?_of_ended hended]
  simp [Parsed.extend]

end

/-- One more option is given, at a place behind the name of the command where an option may stand:
the arguments before it are options with their values and other arguments. Two dashes may precede
the name of the command. -/
inductive GivenAlso (option : Text) : List Text → List Text → Prop
  | intro {front before after positional : List Text} {values : List (Setting × Text)}
      (first : front = [] ∨ front = [Text.ofString "--"])
      (sorts : Sorts before values positional) :
      GivenAlso option (front ++ Text.ofString "policies" :: (before ++ after))
        (front ++ Text.ofString "policies" :: (before ++ option :: after))

section

variable {values : Values}

theorem ofArguments_append {front : List Text} (h : front = [] ∨ front = [Text.ofString "--"])
    (rest : List Text) :
    Parse.ofArguments false (front ++ Text.ofString "policies" :: rest) = .ofCommand rest := by
  have hname : Text.ofString "policies" ≠ Text.ofString "--" := by decide
  have hword : isOption (Text.ofString "policies") = false := by decide
  rcases h with rfl | rfl
  · rw [List.nil_append, Parse.ofArguments, if_neg hname, if_neg (by simp [hword])]
    rfl
  · rw [List.singleton_append, Parse.ofArguments, if_pos rfl]
    rfl

theorem ofCommand_eq_command_iff {arguments : List Text} :
    Parse.ofCommand arguments = .command values ↔
      ∃ p, Parsed.read? none {} arguments = some p ∧ p.help = false ∧
        p.values? = some values := by
  rw [Parse.ofCommand]
  cases Parsed.read? none {} arguments with
  | none => simp
  | some p =>
    cases hhelp : p.help with
    | true => simp [hhelp]
    | false => cases hvalues : p.values? <;> simp [hhelp, hvalues]

/-- **One more option puts its value between the others**, and nothing else is said. -/
theorem ofArguments_of_givenAlso {name value : Text} {s : Setting}
    {arguments arguments' : List Text} (hname : (name, s) ∈ settingNames)
    (hgiven : GivenAlso (withValue name value) arguments arguments')
    (hparse : Parse.ofArguments false arguments = .command values) :
    ∃ (p : Parsed) (before after : List (Setting × Text)), p.values = before ++ after ∧
      p.values? = some values ∧
      ∀ values', Parsed.values? { p with values := before ++ (s, value) :: after } = some values' →
        Parse.ofArguments false arguments' = .command values' := by
  cases hgiven with
  | intro hfirst hsorts =>
    rw [ofArguments_append hfirst, ofCommand_eq_command_iff] at hparse
    obtain ⟨p, hread, hhelp, hvalues⟩ := hparse
    obtain ⟨more, heq, hinsert⟩ := read?_insert hname hsorts hread hhelp
    refine ⟨p, _, more, heq, hvalues, fun values' hvalues' => ?_⟩
    rw [ofArguments_append hfirst, ofCommand_eq_command_iff]
    exact ⟨_, hinsert, hhelp, hvalues'⟩

/-- The other options keep their values. -/
theorem value?_insert_of_ne {p : Parsed} {before after : List (Setting × Text)} {s s' : Setting}
    (hvalues : p.values = before ++ after) (h : s' ≠ s) (value : Text) :
    Parsed.value? { p with values := before ++ (s, value) :: after } s' = p.value? s' := by
  simp [Parsed.value?, hvalues, List.find?_append, Ne.symm h]

/-- An option that was not given has the value that is put in. -/
theorem value?_insert_self {p : Parsed} {before after : List (Setting × Text)} {s : Setting}
    (hvalues : p.values = before ++ after) (h : p.value? s = none) (value : Text) :
    Parsed.value? { p with values := before ++ (s, value) :: after } s = some value := by
  simp only [Parsed.value?, hvalues, Option.map_eq_none_iff, List.reverse_append,
    List.find?_append, Option.or_eq_none_iff] at h
  simp [Parsed.value?, List.find?_append, h.1]

end

end ManifestPolicy.Command
