import ManifestPolicy.Text.Basic

/-!
# Dictionaries

A finite mapping from texts, kept in the order of its keys. Two dictionaries with the same
values at every key are equal, so the order in which a mapping was filled never shows.

## Main definitions

* `Entries.get?`, `Entries.insert`, `Entries.erase`: the operations on a list of entries.
* `Dictionary`: a list of entries whose keys strictly increase.
* `Dictionary.ofList`: a later entry replaces an earlier one with the same key.

## Main statements

* `Dictionary.get?_insert`, `Dictionary.get?_erase`: what the operations do to the values.
* `Dictionary.ext_get?`: a dictionary is determined by its values.
-/

namespace ManifestPolicy

variable {α : Type}

namespace Entries

/-- The value of the first entry with key `k`. -/
def get? (k : Text) : List (Text × α) → Option α
  | [] => none
  | e :: rest => if e.1 = k then some e.2 else get? k rest

/-- Puts an entry before the first larger key, in place of the entry with that key. -/
def insert (k : Text) (v : α) : List (Text × α) → List (Text × α)
  | [] => [(k, v)]
  | e :: rest =>
    if k < e.1 then (k, v) :: e :: rest
    else if e.1 = k then (k, v) :: rest
    else e :: insert k v rest

/-- Removes the entries with key `k`. -/
def erase (k : Text) (entries : List (Text × α)) : List (Text × α) :=
  entries.filter fun e => decide (e.1 ≠ k)

/-- The keys strictly increase. -/
def Sorted (entries : List (Text × α)) : Prop :=
  entries.Pairwise fun a b => a.1 < b.1

theorem get?_insert (k j : Text) (v : α) (entries : List (Text × α)) :
    get? j (insert k v entries) = if k = j then some v else get? j entries := by
  induction entries with
  | nil => simp [insert, get?]
  | cons e rest ih =>
    simp only [insert]
    split
    · simp [get?]
    · split
      · next h => subst h; by_cases hj : e.1 = j <;> simp [get?, hj]
      · next h =>
        by_cases hj : e.1 = j
        · have hk : k ≠ j := fun hk => h (hj.trans hk.symm)
          simp [get?, hj, hk]
        · simp [get?, hj, ih]

theorem get?_erase (k j : Text) (entries : List (Text × α)) :
    get? j (erase k entries) = if k = j then none else get? j entries := by
  induction entries with
  | nil => simp [erase, get?]
  | cons e rest ih =>
    by_cases hk : e.1 = k
    · have : erase k (e :: rest) = erase k rest := by simp [erase, hk]
      rw [this, ih, get?, hk]
      split <;> rfl
    · have : erase k (e :: rest) = e :: erase k rest := by simp [erase, hk]
      rw [this, get?, get?, ih]
      by_cases hj : e.1 = j
      · have : k ≠ j := fun h => hk (hj.trans h.symm)
        simp [hj, this]
      · simp [hj]

theorem mem_insert {k : Text} {v : α} {e : Text × α} {entries : List (Text × α)}
    (h : e ∈ insert k v entries) : e = (k, v) ∨ e ∈ entries := by
  induction entries with
  | nil => simpa [insert] using h
  | cons f rest ih =>
    simp only [insert] at h
    split at h
    · simpa using h
    · split at h
      · rcases List.mem_cons.1 h with h | h
        · exact .inl h
        · exact .inr (List.mem_cons_of_mem _ h)
      · rcases List.mem_cons.1 h with h | h
        · exact .inr (h ▸ List.mem_cons_self)
        · exact (ih h).imp_right (List.mem_cons_of_mem _)

theorem sorted_insert {k : Text} {v : α} {entries : List (Text × α)} (h : Sorted entries) :
    Sorted (insert k v entries) := by
  induction entries with
  | nil => exact List.pairwise_singleton _ _
  | cons e rest ih =>
    obtain ⟨hhead, htail⟩ := List.pairwise_cons.1 h
    simp only [insert]
    split
    · next hlt =>
      refine List.pairwise_cons.2 ⟨fun f hf => ?_, h⟩
      rcases List.mem_cons.1 hf with rfl | hf
      · exact hlt
      · exact Text.lt_trans hlt (hhead f hf)
    · split
      · next _ heq => exact List.pairwise_cons.2 ⟨fun f hf => heq ▸ hhead f hf, htail⟩
      · next hlt hne =>
        refine List.pairwise_cons.2 ⟨fun f hf => ?_, ih htail⟩
        rcases mem_insert hf with rfl | hf
        · by_cases hgt : e.1 < k
          · exact hgt
          · exact absurd (Text.eq_of_not_lt hgt hlt) hne
        · exact hhead f hf

theorem sorted_erase {k : Text} {entries : List (Text × α)} (h : Sorted entries) :
    Sorted (erase k entries) :=
  List.Pairwise.filter _ h

theorem lt_of_get?_eq_some {j k : Text} {v : α} {entries : List (Text × α)}
    (h : ∀ e ∈ entries, j < e.1) (hk : get? k entries = some v) : j < k := by
  induction entries with
  | nil => simp [get?] at hk
  | cons e rest ih =>
    by_cases he : e.1 = k
    · exact he ▸ h e List.mem_cons_self
    · rw [get?, if_neg he] at hk
      exact ih (fun f hf => h f (List.mem_cons_of_mem _ hf)) hk

/-- Sorted entries are determined by their values. -/
theorem eq_of_get?_eq {l₁ l₂ : List (Text × α)} (h₁ : Sorted l₁) (h₂ : Sorted l₂)
    (h : ∀ k, get? k l₁ = get? k l₂) : l₁ = l₂ := by
  induction l₁ generalizing l₂ with
  | nil =>
    cases l₂ with
    | nil => rfl
    | cons f l₂ => simpa [get?] using h f.1
  | cons e l₁ ih =>
    cases l₂ with
    | nil => simpa [get?] using h e.1
    | cons f l₂ =>
      obtain ⟨he, h₁⟩ := List.pairwise_cons.1 h₁
      obtain ⟨hf, h₂⟩ := List.pairwise_cons.1 h₂
      have hkey : e.1 = f.1 := by
        by_cases hne : f.1 = e.1
        · exact hne.symm
        · have hef := h e.1
          have hfe := h f.1
          simp only [get?, if_true, if_neg hne, if_neg (Ne.symm hne)] at hef hfe
          exact absurd (Text.lt_trans (lt_of_get?_eq_some he hfe)
            (lt_of_get?_eq_some hf hef.symm)) (Text.lt_irrefl _)
      have hval : e.2 = f.2 := by simpa [get?, hkey] using h e.1
      have hrest : ∀ k, get? k l₁ = get? k l₂ := fun k => by
        have hk := h k
        by_cases hke : e.1 = k
        · have none₁ : get? k l₁ = none :=
            Option.eq_none_iff_forall_ne_some.2 fun v hv =>
              Text.lt_irrefl _ (hke ▸ lt_of_get?_eq_some he hv)
          have none₂ : get? k l₂ = none :=
            Option.eq_none_iff_forall_ne_some.2 fun v hv =>
              Text.lt_irrefl _ ((hkey.symm.trans hke) ▸ lt_of_get?_eq_some hf hv)
          rw [none₁, none₂]
        · simpa [get?, hke, hkey ▸ hke] using hk
      rw [Prod.ext hkey hval, ih h₁ h₂ hrest]

end Entries

/-- A finite mapping from texts, in the order of its keys. -/
structure Dictionary (α : Type) where
  entries : List (Text × α)
  sorted : Entries.Sorted entries

namespace Dictionary

/-- No key has a value. -/
def empty : Dictionary α := ⟨[], List.Pairwise.nil⟩

/-- The value at a key. -/
def get? (d : Dictionary α) (k : Text) : Option α := Entries.get? k d.entries

/-- Gives a key a value. -/
def insert (d : Dictionary α) (k : Text) (v : α) : Dictionary α :=
  ⟨Entries.insert k v d.entries, Entries.sorted_insert d.sorted⟩

/-- Takes the value from a key. -/
def erase (d : Dictionary α) (k : Text) : Dictionary α :=
  ⟨Entries.erase k d.entries, Entries.sorted_erase d.sorted⟩

/-- The mapping a list of entries describes; of two entries with one key the later wins. -/
def ofList (entries : List (Text × α)) : Dictionary α :=
  entries.foldl (fun d e => d.insert e.1 e.2) empty

/-- The entries in the order of their keys. -/
def toList (d : Dictionary α) : List (Text × α) := d.entries

@[simp] theorem get?_empty (k : Text) : (empty : Dictionary α).get? k = none := rfl

@[simp] theorem get?_insert (d : Dictionary α) (k j : Text) (v : α) :
    (d.insert k v).get? j = if k = j then some v else d.get? j :=
  Entries.get?_insert k j v d.entries

@[simp] theorem get?_erase (d : Dictionary α) (k j : Text) :
    (d.erase k).get? j = if k = j then none else d.get? j :=
  Entries.get?_erase k j d.entries

theorem ext_entries {d e : Dictionary α} (h : d.entries = e.entries) : d = e := by
  cases d; cases e; cases h; rfl

/-- A dictionary is determined by its values. -/
theorem ext_get? {d e : Dictionary α} (h : ∀ k, d.get? k = e.get? k) : d = e :=
  ext_entries (Entries.eq_of_get?_eq d.sorted e.sorted h)

instance [DecidableEq α] : DecidableEq (Dictionary α) := fun d e =>
  if h : d.entries = e.entries then isTrue (ext_entries h)
  else isFalse fun he => h (congrArg entries he)

end Dictionary

end ManifestPolicy
