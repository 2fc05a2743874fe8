/-
**Finite maps kept in key order.**

A map is the list of its entries with strictly ascending keys.  Two maps with the same lookups are
therefore equal, and everything that is printed from a map comes out in key order without sorting.
Text keys compare by code point, which is the byte order of their UTF-8 form.

Main definitions:

* `LinearKey` — the order on keys that the maps need;
* `SortedMap` — the maps, with `get?`, `insert`, `erase`, `ofList` and `keys`.

Main results:

* `SortedMap.get?_insert`, `SortedMap.get?_erase` — what each operation does to lookups;
* `SortedMap.ext_get?` — maps with the same lookups are equal.
-/

set_option relaxedAutoImplicit false
set_option autoImplicit false

namespace KernelCache

/-- The strict order of a key type is linear. -/
class LinearKey (κ : Type) [LT κ] : Prop where
  irrefl : ∀ a : κ, ¬ a < a
  trans : ∀ {a b c : κ}, a < b → b < c → a < c
  connected : ∀ {a b : κ}, ¬ a < b → ¬ b < a → a = b

instance {κ : Type} [LE κ] [LT κ] [Std.LawfulOrderLT κ] [Std.IsLinearOrder κ] : LinearKey κ where
  irrefl := fun _ => Std.lt_irrefl
  trans := Std.lt_trans
  connected := fun h₁ h₂ => Std.le_antisymm (Std.not_lt.1 h₂) (Std.not_lt.1 h₁)

/-- A finite map from `κ` to `ν`: its entries, with strictly ascending keys. -/
structure SortedMap (κ ν : Type) [LT κ] where
  entries : List (κ × ν)
  ascending : entries.Pairwise fun a b => a.1 < b.1

namespace SortedMap

variable {κ ν : Type} [LT κ]

/-! ### Entry lists -/

/-- The value stored for a key in an entry list. -/
def find? [DecidableEq κ] (k : κ) : List (κ × ν) → Option ν
  | [] => none
  | (k', v) :: rest => if k' = k then some v else find? k rest

/-- Puts an entry at its place, over an entry of the same key. -/
def place [DecidableLT κ] (k : κ) (v : ν) : List (κ × ν) → List (κ × ν)
  | [] => [(k, v)]
  | e :: rest =>
    if k < e.1 then (k, v) :: e :: rest
    else if e.1 < k then e :: place k v rest
    else (k, v) :: rest

theorem mem_place [DecidableLT κ] {k : κ} {v : ν} {a : κ × ν} {l : List (κ × ν)}
    (h : a ∈ place k v l) : a = (k, v) ∨ a ∈ l := by
  induction l with
  | nil => simpa [place] using h
  | cons e rest ih =>
    rw [place] at h
    split at h
    · simpa using h
    · split at h
      · rcases List.mem_cons.1 h with rfl | h
        · exact Or.inr (by simp)
        · exact (ih h).imp id (List.mem_cons_of_mem _)
      · exact (List.mem_cons.1 h).imp id (List.mem_cons_of_mem _)

theorem ascending_place [DecidableLT κ] [LinearKey κ] (k : κ) (v : ν) {l : List (κ × ν)}
    (h : l.Pairwise fun a b => a.1 < b.1) :
    (place k v l).Pairwise fun a b => a.1 < b.1 := by
  induction l with
  | nil => simp [place]
  | cons e rest ih =>
    have hrest := (List.pairwise_cons.1 h).1
    rw [place]
    split
    · rename_i hk
      refine List.pairwise_cons.2 ⟨?_, h⟩
      intro a ha
      rcases List.mem_cons.1 ha with rfl | ha
      · exact hk
      · exact LinearKey.trans hk (hrest a ha)
    · split
      · rename_i hk
        refine List.pairwise_cons.2 ⟨?_, ih (List.pairwise_cons.1 h).2⟩
        intro a ha
        rcases mem_place ha with rfl | ha
        · exact hk
        · exact hrest a ha
      · rename_i h₁ h₂
        have he : e.1 = k := LinearKey.connected h₂ h₁
        refine List.pairwise_cons.2 ⟨?_, (List.pairwise_cons.1 h).2⟩
        intro a ha
        exact he ▸ hrest a ha

theorem find?_place [DecidableEq κ] [DecidableLT κ] [LinearKey κ] (k k' : κ) (v : ν)
    (l : List (κ × ν)) : find? k' (place k v l) = if k = k' then some v else find? k' l := by
  induction l with
  | nil => simp [place, find?]
  | cons e rest ih =>
    rw [place]
    split
    · simp [find?]
    · split
      · rename_i hk
        have hne : e.1 ≠ k := fun heq => LinearKey.irrefl k (heq ▸ hk)
        by_cases h : k = k'
        · subst h
          simp [find?, hne, ih]
        · simp [find?, ih, h]
      · rename_i h₁ h₂
        have he : e.1 = k := LinearKey.connected h₂ h₁
        by_cases h : k = k' <;> simp [find?, he, h]

omit [LT κ] in
theorem find?_eq_none [DecidableEq κ] {k : κ} {l : List (κ × ν)} (h : ∀ e ∈ l, e.1 ≠ k) :
    find? k l = none := by
  induction l with
  | nil => rfl
  | cons e rest ih =>
    rw [find?, if_neg (h e (by simp))]
    exact ih fun a ha => h a (by simp [ha])

omit [LT κ] in
theorem find?_filter_ne [DecidableEq κ] (k k' : κ) (l : List (κ × ν)) :
    find? k' (l.filter fun e => decide (e.1 ≠ k)) = if k = k' then none else find? k' l := by
  induction l with
  | nil => simp [find?]
  | cons e rest ih =>
    by_cases he : e.1 = k <;> by_cases hk : k = k' <;>
      simp_all [find?]

/-! ### Maps -/

/-- The map with no entry. -/
def empty : SortedMap κ ν := ⟨[], List.Pairwise.nil⟩

instance : Inhabited (SortedMap κ ν) := ⟨empty⟩

/-- The value stored for a key. -/
def get? [DecidableEq κ] (m : SortedMap κ ν) (k : κ) : Option ν := find? k m.entries

/-- Whether a key has a value. -/
def contains [DecidableEq κ] (m : SortedMap κ ν) (k : κ) : Bool := (m.get? k).isSome

/-- Stores a value for a key, replacing the one it had. -/
def insert [DecidableLT κ] [LinearKey κ] (m : SortedMap κ ν) (k : κ) (v : ν) : SortedMap κ ν :=
  ⟨place k v m.entries, ascending_place k v m.ascending⟩

/-- Removes the value of a key. -/
def erase [DecidableEq κ] (m : SortedMap κ ν) (k : κ) : SortedMap κ ν :=
  ⟨m.entries.filter fun e => decide (e.1 ≠ k), m.ascending.filter _⟩

/-- Keeps the entries that pass a test. -/
def filter (m : SortedMap κ ν) (p : κ → ν → Bool) : SortedMap κ ν :=
  ⟨m.entries.filter fun e => p e.1 e.2, m.ascending.filter _⟩

/-- The keys, ascending. -/
def keys (m : SortedMap κ ν) : List κ := m.entries.map (·.1)

/-- The map of a list of entries; of two entries for one key the later counts. -/
def ofList [DecidableLT κ] [LinearKey κ] (l : List (κ × ν)) : SortedMap κ ν :=
  l.foldl (fun m e => m.insert e.1 e.2) empty

instance [DecidableEq κ] [DecidableEq ν] : DecidableEq (SortedMap κ ν) := fun a b =>
  decidable_of_iff (a.entries = b.entries) (by cases a; cases b; simp)

@[simp] theorem get?_empty [DecidableEq κ] (k : κ) : (empty : SortedMap κ ν).get? k = none := rfl

@[simp] theorem get?_insert [DecidableEq κ] [DecidableLT κ] [LinearKey κ] (m : SortedMap κ ν)
    (k k' : κ) (v : ν) : (m.insert k v).get? k' = if k = k' then some v else m.get? k' :=
  find?_place k k' v m.entries

@[simp] theorem get?_erase [DecidableEq κ] (m : SortedMap κ ν) (k k' : κ) :
    (m.erase k).get? k' = if k = k' then none else m.get? k' :=
  find?_filter_ne k k' m.entries

/-- Strictly ascending entry lists with the same lookups are equal. -/
theorem entries_ext [DecidableEq κ] [LinearKey κ] {l₁ l₂ : List (κ × ν)}
    (h₁ : l₁.Pairwise fun a b => a.1 < b.1) (h₂ : l₂.Pairwise fun a b => a.1 < b.1)
    (h : ∀ k, find? k l₁ = find? k l₂) : l₁ = l₂ := by
  induction l₁ generalizing l₂ with
  | nil =>
    cases l₂ with
    | nil => rfl
    | cons e rest => simpa [find?] using h e.1
  | cons e₁ r₁ ih =>
    obtain ⟨lo₁, s₁⟩ := List.pairwise_cons.1 h₁
    cases l₂ with
    | nil => simpa [find?] using h e₁.1
    | cons e₂ r₂ =>
      obtain ⟨lo₂, s₂⟩ := List.pairwise_cons.1 h₂
      have fresh {e : κ × ν} {r : List (κ × ν)} {k : κ} (lo : ∀ a ∈ r, e.1 < a.1)
          (hk : k < e.1 ∨ k = e.1) : find? k r = none :=
        find?_eq_none fun a ha heq => by
          subst heq
          rcases hk with hk | hk
          · exact LinearKey.irrefl _ (LinearKey.trans hk (lo a ha))
          · exact LinearKey.irrefl a.1 (hk.symm ▸ lo a ha)
      have hkey : e₁.1 = e₂.1 := by
        refine LinearKey.connected (fun hlt => ?_) (fun hlt => ?_)
        · have := h e₁.1
          have hne : e₂.1 ≠ e₁.1 := fun heq => LinearKey.irrefl e₁.1 (heq ▸ hlt)
          simp [find?, hne, fresh lo₂ (Or.inl hlt)] at this
        · have := h e₂.1
          have hne : e₁.1 ≠ e₂.1 := fun heq => LinearKey.irrefl e₂.1 (heq ▸ hlt)
          simp [find?, hne, fresh lo₁ (Or.inl hlt)] at this
      have hval : e₁.2 = e₂.2 := by simpa [find?, hkey] using h e₁.1
      have hrest : r₁ = r₂ := ih s₁ s₂ fun k => by
        by_cases hk : e₁.1 = k
        · rw [fresh lo₁ (Or.inr hk.symm), fresh lo₂ (Or.inr (hk ▸ hkey))]
        · simpa [find?, hk, hkey ▸ hk] using h k
      rw [hrest, Prod.ext hkey hval]

/-- Maps with the same lookups are equal. -/
theorem ext_get? [DecidableEq κ] [LinearKey κ] {a b : SortedMap κ ν}
    (h : ∀ k, a.get? k = b.get? k) : a = b := by
  cases a with
  | mk ea ha =>
    cases b with
    | mk eb hb =>
      have : ea = eb := entries_ext ha hb h
      subst this
      rfl

end SortedMap

end KernelCache
