/-
**Maps and their lists of entries.**

Main results:

* `SortedMap.ofList_entries` — **a map is the map of its entries**;
* `SortedMap.mem_keys_iff`, `SortedMap.nodup_keys`, `SortedMap.mem_entries_iff` — what the keys and
  the entries are;
* `SortedMap.foldl_erase_keys` — a map without its keys is empty.
-/

import KernelCache.SortedMap

set_option relaxedAutoImplicit false
set_option autoImplicit false

namespace KernelCache

namespace SortedMap

variable {κ ν : Type} [LT κ] [DecidableLT κ] [LinearKey κ]

omit [DecidableLT κ] [LinearKey κ] in
theorem eq_of_entries {m m' : SortedMap κ ν} (h : m.entries = m'.entries) : m = m' := by
  cases m
  cases m'
  simpa using h

/-- An entry with the greatest key comes last. -/
theorem place_append {k : κ} {v : ν} {l : List (κ × ν)} (h : ∀ e ∈ l, e.1 < k) :
    place k v l = l ++ [(k, v)] := by
  induction l with
  | nil => rfl
  | cons e rest ih =>
      have he : e.1 < k := h e (by simp)
      have hnot : ¬k < e.1 := fun hk => LinearKey.irrefl k (LinearKey.trans hk he)
      rw [place, if_neg hnot, if_pos he, ih fun a ha => h a (by simp [ha]), List.cons_append]

theorem entries_foldl_insert {l : List (κ × ν)} (hl : l.Pairwise fun a b => a.1 < b.1)
    (m : SortedMap κ ν) (h : ∀ e ∈ m.entries, ∀ e' ∈ l, e.1 < e'.1) :
    (l.foldl (fun m e => m.insert e.1 e.2) m).entries = m.entries ++ l := by
  induction l generalizing m with
  | nil => simp
  | cons e rest ih =>
      obtain ⟨hfirst, hrest⟩ := List.pairwise_cons.1 hl
      have hinsert : (m.insert e.1 e.2).entries = m.entries ++ [e] :=
        place_append fun a ha => h a ha e (by simp)
      rw [List.foldl_cons, ih hrest, hinsert, List.append_assoc, List.singleton_append]
      intro a ha e' he'
      rw [hinsert, List.mem_append, List.mem_singleton] at ha
      rcases ha with ha | rfl
      · exact h a ha e' (by simp [he'])
      · exact hfirst e' he'

omit [LT κ] [DecidableLT κ] [LinearKey κ] in
/-- Of entries with distinct keys each is found. -/
theorem find?_of_mem [DecidableEq κ] {l : List (κ × ν)} (hl : (l.map (·.1)).Nodup) {e : κ × ν}
    (h : e ∈ l) : find? e.1 l = some e.2 := by
  induction l with
  | nil => exact absurd h List.not_mem_nil
  | cons a rest ih =>
      obtain ⟨hnot, hrest⟩ := List.nodup_cons.1 hl
      rw [find?]
      rcases List.mem_cons.1 h with rfl | h
      · rw [if_pos rfl]
      · have hne : a.1 ≠ e.1 := by
          intro heq
          exact hnot (List.mem_map.2 ⟨e, h, heq.symm⟩)
        rw [if_neg hne, ih hrest h]

/-- Entries with distinct keys are found in the map that they make. -/
theorem get?_ofList [DecidableEq κ] {l : List (κ × ν)} (hl : (l.map (·.1)).Nodup) (k : κ) :
    (ofList l).get? k = find? k l := by
  have hfold : ∀ m : SortedMap κ ν,
      (l.foldl (fun m e => m.insert e.1 e.2) m).get? k = (find? k l).or (m.get? k) := by
    induction l with
    | nil => exact fun m => rfl
    | cons e rest ih =>
        obtain ⟨hnot, hrest⟩ := List.nodup_cons.1 hl
        intro m
        rw [List.foldl_cons, ih hrest, get?_insert, find?]
        by_cases he : e.1 = k
        · have hnone : find? k rest = none := by
            refine find?_eq_none fun a ha heq => ?_
            exact hnot (List.mem_map.2 ⟨a, ha, heq.trans he.symm⟩)
          rw [if_pos he, if_pos he, hnone]
          rfl
        · rw [if_neg he, if_neg he]
  rw [ofList, hfold empty, get?_empty, Option.or_none]

/-- **A map is the map of its entries.** -/
theorem ofList_entries (m : SortedMap κ ν) : ofList m.entries = m := by
  have hnone : ∀ e ∈ (empty : SortedMap κ ν).entries, ∀ e' ∈ m.entries, e.1 < e'.1 :=
    fun e he => absurd he List.not_mem_nil
  have hentries : (ofList m.entries).entries = m.entries :=
    entries_foldl_insert m.ascending empty hnone
  exact eq_of_entries hentries

/-! ### Keys -/

section

variable [DecidableEq κ]

omit [LT κ] [DecidableLT κ] [LinearKey κ] in
theorem mem_map_fst_iff {l : List (κ × ν)} {k : κ} :
    k ∈ l.map (·.1) ↔ ∃ v, find? k l = some v := by
  induction l with
  | nil => simp [find?]
  | cons e rest ih =>
      rw [List.map_cons, List.mem_cons, find?]
      by_cases he : e.1 = k
      · simp [he]
      · simp [he, Ne.symm he, ih]

omit [DecidableLT κ] [LinearKey κ] in
theorem mem_keys_iff {m : SortedMap κ ν} {k : κ} : k ∈ m.keys ↔ ∃ v, m.get? k = some v :=
  mem_map_fst_iff

omit [DecidableLT κ] [DecidableEq κ] in
theorem nodup_keys (m : SortedMap κ ν) : m.keys.Nodup := by
  rw [keys, List.Nodup, List.pairwise_map]
  refine m.ascending.imp fun {a b} hlt heq => ?_
  rw [heq] at hlt
  exact LinearKey.irrefl b.1 hlt

omit [DecidableLT κ] in
/-- The entries are the keys with their values. -/
theorem mem_entries_iff {m : SortedMap κ ν} {k : κ} {v : ν} :
    (k, v) ∈ m.entries ↔ m.get? k = some v := by
  constructor
  · exact find?_of_mem (nodup_keys m)
  · intro h
    obtain ⟨⟨k', v'⟩, hmem, rfl⟩ := List.mem_map.1 (mem_keys_iff.2 ⟨v, h⟩)
    have hget : m.get? k' = some v' := find?_of_mem (nodup_keys m) hmem
    rw [hget] at h
    exact Option.some.inj h ▸ hmem

omit [DecidableLT κ] [LinearKey κ] in
theorem get?_foldl_erase (l : List κ) (m : SortedMap κ ν) (k : κ) :
    (l.foldl (fun m k => m.erase k) m).get? k = if k ∈ l then none else m.get? k := by
  induction l generalizing m with
  | nil => simp
  | cons k' rest ih =>
      rw [List.foldl_cons, ih, get?_erase]
      by_cases hk : k' = k
      · simp [hk]
      · simp [hk, Ne.symm hk]

omit [DecidableLT κ] in
/-- A map without its keys is empty. -/
theorem foldl_erase_keys (m : SortedMap κ ν) :
    m.keys.foldl (fun m k => m.erase k) m = empty := by
  refine ext_get? fun k => ?_
  rw [get?_foldl_erase, get?_empty]
  split
  · rfl
  · next hk =>
      cases hget : m.get? k with
      | none => rfl
      | some v => exact absurd (mem_keys_iff.2 ⟨v, hget⟩) hk

end

end SortedMap

end KernelCache
