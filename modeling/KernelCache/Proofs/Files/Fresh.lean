/-
**Fresh names.**

The names of fresh files end in six digits, so there are a million for each start.  A fresh file can
be had as long as one of them is not in use.

Main results:

* `FileSystem.freshTail_eq_iff` — which numbers give the same name;
* `FileSystem.createFresh_of_free` — **creating a fresh file succeeds if a name is free**.
-/

import Mathlib.Data.List.Nodup
import Mathlib.Data.List.Perm.Subperm
import KernelCache.Proofs.Files.Success
import KernelCache.Proofs.Text.Utf8

set_option relaxedAutoImplicit false
set_option autoImplicit false

namespace KernelCache

namespace FileSystem

variable {fs : FileSystem} {p : Path} {stem : String} {n : Nat}

/-- How many names there are for fresh files of one start. -/
def freshNames : Nat := 1000000

theorem freshTail_toList (n : Nat) : (freshTail n).toList =
    (List.range 6).reverse.map fun i => Char.ofNat (48 + n / Nat.pow 10 i % 10) :=
  String.toList_ofList

theorem digit_injective {a b : Nat} (h : Char.ofNat (48 + a % 10) = Char.ofNat (48 + b % 10)) :
    a % 10 = b % 10 := by
  have hall : ∀ x < 10, ∀ y < 10, Char.ofNat (48 + x) = Char.ofNat (48 + y) → x = y := by decide
  exact hall _ (Nat.mod_lt a (by decide)) _ (Nat.mod_lt b (by decide)) h

/-- Six digits tell numbers apart up to multiples of a million. -/
theorem freshTail_eq_iff {a b : Nat} :
    freshTail a = freshTail b ↔ a % freshNames = b % freshNames := by
  have hdigits : freshTail a = freshTail b ↔ ∀ i < 6, a / 10 ^ i % 10 = b / 10 ^ i % 10 := by
    rw [← String.toList_inj, freshTail_toList, freshTail_toList, List.map_inj_left]
    refine forall_congr' fun i => ?_
    rw [List.mem_reverse, List.mem_range]
    exact imp_congr_right fun _ => ⟨digit_injective, fun h => congrArg (Char.ofNat <| 48 + ·) h⟩
  rw [hdigits, freshNames]
  constructor
  · intro h
    have h0 := h 0 (by decide)
    have h1 := h 1 (by decide)
    have h2 := h 2 (by decide)
    have h3 := h 3 (by decide)
    have h4 := h 4 (by decide)
    have h5 := h 5 (by decide)
    omega
  · intro h i hi
    have hcases : i = 0 ∨ i = 1 ∨ i = 2 ∨ i = 3 ∨ i = 4 ∨ i = 5 := by omega
    rcases hcases with rfl | rfl | rfl | rfl | rfl | rfl <;> omega

/-- A directory entry is not one of the places where a directory stands for ever. -/
theorem not_isBase_child {name : String} (h : Plain (Utf8.encode name)) :
    ¬IsBase (p.child name).place := by
  rw [Path.place_child h]
  rintro (hnil | hroot)
  · cases List.append_eq_nil_iff.1 hnil |>.2
  · have hlast := congrArg List.getLast? hroot
    have hname : Utf8.encode name = [Path.slash] := by simpa [rootPlace] using hlast
    have hslash := h.noSlash
    rw [hname] at hslash
    exact hslash (List.mem_singleton_self _)

/-- Nodes that are not there for ever are listed. -/
theorem mem_entries_of_node? {x : Place} (hbase : ¬IsBase x) (h : fs.node? x ≠ none) :
    x ∈ fs.nodes.keys := by
  rw [node?, if_neg (show ¬(x = [] ∨ x = rootPlace) from hbase)] at h
  exact SortedMap.mem_keys_of_get? h

/-- Of the names that are tried one is free, if any is. -/
theorem exists_free_candidate (hplain : ∀ k, Plain (Utf8.encode (stem ++ freshTail k)))
    (hfree : ∃ k, fs.node? (p.child (stem ++ freshTail k)).place = none) (n : Nat) :
    ∃ i < fs.nodes.entries.length + 1,
      fs.node? (p.child (stem ++ freshTail (n + i))).place = none := by
  by_contra hno
  have hnone : ∀ i < fs.nodes.entries.length + 1,
      fs.node? (p.child (stem ++ freshTail (n + i))).place ≠ none :=
    fun i hi heq => hno ⟨i, hi, heq⟩
  by_cases hmany : freshNames ≤ fs.nodes.entries.length
  · -- all names are tried
    obtain ⟨k, hk⟩ := hfree
    obtain ⟨i, hi, hsame⟩ : ∃ i < freshNames, (n + i) % freshNames = k % freshNames := by
      refine ⟨(k + (freshNames - n % freshNames)) % freshNames, Nat.mod_lt _ (by decide), ?_⟩
      rw [freshNames]
      omega
    refine hnone i (by omega) ?_
    rw [freshTail_eq_iff.2 hsame]
    exact hk
  · -- there are more names than files
    have hnodup : ((List.range (fs.nodes.entries.length + 1)).map fun i =>
        (p.child (stem ++ freshTail (n + i))).place).Nodup := by
      refine List.Nodup.map_on (fun i hi j hj heq => ?_) List.nodup_range
      rw [List.mem_range] at hi hj
      rw [Path.place_child (hplain _), Path.place_child (hplain _)] at heq
      have hname := Utf8.encode_injective (List.singleton_inj.1 (List.append_cancel_left heq))
      have htail : freshTail (n + i) = freshTail (n + j) := by
        have hlist := congrArg String.toList hname
        rw [String.toList_append, String.toList_append] at hlist
        exact String.toList_inj.1 (List.append_cancel_left hlist)
      rw [freshTail_eq_iff] at htail
      rw [freshNames] at *
      omega
    have hsubset : ((List.range (fs.nodes.entries.length + 1)).map fun i =>
        (p.child (stem ++ freshTail (n + i))).place) ⊆ fs.nodes.keys := by
      intro x hx
      obtain ⟨i, hi, rfl⟩ := List.mem_map.1 hx
      exact mem_entries_of_node? (not_isBase_child (hplain _)) (hnone i (List.mem_range.1 hi))
    have hlength := (List.subperm_of_subset hnodup hsubset).length_le
    simp only [SortedMap.keys, List.length_map, List.length_range] at hlength
    omega

/-- **Creating a fresh file succeeds if one of its names is free.** -/
theorem createFresh_of_free (hplain : ∀ k, Plain (Utf8.encode (stem ++ freshTail k)))
    (hw : fs.Walkable p) (hfree : ∃ k, fs.node? (p.child (stem ++ freshTail k)).place = none)
    (n : Nat) :
    ∃ k fs', fs.node? (p.child (stem ++ freshTail k)).place = none ∧
      fs.createFresh p stem n = .ok (p.child (stem ++ freshTail k), fs') := by
  obtain ⟨i, hi, hnode⟩ := exists_free_candidate hplain hfree n
  have hlookup : fs.lookup (p.child (stem ++ freshTail (n + i))) = .error .notFound := by
    rw [lookup_child (hplain _) hw, hnode]
  obtain ⟨q, hq⟩ : ∃ q, fs.freshPath? p stem n = some q := by
    refine Option.isSome_iff_exists.1 (List.find?_isSome.2
      ⟨p.child (stem ++ freshTail (n + i)), ?_, ?_⟩)
    · exact List.mem_map.2 ⟨i, List.mem_range.2 hi, rfl⟩
    · simp [hlookup]
  obtain ⟨j, -, rfl⟩ := List.mem_map.1 (List.mem_of_find?_eq_some hq)
  have hfound : fs.lookup (p.child (stem ++ freshTail (n + j))) = .error .notFound := by
    have hmatches := List.find?_some hq
    split at hmatches
    · assumption
    · cases hmatches
  have hnone : fs.node? (p.child (stem ++ freshTail (n + j))).place = none := by
    rw [lookup_child (hplain _) hw] at hfound
    cases hn : fs.node? (p.child (stem ++ freshTail (n + j))).place with
    | none => rfl
    | some node =>
        rw [hn] at hfound
        cases hfound
  obtain ⟨fs', hwrite⟩ := writeFile_child (hplain (n + j)) hw (by simp [hnone]) []
  refine ⟨n + j, fs', hnone, ?_⟩
  rw [createFresh, hq]
  simp only [bind, Except.bind, hwrite]
  rfl

end FileSystem

end KernelCache
