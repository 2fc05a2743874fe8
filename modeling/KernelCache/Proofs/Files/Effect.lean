/-
**What file operations do to nodes.**

The state of the files is seen through the nodes at places.  An operation that succeeds changes the
node at the place of its path and no other, and a move changes two.

Main results:

* `FileSystem.node?_put`, `FileSystem.node?_clear` — a change at one place;
* `FileSystem.makeDirectory_ok`, `removeDirectory_ok`, `writeFile_ok`, `removeFile_ok`,
  `moveFile_ok`, `createFresh_ok` — **what holds before and after an operation that succeeds**;
* `FileSystem.lookup_child` — what is found at a directory entry.
-/

import Mathlib.Logic.Function.Basic
import KernelCache.Proofs.Files.Place

set_option relaxedAutoImplicit false
set_option autoImplicit false

namespace KernelCache

namespace FileSystem

variable {fs fs' : FileSystem} {p q : Path} {name : String}

/-! ### One place -/

/-- The places at which a directory stands for ever. -/
def IsBase (x : Place) : Prop := x = [] ∨ x = rootPlace

theorem node?_of_isBase {x : Place} (h : IsBase x) : fs.node? x = some .directory := if_pos h

theorem not_isBase_of_node? {x : Place} (h : fs.node? x ≠ some .directory) : ¬IsBase x :=
  fun hb => h (node?_of_isBase hb)

/-- What is above such a place is one, too. -/
theorem IsBase.of_prefix {x y : Place} (hy : IsBase y) (h : x <+: y) : IsBase x := by
  rcases hy with rfl | rfl
  · exact Or.inl (List.prefix_nil.1 h)
  · rw [rootPlace, List.prefix_cons_iff] at h
    rcases h with hnil | ⟨l, heq, hl⟩
    · exact Or.inl hnil
    · rw [List.prefix_nil.1 hl] at heq
      exact Or.inr heq

theorem isBase_of_prefix_startOf {x : Place} (h : x <+: startOf p) : IsBase x := by
  refine IsBase.of_prefix ?_ h
  rw [startOf]
  split
  · exact Or.inr rfl
  · exact Or.inl rfl

theorem node?_put {x : Place} (h : ¬IsBase x) (n : Node) :
    (fs.put x n).node? = Function.update fs.node? x (some n) := by
  have h' : ¬(x = [] ∨ x = rootPlace) := h
  funext y
  by_cases hyx : y = x
  · subst hyx
    rw [Function.update_self, node?, if_neg h']
    simp [put]
  · rw [Function.update_of_ne hyx]
    simp [node?, put, Ne.symm hyx]

theorem node?_clear {x : Place} (h : ¬IsBase x) :
    (fs.clear x).node? = Function.update fs.node? x none := by
  have h' : ¬(x = [] ∨ x = rootPlace) := h
  funext y
  by_cases hyx : y = x
  · subst hyx
    rw [Function.update_self, node?, if_neg h']
    simp [clear]
  · rw [Function.update_of_ne hyx]
    simp [node?, clear, Ne.symm hyx]

/-! ### Reading -/

theorem lookup_ok {x : Place} {n : Node} (h : fs.lookup p = .ok (x, n)) :
    x = p.place ∧ fs.node? p.place = some n := by
  rw [lookup] at h
  obtain ⟨t, ht, h⟩ := bind_eq_ok_iff.1 h
  rw [← place_of_resolve ht]
  split at h
  · cases h
  · split at h
    · cases h
    · cases h
      exact ⟨rfl, by assumption⟩
  · cases h
    exact ⟨rfl, by assumption⟩

theorem readFile_ok {b : Bytes} (h : fs.readFile p = .ok b) :
    fs.node? p.place = some (.file b) := by
  rw [readFile] at h
  obtain ⟨⟨x, n⟩, hl, h⟩ := bind_eq_ok_iff.1 h
  obtain ⟨-, hn⟩ := lookup_ok hl
  cases n with
  | directory => cases h
  | file c => rw [hn, ← Except.ok.inj h]

/-- What is found at a directory entry, if the directories on the way to it are there. -/
theorem lookup_child (h : Plain (Utf8.encode name)) (hw : fs.Walkable p) :
    fs.lookup (p.child name) =
      match fs.node? (p.child name).place with
      | none => .error .notFound
      | some n => .ok ((p.child name).place, n) := by
  rw [lookup, resolve_child_ok h hw]
  simp only [bind, Except.bind]
  cases hn : fs.node? (p.child name).place with
  | none => rfl
  | some n => cases n <;> rfl

theorem readFile_child (h : Plain (Utf8.encode name)) (hw : fs.Walkable p) :
    fs.readFile (p.child name) =
      match fs.node? (p.child name).place with
      | none => .error .notFound
      | some .directory => .error .isADirectory
      | some (.file b) => .ok b := by
  rw [readFile, lookup_child h hw]
  cases hn : fs.node? (p.child name).place with
  | none => rfl
  | some n => cases n <;> rfl

/-- If something is found at a directory entry, the directories on the way to it are there. -/
theorem walkable_of_lookup {found : Place × Node} (h : Plain (Utf8.encode name))
    (hl : fs.lookup (p.child name) = .ok found) : fs.Walkable p := by
  rw [lookup] at hl
  obtain ⟨t, ht, -⟩ := bind_eq_ok_iff.1 hl
  exact walkable_of_resolve_child h ht

theorem walkable_of_readFile {b : Bytes} (h : Plain (Utf8.encode name))
    (hr : fs.readFile (p.child name) = .ok b) : fs.Walkable p := by
  rw [readFile] at hr
  obtain ⟨found, hl, -⟩ := bind_eq_ok_iff.1 hr
  exact walkable_of_lookup h hl

/-! ### Changing -/

theorem makeDirectory_ok (h : fs.makeDirectory p = .ok fs') :
    fs.node? p.place = none ∧
      fs'.node? = Function.update fs.node? p.place (some .directory) := by
  rw [makeDirectory] at h
  obtain ⟨t, ht, h⟩ := bind_eq_ok_iff.1 h
  rw [← place_of_resolve ht]
  split at h
  · cases h
  · next hnone =>
      cases h
      have hdir : fs.node? t.place ≠ some .directory := by simp [hnone]
      exact ⟨hnone, node?_put (not_isBase_of_node? hdir) _⟩

theorem walkable_of_makeDirectory (h : Plain (Utf8.encode name))
    (hm : fs.makeDirectory (p.child name) = .ok fs') : fs.Walkable p := by
  rw [makeDirectory] at hm
  obtain ⟨t, ht, -⟩ := bind_eq_ok_iff.1 hm
  exact walkable_of_resolve_child h ht

theorem removeDirectory_ok (h : fs.removeDirectory p = .ok fs') :
    fs.node? p.place = some .directory ∧
      (¬IsBase p.place → fs'.node? = Function.update fs.node? p.place none) := by
  rw [removeDirectory] at h
  obtain ⟨⟨x, n⟩, hl, h⟩ := bind_eq_ok_iff.1 h
  obtain ⟨rfl, hn⟩ := lookup_ok hl
  cases n with
  | file c => cases h
  | directory =>
      dsimp only at h
      split at h
      · cases h
        exact ⟨hn, node?_clear⟩
      · cases h

theorem writeFile_ok {contents : Bytes} (h : fs.writeFile p contents = .ok fs') :
    fs.node? p.place ≠ some .directory ∧
      fs'.node? = Function.update fs.node? p.place (some (.file contents)) := by
  rw [writeFile] at h
  obtain ⟨t, ht, h⟩ := bind_eq_ok_iff.1 h
  rw [← place_of_resolve ht]
  -- writing fails where a directory stands, so nothing of the fixed directories is replaced
  have hdir : fs.node? t.place ≠ some .directory := by
    intro hd
    rw [hd] at h
    cases h
  refine ⟨hdir, ?_⟩
  split at h
  · cases h
  · split at h
    · cases h
    · cases h
      exact node?_put (not_isBase_of_node? hdir) _
  · split at h
    · cases h
    · cases h
      exact node?_put (not_isBase_of_node? hdir) _

theorem walkable_of_writeFile {contents : Bytes} (h : Plain (Utf8.encode name))
    (hw : fs.writeFile (p.child name) contents = .ok fs') : fs.Walkable p := by
  rw [writeFile] at hw
  obtain ⟨t, ht, -⟩ := bind_eq_ok_iff.1 hw
  exact walkable_of_resolve_child h ht

theorem removeFile_ok (h : fs.removeFile p = .ok fs') :
    ∃ b, fs.node? p.place = some (.file b) ∧
      fs'.node? = Function.update fs.node? p.place none := by
  rw [removeFile] at h
  obtain ⟨⟨x, n⟩, hl, h⟩ := bind_eq_ok_iff.1 h
  obtain ⟨rfl, hn⟩ := lookup_ok hl
  cases n with
  | directory => cases h
  | file c =>
      rw [← Except.ok.inj h]
      have hdir : fs.node? p.place ≠ some .directory := by simp [hn]
      exact ⟨c, hn, node?_clear (not_isBase_of_node? hdir)⟩

theorem moveFile_ok (h : fs.moveFile p q = .ok fs') :
    ∃ b, fs.node? p.place = some (.file b) ∧ fs.node? q.place ≠ some .directory ∧
      fs'.node? =
        Function.update (Function.update fs.node? p.place none) q.place (some (.file b)) := by
  rw [moveFile] at h
  obtain ⟨s, hs, h⟩ := bind_eq_ok_iff.1 h
  obtain ⟨t, ht, h⟩ := bind_eq_ok_iff.1 h
  rw [← place_of_resolve hs, ← place_of_resolve ht]
  split at h
  · cases h
  · cases h
  · next b hfile =>
      -- a file moves to a place where there is no directory
      have hdir : fs.node? t.place ≠ some .directory := by
        intro hd
        rw [hd] at h
        cases h
      split at h
      · cases h
      · split at h
        · cases h
        · cases h
          have hsource : fs.node? s.place ≠ some .directory := by simp [hfile]
          refine ⟨b, hfile, hdir, ?_⟩
          rw [node?_put (not_isBase_of_node? hdir), node?_clear (not_isBase_of_node? hsource)]

theorem walkable_of_moveFile (h : Plain (Utf8.encode name))
    (hm : fs.moveFile p (q.child name) = .ok fs') : fs.Walkable q := by
  rw [moveFile] at hm
  obtain ⟨s, -, hm⟩ := bind_eq_ok_iff.1 hm
  obtain ⟨t, ht, -⟩ := bind_eq_ok_iff.1 hm
  exact walkable_of_resolve_child h ht

/-- A fresh file is empty, and nothing was found at its path before. -/
theorem createFresh_ok {dir : Path} {stem : String} {n : Nat}
    (h : fs.createFresh dir stem n = .ok (p, fs')) :
    (∃ k, p = dir.child (stem ++ freshTail k)) ∧ fs.lookup p = .error .notFound ∧
      fs.writeFile p [] = .ok fs' := by
  rw [createFresh] at h
  split at h
  · next found hfound =>
      obtain ⟨fs₁, hw, h⟩ := bind_eq_ok_iff.1 h
      obtain ⟨rfl, rfl⟩ := Prod.mk.inj (Except.ok.inj h)
      -- the first of the names that was free
      obtain ⟨i, -, hi⟩ := List.mem_map.1 (List.mem_of_find?_eq_some hfound)
      refine ⟨⟨n + i, hi.symm⟩, ?_, hw⟩
      have hfree := List.find?_some hfound
      split at hfree
      · assumption
      · cases hfree
  · obtain ⟨found, -, h⟩ := bind_eq_ok_iff.1 h
    cases h

end FileSystem

end KernelCache
