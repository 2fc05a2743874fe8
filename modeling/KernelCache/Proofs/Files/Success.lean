/-
**File operations that succeed.**

What an operation on a directory entry comes to, when what stands at the places on the way is known.

Main results:

* `walk_child_error`, `walk_child_missing` — walks that end too early;
* `makeDirectory_child`, `makeDirectory_missing` — **making a directory**, with its parent and
  without it;
* `writeFile_child`, `removeFile_child`, `moveFile_child` — files;
* `mem_namesAt_iff` — the names in a directory;
* `removeDirectory_child`, `removeDirectory_gone` — removing an empty directory.
-/

import KernelCache.Proofs.Files.Effect
import KernelCache.Proofs.SortedMap

set_option relaxedAutoImplicit false
set_option autoImplicit false

namespace KernelCache

namespace SortedMap

variable {κ ν : Type} [DecidableEq κ]

theorem find?_ne_none {e : κ × ν} {l : List (κ × ν)} (h : e ∈ l) : find? e.1 l ≠ none := by
  induction l with
  | nil => cases h
  | cons e' rest ih =>
      rw [find?]
      split
      · simp
      · rename_i hne
        rcases List.mem_cons.1 h with heq | hrest
        · exact absurd (by rw [heq]) hne
        · exact ih hrest

theorem get?_ne_none [LT κ] {m : SortedMap κ ν} {k : κ} (h : k ∈ m.keys) : m.get? k ≠ none := by
  obtain ⟨e, he, rfl⟩ := List.mem_map.1 h
  exact find?_ne_none he

theorem mem_map_of_find? {k : κ} {l : List (κ × ν)} (h : find? k l ≠ none) : k ∈ l.map (·.1) := by
  induction l with
  | nil => exact absurd rfl h
  | cons e rest ih =>
      rw [find?] at h
      split at h
      · rename_i heq
        exact List.mem_cons.2 (Or.inl heq.symm)
      · exact List.mem_cons_of_mem _ (ih h)

theorem mem_keys_of_get? [LT κ] {m : SortedMap κ ν} {k : κ} (h : m.get? k ≠ none) : k ∈ m.keys :=
  mem_map_of_find? h

end SortedMap

namespace FileSystem

variable {fs : FileSystem} {p q : Path} {name other : String}

/-! ### Walks -/

theorem walk_append (place : Place) (l l' : List Bytes) :
    fs.walk place (l ++ l') = fs.walk place l >>= fun x => fs.walk x l' := by
  induction l generalizing place with
  | nil => rfl
  | cons piece rest ih =>
      rw [List.cons_append, walk, walk]
      split
      · exact ih _
      · cases hnode : fs.node? (place ++ [piece]) with
        | none => rfl
        | some n =>
            cases n with
            | file b => rfl
            | directory => exact ih _

/-- **How a walk fails**: something is missing, or a file stands on the way. -/
theorem walk_error_cases {place : Place} {pieces : List Bytes} {e : Failure}
    (h : fs.walk place pieces = .error e) :
    e = .notFound ∨
      e = .notADirectory ∧ ∃ x ∈ Path.visitsFrom place pieces, ∃ b, fs.node? x = some (.file b) := by
  induction pieces generalizing place with
  | nil => cases h
  | cons piece rest ih =>
      rw [walk] at h
      by_cases hup : piece = [Path.dot, Path.dot]
      · rw [if_pos hup] at h
        rw [Path.visitsFrom, if_pos hup]
        exact ih h
      · rw [if_neg hup] at h
        rw [Path.visitsFrom, if_neg hup]
        split at h
        · exact Or.inl (Except.error.inj h).symm
        · next b hfile =>
            exact Or.inr ⟨(Except.error.inj h).symm, _, List.mem_cons_self, b, hfile⟩
        · rcases ih h with hmissing | ⟨he, x, hx, hfile⟩
          · exact Or.inl hmissing
          · exact Or.inr ⟨he, x, List.mem_cons_of_mem _ hx, hfile⟩

/-- A walk to a directory entry fails if the walk to its directory does. -/
theorem walk_child_error (h : Plain (Utf8.encode name)) {e : Failure}
    (hw : fs.walk (startOf p) p.steps = .error e) :
    fs.walk (startOf (p.child name)) (p.child name).steps = .error e := by
  rw [Path.steps_child h, Path.startOf_child h, walk_append, hw]
  rfl

/-- A walk to a directory entry ends with what stands there. -/
theorem walk_child (h : Plain (Utf8.encode name)) (hw : fs.Walkable p) :
    fs.walk (startOf (p.child name)) (p.child name).steps =
      match fs.node? (p.child name).place with
      | none => .error .notFound
      | some (.file _) => .error .notADirectory
      | some .directory => .ok (p.child name).place := by
  rw [Path.steps_child h, Path.startOf_child h, walk_append, walk_of_walkable hw,
    Path.place_child h]
  change fs.walk p.place [Utf8.encode name] = _
  rw [walk, if_neg h.ne_up]
  rfl

/-- A walk to a directory entry that is missing. -/
theorem walk_child_missing (h : Plain (Utf8.encode name)) (hw : fs.Walkable p)
    (hnode : fs.node? (p.child name).place = none) :
    fs.walk (startOf (p.child name)) (p.child name).steps = .error .notFound := by
  rw [walk_child h hw, hnode]

theorem walkable_child_iff (h : Plain (Utf8.encode name)) :
    fs.Walkable (p.child name) ↔
      fs.Walkable p ∧ fs.node? (p.child name).place = some .directory := by
  simp only [Walkable, Path.visits_child h, List.mem_append, List.mem_singleton, or_imp,
    forall_and, forall_eq]

/-- What is looked for below a walk that fails is not there. -/
theorem lookup_of_walk_error (h : Plain (Utf8.encode name)) {e : Failure}
    (hw : fs.walk (startOf p) p.steps = .error e) : fs.lookup (p.child name) = .error e := by
  rw [lookup, resolve_child h, hw]
  rfl

/-! ### Directories -/

theorem makeDirectory_child (h : Plain (Utf8.encode name)) (hw : fs.Walkable p)
    (hnode : fs.node? (p.child name).place = none) :
    ∃ fs', fs.makeDirectory (p.child name) = .ok fs' := by
  rw [makeDirectory, resolve_child_ok h hw]
  simp only [bind, Except.bind, hnode]
  exact ⟨_, rfl⟩

theorem makeDirectory_there (h : Plain (Utf8.encode name)) (hw : fs.Walkable p) {n : Node}
    (hnode : fs.node? (p.child name).place = some n) :
    fs.makeDirectory (p.child name) = .error .alreadyExists := by
  rw [makeDirectory, resolve_child_ok h hw]
  simp only [bind, Except.bind, hnode]
  rfl

theorem makeDirectory_missing (h : Plain (Utf8.encode name))
    (hw : fs.walk (startOf p) p.steps = .error .notFound) :
    fs.makeDirectory (p.child name) = .error .notFound := by
  rw [makeDirectory, resolve_child h, hw]
  rfl

/-- Nothing is named in a directory if nothing stands below it. -/
theorem namesAt_eq_nil {x : Place} (h : ∀ name, fs.node? (x ++ [name]) = none) :
    fs.namesAt x = [] := by
  rw [namesAt, List.filterMap_eq_nil_iff]
  intro k hk
  split
  · rename_i hbelow
    by_cases hnil : k = []
    · rw [hnil]
      rfl
    · have hlast : x ++ [k.getLast hnil] = k := by
        rw [← hbelow.1]
        exact List.dropLast_concat_getLast hnil
      have hnone := h (k.getLast hnil)
      rw [hlast, node?, if_neg (not_or.2 ⟨hnil, hbelow.2⟩)] at hnone
      exact absurd hnone (SortedMap.get?_ne_none hk)
  · rfl

/-- What is named at a place is the last name of something directly below it. -/
theorem eq_append_of_named {x k : Place} {a : Bytes}
    (h : (if k.dropLast = x ∧ k ≠ rootPlace then k.getLast? else none) = some a) : k = x ++ [a] := by
  split at h
  · next hbelow =>
      obtain ⟨front, rfl⟩ := List.getLast?_eq_some_iff.1 h
      rw [← hbelow.1, List.dropLast_concat]
  · cases h

/-- **The names at a place** are those under which something stands directly below it. -/
theorem mem_namesAt_iff {x : Place} (hx : ¬IsBase x) {a : Bytes} :
    a ∈ fs.namesAt x ↔ fs.node? (x ++ [a]) ≠ none := by
  have hbase : ¬(x ++ [a] = [] ∨ x ++ [a] = rootPlace) := by
    rintro (heq | heq)
    · simp at heq
    · refine hx (Or.inl ?_)
      have hlength := congrArg List.length heq
      simpa [rootPlace] using hlength
  rw [node?, if_neg hbase, namesAt, List.mem_filterMap]
  constructor
  · rintro ⟨k, hk, hnamed⟩
    rw [← eq_append_of_named hnamed]
    exact SortedMap.get?_ne_none hk
  · intro hsome
    refine ⟨x ++ [a], SortedMap.mem_keys_of_get? hsome, ?_⟩
    rw [if_pos ⟨List.dropLast_concat, (not_or.1 hbase).2⟩, List.getLast?_concat]

/-- Nothing stands directly below a place where nothing is named. -/
theorem node?_of_namesAt_eq_nil {x : Place} (hx : ¬IsBase x) (h : fs.namesAt x = [])
    (name : Bytes) : fs.node? (x ++ [name]) = none := by
  by_contra hsome
  have hmem := (mem_namesAt_iff hx).2 hsome
  rw [h] at hmem
  cases hmem

theorem removeDirectory_eq {fs' : FileSystem} (h : fs.removeDirectory p = .ok fs') :
    fs.namesAt p.place = [] ∧ fs' = fs.clear p.place := by
  rw [removeDirectory] at h
  obtain ⟨⟨x, n⟩, hl, h⟩ := bind_eq_ok_iff.1 h
  obtain ⟨rfl, hn⟩ := lookup_ok hl
  cases n with
  | file c => cases h
  | directory =>
      dsimp only at h
      split at h
      · next hnames =>
          cases h
          exact ⟨hnames, rfl⟩
      · cases h

/-- A directory that is removed had nothing in it, and nothing else changes. -/
theorem removeDirectory_gone {fs' : FileSystem} (h : fs.removeDirectory p = .ok fs') (x : Place) :
    fs'.node? x = fs.node? x ∨ x = p.place ∧ fs.node? x = some .directory ∧
      fs'.node? x = none ∧ ∀ name, fs'.node? (x ++ [name]) = none := by
  obtain ⟨hthere, hupdate⟩ := removeDirectory_ok h
  obtain ⟨hnames, hclear⟩ := removeDirectory_eq h
  by_cases hbase : IsBase p.place
  · -- the places at which a directory stands for ever keep it
    refine Or.inl ?_
    by_cases hx : x = p.place
    · rw [hx, node?_of_isBase hbase, node?_of_isBase hbase]
    · simp [hclear, node?, clear, Ne.symm hx]
  · rw [hupdate hbase]
    by_cases hx : x = p.place
    · subst hx
      refine Or.inr ⟨rfl, hthere, Function.update_self .., fun name => ?_⟩
      rw [Function.update_of_ne (by simp)]
      exact node?_of_namesAt_eq_nil hbase hnames name
    · exact Or.inl (Function.update_of_ne hx ..)

theorem removeDirectory_child (h : Plain (Utf8.encode name)) (hw : fs.Walkable p)
    (hnode : fs.node? (p.child name).place = some .directory)
    (hempty : ∀ other, fs.node? ((p.child name).place ++ [other]) = none) :
    ∃ fs', fs.removeDirectory (p.child name) = .ok fs' := by
  rw [removeDirectory, lookup_child h hw, hnode]
  simp only [bind, Except.bind, namesAt_eq_nil hempty, if_true]
  exact ⟨_, rfl⟩

/-! ### Files -/

theorem writeFile_child (h : Plain (Utf8.encode name)) (hw : fs.Walkable p)
    (hnode : fs.node? (p.child name).place ≠ some .directory) (contents : Bytes) :
    ∃ fs', fs.writeFile (p.child name) contents = .ok fs' := by
  rw [writeFile, resolve_child_ok h hw]
  simp only [bind, Except.bind]
  cases hn : fs.node? (p.child name).place with
  | none => exact ⟨_, rfl⟩
  | some n =>
      cases n with
      | file b => exact ⟨_, rfl⟩
      | directory => exact absurd hn hnode

/-- What can be read can be written over. -/
theorem writeFile_of_readFile {old : Bytes} (h : fs.readFile p = .ok old) (contents : Bytes) :
    ∃ fs', fs.writeFile p contents = .ok fs' := by
  have hnode := readFile_ok h
  rw [readFile] at h
  obtain ⟨found, hl, -⟩ := bind_eq_ok_iff.1 h
  rw [lookup] at hl
  obtain ⟨t, ht, hl⟩ := bind_eq_ok_iff.1 hl
  rw [← place_of_resolve ht] at hnode
  simp only [hnode] at hl
  cases hdir : t.asDirectory with
  | true =>
      rw [hdir] at hl
      cases hl
  | false =>
      rw [writeFile, ht]
      simp only [bind, Except.bind, hnode, hdir, Bool.false_eq_true, if_false]
      exact ⟨_, rfl⟩

theorem removeFile_child (h : Plain (Utf8.encode name)) (hw : fs.Walkable p) {b : Bytes}
    (hnode : fs.node? (p.child name).place = some (.file b)) :
    ∃ fs', fs.removeFile (p.child name) = .ok fs' := by
  rw [removeFile, lookup_child h hw, hnode]
  exact ⟨_, rfl⟩

theorem moveFile_child (h : Plain (Utf8.encode name)) (hother : Plain (Utf8.encode other))
    (hw : fs.Walkable p) (hwq : fs.Walkable q) {b : Bytes}
    (hnode : fs.node? (p.child name).place = some (.file b))
    (htarget : fs.node? (q.child other).place ≠ some .directory) :
    ∃ fs', fs.moveFile (p.child name) (q.child other) = .ok fs' := by
  rw [moveFile, resolve_child_ok h hw, resolve_child_ok hother hwq]
  simp only [bind, Except.bind, hnode]
  cases hn : fs.node? (q.child other).place with
  | none => exact ⟨_, rfl⟩
  | some n =>
      cases n with
      | file c => exact ⟨_, rfl⟩
      | directory => exact absurd hn htarget

end FileSystem

end KernelCache
