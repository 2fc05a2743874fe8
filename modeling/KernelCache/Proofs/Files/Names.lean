/-
**What is in a directory.**

The names in a directory can be read where the walk to it ends there, and then each of them is read
once.  A walk that fails does so because something is missing, or because a file stands on the way.

Main results:

* `FileSystem.nodup_namesAt` — no name is there twice;
* `FileSystem.names_child`, `FileSystem.walkable_of_names` — **reading the names**;
* `FileSystem.names_child_error` — how reading the names fails.
-/

import KernelCache.Proofs.Files.Success
import Mathlib.Data.List.Nodup

set_option relaxedAutoImplicit false
set_option autoImplicit false

namespace KernelCache.FileSystem

variable {fs : FileSystem} {p : Path} {name : String}

/-- No name is in a directory twice. -/
theorem nodup_namesAt (fs : FileSystem) (x : Place) : (fs.namesAt x).Nodup := by
  refine List.Nodup.filterMap (fun k k' a hk hk' => ?_) fs.nodes.nodup_keys
  rw [eq_append_of_named hk, eq_append_of_named hk']

/-! ### Reading -/

/-- The names in a directory entry, if the directories on the way to it are there. -/
theorem names_child (h : Plain (Utf8.encode name)) (hw : fs.Walkable p) :
    fs.names (p.child name) =
      match fs.node? (p.child name).place with
      | none => .error .notFound
      | some (.file _) => .error .notADirectory
      | some .directory => .ok (fs.namesAt (p.child name).place) := by
  rw [names, lookup_child h hw]
  cases hn : fs.node? (p.child name).place with
  | none => rfl
  | some n => cases n <;> rfl

/-- The names below a walk that fails cannot be read. -/
theorem names_of_walk_error (h : Plain (Utf8.encode name)) {e : Failure}
    (hw : fs.walk (startOf p) p.steps = .error e) : fs.names (p.child name) = .error e := by
  rw [names, lookup_of_walk_error h hw]
  rfl

/-- If the names in a directory entry can be read, the directory is there, and these are its
names. -/
theorem walkable_of_names {l : List Bytes} (h : Plain (Utf8.encode name))
    (hl : fs.names (p.child name) = .ok l) :
    fs.Walkable (p.child name) ∧ l = fs.namesAt (p.child name).place := by
  cases hw : fs.walk (startOf p) p.steps with
  | error e => cases (names_of_walk_error h hw).symm.trans hl
  | ok x =>
      have hwalk := (walk_steps_eq_ok_iff.1 hw).2
      rw [names_child h hwalk] at hl
      split at hl
      · cases hl
      · cases hl
      · next hnode =>
          exact ⟨(walkable_child_iff h).2 ⟨hwalk, hnode⟩, (Except.ok.inj hl).symm⟩

/-- **How reading the names fails**: something is missing, or a file stands on the way or in the
place of the directory. -/
theorem names_child_error {e : Failure} (h : Plain (Utf8.encode name))
    (he : fs.names (p.child name) = .error e) :
    e = .notFound ∨
      e = .notADirectory ∧ ∃ x ∈ (p.child name).visits, ∃ b, fs.node? x = some (.file b) := by
  rw [Path.visits_child h]
  cases hw : fs.walk (startOf p) p.steps with
  | error e' =>
      obtain rfl : e' = e := Except.error.inj ((names_of_walk_error h hw).symm.trans he)
      rcases walk_error_cases hw with hmissing | ⟨heq, x, hx, hfile⟩
      · exact Or.inl hmissing
      · exact Or.inr ⟨heq, x, List.mem_append_left _ hx, hfile⟩
  | ok x =>
      rw [names_child h (walk_steps_eq_ok_iff.1 hw).2] at he
      split at he
      · exact Or.inl (Except.error.inj he).symm
      · next b hfile => exact Or.inr ⟨(Except.error.inj he).symm, _, by simp, b, hfile⟩
      · cases he

end KernelCache.FileSystem
