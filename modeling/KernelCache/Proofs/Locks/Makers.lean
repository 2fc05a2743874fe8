/-
**Who has made the directory of a lock.**

A history tells for each lock which table has made the directory that stands at its place.  This is
what a table has in its grip, and it is what makes locks exclusive: where a directory stands nobody
makes another, and nobody removes one that is not of its own making.

A root may be written so that the way to it leads through the place of one of its own locks.  Such a
lock can never be taken, since its directory is there whenever the root can be reached; and it is
the only lock that making the directories on the way may touch.

Main definitions:

* `Site.Takeable` — the locks that can be taken;
* `LockHistory.maker`, `LockHistory.grip` — the table that has made a directory, and what a table
  has in its grip;
* `LockHistory.Moves` — what an event may do to the directories of locks.

Main results:

* `Site.Takeable.not_above` — making the directories on the way touches no lock that can be taken;
* `LockHistory.Moves.made_of_ne` — **what others do leaves a grip as it is**.
-/

import KernelCache.Proofs.Files.Lineage
import KernelCache.Proofs.Files.Success
import KernelCache.Proofs.Locks.Grip

set_option relaxedAutoImplicit false
set_option autoImplicit false

namespace KernelCache

namespace Site

variable {S : Site} {x y : Path}

/-- Whether a path is that of a lock, and the way to the root does not lead through it. -/
structure Takeable (S : Site) (x : Path) : Prop where
  isLock : S.IsLock x
  notMem : x.place ∉ S.root.visits

/-! ### Places of locks -/

theorem IsLock.place_eq (hx : S.IsLock x) :
    ∃ name, Plain (Utf8.encode name) ∧ x = S.locks.directory.child name := by
  obtain ⟨d, depth, -, hpath⟩ := hx
  exact ⟨LockTable.name d depth, plain_lockName d depth, hpath⟩

theorem IsLock.length_place (hx : S.IsLock x) : x.place.length = S.root.place.length + 2 := by
  obtain ⟨d, depth, -, hpath⟩ := hx
  have hplace : (S.locks.path d depth).place = _ := S.lockPlace_eq d depth
  rw [hpath, hplace, List.length_append]
  rfl

theorem IsLock.not_isBase (hx : S.IsLock x) : ¬FileSystem.IsBase x.place := by
  obtain ⟨d, depth, -, hpath⟩ := hx
  rw [hpath]
  exact S.not_isBase_lockPlace d depth

theorem IsLock.place_inj (hx : S.IsLock x) (hy : S.IsLock y) (h : x.place = y.place) : x = y := by
  obtain ⟨d, depth, -, hpath⟩ := hx
  obtain ⟨e, k, -, hpath'⟩ := hy
  rw [hpath, hpath'] at h ⊢
  obtain ⟨hd, hk⟩ := S.lockPlace_inj h
  rw [hd, hk]

/-- What is directly below a lock is at the place of no lock. -/
theorem IsLock.below_ne (hx : S.IsLock x) (hy : S.IsLock y) (name : Bytes) :
    x.place ++ [name] ≠ y.place := by
  intro h
  have hlength := congrArg List.length h
  rw [List.length_append, hx.length_place, hy.length_place, List.length_singleton] at hlength
  omega

theorem Takeable.notMem_visits (hx : S.Takeable x) : x.place ∉ S.locks.directory.visits := by
  rw [visits_locks, List.mem_append, List.mem_singleton]
  rintro (h | h)
  · exact hx.notMem h
  · have hlength := congrArg List.length h
    have hlocks : S.locksPlace = S.root.place ++ [Utf8.encode "locks"] :=
      Path.place_child plain_locks
    rw [hx.isLock.length_place, hlocks, List.length_append, List.length_singleton] at hlength
    omega

/-- **Making the directories on the way touches no lock that can be taken**, and nothing below. -/
theorem Takeable.not_above (hx : S.Takeable x) {p : Path}
    (hp : p ∈ S.locks.directory.lineage) : ¬x.place <+: p.place := by
  intro h
  rcases Path.passed_of_above (Path.passed_of_mem_lineage hp) h with hmem | hstart
  · exact hx.notMem_visits hmem
  · -- the start of a path has one name at most, and a lock is two names down at least
    have hlength := hstart.length_le
    rw [hx.isLock.length_place, FileSystem.startOf] at hlength
    split at hlength
    · rw [FileSystem.rootPlace, List.length_singleton] at hlength
      omega
    · rw [List.length_nil] at hlength
      omega

end Site

/-! ### Makers -/

/-- The table that performs an action. -/
def LockEvent.actor? {ι : Type} : LockEvent ι → Option ι
  | .act i _ => some i
  | _ => none

namespace LockHistory

variable {ι : Type} [DecidableEq ι] {S : Site} (H : LockHistory S ι)

/-- The table that has made the directory which stands at the place of a path. -/
def maker : Nat → Path → Option ι
  | 0, _ => none
  | n + 1, x =>
    if (H.world (n + 1)).node? x.place = some .directory then
      if (H.world n).node? x.place = some .directory then maker n x else (H.event n).actor?
    else none

/-- What a table has in its grip. -/
def grip (n : Nat) (i : ι) : Grip where
  notes := (H.world n).notes i
  made := fun x => S.Takeable x ∧ H.maker n x = some i

/-- What an event may do to the directories of locks. -/
inductive Moves (n : Nat) : Prop
  | still
      (hlocks : ∀ x y, S.Takeable x → x.place <+: y →
        (H.world (n + 1)).node? y = (H.world n).node? y)
      (hway : ∀ x, S.Takeable x → (H.world n).node? x.place = some .directory →
        (H.world n).machine.files.Walkable S.locks.directory →
          (H.world (n + 1)).machine.files.Walkable S.locks.directory)
  | take {i : ι} {x : Path} (he : H.event n = .act i (.makeDirectory x)) (hx : S.Takeable x)
      (hwalk : (H.world n).machine.files.Walkable S.locks.directory)
      (hnone : (H.world n).node? x.place = none)
      (hnodes : (H.world (n + 1)).node? =
        Function.update (H.world n).node? x.place (some .directory))
  | give {i : ι} {x : Path} (he : H.event n = .act i (.removeDirectory x))
      (hmade : (H.grip n i).made x)
      (hnodes : (H.world (n + 1)).node? = Function.update (H.world n).node? x.place none)

variable {H} {n : Nat} {i j : ι} {x y : Path}

theorem maker_of_not_directory (h : (H.world n).node? x.place ≠ some .directory) :
    H.maker n x = none := by
  cases n with
  | zero => rfl
  | succ n => rw [maker, if_neg h]

/-- What was made is there. -/
theorem directory_of_maker (h : H.maker n x = some i) :
    (H.world n).node? x.place = some .directory := by
  by_contra hnot
  rw [maker_of_not_directory hnot] at h
  cases h

theorem maker_of_same (h : (H.world (n + 1)).node? x.place = (H.world n).node? x.place) :
    H.maker (n + 1) x = H.maker n x := by
  rw [maker, h]
  split
  · rfl
  · next hnot => rw [maker_of_not_directory hnot]

/-- Only a table that performs an action becomes a maker, and only where no directory was. -/
theorem maker_succ_eq_some (h : H.maker (n + 1) x = some i) (hnot : H.maker n x ≠ some i) :
    (H.world n).node? x.place ≠ some .directory ∧ (H.event n).actor? = some i := by
  rw [maker] at h
  split at h
  · split at h
    · exact absurd h hnot
    · next hno => exact ⟨hno, h⟩
  · cases h

/-! ### What an event does to grips -/

/-- Nobody's grip changes where nothing changes. -/
theorem made_of_same (h : ∀ x, S.Takeable x →
    (H.world (n + 1)).node? x.place = (H.world n).node? x.place) :
    (H.grip (n + 1) i).made = (H.grip n i).made := by
  funext x
  simp only [grip, eq_iff_iff, and_congr_right_iff]
  intro hx
  rw [maker_of_same (h x hx)]

/-- Of a lock whose directory is made the table that makes it is the maker. -/
theorem made_of_take {a : Action} (he : H.event n = .act i a) (hx : S.Takeable x)
    (hnone : (H.world n).node? x.place = none)
    (hnodes : (H.world (n + 1)).node? =
      Function.update (H.world n).node? x.place (some .directory)) :
    (H.grip (n + 1) i).made = ((H.grip n i).make x).made ∧
      ∀ j, j ≠ i → (H.grip (n + 1) j).made = (H.grip n j).made := by
  have hself : H.maker (n + 1) x = some i := by
    rw [maker, hnodes, Function.update_self, if_pos rfl, if_neg (by simp [hnone]), he]
    rfl
  have hother : ∀ y, S.Takeable y → y ≠ x → H.maker (n + 1) y = H.maker n y := by
    intro y hy hne
    refine maker_of_same ?_
    rw [hnodes, Function.update_of_ne fun heq => hne (hy.isLock.place_inj hx.isLock heq)]
  have hbefore : H.maker n x = none := maker_of_not_directory (by simp [hnone])
  refine ⟨?_, fun j hj => ?_⟩
  · funext y
    simp only [grip, Grip.make, eq_iff_iff]
    by_cases hy : y = x
    · simp [hy, hx, hself]
    · simp only [hy, false_or, and_congr_right_iff]
      intro htake
      rw [hother y htake hy]
  · funext y
    simp only [grip, eq_iff_iff, and_congr_right_iff]
    intro htake
    by_cases hy : y = x
    · rw [hy, hself, hbefore]
      simp [Ne.symm hj]
    · rw [hother y htake hy]

/-- Of a lock whose directory is removed nobody is the maker. -/
theorem made_of_give (hmade : (H.grip n i).made x)
    (hnodes : (H.world (n + 1)).node? = Function.update (H.world n).node? x.place none) :
    (H.grip (n + 1) i).made = ((H.grip n i).unmake x).made ∧
      ∀ j, j ≠ i → (H.grip (n + 1) j).made = (H.grip n j).made := by
  obtain ⟨hx, hmaker⟩ := hmade
  have hself : H.maker (n + 1) x = none := by
    refine maker_of_not_directory ?_
    rw [hnodes, Function.update_self]
    simp
  have hother : ∀ y, S.Takeable y → y ≠ x → H.maker (n + 1) y = H.maker n y := by
    intro y hy hne
    refine maker_of_same ?_
    rw [hnodes, Function.update_of_ne fun heq => hne (hy.isLock.place_inj hx.isLock heq)]
  refine ⟨?_, fun j hj => ?_⟩
  · funext y
    simp only [grip, Grip.unmake, eq_iff_iff]
    by_cases hy : y = x
    · simp [hy, hself]
    · simp only [ne_eq, hy, not_false_eq_true, true_and, and_congr_right_iff]
      intro htake
      rw [hother y htake hy]
  · funext y
    simp only [grip, eq_iff_iff, and_congr_right_iff]
    intro htake
    by_cases hy : y = x
    · rw [hy, hself, hmaker]
      simp [Ne.symm hj]
    · rw [hother y htake hy]

/-- **What others do leaves a grip as it is.** -/
theorem Moves.made_of_ne (h : H.Moves n) (hi : (H.event n).actor? ≠ some i) :
    (H.grip (n + 1) i).made = (H.grip n i).made := by
  cases h with
  | still hlocks hway => exact made_of_same fun x hx => hlocks x _ hx List.prefix_rfl
  | take he hx hwalk hnone hnodes =>
      rw [he] at hi
      exact (made_of_take he hx hnone hnodes).2 i fun heq => hi (congrArg some heq.symm)
  | give he hmade hnodes =>
      rw [he] at hi
      exact (made_of_give hmade hnodes).2 i fun heq => hi (congrArg some heq.symm)

end LockHistory

end KernelCache
