/-
**A cache that one process has for itself.**

Between its steps such a process knows exactly what the files of the cache are.  A state shows a map
from digests and names to contents if these are the files of the entries, and if otherwise only the
directories are there that the cache makes, and the one lock that the process holds.

Main definitions:

* `Files`, `Files.set` — the files of all entries;
* `Shows` — **what a state shows**.

Main results:

* `Shows.lookup`, `Shows.readFile` — looking for files;
* `Shows.mkdir`, `Shows.set`, `Shows.take`, `Shows.giveBack` — what a state shows after a change.
-/

import KernelCache.Proofs.Build.Layout
import KernelCache.Proofs.Files.Success

set_option relaxedAutoImplicit false
set_option autoImplicit false

namespace KernelCache

/-! ### Files -/

/-- The files of all entries, by digest and name. -/
abbrev Files := Digest → Bytes → Option Bytes

namespace Files

/-- No files. -/
def none : Files := fun _ _ => Option.none

/-- The files with one of them changed. -/
def set (f : Files) (d : Digest) (name : String) (v : Option Bytes) : Files := fun e x =>
  if e = d ∧ x = Utf8.encode name then v else f e x

variable {f : Files} {d e : Digest} {name other : String} {v w : Option Bytes} {x : Bytes}

@[simp] theorem set_self : f.set d name v d (Utf8.encode name) = v := if_pos ⟨rfl, rfl⟩

theorem set_of_ne (h : x ≠ Utf8.encode name) : f.set d name v e x = f e x :=
  if_neg fun heq => h heq.2

theorem set_of_name_ne (h : other ≠ name) :
    f.set d name v e (Utf8.encode other) = f e (Utf8.encode other) :=
  set_of_ne fun heq => h (Utf8.encode_injective heq)

theorem set_of_digest_ne (h : e ≠ d) : f.set d name v e x = f e x := if_neg fun heq => h heq.1

@[simp] theorem set_set : (f.set d name v).set d name w = f.set d name w := by
  funext e x
  by_cases hex : e = d ∧ x = Utf8.encode name
  · simp only [set, if_pos hex]
  · simp only [set, if_neg hex]

theorem set_eq_self (h : f d (Utf8.encode name) = v) : f.set d name v = f := by
  funext e x
  by_cases hex : e = d ∧ x = Utf8.encode name
  · rw [set, if_pos hex, hex.1, hex.2, h]
  · rw [set, if_neg hex]

theorem set_comm (h : name ≠ other) :
    (f.set d name v).set d other w = (f.set d other w).set d name v := by
  funext e x
  by_cases hx : x = Utf8.encode name
  · have hother : x ≠ Utf8.encode other := fun heq => h (Utf8.encode_injective (hx ▸ heq))
    simp only [set, hother, and_false, if_false]
  · simp only [set, hx, and_false, if_false]

end Files

/-! ### What a state shows -/

namespace Site

variable (S : Site)

/-- What stands below the root of the cache. -/
def inside (fs : FileSystem) (rest : List Bytes) : Option Node := fs.node? (S.root.place ++ rest)

theorem locksPlace_eq : S.locksPlace = S.root.place ++ [Utf8.encode "locks"] :=
  Path.place_child plain_locks

theorem kernels_ne_locks : Utf8.encode "kernels" ≠ Utf8.encode "locks" := by decide

variable {S} {fs fs' : FileSystem} {d : Digest}

theorem walkable_entryDir_iff : fs.Walkable (S.store.entryDir d) ↔
    fs.Walkable S.root ∧ S.inside fs [Utf8.encode "kernels"] = some .directory ∧
      S.inside fs [Utf8.encode "kernels", Utf8.encode d.toText] = some .directory := by
  rw [inside, inside, ← S.kernelsPlace_eq, ← S.entryPlace_eq]
  simp only [FileSystem.Walkable, S.visits_entryDir, List.mem_append, List.mem_cons,
    List.not_mem_nil, or_false, or_imp, forall_and, forall_eq]

theorem walkable_locks_iff : fs.Walkable S.locks.directory ↔
    fs.Walkable S.root ∧ S.inside fs [Utf8.encode "locks"] = some .directory := by
  rw [inside, ← S.locksPlace_eq]
  simp only [FileSystem.Walkable, S.visits_locks, List.mem_append, List.mem_singleton, or_imp,
    forall_and, forall_eq]

theorem inside_update {rest : List Bytes} {v : Option Node}
    (h : fs'.node? = Function.update fs.node? (S.root.place ++ rest) v) (l : List Bytes) :
    S.inside fs' l = if l = rest then v else S.inside fs l := by
  rw [inside, h, Function.update_apply]
  simp only [List.append_cancel_left_eq, inside]

end Site

/-- What a state shows: the files of the entries, and the lock that is held.  The root of the cache
is there, and nothing is in the way of the directories that the cache makes. -/
structure Shows (S : Site) (held : Option (Digest × Nat)) (f : Files) (fs : FileSystem) : Prop where
  root : fs.Walkable S.root
  apart : ∀ rest, rest ≠ [] → S.root.place ++ rest ∉ S.root.visits
  kernels : ∀ b, S.inside fs [Utf8.encode "kernels"] ≠ some (.file b)
  entry : ∀ (d : Digest) b,
    S.inside fs [Utf8.encode "kernels", Utf8.encode d.toText] ≠ some (.file b)
  file : ∀ (d : Digest) x,
    S.inside fs [Utf8.encode "kernels", Utf8.encode d.toText, x] = (f d x).map .file
  isOpen : ∀ d x, f d x ≠ none → fs.Walkable (S.store.entryDir d)
  locks : ∀ b, S.inside fs [Utf8.encode "locks"] ≠ some (.file b)
  locksOpen : held ≠ none → S.inside fs [Utf8.encode "locks"] = some .directory
  lock : ∀ d depth, S.inside fs [Utf8.encode "locks", Utf8.encode (LockTable.name d depth)] =
    if held = some (d, depth) then some .directory else none
  below : ∀ d depth x,
    S.inside fs [Utf8.encode "locks", Utf8.encode (LockTable.name d depth), x] = none

namespace Shows

variable {S : Site} {held : Option (Digest × Nat)} {f : Files} {fs fs' : FileSystem} {d : Digest}
  {depth : Nat} {name : String}

/-! ### Looking -/

theorem place_file (hname : Plain (Utf8.encode name)) : ((S.store.entryDir d).child name).place =
    S.root.place ++ [Utf8.encode "kernels", Utf8.encode d.toText, Utf8.encode name] := by
  have hentry : (S.store.entryDir d).place =
      S.root.place ++ [Utf8.encode "kernels", Utf8.encode d.toText] := S.entryPlace_eq d
  rw [Path.place_child hname, hentry, List.append_assoc]
  rfl

theorem node_file (h : Shows S held f fs) (hname : Plain (Utf8.encode name)) :
    fs.node? ((S.store.entryDir d).child name).place = (f d (Utf8.encode name)).map .file := by
  rw [place_file hname]
  exact h.file d (Utf8.encode name)

/-- The way to an entry that is not open ends where something is missing. -/
theorem walk_entryDir (h : Shows S held f fs) (hclosed : ¬fs.Walkable (S.store.entryDir d)) :
    fs.walk (FileSystem.startOf (S.store.entryDir d)) (S.store.entryDir d).steps =
      .error .notFound := by
  have hkernels : S.inside fs [Utf8.encode "kernels"] =
      fs.node? (S.root.child "kernels").place := by
    rw [Path.place_child Site.plain_kernels, Site.inside]
  have hentry : S.inside fs [Utf8.encode "kernels", Utf8.encode d.toText] =
      fs.node? (S.store.entryDir d).place := by
    rw [Site.inside, ← S.entryPlace_eq, Site.entryPlace]
  cases hk : S.inside fs [Utf8.encode "kernels"] with
  | none =>
      have hwalk := FileSystem.walk_child_missing Site.plain_kernels h.root (hkernels ▸ hk)
      exact FileSystem.walk_child_error (plain_toText d) hwalk
  | some n =>
      cases n with
      | file b => exact absurd hk (h.kernels b)
      | directory =>
          have hopen : fs.Walkable (S.root.child "kernels") :=
            (FileSystem.walkable_child_iff Site.plain_kernels).2 ⟨h.root, hkernels ▸ hk⟩
          refine FileSystem.walk_child_missing (plain_toText d) hopen ?_
          cases he : S.inside fs [Utf8.encode "kernels", Utf8.encode d.toText] with
          | none =>
              rw [hentry] at he
              exact he
          | some n =>
              cases n with
              | file b => exact absurd he (h.entry d b)
              | directory => exact absurd (Site.walkable_entryDir_iff.2 ⟨h.root, hk, he⟩) hclosed

/-- Looking for a file of an entry. -/
theorem lookup (h : Shows S held f fs) (hname : Plain (Utf8.encode name)) :
    fs.lookup ((S.store.entryDir d).child name) =
      match f d (Utf8.encode name) with
      | none => .error .notFound
      | some b => .ok (((S.store.entryDir d).child name).place, .file b) := by
  by_cases hopen : fs.Walkable (S.store.entryDir d)
  · rw [FileSystem.lookup_child hname hopen, h.node_file hname]
    cases f d (Utf8.encode name) <;> rfl
  · have hnone : f d (Utf8.encode name) = none :=
      Classical.not_not.1 fun hne => hopen (h.isOpen d _ hne)
    rw [FileSystem.lookup_of_walk_error hname (h.walk_entryDir hopen), hnone]

theorem readFile (h : Shows S held f fs) (hname : Plain (Utf8.encode name)) :
    fs.readFile ((S.store.entryDir d).child name) =
      match f d (Utf8.encode name) with
      | none => .error .notFound
      | some b => .ok b := by
  rw [FileSystem.readFile, h.lookup hname]
  cases f d (Utf8.encode name) <;> rfl

theorem readFile_some (h : Shows S held f fs) (hname : Plain (Utf8.encode name)) {b : Bytes}
    (hb : f d (Utf8.encode name) = some b) :
    fs.readFile ((S.store.entryDir d).child name) = .ok b := by
  rw [h.readFile hname, hb]

/-! ### Changes -/

theorem root_update (h : Shows S held f fs) {rest : List Bytes} {v : Option Node}
    (hrest : rest ≠ []) (hfs : fs'.node? = Function.update fs.node? (S.root.place ++ rest) v) :
    fs'.Walkable S.root := by
  intro x hx
  rw [hfs, Function.update_of_ne, h.root x hx]
  intro heq
  exact h.apart rest hrest (heq ▸ hx)

/-- A directory that the cache needs, made or made again. -/
theorem mkdir (h : Shows S held f fs) {rest : List Bytes}
    (hrest : rest = [Utf8.encode "kernels"] ∨
      (∃ d : Digest, rest = [Utf8.encode "kernels", Utf8.encode d.toText]) ∨
        rest = [Utf8.encode "locks"])
    (hfs : fs'.node? = Function.update fs.node? (S.root.place ++ rest) (some .directory)) :
    Shows S held f fs' := by
  have hne : rest ≠ [] := by rcases hrest with rfl | ⟨d, rfl⟩ | rfl <;> simp
  have hkeep {l : List Bytes} {n : Option Node} (hl : S.inside fs l = n) (hlr : l ≠ rest) :
      S.inside fs' l = n := by rw [Site.inside_update hfs, if_neg hlr, hl]
  have hdir {l : List Bytes} (hl : S.inside fs l = some .directory) :
      S.inside fs' l = some .directory := by
    rw [Site.inside_update hfs, hl, ite_self]
  have hno {l : List Bytes} (hl : ∀ b, S.inside fs l ≠ some (.file b)) (b : Bytes) :
      S.inside fs' l ≠ some (.file b) := by
    rw [Site.inside_update hfs]
    split
    · simp
    · exact hl b
  have hroot := h.root_update hne hfs
  refine ⟨hroot, h.apart, hno h.kernels, fun d => hno (h.entry d), fun d x => ?_, fun d x hx => ?_,
    hno h.locks, fun hheld => hdir (h.locksOpen hheld), fun d depth => ?_, fun d depth x => ?_⟩
  · refine hkeep (h.file d x) ?_
    rcases hrest with rfl | ⟨d, rfl⟩ | rfl <;> simp
  · obtain ⟨-, hk, he⟩ := Site.walkable_entryDir_iff.1 (h.isOpen d x hx)
    exact Site.walkable_entryDir_iff.2 ⟨hroot, hdir hk, hdir he⟩
  · refine hkeep (h.lock d depth) ?_
    rcases hrest with rfl | ⟨d, rfl⟩ | rfl <;> simp [Site.kernels_ne_locks.symm]
  · refine hkeep (h.below d depth x) ?_
    rcases hrest with rfl | ⟨d, rfl⟩ | rfl <;> simp

/-- Entries stay open when a file changes. -/
theorem walkable_update (h : Shows S held f fs) (hname : Plain (Utf8.encode name))
    {v : Option Node}
    (hfs : fs'.node? = Function.update fs.node? ((S.store.entryDir d).child name).place v)
    {e : Digest} (he : fs.Walkable (S.store.entryDir e)) : fs'.Walkable (S.store.entryDir e) := by
  rw [place_file hname] at hfs
  obtain ⟨-, hk, he⟩ := Site.walkable_entryDir_iff.1 he
  refine Site.walkable_entryDir_iff.2 ⟨h.root_update (by simp) hfs, ?_, ?_⟩
  · rw [Site.inside_update hfs, if_neg (by simp), hk]
  · rw [Site.inside_update hfs, if_neg (by simp), he]

/-- A file of an open entry, written or removed. -/
theorem set (h : Shows S held f fs) (hname : Plain (Utf8.encode name))
    (hopen : fs.Walkable (S.store.entryDir d)) {v : Option Bytes}
    (hfs : fs'.node? =
      Function.update fs.node? ((S.store.entryDir d).child name).place (v.map .file)) :
    Shows S held (f.set d name v) fs' := by
  have hwalk {e : Digest} := h.walkable_update hname hfs (e := e)
  rw [place_file hname] at hfs
  have hkeep {l : List Bytes}
      (hl : l ≠ [Utf8.encode "kernels", Utf8.encode d.toText, Utf8.encode name]) :
      S.inside fs' l = S.inside fs l := by rw [Site.inside_update hfs, if_neg hl]
  refine ⟨h.root_update (by simp) hfs, h.apart, ?_, fun e => ?_, fun e x => ?_, fun e x hx => ?_,
    ?_, fun hheld => ?_, fun e depth => ?_, fun e depth x => ?_⟩
  · rw [hkeep (by simp)]
    exact h.kernels
  · rw [hkeep (by simp)]
    exact h.entry e
  · by_cases hex : e = d ∧ x = Utf8.encode name
    · rw [hex.1, hex.2, Files.set_self, Site.inside_update hfs, if_pos rfl]
    · rw [Files.set, if_neg hex, hkeep, h.file e x]
      intro heq
      simp only [List.cons.injEq, and_true, true_and] at heq
      exact hex ⟨Digest.toText_injective (Utf8.encode_injective heq.1), heq.2⟩
  · by_cases hed : e = d
    · rw [hed]
      exact hwalk hopen
    · rw [Files.set_of_digest_ne hed] at hx
      exact hwalk (h.isOpen e x hx)
  · rw [hkeep (by simp)]
    exact h.locks
  · rw [hkeep (by simp)]
    exact h.locksOpen hheld
  · rw [hkeep (by simp)]
    exact h.lock e depth
  · rw [hkeep (by simp [Site.kernels_ne_locks.symm])]
    exact h.below e depth x

/-- A change of one lock. -/
theorem change_lock {held' : Option (Digest × Nat)} (h : Shows S held f fs) {v : Option Node}
    (hfs : fs'.node? = Function.update fs.node? (S.lockPlace d depth) v)
    (hopen : S.inside fs [Utf8.encode "locks"] = some .directory)
    (hv : v = if held' = some (d, depth) then some .directory else none)
    (hothers : ∀ e k, (e, k) ≠ (d, depth) → (held' = some (e, k) ↔ held = some (e, k))) :
    Shows S held' f fs' := by
  rw [S.lockPlace_eq] at hfs
  have hkeep {l : List Bytes}
      (hl : l ≠ [Utf8.encode "locks", Utf8.encode (LockTable.name d depth)]) :
      S.inside fs' l = S.inside fs l := by rw [Site.inside_update hfs, if_neg hl]
  have hroot := h.root_update (by simp) hfs
  refine ⟨hroot, h.apart, ?_, fun e => ?_, fun e x => ?_, fun e x hx => ?_, ?_, fun _ => ?_,
    fun e k => ?_, fun e k x => ?_⟩
  · rw [hkeep (by simp)]
    exact h.kernels
  · rw [hkeep (by simp [Site.kernels_ne_locks])]
    exact h.entry e
  · rw [hkeep (by simp)]
    exact h.file e x
  · obtain ⟨-, hk, he⟩ := Site.walkable_entryDir_iff.1 (h.isOpen e x hx)
    exact Site.walkable_entryDir_iff.2
      ⟨hroot, (hkeep (by simp)).trans hk, (hkeep (by simp [Site.kernels_ne_locks])).trans he⟩
  · rw [hkeep (by simp)]
    exact h.locks
  · rw [hkeep (by simp), hopen]
  · by_cases hek : (e, k) = (d, depth)
    · obtain ⟨rfl, rfl⟩ := Prod.mk.inj hek
      rw [Site.inside_update hfs, if_pos rfl, hv]
    · rw [hkeep, h.lock e k]
      · simp only [hothers e k hek]
      · intro heq
        simp only [List.cons.injEq, and_true, true_and] at heq
        obtain ⟨rfl, rfl⟩ := lockName_injective (Utf8.encode_injective heq)
        exact hek rfl
  · rw [hkeep (by simp)]
    exact h.below e k x

/-- A lock that was free is taken. -/
theorem take (h : Shows S none f fs) (hopen : S.inside fs [Utf8.encode "locks"] = some .directory)
    (hfs : fs'.node? = Function.update fs.node? (S.lockPlace d depth) (some .directory)) :
    Shows S (some (d, depth)) f fs' := by
  refine h.change_lock hfs hopen (if_pos rfl).symm fun e k hek => ?_
  simp only [Option.some.injEq, reduceCtorEq, iff_false]
  exact fun heq => hek heq.symm

/-- The lock that is held is given back. -/
theorem giveBack (h : Shows S (some (d, depth)) f fs)
    (hfs : fs'.node? = Function.update fs.node? (S.lockPlace d depth) none) :
    Shows S none f fs' := by
  refine h.change_lock hfs (h.locksOpen (by simp)) rfl fun e k hek => ?_
  simp only [Option.some.injEq, reduceCtorEq, false_iff]
  exact fun heq => hek heq.symm

/-- The directory of the lock that is held can be removed. -/
theorem removeDirectory (h : Shows S (some (d, depth)) f fs) :
    ∃ fs', fs.removeDirectory (S.locks.path d depth) = .ok fs' ∧ Shows S none f fs' := by
  have hthere : fs.node? (S.locks.path d depth).place = some .directory := by
    have hlock := h.lock d depth
    rwa [if_pos rfl, Site.inside, ← S.lockPlace_eq] at hlock
  have hempty : ∀ x, fs.node? ((S.locks.path d depth).place ++ [x]) = none := by
    intro x
    have hlock : (S.locks.path d depth).place = S.root.place ++
        [Utf8.encode "locks", Utf8.encode (LockTable.name d depth)] := S.lockPlace_eq d depth
    rw [hlock, List.append_assoc]
    exact h.below d depth x
  have hw := Site.walkable_locks_iff.2 ⟨h.root, h.locksOpen (by simp)⟩
  obtain ⟨fs', hfs'⟩ := FileSystem.removeDirectory_child (plain_lockName d depth) hw hthere hempty
  obtain ⟨-, hupdate⟩ := FileSystem.removeDirectory_ok hfs'
  exact ⟨fs', hfs', h.giveBack (hupdate (S.not_isBase_lockPlace d depth))⟩

/-- A file that is moved leaves its old place and is at its new one. -/
theorem move {other : String} (h : Shows S held f fs) (hname : Plain (Utf8.encode name))
    (hother : Plain (Utf8.encode other)) {b : Bytes} (hb : f d (Utf8.encode name) = some b)
    (hfs : fs.moveFile ((S.store.entryDir d).child name) ((S.store.entryDir d).child other) =
      .ok fs') :
    Shows S held ((f.set d name none).set d other (some b)) fs' := by
  have hopen := h.isOpen d _ (hb ▸ Option.some_ne_none b)
  have hnode := h.node_file (d := d) hname
  rw [hb] at hnode
  obtain ⟨c, hc, -, hupdate⟩ := FileSystem.moveFile_ok hfs
  obtain rfl : c = b := by simpa using hc.symm.trans hnode
  -- the move in two steps: away from the old place, and then to the new one
  have hbase : ¬FileSystem.IsBase ((S.store.entryDir d).child name).place :=
    FileSystem.not_isBase_of_node? (by rw [hnode]; simp)
  have hcleared : (fs.clear ((S.store.entryDir d).child name).place).node? =
      Function.update fs.node? ((S.store.entryDir d).child name).place none :=
    FileSystem.node?_clear hbase
  have h₁ := h.set (v := none) hname hopen hcleared
  have hopen₁ := h.walkable_update hname hcleared hopen
  refine h₁.set hother hopen₁ ?_
  rw [hcleared]
  exact hupdate

end Shows

end KernelCache
