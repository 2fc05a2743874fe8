/-
**What belongs to one digest.**

The entry of a digest and its locks are its own ground, and no two digests have any ground in
common.  Around it are the directories that all share: those on the way to the root of the cache,
and the two below the root.  A builder of one digest reads and changes nothing but the ground of the
digest and what is shared, and of what is shared it only makes directories that are missing.

Main definitions:

* `Site.Own`, `Site.shared` — the ground of a digest, and the shared directories;
* `Site.Apart` — a root to which no way leads from below;
* `Site.Sound` — no file is where a shared directory should be, and nothing of a digest is there
  without the way to it;
* `Site.Calm`, `Site.Follows`, `Site.MakesWay`, `Site.Asks` — what builders of a digest ask for;
* `Toolkit.Local` — compilers that write their output, and read no more than source and output;
* `Site.Moves` — what a builder of a digest may do to the files.

Main results:

* `Site.own_unique`, `Site.own_notMem_shared` — **grounds are apart**;
* `Site.moves_perform` — **what a builder asks for changes nothing else**;
* `Site.Asks.reads` — **nor does it read anything else**;
* `Site.Calm.reads` — of what is shared, most of it reads nothing either.
-/

import KernelCache.Proofs.Files.Alike
import KernelCache.Proofs.Solo.Toolkit

set_option relaxedAutoImplicit false
set_option autoImplicit false

namespace KernelCache

open FileSystem

namespace Site

variable (S : Site)

/-! ### Grounds -/

/-- The ground of a digest: its entry and its locks, and all that is below them. -/
inductive Own (d : Digest) (x : Place) : Prop
  | entry (h : S.entryPlace d <+: x)
  | lock (depth : Nat) (h : S.lockPlace d depth <+: x)

/-- The directories that all builders share: those on the way to the root, and the two below it. -/
def shared : List Place := S.root.visits ++ [S.kernelsPlace, S.locksPlace]

/-- Whether the way to the root leads through nothing that is below the root. -/
def Apart : Prop := ∀ rest, rest ≠ [] → S.root.place ++ rest ∉ S.root.visits

variable {S} {d e : Digest} {x y : Place} {p q : Path} {fs fs' fs'' : FileSystem}

theorem mem_shared : x ∈ S.shared ↔ x ∈ S.root.visits ∨ x = S.kernelsPlace ∨ x = S.locksPlace := by
  simp [shared]

/-- Whatever belongs to a digest is two names or more below the root. -/
theorem Own.below (h : S.Own d x) : ∃ top name rest, x = S.root.place ++ top :: name :: rest := by
  cases h with
  | entry h =>
      obtain ⟨rest, rfl⟩ := h
      rw [S.entryPlace_eq, List.append_assoc]
      exact ⟨_, _, rest, rfl⟩
  | lock depth h =>
      obtain ⟨rest, rfl⟩ := h
      rw [S.lockPlace_eq, List.append_assoc]
      exact ⟨_, _, rest, rfl⟩

/-- **What belongs to a digest is not shared.** -/
theorem own_notMem_shared (hS : S.Apart) (h : S.Own d x) : x ∉ S.shared := by
  obtain ⟨top, name, rest, rfl⟩ := h.below
  rw [mem_shared, S.kernelsPlace_eq, S.locksPlace_eq]
  rintro (hroot | heq | heq)
  · exact hS _ (by simp) hroot
  · have hlength := congrArg List.length heq
    simp at hlength
  · have hlength := congrArg List.length heq
    simp at hlength

theorem eq_of_above {a b : Place} (ha : a <+: x) (hb : b <+: x) (hlength : a.length = b.length) :
    a = b :=
  (List.prefix_of_prefix_length_le ha hb hlength.le).eq_of_length hlength

theorem length_entryPlace (d : Digest) : (S.entryPlace d).length = S.root.place.length + 2 := by
  rw [S.entryPlace_eq, List.length_append]
  rfl

theorem length_lockPlace (d : Digest) (depth : Nat) :
    (S.lockPlace d depth).length = S.root.place.length + 2 := by
  rw [S.lockPlace_eq, List.length_append]
  rfl

/-- **Nothing belongs to two digests.** -/
theorem own_unique (h : S.Own d x) (h' : S.Own e x) : d = e := by
  cases h with
  | entry h =>
      cases h' with
      | entry h' =>
          exact S.entryPlace_inj (eq_of_above h h' (by rw [length_entryPlace, length_entryPlace]))
      | lock k h' =>
          have heq := eq_of_above h h' (by rw [length_entryPlace, length_lockPlace])
          exact absurd heq.symm (S.lockPlace_ne_entryPlace e d k)
  | lock k h =>
      cases h' with
      | entry h' =>
          have heq := eq_of_above h h' (by rw [length_entryPlace, length_lockPlace])
          exact absurd heq (S.lockPlace_ne_entryPlace d e k)
      | lock l h' =>
          exact (S.lockPlace_inj
            (eq_of_above h h' (by rw [length_lockPlace, length_lockPlace]))).1

theorem own_entryPlace (d : Digest) : S.Own d (S.entryPlace d) := .entry List.prefix_rfl

theorem own_file (d : Digest) (name : Bytes) : S.Own d (S.entryPlace d ++ [name]) :=
  .entry (List.prefix_append _ _)

theorem own_lockPlace (d : Digest) (depth : Nat) : S.Own d (S.lockPlace d depth) :=
  .lock depth List.prefix_rfl

/-! ### What is there -/

variable (S) in
/-- No file is where a shared directory should be, and where there is an entry or a lock, there is
the way to it. -/
structure Sound (fs : FileSystem) : Prop where
  free : ∀ x ∈ S.shared, ∀ b, fs.node? x ≠ some (.file b)
  entry : ∀ d, fs.node? (S.entryPlace d) ≠ none → fs.Walkable (S.root.child "kernels")
  lock : ∀ d depth, fs.node? (S.lockPlace d depth) ≠ none → fs.Walkable S.locks.directory

theorem visits_kernels : (S.root.child "kernels").visits = S.root.visits ++ [S.kernelsPlace] :=
  Path.visits_child plain_kernels

theorem visits_kernels_subset : (S.root.child "kernels").visits ⊆ S.shared := by
  intro x hx
  rw [visits_kernels, List.mem_append, List.mem_singleton] at hx
  exact mem_shared.2 (hx.imp_right Or.inl)

theorem visits_locks_subset : S.locks.directory.visits ⊆ S.shared := by
  intro x hx
  rw [S.visits_locks, List.mem_append, List.mem_singleton] at hx
  exact mem_shared.2 (hx.imp_right Or.inr)

theorem visits_entryDir_subset : (S.store.entryDir d).visits ⊆ S.entryPlace d :: S.shared := by
  intro x hx
  rw [S.visits_entryDir, List.mem_append] at hx
  rcases hx with hx | hx
  · exact List.mem_cons_of_mem _ (mem_shared.2 (Or.inl hx))
  · simp only [List.mem_cons, List.not_mem_nil, or_false] at hx
    rcases hx with rfl | rfl
    · exact List.mem_cons_of_mem _ (mem_shared.2 (Or.inr (Or.inl rfl)))
    · exact List.mem_cons_self

/-- What is asked of the way to an entry is shared, but for the entry itself. -/
theorem mem_lineage_entryDir (hp : p ∈ (S.store.entryDir d).lineage) :
    p = S.store.entryDir d ∨ p.visits ⊆ S.shared :=
  (Path.visits_of_mem_lineage_child_child plain_kernels (plain_toText d) hp).imp_right
    fun hvisits => List.Subset.trans hvisits visits_kernels_subset

/-- Where a shared directory is missing, so is what is below it. -/
theorem Sound.walk_error (hs : S.Sound fs) (hp : p.visits ⊆ S.shared) (hclosed : ¬fs.Walkable p) :
    fs.walk (startOf p) p.steps = .error .notFound := by
  cases hw : fs.walk (startOf p) p.steps with
  | ok dir => exact absurd (walk_steps_eq_ok_iff.1 hw).2 hclosed
  | error e => rw [FileSystem.walk_error (fun x hx => hs.free x (hp hx)) hw]

/-- A root whose path never turns back is apart. -/
theorem apart_of_straight (h : ∀ x ∈ S.root.visits, x <+: S.root.place) : S.Apart := by
  intro rest hrest hmem
  have hlength := (h _ hmem).length_le
  rw [List.length_append] at hlength
  exact hrest (List.length_eq_zero_iff.1 (by omega))

/-- For such a root it is enough that nothing is in the way of the shared directories, as long as
there is a directory wherever something is below. -/
theorem sound_of_straight (h : ∀ x ∈ S.root.visits, x <+: S.root.place)
    (hfree : ∀ x ∈ S.shared, ∀ b, fs.node? x ≠ some (.file b))
    (htree : ∀ x name, fs.node? (x ++ [name]) ≠ none → fs.node? x = some .directory) :
    S.Sound fs := by
  have habove (rest : List Bytes) : ∀ x, fs.node? (x ++ rest) ≠ none → rest ≠ [] →
      fs.node? x = some .directory := by
    induction rest with
    | nil => exact fun x _ hne => absurd rfl hne
    | cons first rest ih =>
        intro x hy _
        refine htree x first ?_
        rw [List.append_cons] at hy
        by_cases hrest : rest = []
        · rwa [hrest, List.append_nil] at hy
        · rw [ih _ hy hrest]
          exact Option.some_ne_none _
  have hopen {top : String} {name : Bytes} (htop : Plain (Utf8.encode top))
      (hn : fs.node? ((S.root.child top).place ++ [name]) ≠ none) :
      fs.Walkable (S.root.child top) := by
    intro x hx
    rw [Path.visits_child htop, List.mem_append, List.mem_singleton] at hx
    have hprefix : x <+: (S.root.child top).place := by
      rcases hx with hx | rfl
      · rw [Path.place_child htop]
        exact (h x hx).trans (List.prefix_append _ _)
      · exact List.prefix_rfl
    obtain ⟨rest, hrest⟩ := hprefix
    rw [← hrest, List.append_assoc] at hn
    exact habove _ x hn (by simp)
  refine ⟨hfree, fun d hd => ?_, fun d depth hd => ?_⟩
  · have hplace : S.entryPlace d = (S.root.child "kernels").place ++ [_] :=
      Path.place_child (plain_toText d)
    exact hopen plain_kernels (hplace ▸ hd)
  · have hplace : S.lockPlace d depth = (S.root.child "locks").place ++ [_] :=
      Path.place_child (plain_lockName d depth)
    exact hopen plain_locks (hplace ▸ hd)

/-- The way to an entry, when what stands at its place is known. -/
theorem Sound.walk_entryDir (hs : S.Sound fs) (d : Digest) :
    fs.walk (startOf (S.store.entryDir d)) (S.store.entryDir d).steps =
      match fs.node? (S.entryPlace d) with
      | none => .error .notFound
      | some (.file _) => .error .notADirectory
      | some .directory => .ok (S.entryPlace d) := by
  by_cases hopen : fs.Walkable (S.root.child "kernels")
  · exact walk_child (plain_toText d) hopen
  · have hnone : fs.node? (S.entryPlace d) = none :=
      Classical.not_not.1 fun hne => hopen (hs.entry d hne)
    rw [hnone]
    exact walk_child_error (plain_toText d) (hs.walk_error visits_kernels_subset hopen)

/-- The way to an entry is open in both of two states, or it fails in both for the same reason. -/
theorem walk_entryDir_alike (hs : S.Sound fs) (hs' : S.Sound fs')
    (h : fs.node? (S.entryPlace d) = fs'.node? (S.entryPlace d)) :
    fs.Walkable (S.store.entryDir d) ∧ fs'.Walkable (S.store.entryDir d) ∨
      ∃ e, fs.walk (startOf (S.store.entryDir d)) (S.store.entryDir d).steps = .error e ∧
        fs'.walk (startOf (S.store.entryDir d)) (S.store.entryDir d).steps = .error e := by
  have hsame : fs.walk (startOf (S.store.entryDir d)) (S.store.entryDir d).steps =
      fs'.walk (startOf (S.store.entryDir d)) (S.store.entryDir d).steps := by
    rw [hs.walk_entryDir, hs'.walk_entryDir, h]
  cases hw : fs'.walk (startOf (S.store.entryDir d)) (S.store.entryDir d).steps with
  | error e => exact Or.inr ⟨e, hsame.trans hw, rfl⟩
  | ok dir =>
      exact Or.inl ⟨(walk_steps_eq_ok_iff.1 (hsame.trans hw)).2, (walk_steps_eq_ok_iff.1 hw).2⟩

/-- What is seen of a lock. -/
theorem Sound.lookup_lock (hs : S.Sound fs) (d : Digest) (depth : Nat) :
    fs.lookup (S.locks.path d depth) =
      match fs.node? (S.lockPlace d depth) with
      | none => .error .notFound
      | some n => .ok (S.lockPlace d depth, n) := by
  by_cases hopen : fs.Walkable S.locks.directory
  · exact lookup_child (plain_lockName d depth) hopen
  · have hnone : fs.node? (S.lockPlace d depth) = none :=
      Classical.not_not.1 fun hne => hopen (hs.lock d depth hne)
    rw [hnone]
    exact lookup_of_walk_error (plain_lockName d depth) (hs.walk_error visits_locks_subset hopen)

/-! ### What builders ask for -/

/-- The paths of the files in the entry of a digest. -/
def FileOf (S : Site) (d : Digest) (p : Path) : Prop :=
  ∃ name, Plain (Utf8.encode name) ∧ (S.store.entryDir d).child name = p

/-- The paths of the locks of a digest. -/
def LockOf (S : Site) (d : Digest) (p : Path) : Prop := ∃ depth, S.locks.path d depth = p

/-- What a builder of a digest asks for, but for what concerns the directories on the way. -/
inductive Calm (S : Site) (d : Digest) : BuildAction → Prop
  | look {p : Path} (hp : S.FileOf d p ∨ S.LockOf d p) : Calm S d (.file (.look p))
  | read {p : Path} (hp : S.FileOf d p) : Calm S d (.file (.read p))
  | write {p : Path} {b : Bytes} (hp : S.FileOf d p) : Calm S d (.file (.write p b))
  | removeFile {p : Path} (hp : S.FileOf d p) : Calm S d (.file (.removeFile p))
  | move {p q : Path} (hp : S.FileOf d p) (hq : S.FileOf d q) : Calm S d (.file (.move p q))
  | removeDirectory {p : Path} (hp : S.LockOf d p) : Calm S d (.file (.removeDirectory p))
  | hold {p : Path} : Calm S d (.file (.hold p))
  | letGo {p : Path} : Calm S d (.file (.letGo p))
  | now : Calm S d (.file .now)
  | sleep {t : Nat} : Calm S d (.file (.sleep t))
  | translate {r : TranslationRequest} : Calm S d (.translate r)
  | compile {p q : Path} (hp : S.FileOf d p) (hq : S.FileOf d q) : Calm S d (.compile p q)
  | load {p : Path} {l : Launch} (hp : S.FileOf d p) : Calm S d (.load p l)

/-- What is asked for after a directory has been made: fresh files in the entry, and locks. -/
inductive Follows (S : Site) (d : Digest) : Path → BuildAction → Prop
  | createFresh {stem : String} (hstem : '/' ∉ stem.toList) :
      Follows S d (S.store.entryDir d) (.file (.createFresh (S.store.entryDir d) stem))
  | take (depth : Nat) :
      Follows S d S.locks.directory (.file (.makeDirectory (S.locks.path d depth)))

/-- What is asked for to make a directory with those above it. -/
inductive MakesWay (q : Path) : BuildAction → Prop
  | look {p : Path} (hp : p ∈ q.lineage) : MakesWay q (.file (.look p))
  | makeDirectory {p : Path} (hp : p ∈ q.lineage) : MakesWay q (.file (.makeDirectory p))

/-- What builders of a digest ask for. -/
inductive Asks (S : Site) (d : Digest) (a : BuildAction) : Prop
  | calm (h : S.Calm d a)
  | follows {q : Path} (h : S.Follows d q a)
  | makesEntry (h : MakesWay (S.store.entryDir d) a)
  | makesLocks (h : MakesWay S.locks.directory a)

/-! ### What the changes are -/

/-- What a builder of a digest may do to the files: it changes the ground of the digest, it makes
shared directories and the entry where they are missing, and it leaves things sound. -/
structure Moves (S : Site) (d : Digest) (fs fs' : FileSystem) : Prop where
  others : ∀ x, ¬S.Own d x → x ∉ S.shared → fs'.node? x = fs.node? x
  grows : Gains (S.entryPlace d :: S.shared) fs fs'
  sound : S.Sound fs → S.Sound fs'

theorem Moves.refl (d : Digest) (fs : FileSystem) : S.Moves d fs fs :=
  ⟨fun _ _ _ => rfl, .refl _ _, id⟩

theorem Moves.trans (h : S.Moves d fs fs') (h' : S.Moves d fs' fs'') : S.Moves d fs fs'' where
  others := fun x hx hshared => (h'.others x hx hshared).trans (h.others x hx hshared)
  grows := h.grows.trans h'.grows
  sound := fun hs => h'.sound (h.sound hs)

/-- What belongs to another digest stays. -/
theorem Moves.node?_of_own (hS : S.Apart) (h : S.Moves d fs fs') (hne : d ≠ e) (hx : S.Own e x) :
    fs'.node? x = fs.node? x :=
  h.others x (fun hd => hne (own_unique hd hx)) (own_notMem_shared hS hx)

theorem Moves.grows_shared (h : S.Moves d fs fs') : Gains S.shared fs fs' :=
  h.grows.mono (List.subset_cons_self _ _)

/-- No entry is lost. -/
theorem Moves.grows_entry (hS : S.Apart) (h : S.Moves d fs fs') (e : Digest) :
    Gains (S.entryPlace e :: S.shared) fs fs' := by
  intro x hx
  rcases List.mem_cons.1 hx with rfl | hx
  · by_cases hde : d = e
    · subst hde
      exact h.grows _ List.mem_cons_self
    · exact Or.inl (h.node?_of_own hS hde (own_entryPlace e))
  · exact h.grows_shared x hx

/-- Things stay sound if nothing shared is lost, no file takes a shared place, and new entries and
locks are made where there is a way to them. -/
theorem Sound.of_grows (hs : S.Sound fs) (h : Gains S.shared fs fs')
    (hentry : ∀ d, fs.node? (S.entryPlace d) = none → fs'.node? (S.entryPlace d) ≠ none →
      fs.Walkable (S.root.child "kernels"))
    (hlock : ∀ d depth, fs.node? (S.lockPlace d depth) = none →
      fs'.node? (S.lockPlace d depth) ≠ none → fs.Walkable S.locks.directory) : S.Sound fs' where
  free := fun x hx => h.free hx (hs.free x hx)
  entry := fun d hd => by
    refine h.walkable visits_kernels_subset ?_
    by_cases hnone : fs.node? (S.entryPlace d) = none
    · exact hentry d hnone hd
    · exact hs.entry d hnone
  lock := fun d depth hd => by
    refine h.walkable visits_locks_subset ?_
    by_cases hnone : fs.node? (S.lockPlace d depth) = none
    · exact hlock d depth hnone hd
    · exact hs.lock d depth hnone

/-- A change on the ground of a digest that does not concern the entry itself. -/
theorem moves_of_update (hS : S.Apart) {v : Option Node}
    (hfs : fs'.node? = Function.update fs.node? x v) (hx : S.Own d x) (hentry : x ≠ S.entryPlace d)
    (hlock : ∀ depth, x = S.lockPlace d depth → v ≠ none → fs.Walkable S.locks.directory) :
    S.Moves d fs fs' := by
  have hkeep : ∀ y, y ≠ x → fs'.node? y = fs.node? y := fun y hy => by
    rw [hfs, Function.update_of_ne hy]
  have hgrows : Gains (S.entryPlace d :: S.shared) fs fs' := by
    intro y hy
    refine Or.inl (hkeep y ?_)
    rintro rfl
    rcases List.mem_cons.1 hy with heq | hy
    · exact hentry heq
    · exact own_notMem_shared hS hx hy
  refine ⟨fun y hy _ => hkeep y fun heq => hy (heq ▸ hx), hgrows, fun hs =>
    hs.of_grows (hgrows.mono (List.subset_cons_self _ _)) (fun e hnone he => ?_)
      fun e depth hnone he => ?_⟩
  · -- an entry that is new would be the one that does not change
    by_cases heq : S.entryPlace e = x
    · obtain rfl := own_unique hx (heq ▸ own_entryPlace e)
      exact absurd heq.symm hentry
    · exact absurd ((hkeep _ heq).trans hnone) he
  · by_cases heq : S.lockPlace e depth = x
    · obtain rfl := own_unique hx (heq ▸ own_lockPlace e depth)
      refine hlock depth heq.symm fun hv => he ?_
      rw [hfs, heq, Function.update_self, hv]
    · exact absurd ((hkeep _ heq).trans hnone) he

/-- A change of a file in the entry. -/
theorem moves_file (hS : S.Apart) {v : Option Node} (hp : S.FileOf d p)
    (hfs : fs'.node? = Function.update fs.node? p.place v) : S.Moves d fs fs' := by
  obtain ⟨name, hname, rfl⟩ := hp
  rw [Path.place_child hname] at hfs
  refine moves_of_update hS hfs (own_file d _) ?_ fun depth heq => ?_
  · intro heq
    have hlength := congrArg List.length heq
    rw [List.length_append, Site.entryPlace] at hlength
    simp at hlength
  · exact absurd heq.symm (S.lockPlace_ne_entry d d depth _)

theorem moves_writeFile (hS : S.Apart) (hp : S.FileOf d p) {b : Bytes}
    (h : fs.writeFile p b = .ok fs') : S.Moves d fs fs' := moves_file hS hp (writeFile_ok h).2

/-- Making a directory on the way to the entry or to the locks. -/
theorem moves_makeWay (hS : S.Apart)
    (hp : p ∈ (S.store.entryDir d).lineage ∨ p ∈ S.locks.directory.lineage)
    (h : fs.makeDirectory p = .ok fs') : S.Moves d fs fs' := by
  obtain ⟨hnone, hupdate⟩ := makeDirectory_ok h
  have hdir : fs.node? p.place ≠ some .directory := by simp [hnone]
  have hmem := place_mem_visits hdir
  have hcases : p = S.store.entryDir d ∨ p.place ∈ S.shared := by
    rcases hp with hp | hp
    · exact (mem_lineage_entryDir hp).imp_right fun hvisits => hvisits hmem
    · exact Or.inr (visits_locks_subset (Path.visits_subset_of_mem_lineage hp hmem))
  have hkeep : ∀ y, y ≠ p.place → fs'.node? y = fs.node? y := fun y hy => by
    rw [hupdate, Function.update_of_ne hy]
  refine ⟨fun x hx hshared => hkeep x ?_, .of_makeDirectory h, fun hs =>
    hs.of_grows (.of_makeDirectory h) (fun e hnone he => ?_) fun e depth hnone he => ?_⟩
  · intro hxp
    rw [hxp] at hx hshared
    refine hcases.elim (fun hentry => hx ?_) hshared
    rw [hentry]
    exact own_entryPlace d
  · have heq : S.entryPlace e = p.place :=
      Classical.not_not.1 fun hne => he ((hkeep _ hne).trans hnone)
    rcases hcases with hentry | hmem
    · rw [hentry] at h
      exact walkable_of_makeDirectory (plain_toText d) h
    · exact absurd (heq ▸ hmem) (own_notMem_shared hS (own_entryPlace e))
  · have heq : S.lockPlace e depth = p.place :=
      Classical.not_not.1 fun hne => he ((hkeep _ hne).trans hnone)
    rcases hcases with hentry | hmem
    · rw [hentry] at heq
      exact absurd heq (S.lockPlace_ne_entryPlace e d depth)
    · exact absurd (heq ▸ hmem) (own_notMem_shared hS (own_lockPlace e depth))

end Site

/-! ### Compilers that write their output -/

/-- A compiler that writes its output if anything, and reads no more than its source and where the
output is to go; a loader that reads no more than the binary. -/
structure Toolkit.Local (T : Toolkit) : Prop where
  writes : ∀ i source output fs, (T.compile i source output fs).2.node? = fs.node? ∨
    ∃ b fs', fs.writeFile output b = .ok fs' ∧ (T.compile i source output fs).2.node? = fs'.node?
  compiles : ∀ i source output fs fs', fs.readFile source = fs'.readFile source →
    fs.Agrees fs' output →
      (T.compile i source output fs).1 = (T.compile i source output fs').1 ∧
        ∀ x, fs.node? x = fs'.node? x →
          (T.compile i source output fs).2.node? x = (T.compile i source output fs').2.node? x
  loads : ∀ i binary l fs fs', fs.readFile binary = fs'.readFile binary →
    T.load i binary l fs = T.load i binary l fs'

/-- What a simulated compiler does, in terms of reading and writing. -/
theorem Engine.markSource_eq (source output : Path) (fs : FileSystem) :
    markSource source output fs = match fs.readFile source with
      | .error e => (.error (.load source ("fake compiler: " ++ e.message)), fs)
      | .ok b => match fs.writeFile output (mark ++ b) with
        | .error e => (.error (.load source ("fake compiler: " ++ e.message)), fs)
        | .ok fs' => (.ok (), fs') := by
  rw [markSource]
  cases fs.readFile source with
  | error e => rfl
  | ok b =>
      simp only [bind, Except.bind]
      cases fs.writeFile output (mark ++ b) <;> rfl

/-- Simulated compilers are local. -/
theorem Engine.local_simulated (fault : Option SimulatedFault) :
    (Toolkit.ofEngine (.simulated fault)).Local where
  writes := by
    intro i source output fs
    rw [compile_open]
    cases fault with
    | some fault => cases fault <;> exact Or.inl rfl
    | none =>
        rw [simulate, markSource_eq]
        cases fs.readFile source with
        | error e => exact Or.inl rfl
        | ok b =>
            cases hwrite : fs.writeFile output (mark ++ b) with
            | error e => exact Or.inl (by simp only [hwrite])
            | ok fs' => exact Or.inr ⟨mark ++ b, fs', hwrite, by simp only [hwrite]⟩
  compiles := by
    intro i source output fs fs' hread hagrees
    rw [compile_open, compile_open]
    cases fault with
    | some fault => cases fault <;> exact ⟨rfl, fun x hx => hx⟩
    | none =>
        rw [simulate, simulate, markSource_eq, markSource_eq, hread]
        cases fs'.readFile source with
        | error e => exact ⟨rfl, fun x hx => hx⟩
        | ok b =>
            have halike := writeFile_alike hagrees (mark ++ b)
            dsimp only
            generalize fs.writeFile output (mark ++ b) = r at halike ⊢
            generalize fs'.writeFile output (mark ++ b) = r' at halike ⊢
            cases halike with
            | error e => exact ⟨rfl, fun x hx => hx⟩
            | ok hagree => exact ⟨rfl, hagree⟩
  loads := fun _ _ _ _ _ => (deterministic_simulated fault).loads

/-- Two states that agree on what an action of a build reads. -/
def BuildAction.Reads (fs fs' : FileSystem) : BuildAction → Prop
  | .file a => a.Reads fs fs'
  | .translate _ => True
  | .compile source output => fs.lookup source = fs'.lookup source ∧ fs.Agrees fs' output
  | .load binary _ => fs.lookup binary = fs'.lookup binary

section

variable {S : Site} {T : Toolkit} {i : Identity} {d : Digest} {a : BuildAction} {s s' : Process}

/-- **What a builder asks for reads nothing else.** -/
theorem Toolkit.perform_alike (hT : T.Local) (h : s.Beside s')
    (hreads : a.Reads s.machine.files s'.machine.files) :
    (T.perform i a s).1 = (T.perform i a s').1 ∧ (T.perform i a s).2.Beside (T.perform i a s').2 ∧
      ∀ x, s.machine.files.node? x = s'.machine.files.node? x →
        (T.perform i a s).2.machine.files.node? x = (T.perform i a s').2.machine.files.node? x := by
  cases a with
  | file a => exact Process.perform_alike h a hreads
  | translate r => exact ⟨rfl, h, fun x hx => hx⟩
  | compile source output =>
      obtain ⟨hreply, hagree⟩ := hT.compiles i source output _ _
        (readFile_of_lookup hreads.1) hreads.2
      exact ⟨hreply, ⟨h.held, h.fresh, h.clock, h.due, h.due'⟩, hagree⟩
  | load binary l => exact ⟨hT.loads i binary l _ _ (readFile_of_lookup hreads), h, fun x hx => hx⟩

/-! ### What builders change -/

theorem Toolkit.perform_file (T : Toolkit) (i : Identity) (a : Action) (s : Process) :
    T.perform i (.file a) s = s.perform a := rfl

/-- A compiler changes its output if anything. -/
theorem Site.moves_compile (hS : S.Apart) (hT : T.Local) {source output : Path}
    (hp : S.FileOf d output) {fs : FileSystem} :
    S.Moves d fs (T.compile i source output fs).2 := by
  rcases hT.writes i source output fs with hsame | ⟨b, fs', hwrite, hsame⟩
  · refine moves_file hS hp (hsame.trans (Function.update_eq_self output.place _).symm)
  · exact moves_file hS hp (hsame.trans (writeFile_ok hwrite).2)

theorem Site.moves_change (hdue : s.machine.due = []) {r : Except Failure FileSystem}
    (h : ∀ fs', r = .ok fs' → S.Moves d s.machine.files fs') :
    S.Moves d s.machine.files (s.change r).2.machine.files ∧
      (s.change r).2.machine.due = [] := by
  cases r with
  | error e => exact ⟨.refl _ _, hdue⟩
  | ok fs' => exact ⟨h fs' rfl, hdue⟩

theorem Site.moves_makeDirectory (hdue : s.machine.due = []) {p : Path}
    (h : ∀ fs', s.machine.files.makeDirectory p = .ok fs' → S.Moves d s.machine.files fs') :
    S.Moves d s.machine.files (T.perform i (.file (.makeDirectory p)) s).2.machine.files ∧
      (T.perform i (.file (.makeDirectory p)) s).2.machine.due = [] := moves_change hdue h

theorem Site.moves_removeDirectory (hdue : s.machine.due = []) {p : Path}
    (h : ∀ fs', s.machine.files.removeDirectory p = .ok fs' → S.Moves d s.machine.files fs') :
    S.Moves d s.machine.files (T.perform i (.file (.removeDirectory p)) s).2.machine.files ∧
      (T.perform i (.file (.removeDirectory p)) s).2.machine.due = [] := moves_change hdue h

theorem Site.moves_makesWay (hS : S.Apart) {q : Path}
    (hq : q = S.store.entryDir d ∨ q = S.locks.directory) (ha : MakesWay q a)
    (hdue : s.machine.due = []) :
    S.Moves d s.machine.files (T.perform i a s).2.machine.files ∧
      (T.perform i a s).2.machine.due = [] := by
  cases ha with
  | look hp => exact ⟨.refl _ _, hdue⟩
  | makeDirectory hp =>
      refine moves_makeDirectory hdue fun fs' h => moves_makeWay hS ?_ h
      rcases hq with hq | hq
      · exact Or.inl (hq ▸ hp)
      · exact Or.inr (hq ▸ hp)

theorem Site.Follows.moves (hS : S.Apart) {q : Path} (ha : S.Follows d q a)
    (hdue : s.machine.due = []) :
    S.Moves d s.machine.files (T.perform i a s).2.machine.files ∧
      (T.perform i a s).2.machine.due = [] := by
  cases ha with
  | @createFresh stem hstem =>
      rw [Toolkit.perform_file]
      cases hfresh : s.machine.files.createFresh (S.store.entryDir d) stem s.machine.fresh with
      | error e =>
          simp only [Process.perform, hfresh]
          exact ⟨.refl _ _, hdue⟩
      | ok found =>
          obtain ⟨p, fs'⟩ := found
          obtain ⟨⟨k, rfl⟩, -, hwrite⟩ := createFresh_ok hfresh
          simp only [Process.perform, hfresh]
          exact ⟨moves_writeFile hS ⟨_, plain_temp hstem k, rfl⟩ hwrite, hdue⟩
  | take depth =>
      refine moves_makeDirectory hdue fun fs' h => ?_
      have hopen := walkable_of_makeDirectory (plain_lockName d depth) h
      exact moves_of_update hS (makeDirectory_ok h).2 (own_lockPlace d depth)
        (S.lockPlace_ne_entryPlace d d depth) fun _ _ _ => hopen

theorem Site.Calm.moves (hS : S.Apart) (hT : T.Local) (ha : S.Calm d a)
    (hdue : s.machine.due = []) :
    S.Moves d s.machine.files (T.perform i a s).2.machine.files ∧
      (T.perform i a s).2.machine.due = [] := by
  cases ha with
  | look hp => exact ⟨.refl _ _, hdue⟩
  | read hp => exact ⟨.refl _ _, hdue⟩
  | write hp =>
      rw [Toolkit.perform_file, Process.perform]
      exact moves_change hdue fun fs' h => moves_writeFile hS hp h
  | removeFile hp =>
      rw [Toolkit.perform_file, Process.perform]
      refine moves_change hdue fun fs' h => ?_
      obtain ⟨b, -, hupdate⟩ := removeFile_ok h
      exact moves_file hS hp hupdate
  | @move p q hp hq =>
      rw [Toolkit.perform_file, Process.perform]
      refine moves_change hdue fun fs' h => ?_
      obtain ⟨b, hb, -, hupdate⟩ := moveFile_ok h
      have hbase : ¬IsBase p.place := not_isBase_of_node? (by rw [hb]; simp)
      have hclear : S.Moves d s.machine.files (s.machine.files.clear p.place) :=
        moves_file hS hp (node?_clear hbase)
      rw [← node?_clear hbase] at hupdate
      exact hclear.trans (moves_file hS hq hupdate)
  | removeDirectory hp =>
      obtain ⟨depth, rfl⟩ := hp
      refine moves_removeDirectory hdue fun fs' h => ?_
      exact moves_of_update hS ((removeDirectory_ok h).2 (S.not_isBase_lockPlace d depth))
        (own_lockPlace d depth) (S.lockPlace_ne_entryPlace d d depth) fun _ _ hv => absurd rfl hv
  | hold => exact ⟨.refl _ _, hdue⟩
  | letGo => exact ⟨.refl _ _, hdue⟩
  | now => exact ⟨.refl _ _, hdue⟩
  | sleep =>
      rw [Toolkit.perform_file, Process.perform_sleep hdue]
      exact ⟨.refl _ _, hdue⟩
  | translate => exact ⟨.refl _ _, hdue⟩
  | compile hp hq => exact ⟨moves_compile hS hT hq, hdue⟩
  | load hp => exact ⟨.refl _ _, hdue⟩

/-- **What a builder asks for changes nothing but the ground of its digest**, and makes shared
directories that are missing. -/
theorem Site.moves_perform (hS : S.Apart) (hT : T.Local) (ha : S.Asks d a)
    (hdue : s.machine.due = []) :
    S.Moves d s.machine.files (T.perform i a s).2.machine.files ∧
      (T.perform i a s).2.machine.due = [] := by
  cases ha with
  | calm h => exact h.moves hS hT hdue
  | follows h => exact h.moves hS hdue
  | makesEntry h => exact moves_makesWay hS (Or.inl rfl) h hdue
  | makesLocks h => exact moves_makesWay hS (Or.inr rfl) h hdue

/-! ### What builders read -/

variable {fs fs' : FileSystem} {p q : Path}

theorem Site.own_of_fileOf (hp : S.FileOf d p) : S.Own d p.place := by
  obtain ⟨name, hname, rfl⟩ := hp
  rw [Path.place_child hname]
  exact own_file d _

/-- What is asked for calmly, given what is found at the paths of the digest. -/
theorem Site.Calm.reads_of (ha : S.Calm d a) (hfile : ∀ p, S.FileOf d p → fs.Agrees fs' p)
    (hlock : ∀ p, S.LockOf d p → fs.lookup p = fs'.lookup p)
    (h : ∀ x, S.Own d x → fs.node? x = fs'.node? x) : a.Reads fs fs' := by
  cases ha with
  | look hp => exact hp.elim (fun hp => (hfile _ hp).lookup) (hlock _)
  | read hp => exact (hfile _ hp).lookup
  | write hp => exact hfile _ hp
  | removeFile hp => exact (hfile _ hp).lookup
  | move hp hq => exact ⟨hfile _ hp, hfile _ hq⟩
  | removeDirectory hp =>
      refine ⟨?_, hlock _ hp, fun name => h _ ?_⟩
      · obtain ⟨depth, rfl⟩ := hp
        exact S.not_isBase_lockPlace d depth
      · obtain ⟨depth, rfl⟩ := hp
        exact .lock depth (List.prefix_append _ _)
  | hold => trivial
  | letGo => trivial
  | now => trivial
  | sleep => trivial
  | translate => trivial
  | compile hp hq => exact ⟨(hfile _ hp).lookup, hfile _ hq⟩
  | load hp => exact (hfile _ hp).lookup

/-- What follows after a directory has been made, given what is found at the paths of the digest. -/
theorem Site.Follows.reads_of (ha : S.Follows d q a) (hfile : ∀ name, Plain (Utf8.encode name) →
      q = S.store.entryDir d → fs.Agrees fs' ((S.store.entryDir d).child name))
    (hlock : ∀ depth, q = S.locks.directory → fs.Agrees fs' (S.locks.path d depth)) :
    a.Reads fs fs' := by
  cases ha with
  | createFresh hstem =>
      exact ⟨fun k => plain_temp hstem k, fun k => hfile _ (plain_temp hstem k) rfl⟩
  | take depth => exact hlock depth rfl

/-- **What a builder asks for reads nothing but the ground of its digest**, and what is shared. -/
theorem Site.Asks.reads (ha : S.Asks d a)
    (h : ∀ x, S.Own d x ∨ x ∈ S.shared → fs.node? x = fs'.node? x) : a.Reads fs fs' := by
  have hshared {l : List Place} (hl : l ⊆ S.entryPlace d :: S.shared) :
      ∀ x ∈ l, fs.node? x = fs'.node? x := fun x hx => by
    rcases List.mem_cons.1 (hl hx) with rfl | hmem
    · exact h _ (Or.inl (own_entryPlace d))
    · exact h x (Or.inr hmem)
  have hentry : ∀ x ∈ (S.store.entryDir d).visits, fs.node? x = fs'.node? x :=
    hshared visits_entryDir_subset
  have hlocks : ∀ x ∈ S.locks.directory.visits, fs.node? x = fs'.node? x :=
    hshared fun x hx => List.mem_cons_of_mem _ (visits_locks_subset hx)
  have hfile : ∀ name, Plain (Utf8.encode name) →
      fs.Agrees fs' ((S.store.entryDir d).child name) := fun name hname => by
    refine agrees_of_visits fun x hx => ?_
    rw [Path.visits_child hname, List.mem_append, List.mem_singleton] at hx
    rcases hx with hx | rfl
    · exact hentry x hx
    · exact h _ (Or.inl (own_of_fileOf ⟨name, hname, rfl⟩))
  have hlock : ∀ depth, fs.Agrees fs' (S.locks.path d depth) := fun depth => by
    refine agrees_of_visits fun x hx => ?_
    rw [LockTable.path, Path.visits_child (plain_lockName d depth), List.mem_append,
      List.mem_singleton] at hx
    rcases hx with hx | rfl
    · exact hlocks x hx
    · exact h _ (Or.inl (own_lockPlace d depth))
  cases ha with
  | calm ha =>
      refine ha.reads_of (fun p hp => ?_) (fun p hp => ?_) fun x hx => h x (Or.inl hx)
      · obtain ⟨name, hname, rfl⟩ := hp
        exact hfile name hname
      · obtain ⟨depth, rfl⟩ := hp
        exact (hlock depth).lookup
  | follows ha =>
      exact ha.reads_of (fun name hname _ => hfile name hname) fun depth _ => hlock depth
  | makesEntry ha =>
      have hway : ∀ p ∈ (S.store.entryDir d).lineage, fs.Agrees fs' p := fun p hp =>
        agrees_of_visits fun x hx => hentry x (Path.visits_subset_of_mem_lineage hp hx)
      cases ha with
      | look hp => exact (hway _ hp).lookup
      | makeDirectory hp => exact hway _ hp
  | makesLocks ha =>
      have hway : ∀ p ∈ S.locks.directory.lineage, fs.Agrees fs' p := fun p hp =>
        agrees_of_visits fun x hx => hlocks x (Path.visits_subset_of_mem_lineage hp hx)
      cases ha with
      | look hp => exact (hway _ hp).lookup
      | makeDirectory hp => exact hway _ hp

/-- Most of what a builder asks for reads nothing of what is shared, either. -/
theorem Site.Calm.reads (ha : S.Calm d a) (hs : S.Sound fs) (hs' : S.Sound fs')
    (h : ∀ x, S.Own d x → fs.node? x = fs'.node? x) : a.Reads fs fs' := by
  refine ha.reads_of (fun p hp => ?_) (fun p hp => ?_) h
  · have hnode := h _ (own_of_fileOf hp)
    obtain ⟨name, hname, rfl⟩ := hp
    exact agrees_child hname (walk_entryDir_alike hs hs' (h _ (own_entryPlace d))) hnode
  · obtain ⟨depth, rfl⟩ := hp
    rw [hs.lookup_lock, hs'.lookup_lock, h _ (own_lockPlace d depth)]

/-- What follows after a directory has been made reads nothing else that is shared. -/
theorem Site.Follows.reads (ha : S.Follows d q a) (hw : fs.Walkable q) (hw' : fs'.Walkable q)
    (h : ∀ x, S.Own d x → fs.node? x = fs'.node? x) : a.Reads fs fs' := by
  refine ha.reads_of (fun name hname hq => ?_) fun depth hq => ?_
  · rw [hq] at hw hw'
    exact agrees_child hname (Or.inl ⟨hw, hw'⟩) (h _ (own_of_fileOf ⟨name, hname, rfl⟩))
  · rw [hq] at hw hw'
    exact agrees_child (plain_lockName d depth) (Or.inl ⟨hw, hw'⟩) (h _ (own_lockPlace d depth))

end

end KernelCache
