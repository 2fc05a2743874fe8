/-
**The listing and the ledger.**

What the ledger keeps is what stands in the directory of the locks: each lock that is taken is there
as a directory, and under names that can be read as those of locks there is nothing else.  So the
listing is exact: it shows the locks that are taken, each of them once, in the order of digests and
depths.

This asks for a root whose path does not lead through such a name in its own directory of locks: on
the way to such a root the first table that takes a lock makes a directory that is no lock, and yet
listed.  And where a file stands on the way nothing can be taken, and the listing fails.

Main definitions:

* `Site.Clear` — the roots whose paths lead through none of their own locks;
* `Site.Matches` — files that match a ledger;
* `Site.Lists` — the listing of a ledger.

Main results:

* `Site.Matches.makeWay`, `Site.Matches.take`, `Site.Matches.give` — **what actions do to files and
  ledger**;
* `LockTraffic.Run.matches` — files match the ledger at all times;
* `Site.Matches.taken_iff`, `Site.Matches.listing` — looking and listing tell what the ledger keeps;
* `listing_exact` — **the listing is exact**;
* `stray_listing` — where it is not.
-/

import KernelCache.Proofs.Files.Making
import KernelCache.Proofs.Locks.Listing
import KernelCache.Proofs.Locks.Traffic

set_option relaxedAutoImplicit false
set_option autoImplicit false

namespace KernelCache

/-- Where a directory stands it stays when another is made. -/
theorem FileSystem.stays_of_makeDirectory {fs fs' : FileSystem} {p : Path} {x : Place}
    (h : fs.makeDirectory p = .ok fs') (hx : fs.node? x = some .directory) :
    fs'.node? x = some .directory := by
  obtain ⟨hnone, hupdate⟩ := makeDirectory_ok h
  have hne : x ≠ p.place := by
    rintro rfl
    cases hnone.symm.trans hx
  rw [hupdate, Function.update_of_ne hne, hx]

namespace Site

variable {S : Site} {fs fs' : FileSystem} {taken : Digest → Nat → Prop} {a : Bytes} {d : Digest}
  {depth : Nat}

/-! ### Files that match a ledger -/

/-- The path of the root leads through no name in its own directory of locks that can be read as
that of a lock. -/
def Clear (S : Site) : Prop :=
  ∀ a, S.locksPlace ++ [a] ∈ S.root.visits → LockTable.readName? a = none

/-- Whether files match a ledger: what has a name that can be read is a lock that is taken, and
what is taken is there. -/
structure Matches (S : Site) (fs : FileSystem) (taken : Digest → Nat → Prop) : Prop where
  shown : ∀ a, LockTable.readName? a ≠ none → fs.node? (S.locksPlace ++ [a]) ≠ none →
    ∃ d depth, taken d depth ∧ a = Utf8.encode (LockTable.name d depth)
  there : ∀ d depth, taken d depth → fs.node? (S.lockPlace d depth) = some .directory
  way : ∀ d depth, taken d depth → fs.Walkable S.locks.directory

/-- A name that can be read is not on the way to the locks. -/
theorem Clear.notMem_visits (hS : S.Clear) (ha : LockTable.readName? a ≠ none) :
    S.locksPlace ++ [a] ∉ S.locks.directory.visits := by
  rw [visits_locks, List.mem_append, List.mem_singleton]
  rintro (h | h)
  · exact ha (hS a h)
  · simpa using congrArg List.length h

theorem readName?_ne_none (h : depth ≤ maxLockDepth) :
    LockTable.readName? (Utf8.encode (LockTable.name d depth)) ≠ none := by
  rw [LockTable.readName?_name d (Nat.le_trans h (by decide))]
  exact Option.some_ne_none _

/-- Making a directory on the way to the locks changes nothing that matters. -/
theorem Matches.makeWay (h : S.Matches fs taken) (hS : S.Clear) {p : Path}
    (hp : p ∈ S.locks.directory.lineage) (hfs : fs.makeDirectory p = .ok fs') :
    S.Matches fs' taken := by
  obtain ⟨hnone, hupdate⟩ := FileSystem.makeDirectory_ok hfs
  have hdir : fs.node? p.place ≠ some .directory := by simp [hnone]
  have hmem : p.place ∈ S.locks.directory.visits :=
    Path.visits_subset_of_mem_lineage hp (FileSystem.place_mem_visits hdir)
  refine ⟨fun a ha hnode => h.shown a ha ?_,
    fun d depth hd => FileSystem.stays_of_makeDirectory hfs (h.there d depth hd),
    fun d depth hd x hx => FileSystem.stays_of_makeDirectory hfs (h.way d depth hd x hx)⟩
  have hne : S.locksPlace ++ [a] ≠ p.place := fun heq => hS.notMem_visits ha (heq ▸ hmem)
  rw [hupdate, Function.update_of_ne hne] at hnode
  exact hnode

/-- **Making the directory of a lock takes the lock.** -/
theorem Matches.take (h : S.Matches fs taken)
    (hfs : fs.makeDirectory (S.locks.path d depth) = .ok fs') :
    S.Matches fs' fun e k => S.locks.path d depth = S.locks.path e k ∨ taken e k := by
  have hupdate : fs'.node? = Function.update fs.node? (S.lockPlace d depth) (some .directory) :=
    (FileSystem.makeDirectory_ok hfs).2
  have hwalk : fs.Walkable S.locks.directory :=
    FileSystem.walkable_of_makeDirectory (plain_lockName d depth) hfs
  refine ⟨fun a ha hnode => ?_, fun e k hek => ?_,
    fun e k _ x hx => FileSystem.stays_of_makeDirectory hfs (hwalk x hx)⟩
  · by_cases heq : S.locksPlace ++ [a] = S.lockPlace d depth
    · rw [lockPlace_eq_child] at heq
      exact ⟨d, depth, Or.inl rfl, List.singleton_inj.1 (List.append_cancel_left heq)⟩
    · rw [hupdate, Function.update_of_ne heq] at hnode
      obtain ⟨e, k, hek, hname⟩ := h.shown a ha hnode
      exact ⟨e, k, Or.inr hek, hname⟩
  · rcases hek with hpath | hek
    · have hplace : S.lockPlace e k = S.lockPlace d depth := congrArg Path.place hpath.symm
      rw [hupdate, hplace, Function.update_self]
    · exact FileSystem.stays_of_makeDirectory hfs (h.there e k hek)

/-- **Removing the directory of a lock gives the lock back.** -/
theorem Matches.give (h : S.Matches fs taken) (hS : S.Clear) {x : Path} (hx : S.IsLock x)
    (hfs : fs.removeDirectory x = .ok fs') :
    S.Matches fs' fun e k => x ≠ S.locks.path e k ∧ taken e k := by
  obtain ⟨d, depth, hdepth, hpath⟩ := hx
  subst x
  have hupdate : fs'.node? = Function.update fs.node? (S.lockPlace d depth) none :=
    (FileSystem.removeDirectory_ok hfs).2 (S.not_isBase_lockPlace d depth)
  refine ⟨fun a ha hnode => ?_, fun e k hek => ?_, fun e k hek x hx => ?_⟩
  · have hne : S.locksPlace ++ [a] ≠ S.lockPlace d depth := by
      intro heq
      rw [heq, hupdate, Function.update_self] at hnode
      exact hnode rfl
    rw [hupdate, Function.update_of_ne hne] at hnode
    obtain ⟨e, k, hek, hname⟩ := h.shown a ha hnode
    refine ⟨e, k, ⟨fun heq => hne ?_, hek⟩, hname⟩
    have hplace : S.lockPlace d depth = S.lockPlace e k := congrArg Path.place heq
    rw [hplace, lockPlace_eq_child, hname]
  · have hne : S.lockPlace e k ≠ S.lockPlace d depth := by
      intro heq
      obtain ⟨rfl, rfl⟩ := S.lockPlace_inj heq
      exact hek.1 rfl
    rw [hupdate, Function.update_of_ne hne]
    exact h.there e k hek.2
  · have hne : x ≠ S.lockPlace d depth := by
      rintro rfl
      rw [lockPlace_eq_child] at hx
      exact hS.notMem_visits (readName?_ne_none hdepth) hx
    rw [hupdate, Function.update_of_ne hne]
    exact h.way e k hek.2 x hx

/-! ### Looking and listing -/

/-- Whether a list of entries shows a ledger: each lock that is taken, once and under its path, in
the order of digests and depths. -/
structure Lists (S : Site) (taken : Digest → Nat → Prop) (l : List LockTable.Entry) : Prop where
  mem : ∀ e, e ∈ l ↔ taken e.digest e.depth ∧ e.path = S.locks.path e.digest e.depth
  ascending : l.Pairwise fun e e' =>
    e.digest < e'.digest ∨ e.digest = e'.digest ∧ e.depth < e'.depth

variable {s : Process}

/-- **A lock is taken exactly if it is found to be locked.** -/
theorem Matches.taken_iff (h : S.Matches s.machine.files taken)
    (hdepth : ∀ d depth, taken d depth → depth ≤ maxLockDepth) (d : Digest) (depth : Nat) :
    taken d depth ↔ s.runTask (S.locks.isLocked d depth) = (some (.ok true), s) := by
  rw [isLocked_iff]
  constructor
  · intro hd
    have hthere := h.there d depth hd
    rw [lockPlace_eq_child] at hthere
    exact ⟨hdepth d depth hd, h.way d depth hd, by simp [hthere]⟩
  · rintro ⟨hle, hshown⟩
    obtain ⟨e, k, hek, heq⟩ := h.shown _ (readName?_ne_none hle) hshown.there
    obtain ⟨hd, hk⟩ := lockName_injective (Utf8.encode_injective heq)
    exact hd ▸ hk ▸ hek

/-- **What is listed.** -/
theorem Matches.lists (h : S.Matches s.machine.files taken)
    (hdepth : ∀ d depth, taken d depth → depth ≤ maxLockDepth) {l : List LockTable.Entry}
    (hl : s.runTask S.locks.entries = (some (.ok l), s)) : S.Lists taken l := by
  have hstands {e : LockTable.Entry} {a : Bytes} (ha : S.Shown s a)
      (he : e.Stands S.locks.directory a) : taken e.digest e.depth ∧
        a = Utf8.encode (LockTable.name e.digest e.depth) := by
    obtain ⟨d, depth, hd, hname⟩ := h.shown a (by simp [he.read]) ha.there
    have hread := he.read
    rw [hname, LockTable.readName?_name d (Nat.le_trans (hdepth d depth hd) (by decide))] at hread
    obtain ⟨hdigest, hk⟩ := Prod.mk.inj (Option.some.inj hread)
    exact ⟨hdigest ▸ hk ▸ hd, hdigest ▸ hk ▸ hname⟩
  refine ⟨fun e => ?_, Site.pairwise_entries hl fun a b ha hb hlt e e' he he' => ?_⟩
  · rw [Site.mem_entries hl]
    constructor
    · rintro ⟨a, ha, he⟩
      obtain ⟨hd, hname⟩ := hstands ha he
      exact ⟨hd, by rw [he.path, hname, LockTable.path_eq_join]⟩
    · rintro ⟨hd, hpath⟩
      have hthere := h.there _ _ hd
      rw [lockPlace_eq_child] at hthere
      have hshown : S.Shown s (Utf8.encode (LockTable.name e.digest e.depth)) :=
        ⟨h.way _ _ hd, by simp [hthere]⟩
      refine ⟨_, hshown, LockTable.readName?_name _ ?_, hpath.trans (LockTable.path_eq_join _ _ _)⟩
      exact Nat.le_trans (hdepth _ _ hd) (by decide)
  · -- the names are in the order of digests and depths
    obtain ⟨hd, hname⟩ := hstands ha he
    obtain ⟨hd', hname'⟩ := hstands hb he'
    rw [hname, hname'] at hlt
    exact (LockTable.encode_name_lt_iff (hdepth _ _ hd) (hdepth _ _ hd')).1 hlt

/-- **The listing succeeds**, or a file stands on the way and nothing is taken. -/
theorem Matches.listing (h : S.Matches s.machine.files taken) :
    (∃ l, s.runTask S.locks.entries = (some (.ok l), s)) ∨
      (∃ x ∈ S.locks.directory.visits, ∃ b, s.machine.files.node? x = some (.file b)) ∧
        s.runTask S.locks.entries = (some (.error (.io S.locks.directory .notADirectory)), s) ∧
        ∀ d depth, ¬taken d depth := by
  have hrun := LockTable.runTask_entries S.locks s
  cases hnames : s.machine.files.names S.locks.directory with
  | ok names =>
      rw [hnames] at hrun
      exact Or.inl ⟨_, hrun⟩
  | error e =>
      rw [hnames] at hrun
      rcases FileSystem.names_child_error plain_locks hnames with rfl | ⟨rfl, hfile⟩
      · exact Or.inl ⟨_, hrun⟩
      · refine Or.inr ⟨hfile, hrun, fun d depth hd => ?_⟩
        obtain ⟨x, hx, b, hb⟩ := hfile
        cases (h.way d depth hd x hx).symm.trans hb

/-! ### What actions do -/

/-- Making a directory on the way takes no lock. -/
theorem ledger_of_lineage {x : Path} (hx : x ∈ S.locks.directory.lineage) :
    S.locks.ledger taken (.makeDirectory x) (.ok ()) = taken := by
  funext d depth
  refine propext ⟨fun h => h.resolve_left fun heq => ?_, Or.inr⟩
  exact S.path_notMem_lineage d depth (heq ▸ hx)

/-- **An action keeps files and ledger together.** -/
theorem Matches.perform {c : LockCall} {a : Action} (h : S.Matches s.machine.files taken)
    (hS : S.Clear) (hdue : s.machine.due = []) (hallows : S.Allows c a) :
    S.Matches (s.perform a).2.machine.files (S.locks.ledger taken a (s.perform a).1) := by
  cases a with
  | makeDirectory x =>
      rw [Process.perform]
      cases hfs : s.machine.files.makeDirectory x with
      | error e => exact h
      | ok fs =>
          rcases hallows with hway | ⟨d, depth, -, -, hpath⟩
          · exact (ledger_of_lineage hway).symm ▸ h.makeWay hS hway hfs
          · subst x
            exact h.take hfs
  | removeDirectory x =>
      rw [Process.perform]
      cases hfs : s.machine.files.removeDirectory x with
      | error e => exact h
      | ok fs => exact h.give hS hallows hfs
  | sleep duration =>
      -- nobody else will remove anything, so only the clock goes on
      simp only [Process.perform, Machine.settle, hdue]
      exact h
  | look p => exact h
  | now => exact h
  | held => exact h
  | hold x => exact h
  | letGo x => exact h
  | _ => exact hallows.elim

end Site

namespace LockTraffic

variable {ι : Type} {S : Site} {t t' : LockTraffic ι}

theorem Starts.matches (h : t.Starts S) : S.Matches t.world.machine.files t.taken where
  shown := fun a _ hnode => absurd (h.below a) hnode
  there := fun d depth hd => absurd hd (h.taken d depth)
  way := fun d depth hd => absurd hd (h.taken d depth)

theorem Beside.matches {m : Machine} (hm : t.Beside S m) (ho : t.Orderly S)
    (h : S.Matches t.world.machine.files t.taken) : S.Matches m.files t.taken where
  shown := fun a ha hnode => h.shown a ha fun hnone => hnode ((hm.names a ha).trans hnone)
  there := fun d depth hd => by
    have hthere := h.there d depth hd
    rw [S.lockPlace_eq_child] at hthere ⊢
    exact (hm.names _ (Site.readName?_ne_none (ho.depth d depth hd))).trans hthere
  way := fun d depth hd x hx => hm.way ⟨d, depth, hd⟩ x hx (h.way d depth hd x hx)

variable [DecidableEq ι]

/-- **A step keeps files and ledger together.** -/
theorem Step.matches (hstep : Step S t t') (hS : S.Clear) (ho : t.Orderly S)
    (h : S.Matches t.world.machine.files t.taken) :
    S.Matches t'.world.machine.files t'.taken := by
  cases hstep with
  | start c hidle => exact h
  | act hi =>
      have hheeds := ho.heeds _ _ hi
      rw [Program.obeys_ask] at hheeds
      exact h.perform hS ho.due hheeds.2.1
  | finish hi => exact h
  | beside hm => exact hm.matches ho h

/-- **Files match the ledger at all times.** -/
theorem Run.matches (hrun : Run S t t') (hS : S.Clear) (hstart : t.Starts S) :
    S.Matches t'.world.machine.files t'.taken := by
  induction hrun with
  | refl => exact hstart.matches
  | tail hrest hstep ih => exact hstep.matches hS (Run.orderly hrest hstart.orderly) ih

end LockTraffic

/-! ### The listing -/

/-- **The listing is exact.**  Any number of tables take locks below one root and give them back,
from a world without a directory of locks, while anything else changes but names that can be read as
those of locks.  At all times a lock is taken exactly if it is found to be locked, and the listing
shows the locks that are taken: each of them once, under its path, in the order of digests and
depths.  It fails only where a file stands on the way to the directory of the locks, and then nothing
is taken.  The path of the root must not lead through a name in its own directory of locks that can
be read as that of a lock. -/
theorem listing_exact {ι : Type} [DecidableEq ι] {S : Site} (hS : S.Clear) {t t' : LockTraffic ι}
    (hstart : t.Starts S) (hrun : LockTraffic.Run S t t') (notes : SortedMap Path Unit) :
    let s : Process := ⟨t'.world.machine, notes⟩
    (∀ d depth, t'.taken d depth ↔
      s.runTask (S.locks.isLocked d depth) = (some (.ok true), s)) ∧
    ((∃ l, s.runTask S.locks.entries = (some (.ok l), s) ∧ S.Lists t'.taken l) ∨
      (∃ x ∈ S.locks.directory.visits, ∃ b, s.machine.files.node? x = some (.file b)) ∧
        s.runTask S.locks.entries = (some (.error (.io S.locks.directory .notADirectory)), s) ∧
        ∀ d depth, ¬t'.taken d depth) := by
  intro s
  have hmatches : S.Matches s.machine.files t'.taken := hrun.matches hS hstart
  have hdepth := (hrun.orderly hstart.orderly).depth
  refine ⟨hmatches.taken_iff hdepth, ?_⟩
  rcases hmatches.listing with ⟨l, hl⟩ | hfails
  · exact Or.inl ⟨l, hl, hmatches.lists hdepth hl⟩
  · exact Or.inr hfails

/-! ### Some runs -/

namespace LockTraffic

/-- Two tables that have not done anything, and some files. -/
def fresh (fs : FileSystem) : LockTraffic Bool where
  world := ⟨⟨fs, 0, 0, []⟩, fun _ => .empty, fun _ => none⟩
  taken := fun _ _ => False

theorem starts_fresh {S : Site} {fs : FileSystem}
    (h : ∀ x, S.locksPlace <+: x → fs.nodes.get? x = none) : (fresh fs).Starts S := by
  have hnone {x : Place} (hx : S.locksPlace <+: x) : fs.node? x = none := by
    refine (if_neg fun hbase => ?_).trans (h x hx)
    exact S.not_isBase_locksPlace (FileSystem.IsBase.of_prefix hbase hx)
  exact {
    due := rfl
    notes := fun _ => rfl
    ongoing := fun _ => rfl
    taken := fun _ _ => id
    absent := ne_of_eq_of_ne (hnone (List.prefix_refl _)) nofun
    below := fun a => hnone (List.prefix_append _ _) }

end LockTraffic

namespace Busy

-- What comes out of the runs is irreducible, so that only the kernel plays them.

theorem clear : Site.here.Clear := by
  intro a ha
  have hvisits : Site.here.root.visits = [] := by decide
  rw [hvisits] at ha
  cases ha

/-- Each of two tables takes a lock. -/
def morning : LockTraffic Bool := (LockTraffic.fresh .empty).play Site.here <|
  .call true (.acquire .empty 0) :: List.replicate 6 (.go true) ++
    .call false (.acquire .empty 3) :: List.replicate 6 (.go false)

/-- Somebody leaves a file among the locks. -/
def noon : LockTraffic Bool := morning.changed { morning.world.machine with
  files := morning.world.machine.files.put
    (Site.here.locksPlace ++ [Utf8.encode "README"]) (.file []) }

/-- The second table gives back the lock of the first. -/
@[irreducible]
def evening : LockTraffic Bool := noon.play Site.here <|
  .call false (.release .empty 0) :: List.replicate 4 (.go false)

theorem run : LockTraffic.Run Site.here (.fresh .empty) evening := by
  unfold evening
  refine (LockTraffic.run_play _ _).trans (.trans (.single (.beside ?_)) (LockTraffic.run_play _ _))
  exact LockTraffic.beside_of_created (by decide +kernel) (by decide +kernel) _

/-- Somebody who lists the locks then. -/
def process : Process := .fresh evening.world.machine

theorem kept : process.runTask (Site.here.locks.isLocked .empty 3) = (some (.ok true), process) := by
  decide +kernel

theorem given_back :
    process.runTask (Site.here.locks.isLocked .empty 0) = (some (.ok false), process) := by
  decide +kernel

end Busy

/-- In the evening one lock is taken, and the listing shows it. -/
theorem busy_listing : ∃ l,
    Busy.process.runTask Site.here.locks.entries = (some (.ok l), Busy.process) ∧
      Site.here.Lists Busy.evening.taken l ∧ Busy.evening.taken .empty 3 ∧
      ¬Busy.evening.taken .empty 0 := by
  obtain ⟨htaken, hlisting⟩ := listing_exact Busy.clear (LockTraffic.starts_fresh fun _ _ => rfl)
    Busy.run .empty
  have hthree : Busy.evening.taken .empty 3 := (htaken _ _).2 Busy.kept
  have hzero : ¬Busy.evening.taken .empty 0 := by
    intro h
    have hlocked := (htaken _ _).1 h
    cases hlocked.symm.trans Busy.given_back
  rcases hlisting with ⟨l, hl, hlists⟩ | ⟨-, -, hnone⟩
  · exact ⟨l, hl, hlists, hthree, hzero⟩
  · exact absurd hthree (hnone _ _)

namespace Winding

/-- A cache whose root is written with a way through its own directory of locks. -/
def site : Site where
  root := Path.ofString ("r/locks/" ++ Digest.empty.toText ++ "_10/../..")
  extension := "cpp"
  noSlash := slash_notMem_cpp

/-- A table takes a lock there. -/
@[irreducible]
def final : LockTraffic Bool := (LockTraffic.fresh .empty).play site <|
  .call true (.acquire .empty 0) :: List.replicate 20 (.go true)

/-- Somebody who lists the locks then. -/
def process : Process := .fresh final.world.machine

/-- What has been made on the way. -/
def name : Bytes := Utf8.encode (LockTable.name .empty 10)

theorem run : LockTraffic.Run site (.fresh .empty) final := by
  unfold final
  exact LockTraffic.run_play _ _

theorem walkable : process.machine.files.Walkable site.locks.directory := by
  have hall : ∀ x ∈ site.locks.directory.visits,
      process.machine.files.node? x = some .directory := by decide +kernel
  exact hall

theorem shown : site.Shown process name := ⟨walkable, by decide +kernel⟩

end Winding

namespace Blocked

/-- A cache with a file in place of its root. -/
def site : Site := ⟨Path.ofString "f", "cpp", slash_notMem_cpp⟩

/-- The file. -/
def files : FileSystem := FileSystem.empty.put site.root.place (.file [])

theorem starts : (LockTraffic.fresh files).Starts site := by
  refine LockTraffic.starts_fresh fun x hx => ?_
  have hne : site.root.place ≠ x := by
    rintro rfl
    exact absurd hx (by decide +kernel)
  exact (SortedMap.get?_insert _ _ _ _).trans (if_neg hne)

/-- Somebody who lists the locks there. -/
def process : Process := .fresh ⟨files, 0, 0, []⟩

theorem refused : process.runTask site.locks.entries =
    (some (.error (.io site.locks.directory .notADirectory)), process) := by
  decide +kernel

end Blocked

/-- Where the path of the root leads through a name in its own directory of locks, something may be
listed that is not taken; and with a file in place of the root there is no listing. -/
theorem stray_listing :
    ((LockTraffic.fresh .empty).Starts Winding.site ∧
      LockTraffic.Run Winding.site (.fresh .empty) Winding.final ∧ ∃ l,
        Winding.process.runTask Winding.site.locks.entries = (some (.ok l), Winding.process) ∧
          ∃ e ∈ l, ¬Winding.final.taken e.digest e.depth) ∧
      (LockTraffic.fresh Blocked.files).Starts Blocked.site ∧ ∀ l,
        Blocked.process.runTask Blocked.site.locks.entries ≠ (some (.ok l), Blocked.process) := by
  have hstarts : (LockTraffic.fresh .empty).Starts Winding.site :=
    LockTraffic.starts_fresh fun _ _ => rfl
  refine ⟨⟨hstarts, Winding.run, ?_⟩, Blocked.starts, fun l hl => ?_⟩
  · obtain ⟨l, hl⟩ := Site.exists_entries Winding.walkable
    have hread : LockTable.readName? Winding.name = some (.empty, 10) :=
      LockTable.readName?_name .empty (by decide)
    have hstands : LockTable.Entry.Stands Winding.site.locks.directory ⟨.empty, 10, _⟩
        Winding.name := ⟨hread, rfl⟩
    refine ⟨l, hl, _, (Site.mem_entries hl).2 ⟨_, Winding.shown, hstands⟩, fun htaken => ?_⟩
    exact absurd ((Winding.run.orderly hstarts.orderly).depth _ _ htaken) (by decide)
  · cases hl.symm.trans Blocked.refused

end KernelCache
