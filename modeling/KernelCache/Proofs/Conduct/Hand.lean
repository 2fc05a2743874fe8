/-
**How a build conducts itself.**

A build has one lock in its hands at most.  It notes a lock right after its directory is made and
removes the directory right after the lock is struck from the notes, with nothing else done in
between.  Only while it has noted one it has fresh files, it writes to nothing but them, and none is
left when it strikes the lock.  It looks at a lock, pauses and loads only with empty hands.  Once it
has failed to see what is somewhere, for another reason than that there is nothing, it calls neither
the translator nor the compiler.  This is a rule about what a build has in its hands, so it can be
checked without the machine; whether an operation succeeds is left open.

Main definitions:

* `Grasp`, `Grasp.Steady` — how far a build is with a lock, and whether it may do other things;
* `Hand` — what is in its hands: the lock, its fresh files, and what it knows of files;
* `Site.OnWay`, `Site.IsProduct` — the paths on the way, and the names that things are published
  under;
* `fileConduct`, `conduct` — **the rule**;
* `Hand.Proper` — what is true of the hands of a build at all times.

Main results:

* `mono_conduct` — the rule asks less for less;
* `Site.Takeable.not_above_way` — making the directories on the way touches no lock;
* `Site.OnWay.not_isLock`, `Site.not_isLock_child` — what is no lock.
-/

import Mathlib.Order.BooleanAlgebra.Set
import KernelCache.Proofs.Locks.Makers
import KernelCache.Proofs.Rule

set_option relaxedAutoImplicit false
set_option autoImplicit false

namespace KernelCache

/-! ### Hands -/

/-- How far a build is with a lock: it has none, it has made its directory, it has noted it, or it
has struck it from the notes again and not yet removed it. -/
inductive Grasp where
  | free
  | made (d : Digest) (depth : Nat)
  | noted (d : Digest) (depth : Nat)
  | struck (d : Digest) (depth : Nat)
  deriving DecidableEq

/-- The lock of a grasp. -/
def Grasp.lock? : Grasp → Option (Digest × Nat)
  | .free => none
  | .made d depth | .noted d depth | .struck d depth => some (d, depth)

/-- Whether a build may do other things: it has no lock, or has noted it. -/
def Grasp.Steady : Grasp → Prop
  | .free | .noted .. => True
  | .made .. | .struck .. => False

/-- What a build has in its hands: a lock, its fresh files, and the files whose contents it knows.
It also keeps in mind whether it has failed to see what is somewhere. -/
structure Hand where
  grasp : Grasp
  temps : Set Path
  known : Place → Option Bytes
  failed : Prop

namespace Hand

/-- Hands with a lock and no fresh file. -/
structure Only (g : Grasp) (h : Hand) : Prop where
  grasp : h.grasp = g
  temps : h.temps = ∅

/-- Hands with no lock and no fresh file. -/
abbrev Empty (h : Hand) : Prop := h.Only .free

/-- Hands that hold the same, whatever is known and has failed. -/
structure Like (h h' : Hand) : Prop where
  grasp : h'.grasp = h.grasp
  temps : h'.temps = h.temps

/-- Hands that hold the same, where nothing has failed in between. -/
structure Same (h h' : Hand) : Prop extends h.Like h' where
  failed : h'.failed = h.failed

/-- Empty hands without any knowledge. -/
def start : Hand := ⟨.free, ∅, fun _ => none, False⟩

/-- A build has failed to see what is somewhere. -/
def fail (h : Hand) : Hand := { h with failed := True }

/-- The hands after a step with a lock. -/
def grasping (h : Hand) (g : Grasp) : Hand := { h with grasp := g }

/-- The contents of a file have become known. -/
def learn (h : Hand) (x : Place) (b : Bytes) : Hand :=
  { h with known := Function.update h.known x (some b) }

/-- The contents of a file are known no longer. -/
def forget (h : Hand) (x : Place) : Hand := { h with known := Function.update h.known x none }

/-- A fresh file was created. -/
def take (h : Hand) (p : Path) : Hand := { h with temps := insert p h.temps }

/-- A fresh file was removed, or given up. -/
def drop (h : Hand) (p : Path) : Hand := { h.forget p.place with temps := h.temps \ {p} }

/-- A fresh file was moved. -/
def publish (h : Hand) (p q : Path) : Hand where
  grasp := h.grasp
  temps := h.temps \ {p}
  known := Function.update (Function.update h.known p.place none) q.place (h.known p.place)
  failed := h.failed

variable {h h' : Hand} {x y : Place} {b : Bytes} {p q : Path} {g : Grasp}

theorem Only.steady (hg : h.Only g) (hsteady : g.Steady) : h.grasp.Steady :=
  hg.grasp ▸ hsteady

theorem steady_of_noted {d : Digest} {depth : Nat} (hgrasp : h.grasp = .noted d depth) :
    h.grasp.Steady := by
  rw [hgrasp]
  trivial

theorem empty_start : start.Empty := ⟨rfl, rfl⟩

theorem not_failed_start : ¬start.failed := id

@[simp] theorem grasping_grasp : (h.grasping g).grasp = g := rfl

@[simp] theorem grasping_temps : (h.grasping g).temps = h.temps := rfl

@[simp] theorem grasping_known : (h.grasping g).known = h.known := rfl

@[simp] theorem learn_grasp : (h.learn x b).grasp = h.grasp := rfl

@[simp] theorem learn_temps : (h.learn x b).temps = h.temps := rfl

@[simp] theorem learn_known_self : (h.learn x b).known x = some b := Function.update_self ..

theorem learn_known_of_ne (hne : y ≠ x) : (h.learn x b).known y = h.known y :=
  Function.update_of_ne hne ..

@[simp] theorem forget_grasp : (h.forget x).grasp = h.grasp := rfl

@[simp] theorem forget_temps : (h.forget x).temps = h.temps := rfl

@[simp] theorem forget_known_self : (h.forget x).known x = none := Function.update_self ..

theorem forget_known_of_ne (hne : y ≠ x) : (h.forget x).known y = h.known y :=
  Function.update_of_ne hne ..

@[simp] theorem take_grasp : (h.take p).grasp = h.grasp := rfl

@[simp] theorem take_temps : (h.take p).temps = insert p h.temps := rfl

@[simp] theorem take_known : (h.take p).known = h.known := rfl

@[simp] theorem drop_grasp : (h.drop p).grasp = h.grasp := rfl

@[simp] theorem drop_temps : (h.drop p).temps = h.temps \ {p} := rfl

@[simp] theorem publish_grasp : (h.publish p q).grasp = h.grasp := rfl

@[simp] theorem publish_temps : (h.publish p q).temps = h.temps \ {p} := rfl

@[simp] theorem publish_known_self : (h.publish p q).known q.place = h.known p.place :=
  Function.update_self ..

theorem publish_known_of_ne (hp : y ≠ p.place) (hq : y ≠ q.place) :
    (h.publish p q).known y = h.known y := by
  rw [publish]
  exact (Function.update_of_ne hq ..).trans (Function.update_of_ne hp ..)

theorem Like.refl (h : Hand) : h.Like h := ⟨rfl, rfl⟩

theorem Like.trans {h'' : Hand} (h₁ : h.Like h') (h₂ : h'.Like h'') : h.Like h'' :=
  ⟨h₂.grasp.trans h₁.grasp, h₂.temps.trans h₁.temps⟩

theorem Like.only (h₁ : h.Like h') (hg : h.Only g) : h'.Only g :=
  ⟨h₁.grasp.trans hg.grasp, h₁.temps.trans hg.temps⟩

theorem like_fail (h : Hand) : h.Like h.fail := ⟨rfl, rfl⟩

theorem Same.trans {h'' : Hand} (h₁ : h.Same h') (h₂ : h'.Same h'') : h.Same h'' :=
  ⟨h₁.toLike.trans h₂.toLike, h₂.failed.trans h₁.failed⟩

theorem Only.grasping (hg : h.Only g) (g' : Grasp) : (h.grasping g').Only g' := ⟨rfl, hg.temps⟩

theorem same_learn (h : Hand) (x : Place) (b : Bytes) : h.Same (h.learn x b) := ⟨⟨rfl, rfl⟩, rfl⟩

/-- What was created and is gone again. -/
theorem like_of_take {h' : Hand} (hp : p ∉ h.temps) (hgrasp : h'.grasp = h.grasp)
    (htemps : h'.temps = (h.take p).temps \ {p}) : h.Like h' :=
  ⟨hgrasp, by rw [htemps, take_temps, Set.insert_sdiff_self_of_notMem hp]⟩

end Hand

/-! ### Paths on the way and names to publish under -/

namespace Site

variable {S : Site} {p x : Path} {d : Digest} {depth : Nat} {name : String}

/-- The names that things are published under which are made under the lock of a depth. -/
inductive IsProduct (S : Site) : Nat → String → Prop
  | source : S.IsProduct Pipeline.translationDepth S.sourceName
  | manifest : S.IsProduct Pipeline.translationDepth "manifest.json"
  | binary : S.IsProduct Pipeline.compilationDepth "binary"
  | sidecar : S.IsProduct Pipeline.compilationDepth "binary.xxh3"

theorem IsProduct.plain (h : S.IsProduct depth name) : Plain (Utf8.encode name) := by
  cases h with
  | source => exact S.plain_sourceName
  | manifest => exact plain_manifest
  | binary => exact plain_binary
  | sidecar => exact plain_sidecar

theorem IsProduct.guard_eq (h : S.IsProduct depth name) : guard (Utf8.encode name) = depth := by
  cases h with
  | source => exact S.guard_sourceName
  | manifest => exact guard_manifest
  | binary => exact guard_binary
  | sidecar => exact guard_sidecar

theorem IsProduct.not_isScratch (h : S.IsProduct depth name) :
    ¬IsScratch (Utf8.encode name) := by
  cases h with
  | source => exact S.not_isScratch_sourceName
  | manifest => exact not_isScratch_manifest
  | binary => exact not_isScratch_binary
  | sidecar => exact not_isScratch_sidecar

/-- The paths on the way to the locks, and to the entry whose lock is noted. -/
def OnWay (S : Site) (g : Grasp) (p : Path) : Prop :=
  p ∈ S.locks.directory.lineage ∨
    ∃ d depth, g = .noted d depth ∧ p ∈ (S.store.entryDir d).lineage

/-- The way to a lock. -/
theorem steps_lock (d : Digest) (depth : Nat) : (S.locks.path d depth).steps =
    S.root.steps ++ [Utf8.encode "locks", Utf8.encode (LockTable.name d depth)] := by
  have hlock : (S.locks.path d depth).steps =
      S.locks.directory.steps ++ [Utf8.encode (LockTable.name d depth)] :=
    Path.steps_child (plain_lockName d depth)
  have hlocks : S.locks.directory.steps = S.root.steps ++ [Utf8.encode "locks"] :=
    Path.steps_child plain_locks
  rw [hlock, hlocks, List.append_assoc, List.singleton_append]

/-- The way to an entry. -/
theorem steps_entryDir (d : Digest) : (S.store.entryDir d).steps =
    S.root.steps ++ [Utf8.encode "kernels", Utf8.encode d.toText] := by
  have hentry : (S.store.entryDir d).steps =
      (S.root.child "kernels").steps ++ [Utf8.encode d.toText] :=
    Path.steps_child (plain_toText d)
  have hkernels : (S.root.child "kernels").steps = S.root.steps ++ [Utf8.encode "kernels"] :=
    Path.steps_child plain_kernels
  rw [hentry, hkernels, List.append_assoc, List.singleton_append]

/-- What is on the way to an entry is no lock. -/
theorem not_isLock_of_steps (hsteps : p.steps <+: (S.store.entryDir d).steps) : ¬S.IsLock p := by
  rintro ⟨e, depth, -, hpath⟩
  rw [hpath, steps_lock, steps_entryDir, List.prefix_append_right_inj] at hsteps
  have hname : "locks" = "kernels" := Utf8.encode_injective (List.cons_prefix_cons.1 hsteps).1
  exact absurd hname (by decide)

theorem OnWay.not_isLock {g : Grasp} (h : S.OnWay g p) : ¬S.IsLock p := by
  rcases h with h | ⟨d, depth, -, h⟩
  · rintro ⟨e, k, -, hpath⟩
    obtain ⟨hsteps, -⟩ := Path.steps_of_mem_lineage h
    have hlocks : S.locks.directory.steps = S.root.steps ++ [Utf8.encode "locks"] :=
      Path.steps_child plain_locks
    have hlength := hsteps.length_le
    rw [hpath, steps_lock, hlocks, List.length_append, List.length_append] at hlength
    simp at hlength
  · obtain ⟨hsteps, -⟩ := Path.steps_of_mem_lineage h
    exact not_isLock_of_steps hsteps

/-- A file of an entry is no lock. -/
theorem not_isLock_child (hname : Plain (Utf8.encode name)) :
    ¬S.IsLock ((S.store.entryDir d).child name) := by
  rintro ⟨e, depth, -, heq⟩
  have hsteps := congrArg (fun q => q.steps.length) heq
  simp only [Path.steps_child hname, steps_entryDir, steps_lock] at hsteps
  simp at hsteps

theorem not_isLock_path (d : Digest) (k : Artifact) : ¬S.IsLock (S.store.path d k) :=
  not_isLock_child (S.plain_fileName k)

theorem Takeable.notMem_visits_entryDir (hx : S.Takeable x) (d : Digest) :
    x.place ∉ (S.store.entryDir d).visits := by
  obtain ⟨e, depth, -, hpath⟩ := hx.isLock
  rw [visits_entryDir, List.mem_append, List.mem_cons, List.mem_singleton]
  rintro (h | h | h)
  · exact hx.notMem h
  · exact S.lockPlace_ne_kernels e depth (by rw [← h, hpath]; rfl)
  · exact S.lockPlace_ne_entryPlace e d depth (by rw [← h, hpath]; rfl)

/-- **Making the directories on the way touches no lock that can be taken**, and nothing below. -/
theorem Takeable.not_above_way (hx : S.Takeable x) {g : Grasp} (hp : S.OnWay g p) :
    ¬x.place <+: p.place := by
  rcases hp with hp | ⟨d, depth, -, hp⟩
  · exact hx.not_above hp
  · intro h
    rcases Path.passed_of_above (Path.passed_of_mem_lineage hp) h with hmem | hstart
    · exact hx.notMem_visits_entryDir d hmem
    · -- the start of a path has one name at most, and a lock is two names down at least
      have hlength := hstart.length_le
      rw [hx.isLock.length_place, FileSystem.startOf] at hlength
      split at hlength
      · rw [FileSystem.rootPlace, List.length_singleton] at hlength
        omega
      · rw [List.length_nil] at hlength
        omega

end Site

/-! ### The rule -/

/-- What a file operation asks of the hands of a build.  `may` are the locks it may take. -/
def fileConduct (S : Site) (may : Digest → Nat → Prop) :
    (a : Action) → (a.Reply → Hand → Prop) → Hand → Prop
  | .look p, post, h => h.grasp.Steady ∧ (S.IsLock p → h.grasp = .free) ∧ (∀ n, post (.ok n) h) ∧
      post (.error .notFound) h ∧ ∀ e, e ≠ .notFound → post (.error e) h.fail
  | .read p, post, h => h.grasp.Steady ∧ (∀ b, post (.ok b) (h.learn p.place b)) ∧
      post (.error .notFound) h ∧ ∀ e, e ≠ .notFound → post (.error e) h.fail
  | .makeDirectory p, post, h => h.grasp.Steady ∧ S.OnWay h.grasp p ∧ (∀ r, post r h) ∨
      ∃ d depth, p = S.locks.path d depth ∧ depth ≤ maxLockDepth ∧ may d depth ∧ h.Empty ∧
        (∀ e, post (.error e) h) ∧ post (.ok ()) (h.grasping (.made d depth))
  | .hold p, post, h => ∃ d depth, p = S.locks.path d depth ∧ h.grasp = .made d depth ∧
      post () (h.grasping (.noted d depth))
  | .letGo p, post, h => ∃ d depth, p = S.locks.path d depth ∧ h.grasp = .noted d depth ∧
      h.temps = ∅ ∧ post () (h.grasping (.struck d depth))
  | .removeDirectory p, post, h => ∃ d depth, p = S.locks.path d depth ∧
      h.grasp = .struck d depth ∧ ∀ r, post r (h.grasping .free)
  | .createFresh dir stem, post, h => ∃ d depth, h.grasp = .noted d depth ∧
      dir = S.store.entryDir d ∧
      (∀ n, Site.Scratch depth (stem ++ FileSystem.freshTail n)) ∧ (∀ e, post (.error e) h) ∧
      ∀ n, post (.ok (dir.child (stem ++ FileSystem.freshTail n)))
        (h.take (dir.child (stem ++ FileSystem.freshTail n)))
  | .write p b, post, h => p ∈ h.temps ∧ (∀ e, post (.error e) (h.forget p.place)) ∧
      post (.ok ()) (h.learn p.place b)
  | .removeFile p, post, h => p ∈ h.temps ∧ ∀ r, post r (h.drop p)
  | .move p q, post, h => p ∈ h.temps ∧
      (∃ d depth name, h.grasp = .noted d depth ∧ q = (S.store.entryDir d).child name ∧
        S.IsProduct depth name) ∧ (∀ e, post (.error e) h) ∧ post (.ok ()) (h.publish p q)
  | .now, post, h => h.Empty ∧ ∀ t, post t h
  | .sleep _, post, h => h.Empty ∧ post () h
  | .names _, _, _ => False
  | .held, _, _ => False

/-- The rule for the file operations of a build. -/
def filing (S : Site) (may : Digest → Nat → Prop) : Rule Action Action.Reply Hand :=
  ⟨fileConduct S may, Hand.Empty⟩

/-- **The rule of a build**: what an action asks of its hands. -/
def conduct (S : Site) (may : Digest → Nat → Prop) :
    Rule BuildAction BuildAction.Reply Hand where
  act
    | .file a, post, h => fileConduct S may a post h
    | .translate _, post, h =>
      (∃ d, h.grasp = .noted d Pipeline.translationDepth) ∧ ¬h.failed ∧ ∀ r, post r h
    | .compile _ output, post, h => (∃ d, h.grasp = .noted d Pipeline.compilationDepth) ∧
        output ∈ h.temps ∧ ¬h.failed ∧ ∀ r, post r (h.forget output.place)
    | .load .., post, h => h.Empty ∧ ∀ r, post r h
  wait := Hand.Empty

section

variable {S : Site} {may : Digest → Nat → Prop}

theorem mono_filing : (filing S may).Mono := by
  intro a post post' h hpost hact
  cases a with
  | look p =>
      obtain ⟨hsteady, hlock, hok, hnone, herr⟩ := hact
      exact ⟨hsteady, hlock, fun n => hpost _ _ (hok n), hpost _ _ hnone,
        fun e he => hpost _ _ (herr e he)⟩
  | read p =>
      obtain ⟨hsteady, hok, hnone, herr⟩ := hact
      exact ⟨hsteady, fun b => hpost _ _ (hok b), hpost _ _ hnone,
        fun e he => hpost _ _ (herr e he)⟩
  | makeDirectory p =>
      rcases hact with ⟨hsteady, hway, h⟩ | ⟨d, depth, hp, hdepth, hmay, hfree, herr, hok⟩
      · exact Or.inl ⟨hsteady, hway, fun r => hpost _ _ (h r)⟩
      · exact Or.inr ⟨d, depth, hp, hdepth, hmay, hfree, fun e => hpost _ _ (herr e),
          hpost _ _ hok⟩
  | hold p =>
      obtain ⟨d, depth, hp, hgrasp, h⟩ := hact
      exact ⟨d, depth, hp, hgrasp, hpost _ _ h⟩
  | letGo p =>
      obtain ⟨d, depth, hp, hgrasp, htemps, h⟩ := hact
      exact ⟨d, depth, hp, hgrasp, htemps, hpost _ _ h⟩
  | removeDirectory p =>
      obtain ⟨d, depth, hp, hgrasp, h⟩ := hact
      exact ⟨d, depth, hp, hgrasp, fun r => hpost _ _ (h r)⟩
  | createFresh dir stem =>
      obtain ⟨d, depth, hgrasp, hdir, hscratch, herr, hok⟩ := hact
      exact ⟨d, depth, hgrasp, hdir, hscratch, fun e => hpost _ _ (herr e),
        fun n => hpost _ _ (hok n)⟩
  | write p b => exact ⟨hact.1, fun e => hpost _ _ (hact.2.1 e), hpost _ _ hact.2.2⟩
  | removeFile p => exact ⟨hact.1, fun r => hpost _ _ (hact.2 r)⟩
  | move p q => exact ⟨hact.1, hact.2.1, fun e => hpost _ _ (hact.2.2.1 e), hpost _ _ hact.2.2.2⟩
  | now => exact ⟨hact.1, fun t => hpost _ _ (hact.2 t)⟩
  | sleep t => exact ⟨hact.1, hpost _ _ hact.2⟩
  | names p => exact hact
  | held => exact hact

/-- The rule asks less where less is to hold afterwards. -/
theorem mono_conduct : (conduct S may).Mono := by
  intro a post post' h hpost hact
  cases a with
  | file a => exact mono_filing a post post' h hpost hact
  | translate r => exact ⟨hact.1, hact.2.1, fun r => hpost _ _ (hact.2.2 r)⟩
  | compile source output =>
      exact ⟨hact.1, hact.2.1, hact.2.2.1, fun r => hpost _ _ (hact.2.2.2 r)⟩
  | load binary l => exact ⟨hact.1, fun r => hpost _ _ (hact.2 r)⟩

end

/-- What is true of the hands of a build at all times: its lock is one that it may take, and its
fresh files are in the entry of the lock that it has noted. -/
structure Hand.Proper (S : Site) (may : Digest → Nat → Prop) (h : Hand) : Prop where
  lock : ∀ d depth, h.grasp.lock? = some (d, depth) → may d depth ∧ depth ≤ maxLockDepth
  temps : ∀ p ∈ h.temps, ∃ d depth name, h.grasp = .noted d depth ∧
    p = (S.store.entryDir d).child name ∧ Site.Scratch depth name

theorem Hand.Only.proper {S : Site} {may : Digest → Nat → Prop} {h : Hand} (hempty : h.Empty) :
    h.Proper S may where
  lock := fun d depth hlock => by simp [hempty.grasp, Grasp.lock?] at hlock
  temps := fun p hp => by simp [hempty.temps] at hp

end KernelCache
