/-
**Nothing that is there is made again.**

A build that finds something where the translated source of its entry belongs does not call the
translator, and leaves the source and the manifest alone; the same goes for the binary, the compiler
and the checksum.  Only the answer that nothing is there counts as such: after any other failure to
see what is somewhere, a build calls neither and fails.  And a build succeeds only with a binary
whose checksum is the recorded one and with a manifest that has its function.

The first part is about what a step leaves alone that takes no lock of a depth, the second about
builds from their start to where the parts of the first kind begin.

Main definitions:

* `Process.Agree` — the same at a place and below it;
* `Site.Keeps`, `BuildAction.Makes` — what is published under the locks of a depth, and what makes
  it;
* `Hand.Apart` — **a build that takes no lock of a depth**;
* `Rule.guarding` — the rule that it obeys;
* `Process.Serves` — an entry with which a build may succeed.

Main results:

* `Turn.agree` — what a step leaves alone;
* `obeys_contains_there`, `obeys_verified_there` — looking for what is there;
* `no_silent_rebuild` — **nothing that is there is made again**.
-/

import KernelCache.Proofs.Conduct.Build
import KernelCache.Proofs.Conduct.Locks
import KernelCache.Proofs.Crew.Alone

set_option relaxedAutoImplicit false
set_option autoImplicit false

namespace KernelCache

/-- Whether the same is at a place, and below it, in two processes. -/
def Process.Agree (x : Place) (s s' : Process) : Prop := ∀ y, x <+: y → s'.node? y = s.node? y

/-- Whether what is published in an entry under the lock of a depth is the same in two
processes. -/
def Site.Keeps (S : Site) (d : Digest) (depth : Nat) (s s' : Process) : Prop :=
  ∀ name, S.IsProduct depth name → s.Agree (S.filePlace d name) s'

/-- Whether an action makes what is published under the locks of a depth. -/
def BuildAction.Makes (depth : Nat) : BuildAction → Prop
  | .translate _ => depth = Pipeline.translationDepth
  | .compile .. => depth = Pipeline.compilationDepth
  | .file _ | .load .. => False

/-- Whether an operation asks what is somewhere. -/
def Action.Asks : Action → Prop
  | .look _ | .read _ => True
  | _ => False

/-- Whether an entry has a binary whose checksum is the recorded one, and a manifest that has a
function. -/
structure Process.Serves (S : Site) (d : Digest) (function : String) (s : Process) : Prop where
  binary : ∃ b record text, s.node? (S.store.path d .binary).place = some (.file b) ∧
    s.node? (S.store.sidecar d).place = some (.file record) ∧ Utf8.decode? record = some text ∧
    String.ofList (Text.trim text) = (Checksum.of b).toText
  manifest : ∃ b m l, s.node? (S.store.path d .manifest).place = some (.file b) ∧
    Manifest.ofBytes? b = some m ∧ m.kernels.get? function = some l

theorem Site.Keeps.refl {S : Site} {d : Digest} {depth : Nat} (s : Process) :
    S.Keeps d depth s s := fun _ _ _ _ => rfl

/-! ### What a step leaves alone -/

section

variable {S : Site} {may : Digest → Nat → Prop} {fails : Action → Prop} {h h' : Hand}
  {s s' : Process} {d : Digest} {depth : Nat} {name : String}

namespace Site

/-- Files of entries are not below one another. -/
theorem filePlace_of_above {e : Digest} {other : String}
    (h : S.filePlace d name <+: S.filePlace e other) : d = e ∧ name = other := by
  refine S.filePlace_inj (h.eq_of_length ?_)
  simp [filePlace, entryPlace_eq]

theorem not_above_lockPlace {e : Digest} {k : Nat} : ¬S.filePlace d name <+: S.lockPlace e k := by
  intro h
  have hlength := h.length_le
  simp [filePlace, entryPlace_eq, lockPlace_eq] at hlength

/-- The directories on the way are not below the files of an entry that can be reached. -/
theorem OnWay.not_above {g : Grasp} {p : Path} (hp : S.OnWay g p)
    (hway : s.machine.files.Walkable (S.store.entryDir d)) (hnone : s.node? p.place = none) :
    ¬S.filePlace d name <+: p.place := by
  have hthere {x : Place} (hx : x ∈ S.root.visits ++ [S.kernelsPlace]) : p.place ≠ x := by
    intro heq
    have hvisit : x ∈ (S.store.entryDir d).visits := by
      rw [visits_entryDir]
      rcases List.mem_append.1 hx with hx | hx
      · exact List.mem_append_left _ hx
      · exact List.mem_append_right _ (List.mem_cons.2 (Or.inl (List.mem_singleton.1 hx)))
    have hdir : s.node? x = some .directory := hway x hvisit
    rw [← heq, hnone] at hdir
    cases hdir
  have hbase {q : Path} (hstart : p.place <+: FileSystem.startOf q) : False := by
    have hbase : FileSystem.IsBase p.place := by
      rw [FileSystem.startOf] at hstart
      split at hstart
      · rcases List.prefix_cons_iff.1 hstart with heq | ⟨t, heq, ht⟩
        · exact Or.inl heq
        · rw [List.prefix_nil.1 ht] at heq
          exact Or.inr heq
      · exact Or.inl (List.prefix_nil.1 hstart)
    cases hnone.symm.trans (FileSystem.node?_of_isBase hbase)
  intro habove
  have hlength := habove.length_le
  rw [filePlace, entryPlace_eq] at hlength
  rcases hp with hp | ⟨e, k, -, hp⟩
  · rcases Path.passed_of_mem_lineage hp with hvisit | hstart
    · rw [visits_locks, List.mem_append, List.mem_singleton] at hvisit
      rcases hvisit with hvisit | hlocks
      · exact hthere (List.mem_append_left _ hvisit) rfl
      · have hplace : S.locksPlace = S.root.place ++ [Utf8.encode "locks"] :=
          Path.place_child plain_locks
        rw [hlocks, hplace] at hlength
        simp at hlength
    · exact hbase hstart
  · rcases Path.passed_of_mem_lineage hp with hvisit | hstart
    · rw [visits_entryDir, List.mem_append, List.mem_cons, List.mem_singleton] at hvisit
      rcases hvisit with hvisit | hkernels | hentry
      · exact hthere (List.mem_append_left _ hvisit) rfl
      · exact hthere (List.mem_append_right _ (List.mem_singleton_self _)) hkernels
      · rw [hentry, entryPlace_eq] at hlength
        simp at hlength
    · exact hbase hstart

end Site

/-- **A step leaves alone what is published under a lock that it may not take.** -/
theorem Turn.agree (hturn : Turn S fails h s h' s') (hproper : h.Proper S may)
    (hdue : s.machine.due = []) (hway : s.machine.files.Walkable (S.store.entryDir d))
    (hmay : ¬may d depth) (hname : S.IsProduct depth name) : s.Agree (S.filePlace d name) s' := by
  intro y hy
  have hfresh {p : Path} (hp : p ∈ h.temps) : y ≠ p.place := by
    obtain ⟨e, k, other, -, hscratch, hplace⟩ := hproper.place_eq hp
    rw [hplace]
    refine Site.ne_of_below hy fun habove => ?_
    exact hname.not_isScratch ((Site.filePlace_of_above habove).2 ▸ hscratch.isScratch)
  cases hturn with
  | still _ _ hnodes => rw [hnodes]
  | pass _ _ _ hgone =>
      refine (hgone y).resolve_right fun hgone => ?_
      obtain ⟨⟨e, he, -⟩, -⟩ := hgone
      rw [hdue] at he
      cases he
  | way hp hnone _ _ hnodes =>
      rw [hnodes, Function.update_of_ne (Site.ne_of_below hy (hp.not_above hway hnone))]
  | take _ _ _ _ _ _ hnodes =>
      rw [hnodes, Function.update_of_ne (Site.ne_of_below hy Site.not_above_lockPlace)]
  | note _ _ _ hnodes => rw [hnodes]
  | strike _ _ _ hnodes => rw [hnodes]
  | give _ _ _ hnodes =>
      rw [hnodes, Function.update_of_ne (Site.ne_of_below hy Site.not_above_lockPlace)]
  | lose _ _ _ hnodes _ => rw [hnodes]
  | @create e k other p _ hp hscratch _ _ _ _ _ hnodes =>
      have hplace : p.place = S.filePlace e other :=
        (congrArg Path.place hp).trans (Path.place_child hscratch.plain)
      have hne : y ≠ p.place := by
        rw [hplace]
        refine Site.ne_of_below hy fun habove => ?_
        exact hname.not_isScratch ((Site.filePlace_of_above habove).2 ▸ hscratch.isScratch)
      rw [hnodes, Function.update_of_ne hne]
  | edit hp _ _ _ _ hnodes => rw [hnodes, Function.update_of_ne (hfresh hp)]
  | drop hp _ _ _ _ hnodes => rw [hnodes, Function.update_of_ne (hfresh hp)]
  | spill _ _ _ _ hnodes _ => rw [hnodes]
  | @publish e k other p b hp hnoted hother _ _ _ _ _ hnodes =>
      have hne : y ≠ S.filePlace e other := by
        refine Site.ne_of_below hy fun habove => hmay ?_
        -- the name says under which lock it is published
        obtain ⟨hd, heq⟩ := Site.filePlace_of_above habove
        have hdepth : depth = k := by
          rw [← hname.guard_eq, ← hother.guard_eq, heq]
        rw [hd, hdepth]
        exact (hproper.lock e k (by rw [hnoted]; rfl)).1
      rw [hnodes, Function.update_of_ne hne, Function.update_of_ne (hfresh hp)]

end

/-! ### Builds that take no lock of a depth -/

/-- The rule of a process in which what is published in an entry under the lock of a depth stays as
it is, and nothing that makes it is called. -/
def Rule.guarding (S : Site) (d : Digest) (depth : Nat) (s₀ : Process) :
    Rule BuildAction BuildAction.Reply Process :=
  .watch (Process.Comes fun _ => True) (S.Keeps d depth s₀) fun a => ¬a.Makes depth

/-- A build that takes no lock of a depth, with an entry that can be reached. -/
structure Hand.Apart (S : Site) (d : Digest) (depth : Nat) (s₀ : Process) (h : Hand) (s : Process) :
    Prop where
  proper : h.Proper S fun _ k => k ≠ depth
  takeable : ∀ x, h.Has S x → S.Takeable x
  due : s.machine.due = []
  way : s.machine.files.Walkable (S.store.entryDir d)
  keeps : S.Keeps d depth s₀ s

section

variable {S : Site} {h : Hand} {s₀ s s' : Process} {d : Digest} {depth : Nat}

/-- A build begins apart. -/
theorem Hand.apart_start (hdue : s.machine.due = [])
    (hway : s.machine.files.Walkable (S.store.entryDir d)) (hkeeps : S.Keeps d depth s₀ s) :
    Hand.start.Apart S d depth s₀ s where
  proper := Hand.Only.proper Hand.empty_start
  takeable := fun _ hx => absurd hx Hand.empty_start.not_has
  due := hdue
  way := hway
  keeps := hkeeps

/-- What a build asks for that takes no lock of a depth. -/
theorem Hand.Apart.allowed (ha : h.Apart S d depth s₀ s) {a : BuildAction}
    {post : a.Reply → Hand → Prop} (hact : (conduct S fun _ k => k ≠ depth).act a post h) :
    ¬a.Makes depth := by
  have hnoted {e : Digest} {k : Nat} (hgrasp : h.grasp = .noted e k) : depth ≠ k := fun heq =>
    (ha.proper.lock e k (by rw [hgrasp]; rfl)).1 heq.symm
  cases a with
  | file a => exact id
  | translate r =>
      obtain ⟨⟨e, hgrasp⟩, -⟩ := hact
      exact hnoted hgrasp
  | compile source output =>
      obtain ⟨⟨e, hgrasp⟩, -⟩ := hact
      exact hnoted hgrasp
  | load binary l => exact id

/-- **Every step keeps a build apart.** -/
theorem Hand.Apart.turn (ha : h.Apart S d depth s₀ s) {a : BuildAction}
    {r : a.Reply} {post : a.Reply → Hand → Prop}
    (hact : (conduct S fun _ k => k ≠ depth).act a post h)
    (hstep : s.Comes (fun _ => True) a r s') : ∃ h', post r h' ∧ h'.Apart S d depth s₀ s' := by
  obtain ⟨h', hpost, hproper, -, -, hdue, hturn⟩ := turns_of_conduct ha.proper hact hstep
  have hlock := hturn.lockTurn ha.proper
  refine ⟨h', hpost, hproper, fun x => hlock.takeable ha.takeable,
    List.eq_nil_iff_forall_not_mem.2 fun e he => ?_, ?_, fun name hname y hy => ?_⟩
  · have hmem := hdue he
    rw [ha.due] at hmem
    cases hmem
  · exact hlock.walkable ha.takeable ha.due (fun x hx => hx.notMem_visits_entryDir d) ha.way
  · rw [hturn.agree ha.proper ha.due ha.way (fun hmay => hmay rfl) hname y hy]
    exact ha.keeps name hname y hy

/-- A part of a build that takes no lock of a depth leaves alone what is published under it. -/
theorem Hand.Apart.guarding {α : Type} {t : BuildTask α} {ok : α → Hand → Prop}
    {err : BuildError → Hand → Prop} {ok' : α → Process → Prop} {err' : BuildError → Process → Prop}
    (ha : h.Apart S d depth s₀ s)
    (hobeys : Task.Obeys (conduct S fun _ k => k ≠ depth) ok err t h)
    (hok : ∀ a h' s', ok a h' → h'.Apart S d depth s₀ s' → ok' a s')
    (herr : ∀ e h' s', err e h' → h'.Apart S d depth s₀ s' → err' e s') :
    Task.Obeys (.guarding S d depth s₀) ok' err' t s := by
  refine Program.Obeys.mono (Rule.mono_watch _ _ _) (fun r s' hr => ?_)
    (Program.Obeys.watched (fun h s => h.Apart S d depth s₀ s) (fun _ _ ha => ha.keeps)
      (fun a post h s hact ha => ⟨ha.allowed hact, fun r s' => ha.turn hact⟩) hobeys ha)
  obtain ⟨h', hpost, ha'⟩ := hr
  cases r with
  | ok a => exact hok a h' s' hpost ha'
  | error e => exact herr e h' s' hpost ha'

theorem Hand.Apart.guarding_keeps {α : Type} {t : BuildTask α} (ha : h.Apart S d depth s₀ s)
    (hobeys : Task.Obeys (conduct S fun _ k => k ≠ depth) (fun _ _ => True) (fun _ _ => True) t h) :
    Task.Obeys (.guarding S d depth s₀) (fun _ => S.Keeps d depth s₀)
      (fun _ => S.Keeps d depth s₀) t s :=
  ha.guarding hobeys (fun _ _ _ _ ha' => ha'.keeps) fun _ _ _ _ ha' => ha'.keeps

end

/-! ### Looking for what is there -/

section

variable {S : Site} {s : Process} {d : Digest} {good : Process → Prop}
  {allowed : BuildAction → Prop}

/-- The rule that something holds at all times and only some actions are asked for, whatever comes
of them, for file operations. -/
abbrev Rule.watchFiles (good : Process → Prop) (allowed : BuildAction → Prop) :
    Rule Action Action.Reply Process :=
  (Rule.watch (Process.Comes fun _ => True) good allowed).files

theorem Action.Asks.perform {a : Action} (ha : a.Asks) (s : Process) : (s.perform a).2 = s := by
  cases a with
  | look p => rfl
  | read p => rfl
  | _ => exact False.elim ha

/-- Asking leaves everything as it is. -/
theorem obeys_ask (hgood : good s) {a : Action} (ha : a.Asks) (hallowed : allowed (.file a))
    {post : a.Reply → Process → Prop} (hpost : post (s.perform a).1 s)
    (herr : ∀ r, a.Fails r → post r s) :
    Program.Obeys (Rule.watchFiles good allowed) post (Program.act a) s := by
  have hact : (Rule.watchFiles good allowed).act a post s := by
    refine ⟨hgood, hallowed, fun r s' hstep => ?_⟩
    cases hstep with
    | file hfares =>
        cases hfares with
        | works =>
            rw [ha.perform]
            exact hpost
        | fails _ hr => exact herr r hr
        | tears => exact False.elim ha
  exact Program.obeys_act_of hact

theorem obeys_look (hgood : good s) (hallowed : ∀ a : Action, a.Asks → allowed (.file a)) {p : Path}
    {post : Except Failure Node → Process → Prop}
    (hok : ∀ x, s.machine.files.lookup p = .ok x → post (.ok x.2) s)
    (hnone : s.machine.files.lookup p = .error .notFound → post (.error .notFound) s)
    (herr : ∀ e, e ≠ .notFound → post (.error e) s) :
    Program.Obeys (Rule.watchFiles good allowed) post (Ask.look p) s := by
  refine obeys_ask (a := .look p) hgood trivial (hallowed _ trivial) ?_ fun r hr => ?_
  · change post ((s.machine.files.lookup p).map (·.2)) s
    cases hlook : s.machine.files.lookup p with
    | ok x => exact hok x hlook
    | error e =>
        by_cases he : e = .notFound
        · exact he ▸ hnone (he ▸ hlook)
        · exact herr e he
  · obtain ⟨e, he, rfl⟩ := hr
    exact herr e he

theorem obeys_read (hgood : good s) (hallowed : ∀ a : Action, a.Asks → allowed (.file a)) {p : Path}
    {post : Except Failure Bytes → Process → Prop}
    (hok : ∀ b, s.machine.files.readFile p = .ok b → post (.ok b) s)
    (hnone : s.machine.files.readFile p = .error .notFound → post (.error .notFound) s)
    (herr : ∀ e, e ≠ .notFound → post (.error e) s) :
    Program.Obeys (Rule.watchFiles good allowed) post (Ask.read p) s := by
  refine obeys_ask (a := .read p) hgood trivial (hallowed _ trivial) ?_ fun r hr => ?_
  · change post (s.machine.files.readFile p) s
    cases hread : s.machine.files.readFile p with
    | ok b => exact hok b hread
    | error e =>
        by_cases he : e = .notFound
        · exact he ▸ hnone (he ▸ hread)
        · exact herr e he
  · obtain ⟨e, he, rfl⟩ := hr
    exact herr e he

/-- **An artifact that is not known to be missing is taken to be there**, or the look fails. -/
theorem obeys_contains_there (hgood : good s)
    (hallowed : ∀ a : Action, a.Asks → allowed (.file a)) {k : Artifact}
    (hthere : s.machine.files.lookup (S.store.path d k) ≠ .error .notFound)
    {ok : Bool → Process → Prop} {err : CacheError → Process → Prop}
    (hok : ∀ x, s.machine.files.lookup (S.store.path d k) = .ok x → ok true s)
    (herr : ∀ e, err e s) :
    Task.Obeys (Rule.watchFiles good allowed) ok err (S.store.contains d k) s := by
  rw [Store.contains, Task.obeys_bind, Task.obeys_lift]
  refine obeys_look hgood hallowed (fun x hx => Task.obeys_pure_of (hok x hx))
    (fun hnone => absurd hnone hthere) fun e he => ?_
  cases e with
  | notFound => exact absurd rfl he
  | _ => exact Task.obeys_throw_of (herr _)

/-- A file is missing only where nothing is. -/
theorem FileSystem.readFile_ne_notFound {fs : FileSystem} {p : Path}
    (h : fs.lookup p ≠ .error .notFound) : fs.readFile p ≠ .error .notFound := by
  rw [readFile]
  cases hl : fs.lookup p with
  | error e =>
      intro heq
      have he : e = .notFound := Except.error.inj heq
      exact h (he ▸ hl)
  | ok x =>
      obtain ⟨y, n⟩ := x
      cases n <;> simp [bind, Except.bind, pure, Except.pure, throw, throwThe, MonadExceptOf.throw]

theorem obeys_recordedChecksum (hgood : good s)
    (hallowed : ∀ a : Action, a.Asks → allowed (.file a))
    {ok : String → Process → Prop} {err : CacheError → Process → Prop} (hok : ∀ text, ok text s)
    (herr : ∀ e, err e s) :
    Task.Obeys (Rule.watchFiles good allowed) ok err (S.store.recordedChecksum d) s := by
  rw [Store.recordedChecksum, Task.obeys_bind, Task.obeys_lift]
  refine obeys_read hgood hallowed (fun b _ => ?_) (fun _ => Task.obeys_throw_of (herr _))
    fun e he => ?_
  · dsimp only
    split
    · exact Task.obeys_pure_of (hok _)
    · exact Task.obeys_throw_of (herr _)
  · cases e with
    | notFound => exact absurd rfl he
    | _ => exact Task.obeys_throw_of (herr _)

/-- **A binary that is not known to be missing is taken as it is**, or the check fails. -/
theorem obeys_verified_there (hgood : good s)
    (hallowed : ∀ a : Action, a.Asks → allowed (.file a))
    (hthere : s.machine.files.lookup (S.store.path d .binary) ≠ .error .notFound)
    {ok : Option Path → Process → Prop} {err : CacheError → Process → Prop}
    (hok : ok (some (S.store.path d .binary)) s) (herr : ∀ e, err e s) :
    Task.Obeys (Rule.watchFiles good allowed) ok err (S.store.verified d) s := by
  rw [Store.verified, Task.obeys_bind, Store.get, Task.obeys_bind, Task.obeys_lift]
  refine obeys_read hgood hallowed (fun b _ => Task.obeys_pure_of ?_)
    (fun hnone => absurd hnone (FileSystem.readFile_ne_notFound hthere)) fun e he => ?_
  · simp only [Task.obeys_bind]
    refine obeys_recordedChecksum hgood hallowed (fun text => ?_) herr
    split
    · exact Task.obeys_pure_of hok
    · exact Task.obeys_throw_of (herr _)
  · cases e with
    | notFound => exact absurd rfl he
    | _ => exact Task.obeys_throw_of (herr _)

end

/-! ### Builds of what is there -/

/-- Either the directory of an entry can be reached, or looking for anything in it fails for one
reason. -/
theorem FileSystem.walkable_or_error (fs : FileSystem) (p : Path) : fs.Walkable p ∨
    ∃ e, ∀ name : String, Plain (Utf8.encode name) → fs.lookup (p.child name) = .error e := by
  cases hwalk : fs.walk (startOf p) p.steps with
  | ok x => exact Or.inl (walk_steps_eq_ok_iff.1 hwalk).2
  | error e => exact Or.inr ⟨e, fun name hname => lookup_of_walk_error hname hwalk⟩

section

variable {S : Site} {r : Request} {s₀ s : Process} {source : Bytes} {d : Digest}

/-- What can be found in an entry that can be reached is something. -/
theorem lookup_artifact {k : Artifact} (hway : s.machine.files.Walkable (S.store.entryDir d)) :
    s.machine.files.lookup (S.store.path d k) ≠ .error .notFound ↔
      s.node? (S.store.path d k).place ≠ none := by
  have hlookup : s.machine.files.lookup (S.store.path d k) = _ :=
    FileSystem.lookup_child (S.plain_fileName k) hway
  rw [hlookup, Process.node?, Store.path]
  cases s.machine.files.node? ((S.store.entryDir d).child (S.store.fileName k)).place <;> simp

/-- Compiling and loading leave a translation alone. -/
theorem guarding_afterTranslation (rounds : Nat) (hdue : s.machine.due = [])
    (hway : s.machine.files.Walkable (S.store.entryDir d))
    (hkeeps : S.Keeps d Pipeline.translationDepth s₀ s) :
    Task.Obeys (.guarding S d Pipeline.translationDepth s₀)
      (fun _ => S.Keeps d Pipeline.translationDepth s₀)
      (fun _ => S.Keeps d Pipeline.translationDepth s₀) (do
      let binary ← (r.pipeline S).ensureCompiled r.view.identity d r.job rounds
      let m ← (r.pipeline S).readManifest d
      let l ← ExceptT.mk (pure (Pipeline.findKernel m r.job.function r.job.path))
      Pipeline.loadWith r.view binary r.job.function l) s := by
  refine (Hand.apart_start hdue hway hkeeps).guarding_keeps ?_
  rw [Task.obeys_bind]
  refine conducts_ensureCompiled Hand.empty_start Hand.not_failed_start (by decide) _
    (fun binary h hempty hcalm _ => ?_) fun _ _ _ => trivial
  exact conducts_conclude hempty hcalm (fun _ _ _ _ _ => trivial) fun _ _ _ => trivial

/-- **A build of a source whose translation is there** leaves it alone. -/
theorem guarding_translation (hdue : s.machine.due = [])
    (hd : (r.pipeline S).key r.view r.job source = d)
    (hthere : s.machine.files.lookup (S.store.path d .source) ≠ .error .notFound) :
    Task.Obeys (.guarding S d Pipeline.translationDepth s)
      (fun _ => S.Keeps d Pipeline.translationDepth s)
      (fun _ => S.Keeps d Pipeline.translationDepth s)
      ((r.pipeline S).buildFrom r.view r.job source) s := by
  rw [Pipeline.buildFrom, Task.obeys_bind]
  simp only [hd]
  cases (r.pipeline S).patience with
  | zero => exact Task.obeys_stalled_of (.refl s)
  | succ rounds =>
      rw [Pipeline.ensureTranslated, Task.obeys_bind, BuildTask.obeys_files]
      refine obeys_contains_there (.refl s) (fun _ _ => id) hthere (fun x hx => ?_)
        fun _ => .refl s
      rcases s.machine.files.walkable_or_error (S.store.entryDir d) with hway | ⟨e, he⟩
      · exact Task.obeys_pure_of (guarding_afterTranslation _ hdue hway (.refl s))
      · -- what was found in the entry was found on a way to it
        cases hx.symm.trans (he _ (S.plain_fileName .source))

/-- **A build of a source whose binary is there** leaves it alone. -/
theorem guarding_compilation (hdue : s.machine.due = [])
    (hd : (r.pipeline S).key r.view r.job source = d)
    (hthere : s.machine.files.lookup (S.store.path d .binary) ≠ .error .notFound) :
    Task.Obeys (.guarding S d Pipeline.compilationDepth s)
      (fun _ => S.Keeps d Pipeline.compilationDepth s)
      (fun _ => S.Keeps d Pipeline.compilationDepth s)
      ((r.pipeline S).buildFrom r.view r.job source) s := by
  rw [Pipeline.buildFrom, Task.obeys_bind]
  simp only [hd]
  rcases s.machine.files.walkable_or_error (S.store.entryDir d) with hway | ⟨e, he⟩
  · have hobeys : Task.Obeys (conduct S fun _ k => k ≠ Pipeline.compilationDepth)
        (fun _ _ => True) (fun _ _ => True) ((r.pipeline S).ensureTranslated r.view.identity d
          r.job source (r.pipeline S).patience) Hand.start :=
      conducts_ensureTranslated Hand.empty_start Hand.not_failed_start (by decide) _
        (fun _ _ _ => trivial) fun _ _ _ => trivial
    refine (Hand.apart_start hdue hway (.refl s)).guarding hobeys (fun _ h' s' _ ha => ?_)
      fun _ _ _ _ ha => ha.keeps
    -- what was there is there still
    have hthere' : s'.machine.files.lookup (S.store.path d .binary) ≠ .error .notFound := by
      have hsame : s'.node? (S.store.path d .binary).place =
          s.node? (S.store.path d .binary).place := by
        rw [S.place_path]
        exact ha.keeps _ .binary _ List.prefix_rfl
      rw [lookup_artifact ha.way, hsame, ← lookup_artifact hway]
      exact hthere
    cases (r.pipeline S).patience with
    | zero => exact Task.obeys_stalled_of ha.keeps
    | succ rounds =>
        rw [Task.obeys_bind, Pipeline.ensureCompiled, Task.obeys_bind, BuildTask.obeys_files]
        refine obeys_verified_there ha.keeps (fun _ _ => id) hthere' (Task.obeys_pure_of ?_)
          fun _ => ha.keeps
        refine (Hand.apart_start ha.due ha.way ha.keeps).guarding_keeps ?_
        exact conducts_conclude Hand.empty_start Hand.not_failed_start (fun _ _ _ _ _ => trivial)
          fun _ _ _ => trivial
  · have hsource := he _ (S.plain_fileName .source)
    have hmiss : e ≠ .notFound := by
      rintro rfl
      exact hthere (he _ (S.plain_fileName .binary))
    cases (r.pipeline S).patience with
    | zero => exact Task.obeys_stalled_of (.refl s)
    | succ rounds =>
        rw [Pipeline.ensureTranslated, Task.obeys_bind, BuildTask.obeys_files]
        refine obeys_contains_there (.refl s) (fun _ _ => id) ?_ (fun x hx => ?_) fun _ => .refl s
        · exact fun hnone => hmiss (Except.error.inj (hsource.symm.trans hnone))
        · cases hx.symm.trans hsource

end

/-! ### Whole builds -/

section

variable {S : Site} {r : Request} {s s' : Process} {source : Bytes} {good : Process → Prop}
  {allowed : BuildAction → Prop}

/-- A build begins with reading its source. -/
theorem obeys_program (hgood : good s) (hallowed : ∀ a : Action, a.Asks → allowed (.file a))
    (hsource : s.machine.files.readFile r.job.path = .ok source)
    {ok : Kernel → Process → Prop} {err : BuildError → Process → Prop} (herr : ∀ e, err e s)
    (hbuild : Task.Obeys (Rule.watch (Process.Comes fun _ => True) good allowed) ok err
      ((r.pipeline S).buildFrom r.view r.job source) s) :
    Task.Obeys (Rule.watch (Process.Comes fun _ => True) good allowed) ok err
      ((r.pipeline S).build r.view r.job) s := by
  rw [Pipeline.build]
  split
  · rw [Task.obeys_bind]
    exact Task.obeys_throw_of (herr _)
  · rw [Task.obeys_bind, BuildTask.obeys_files, readBytes, obeys_attempt]
    refine obeys_read hgood hallowed (fun b hb => ?_) (fun _ => herr _) fun _ _ => herr _
    obtain rfl : source = b := Except.ok.inj (hsource.symm.trans hb)
    exact hbuild

/-- A build that succeeds has seen an entry that serves it. -/
theorem obeys_serves :
    Task.Obeys (Rule.watch (Process.Comes fun _ => True) (fun _ => True) fun _ => True)
      (fun _ s' => s'.Serves S ((r.pipeline S).key r.view r.job source) r.job.function)
      (fun _ _ => True) ((r.pipeline S).buildFrom r.view r.job source) s := by
  have hobeys : Task.Obeys (conduct S fun _ _ => True)
      (fun _ h => h.Complete S ((r.pipeline S).key r.view r.job source) r.job.function)
      (fun _ _ => True) ((r.pipeline S).buildFrom r.view r.job source) Hand.start :=
    conducts_buildFrom Hand.empty_start Hand.not_failed_start (fun _ _ => trivial) r
      (fun _ _ _ _ hcomplete => hcomplete) fun _ _ _ => trivial
  refine Program.Obeys.mono (Rule.mono_watch _ _ _) (fun x s' hx => ?_)
    (Program.Obeys.watched (fun h s => h.Proper S (fun _ _ => True) ∧ h.Knows s)
      (fun _ _ _ => trivial) (fun a post h s hact hfits => ⟨trivial, fun reply s' hstep => ?_⟩)
      hobeys ⟨Hand.Only.proper Hand.empty_start, fun _ _ hnone => by cases hnone⟩)
  · obtain ⟨h, hpost, -, hknows⟩ := hx
    cases x with
    | error e => trivial
    | ok k =>
        obtain ⟨⟨b, record, text, hb, hrecord, htext, hsum⟩, c, m, l, hc, hm, hl⟩ := hpost
        exact ⟨⟨b, record, text, hknows _ _ hb, hknows _ _ hrecord, htext, hsum⟩,
          c, m, l, hknows _ _ hc, hm, hl⟩
  · obtain ⟨h', hpost, hproper, hknows, -⟩ := turns_of_conduct hfits.1 hact hstep
    exact ⟨h', hpost, hproper, hknows hfits.2⟩

/-- What a build guards is what it was at its beginning, and nothing was called that makes it. -/
theorem Program.Runs.guarded {d : Digest} {depth : Nat} {q : BuildProgram}
    {calls : List BuildAction}
    (hrun : Program.Runs (Process.Comes fun _ => True) (r.program S) s calls q s')
    (hsource : s.machine.files.readFile r.job.path = .ok source)
    (hbuild : Task.Obeys (.guarding S d depth s) (fun _ => S.Keeps d depth s)
      (fun _ => S.Keeps d depth s) ((r.pipeline S).buildFrom r.view r.job source) s) :
    S.Keeps d depth s s' ∧ ∀ a ∈ calls, ¬a.Makes depth := by
  have hprogram : Program.Obeys (.guarding S d depth s)
      (Task.Outcome (fun _ => S.Keeps d depth s) fun _ => S.Keeps d depth s) (r.program S) s :=
    obeys_program (.refl s) (fun _ _ => id) hsource (fun _ => .refl s) hbuild
  obtain ⟨hend, hcalls⟩ := hrun.of_watch hprogram
  refine ⟨hend.here fun x s' hx => ?_, hcalls⟩
  cases x with
  | ok k => exact hx
  | error e => exact hx

/-- A build that has failed to see what is somewhere makes nothing and fails. -/
theorem Program.Runs.hopeless {h : Hand} {p q : BuildProgram} {calls : List BuildAction}
    (hrun : Program.Runs (Process.Comes fun _ => True) p s calls q s')
    (hobeys : Program.Obeys (conduct S fun _ _ => True) Hand.Done p h)
    (hproper : h.Proper S fun _ _ => True) (hfailed : h.failed) :
    (∀ a ∈ calls, ∀ depth, ¬a.Makes depth) ∧ ∀ k, q ≠ .done (.ok k) := by
  have hwatched : Program.Obeys (Rule.watch (Process.Comes fun _ => True) (fun _ => True)
      fun a => ∀ depth, ¬a.Makes depth)
      (fun x _ => ∃ h, Hand.Done x h ∧ h.Proper S (fun _ _ => True) ∧ h.failed) p s := by
    refine Program.Obeys.watched (fun h _ => h.Proper S (fun _ _ => True) ∧ h.failed)
      (fun _ _ _ => trivial) (fun a post h s hact hfits => ?_) hobeys ⟨hproper, hfailed⟩
    refine ⟨fun depth hmakes => ?_, fun reply s' hstep => ?_⟩
    · cases a with
      | file a => exact hmakes
      | translate r => exact hact.2.1 hfits.2
      | compile source output => exact hact.2.2.1 hfits.2
      | load binary l => exact hmakes
    · obtain ⟨h', hpost, hproper', -, hfailed', -⟩ := turns_of_conduct hfits.1 hact hstep
      exact ⟨h', hpost, hproper', hfailed' hfits.2⟩
  obtain ⟨hend, hcalls⟩ := hrun.of_watch hwatched
  refine ⟨hcalls, fun k hq => ?_⟩
  rw [hq, Program.obeys_done] at hend
  obtain ⟨h', hpost, -, hfailed'⟩ := hend
  exact hpost.2 hfailed'

/-- **After a failure to see what is somewhere a build makes nothing and fails.** -/
theorem Program.Runs.after_failure {q : BuildProgram} {calls : List BuildAction} {a : Action}
    {next : (BuildAction.file a).Reply → BuildProgram} {reply : a.Reply}
    (hrun : Program.Runs (Process.Comes fun _ => True) (r.program S) s calls
      (.ask (.file a) next) s')
    (hasks : a.Asks) (hfails : a.Fails reply) {calls' : List BuildAction} {s'' : Process}
    (hrest : Program.Runs (Process.Comes fun _ => True) (next reply) s' calls' q s'') :
    (∀ a ∈ calls', ∀ depth, ¬a.Makes depth) ∧ ∀ k, q ≠ .done (.ok k) := by
  obtain ⟨h, hhere, hproper⟩ := hrun.obeys (fun h _ => h.Proper S fun _ _ => True)
    (fun a post h s r s' hact hproper hstep => by
      obtain ⟨h', hpost, hproper', -⟩ := turns_of_conduct hproper hact hstep
      exact ⟨h', hpost, hproper'⟩)
    (conducts_program r) (Hand.Only.proper Hand.empty_start)
  rw [Program.obeys_ask] at hhere
  refine hrest.hopeless (h := h.fail) ?_ (h.like_fail.proper hproper) trivial
  cases a with
  | look p =>
      obtain ⟨e, he, rfl⟩ := hfails
      exact hhere.2.2.2.2 e he
  | read p =>
      obtain ⟨e, he, rfl⟩ := hfails
      exact hhere.2.2.2 e he
  | _ => exact False.elim hasks

/-- **Nothing that is there is made again.**  Let a build have got to any point, for a source that
can be read and where nobody else does anything, whatever the files are and whichever operations
have failed.  If it is not the case that nothing is at the path of the translated source in its
entry, the translator has not been called, and everything at the places of the source and of the
manifest is as it was; and so for the binary, the compiler and the checksum.  If the build has
succeeded, the checksum of the binary is the recorded one, and the manifest has the function.  And
if looking at a path or reading a file fails now, for another reason than that nothing is there,
neither translator nor compiler will be called, and the build will not succeed. -/
theorem no_silent_rebuild (S : Site) (r : Request) {d : Digest} {q : BuildProgram}
    {calls : List BuildAction} (hd : (r.pipeline S).key r.view r.job source = d)
    (hdue : s.machine.due = []) (hsource : s.machine.files.readFile r.job.path = .ok source)
    (hrun : Program.Runs (Process.Comes fun _ => True) (r.program S) s calls q s') :
    (s.machine.files.lookup (S.store.path d .source) ≠ .error .notFound →
        (∀ t, .translate t ∉ calls) ∧ s.Agree (S.store.path d .source).place s' ∧
          s.Agree (S.store.path d .manifest).place s') ∧
      (s.machine.files.lookup (S.store.path d .binary) ≠ .error .notFound →
        (∀ x y, .compile x y ∉ calls) ∧ s.Agree (S.store.path d .binary).place s' ∧
          s.Agree (S.store.sidecar d).place s') ∧
      (∀ k, q = .done (.ok k) → s'.Serves S d r.job.function) ∧
      ∀ a next reply, q = .ask (.file a) next → a.Asks → a.Fails reply → ∀ calls' q' s'',
        Program.Runs (Process.Comes fun _ => True) (next reply) s' calls' q' s'' →
          (∀ t, .translate t ∉ calls') ∧ (∀ x y, .compile x y ∉ calls') ∧
            ∀ k, q' ≠ .done (.ok k) := by
  refine ⟨fun hthere => ?_, fun hthere => ?_, fun k hq => ?_, ?_⟩
  · obtain ⟨hkeeps, hcalls⟩ := hrun.guarded hsource (guarding_translation hdue hd hthere)
    refine ⟨fun t ht => hcalls _ ht rfl, ?_, ?_⟩
    · exact S.place_path d .source ▸ hkeeps _ .source
    · exact S.place_path d .manifest ▸ hkeeps _ .manifest
  · obtain ⟨hkeeps, hcalls⟩ := hrun.guarded hsource (guarding_compilation hdue hd hthere)
    have hsidecar : (S.store.sidecar d).place = S.filePlace d "binary.xxh3" :=
      Path.place_child Site.plain_sidecar
    refine ⟨fun x y hxy => hcalls _ hxy rfl, ?_, ?_⟩
    · exact S.place_path d .binary ▸ hkeeps _ .binary
    · exact hsidecar ▸ hkeeps _ .sidecar
  · have hprogram : Program.Obeys (Rule.watch (Process.Comes fun _ => True) (fun _ => True)
        fun _ => True) (Task.Outcome (fun _ s' => s'.Serves S d r.job.function) fun _ _ => True)
        (r.program S) s :=
      obeys_program trivial (fun _ _ => trivial) hsource (fun _ => trivial) (hd ▸ obeys_serves)
    have hend := (hrun.of_watch hprogram).1
    rw [hq, Program.obeys_done] at hend
    exact hend
  · intro a next reply hq hasks hfails calls' q' s'' hrest
    obtain ⟨hcalls, hend⟩ := (hq ▸ hrun).after_failure hasks hfails hrest
    exact ⟨fun t ht => hcalls _ ht _ rfl, fun x y hxy => hcalls _ hxy _ rfl, hend⟩

end

/-! ### A binary that somebody has tampered with -/

namespace Crew.Pair

/-- An entry with nothing in it but a binary of unknown origin. -/
def tampered : FileSystem :=
  files.put pair.site.root.place .directory
    |>.put pair.site.kernelsPlace .directory
    |>.put (pair.site.entryPlace digest) .directory
    |>.put (pair.site.store.path digest .binary).place (.file [1, 2, 3])

/-- A workplace with that entry. -/
def misled : Workplace := { workplace with process := ⟨⟨tampered, 0, 0, []⟩, .empty⟩ }

theorem misled_fails : ((Program.run Workplace.perform ((pair.request true).program pair.site)
    misled).1.map Except.isOk) = some false := by decide +kernel

theorem readFile_misled :
    misled.process.machine.files.readFile (pair.request true).job.path = .ok source :=
  eq_ok_of_toOption (by decide +kernel)

theorem lookup_misled : misled.process.machine.files.lookup (pair.site.store.path digest .binary) ≠
    .error .notFound := by
  have hthere : (misled.files.lookup (pair.site.store.path digest .binary)).toOption.isSome := by
    decide +kernel
  intro h
  have hnone : misled.files.lookup (pair.site.store.path digest .binary) = .error .notFound := h
  rw [hnone] at hthere
  cases hthere

theorem node?_misled : misled.process.node? (pair.site.store.path digest .binary).place =
    some (.file [1, 2, 3]) := by decide +kernel

end Crew.Pair

/-- A build that finds a binary without a checksum fails, and leaves it as it is. -/
theorem tampered_binary_kept : ∃ e s' calls,
    Program.Runs (Process.Comes fun _ => True) ((Crew.pair.request true).program Crew.pair.site)
      Crew.Pair.misled.process calls (.done (.error e)) s' ∧ (∀ x y, .compile x y ∉ calls) ∧
    s'.node? (Crew.pair.site.store.path Crew.Pair.digest .binary).place =
      some (.file [1, 2, 3]) := by
  obtain ⟨x, hx, herror⟩ := Option.map_eq_some_iff.1 Crew.Pair.misled_fails
  obtain ⟨calls, hrun⟩ := Program.Runs.of_workplace (fun _ => True) _ rfl hx
  obtain ⟨-, hbinary, -⟩ := no_silent_rebuild Crew.pair.site (Crew.pair.request true)
    (d := Crew.Pair.digest) rfl rfl Crew.Pair.readFile_misled hrun
  obtain ⟨hcalls, hsame, -⟩ := hbinary Crew.Pair.lookup_misled
  cases x with
  | ok k => cases herror
  | error e =>
      exact ⟨e, _, calls, hrun, hcalls, (hsame _ List.prefix_rfl).trans Crew.Pair.node?_misled⟩

end KernelCache
