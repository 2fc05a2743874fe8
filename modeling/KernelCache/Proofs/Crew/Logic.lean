/-
**What a builder needs.**

A builder that asks for an action finds a later scene: others have worked meanwhile, and it can only
rely on what its locks protect.  There the action must be one that the builder may ask for, and what
it does must be a fair change.  While a compiler runs, its output is the compiler's to write, so of
that file the builder knows nothing afterwards.

Main definitions:

* `Later` — scenes that a builder may find itself in;
* `Careful` — never to publish over something published;
* `fileNeeds`, `buildNeeds` — what each action needs.

Main results:

* `needs_look`, `needs_read`, `needs_calm` — actions that change nothing in an entry;
* `needs_take`, `needs_giveBack` — taking a lock and giving it back;
* `needs_createFresh`, `needs_write`, `needs_removeFile`, `needs_move` — files;
* `buildNeeds_later` — **what holds before a step of others holds after it**;
* `Program.needs_grown` — nothing that was published is lost on the way.
-/

import KernelCache.Proofs.Crew.Change
import KernelCache.Proofs.Program

set_option relaxedAutoImplicit false
set_option autoImplicit false

namespace KernelCache

section

variable {ι : Type} (C : Crew ι) (me : ι)

/-- A scene in which a builder may find itself after a scene. -/
structure Later (s s' : Scene ι) : Prop where
  sound : Sound C s'
  relies : Relies C nowhere me s s'

/-- Whether an action publishes nothing over a published source or binary. -/
def Careful (a : Action) (s : Scene ι) : Prop :=
  match a with
  | .move _ target => ∀ e, C.vacant e → ∀ b,
      (target.place = C.sourcePlace e → ¬s.Has (C.sourcePlace e) b) ∧
        (target.place = C.binaryPlace e → ¬s.Has (C.binaryPlace e) b)
  | _ => True

/-- What a file action of a builder needs.  The account of locks may be brought up to date. -/
def fileNeeds (a : Action) (post : a.Reply → Scene ι → Prop) (s : Scene ι) : Prop :=
  ∀ s₁, Later C me s s₁ → Careful C a s₁ ∧ ∀ held, ∃ owner,
    let out := Process.perform a ⟨s₁.machine, held⟩
    Fair C me s₁ ⟨out.2.machine, owner, s₁.calls⟩ ∧ post out.1 ⟨out.2.machine, owner, s₁.calls⟩

/-- The scene after a successful call of the translator. -/
def Scene.record (s : Scene ι) (c : Call ι) : Scene ι := { s with calls := s.calls ++ [c] }

/-- A builder may call the translator if it holds the lock and the entry has no source. -/
structure MayTranslate (d : Digest) (s : Scene ι) : Prop where
  owner : s.owner d Pipeline.translationDepth = some me
  absent : C.vacant d → ∀ b, ¬s.Has (C.sourcePlace d) b

/-- A builder may call the compiler if it holds the lock and the entry has no binary; the output is
a fresh file. -/
structure MayCompile (d : Digest) (output : Path) (s : Scene ι) : Prop where
  owner : s.owner d Pipeline.compilationDepth = some me
  absent : C.vacant d → ∀ b, ¬s.Has (C.binaryPlace d) b
  output : ∃ n, output.place = C.site.filePlace d (".binary" ++ FileSystem.freshTail n)

/-- What an action of a builder needs that has read a source. -/
def buildNeeds (source : Bytes) :
    (a : BuildAction) → (a.Reply → Scene ι → Prop) → Scene ι → Prop
  | .file a, post, s => fileNeeds C me a post s
  | .translate r, post, s => ∀ s₁, Later C me s s₁ →
      MayTranslate C me (C.key me source) s₁ ∧
      (∃ text, Utf8.toString? source = some text ∧ r = C.asks me text) ∧
      (∀ e, post (.error e) s₁) ∧
      ∀ t, C.translates r (.ok t) → post (.ok t) (s₁.record ⟨me, source, t⟩)
  | .compile _ output, post, s => ∀ s₁, Sound C s₁ → Relies C (· = output.place) me s s₁ →
      MayCompile C me (C.key me source) output s₁ ∧ ∀ r, post r s₁
  | .load _ l, post, s => ∀ s₁, Later C me s s₁ →
      ∀ r, (∀ x, r = .ok x → x = Loaded.ofLaunch l) → post r s₁

/-- What the holder of a lock has done, and others meanwhile: of the files that the lock protects
only those with touched names have changed. -/
structure Works (d : Digest) (depth : Nat) (touched : Bytes → Prop) (s s' : Scene ι) : Prop where
  sound : Sound C s'
  owner : s'.owner d depth = some me
  grows : Grows C s s'
  file : ∀ name b, Site.guard name = depth → ¬touched name →
    (s'.Has (C.site.entryPlace d ++ [name]) b ↔ s.Has (C.site.entryPlace d ++ [name]) b)

end

variable {ι : Type} {C : Crew ι} {me : ι} {s s' s'' : Scene ι} {d : Digest}

/-! ### Later scenes -/

theorem Later.refl (hs : Sound C s) : Later C me s s := ⟨hs, Relies.refl nowhere me s⟩

theorem Later.trans (h : Later C me s s') (h' : Later C me s' s'') : Later C me s s'' :=
  ⟨h'.sound, h.relies.trans h'.relies⟩

theorem Drift.later (h : Drift C nowhere s s') (hs : Sound C s) : Later C me s s' :=
  ⟨(h.quiet hs).1, (h.quiet hs).2.2 me⟩

theorem fileNeeds_later {a : Action} {post : a.Reply → Scene ι → Prop} (h : Later C me s s')
    (hpost : fileNeeds C me a post s) : fileNeeds C me a post s' :=
  fun s₁ h₁ => hpost s₁ (h.trans h₁)

/-- **What an action needs is still there after others have worked.** -/
theorem buildNeeds_later {source : Bytes} {a : BuildAction} {post : a.Reply → Scene ι → Prop}
    (h : Later C me s s') (hpost : buildNeeds C me source a post s) :
    buildNeeds C me source a post s' := by
  cases a with
  | file a => exact fileNeeds_later h hpost
  | translate r => exact fun s₁ h₁ => hpost s₁ (h.trans h₁)
  | compile src output => exact fun s₁ hs₁ h₁ => hpost s₁ hs₁ (h.relies.weaken.trans h₁)
  | load binary l => exact fun s₁ h₁ => hpost s₁ (h.trans h₁)

/-- What an action leads to has grown. -/
theorem buildNeeds_grown {source : Bytes} {a : BuildAction} {post post' : a.Reply → Scene ι → Prop}
    (h : ∀ r s', Grows C s s' → post r s' → post' r s')
    (hpost : buildNeeds C me source a post s) : buildNeeds C me source a post' s := by
  cases a with
  | file a =>
      intro s₁ h₁
      obtain ⟨hcareful, hperform⟩ := hpost s₁ h₁
      refine ⟨hcareful, fun held => ?_⟩
      obtain ⟨owner, hfair, hout⟩ := hperform held
      exact ⟨owner, hfair, h _ _ (h₁.relies.grows.trans hfair.grows) hout⟩
  | translate r =>
      intro s₁ h₁
      obtain ⟨hmay, hasks, herror, hok⟩ := hpost s₁ h₁
      have hrecord (c : Call ι) : Grows C s (s₁.record c) :=
        h₁.relies.grows.trans (.of_machine_eq rfl (List.subset_append_left _ _))
      exact ⟨hmay, hasks, fun e => h _ _ h₁.relies.grows (herror e),
        fun t ht => h _ _ (hrecord _) (hok t ht)⟩
  | compile src output =>
      intro s₁ hs₁ h₁
      obtain ⟨hmay, hall⟩ := hpost s₁ hs₁ h₁
      exact ⟨hmay, fun r => h _ _ h₁.grows (hall r)⟩
  | load binary l => exact fun s₁ h₁ r hr => h _ _ h₁.relies.grows (hpost s₁ h₁ r hr)

theorem buildNeeds_mono {source : Bytes} (a : BuildAction)
    (post post' : a.Reply → Scene ι → Prop) (s : Scene ι) (h : ∀ r s, post r s → post' r s)
    (hpost : buildNeeds C me source a post s) : buildNeeds C me source a post' s :=
  buildNeeds_grown (fun r s' _ => h r s') hpost

/-- **Whatever a part of a build has done, the scene has only grown meanwhile.** -/
theorem Program.needs_grown {α : Type} {source : Bytes} {post post' : α → Scene ι → Prop}
    {p : Program BuildAction BuildAction.Reply α}
    (h : Program.Needs True (buildNeeds C me source) post p s)
    (hpost : ∀ a s', Grows C s s' → post a s' → post' a s') :
    Program.Needs True (buildNeeds C me source) post' p s := by
  induction p generalizing s with
  | done a =>
      rw [Program.needs_done] at h ⊢
      exact hpost a s (Grows.refl s) h
  | ask a next ih =>
      rw [Program.needs_ask] at h ⊢
      refine buildNeeds_grown (fun r s₁ hgrows h₁ => ?_) h
      exact ih r h₁ fun a s₂ hgrows₂ => hpost a s₂ (hgrows.trans hgrows₂)
  | stalled => exact Program.needs_stalled s

theorem Task.needs_grown {α : Type} {source : Bytes} {ok ok' : α → Scene ι → Prop}
    {err : BuildError → Scene ι → Prop} {t : BuildTask α}
    (h : Task.Needs True (buildNeeds C me source) ok err t s)
    (hok : ∀ a s', Grows C s s' → ok a s' → ok' a s') :
    Task.Needs True (buildNeeds C me source) ok' err t s :=
  Program.needs_grown h fun r s' hgrows hr => by
    cases r with
    | ok a => exact hok a s' hgrows hr
    | error e => exact hr

/-! ### Work under a lock -/

namespace Works

variable {depth : Nat} {touched touched' : Bytes → Prop}

theorem of_later (h : Later C me s s') (hown : s.owner d depth = some me) :
    Works C me d depth touched s s' where
  sound := h.sound
  owner := (h.relies.owner d depth).2 hown
  grows := h.relies.grows
  file := fun name b hguard _ => h.relies.guarded d depth hown name b hguard id

theorem of_drift {changed : Place → Prop} (h : Drift C changed s s') (hfair : Fair C me s s')
    (hown : s.owner d depth = some me)
    (htouched : ∀ name, changed (C.site.entryPlace d ++ [name]) → touched name) :
    Works C me d depth touched s s' where
  sound := hfair.sound
  owner := by rw [h.owner, hown]
  grows := hfair.grows
  file := fun name b _ hname => h.file d name b fun hch => hname (htouched name hch)

theorem trans (h : Works C me d depth touched s s') (h' : Works C me d depth touched s' s'') :
    Works C me d depth touched s s'' where
  sound := h'.sound
  owner := h'.owner
  grows := h.grows.trans h'.grows
  file := fun name b hguard hname =>
    (h'.file name b hguard hname).trans (h.file name b hguard hname)

theorem mono (h : Works C me d depth touched s s') (hsub : ∀ name, touched name → touched' name) :
    Works C me d depth touched' s s' where
  sound := h.sound
  owner := h.owner
  grows := h.grows
  file := fun name b hguard hname => h.file name b hguard fun ht => hname (hsub name ht)

theorem has_iff (h : Works C me d depth touched s s') {name : String}
    (hguard : Site.guard (Utf8.encode name) = depth) (hname : ¬touched (Utf8.encode name))
    (b : Bytes) : s'.Has (C.site.filePlace d name) b ↔ s.Has (C.site.filePlace d name) b :=
  h.file (Utf8.encode name) b hguard hname

end Works

/-! ### Actions that change nothing in an entry -/

theorem needs_of_fileNeeds {a : Action} {post : a.Reply → Scene ι → Prop}
    (h : fileNeeds C me a post s) : Program.Needs True (fileNeeds C me) post (Program.act a) s := by
  rw [Program.needs_act]
  exact h

theorem needs_look {p : Path} {post : Except Failure Node → Scene ι → Prop}
    (h : ∀ s₁, Later C me s s₁ → post ((s₁.machine.files.lookup p).map (·.2)) s₁) :
    Program.Needs True (fileNeeds C me) post (Ask.look p) s :=
  needs_of_fileNeeds (a := .look p) fun s₁ h₁ => ⟨trivial, fun _ =>
    ⟨s₁.owner, ⟨h₁.sound, Grows.refl s₁, fun i _ => Relies.refl nowhere i s₁⟩, h s₁ h₁⟩⟩

theorem needs_read {p : Path} {post : Except Failure Bytes → Scene ι → Prop}
    (h : ∀ s₁, Later C me s s₁ → post (s₁.machine.files.readFile p) s₁) :
    Program.Needs True (fileNeeds C me) post (Ask.read p) s :=
  needs_of_fileNeeds (a := .read p) fun s₁ h₁ => ⟨trivial, fun _ =>
    ⟨s₁.owner, ⟨h₁.sound, Grows.refl s₁, fun i _ => Relies.refl nowhere i s₁⟩, h s₁ h₁⟩⟩

/-- The actions that change no file. -/
def IsCalm : Action → Prop
  | .look _ | .read _ | .names _ | .makeDirectory _ | .now | .sleep _ | .hold _ | .letGo _
  | .held => True
  | .removeDirectory _ | .createFresh .. | .write .. | .removeFile _ | .move .. => False

/-- A calm action is a drift in which no file changes. -/
theorem drift_of_isCalm {a : Action} (ha : IsCalm a) (hs : Sound C s)
    (held : SortedMap Path Unit) :
    Drift C nowhere s (s.withMachine (Process.perform a ⟨s.machine, held⟩).2.machine) := by
  have hsame : Drift C nowhere s (s.withMachine s.machine) :=
    drift_of_directories rfl (fun _ _ _ _ => Iff.rfl) fun _ _ h => h
  cases a with
  | look p => exact hsame
  | read p => exact hsame
  | names p => exact hsame
  | makeDirectory p =>
      rw [Process.perform]
      cases hm : s.machine.files.makeDirectory p with
      | error e => exact hsame
      | ok fs =>
          obtain ⟨hnone, hfs⟩ := FileSystem.makeDirectory_ok hm
          exact drift_makeDirectory rfl hnone hfs
  | now => exact hsame
  | sleep duration =>
      have hmachine : (Process.perform (.sleep duration) ⟨s.machine, held⟩).2.machine =
          { s.machine with clock := s.machine.clock + duration } := by
        simp [Process.perform, Machine.settle, hs.due]
      rw [hmachine]
      exact drift_of_directories rfl (fun _ _ _ _ => Iff.rfl) fun _ _ h => h
  | hold lock => exact hsame
  | letGo lock => exact hsame
  | held => exact hsame
  | removeDirectory p => exact ha.elim
  | createFresh dir stem => exact ha.elim
  | write p contents => exact ha.elim
  | removeFile p => exact ha.elim
  | move source target => exact ha.elim

/-- Of a calm action nothing is needed, if nothing is asked of its answer. -/
theorem needs_calm {a : Action} {post : a.Reply → Scene ι → Prop} (ha : IsCalm a)
    (h : ∀ r s₁, Later C me s s₁ → post r s₁) :
    Program.Needs True (fileNeeds C me) post (Program.act a) s := by
  refine needs_of_fileNeeds fun s₁ h₁ => ?_
  have hcareful : Careful C a s₁ := by
    cases a with
    | move source target => exact ha.elim
    | _ => trivial
  refine ⟨hcareful, fun held => ⟨s₁.owner, ?_⟩⟩
  have hdrift := drift_of_isCalm (C := C) ha h₁.sound held
  exact ⟨hdrift.fair_of_nowhere h₁.sound, h _ _ (h₁.trans (hdrift.later h₁.sound))⟩

/-! ### Locks -/

/-- Who makes the directory of a lock holds the lock. -/
theorem needs_take {depth : Nat} {post : Except Failure Unit → Scene ι → Prop}
    (hok : ∀ s₁, Sound C s₁ → s₁.owner d depth = some me → post (.ok ()) s₁)
    (herror : ∀ e s₁, Later C me s s₁ → post (.error e) s₁) :
    Program.Needs True (fileNeeds C me) post (Ask.makeDirectory (C.site.locks.path d depth)) s := by
  refine needs_of_fileNeeds (a := .makeDirectory _) fun s₁ h₁ => ⟨trivial, fun held => ?_⟩
  rw [Process.perform]
  cases hm : s₁.machine.files.makeDirectory (C.site.locks.path d depth) with
  | error e =>
      exact ⟨s₁.owner, ⟨h₁.sound, Grows.refl s₁, fun i _ => Relies.refl nowhere i s₁⟩,
        herror e s₁ h₁⟩
  | ok fs =>
      obtain ⟨hnone, hfs⟩ := FileSystem.makeDirectory_ok hm
      have hopen := FileSystem.walkable_of_makeDirectory (plain_lockName d depth) hm
      have hfair : Fair C me s₁
          ((s₁.withMachine { s₁.machine with files := fs }).give d depth (some me)) :=
        fair_take h₁.sound rfl hopen hnone hfs
      exact ⟨_, hfair, hok _ hfair.sound (Scene.owner_give_self _ d depth (some me))⟩

/-- A lock that a builder holds is given back, whether or not its directory can be removed. -/
theorem needs_giveBack {depth : Nat} {post : Except Failure Unit → Scene ι → Prop}
    (hown : s.owner d depth = some me) (h : ∀ r s₁, Sound C s₁ → post r s₁) :
    Program.Needs True (fileNeeds C me) post
      (Ask.removeDirectory (C.site.locks.path d depth)) s := by
  refine needs_of_fileNeeds (a := .removeDirectory _) fun s₁ h₁ => ⟨trivial, fun held => ?_⟩
  have hown₁ := (h₁.relies.owner d depth).2 hown
  rw [Process.perform]
  cases hm : s₁.machine.files.removeDirectory (C.site.locks.path d depth) with
  | error e =>
      have hfair := fair_strike h₁.sound hown₁
      exact ⟨_, hfair, h _ _ hfair.sound⟩
  | ok fs =>
      obtain ⟨-, hfs⟩ := FileSystem.removeDirectory_ok hm
      have hfair : Fair C me s₁
          ((s₁.withMachine { s₁.machine with files := fs }).give d depth none) :=
        fair_giveBack h₁.sound hown₁ rfl (hfs (C.site.not_isBase_lockPlace d depth))
      exact ⟨_, hfair, h _ _ hfair.sound⟩

/-! ### Fresh files -/

section

variable {depth : Nat} {name : String}

/-- A change of a fresh file under its lock. -/
theorem works_scratch {m : Machine} {n : Option Node} (hs : Sound C s)
    (hown : s.owner d depth = some me) (hname : Site.Scratch depth name)
    (hdue : m.due = s.machine.due) (hdir : s.node? (C.site.filePlace d name) ≠ some .directory)
    (hm : m.files.node? = Function.update s.node? (C.site.filePlace d name) n) :
    Fair C me s (s.withMachine m) ∧
      Works C me d depth (· = Utf8.encode name) s (s.withMachine m) := by
  have hdrift : Drift C (· = C.site.filePlace d name) s (s.withMachine m) :=
    drift_update hdue hdir hm
  have hfair : Fair C me s (s.withMachine m) :=
    fair_scratch hs (hname.guard.symm ▸ hown) hname.isScratch hdrift
  refine ⟨hfair, Works.of_drift hdrift hfair hown fun other heq => ?_⟩
  exact (C.site.entry_append_inj heq).2

/-- The path of a name in an entry leads to its place. -/
theorem place_child (hname : Plain (Utf8.encode name)) (d : Digest) :
    ((C.site.store.entryDir d).child name).place = C.site.filePlace d name :=
  Path.place_child hname

theorem needs_createFresh {stem : String} {post : Except Failure Path → Scene ι → Prop}
    (hown : s.owner d depth = some me)
    (hstem : ∀ n, Site.Scratch depth (stem ++ FileSystem.freshTail n))
    (hok : ∀ n s₁,
      Works C me d depth (· = Utf8.encode (stem ++ FileSystem.freshTail n)) s s₁ →
        post (.ok ((C.site.store.entryDir d).child (stem ++ FileSystem.freshTail n))) s₁)
    (herror : ∀ e s₁, Later C me s s₁ → post (.error e) s₁) :
    Program.Needs True (fileNeeds C me) post
      (Ask.createFresh (C.site.store.entryDir d) stem) s := by
  refine needs_of_fileNeeds (a := .createFresh _ _) fun s₁ h₁ =>
    ⟨trivial, fun held => ⟨s₁.owner, ?_⟩⟩
  have hown₁ := (h₁.relies.owner d depth).2 hown
  rw [Process.perform]
  cases hc : s₁.machine.files.createFresh (C.site.store.entryDir d) stem s₁.machine.fresh with
  | error e =>
      exact ⟨⟨h₁.sound, Grows.refl s₁, fun i _ => Relies.refl nowhere i s₁⟩, herror e s₁ h₁⟩
  | ok found =>
      obtain ⟨p, fs⟩ := found
      obtain ⟨⟨n, rfl⟩, -, hwrite⟩ := FileSystem.createFresh_ok hc
      obtain ⟨hdir, hfs⟩ := FileSystem.writeFile_ok hwrite
      rw [place_child (hstem n).plain] at hdir hfs
      obtain ⟨hfair, hworks⟩ := works_scratch h₁.sound hown₁ (hstem n)
        (m := { s₁.machine with files := fs, fresh := s₁.machine.fresh + 1 }) rfl hdir hfs
      exact ⟨hfair, hok n _ ((Works.of_later h₁ hown).trans hworks)⟩

theorem needs_write {contents : Bytes} {post : Except Failure Unit → Scene ι → Prop}
    (hown : s.owner d depth = some me) (hname : Site.Scratch depth name)
    (hok : ∀ s₁, Works C me d depth (· = Utf8.encode name) s s₁ →
      s₁.Has (C.site.filePlace d name) contents → post (.ok ()) s₁)
    (herror : ∀ e s₁, Later C me s s₁ → post (.error e) s₁) :
    Program.Needs True (fileNeeds C me) post
      (Ask.write ((C.site.store.entryDir d).child name) contents) s := by
  refine needs_of_fileNeeds (a := .write _ _) fun s₁ h₁ => ⟨trivial, fun held => ⟨s₁.owner, ?_⟩⟩
  have hown₁ := (h₁.relies.owner d depth).2 hown
  rw [Process.perform]
  cases hw : s₁.machine.files.writeFile ((C.site.store.entryDir d).child name) contents with
  | error e =>
      exact ⟨⟨h₁.sound, Grows.refl s₁, fun i _ => Relies.refl nowhere i s₁⟩, herror e s₁ h₁⟩
  | ok fs =>
      obtain ⟨hdir, hfs⟩ := FileSystem.writeFile_ok hw
      rw [place_child hname.plain] at hdir hfs
      obtain ⟨hfair, hworks⟩ := works_scratch h₁.sound hown₁ hname
        (m := { s₁.machine with files := fs }) rfl hdir hfs
      have hhas : (s₁.withMachine { s₁.machine with files := fs }).Has
          (C.site.filePlace d name) contents := by
        rw [Scene.Has, Scene.node?_withMachine, hfs, Function.update_self]
      exact ⟨hfair, hok _ ((Works.of_later h₁ hown).trans hworks) hhas⟩

theorem needs_removeFile {post : Except Failure Unit → Scene ι → Prop}
    (hown : s.owner d depth = some me) (hname : Site.Scratch depth name)
    (h : ∀ r s₁, Works C me d depth (· = Utf8.encode name) s s₁ → post r s₁) :
    Program.Needs True (fileNeeds C me) post
      (Ask.removeFile ((C.site.store.entryDir d).child name)) s := by
  refine needs_of_fileNeeds (a := .removeFile _) fun s₁ h₁ => ⟨trivial, fun held => ⟨s₁.owner, ?_⟩⟩
  have hown₁ := (h₁.relies.owner d depth).2 hown
  rw [Process.perform]
  cases hr : s₁.machine.files.removeFile ((C.site.store.entryDir d).child name) with
  | error e =>
      exact ⟨⟨h₁.sound, Grows.refl s₁, fun i _ => Relies.refl nowhere i s₁⟩,
        h _ s₁ (Works.of_later h₁ hown)⟩
  | ok fs =>
      obtain ⟨b, hfile, hfs⟩ := FileSystem.removeFile_ok hr
      rw [place_child hname.plain] at hfile hfs
      have hdir : s₁.node? (C.site.filePlace d name) ≠ some .directory := by
        rw [show s₁.node? _ = _ from hfile]
        simp
      obtain ⟨hfair, hworks⟩ := works_scratch h₁.sound hown₁ hname
        (m := { s₁.machine with files := fs }) rfl hdir hfs
      exact ⟨hfair, h _ _ ((Works.of_later h₁ hown).trans hworks)⟩

/-- A fresh file is moved to a published name. -/
theorem needs_move {published : String} {b : Bytes}
    {post : Except Failure Unit → Scene ι → Prop} (hown : s.owner d depth = some me)
    (hname : Site.Scratch depth name) (hplain : Plain (Utf8.encode published))
    (hguard : Site.guard (Utf8.encode published) = depth) (hhas : s.Has (C.site.filePlace d name) b)
    (hcareful : ∀ s₁, Later C me s s₁ →
      Careful C (.move ((C.site.store.entryDir d).child name)
        ((C.site.store.entryDir d).child published)) s₁)
    (hfair : ∀ s₁ s₂, Later C me s s₁ → s₁.Open C.site d →
      Publishes C d (Utf8.encode name) published s₁ s₂ →
      s₂.Has (C.site.filePlace d published) b → Fair C me s₁ s₂)
    (hok : ∀ s₂,
      Works C me d depth (fun x => x = Utf8.encode name ∨ x = Utf8.encode published) s s₂ →
      s₂.Has (C.site.filePlace d published) b → post (.ok ()) s₂)
    (herror : ∀ e s₁, Later C me s s₁ → post (.error e) s₁) :
    Program.Needs True (fileNeeds C me) post
      (Ask.move ((C.site.store.entryDir d).child name)
        ((C.site.store.entryDir d).child published)) s := by
  refine needs_of_fileNeeds (a := .move _ _) fun s₁ h₁ =>
    ⟨hcareful s₁ h₁, fun held => ⟨s₁.owner, ?_⟩⟩
  have hown₁ := (h₁.relies.owner d depth).2 hown
  rw [Process.perform]
  cases hm : s₁.machine.files.moveFile ((C.site.store.entryDir d).child name)
      ((C.site.store.entryDir d).child published) with
  | error e =>
      exact ⟨⟨h₁.sound, Grows.refl s₁, fun i _ => Relies.refl nowhere i s₁⟩, herror e s₁ h₁⟩
  | ok fs =>
      obtain ⟨b', hfile, hdir, hfs⟩ := FileSystem.moveFile_ok hm
      have hopen : s₁.Open C.site d := FileSystem.walkable_of_moveFile hplain hm
      rw [place_child hname.plain] at hfile hfs
      rw [place_child hplain] at hdir hfs
      have hhas₁ := (h₁.relies.has_iff hown hname.guard b).2 hhas
      obtain rfl : b' = b := Scene.Has.unique (s := s₁) hfile hhas₁
      have hsource : s₁.node? (C.site.filePlace d name) ≠ some .directory := by
        rw [show s₁.node? _ = _ from hfile]
        simp
      have hdrift := drift_move (C := C) (s := s₁) (m := { s₁.machine with files := fs }) rfl
        hsource hdir hfs
      have hthere : (s₁.withMachine { s₁.machine with files := fs }).Has
          (C.site.filePlace d published) b' := by
        rw [Scene.Has, Scene.node?_withMachine, hfs, Function.update_self]
      have hpublishes : Publishes C d (Utf8.encode name) published s₁ _ :=
        ⟨hname.isScratch, hname.guard.trans hguard.symm, hdrift, b', hthere⟩
      have hfair₁ := hfair s₁ _ h₁ hopen hpublishes hthere
      refine ⟨hfair₁, hok _ ((Works.of_later h₁ hown).trans ?_) hthere⟩
      refine Works.of_drift hdrift hfair₁ hown₁ fun other heq => ?_
      exact heq.imp (fun h => (C.site.entry_append_inj h).2) fun h => (C.site.entry_append_inj h).2

end

end KernelCache
