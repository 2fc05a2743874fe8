/-
**What builders do about shared directories.**

A builder needs the directory of its entry and that of all locks.  It makes them, in as many steps
as are left to make, and what it asks for next is on its own ground.  Between these stretches it
asks for nothing that depends on what is shared.

Main definitions:

* `Pace` — what is asked for at leisure, what follows on a directory, and how directories are made;
* `Program.Paced`, `Program.Poised` — programs in that shape, and what is left of them after a
  directory has been made;
* `Site.filePace`, `Site.buildPace` — the pace of a builder of a digest.

Main results:

* `Program.Paced.bind`, `Task.Paced.bind`, `Program.Paced.embed` — programs one after another, and
  over other actions;
* `Program.Paced.asks` — what is asked for at last at any point;
* `Site.paced_put`, `Site.paced_acquire`, `Site.paced_ensureCompiled` — the store, locks, the steps
  of a build;
* `Site.paced_buildFrom` — **what a builder does once its digest is known**.
-/

import KernelCache.Proofs.Build.Request
import KernelCache.Proofs.Independence.Ground

set_option relaxedAutoImplicit false
set_option autoImplicit false

namespace KernelCache

/-! ### Programs one after another -/

namespace Program

variable {A B : Type} {R : A → Type} {R' : B → Type} {α β γ : Type}

theorem bind_assoc (p : Program A R α) (f : α → Program A R β) (g : β → Program A R γ) :
    (p.bind f).bind g = p.bind fun a => (f a).bind g := by
  induction p with
  | done a => rfl
  | ask a next ih => exact congrArg (Program.ask a) (funext ih)
  | stalled => rfl

theorem bind_done (p : Program A R α) : p.bind .done = p := by
  induction p with
  | done a => rfl
  | ask a next ih => exact congrArg (Program.ask a) (funext ih)
  | stalled => rfl

theorem embed_bind (f : A → B) (g : (a : A) → R' (f a) → R a) (p : Program A R α)
    (k : α → Program A R β) :
    embed f g (p.bind k) = (embed f g p).bind fun a => embed f g (k a) := by
  induction p with
  | done a => rfl
  | ask a next ih => exact congrArg (Program.ask (f a)) (funext fun r => ih (g a r))
  | stalled => rfl

end Program

theorem Task.bind_assoc {A : Type} {R : A → Type} {α β γ ε : Type} (t : Task A R ε α)
    (f : α → Task A R ε β) (g : β → Task A R ε γ) : t >>= f >>= g = t >>= fun a => f a >>= g := by
  change Program.bind (Program.bind t (ExceptT.bindCont f)) (ExceptT.bindCont g) =
    Program.bind t (ExceptT.bindCont fun a => f a >>= g)
  rw [Program.bind_assoc]
  refine congrArg _ (funext fun r => ?_)
  cases r <;> rfl

/-! ### Paces -/

/-- What is asked for at leisure, what follows on a directory, which answers are to be expected, and
how directories are made. -/
structure Pace (A : Type) (R : A → Type) where
  calm : A → Prop
  follows : Path → A → Prop
  likely : (a : A) → R a → Prop
  make : Path → Program A R (Except Failure Unit)

namespace Program

variable {A B : Type} {R : A → Type} {R' : B → Type} {α β : Type}

/-- Programs that ask for things at leisure, but for stretches in which a directory is made.  If one
is made, something follows on it. -/
inductive Paced (P : Pace A R) (post : α → Prop) : Program A R α → Prop
  | done {a : α} (h : post a) : Paced P post (.done a)
  | stalled : Paced P post .stalled
  | ask {a : A} {next : R a → Program A R α} (ha : P.calm a)
      (hnext : ∀ r, P.likely a r → Paced P post (next r)) : Paced P post (.ask a next)
  | make {q : Path} {k : Except Failure Unit → Program A R α} {a : A}
      {next : R a → Program A R α} {p : Program A R α} (hp : p = (P.make q).bind k)
      (hk : k (.ok ()) = .ask a next) (ha : P.follows q a)
      (hnext : ∀ r, P.likely a r → Paced P post (next r))
      (herr : Paced P post (k (.error .alreadyExists))) : Paced P post p

/-- Programs that go on where a directory has just been made. -/
inductive Poised (P : Pace A R) (q : Path) (post : α → Prop) : Program A R α → Prop
  | ask {a : A} {next : R a → Program A R α} (ha : P.follows q a)
      (hnext : ∀ r, P.likely a r → Paced P post (next r)) : Poised P q post (.ask a next)

variable {P : Pace A R} {post : α → Prop} {post' : β → Prop} {p : Program A R α} {q : Path}

theorem paced_act {a : A} (ha : P.calm a) : Paced P (fun _ => True) (Program.act a) :=
  .ask ha fun _ _ => .done trivial

theorem poised_act {a : A} {post : R a → Prop} (ha : P.follows q a)
    (hpost : ∀ r, P.likely a r → post r) : Poised P q post (Program.act a) :=
  .ask ha fun r hr => .done (hpost r hr)

theorem Paced.bind {f : α → Program A R β} (h : Paced P post p)
    (hf : ∀ a, post a → Paced P post' (f a)) : Paced P post' (p >>= f) := by
  change Paced P post' (p.bind f)
  induction h with
  | done ha => exact hf _ ha
  | stalled => exact .stalled
  | ask ha _ ih => exact .ask ha ih
  | make hp hk ha _ _ ih iherr =>
      refine .make (by rw [hp, bind_assoc]) ?_ ha ih iherr
      rw [hk]
      rfl

theorem Poised.bind {f : α → Program A R β} (h : Poised P q post p)
    (hf : ∀ a, post a → Paced P post' (f a)) : Poised P q post' (p >>= f) := by
  cases h with
  | ask ha hnext => exact .ask ha fun r hr => (hnext r hr).bind hf

theorem Paced.mono {post' : α → Prop} (h : Paced P post p) (hpost : ∀ a, post a → post' a) :
    Paced P post' p := by
  rw [← bind_done p]
  exact h.bind fun a ha => .done (hpost a ha)

/-- **A directory is made, and something follows on it.** -/
theorem paced_make {k : Except Failure Unit → Program A R α} (hok : Poised P q post (k (.ok ())))
    (herr : Paced P post (k (.error .alreadyExists))) : Paced P post (P.make q >>= k) := by
  cases hk : k (.ok ()) with
  | ask a next =>
      rw [hk] at hok
      cases hok with
      | ask ha hnext => exact .make rfl hk ha hnext herr
  | done a =>
      rw [hk] at hok
      cases hok
  | stalled =>
      rw [hk] at hok
      cases hok

end Program

namespace Task

variable {A : Type} {R : A → Type} {α β ε : Type}

/-- Tasks in that shape, where `ok` holds of what they give. -/
def Paced (P : Pace A R) (ok : α → Prop) (t : Task A R ε α) : Prop :=
  Program.Paced P (fun r => ∀ a, r = .ok a → ok a) t.run

/-- Tasks that go on where a directory has just been made. -/
def Poised (P : Pace A R) (q : Path) (ok : α → Prop) (t : Task A R ε α) : Prop :=
  Program.Poised P q (fun r => ∀ a, r = .ok a → ok a) t.run

variable {P : Pace A R} {ok : α → Prop} {ok' : β → Prop} {t : Task A R ε α} {q : Path}

theorem paced_pure {a : α} (h : ok a) : Paced P ok (pure a : Task A R ε α) :=
  .done fun _ hb => Except.ok.inj hb ▸ h

theorem paced_throw (e : ε) : Paced P ok (throw e : Task A R ε α) :=
  .done fun _ hb => nomatch hb

theorem paced_stalled : Paced P ok (stalled : Task A R ε α) := .stalled

theorem paced_bindCont {f : α → Task A R ε β} (hf : ∀ a, ok a → Paced P ok' (f a))
    (r : Except ε α) (hr : ∀ a, r = .ok a → ok a) :
    Program.Paced P (fun r => ∀ b, r = .ok b → ok' b) (ExceptT.bindCont f r) := by
  cases r with
  | ok a => exact hf a (hr a rfl)
  | error e => exact .done fun _ hb => nomatch hb

theorem Paced.bind {f : α → Task A R ε β} (h : Paced P ok t)
    (hf : ∀ a, ok a → Paced P ok' (f a)) : Paced P ok' (t >>= f) :=
  Program.Paced.bind h (paced_bindCont hf)

theorem Poised.bind {f : α → Task A R ε β} (h : Poised P q ok t)
    (hf : ∀ a, ok a → Paced P ok' (f a)) : Poised P q ok' (t >>= f) :=
  Program.Poised.bind h (paced_bindCont hf)

theorem paced_lift {p : Program A R α} (h : Program.Paced P ok p) :
    Paced P ok (liftM p : Task A R ε α) := by
  change Program.Paced P _ (p >>= fun a => (pure (Except.ok a) : Program A R (Except ε α)))
  exact h.bind fun a ha => .done fun _ hb => Except.ok.inj hb ▸ ha

theorem poised_lift {p : Program A R α} (h : Program.Poised P q ok p) :
    Poised P q ok (liftM p : Task A R ε α) := by
  change Program.Poised P q _ (p >>= fun a => (pure (Except.ok a) : Program A R (Except ε α)))
  exact h.bind fun a ha => .done fun _ hb => Except.ok.inj hb ▸ ha

theorem Paced.onFailure {cleanUp : Program A R Unit} (h : Paced P ok t)
    (hclean : Program.Paced P (fun _ => True) cleanUp) : Paced P ok (t.onFailure cleanUp) := by
  refine Program.Paced.bind h fun r hr => ?_
  cases r with
  | ok a => exact .done fun b hb => hr b hb
  | error e => exact hclean.bind fun _ _ => .done fun _ hb => nomatch hb

end Task

/-! ### What is asked of files -/

/-- The answers to be expected: a fresh file is in its directory. -/
def Action.Likely : (a : Action) → a.Reply → Prop
  | .createFresh dir stem, r => ∀ p, r = .ok p → ∃ n, p = dir.child (stem ++ FileSystem.freshTail n)
  | _, _ => True

@[inherit_doc Action.Likely] def BuildAction.Likely : (a : BuildAction) → a.Reply → Prop
  | .file a, r => a.Likely r
  | _, _ => True

theorem Process.likely_perform (a : Action) (s : Process) : a.Likely (s.perform a).1 := by
  cases a with
  | createFresh dir stem =>
      intro p hp
      rw [Process.perform] at hp
      split at hp
      · next q fs' hfresh =>
          obtain rfl : q = p := Except.ok.inj hp
          exact (FileSystem.createFresh_ok hfresh).1
      · cases hp
  | _ => trivial

theorem Toolkit.likely_perform (T : Toolkit) (i : Identity) (a : BuildAction) (s : Process) :
    a.Likely (T.perform i a s).1 := by
  cases a with
  | file a => exact s.likely_perform a
  | _ => trivial

namespace Site

variable (S : Site) (d : Digest)

/-- The pace of a builder of a digest, as far as files are concerned. -/
def filePace : Pace Action Action.Reply where
  calm := fun a => S.Calm d (.file a)
  follows := fun q a => S.Follows d q (.file a)
  likely := Action.Likely
  make := makeDirectories

/-- The pace of a builder of a digest. -/
def buildPace : Pace BuildAction BuildAction.Reply where
  calm := S.Calm d
  follows := S.Follows d
  likely := BuildAction.Likely
  make := fun q => (makeDirectories q).embed BuildAction.file fun _ r => r

variable {S d} {α β : Type} {q : Path}

/-- Programs over files are parts of builds. -/
theorem paced_embed {post : α → Prop} {p : FileProgram α}
    (h : Program.Paced (S.filePace d) post p) :
    Program.Paced (S.buildPace d) post (p.embed BuildAction.file fun _ r => r) := by
  induction h with
  | done ha => exact .done ha
  | stalled => exact .stalled
  | ask ha _ ih => exact .ask ha ih
  | @make q k a next p hp hk ha _ _ ih iherr =>
      refine .make (k := fun r => (k r).embed BuildAction.file fun _ r => r) ?_ ?_ ha ih iherr
      · rw [hp]
        exact Program.embed_bind _ _ _ _
      · rw [hk]
        rfl

theorem paced_quietly {p : FileProgram Unit}
    (h : Program.Paced (S.filePace d) (fun _ => True) p) :
    Program.Paced (S.buildPace d) (fun _ => True) (BuildTask.quietly p) := paced_embed h

theorem paced_files {ok : α → Prop} {t : FileTask CacheError α}
    (h : Task.Paced (S.filePace d) ok t) : Task.Paced (S.buildPace d) ok (BuildTask.files t) := by
  refine Program.Paced.bind (paced_embed h) fun r hr => ?_
  cases r with
  | ok a => exact .done fun _ hb => Except.ok.inj hb ▸ hr a rfl
  | error e => exact .done fun _ hb => nomatch hb

theorem paced_attempt (p : Path) {program : FileProgram (Except Failure α)}
    (h : Program.Paced (S.filePace d) (fun _ => True) program) :
    Task.Paced (S.filePace d) (fun _ => True) (Store.attempt p program) := by
  refine Program.Paced.bind h fun r _ => ?_
  cases r <;> exact .done fun _ _ => trivial

theorem poised_attempt {ok : α → Prop} (p : Path) {program : FileProgram (Except Failure α)}
    (h : Program.Poised (S.filePace d) q (fun r => ∀ a, r = .ok a → ok a) program) :
    Task.Poised (S.filePace d) q ok (Store.attempt p program) := by
  refine Program.Poised.bind h fun r hr => ?_
  cases r with
  | ok a => exact .done fun _ hb => Except.ok.inj hb ▸ hr a rfl
  | error e => exact .done fun _ hb => nomatch hb

/-- A directory is made, and if that fails the whole fails. -/
theorem paced_attempt_make {ok : β → Prop} (p : Path) {f : Unit → FileTask CacheError β}
    (h : Task.Poised (S.filePace d) q ok (f ())) :
    Task.Paced (S.filePace d) ok (Store.attempt p (makeDirectories q) >>= f) := by
  change Program.Paced (S.filePace d) _ (((makeDirectories q).bind _).bind _)
  rw [Program.bind_assoc]
  exact Program.paced_make (P := S.filePace d) h (.done fun _ hb => nomatch hb)

/-! ### Paths of files -/

theorem fileOf_path (k : Artifact) : S.FileOf d (S.store.path d k) := ⟨_, S.plain_fileName k, rfl⟩

theorem fileOf_sidecar : S.FileOf d (S.store.sidecar d) := ⟨_, plain_sidecar, rfl⟩

/-! ### Reading -/

theorem paced_look {p : Path} (hp : S.FileOf d p ∨ S.LockOf d p) :
    Program.Paced (S.filePace d) (fun _ => True) (Ask.look p) :=
  Program.paced_act (P := S.filePace d) (a := .look p) (.look hp)

theorem paced_read {p : Path} (hp : S.FileOf d p) :
    Program.Paced (S.filePace d) (fun _ => True) (Ask.read p) :=
  Program.paced_act (P := S.filePace d) (a := .read p) (.read hp)

theorem paced_contains (k : Artifact) :
    Task.Paced (S.filePace d) (fun _ => True) (S.store.contains d k) := by
  refine (Task.paced_lift (paced_look (Or.inl (fileOf_path k)))).bind fun r _ => ?_
  split
  · exact Task.paced_pure trivial
  · exact Task.paced_pure trivial
  · exact Task.paced_throw _

theorem paced_get (k : Artifact) :
    Task.Paced (S.filePace d) (fun _ => True) (S.store.get d k) := by
  refine (Task.paced_lift (paced_read (fileOf_path k))).bind fun r _ => ?_
  split
  · exact Task.paced_pure trivial
  · exact Task.paced_pure trivial
  · exact Task.paced_throw _

theorem paced_recordedChecksum :
    Task.Paced (S.filePace d) (fun _ => True) (S.store.recordedChecksum d) := by
  refine (Task.paced_lift (paced_read fileOf_sidecar)).bind fun r _ => ?_
  split
  · split
    · exact Task.paced_pure trivial
    · exact Task.paced_throw _
  · exact Task.paced_throw _
  · exact Task.paced_throw _

/-- A binary that is found valid is one of the entry. -/
theorem paced_verified : Task.Paced (S.filePace d) (fun r => ∀ p, r = some p → S.FileOf d p)
    (S.store.verified d) := by
  refine (paced_get .binary).bind fun found _ => ?_
  cases found with
  | none => exact Task.paced_pure fun _ h => nomatch h
  | some bytes =>
      refine paced_recordedChecksum.bind fun expected _ => ?_
      dsimp only
      split
      · exact Task.paced_pure fun p h => Option.some.inj h ▸ fileOf_path .binary
      · exact Task.paced_throw _

/-! ### Writing -/

theorem paced_discard {temp : Path} (h : S.FileOf d temp) :
    Program.Paced (S.filePace d) (fun _ => True) (Store.discard temp) := by
  have hremove : Program.Paced (S.filePace d) (fun _ => True) (Ask.removeFile temp) :=
    Program.paced_act (P := S.filePace d) (a := .removeFile temp) (.removeFile h)
  exact hremove.bind fun _ _ => .done trivial

/-- A directory is made, and what follows goes on in it. -/
theorem paced_ensureEntryDir_bind {ok : β → Prop} {f : Path → FileTask CacheError β}
    (h : Task.Poised (S.filePace d) (S.store.entryDir d) ok (f (S.store.entryDir d))) :
    Task.Paced (S.filePace d) ok (S.store.ensureEntryDir d >>= f) := by
  rw [Store.ensureEntryDir, Task.bind_assoc]
  exact paced_attempt_make _ h

/-- A fresh file is one of the entry. -/
theorem poised_createFresh {stem : String} (hstem : '/' ∉ stem.toList) :
    Task.Poised (S.filePace d) (S.store.entryDir d) (S.FileOf d)
      (Store.createFresh (S.store.entryDir d) stem) := by
  refine poised_attempt _ (Program.poised_act (P := S.filePace d)
    (a := .createFresh (S.store.entryDir d) stem) (.createFresh hstem) fun r hr p hp => ?_)
  obtain ⟨n, rfl⟩ := hr p hp
  exact ⟨_, plain_temp hstem n, rfl⟩

theorem poised_writeFresh {stem : String} (hstem : '/' ∉ stem.toList) (bytes : Bytes) :
    Task.Poised (S.filePace d) (S.store.entryDir d) (S.FileOf d)
      (Store.writeFresh (S.store.entryDir d) stem bytes) := by
  refine (poised_createFresh hstem).bind fun temp htemp => ?_
  have hwrite : Task.Paced (S.filePace d) (fun _ => True)
      (Store.attempt temp (Ask.write temp bytes)) :=
    paced_attempt _ (Program.paced_act (P := S.filePace d) (a := .write temp bytes) (.write htemp))
  exact (hwrite.onFailure (paced_discard htemp)).bind fun _ _ => Task.paced_pure htemp

theorem paced_settle {temp target : Path} (htemp : S.FileOf d temp) (htarget : S.FileOf d target) :
    Task.Paced (S.filePace d) (fun _ => True) (Store.settle temp target) := by
  refine .onFailure (paced_attempt _ ?_) (paced_discard htemp)
  exact Program.paced_act (P := S.filePace d) (a := .move temp target) (.move htemp htarget)

theorem paced_recordChecksum {temp : Path} (htemp : S.FileOf d temp) :
    Task.Paced (S.filePace d) (fun _ => True) (S.store.recordChecksum d temp) := by
  refine (paced_attempt _ (paced_read htemp)).bind fun bytes _ => ?_
  refine paced_ensureEntryDir_bind ((poised_writeFresh (by decide) _).bind fun side hside => ?_)
  exact paced_settle hside fileOf_sidecar

/-- What is published is a file of the entry. -/
theorem paced_publish (k : Artifact) {temp : Path} (htemp : S.FileOf d temp) :
    Task.Paced (S.filePace d) (S.FileOf d) (S.store.publish d k temp) := by
  have hmove : Task.Paced (S.filePace d) (S.FileOf d)
      (Store.settle temp (S.store.path d k) >>= fun _ => pure (S.store.path d k)) :=
    (paced_settle htemp (fileOf_path k)).bind fun _ _ => Task.paced_pure (fileOf_path k)
  rw [Store.publish]
  split
  · exact ((paced_recordChecksum htemp).onFailure (paced_discard htemp)).bind fun _ _ => hmove
  · exact hmove

theorem slash_notMem_stem (k : Artifact) : '/' ∉ (Store.stem k).toList := by
  cases k <;> decide

theorem paced_reserve (k : Artifact) :
    Task.Paced (S.filePace d) (S.FileOf d) (S.store.reserve d k) :=
  paced_ensureEntryDir_bind (poised_createFresh (slash_notMem_stem k))

theorem paced_put (k : Artifact) (bytes : Bytes) :
    Task.Paced (S.filePace d) (S.FileOf d) (S.store.put d k bytes) :=
  paced_ensureEntryDir_bind ((poised_writeFresh (by decide) bytes).bind fun _ htemp =>
    paced_publish k htemp)

/-! ### Locks -/

theorem paced_checkDepth (depth : Nat) :
    Task.Paced (S.filePace d) (fun _ => True) (LockTable.checkDepth depth) := by
  rw [LockTable.checkDepth]
  split
  · exact Task.paced_pure trivial
  · exact Task.paced_throw _

theorem paced_acquire (depth : Nat) :
    Task.Paced (S.filePace d) (fun _ => True) (S.locks.acquire d depth) := by
  refine (paced_checkDepth depth).bind fun _ _ => paced_attempt_make _ ?_
  have htake : Program.Poised (S.filePace d) S.locks.directory (fun _ => True)
      (Ask.makeDirectory (S.locks.path d depth)) :=
    Program.poised_act (P := S.filePace d) (a := .makeDirectory (S.locks.path d depth))
      (.take depth) fun _ _ => trivial
  refine (Task.poised_lift htake).bind fun r _ => ?_
  split
  · exact (Task.paced_lift (Program.paced_act (P := S.filePace d) (a := .hold _) .hold)).bind
      fun _ _ => Task.paced_pure trivial
  · exact Task.paced_pure trivial
  · exact Task.paced_throw _

theorem paced_release (depth : Nat) :
    Task.Paced (S.filePace d) (fun _ => True) (S.locks.release d depth) := by
  refine (paced_checkDepth depth).bind fun _ _ => ?_
  refine (Task.paced_lift (Program.paced_act (P := S.filePace d) (a := .letGo _) .letGo)).bind
    fun _ _ => ?_
  refine (Task.paced_lift (Program.paced_act (P := S.filePace d) (a := .removeDirectory _)
    (.removeDirectory ⟨depth, rfl⟩))).bind fun r _ => ?_
  split
  · exact Task.paced_pure trivial
  · exact Task.paced_pure trivial
  · exact Task.paced_throw _

theorem paced_releaseQuietly (depth : Nat) :
    Program.Paced (S.filePace d) (fun _ => True) (S.locks.releaseQuietly d depth) :=
  Program.Paced.bind (paced_release depth) fun _ _ => .done trivial

theorem paced_present (depth : Nat) : Task.Paced (S.filePace d) (fun _ => True)
    (LockTable.present (S.locks.path d depth)) := by
  refine (Task.paced_lift (paced_look (Or.inr ⟨depth, rfl⟩))).bind fun r _ => ?_
  split
  · exact Task.paced_pure trivial
  · exact Task.paced_pure trivial
  · exact Task.paced_throw _

theorem paced_sleep (t : Nat) :
    Task.Paced (S.filePace d) (fun _ => True) (liftM (Ask.sleep t) : FileTask CacheError Unit) :=
  Task.paced_lift (Program.paced_act (P := S.filePace d) (a := .sleep t) .sleep)

theorem paced_now :
    Task.Paced (S.filePace d) (fun _ => True) (liftM Ask.now : FileTask CacheError Nat) :=
  Task.paced_lift (Program.paced_act (P := S.filePace d) (a := .now) .now)

theorem paced_waitLoop (depth pause polls : Nat) : Task.Paced (S.filePace d) (fun _ => True)
    (LockTable.waitLoop (S.locks.path d depth) pause polls) := by
  induction polls generalizing pause with
  | zero => exact Task.paced_stalled
  | succ polls ih =>
      rw [LockTable.waitLoop]
      refine (paced_present depth).bind fun taken _ => ?_
      split
      · exact (paced_sleep pause).bind fun _ _ => ih _
      · exact Task.paced_pure trivial

theorem paced_waitAtMostLoop (depth start timeout pause polls : Nat) :
    Task.Paced (S.filePace d) (fun _ => True)
      (LockTable.waitAtMostLoop (S.locks.path d depth) start timeout pause polls) := by
  induction polls generalizing pause with
  | zero => exact Task.paced_stalled
  | succ polls ih =>
      rw [LockTable.waitAtMostLoop]
      refine (paced_present depth).bind fun taken _ => ?_
      split
      · refine paced_now.bind fun now _ => ?_
        dsimp only
        split
        · exact Task.paced_throw _
        · exact (paced_sleep _).bind fun _ _ => ih _
      · exact Task.paced_pure trivial

/-! ### The steps of a build -/

variable {r : Request} {i : Identity} {job : Job}

theorem paced_wait (depth : Nat) :
    Task.Paced (S.buildPace d) (fun _ => True) ((r.pipeline S).wait d depth) := by
  refine paced_files ?_
  split
  · refine (paced_checkDepth depth).bind fun _ _ => paced_now.bind fun start _ => ?_
    exact paced_waitAtMostLoop depth _ _ _ _
  · exact (paced_checkDepth depth).bind fun _ _ => paced_waitLoop depth _ _

theorem paced_holding {ok : α → Prop} {depth : Nat} {body : BuildTask α}
    (h : Task.Paced (S.buildPace d) ok body) :
    Task.Paced (S.buildPace d) ok ((r.pipeline S).holding d depth body) :=
  (h.onFailure (paced_quietly (paced_releaseQuietly depth))).bind fun _ ha =>
    (paced_files (paced_release depth)).bind fun _ _ => Task.paced_pure ha

/-- What is known without asking. -/
theorem paced_known (x : Except BuildError α) :
    Task.Paced (S.buildPace d) (fun _ => True) (ExceptT.mk (pure x)) :=
  .done fun _ _ => trivial

theorem paced_translateEntry (source : Bytes) : Task.Paced (S.buildPace d) (fun _ => True)
    ((r.pipeline S).translateEntry i d job source) := by
  refine (paced_known _).bind fun text _ => ?_
  refine (Task.paced_lift (Program.paced_act (P := S.buildPace d) (a := .translate _)
    .translate)).bind fun t _ => ?_
  split
  · exact Task.paced_throw _
  · exact (paced_files (paced_put .manifest _)).bind fun _ _ =>
      (paced_files (paced_put .source _)).bind fun _ _ => Task.paced_pure trivial

theorem paced_ensureTranslated (source : Bytes) (rounds : Nat) :
    Task.Paced (S.buildPace d) (fun _ => True)
      ((r.pipeline S).ensureTranslated i d job source rounds) := by
  induction rounds with
  | zero => exact Task.paced_stalled
  | succ rounds ih =>
      rw [Pipeline.ensureTranslated]
      refine (paced_files (paced_contains .source)).bind fun found _ => ?_
      split
      · exact Task.paced_pure trivial
      · refine (paced_files (paced_acquire _)).bind fun taken _ => ?_
        split
        · refine paced_holding ((paced_files (paced_contains .source)).bind fun found _ => ?_)
          split
          · exact Task.paced_pure trivial
          · exact paced_translateEntry source
        · exact (paced_wait _).bind fun _ _ => ih

theorem paced_compileTo {output : Path} (houtput : S.FileOf d output) :
    Task.Paced (S.buildPace d) (fun _ => True)
      ((r.pipeline S).compileTo i d job output) := by
  refine (Task.paced_lift (Program.paced_act (P := S.buildPace d) (a := .compile _ _)
    (.compile (fileOf_path .source) houtput))).bind fun t _ => ?_
  split
  · exact Task.paced_pure trivial
  · exact Task.paced_throw _

theorem paced_compileEntry : Task.Paced (S.buildPace d) (S.FileOf d)
    ((r.pipeline S).compileEntry i d job) := by
  refine (paced_files (paced_reserve .binary)).bind fun temp htemp => ?_
  refine ((paced_compileTo htemp).onFailure (paced_quietly (paced_discard htemp))).bind
    fun _ _ => ?_
  exact paced_files (paced_publish .binary htemp)

theorem paced_ensureCompiled (rounds : Nat) : Task.Paced (S.buildPace d) (S.FileOf d)
    ((r.pipeline S).ensureCompiled i d job rounds) := by
  induction rounds with
  | zero => exact Task.paced_stalled
  | succ rounds ih =>
      rw [Pipeline.ensureCompiled]
      refine (paced_files paced_verified).bind fun found hfound => ?_
      split
      · exact Task.paced_pure (hfound _ rfl)
      · refine (paced_files (paced_acquire _)).bind fun taken _ => ?_
        split
        · refine paced_holding ((paced_files paced_verified).bind fun found hfound => ?_)
          split
          · exact Task.paced_pure (hfound _ rfl)
          · exact paced_compileEntry
        · exact (paced_wait _).bind fun _ _ => ih

theorem paced_readManifest : Task.Paced (S.buildPace d) (fun _ => True)
    ((r.pipeline S).readManifest d) := by
  refine (paced_files (paced_get .manifest)).bind fun found _ => ?_
  split
  · exact paced_known _
  · exact Task.paced_throw _

theorem paced_loadWith {view : DeviceView} {binary : Path} (hbinary : S.FileOf d binary)
    (function : String) (l : Launch) : Task.Paced (S.buildPace d) (fun _ => True)
      (Pipeline.loadWith view binary function l) := by
  refine (Task.paced_lift (Program.paced_act (P := S.buildPace d) (a := .load _ _)
    (.load hbinary))).bind fun t _ => ?_
  split
  · exact Task.paced_pure trivial
  · exact Task.paced_throw _

/-- **What a builder does once its digest is known.** -/
theorem paced_buildFrom (r : Request) (source : Bytes) :
    Task.Paced (S.buildPace ((r.pipeline S).key r.view r.job source)) (fun _ => True)
      ((r.pipeline S).buildFrom r.view r.job source) := by
  refine (paced_ensureTranslated source _).bind fun _ _ => ?_
  refine (paced_ensureCompiled _).bind fun binary hbinary => ?_
  refine paced_readManifest.bind fun m _ => (paced_known _).bind fun l _ => ?_
  exact paced_loadWith hbinary _ l

end Site

end KernelCache
