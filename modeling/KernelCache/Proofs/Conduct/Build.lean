/-
**A build keeps to the rule.**

Step by step through the store, the locks and the pipeline: whatever the answers are, a build has
empty hands when it ends, and when it has succeeded it knows the binary, its checksum and the
manifest of its entry.

Main definitions:

* `Hand.Verified`, `Hand.Complete` — what a build knows that has found what it needs;
* `Hand.Done` — how a build ends.

Main results:

* `conducts_verified`, `conducts_put`, `conducts_publishBinary` — the store;
* `conducts_acquire`, `conducts_release`, `conducts_holding` — locks;
* `conducts_ensureTranslated`, `conducts_ensureCompiled`, `conducts_conclude` — the parts of a
  build;
* `conducts_program` — **what serves a request**, from empty hands to empty hands.
-/

import KernelCache.Proofs.Build.Request
import KernelCache.Proofs.Conduct.Hand

set_option relaxedAutoImplicit false
set_option autoImplicit false

namespace KernelCache

namespace Hand

/-- A binary is known whose checksum is the recorded one. -/
def Verified (S : Site) (d : Digest) (h : Hand) : Prop :=
  ∃ b record text, h.known (S.store.path d .binary).place = some b ∧
    h.known (S.store.sidecar d).place = some record ∧ Utf8.decode? record = some text ∧
    String.ofList (Text.trim text) = (Checksum.of b).toText

/-- A manifest is known, too, and it has a function. -/
structure Complete (S : Site) (d : Digest) (function : String) (h : Hand) : Prop where
  verified : h.Verified S d
  manifest : ∃ b m l, h.known (S.store.path d .manifest).place = some b ∧
    Manifest.ofBytes? b = some m ∧ m.kernels.get? function = some l

end Hand

section

variable {S : Site} {may : Digest → Nat → Prop} {h : Hand} {d : Digest} {depth : Nat}
  {err : CacheError → Hand → Prop}

/-! ### Places of an entry -/

theorem child_place_ne {d : Digest} {name other : String} (hname : Plain (Utf8.encode name))
    (hother : Plain (Utf8.encode other)) (hne : name ≠ other) :
    ((S.store.entryDir d).child name).place ≠ ((S.store.entryDir d).child other).place := by
  rw [Path.place_child hname, Path.place_child hother]
  intro heq
  exact hne (Utf8.encode_injective (S.entry_append_inj heq).2)

theorem binary_place_ne_sidecar (d : Digest) :
    (S.store.path d .binary).place ≠ (S.store.sidecar d).place :=
  have hne : "binary" ≠ "binary.xxh3" := by decide
  child_place_ne Site.plain_binary Site.plain_sidecar hne

theorem manifest_place_ne_binary (d : Digest) :
    (S.store.path d .manifest).place ≠ (S.store.path d .binary).place :=
  have hne : "manifest.json" ≠ "binary" := by decide
  child_place_ne Site.plain_manifest Site.plain_binary hne

theorem manifest_place_ne_sidecar (d : Digest) :
    (S.store.path d .manifest).place ≠ (S.store.sidecar d).place :=
  have hne : "manifest.json" ≠ "binary.xxh3" := by decide
  child_place_ne Site.plain_manifest Site.plain_sidecar hne

/-- A fresh file has not the place of one that is published. -/
theorem scratch_place_ne_product {name other : String} {k : Nat} (hname : Site.Scratch depth name)
    (hother : S.IsProduct k other) :
    ((S.store.entryDir d).child name).place ≠ ((S.store.entryDir d).child other).place := by
  refine child_place_ne hname.plain hother.plain ?_
  rintro rfl
  exact hother.not_isScratch hname.isScratch

theorem reserved_place_ne_sidecar (d : Digest) (n : Nat) :
    ((S.store.entryDir d).child (".binary" ++ FileSystem.freshTail n)).place ≠
      (S.store.sidecar d).place :=
  scratch_place_ne_product (Site.scratch_reserved n) .sidecar

/-! ### Reading -/

theorem conducts_act {a : Action} {post : a.Reply → Hand → Prop}
    (ha : fileConduct S may a post h) :
    Program.Obeys (filing S may) post (Program.act a) h :=
  Program.obeys_act_of ha

/-- Looking at a path that is no lock, or with empty hands. -/
theorem conducts_look {p : Path} {post : Except Failure Node → Hand → Prop}
    (hsteady : h.grasp.Steady) (hp : S.IsLock p → h.grasp = .free) (hok : ∀ n, post (.ok n) h)
    (hnone : post (.error .notFound) h) (herr : ∀ e, e ≠ .notFound → post (.error e) h.fail) :
    Program.Obeys (filing S may) post (Ask.look p) h :=
  conducts_act (a := .look p) ⟨hsteady, hp, hok, hnone, herr⟩

theorem conducts_read {p : Path} {post : Except Failure Bytes → Hand → Prop}
    (hsteady : h.grasp.Steady) (hok : ∀ b, post (.ok b) (h.learn p.place b))
    (hnone : post (.error .notFound) h) (herr : ∀ e, e ≠ .notFound → post (.error e) h.fail) :
    Program.Obeys (filing S may) post (Ask.read p) h :=
  conducts_act (a := .read p) ⟨hsteady, hok, hnone, herr⟩

theorem conducts_contains (hsteady : h.grasp.Steady) {k : Artifact} {ok : Bool → Hand → Prop}
    (hok : ∀ b, ok b h) (herr : ∀ e h', h.Like h' → err e h') :
    Task.Obeys (filing S may) ok err (S.store.contains d k) h := by
  rw [Store.contains, Task.obeys_bind, Task.obeys_lift]
  refine conducts_look hsteady (fun hlock => absurd hlock (Site.not_isLock_path d k))
    (fun _ => Task.obeys_pure_of (hok _)) (Task.obeys_pure_of (hok _)) fun e he => ?_
  cases e with
  | notFound => exact absurd rfl he
  | _ => exact Task.obeys_throw_of (herr _ _ h.like_fail)

theorem conducts_get (hsteady : h.grasp.Steady) {k : Artifact} {ok : Option Bytes → Hand → Prop}
    (hsome : ∀ b, ok (some b) (h.learn (S.store.path d k).place b)) (hnone : ok none h)
    (herr : ∀ e h', h.Like h' → err e h') :
    Task.Obeys (filing S may) ok err (S.store.get d k) h := by
  rw [Store.get, Task.obeys_bind, Task.obeys_lift]
  refine conducts_read hsteady (fun b => Task.obeys_pure_of (hsome b)) (Task.obeys_pure_of hnone)
    fun e he => ?_
  cases e with
  | notFound => exact absurd rfl he
  | _ => exact Task.obeys_throw_of (herr _ _ h.like_fail)

theorem conducts_recordedChecksum (hsteady : h.grasp.Steady) {ok : String → Hand → Prop}
    (hok : ∀ b text, Utf8.decode? b = some text →
      ok (String.ofList (Text.trim text)) (h.learn (S.store.sidecar d).place b))
    (herr : ∀ e h', h.Like h' → err e h') :
    Task.Obeys (filing S may) ok err (S.store.recordedChecksum d) h := by
  rw [Store.recordedChecksum, Task.obeys_bind, Task.obeys_lift]
  refine conducts_read hsteady (fun b => ?_)
    (Task.obeys_throw_of (herr _ h (Hand.Like.refl h))) fun e he => ?_
  · cases htext : Utf8.decode? b with
    | some text =>
        simp only [htext]
        exact Task.obeys_pure_of (hok b text htext)
    | none =>
        simp only [htext]
        exact Task.obeys_throw_of (herr _ _ (h.same_learn _ b).toLike)
  · cases e with
    | notFound => exact absurd rfl he
    | _ => exact Task.obeys_throw_of (herr _ _ h.like_fail)

/-- What is found valid is known with its checksum. -/
theorem conducts_verified (hsteady : h.grasp.Steady) {ok : Option Path → Hand → Prop}
    (hnone : ok none h)
    (hsome : ∀ h', h.Same h' → h'.Verified S d → ok (some (S.store.path d .binary)) h')
    (herr : ∀ e h', h.Like h' → err e h') :
    Task.Obeys (filing S may) ok err (S.store.verified d) h := by
  rw [Store.verified, Task.obeys_bind]
  refine conducts_get hsteady (fun b => ?_) (Task.obeys_pure_of hnone) herr
  have hread := h.same_learn (S.store.path d .binary).place b
  simp only [Task.obeys_bind]
  refine conducts_recordedChecksum (h := h.learn (S.store.path d .binary).place b) hsteady
    (fun record text htext => ?_) fun e h' hlike => herr e h' (hread.toLike.trans hlike)
  have hsame := hread.trans (Hand.same_learn _ (S.store.sidecar d).place record)
  split
  · next heq =>
      refine Task.obeys_pure_of (hsome _ hsame ⟨b, record, text, ?_, ?_, htext, heq.symm⟩)
      · rw [Hand.learn_known_of_ne (binary_place_ne_sidecar d), Hand.learn_known_self]
      · exact Hand.learn_known_self
  · exact Task.obeys_throw_of (herr _ _ hsame.toLike)

/-! ### Directories -/

theorem conducts_unlessThere (hsteady : h.grasp.Steady) {p : Path} {e : Failure}
    {post : Except Failure Unit → Hand → Prop} (hp : ¬S.IsLock p) (hok : post (.ok ()) h)
    (herr : ∀ e h', h.Like h' → post (.error e) h') :
    Program.Obeys (filing S may) post (unlessThere p e) h := by
  have hsame := herr e h (Hand.Like.refl h)
  rw [unlessThere, isDirectory, Program.obeys_bind, Program.obeys_bind]
  refine conducts_look hsteady (fun hlock => absurd hlock hp) (fun n => ?_) ?_ fun e he => ?_
  · cases n with
    | directory => exact Program.obeys_pure_of (Program.obeys_pure_of hok)
    | file _ => exact Program.obeys_pure_of (Program.obeys_pure_of hsame)
  · exact Program.obeys_pure_of (Program.obeys_pure_of hsame)
  · exact Program.obeys_pure_of (Program.obeys_pure_of (herr _ _ h.like_fail))

/-- Making the directories on the way leaves the hands as they are. -/
theorem conducts_makeAll (hsteady : h.grasp.Steady) {l : List Path}
    (hl : ∀ p ∈ l, S.OnWay h.grasp p) {post : Except Failure Unit → Hand → Prop}
    (hok : post (.ok ()) h) (herr : ∀ e h', h.Like h' → post (.error e) h') :
    Program.Obeys (filing S may) post (makeAll l) h := by
  induction l generalizing post with
  | nil => exact Program.obeys_pure_of (herr _ _ (Hand.Like.refl h))
  | cons p up ih =>
      rw [List.forall_mem_cons] at hl
      have hmake {post : Except Failure Unit → Hand → Prop} (hpost : ∀ r, post r h) :
          Program.Obeys (filing S may) post (Ask.makeDirectory p) h :=
        conducts_act (a := .makeDirectory p) (Or.inl ⟨hsteady, hl.1, hpost⟩)
      rw [makeAll]
      split
      · exact Program.obeys_pure_of hok
      · rw [Program.obeys_bind]
        refine hmake fun r => ?_
        split
        · exact Program.obeys_pure_of hok
        · rw [Program.obeys_bind]
          refine ih hl.2 ?_ fun e h' hlike => Program.obeys_pure_of (herr e h' hlike)
          simp only [Program.obeys_bind]
          refine hmake fun r => ?_
          split
          · exact Program.obeys_pure_of hok
          · exact conducts_unlessThere hsteady hl.1.not_isLock hok herr
        · exact conducts_unlessThere hsteady hl.1.not_isLock hok herr

theorem conducts_ensureEntryDir (hgrasp : h.grasp = .noted d depth) {ok : Path → Hand → Prop}
    (hok : ok (S.store.entryDir d) h) (herr : ∀ e h', h.Like h' → err e h') :
    Task.Obeys (filing S may) ok err (S.store.ensureEntryDir d) h := by
  rw [Store.ensureEntryDir, Task.obeys_bind, obeys_attempt]
  exact conducts_makeAll (Hand.steady_of_noted hgrasp) (fun p hp => Or.inr ⟨d, depth, hgrasp, hp⟩)
    (Task.obeys_pure_of hok) fun e h' hlike => herr _ h' hlike

/-! ### Locks -/

/-- Taking a lock with empty hands. -/
theorem conducts_acquire (hempty : h.Empty) (hmay : may d depth) {ok : Bool → Hand → Prop}
    (htrue : ok true (h.grasping (.noted d depth))) (hfalse : ok false h)
    (herr : ∀ e h', h.Like h' → err e h') :
    Task.Obeys (filing S may) ok err (S.locks.acquire d depth) h := by
  rw [LockTable.acquire, LockTable.checkDepth, Task.obeys_bind]
  split
  · next hdepth =>
      refine Task.obeys_pure_of ?_
      rw [Task.obeys_bind, obeys_attempt]
      refine conducts_makeAll (hempty.steady trivial) (fun p hp => Or.inl hp) ?_
        fun e h' hlike => herr _ h' hlike
      simp only [Task.Outcome, Task.obeys_bind, Task.obeys_lift]
      refine conducts_act (a := .makeDirectory _)
        (Or.inr ⟨d, depth, rfl, hdepth, hmay, hempty, fun e => ?_, ?_⟩)
      · cases e with
        | alreadyExists => exact Task.obeys_pure_of hfalse
        | _ => exact Task.obeys_throw_of (herr _ _ (Hand.Like.refl h))
      · simp only [Task.obeys_bind, Task.obeys_lift]
        exact conducts_act (a := .hold _)
          ⟨d, depth, rfl, rfl, Task.obeys_pure_of htrue⟩
  · exact Task.obeys_throw_of (herr _ _ (Hand.Like.refl h))

/-- Giving a lock back when no fresh file is left. -/
theorem conducts_release (hnoted : h.Only (.noted d depth)) (hdepth : depth ≤ maxLockDepth)
    {ok : Unit → Hand → Prop} (hok : ok () (h.grasping .free))
    (herr : ∀ e, err e (h.grasping .free)) :
    Task.Obeys (filing S may) ok err (S.locks.release d depth) h := by
  rw [LockTable.release, LockTable.checkDepth, if_pos hdepth, Task.obeys_bind]
  refine Task.obeys_pure_of ?_
  rw [LockTable.releasePath, Task.obeys_bind, Task.obeys_lift]
  refine conducts_act (a := .letGo _) ⟨d, depth, rfl, hnoted.grasp, hnoted.temps, ?_⟩
  rw [Task.obeys_bind, Task.obeys_lift]
  refine conducts_act (a := .removeDirectory _)
    ⟨d, depth, rfl, rfl, fun (r : Except Failure Unit) => ?_⟩
  dsimp only
  split
  · exact Task.obeys_pure_of hok
  · exact Task.obeys_pure_of hok
  · exact Task.obeys_throw_of (herr _)

theorem conducts_releaseQuietly (hnoted : h.Only (.noted d depth)) (hdepth : depth ≤ maxLockDepth)
    {post : Unit → Hand → Prop} (hpost : post () (h.grasping .free)) :
    Program.Obeys (filing S may) post (S.locks.releaseQuietly d depth) h := by
  rw [LockTable.releaseQuietly, Program.obeys_bind, Task.obeys_run]
  simp only [Program.obeys_pure]
  exact conducts_release hnoted hdepth hpost fun _ => hpost

/-- A lock is watched with empty hands. -/
theorem conducts_present (hempty : h.Empty) {lock : Path} {ok : Bool → Hand → Prop}
    (hok : ∀ b, ok b h) (herr : ∀ e h', h.Like h' → err e h') :
    Task.Obeys (filing S may) ok err (LockTable.present lock) h := by
  rw [LockTable.present, Task.obeys_bind, Task.obeys_lift]
  refine conducts_look (hempty.steady trivial) (fun _ => hempty.grasp)
    (fun _ => Task.obeys_pure_of (hok _))
    (Task.obeys_pure_of (hok _)) fun e he => ?_
  cases e with
  | notFound => exact absurd rfl he
  | _ => exact Task.obeys_throw_of (herr _ _ h.like_fail)

theorem conducts_waitLoop (hempty : h.Empty) {lock : Path} (pause polls : Nat)
    {ok : Unit → Hand → Prop} (hok : ok () h) (herr : ∀ e h', h.Like h' → err e h') :
    Task.Obeys (filing S may) ok err (LockTable.waitLoop lock pause polls) h := by
  induction polls generalizing pause with
  | zero => exact Task.obeys_stalled_of hempty
  | succ polls ih =>
      rw [LockTable.waitLoop, Task.obeys_bind]
      refine conducts_present hempty (fun b => ?_) herr
      cases b with
      | false => exact Task.obeys_pure_of hok
      | true =>
          simp only [if_true, Task.obeys_bind, Task.obeys_lift]
          exact conducts_act (a := .sleep _) ⟨hempty, ih _⟩

theorem conducts_waitAtMostLoop (hempty : h.Empty) {lock : Path} (start timeout pause polls : Nat)
    {ok : Unit → Hand → Prop} (hok : ok () h) (herr : ∀ e h', h.Like h' → err e h') :
    Task.Obeys (filing S may) ok err
      (LockTable.waitAtMostLoop lock start timeout pause polls) h := by
  induction polls generalizing pause with
  | zero => exact Task.obeys_stalled_of hempty
  | succ polls ih =>
      rw [LockTable.waitAtMostLoop, Task.obeys_bind]
      refine conducts_present hempty (fun b => ?_) herr
      cases b with
      | false => exact Task.obeys_pure_of hok
      | true =>
          simp only [if_true, Task.obeys_bind, Task.obeys_lift]
          refine conducts_act (a := .now) ⟨hempty, fun (now : Nat) => ?_⟩
          dsimp only
          split
          · exact Task.obeys_throw_of (herr _ _ (Hand.Like.refl h))
          · simp only [Task.obeys_bind, Task.obeys_lift]
            exact conducts_act (a := .sleep _) ⟨hempty, ih _⟩

/-! ### Fresh files -/

/-- The names of the fresh files that are made under the lock of a depth with a given start. -/
def Stem (depth : Nat) (stem : String) : Prop :=
  ∀ n, Site.Scratch depth (stem ++ FileSystem.freshTail n)

theorem conducts_createFresh (hgrasp : h.grasp = .noted d depth) {stem : String}
    (hstem : Stem depth stem) {ok : Path → Hand → Prop}
    (hok : ∀ n, ok ((S.store.entryDir d).child (stem ++ FileSystem.freshTail n))
      (h.take ((S.store.entryDir d).child (stem ++ FileSystem.freshTail n))))
    (herr : ∀ e, err e h) :
    Task.Obeys (filing S may) ok err (Store.createFresh (S.store.entryDir d) stem) h := by
  rw [Store.createFresh, obeys_attempt]
  exact conducts_act (a := .createFresh _ _)
    ⟨d, depth, hgrasp, rfl, hstem, fun e => herr _, hok⟩

theorem conducts_discard {p : Path} (hp : p ∈ h.temps) {post : Unit → Hand → Prop}
    (hpost : post () (h.drop p)) : Program.Obeys (filing S may) post (Store.discard p) h := by
  rw [Store.discard, Program.obeys_bind]
  exact conducts_act (a := .removeFile p) ⟨hp, fun _ => Program.obeys_pure_of hpost⟩

/-- A fresh file with known contents, or none. -/
theorem conducts_writeFresh (hgrasp : h.grasp = .noted d depth) {stem : String} {bytes : Bytes}
    (hstem : Stem depth stem)
    (hnew : ∀ n, (S.store.entryDir d).child (stem ++ FileSystem.freshTail n) ∉ h.temps)
    {ok : Path → Hand → Prop}
    (hok : ∀ n p, p = (S.store.entryDir d).child (stem ++ FileSystem.freshTail n) →
      ok p ((h.take p).learn p.place bytes))
    (herr : ∀ e h', h.Like h' → err e h') :
    Task.Obeys (filing S may) ok err (Store.writeFresh (S.store.entryDir d) stem bytes) h := by
  rw [Store.writeFresh, Task.obeys_bind]
  refine conducts_createFresh hgrasp hstem (fun n => ?_) fun e => herr e h (Hand.Like.refl h)
  rw [Task.obeys_bind, Task.obeys_onFailure, obeys_attempt]
  refine conducts_act (a := .write _ _) ⟨Set.mem_insert _ _, fun e => ?_, ?_⟩
  · exact conducts_discard (Set.mem_insert _ _)
      (herr _ _ (Hand.like_of_take (hnew n) rfl rfl))
  · exact Task.obeys_pure_of (hok n _ rfl)

/-- Moving a fresh file to its place, or removing it. -/
theorem conducts_settle {temp : Path} {name : String} (htemp : temp ∈ h.temps)
    (hgrasp : h.grasp = .noted d depth) (hname : S.IsProduct depth name)
    {ok : Unit → Hand → Prop} (hok : ok () (h.publish temp ((S.store.entryDir d).child name)))
    (herr : ∀ e, err e (h.drop temp)) :
    Task.Obeys (filing S may) ok err
      (Store.settle temp ((S.store.entryDir d).child name)) h := by
  rw [Store.settle, Task.obeys_onFailure, obeys_attempt]
  refine conducts_act (a := .move _ _) ⟨htemp, ⟨d, depth, name, hgrasp, rfl, hname⟩,
    fun e => ?_, hok⟩
  exact conducts_discard htemp (herr _)

/-- Writing what is not a binary to its place. -/
theorem conducts_put {k : Artifact} {bytes : Bytes} (hk : k ≠ .binary)
    (hname : S.IsProduct Pipeline.translationDepth (S.store.fileName k))
    (hnoted : h.Only (.noted d Pipeline.translationDepth)) {ok : Path → Hand → Prop}
    (hok : ∀ h', h.Same h' → ok (S.store.path d k) h') (herr : ∀ e h', h.Like h' → err e h') :
    Task.Obeys (filing S may) ok err (S.store.put d k bytes) h := by
  have hnew (p : Path) : p ∉ h.temps := by simp [hnoted.temps]
  rw [Store.put, Task.obeys_bind]
  refine conducts_ensureEntryDir hnoted.grasp ?_ herr
  rw [Task.obeys_bind]
  refine conducts_writeFresh hnoted.grasp Site.scratch_put (fun n => hnew _) (fun n p hp => ?_) herr
  rw [Store.publish, if_neg hk, Task.obeys_bind]
  refine conducts_settle (h := (h.take p).learn p.place bytes) (Set.mem_insert p _) hnoted.grasp
    hname ?_ fun e => ?_
  · exact Task.obeys_pure_of (hok _ ⟨Hand.like_of_take (hnew p) rfl rfl, rfl⟩)
  · exact herr e _ (Hand.like_of_take (hnew p) rfl rfl)

/-- Recording the checksum of a fresh file. -/
theorem conducts_recordChecksum {n : Nat} {temp : Path}
    (htemp : temp = (S.store.entryDir d).child (".binary" ++ FileSystem.freshTail n))
    (hgrasp : h.grasp = .noted d Pipeline.compilationDepth) (htemps : h.temps = {temp})
    {ok : Unit → Hand → Prop}
    (hok : ∀ b h', h.Same h' → h'.known temp.place = some b →
      h'.known (S.store.sidecar d).place = some (Utf8.encode (Checksum.of b).toText) → ok () h')
    (herr : ∀ e h', h.Like h' → err e h') :
    Task.Obeys (filing S may) ok err (S.store.recordChecksum d temp) h := by
  have hsidecar := htemp ▸ reserved_place_ne_sidecar d n
  -- the two fresh files are different because their names start differently
  have hdifferent (k : Nat) :
      (S.store.entryDir d).child (".checksum" ++ FileSystem.freshTail k) ≠ temp := by
    intro heq
    have hplace := congrArg Path.place heq
    rw [htemp, Path.place_child (Site.scratch_checksum k).plain,
      Path.place_child (Site.scratch_reserved n).plain] at hplace
    exact not_isFresh (by decide) (by decide) (by decide)
      ⟨k, (S.entry_append_inj hplace).2.symm⟩
  have hnew (k : Nat) :
      (S.store.entryDir d).child (".checksum" ++ FileSystem.freshTail k) ∉ h.temps := by
    rw [htemps, Set.mem_singleton_iff]
    exact hdifferent k
  rw [Store.recordChecksum, Task.obeys_bind, obeys_attempt]
  refine conducts_read (Hand.steady_of_noted hgrasp) (fun b => ?_) (herr _ h (Hand.Like.refl h))
    fun e _ => herr _ _ h.like_fail
  have hread := h.same_learn temp.place b
  have hgrasp' := hread.grasp.trans hgrasp
  simp only [Task.Outcome, Task.obeys_bind]
  refine conducts_ensureEntryDir hgrasp' ?_ fun e h' hlike => herr e h' (hread.toLike.trans hlike)
  refine conducts_writeFresh hgrasp' Site.scratch_checksum hnew (fun k side hside => ?_)
    fun e h' hlike => herr e h' (hread.toLike.trans hlike)
  have hgone {h' : Hand} (hg : h'.grasp = h.grasp) (ht : h'.temps = (h.take side).temps \ {side}) :
      h.Like h' := Hand.like_of_take (hside ▸ hnew k) hg ht
  refine conducts_settle (h := ((h.learn temp.place b).take side).learn side.place _)
    (Set.mem_insert side _) hgrasp .sidecar ?_ fun e => herr e _ (hgone rfl rfl)
  refine hok b _ ⟨hgone rfl rfl, rfl⟩ ?_ ?_
  · have hside' : temp.place ≠ side.place := by
      rw [htemp, hside]
      refine child_place_ne (Site.scratch_reserved n).plain (Site.scratch_checksum k).plain ?_
      intro heq
      exact hdifferent k (by rw [htemp, heq])
    exact (Hand.publish_known_of_ne hside' hsidecar).trans
      ((Hand.learn_known_of_ne hside').trans Hand.learn_known_self)
  · exact Hand.publish_known_self.trans Hand.learn_known_self

/-- Publishing a fresh file as a binary, after its checksum. -/
theorem conducts_publishBinary {n : Nat} {temp : Path}
    (htemp : temp = (S.store.entryDir d).child (".binary" ++ FileSystem.freshTail n))
    (hgrasp : h.grasp = .noted d Pipeline.compilationDepth) (htemps : h.temps = {temp})
    {ok : Path → Hand → Prop}
    (hok : ∀ h', h'.Only (.noted d Pipeline.compilationDepth) → h'.failed = h.failed →
      h'.Verified S d → ok (S.store.path d .binary) h')
    (herr : ∀ e h', h'.Only (.noted d Pipeline.compilationDepth) → err e h') :
    Task.Obeys (filing S may) ok err (S.store.publish d .binary temp) h := by
  have hmem {h' : Hand} (hlike : h.Like h') : temp ∈ h'.temps := by
    rw [hlike.temps, htemps]
    rfl
  have hgone {h' h'' : Hand} (hlike : h.Like h') (hg : h''.grasp = h'.grasp)
      (ht : h''.temps = h'.temps \ {temp}) : h''.Only (.noted d Pipeline.compilationDepth) := by
    refine ⟨hg.trans (hlike.grasp.trans hgrasp), ?_⟩
    rw [ht, hlike.temps, htemps]
    simp
  rw [Store.publish, if_pos rfl, Task.obeys_bind, Task.obeys_onFailure]
  refine conducts_recordChecksum htemp hgrasp htemps (fun b h' hsame hb hrecord => ?_)
    fun e h' hlike => conducts_discard (hmem hlike) (herr e _ (hgone hlike rfl rfl))
  have hlike := hsame.toLike
  rw [Task.obeys_bind]
  refine conducts_settle (h := h') (hmem hlike) (hlike.grasp.trans hgrasp) .binary ?_
    fun e => herr e _ (hgone hlike rfl rfl)
  refine Task.obeys_pure_of (hok _ (hgone hlike rfl rfl) hsame.failed
    ⟨b, _, (Checksum.of b).toText.toList, ?_, ?_, Utf8.decode?_encode _, ?_⟩)
  · exact Hand.publish_known_self.trans hb
  · refine (Hand.publish_known_of_ne ?_ (binary_place_ne_sidecar d).symm).trans hrecord
    exact (htemp ▸ reserved_place_ne_sidecar d n).symm
  · rw [Checksum.trim_toText, String.ofList_toList]

end

/-! ### The pipeline -/

section

variable {S : Site} {may : Digest → Nat → Prop} {h : Hand} {d : Digest} {depth : Nat}
  {r : Request} {err : BuildError → Hand → Prop}

theorem conducts_files {α : Type} {ok : α → Hand → Prop} (t : FileTask CacheError α) :
    Task.Obeys (conduct S may) ok err (BuildTask.files t) =
      Task.Obeys (filing S may) ok (fun e => err (.ofCache e)) t :=
  BuildTask.obeys_files t

theorem conducts_quietly {post : Unit → Hand → Prop} (p : FileProgram Unit) :
    Program.Obeys (conduct S may) post (BuildTask.quietly p) =
      Program.Obeys (filing S may) post p :=
  BuildTask.obeys_quietly p

theorem conducts_buildAct {a : BuildAction} {post : a.Reply → Hand → Prop}
    (ha : (conduct S may).act a post h) :
    Program.Obeys (conduct S may) post (Program.act a) h :=
  Program.obeys_act_of ha

/-- Waiting for a lock with empty hands. -/
theorem conducts_wait (hempty : h.Empty) {ok : Unit → Hand → Prop} (hok : ok () h)
    (herr : ∀ e h', h.Like h' → err e h') :
    Task.Obeys (conduct S may) ok err ((r.pipeline S).wait d depth) h := by
  have hcheck {ok : Unit → Hand → Prop} (hok : ok () h) :
      Task.Obeys (filing S may) ok (fun e => err (.ofCache e)) (LockTable.checkDepth depth) h := by
    rw [LockTable.checkDepth]
    split
    · exact Task.obeys_pure_of hok
    · exact Task.obeys_throw_of (herr _ _ (Hand.Like.refl h))
  rw [Pipeline.wait, conducts_files]
  cases (r.pipeline S).timeout with
  | none =>
      dsimp only
      rw [LockTable.wait, Task.obeys_bind]
      exact hcheck (conducts_waitLoop hempty _ _ hok fun e => herr _)
  | some timeout =>
      dsimp only
      rw [LockTable.waitAtMost, Task.obeys_bind]
      refine hcheck ?_
      rw [Task.obeys_bind, Task.obeys_lift]
      exact conducts_act (a := .now) ⟨hempty, fun start =>
        conducts_waitAtMostLoop hempty _ _ _ _ hok fun e => herr _⟩

/-- Something done under a lock that was just taken: however it ends, the lock is given back. -/
theorem conducts_holding {α : Type} {body : BuildTask α} (hdepth : depth ≤ maxLockDepth)
    {ok : α → Hand → Prop}
    (hbody : Task.Obeys (conduct S may)
      (fun a h' => h'.Only (.noted d depth) ∧ ok a (h'.grasping .free))
      (fun _ h' => h'.Only (.noted d depth)) body h)
    (herr : ∀ e h', h'.Empty → err e h') :
    Task.Obeys (conduct S may) ok err ((r.pipeline S).holding d depth body) h := by
  rw [Pipeline.holding, Task.obeys_bind, Task.obeys_onFailure]
  refine Task.Obeys.mono mono_conduct (fun a h' hend => ?_) (fun e h' hend => ?_) hbody
  · rw [Task.obeys_bind, conducts_files]
    refine conducts_release hend.1 hdepth (Task.obeys_pure_of hend.2) fun e => ?_
    exact herr _ _ (hend.1.grasping .free)
  · rw [conducts_quietly]
    exact conducts_releaseQuietly hend hdepth (herr _ _ (hend.grasping .free))

/-! ### Translation -/

/-- Translating and publishing under the lock for translation. -/
theorem conducts_translateEntry {i : Identity} {job : Job} {source : Bytes}
    (hnoted : h.Only (.noted d Pipeline.translationDepth)) (hcalm : ¬h.failed) :
    Task.Obeys (conduct S may)
      (fun _ h' => h'.Only (.noted d Pipeline.translationDepth) ∧ ¬h'.failed)
      (fun _ h' => h'.Only (.noted d Pipeline.translationDepth))
      ((r.pipeline S).translateEntry i d job source) h := by
  rw [Pipeline.translateEntry, Task.obeys_bind, Task.obeys_mk]
  cases Pipeline.sourceText job source with
  | error e => exact Program.obeys_pure_of hnoted
  | ok text =>
      refine Program.obeys_pure_of ?_
      simp only [Task.Outcome, Task.obeys_bind, Task.obeys_lift]
      refine conducts_buildAct (a := .translate _) ⟨⟨d, hnoted.grasp⟩, hcalm,
        fun (t : Except TranslateError Translation) => ?_⟩
      cases t with
      | error e => exact Task.obeys_throw_of hnoted
      | ok t =>
          simp only [Task.obeys_bind, conducts_files]
          refine conducts_put (by decide) .manifest hnoted (fun h₁ hsame₁ => ?_)
            fun e h₁ hlike₁ => hlike₁.only hnoted
          have hnoted₁ := hsame₁.toLike.only hnoted
          refine conducts_put (by decide) .source hnoted₁ (fun h₂ hsame₂ => ?_)
            fun e h₂ hlike₂ => hlike₂.only hnoted₁
          refine Task.obeys_pure_of ⟨hsame₂.toLike.only hnoted₁, ?_⟩
          rwa [hsame₂.failed, hsame₁.failed]

/-- **Making sure of a translation**, in as many rounds as it takes. -/
theorem conducts_ensureTranslated (hempty : h.Empty) (hcalm : ¬h.failed)
    (hmay : may d Pipeline.translationDepth) {i : Identity} {job : Job} {source : Bytes}
    (rounds : Nat) {ok : Unit → Hand → Prop} (hok : ∀ h', h'.Empty → ¬h'.failed → ok () h')
    (herr : ∀ e h', h'.Empty → err e h') :
    Task.Obeys (conduct S may) ok err
      ((r.pipeline S).ensureTranslated i d job source rounds) h := by
  induction rounds with
  | zero => exact Task.obeys_stalled_of hempty
  | succ rounds ih =>
      have hfails (e : BuildError) (h' : Hand) (hlike : h.Like h') : err e h' :=
        herr e h' (hlike.only hempty)
      rw [Pipeline.ensureTranslated]
      simp only [Task.obeys_bind, conducts_files]
      refine conducts_contains (hempty.steady trivial) (fun b => ?_) fun e => hfails _
      cases b with
      | true => exact Task.obeys_pure_of (hok h hempty hcalm)
      | false =>
          simp only [Bool.false_eq_true, if_false, Task.obeys_bind, conducts_files]
          refine conducts_acquire hempty hmay ?_ ?_ fun e => hfails _
          · -- the lock is taken, and whichever way the second look goes it is given back
            have hnoted := hempty.grasping (.noted d Pipeline.translationDepth)
            refine conducts_holding (by decide) ?_ herr
            simp only [Task.obeys_bind, conducts_files]
            refine conducts_contains (hnoted.steady trivial) (fun b => ?_)
              fun e h' hlike => hlike.only hnoted
            cases b with
            | true => exact Task.obeys_pure_of ⟨hnoted, hok _ (hnoted.grasping .free) hcalm⟩
            | false =>
                exact Task.Obeys.mono mono_conduct
                  (fun _ h' hend => ⟨hend.1, hok _ (hend.1.grasping .free) hend.2⟩)
                  (fun _ _ => id) (conducts_translateEntry hnoted hcalm)
          · -- somebody else has it: the next round begins with empty hands, as this one did
            simp only [Bool.false_eq_true, if_false, Task.obeys_bind]
            exact conducts_wait hempty ih hfails

/-! ### Compilation -/

/-- Compiling and publishing under the lock for compilation. -/
theorem conducts_compileEntry {i : Identity} {job : Job}
    (hnoted : h.Only (.noted d Pipeline.compilationDepth)) (hcalm : ¬h.failed) :
    Task.Obeys (conduct S may)
      (fun _ h' => h'.Only (.noted d Pipeline.compilationDepth) ∧ ¬h'.failed ∧ h'.Verified S d)
      (fun _ h' => h'.Only (.noted d Pipeline.compilationDepth))
      ((r.pipeline S).compileEntry i d job) h := by
  rw [Pipeline.compileEntry, Task.obeys_bind, conducts_files, Store.reserve, Task.obeys_bind]
  refine conducts_ensureEntryDir hnoted.grasp ?_ fun e h' hlike => hlike.only hnoted
  refine conducts_createFresh hnoted.grasp Site.scratch_reserved (fun n => ?_) fun e => hnoted
  generalize htemp : (S.store.entryDir d).child (".binary" ++ FileSystem.freshTail n) = temp
  have htemps : (h.take temp).temps = {temp} := by simp [hnoted.temps]
  rw [Task.obeys_bind, Task.obeys_onFailure, Pipeline.compileTo, Task.obeys_bind, Task.obeys_lift]
  refine conducts_buildAct (a := .compile _ _) ⟨⟨d, hnoted.grasp⟩, Set.mem_insert _ _, hcalm,
    fun (t : Except DeviceError Unit) => ?_⟩
  cases t with
  | ok _ =>
      refine Task.obeys_pure_of ?_
      rw [conducts_files]
      exact conducts_publishBinary (h := (h.take temp).forget temp.place) htemp.symm hnoted.grasp
        htemps (fun h' hend hfailed hverified => ⟨hend, by rwa [hfailed], hverified⟩)
        fun e h' hend => hend
  | error e =>
      refine Task.obeys_throw_of ?_
      rw [conducts_quietly]
      refine conducts_discard (Set.mem_insert _ _) ⟨hnoted.grasp, ?_⟩
      rw [Hand.drop_temps, Hand.forget_temps, htemps]
      simp

/-- **Making sure of a binary**, in as many rounds as it takes. -/
theorem conducts_ensureCompiled (hempty : h.Empty) (hcalm : ¬h.failed)
    (hmay : may d Pipeline.compilationDepth) {i : Identity} {job : Job} (rounds : Nat)
    {ok : Path → Hand → Prop}
    (hok : ∀ binary h', h'.Empty → ¬h'.failed → h'.Verified S d → ok binary h')
    (herr : ∀ e h', h'.Empty → err e h') :
    Task.Obeys (conduct S may) ok err ((r.pipeline S).ensureCompiled i d job rounds) h := by
  induction rounds with
  | zero => exact Task.obeys_stalled_of hempty
  | succ rounds ih =>
      have hfails (e : BuildError) (h' : Hand) (hlike : h.Like h') : err e h' :=
        herr e h' (hlike.only hempty)
      rw [Pipeline.ensureCompiled]
      simp only [Task.obeys_bind, conducts_files]
      refine conducts_verified (hempty.steady trivial) ?_ (fun h₁ hsame hverified => ?_)
        fun e => hfails _
      · simp only [Task.obeys_bind, conducts_files]
        refine conducts_acquire hempty hmay ?_ ?_ fun e => hfails _
        · have hnoted := hempty.grasping (.noted d Pipeline.compilationDepth)
          refine conducts_holding (by decide) ?_ herr
          simp only [Task.obeys_bind, conducts_files]
          refine conducts_verified (hnoted.steady trivial) ?_ (fun h₁ hsame hverified => ?_)
            fun e h₁ hlike => hlike.only hnoted
          · exact Task.Obeys.mono mono_conduct
              (fun _ h' hend => ⟨hend.1, hok _ _ (hend.1.grasping .free) hend.2.1 hend.2.2⟩)
              (fun _ _ => id) (conducts_compileEntry hnoted hcalm)
          · have hend := hsame.toLike.only hnoted
            refine Task.obeys_pure_of ⟨hend, hok _ _ (hend.grasping .free) ?_ hverified⟩
            exact hsame.failed ▸ hcalm
        · simp only [Bool.false_eq_true, if_false, Task.obeys_bind]
          exact conducts_wait hempty ih hfails
      · exact Task.obeys_pure_of (hok _ h₁ (hsame.toLike.only hempty) (hsame.failed ▸ hcalm)
          hverified)

/-! ### Whole builds -/

/-- What is left when the binary is there: the manifest is read and the function loaded. -/
theorem conducts_conclude (hempty : h.Empty) (hcalm : ¬h.failed) {view : DeviceView} {job : Job}
    {binary : Path} {ok : Kernel → Hand → Prop}
    (hok : ∀ k h', h'.Empty → ¬h'.failed →
      (h.Verified S d → h'.Complete S d job.function) → ok k h')
    (herr : ∀ e h', h'.Empty → err e h') :
    Task.Obeys (conduct S may) ok err (do
      let m ← (r.pipeline S).readManifest d
      let l ← ExceptT.mk (pure (Pipeline.findKernel m job.function job.path))
      Pipeline.loadWith view binary job.function l) h := by
  rw [Task.obeys_bind, Pipeline.readManifest]
  simp only [Task.obeys_bind, conducts_files]
  refine conducts_get (hempty.steady trivial) (fun b => ?_)
    (Task.obeys_throw_of (herr _ h hempty))
    fun e h' hlike => herr _ h' (hlike.only hempty)
  have hempty₁ := (h.same_learn (S.store.path d .manifest).place b).toLike.only hempty
  simp only [Task.obeys_mk, Pipeline.parseManifest]
  cases hm : Manifest.ofBytes? b with
  | none => exact Program.obeys_pure_of (herr _ _ hempty₁)
  | some m =>
      refine Program.obeys_pure_of ?_
      simp only [Task.Outcome, Pipeline.findKernel]
      cases hl : m.kernels.get? job.function with
      | none => exact Program.obeys_pure_of (herr _ _ hempty₁)
      | some l =>
          refine Program.obeys_pure_of ?_
          simp only [Task.Outcome, Pipeline.loadWith, Task.obeys_bind, Task.obeys_lift]
          refine conducts_buildAct (a := .load _ _) ⟨hempty₁,
            fun (t : Except DeviceError Loaded) => ?_⟩
          cases t with
          | error e => exact Task.obeys_throw_of (herr _ _ hempty₁)
          | ok loaded =>
              refine Task.obeys_pure_of (hok _ _ hempty₁ hcalm fun hverified =>
                ⟨?_, b, m, l, Hand.learn_known_self, hm, hl⟩)
              obtain ⟨c, record, text, hc, hrecord, htext, hsum⟩ := hverified
              refine ⟨c, record, text, ?_, ?_, htext, hsum⟩
              · exact (Hand.learn_known_of_ne (manifest_place_ne_binary d).symm).trans hc
              · exact (Hand.learn_known_of_ne (manifest_place_ne_sidecar d).symm).trans hrecord

/-- **A build of a source that has been read.** -/
theorem conducts_buildFrom (hempty : h.Empty) (hcalm : ¬h.failed) (hmay : ∀ e k, may e k)
    (r : Request) {source : Bytes} {ok : Kernel → Hand → Prop}
    (hok : ∀ k h', h'.Empty → ¬h'.failed →
      h'.Complete S ((r.pipeline S).key r.view r.job source) r.job.function → ok k h')
    (herr : ∀ e h', h'.Empty → err e h') :
    Task.Obeys (conduct S may) ok err ((r.pipeline S).buildFrom r.view r.job source) h := by
  rw [Pipeline.buildFrom, Task.obeys_bind]
  refine conducts_ensureTranslated hempty hcalm (hmay _ _) _ (fun h₁ hempty₁ hcalm₁ => ?_) herr
  rw [Task.obeys_bind]
  refine conducts_ensureCompiled hempty₁ hcalm₁ (hmay _ _) _
    (fun binary h₂ hempty₂ hcalm₂ hverified => ?_) herr
  exact conducts_conclude hempty₂ hcalm₂
    (fun k h' hempty' hcalm' hcomplete => hok k h' hempty' hcalm' (hcomplete hverified)) herr

/-- **A whole build.** -/
theorem conducts_build (hempty : h.Empty) (hcalm : ¬h.failed) (hmay : ∀ e k, may e k)
    (r : Request) :
    Task.Obeys (conduct S may) (fun _ h' => h'.Empty ∧ ¬h'.failed) (fun _ h' => h'.Empty)
      ((r.pipeline S).build r.view r.job) h := by
  rw [Pipeline.build]
  split
  · rw [Task.obeys_bind]
    exact Task.obeys_throw_of hempty
  · rw [Task.obeys_bind, conducts_files, readBytes, obeys_attempt]
    refine conducts_read (hempty.steady trivial) (fun source => ?_) hempty
      fun e _ => h.like_fail.only hempty
    have hread := h.same_learn r.job.path.place source
    exact conducts_buildFrom (hread.toLike.only hempty) (hread.failed ▸ hcalm) hmay r
      (fun _ _ hend hcalm' _ => ⟨hend, hcalm'⟩) fun _ _ => id

/-- What is true of the hands of a build that is done: they are empty, and if it has its kernel it
has not failed to see anything. -/
abbrev Hand.Done : Except BuildError Kernel → Hand → Prop :=
  Task.Outcome (fun _ h => h.Empty ∧ ¬h.failed) fun _ h => h.Empty

theorem Hand.Done.empty {x : Except BuildError Kernel} (hdone : Hand.Done x h) : h.Empty := by
  cases x with
  | ok k => exact hdone.1
  | error e => exact hdone

/-- **What serves a request obeys the rule**, from empty hands to empty hands. -/
theorem conducts_program (r : Request) :
    Program.Obeys (conduct S fun _ _ => True) Hand.Done (r.program S) Hand.start :=
  conducts_build Hand.empty_start Hand.not_failed_start (fun _ _ => trivial) r

end

end KernelCache
