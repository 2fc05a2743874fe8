/-
**Store and locks while things go wrong.**

For each operation of the store and of the locks: what it does to a sketch, whether it succeeds or
fails.  Fresh files never outlive the operation that has made them, so an operation that fails
leaves the entry as it was, but for the checksum of a binary that could not be published.

Main results:

* `sketch_contains`, `sketch_get`, `sketch_verified` — reading entries;
* `sketch_put`, `sketch_reserve`, `sketch_publish_binary` — **writing entries**;
* `sketch_acquire`, `sketch_release`, `sketch_wait` — locks.
-/

import KernelCache.Proofs.Retry.Sketch
import KernelCache.Proofs.Still

set_option relaxedAutoImplicit false
set_option autoImplicit false

namespace KernelCache

/-- The rule for what file operations do to a sketch. -/
def sketchFiles (S : Site) : Rule Action Action.Reply Sketch := ⟨sketchAct S, fun _ => True⟩

section

variable {S : Site} {h : Sketch} {d : Digest} {name other : String}
  {err : CacheError → Sketch → Prop}

theorem sketch_act (a : Action) {post : a.Reply → Sketch → Prop} (hact : sketchAct S a post h) :
    Program.Obeys (sketchFiles S) post (Program.act a) h := Program.obeys_act_of hact

/-! ### Reading -/

theorem sketch_look (p : Path) {post : Except Failure Node → Sketch → Prop}
    (hpost : ∀ r, h.Seen S p r → post r h) :
    Program.Obeys (sketchFiles S) post (Ask.look p) h := sketch_act (.look p) hpost

theorem sketch_read (p : Path) {post : Except Failure Bytes → Sketch → Prop}
    (hpost : ∀ r, h.Told S p r → post r h) :
    Program.Obeys (sketchFiles S) post (Ask.read p) h := sketch_act (.read p) hpost

theorem sketch_contains (k : Artifact) {ok : Bool → Sketch → Prop} (herr : ∀ e, err e h)
    (hok : ∀ b, (b = false ↔ h.files d (Utf8.encode (S.store.fileName k)) = none) → ok b h) :
    Task.Obeys (sketchFiles S) ok err (S.store.contains d k) h := by
  rw [Store.contains, Task.obeys_bind, Task.obeys_lift]
  refine sketch_look _ fun r hr => ?_
  cases r with
  | ok n =>
      have hthere := hr.there d _ n (S.plain_fileName k) rfl rfl
      exact Task.obeys_pure_of (hok true (by simp [hthere]))
  | error e =>
      cases e with
      | notFound =>
          have hnone := hr.missing d _ (S.plain_fileName k) rfl rfl
          exact Task.obeys_pure_of (hok false (by simp [hnone]))
      | _ => exact Task.obeys_throw_of (herr _)

theorem sketch_get (k : Artifact) {ok : Option Bytes → Sketch → Prop} (herr : ∀ e, err e h)
    (hok : ok (h.files d (Utf8.encode (S.store.fileName k))) h) :
    Task.Obeys (sketchFiles S) ok err (S.store.get d k) h := by
  rw [Store.get, Task.obeys_bind, Task.obeys_lift]
  refine sketch_read _ fun r hr => ?_
  cases r with
  | ok b =>
      rw [hr.there d _ b (S.plain_fileName k) rfl rfl] at hok
      exact Task.obeys_pure_of hok
  | error e =>
      cases e with
      | notFound =>
          rw [hr.missing d _ (S.plain_fileName k) rfl rfl] at hok
          exact Task.obeys_pure_of hok
      | _ => exact Task.obeys_throw_of (herr _)

theorem sketch_recordedChecksum {ok : String → Sketch → Prop} (herr : ∀ e, err e h)
    (hok : ∀ c, ok c h) : Task.Obeys (sketchFiles S) ok err (S.store.recordedChecksum d) h := by
  rw [Store.recordedChecksum, Task.obeys_bind, Task.obeys_lift]
  refine sketch_read _ fun r hr => ?_
  cases r with
  | ok b =>
      dsimp only
      split
      · exact Task.obeys_pure_of (hok _)
      · exact Task.obeys_throw_of (herr _)
  | error e => cases e <;> exact Task.obeys_throw_of (herr _)

theorem sketch_verified {ok : Option Path → Sketch → Prop} (herr : ∀ e, err e h)
    (hnone : h.files d (Utf8.encode "binary") = none → ok none h)
    (hsome : h.files d (Utf8.encode "binary") ≠ none → ok (some (S.store.path d .binary)) h) :
    Task.Obeys (sketchFiles S) ok err (S.store.verified d) h := by
  rw [Store.verified, Task.obeys_bind]
  refine sketch_get .binary herr ?_
  have hname : S.store.fileName .binary = "binary" := rfl
  rw [hname]
  cases hb : h.files d (Utf8.encode "binary") with
  | none => exact Task.obeys_pure_of (hnone hb)
  | some b =>
      simp only [Task.obeys_bind]
      refine sketch_recordedChecksum herr fun c => ?_
      split
      · exact Task.obeys_pure_of (hsome (by simp [hb]))
      · exact Task.obeys_throw_of (herr _)

/-! ### Directories -/

theorem sketch_makeAll {l : List Path} (hl : ∀ p ∈ l, Sketch.OnWay S p)
    {post : Except Failure Unit → Sketch → Prop} (hpost : ∀ r, post r h) :
    Program.Obeys (sketchFiles S) post (makeAll l) h := by
  have hmake : ∀ p ∈ l, (sketchFiles S).Still h (.makeDirectory p) := fun p hp post hpost =>
    Or.inl ⟨hl p hp, hpost⟩
  have hlook (p : Path) : (sketchFiles S).Still h (.look p) := fun post hpost r _ => hpost r
  exact still_makeAll (fun p hp => ⟨hmake p hp, hlook p⟩) hpost

theorem sketch_ensureEntryDir {ok : Path → Sketch → Prop} (herr : ∀ e, err e h)
    (hok : ok (S.store.entryDir d) h) :
    Task.Obeys (sketchFiles S) ok err (S.store.ensureEntryDir d) h := by
  rw [Store.ensureEntryDir, Task.obeys_bind, obeys_attempt]
  refine sketch_makeAll (fun p hp => Or.inl ⟨d, hp⟩) fun r => ?_
  cases r with
  | ok _ => exact Task.obeys_pure_of hok
  | error e => exact herr _

/-! ### Files -/

theorem sketch_createFresh {stem : String} (hstem : '/' ∉ stem.toList) (herr : ∀ e, err e h)
    {ok : Path → Sketch → Prop}
    (hok : ∀ n, h.files d (Utf8.encode (stem ++ FileSystem.freshTail n)) = none →
      ok ((S.store.entryDir d).child (stem ++ FileSystem.freshTail n))
        (h.set d (stem ++ FileSystem.freshTail n) (some []))) :
    Task.Obeys (sketchFiles S) ok err (Store.createFresh (S.store.entryDir d) stem) h := by
  rw [Store.createFresh, obeys_attempt]
  exact sketch_act (.createFresh _ _) ⟨d, rfl, hstem, fun e => herr _, hok⟩

/-- A fresh file that is given up is gone. -/
theorem sketch_discard (hname : Plain (Utf8.encode name)) {post : Unit → Sketch → Prop}
    (hpost : post () (h.set d name none)) :
    Program.Obeys (sketchFiles S) post (Store.discard ((S.store.entryDir d).child name)) h := by
  rw [Store.discard, Program.obeys_bind]
  exact sketch_act (.removeFile _) ⟨d, name, rfl, hname, fun r => Program.obeys_pure_of hpost⟩

/-- A file that is moved is at its new place, or it is gone. -/
theorem sketch_settle (hname : Plain (Utf8.encode name)) (hother : Plain (Utf8.encode other))
    {b : Bytes} (hb : h.files d (Utf8.encode name) = some b)
    (herr : ∀ e, err e (h.set d name none))
    {ok : Unit → Sketch → Prop} (hok : ok () ((h.set d name none).set d other (some b))) :
    Task.Obeys (sketchFiles S) ok err
      (Store.settle ((S.store.entryDir d).child name) ((S.store.entryDir d).child other)) h := by
  rw [Store.settle, Task.obeys_onFailure, obeys_attempt]
  exact sketch_act (.move _ _) ⟨d, name, other, b, rfl, rfl, hname, hother, hb,
    fun e => sketch_discard hname (herr _), hok⟩

theorem sketch_writeFresh {stem : String} (hstem : '/' ∉ stem.toList) (bytes : Bytes)
    (herr : ∀ e, err e h) {ok : Path → Sketch → Prop}
    (hok : ∀ n, h.files d (Utf8.encode (stem ++ FileSystem.freshTail n)) = none →
      ok ((S.store.entryDir d).child (stem ++ FileSystem.freshTail n))
        (h.set d (stem ++ FileSystem.freshTail n) (some bytes))) :
    Task.Obeys (sketchFiles S) ok err (Store.writeFresh (S.store.entryDir d) stem bytes) h := by
  rw [Store.writeFresh, Task.obeys_bind]
  refine sketch_createFresh hstem herr fun n hfree => ?_
  have hname := plain_temp hstem n
  -- whatever was written, it is gone after a failure
  have hgone (v : Option Bytes) : (h.set d (stem ++ FileSystem.freshTail n) v).set d
      (stem ++ FileSystem.freshTail n) none = h := by
    rw [Sketch.set_set, Sketch.set_eq_self hfree]
  rw [Task.obeys_bind, Task.obeys_onFailure, obeys_attempt]
  refine sketch_act (.write _ _) ⟨d, _, rfl, hname, ?_, fun e => ?_, fun e b' => ?_⟩
  · rw [Sketch.set_set]
    exact Task.obeys_pure_of (hok n hfree)
  · refine sketch_discard hname ?_
    rw [hgone]
    exact herr _
  · refine sketch_discard hname ?_
    rw [Sketch.set_set, hgone]
    exact herr _

/-! ### Writing entries -/

theorem sketch_reserve (herr : ∀ e, err e h) {ok : Path → Sketch → Prop}
    (hok : ∀ n, h.files d (Utf8.encode (".binary" ++ FileSystem.freshTail n)) = none →
      ok ((S.store.entryDir d).child (".binary" ++ FileSystem.freshTail n))
        (h.set d (".binary" ++ FileSystem.freshTail n) (some []))) :
    Task.Obeys (sketchFiles S) ok err (S.store.reserve d .binary) h := by
  rw [Store.reserve, Task.obeys_bind]
  refine sketch_ensureEntryDir herr ?_
  exact sketch_createFresh (by decide) herr hok

/-- An artifact that is put is there, or nothing has changed. -/
theorem sketch_put {k : Artifact} (hk : k ≠ .binary) (bytes : Bytes) (herr : ∀ e, err e h)
    {ok : Path → Sketch → Prop}
    (hok : ok (S.store.path d k) (h.set d (S.store.fileName k) (some bytes))) :
    Task.Obeys (sketchFiles S) ok err (S.store.put d k bytes) h := by
  rw [Store.put, Task.obeys_bind]
  refine sketch_ensureEntryDir herr ?_
  rw [Task.obeys_bind]
  refine sketch_writeFresh (by decide) bytes herr fun n hfree => ?_
  have hgone : (h.set d (".put" ++ FileSystem.freshTail n) (some bytes)).set d
      (".put" ++ FileSystem.freshTail n) none = h := by
    rw [Sketch.set_set, Sketch.set_eq_self hfree]
  rw [Store.publish, if_neg hk]
  dsimp only
  rw [Task.obeys_bind]
  refine sketch_settle (plain_temp (by decide) n) (S.plain_fileName k) Files.set_self ?_ ?_
  · rw [hgone]
    exact herr
  · rw [hgone]
    exact Task.obeys_pure_of hok

theorem sketch_recordChecksum (hname : Plain (Utf8.encode name)) {b : Bytes}
    (hb : h.files d (Utf8.encode name) = some b) (herr : ∀ e, err e h)
    {ok : Unit → Sketch → Prop}
    (hok : ok () (h.set d "binary.xxh3" (some (Utf8.encode (Checksum.of b).toText)))) :
    Task.Obeys (sketchFiles S) ok err
      (S.store.recordChecksum d ((S.store.entryDir d).child name)) h := by
  rw [Store.recordChecksum, Task.obeys_bind, obeys_attempt]
  refine sketch_read _ fun r hr => ?_
  cases r with
  | error e => exact herr _
  | ok c =>
      obtain rfl : b = c := Option.some.inj (hb.symm.trans (hr.there d name c hname rfl rfl))
      rw [Task.Outcome, Task.obeys_bind]
      refine sketch_ensureEntryDir herr ?_
      rw [Task.obeys_bind]
      refine sketch_writeFresh (by decide) _ herr fun n hfree => ?_
      have hgone (v : Option Bytes) : (h.set d (".checksum" ++ FileSystem.freshTail n) v).set d
          (".checksum" ++ FileSystem.freshTail n) none = h := by
        rw [Sketch.set_set, Sketch.set_eq_self hfree]
      refine sketch_settle (plain_temp (by decide) n) Site.plain_sidecar Files.set_self ?_ ?_
      · rw [hgone]
        exact herr
      · rw [hgone]
        exact hok

/-- A fresh file that is published as a binary is there with its checksum, or it is gone. -/
theorem sketch_publish_binary (hname : Plain (Utf8.encode name)) (hside : name ≠ "binary.xxh3")
    {b : Bytes} (hb : h.files d (Utf8.encode name) = some b)
    (herr : ∀ e, err e (h.set d name none))
    (herr' : ∀ e, err e ((h.set d "binary.xxh3"
      (some (Utf8.encode (Checksum.of b).toText))).set d name none))
    {ok : Path → Sketch → Prop}
    (hok : ok (S.store.path d .binary) (((h.set d "binary.xxh3"
      (some (Utf8.encode (Checksum.of b).toText))).set d name none).set d "binary" (some b))) :
    Task.Obeys (sketchFiles S) ok err
      (S.store.publish d .binary ((S.store.entryDir d).child name)) h := by
  rw [Store.publish, if_pos rfl, Task.obeys_bind, Task.obeys_onFailure]
  refine sketch_recordChecksum hname hb (fun e => sketch_discard hname (herr e)) ?_
  rw [Task.obeys_bind]
  have hb₁ : (h.set d "binary.xxh3" (some (Utf8.encode (Checksum.of b).toText))).files d
      (Utf8.encode name) = some b := (Files.set_of_name_ne hside).trans hb
  exact sketch_settle hname Site.plain_binary hb₁ herr' (Task.obeys_pure_of hok)

/-! ### Locks -/

/-- A lock is taken, or it is not, whatever the reason. -/
theorem sketch_acquire (hfree : h.held = none) {depth : Nat} (hdepth : depth ≤ maxLockDepth)
    (herr : ∀ e, err e h) {ok : Bool → Sketch → Prop} (hnot : ok false h)
    (hok : ok true { h with held := some (d, depth) }) :
    Task.Obeys (sketchFiles S) ok err (S.locks.acquire d depth) h := by
  rw [LockTable.acquire, LockTable.checkDepth, if_pos hdepth, Task.obeys_bind]
  refine Task.obeys_pure_of ?_
  rw [Task.obeys_bind, obeys_attempt]
  refine sketch_makeAll (fun p hp => Or.inr hp) fun r => ?_
  cases r with
  | error e => exact herr _
  | ok _ =>
      rw [Task.Outcome, Task.obeys_bind, Task.obeys_lift]
      refine sketch_act (.makeDirectory _) (Or.inr ⟨d, depth, rfl, hfree, fun e => ?_, ?_⟩)
      · cases e with
        | alreadyExists => exact Task.obeys_pure_of hnot
        | _ => exact Task.obeys_throw_of (herr _)
      · dsimp only
        rw [Task.obeys_bind, Task.obeys_lift]
        exact sketch_act (.hold _) (Task.obeys_pure_of hok)

/-- The lock that is held is given back. -/
theorem sketch_release {depth : Nat} (hheld : h.held = some (d, depth))
    (hdepth : depth ≤ maxLockDepth) {ok : Unit → Sketch → Prop}
    (hok : ok () { h with held := none }) :
    Task.Obeys (sketchFiles S) ok err (S.locks.release d depth) h := by
  rw [LockTable.release, LockTable.checkDepth, if_pos hdepth, Task.obeys_bind]
  refine Task.obeys_pure_of ?_
  rw [LockTable.releasePath, Task.obeys_bind, Task.obeys_lift]
  refine sketch_act (.letGo _) ?_
  rw [Task.obeys_bind, Task.obeys_lift]
  exact sketch_act (.removeDirectory _) ⟨d, depth, rfl, hheld, Task.obeys_pure_of hok⟩

theorem sketch_releaseQuietly {depth : Nat} (hheld : h.held = some (d, depth))
    (hdepth : depth ≤ maxLockDepth) {post : Unit → Sketch → Prop}
    (hpost : post () { h with held := none }) :
    Program.Obeys (sketchFiles S) post (S.locks.releaseQuietly d depth) h := by
  rw [LockTable.releaseQuietly, Program.obeys_bind, Task.obeys_run]
  exact sketch_release hheld hdepth (Program.obeys_pure_of hpost)

/-- A lock that nobody holds is never seen. -/
theorem sketch_present (hfree : h.held = none) {depth : Nat} (herr : ∀ e, err e h)
    {ok : Bool → Sketch → Prop} (hok : ok false h) :
    Task.Obeys (sketchFiles S) ok err (LockTable.present (S.locks.path d depth)) h := by
  rw [LockTable.present, Task.obeys_bind, Task.obeys_lift]
  refine sketch_look _ fun r hr => ?_
  cases r with
  | ok n => exact absurd rfl (hr.free hfree d depth n rfl)
  | error e =>
      cases e with
      | notFound => exact Task.obeys_pure_of hok
      | _ => exact Task.obeys_throw_of (herr _)

/-- Waiting for a lock that nobody holds comes to an end at once. -/
theorem sketch_wait (hfree : h.held = none) {depth : Nat} (hdepth : depth ≤ maxLockDepth)
    (herr : ∀ e, err e h) {ok : Unit → Sketch → Prop} (hok : ok () h) (polls : Nat) :
    Task.Obeys (sketchFiles S) ok err (S.locks.wait d depth polls) h := by
  rw [LockTable.wait, LockTable.checkDepth, if_pos hdepth, Task.obeys_bind]
  refine Task.obeys_pure_of ?_
  cases polls with
  | zero => exact Task.obeys_stalled_of trivial
  | succ polls =>
      rw [LockTable.waitLoop, Task.obeys_bind]
      refine sketch_present hfree herr ?_
      exact Task.obeys_pure_of hok

theorem sketch_waitAtMost (hfree : h.held = none) {depth : Nat} (hdepth : depth ≤ maxLockDepth)
    (herr : ∀ e, err e h) {ok : Unit → Sketch → Prop} (hok : ok () h) (timeout polls : Nat) :
    Task.Obeys (sketchFiles S) ok err (S.locks.waitAtMost d depth timeout polls) h := by
  rw [LockTable.waitAtMost, LockTable.checkDepth, if_pos hdepth, Task.obeys_bind]
  refine Task.obeys_pure_of ?_
  rw [Task.obeys_bind, Task.obeys_lift]
  refine sketch_act .now fun (start : Nat) => ?_
  cases polls with
  | zero => exact Task.obeys_stalled_of trivial
  | succ polls =>
      rw [LockTable.waitAtMostLoop, Task.obeys_bind]
      refine sketch_present hfree herr ?_
      exact Task.obeys_pure_of hok

end

end KernelCache
