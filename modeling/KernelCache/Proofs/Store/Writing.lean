/-
**Writing entries at the bench.**

For each operation of the store that writes: what it makes of the bench, whether it succeeds or
fails.  Whatever happens, a fresh file that an operation makes for itself does not stay at hand, and
one that was given to it to be published does not, either.

Main results:

* `bench_createFresh`, `bench_discard`, `bench_settle` — fresh files;
* `bench_recordChecksum`, `bench_publish`, `bench_put`, `bench_reserve` — **writing entries**.
-/

import KernelCache.Proofs.Store.Bench

set_option relaxedAutoImplicit false
set_option autoImplicit false

namespace KernelCache

section

variable {S : Site} {may : Bench → Path → Option Bytes → Prop} {h : Bench} {d : Digest}
  {p q : Path} {v : Option Bytes} {err : CacheError → Bench → Prop}

theorem bench_act (a : Action) {post : a.Reply → Bench → Prop} (hact : benchAct S may a post h) :
    Program.Obeys (benching S may) post (Program.act a) h := Program.obeys_act_of hact

/-! ### Fresh files -/

theorem bench_ensureEntryDir (herr : ∀ e, err e h) {ok : Path → Bench → Prop}
    (hok : ok (S.store.entryDir d) h) :
    Task.Obeys (benching S may) ok err (S.store.ensureEntryDir d) h := by
  rw [Store.ensureEntryDir, Task.obeys_bind, obeys_attempt]
  have hmake (p : Path) : (benching S may).Still h (.makeDirectory p) := fun _ hpost => hpost
  have hlook (p : Path) : (benching S may).Still h (.look p) := fun _ hpost => hpost
  refine still_makeAll (fun p _ => ⟨hmake p, hlook p⟩) fun r => ?_
  cases r with
  | ok _ => exact Task.obeys_pure_of hok
  | error e => exact herr _

theorem bench_createFresh {stem : String} (hslash : '/' ∉ stem.toList)
    (hscratch : ∀ n, Site.IsScratch (Utf8.encode (stem ++ FileSystem.freshTail n)))
    (herr : ∀ e, err e h) {ok : Path → Bench → Prop}
    (hok : ∀ p, S.IsTemp p → h.temps p = none → ok p (h.set p (some (some [])))) :
    Task.Obeys (benching S may) ok err (Store.createFresh (S.store.entryDir d) stem) h := by
  rw [Store.createFresh, obeys_attempt]
  exact bench_act (.createFresh _ _) ⟨⟨d, rfl⟩, hslash, hscratch, fun e => herr _, hok⟩

/-- A fresh file that is given up is not at hand any more. -/
theorem bench_discard (hp : h.temps p ≠ none) {post : Unit → Bench → Prop}
    (hpost : post () (h.set p none)) :
    Program.Obeys (benching S may) post (Store.discard p) h := by
  rw [Store.discard, Program.obeys_bind]
  exact bench_act (.removeFile _) ⟨hp, fun r => Program.obeys_pure_of hpost⟩

/-- A fresh file is moved to its place, or it is given up. -/
theorem bench_settle (hp : h.temps p = some v) (hmay : may h q v) (hq : S.IsTarget q)
    (herr : ∀ e, err e (h.set p none)) {ok : Unit → Bench → Prop} (hok : ok () (h.move p q)) :
    Task.Obeys (benching S may) ok err (Store.settle p q) h := by
  have hhand : h.temps p ≠ none := by simp [hp]
  rw [Store.settle, Task.obeys_onFailure, obeys_attempt]
  exact bench_act (.move _ _) ⟨⟨v, hp, hmay⟩, hq, fun e => bench_discard hhand (herr _), hok⟩

theorem bench_writeFresh {stem : String} (hslash : '/' ∉ stem.toList)
    (hscratch : ∀ n, Site.IsScratch (Utf8.encode (stem ++ FileSystem.freshTail n)))
    (bytes : Bytes) (herr : ∀ e, err e h) {ok : Path → Bench → Prop}
    (hok : ∀ p, S.IsTemp p → h.temps p = none → ok p (h.set p (some (some bytes)))) :
    Task.Obeys (benching S may) ok err (Store.writeFresh (S.store.entryDir d) stem bytes) h := by
  rw [Store.writeFresh, Task.obeys_bind]
  refine bench_createFresh hslash hscratch herr fun p hp hfree => ?_
  rw [Task.obeys_bind, Task.obeys_onFailure, obeys_attempt]
  refine bench_act (.write _ _) ⟨by simp, ?_, fun e => ?_⟩
  · rw [Bench.set_set]
    exact Task.obeys_pure_of (hok p hp hfree)
  · -- whatever was written, the file is given up
    refine bench_discard (by simp) ?_
    rw [Bench.set_set, Bench.set_set, Bench.set_eq_self hfree]
    exact herr _

/-! ### Entries -/

theorem bench_reserve {k : Artifact} (herr : ∀ e, err e h) {ok : Path → Bench → Prop}
    (hok : ∀ p, S.IsTemp p → h.temps p = none → ok p (h.set p (some (some [])))) :
    Task.Obeys (benching S may) ok err (S.store.reserve d k) h := by
  rw [Store.reserve, Task.obeys_bind]
  refine bench_ensureEntryDir herr ?_
  exact bench_createFresh (by cases k <;> decide) (Store.isScratch_stem k) herr hok

/-- The checksum of a fresh file is recorded, or nothing has changed. -/
theorem bench_recordChecksum (hp : h.temps p = some v)
    (hmay : ∀ b h', (∀ c, v = some c → b = c) → h'.moved = h.moved →
      may h' (S.store.sidecar d) (some (Utf8.encode (Checksum.of b).toText)))
    (herr : ∀ e, err e h) {ok : Unit → Bench → Prop}
    (hok : ok () { h with moved := S.store.sidecar d :: h.moved }) :
    Task.Obeys (benching S may) ok err (S.store.recordChecksum d p) h := by
  rw [Store.recordChecksum, Task.obeys_bind, obeys_attempt]
  refine bench_act (.read _) ⟨fun e => herr _, fun b hb => ?_⟩
  rw [Task.Outcome, Task.obeys_bind]
  refine bench_ensureEntryDir herr ?_
  rw [Task.obeys_bind]
  refine bench_writeFresh (by decide) (fun n => (Site.scratch_checksum n).isScratch) _ herr
    fun side hside hfree => ?_
  have hread : ∀ c, v = some c → b = c := fun c hc => hb c (hc ▸ hp)
  refine bench_settle Bench.set_temps_self (hmay b _ hread rfl) (Site.isTarget_sidecar d) ?_ ?_
  · rw [Bench.set_set, Bench.set_eq_self hfree]
    exact herr
  · -- the bench is as before, but that something was moved
    have hmoved : (h.set side (some (some (Utf8.encode (Checksum.of b).toText)))).move side
        (S.store.sidecar d) = { h with moved := S.store.sidecar d :: h.moved } := by
      rw [Bench.move, Bench.set, Function.update_idem, ← hfree, Function.update_eq_self]
    exact hmoved ▸ hok

/-- **A fresh file that is published is not at hand any more**, whether this succeeds or fails. -/
theorem bench_publish {k : Artifact} (hp : h.temps p = some v)
    (hside : k = .binary → ∀ b h', (∀ c, v = some c → b = c) → h'.moved = h.moved →
      may h' (S.store.sidecar d) (some (Utf8.encode (Checksum.of b).toText)))
    (hmain : ∀ h', (k ≠ .binary → h'.moved = h.moved) →
      (k = .binary → h'.moved = S.store.sidecar d :: h.moved) → may h' (S.store.path d k) v)
    (herr : ∀ e h', h'.temps = (h.set p none).temps → err e h') {ok : Path → Bench → Prop}
    (hok : ∀ h', h'.temps = (h.set p none).temps → ok (S.store.path d k) h') :
    Task.Obeys (benching S may) ok err (S.store.publish d k p) h := by
  have hhand : h.temps p ≠ none := by simp [hp]
  rw [Store.publish]
  split
  · next hk =>
      rw [Task.obeys_bind, Task.obeys_onFailure]
      refine bench_recordChecksum hp (hside hk) (fun e => bench_discard hhand (herr _ _ rfl)) ?_
      have hrecorded :
          ({ h with moved := S.store.sidecar d :: h.moved } : Bench).temps p = some v := hp
      rw [Task.obeys_bind]
      exact bench_settle hrecorded (hmain _ (fun hne => absurd hk hne) fun _ => rfl)
        (Site.isTarget_path d k) (fun e => herr _ _ rfl) (Task.obeys_pure_of (hok _ rfl))
  · next hk =>
      simp only [Task.obeys_bind]
      exact bench_settle hp (hmain _ (fun _ => rfl) fun heq => absurd heq hk)
        (Site.isTarget_path d k) (fun e => herr _ _ rfl) (Task.obeys_pure_of (hok _ rfl))

/-- An artifact that is put leaves nothing at hand, whether this succeeds or fails. -/
theorem bench_put {k : Artifact} (bytes : Bytes)
    (hside : k = .binary → ∀ h', h'.moved = h.moved →
      may h' (S.store.sidecar d) (some (Utf8.encode (Checksum.of bytes).toText)))
    (hmain : ∀ h', (k ≠ .binary → h'.moved = h.moved) →
      (k = .binary → h'.moved = S.store.sidecar d :: h.moved) →
        may h' (S.store.path d k) (some bytes))
    (herr : ∀ e h', h'.temps = h.temps → err e h') {ok : Path → Bench → Prop}
    (hok : ∀ h', h'.temps = h.temps → ok (S.store.path d k) h') :
    Task.Obeys (benching S may) ok err (S.store.put d k bytes) h := by
  rw [Store.put, Task.obeys_bind]
  refine bench_ensureEntryDir (fun e => herr _ _ rfl) ?_
  rw [Task.obeys_bind]
  refine bench_writeFresh (by decide) (fun n => (Site.scratch_put n).isScratch) bytes
    (fun e => herr _ _ rfl) fun p hp hfree => ?_
  have hgone : ((h.set p (some (some bytes))).set p none).temps = h.temps := by
    rw [Bench.set_set, Bench.set_eq_self hfree]
  refine bench_publish Bench.set_temps_self (fun hk b h' hb hmoved => ?_) hmain
    (fun e h' htemps => herr e h' (htemps.trans hgone)) fun h' htemps => hok h' (htemps.trans hgone)
  obtain rfl := hb bytes rfl
  exact hside hk h' hmoved

end

end KernelCache
