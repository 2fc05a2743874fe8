/-
**An entry is built at most once.**

Whoever calls the translator or the compiler holds the lock for it, and has seen under the lock that
there is no source, or no binary.  So no two calls for one digest overlap, none begins after
something has been published, and nothing that was published ever changes.

Main results:

* `Coherent.mayTranslate`, `Coherent.mayCompile` — what holds during a call;
* `built_at_most_once` — **at-most-once building, in every run**.
-/

import KernelCache.Proofs.Crew.Alone

set_option relaxedAutoImplicit false
set_option autoImplicit false

namespace KernelCache

variable {ι : Type} {C : Crew ι} {w w' w₀ : World ι} {i j : ι} {d : Digest}
  {owner : Digest → Nat → Option ι}

/-! ### During a call -/

/-- While a builder waits for the translator it holds the lock, and the entry has no source. -/
theorem Coherent.mayTranslate (h : Coherent C w owner) (hi : w.Translating C d i) :
    MayTranslate C i d (w.scene owner) := by
  obtain ⟨⟨b, hb, hkey⟩, r, next, hrest⟩ := hi
  have hcourse := h.course i
  rw [hrest] at hcourse
  obtain ⟨b', hb', hneeds⟩ := OnCourse.needs (a := .translate r) hcourse fun _ => by simp
  obtain rfl : b = b' := Option.some.inj (hb.symm.trans hb')
  exact hkey ▸ (hneeds _ (Later.refl h.sound)).1

/-- While a builder waits for the compiler it holds the lock, and the entry has no binary. -/
theorem Coherent.mayCompile (h : Coherent C w owner) (hi : w.Compiling C d i) :
    ∃ out, MayCompile C i d out (w.scene owner) := by
  obtain ⟨⟨b, hb, hkey⟩, src, out, next, hrest⟩ := hi
  have hcourse := h.course i
  rw [hrest] at hcourse
  obtain ⟨b', hb', hneeds⟩ := OnCourse.needs (a := .compile src out) hcourse fun _ => by simp
  obtain rfl : b = b' := Option.some.inj (hb.symm.trans hb')
  exact ⟨out, hkey ▸ (hneeds _ h.sound (Relies.refl _ i _)).1⟩

theorem Coherent.translating_unique (h : Coherent C w owner) (hi : w.Translating C d i)
    (hj : w.Translating C d j) : i = j :=
  Option.some.inj ((h.mayTranslate hi).owner.symm.trans (h.mayTranslate hj).owner)

theorem Coherent.compiling_unique (h : Coherent C w owner) (hi : w.Compiling C d i)
    (hj : w.Compiling C d j) : i = j := by
  obtain ⟨_, hmayi⟩ := h.mayCompile hi
  obtain ⟨_, hmayj⟩ := h.mayCompile hj
  exact Option.some.inj (hmayi.owner.symm.trans hmayj.owner)

/-! ### After publication -/

theorem World.MovedOnce.count_le {x : Place} (h : w.MovedOnce x) : w.moved.count x ≤ 1 := by
  rcases h with h | ⟨h, -⟩ <;> omega

/-- A builder that succeeds names the binary of its entry. -/
theorem Coherent.binary_eq (h : Coherent C w owner) {k : Kernel} (hi : w.Builds C d i)
    (hk : w.rest i = .done (.ok k)) : k.binary = C.site.store.path d .binary := by
  obtain ⟨b, hb, hkey⟩ := hi
  have hcourse := h.course i
  rw [hk, hb, OnCourse, Program.needs_done] at hcourse
  exact hkey ▸ Genuine.binary hcourse

section

variable [DecidableEq ι]

/-- What was published is there for ever, and the translator is not called again. -/
theorem Coherent.source_forever (h : Coherent C w owner) (hd : C.vacant d) {b : Bytes}
    (hb : w.Has (C.sourcePlace d) b) (hrun : Run C w w') :
    w'.Has (C.sourcePlace d) b ∧ ∀ i, ¬w'.Translating C d i := by
  obtain ⟨owner', h', hgrows⟩ := hrun.coherent h
  have hb' := hgrows.source d hd b hb
  exact ⟨hb', fun i hi => (h'.mayTranslate hi).absent hd b hb'⟩

theorem Coherent.binary_forever (h : Coherent C w owner) (hd : C.vacant d) {b : Bytes}
    (hb : w.Has (C.binaryPlace d) b) (hrun : Run C w w') :
    w'.Has (C.binaryPlace d) b ∧ ∀ i, ¬w'.Compiling C d i := by
  obtain ⟨owner', h', hgrows⟩ := hrun.coherent h
  have hb' := hgrows.binary d hd b hb
  refine ⟨hb', fun i hi => ?_⟩
  obtain ⟨_, hmay⟩ := h'.mayCompile hi
  exact hmay.absent hd b hb'

/-- **At-most-once building.**  However the steps of any number of builders interleave, and whatever
calls of the translator and the compiler fail: calls for one digest never overlap, none begins after
publication, a source and a binary are published at most once and never change, and every builder
that succeeds has the binary of the entry. -/
theorem built_at_most_once (hstart : w₀.Starts C) (hd : C.vacant d) (hrun : Run C w₀ w) :
    (∀ i j, w.Translating C d i → w.Translating C d j → i = j) ∧
      (∀ i j, w.Compiling C d i → w.Compiling C d j → i = j) ∧
      (∀ b w', w.Has (C.sourcePlace d) b → Run C w w' →
        w'.Has (C.sourcePlace d) b ∧ ∀ i, ¬w'.Translating C d i) ∧
      (∀ b w', w.Has (C.binaryPlace d) b → Run C w w' →
        w'.Has (C.binaryPlace d) b ∧ ∀ i, ¬w'.Compiling C d i) ∧
      w.moved.count (C.sourcePlace d) ≤ 1 ∧ w.moved.count (C.binaryPlace d) ≤ 1 ∧
      ∀ i k, w.Builds C d i → w.rest i = .done (.ok k) →
        k.binary = C.site.store.path d .binary := by
  obtain ⟨owner, h, -⟩ := hrun.coherent hstart.coherent
  obtain ⟨hsource, hbinary⟩ := h.moved d hd
  exact ⟨fun i j => h.translating_unique, fun i j => h.compiling_unique,
    fun b w' hb => h.source_forever hd hb, fun b w' hb => h.binary_forever hd hb,
    hsource.count_le, hbinary.count_le, fun i k => h.binary_eq⟩

end

/-- Of two builders one has built the kernel, and the other will call neither the translator nor the
compiler. -/
theorem pair_built_once : ∃ w, Run Crew.pair (World.start Crew.pair Crew.Pair.files) w ∧
    (∃ k, w.rest true = .done (.ok k)) ∧ ∀ w', Run Crew.pair w w' →
      ¬w'.Translating Crew.pair Crew.Pair.digest false ∧
      ¬w'.Compiling Crew.pair Crew.Pair.digest false := by
  obtain ⟨w, hrun, ⟨b, hb⟩, ⟨c, hc⟩, hk, -⟩ := Crew.Pair.exists_run
  obtain ⟨-, -, hsource, hbinary, -⟩ :=
    built_at_most_once (d := Crew.Pair.digest) Crew.Pair.starts trivial hrun
  refine ⟨w, hrun, hk, fun w' hrun' => ?_⟩
  exact ⟨(hsource b w' hb hrun').2 false, (hbinary c w' hc hrun').2 false⟩

end KernelCache
