/-
**What an entry says is what its source says.**

Builders who share an entry share everything that translation depends on, as long as no two of them
have the same digest for different components.  So whoever has written an entry, its source and
its manifest are what any of them would have got, and a kernel is the same whether it was built or
found.

Main definitions:

* `Crew.ingredients` — the components of a builder's key;
* `Crew.Faithful`, `World.Distinct` — the translator is the real one, and different components give
  different keys;
* `Crew.Fits`, `World.Exact` — kernels and entries as they should be.

Main results:

* `Coherent.exact`, `Coherent.fits` — an entry, and a kernel;
* `cache_exact` — **hits and fresh builds give what translating the source gives**.
-/

import KernelCache.Proofs.Crew.Alone
import KernelCache.Proofs.Kernel.Translation

set_option relaxedAutoImplicit false
set_option autoImplicit false

namespace KernelCache

section

variable {ι : Type}

/-- The components of a builder's key, when it has read a source. -/
def Crew.ingredients (C : Crew ι) (i : ι) (source : Bytes) : Ingredients :=
  (C.request i).ingredients source

/-- Calls of the translator are answered as translations are defined. -/
def Crew.Faithful (C : Crew ι) : Prop := ∀ r t, C.translates r t → translate r = t

/-- A kernel is what the translator makes of the source that its builder has read, for the function
that was asked for, and it is bound to the builder's device and to the binary of the entry. -/
def Crew.Fits (C : Crew ι) (i : ι) (source : Bytes) (k : Kernel) : Prop :=
  ∃ t : Translation,
    t.IsOf (C.request i).view.identity.backend (C.request i).job.flags source ∧
      ∃ l, t.kernels.get? (C.request i).job.function = some l ∧
        k = ⟨(C.request i).view.id, (C.request i).job.function,
          C.site.store.path (C.key i source) .binary, Loaded.ofLaunch l⟩

namespace World

variable (C : Crew ι) (w : World ι)

/-- Builders whose components differ have different keys. -/
def Distinct : Prop :=
  ∀ i j b b', w.source i = some b → w.source j = some b' → C.key i b = C.key j b' →
    C.ingredients i b = C.ingredients j b'

/-- The source of an entry, and the functions in its manifest, are what the translator makes of the
source that a builder has read, for its execution model and flags. -/
def Exact (d : Digest) (i : ι) (source b : Bytes) : Prop :=
  ∃ t : Translation,
    t.IsOf (C.request i).view.identity.backend (C.request i).job.flags source ∧
      b = Utf8.encode t.source ∧
      ∃ m man, w.Has (C.manifestPlace d) m ∧ Manifest.ofBytes? m = some man ∧
        man.kernels = t.kernels

end World

variable {C : Crew ι} {w w₀ : World ι} {i : ι} {d : Digest} {owner : Digest → Nat → Option ι}

/-- A call of the translator gives what every builder with the same components would get. -/
theorem isOf_of_ingredients_eq (hfaithful : C.Faithful)
    {c : Call ι} (hc : C.Answered c) {source : Bytes}
    (h : C.ingredients c.builder c.source = C.ingredients i source) :
    c.result.IsOf (C.request i).view.identity.backend (C.request i).job.flags source := by
  obtain ⟨text, htext, hanswer⟩ := hc
  have hsource : c.source = source := congrArg Ingredients.source h
  have hbackend : (C.request c.builder).view.identity.backend =
      (C.request i).view.identity.backend := congrArg Ingredients.backend h
  have hflags : (C.request c.builder).job.flags.prelude = (C.request i).job.flags.prelude :=
    congrArg Ingredients.flags h
  rw [← hbackend]
  exact Translation.isOf_of_translate (hfaithful _ _ hanswer) (hsource ▸ htext) hflags

/-- Calls and builders with one key have the same components. -/
theorem Coherent.ingredients_eq (h : Coherent C w owner) (hdistinct : w.Distinct C) {c : Call ι}
    (hc : c ∈ w.calls) {source : Bytes} (hi : w.source i = some source)
    (hkey : C.callKey c = C.key i source) :
    C.ingredients c.builder c.source = C.ingredients i source :=
  hdistinct c.builder i c.source source (h.source c hc) hi hkey

/-- Whoever has translated the source of an entry, it is exact for all builders of the entry. -/
theorem Coherent.exact (h : Coherent C w owner)
    (hfaithful : C.Faithful) (hdistinct : w.Distinct C)
    (hd : C.vacant d) {b source : Bytes} (hb : w.Has (C.sourcePlace d) b)
    (hi : w.source i = some source) (hkey : C.key i source = d) : w.Exact C d i source b := by
  obtain ⟨c, hc, hcall, hbytes, hmanifest⟩ := (h.sound.entry d hd).source b hb
  have hsame := h.ingredients_eq hdistinct hc hi (hcall.trans hkey.symm)
  exact ⟨c.result, isOf_of_ingredients_eq hfaithful (h.sound.calls c hc) hsame, hbytes, _, _,
    hmanifest, Manifest.ofBytes?_toBytes _, rfl⟩

/-- A builder that has succeeded has read a source. -/
theorem Coherent.source_of_ok (h : Coherent C w owner) {k : Kernel}
    (hk : w.rest i = .done (.ok k)) : ∃ source, w.source i = some source := by
  have hcourse := h.course i
  cases hi : w.source i with
  | some source => exact ⟨source, rfl⟩
  | none =>
      rw [hk, hi] at hcourse
      rcases hcourse with hdone | hdone | ⟨e, hdone, -⟩
      · rw [Crew.program_eq] at hdone
        split at hdone <;> cases hdone
      · cases hdone
      · cases hdone

/-- A kernel fits, whether its builder has translated the source or has found the entry. -/
theorem Coherent.fits (h : Coherent C w owner)
    (hfaithful : C.Faithful) (hdistinct : w.Distinct C)
    {source : Bytes} (hi : w.source i = some source) (hd : C.vacant (C.key i source)) {k : Kernel}
    (hk : w.rest i = .done (.ok k)) : C.Fits i source k := by
  have hcourse := h.course i
  rw [hk, hi, OnCourse, Program.needs_done] at hcourse
  obtain ⟨hdevice, hfunction, hbinary, hcall, -⟩ := hcourse
  obtain ⟨c, hc, hkey, l, hl, hloaded⟩ := hcall hd
  have hsame := h.ingredients_eq hdistinct hc hi hkey
  refine ⟨c.result, isOf_of_ingredients_eq hfaithful (h.sound.calls c hc) hsame, l, ?_, ?_⟩
  · rw [← hfunction]
    exact hl
  · cases k
    subst hdevice hfunction hbinary hloaded
    rfl

/-- **Hits and fresh builds give what translating the source gives.**  In every run that starts with
an empty cache and in which different components have different digests: an entry's source belongs
to a builder that has read one, and together with the manifest it is exact for every such builder;
and every kernel that a builder has fits the source that the builder has read. -/
theorem cache_exact [DecidableEq ι] (hstart : w₀.Starts C) (hvacant : ∀ d, C.vacant d)
    (hfaithful : C.Faithful) (hrun : Run C w₀ w)
    (hdistinct : w.Distinct C) :
    (∀ d b, w.Has (C.sourcePlace d) b →
      (∃ i source, w.source i = some source ∧ C.key i source = d) ∧
        ∀ i source, w.source i = some source → C.key i source = d → w.Exact C d i source b) ∧
      ∀ i k, w.rest i = .done (.ok k) →
        ∃ source, w.source i = some source ∧ C.Fits i source k := by
  obtain ⟨owner, h, -⟩ := hrun.coherent hstart.coherent
  refine ⟨fun d b hb => ⟨?_, fun i source hi hkey => ?_⟩, fun i k hk => ?_⟩
  · obtain ⟨c, hc, hkey, -⟩ := (h.sound.entry d (hvacant d)).source b hb
    exact ⟨c.builder, c.source, h.source c hc, hkey⟩
  · exact h.exact hfaithful hdistinct (hvacant d) hb hi hkey
  · obtain ⟨source, hi⟩ := h.source_of_ok hk
    exact ⟨source, hi, h.fits hfaithful hdistinct hi (hvacant _) hk⟩

end

/-- The kernel of one of two builders fits the source that it has read. -/
theorem pair_exact : ∃ w k source, Run Crew.pair (World.start Crew.pair Crew.Pair.files) w ∧
    w.rest true = .done (.ok k) ∧ w.source true = some source ∧ Crew.pair.Fits true source k ∧
    ∃ b, w.Has (Crew.pair.sourcePlace Crew.Pair.digest) b := by
  obtain ⟨w, hrun, hb, -, ⟨k, hk⟩, hnone⟩ := Crew.Pair.exists_run
  have hdistinct : w.Distinct Crew.pair := by
    intro i j b b' hi hj _
    cases i with
    | false =>
        rw [hnone] at hi
        cases hi
    | true =>
        cases j with
        | false =>
            rw [hnone] at hj
            cases hj
        | true => rw [Option.some.inj (hi.symm.trans hj)]
  obtain ⟨-, hkernels⟩ :=
    cache_exact Crew.Pair.starts (fun _ => trivial) (fun _ _ h => h) hrun hdistinct
  obtain ⟨source, hsource, hfits⟩ := hkernels true k hk
  exact ⟨w, k, source, hrun, hk, hsource, hfits, hb⟩

end KernelCache
