/-
**Builds, one at a time.**

A build that has the cache for itself comes to an end.  What it gives depends on the request, on the
source, and on what the entry of the request holds: a translation and a binary that it finds are
used, and what it does not find is made.

Main definitions:

* `Request.Finds`, `Request.Binds`, `Request.Loads` — the translation, the binary and the kernel;
* `Request.Gets`, `Request.Obtains` — **what a request gets from a cache**;
* `Ready` — the state of a cache between builds.

Main results:

* `Request.Gets.unique`, `Request.Obtains.unique` — a request gets one kernel at most;
* `solo_ensureTranslated`, `solo_ensureCompiled` — the two steps of a build;
* `solo_buildFrom`, `Toolkit.build_ready` — **whole builds**.
-/

import KernelCache.Proofs.Solo.Stock
import KernelCache.Proofs.Solo.Toolkit

set_option relaxedAutoImplicit false
set_option autoImplicit false

namespace KernelCache

/-! ### What a request gets -/

section

variable (r : Request) (T : Toolkit) (S : Site)
  (binary? : Identity → Path → Bytes → Option Bytes) (source : Bytes) (f : Files)

/-- The translation that a request finds in its entry, or that is made for it. -/
def Request.Finds (t : Translation) : Prop :=
  f.Translated S (r.entry source) t ∨
    f (r.entry source) (Utf8.encode S.sourceName) = none ∧ r.Translates source t

/-- The binary that a request finds in its entry, or that is made for it of a translation. -/
def Request.Binds (t : Translation) (b : Bytes) : Prop :=
  f (r.entry source) (Utf8.encode "binary") = some b ∨
    f (r.entry source) (Utf8.encode "binary") = none ∧
      binary? r.view.identity (S.store.path (r.entry source) .source) (Utf8.encode t.source) =
        some b

/-- The kernel that is loaded for a request, with the launch from a translation and from the file
with a binary. -/
def Request.Loads (t : Translation) (b : Bytes) (k : Kernel) : Prop :=
  ∃ l loaded, t.kernels.get? r.job.function = some l ∧
    (∃ fs : FileSystem, fs.readFile (S.store.path (r.entry source) .binary) = .ok b ∧
      T.load r.view.identity (S.store.path (r.entry source) .binary) l fs = .ok loaded) ∧
    k = ⟨r.view.id, r.job.function, S.store.path (r.entry source) .binary, loaded⟩

/-- **What a request for a source gets** where the entries hold given files. -/
def Request.Gets (k : Kernel) : Prop :=
  ∃ t b, r.Finds S source f t ∧ r.Binds S binary? source f t b ∧ r.Loads T S source t b k

/-- What a request gets if its device is open and its file can be read. -/
def Request.Obtains (fs : FileSystem) (k : Kernel) : Prop :=
  r.view.isOpen = true ∧ ∃ source, fs.readFile r.job.path = .ok source ∧
    r.Gets T S binary? source f k

/-- The state of a cache between builds. -/
def Ready (V : Supply) (fs : FileSystem) : Prop := ∃ f, Shows S none f fs ∧ f.Stocked S V

end

section

variable {T : Toolkit} {binary? : Identity → Path → Bytes → Option Bytes} {S : Site} {V : Supply}
  {r : Request} {source : Bytes} {f : Files} {fs : FileSystem} {s : Process}
  {t t' : Translation} {b b' : Bytes} {k k' : Kernel}

theorem Request.Finds.unique (h : r.Finds S source f t) (h' : r.Finds S source f t') : t = t' := by
  rcases h with htr | ⟨hnone, ht⟩
  · rcases h' with htr' | ⟨hnone', -⟩
    · exact htr.unique htr'
    · cases hnone'.symm.trans htr.source
  · rcases h' with htr' | ⟨-, ht'⟩
    · cases hnone.symm.trans htr'.source
    · exact ht.unique ht'

theorem Request.Binds.unique (h : r.Binds S binary? source f t b)
    (h' : r.Binds S binary? source f t b') : b = b' := by
  rcases h with hb | ⟨hnone, hb⟩
  · rcases h' with hb' | ⟨hnone', -⟩
    · exact Option.some.inj (hb.symm.trans hb')
    · cases hnone'.symm.trans hb
  · rcases h' with hb' | ⟨-, hb'⟩
    · cases hnone.symm.trans hb'
    · exact Option.some.inj (hb.symm.trans hb')

/-- A kernel can be loaded wherever its binary is. -/
theorem Request.Loads.load (hT : T.Deterministic binary?) (h : r.Loads T S source t b k)
    (hread : fs.readFile (S.store.path (r.entry source) .binary) = .ok b) :
    ∃ l loaded, t.kernels.get? r.job.function = some l ∧
      T.load r.view.identity (S.store.path (r.entry source) .binary) l fs = .ok loaded ∧
      k = ⟨r.view.id, r.job.function, S.store.path (r.entry source) .binary, loaded⟩ := by
  obtain ⟨l, loaded, hl, ⟨fs', hread', hload⟩, hk⟩ := h
  exact ⟨l, loaded, hl, (hT.loads (hread.trans hread'.symm)).trans hload, hk⟩

theorem Request.Loads.unique (hT : T.Deterministic binary?) (h : r.Loads T S source t b k)
    (h' : r.Loads T S source t b k') : k = k' := by
  obtain ⟨l, loaded, hl, ⟨fs, hread, hload⟩, rfl⟩ := h
  obtain ⟨l', loaded', hl', hload', rfl⟩ := h'.load hT hread
  obtain rfl := Option.some.inj (hl.symm.trans hl')
  rw [Except.ok.inj (hload.symm.trans hload')]

/-- A request gets one kernel at most. -/
theorem Request.Gets.unique (hT : T.Deterministic binary?) (h : r.Gets T S binary? source f k)
    (h' : r.Gets T S binary? source f k') : k = k' := by
  obtain ⟨t, b, ht, hb, hk⟩ := h
  obtain ⟨t', b', ht', hb', hk'⟩ := h'
  obtain rfl := ht.unique ht'
  obtain rfl := hb.unique hb'
  exact hk.unique hT hk'

theorem Request.Obtains.unique (hT : T.Deterministic binary?) (h : r.Obtains T S binary? f fs k)
    (h' : r.Obtains T S binary? f fs k') : k = k' := by
  obtain ⟨-, source, hsource, hk⟩ := h
  obtain ⟨-, source', hsource', hk'⟩ := h'
  obtain rfl := Except.ok.inj (hsource.symm.trans hsource')
  exact hk.unique hT hk'

/-! ### Locks -/

/-- Something done under a lock that was just taken, which is given back in any case. -/
theorem solo_holding {α : Type} {body : BuildTask α} {i : Identity} {d : Digest} {depth : Nat}
    (hdepth : depth ≤ maxLockDepth) {ok : α → Process → Prop} {err : BuildError → Process → Prop}
    (hbody : Task.Needs False (T.needs i)
      (fun a s₁ => ∃ f₁, Shows S (some (d, depth)) f₁ s₁.machine.files ∧
        ∀ s₂ : Process, Shows S none f₁ s₂.machine.files → ok a s₂)
      (fun e s₁ => ∃ f₁, Shows S (some (d, depth)) f₁ s₁.machine.files ∧
        ∀ s₂ : Process, Shows S none f₁ s₂.machine.files → err e s₂) body s) :
    Task.Needs False (T.needs i) ok err ((r.pipeline S).holding d depth body) s := by
  have hmono : ∀ (a : BuildAction) (k k' : a.Reply → Process → Prop) s, (∀ r s, k r s → k' r s) →
      T.needs i a k s → T.needs i a k' s := fun a k k' s h hk => h _ _ hk
  rw [Pipeline.holding, Task.needs_bind, Task.needs_onFailure]
  refine Task.Needs.mono hmono (fun a s₁ h₁ => ?_) (fun e s₁ h₁ => ?_) hbody
  · obtain ⟨f₁, hshows, hok⟩ := h₁
    rw [Task.needs_bind, solo_files]
    exact solo_release hshows hdepth fun s₂ h₂ => Task.needs_pure_of (hok s₂ h₂)
  · obtain ⟨f₁, hshows, herr⟩ := h₁
    rw [solo_quietly]
    exact solo_releaseQuietly hshows hdepth herr

/-! ### Translation -/

theorem solo_translateEntry {held : Option (Digest × Nat)} (h : Shows S held f s.machine.files)
    (hf : f.Stocked S V) (hr : r.Supplies S binary? source V)
    (hnone : f (r.entry source) (Utf8.encode S.sourceName) = none)
    {ok : Unit → Process → Prop} {err : BuildError → Process → Prop}
    (hok : ∀ t f₁ (s₁ : Process), r.Translates source t → f₁.Stocked S V →
      f₁.Translated S (r.entry source) t →
      f₁ (r.entry source) (Utf8.encode "binary") = f (r.entry source) (Utf8.encode "binary") →
      Shows S held f₁ s₁.machine.files → ok () s₁)
    (herr : ∀ e (s₁ : Process), Shows S held f s₁.machine.files →
      (∀ t, ¬r.Translates source t) → err e s₁) :
    Task.Needs False (T.needs r.view.identity) ok err ((r.pipeline S).translateEntry r.view.identity
      (r.entry source) r.job source) s := by
  rw [Pipeline.translateEntry, Task.needs_bind, Task.needs_mk, Pipeline.sourceText]
  cases htext : Utf8.toString? source with
  | none =>
      refine Program.needs_pure_of (herr _ s h fun t ht => ?_)
      obtain ⟨text, htext', -⟩ := ht
      cases htext.symm.trans htext'
  | some text =>
      refine Program.needs_pure_of ?_
      simp only [Task.Outcome, Task.needs_bind, Task.needs_lift]
      refine solo_request (.translate (Pipeline.request r.view.identity r.job text)) ?_
      simp only [Toolkit.perform]
      cases ht : translate (Pipeline.request r.view.identity r.job text) with
      | error e =>
          refine Task.needs_throw_of (herr _ s h fun t ht' => ?_)
          obtain ⟨text', htext', hok'⟩ := ht'
          obtain rfl := Option.some.inj (htext.symm.trans htext')
          cases ht.symm.trans hok'
      | ok t =>
          have htranslates : r.Translates source t := ⟨text, htext, ht⟩
          simp only [Task.needs_bind, solo_files]
          have hput (n : Nat) := hf.tidy (r.entry source) _ (Site.scratch_put n).isScratch
          have hside (n : Nat) := hf.tidy (r.entry source) _ (Site.scratch_checksum n).isScratch
          refine solo_put h .manifest hput hside _ fun s₁ h₁ => ?_
          refine solo_put h₁ .source (fun n => ?_) (fun n => ?_) _ fun s₂ h₂ => ?_
          · refine (Files.set_of_ne fun heq => ?_).trans (hput n)
            exact Site.not_isScratch_manifest (heq ▸ (Site.scratch_put n).isScratch)
          · refine (Files.set_of_ne fun heq => ?_).trans (hside n)
            exact Site.not_isScratch_manifest (heq ▸ (Site.scratch_checksum n).isScratch)
          · obtain ⟨hstocked, htranslated⟩ := hf.translate hnone (hr.translation t htranslates)
              (m := ⟨r.version, r.job.path.display, t.kernels⟩) rfl rfl
            refine Task.needs_pure_of (hok t _ s₂ htranslates hstocked htranslated ?_ h₂)
            exact (Files.set_of_name_ne (S.sourceName_ne (by decide)).symm).trans
              (Files.set_of_name_ne (by decide))

/-- **Making sure of a translation.**  It is there afterwards, unless there is none. -/
theorem solo_ensureTranslated (h : Shows S none f s.machine.files) (hf : f.Stocked S V)
    (hr : r.Supplies S binary? source V) (rounds : Nat)
    {ok : Unit → Process → Prop} {err : BuildError → Process → Prop}
    (hok : ∀ t f₁ (s₁ : Process), r.Finds S source f t → f₁.Stocked S V →
      f₁.Translated S (r.entry source) t →
      f₁ (r.entry source) (Utf8.encode "binary") = f (r.entry source) (Utf8.encode "binary") →
      Shows S none f₁ s₁.machine.files → ok () s₁)
    (herr : ∀ e (s₁ : Process), Shows S none f s₁.machine.files →
      (∀ t, ¬r.Finds S source f t) → err e s₁) :
    Task.Needs False (T.needs r.view.identity) ok err
      ((r.pipeline S).ensureTranslated r.view.identity (r.entry source) r.job source
        (rounds + 1)) s := by
  rw [Pipeline.ensureTranslated]
  simp only [Task.needs_bind, solo_files]
  refine solo_contains h .source ?_
  cases hsource : f (r.entry source) (Utf8.encode (S.store.fileName .source)) with
  | some b =>
      obtain ⟨t, -, htr⟩ := hf.translated _ b hsource
      exact Task.needs_pure_of (hok t f s (Or.inl htr) hf htr rfl h)
  | none =>
      simp only [Option.isSome_none, Bool.false_eq_true, if_false, Task.needs_bind, solo_files]
      refine solo_acquire h (by decide) fun s₁ h₁ => ?_
      refine solo_holding (by decide) ?_
      simp only [Task.needs_bind, solo_files]
      refine solo_contains h₁ .source ?_
      rw [hsource]
      refine solo_translateEntry h₁ hf hr hsource
        (fun t f₂ s₂ ht hf₂ htr hbinary h₂ => ⟨f₂, h₂, fun s₃ h₃ =>
          hok t f₂ s₃ (Or.inr ⟨hsource, ht⟩) hf₂ htr hbinary h₃⟩)
        fun e s₂ h₂ hrefused => ⟨f, h₂, fun s₃ h₃ => herr e s₃ h₃ fun t ht => ?_⟩
      rcases ht with htr | ⟨-, ht⟩
      · cases hsource.symm.trans htr.source
      · exact hrefused t ht

/-! ### Compilation -/

theorem solo_compileEntry (hT : T.Deterministic binary?) {held : Option (Digest × Nat)}
    (h : Shows S held f s.machine.files) (hf : f.Stocked S V)
    (hr : r.Supplies S binary? source V) (htr : f.Translated S (r.entry source) t)
    {ok : Path → Process → Prop} {err : BuildError → Process → Prop}
    (hok : ∀ b f₁ (s₁ : Process),
      binary? r.view.identity (S.store.path (r.entry source) .source) (Utf8.encode t.source) =
        some b → f₁.Stocked S V → f₁.Translated S (r.entry source) t →
      f₁ (r.entry source) (Utf8.encode "binary") = some b → Shows S held f₁ s₁.machine.files →
      ok (S.store.path (r.entry source) .binary) s₁)
    (herr : ∀ e (s₁ : Process),
      binary? r.view.identity (S.store.path (r.entry source) .source) (Utf8.encode t.source) =
        none → Shows S held f s₁.machine.files → err e s₁) :
    Task.Needs False (T.needs r.view.identity) ok err ((r.pipeline S).compileEntry r.view.identity
      (r.entry source) r.job) s := by
  rw [Pipeline.compileEntry, Task.needs_bind, solo_files]
  have hfree (n : Nat) := hf.tidy (r.entry source) _ (Site.scratch_reserved n).isScratch
  refine solo_reserve h .binary ⟨0, hfree 0⟩ fun n s₁ _ h₁ => ?_
  rw [Store.stem] at h₁ ⊢
  have hname := (Site.scratch_reserved n).plain
  have hnotSource : S.sourceName ≠ ".binary" ++ FileSystem.freshTail n := by
    intro heq
    exact S.not_isScratch_sourceName (heq ▸ (Site.scratch_reserved n).isScratch)
  have htext : (f.set (r.entry source) (".binary" ++ FileSystem.freshTail n) (some []))
      (r.entry source) (Utf8.encode S.sourceName) = some (Utf8.encode t.source) := by
    rw [Files.set_of_name_ne hnotSource, htr.source]
  have hside : ".binary" ++ FileSystem.freshTail n ≠ "binary.xxh3" := by
    intro heq
    exact Site.not_isScratch_sidecar (heq ▸ (Site.scratch_reserved n).isScratch)
  have hback : f.set (r.entry source) (".binary" ++ FileSystem.freshTail n) none = f :=
    Files.set_eq_self (hfree n)
  simp only [Task.needs_bind, Task.needs_onFailure, Pipeline.compileTo, Task.needs_lift]
  cases hb : binary? r.view.identity (S.store.path (r.entry source) .source)
      (Utf8.encode t.source) with
  | none =>
      refine solo_compile_error hT h₁ htext hname Files.set_self hb fun e v s₂ h₂ => ?_
      refine Task.needs_throw_of ?_
      rw [solo_quietly]
      refine solo_discard h₂ hname fun s₃ h₃ => herr _ s₃ hb ?_
      rwa [Files.set_set, Files.set_set, hback] at h₃
  | some b =>
      refine solo_compile_ok hT h₁ htext hname Files.set_self hb fun s₂ h₂ => ?_
      refine Task.needs_pure_of ?_
      rw [Files.set_set] at h₂
      rw [solo_files]
      refine solo_publish_binary h₂ hname hside Files.set_self (fun k => ?_) fun s₃ h₃ => ?_
      · refine (Files.set_of_ne fun heq => ?_).trans
          (hf.tidy _ _ (Site.scratch_checksum k).isScratch)
        exact not_isFresh (by decide) (by decide) (by decide) ⟨n, heq⟩
      · have hgone : (f.set (r.entry source) "binary.xxh3"
            (some (Utf8.encode (Checksum.of b).toText))).set (r.entry source)
            (".binary" ++ FileSystem.freshTail n) none = f.set (r.entry source)
            "binary.xxh3" (some (Utf8.encode (Checksum.of b).toText)) :=
          Files.set_eq_self ((Files.set_of_name_ne hside).trans (hfree n))
        rw [Files.set_comm hside, Files.set_set, hgone] at h₃
        obtain ⟨hstocked, htranslated⟩ :=
          hf.compile htr (hr.binary t b (hf.translation htr) hb) rfl
        exact hok b _ s₃ hb hstocked htranslated Files.set_self h₃

/-- **Making sure of a binary.**  It is there afterwards, unless the compiler makes none. -/
theorem solo_ensureCompiled (hT : T.Deterministic binary?) (h : Shows S none f s.machine.files)
    (hf : f.Stocked S V) (hr : r.Supplies S binary? source V)
    (htr : f.Translated S (r.entry source) t) (rounds : Nat)
    {ok : Path → Process → Prop} {err : BuildError → Process → Prop}
    (hok : ∀ b f₁ (s₁ : Process), r.Binds S binary? source f t b → f₁.Stocked S V →
      f₁.Translated S (r.entry source) t → f₁ (r.entry source) (Utf8.encode "binary") = some b →
      Shows S none f₁ s₁.machine.files → ok (S.store.path (r.entry source) .binary) s₁)
    (herr : ∀ e (s₁ : Process), (∀ b, ¬r.Binds S binary? source f t b) →
      Shows S none f s₁.machine.files → err e s₁) :
    Task.Needs False (T.needs r.view.identity) ok err
      ((r.pipeline S).ensureCompiled r.view.identity (r.entry source) r.job (rounds + 1)) s := by
  rw [Pipeline.ensureCompiled]
  simp only [Task.needs_bind, solo_files]
  cases hbinary : f (r.entry source) (Utf8.encode "binary") with
  | some b =>
      obtain ⟨hside, -⟩ := hf.binary htr hbinary
      exact solo_verified_some h hbinary hside
        (Task.needs_pure_of (hok b f s (Or.inl hbinary) hf htr hbinary h))
  | none =>
      refine solo_verified_none h hbinary ?_
      simp only [Task.needs_bind, solo_files]
      refine solo_acquire h (by decide) fun s₁ h₁ => ?_
      refine solo_holding (by decide) ?_
      simp only [Task.needs_bind, solo_files]
      refine solo_verified_none h₁ hbinary ?_
      refine solo_compileEntry hT h₁ hf hr htr
        (fun b f₂ s₂ hb hf₂ htr₂ hb₂ h₂ => ⟨f₂, h₂, fun s₃ h₃ =>
          hok b f₂ s₃ (Or.inr ⟨hbinary, hb⟩) hf₂ htr₂ hb₂ h₃⟩)
        fun e s₂ hnone h₂ => ⟨f, h₂, fun s₃ h₃ => herr e s₃ (fun b hb => ?_) h₃⟩
      rcases hb with hb | ⟨-, hb⟩
      · cases hbinary.symm.trans hb
      · cases hnone.symm.trans hb

/-! ### Loading -/

theorem solo_readManifest {held : Option (Digest × Nat)} {i : Identity} {d : Digest}
    (h : Shows S held f s.machine.files) (htr : f.Translated S d t) {ok : Manifest → Process → Prop}
    {err : BuildError → Process → Prop} (hok : ∀ m, m.kernels = t.kernels → ok m s) :
    Task.Needs False (T.needs i) ok err ((r.pipeline S).readManifest d) s := by
  obtain ⟨m, hm, hkernels⟩ := htr.manifest
  rw [Pipeline.readManifest]
  simp only [Task.needs_bind, solo_files]
  refine solo_get h .manifest ?_
  have hbytes : f d (Utf8.encode (S.store.fileName .manifest)) = some m.toBytes := hm
  rw [hbytes]
  simp only [Task.needs_mk, Pipeline.parseManifest, Manifest.ofBytes?_toBytes]
  exact Program.needs_pure_of (hok m hkernels)

/-- The last step of a build, when the translation and the binary are there: the kernel is loaded,
unless there is none. -/
theorem solo_loadKernel (hT : T.Deterministic binary?)
    (hbinary : s.machine.files.readFile (S.store.path (r.entry source) .binary) = .ok b)
    {m : Manifest} (hm : m.kernels = t.kernels) {ok : Kernel → Process → Prop}
    {err : BuildError → Process → Prop} (hok : ∀ k, r.Loads T S source t b k → ok k s)
    (herr : ∀ e, (∀ k, ¬r.Loads T S source t b k) → err e s) :
    Task.Needs False (T.needs r.view.identity) ok err (do
      let l ← ExceptT.mk (pure (Pipeline.findKernel m r.job.function r.job.path))
      Pipeline.loadWith r.view (S.store.path (r.entry source) .binary) r.job.function l) s := by
  rw [Task.needs_bind, Task.needs_mk, Pipeline.findKernel, hm]
  cases hl : t.kernels.get? r.job.function with
  | none =>
      refine Program.needs_pure_of (herr _ fun k hk => ?_)
      obtain ⟨l, loaded, hl', -⟩ := hk
      cases hl.symm.trans hl'
  | some l =>
      refine Program.needs_pure_of ?_
      simp only [Task.Outcome, Pipeline.loadWith, Task.needs_bind, Task.needs_lift]
      refine solo_request (.load (S.store.path (r.entry source) .binary) l) ?_
      simp only [Toolkit.perform]
      cases hload : T.load r.view.identity (S.store.path (r.entry source) .binary) l
          s.machine.files with
      | ok loaded =>
          exact Task.needs_pure_of
            (hok _ ⟨l, loaded, hl, ⟨s.machine.files, hbinary, hload⟩, rfl⟩)
      | error e =>
          refine Task.needs_throw_of (herr _ fun k hk => ?_)
          obtain ⟨l', loaded, hl', hload', -⟩ := hk.load hT hbinary
          obtain rfl := Option.some.inj (hl.symm.trans hl')
          cases hload.symm.trans hload'

/-! ### Whole builds -/

/-- **A whole build** of a source that was read gives the kernel that the request gets, and fails if
there is none.  After a success the translation is there for others. -/
theorem solo_buildFrom (hT : T.Deterministic binary?) (h : Shows S none f s.machine.files)
    (hf : f.Stocked S V) (hr : r.Supplies S binary? source V) (hpatience : 0 < r.patience) :
    Task.Needs False (T.needs r.view.identity)
      (fun k s₁ => Ready S V s₁.machine.files ∧
        (∃ b, s₁.machine.files.readFile (S.store.path (r.entry source) .source) = .ok b) ∧
        r.Gets T S binary? source f k)
      (fun _ s₁ => Ready S V s₁.machine.files ∧ ∀ k, ¬r.Gets T S binary? source f k)
      ((r.pipeline S).buildFrom r.view r.job source) s := by
  obtain ⟨rounds, hrounds⟩ := Nat.exists_eq_add_of_le' hpatience
  have hpatient : (r.pipeline S).patience = rounds + 1 := hrounds
  rw [Pipeline.buildFrom, hpatient]
  simp only [r.key_eq, Task.needs_bind]
  refine solo_ensureTranslated h hf hr rounds (fun t f₁ s₁ ht hf₁ htr₁ hsame h₁ => ?_)
    fun e s₁ h₁ hnone => ⟨⟨f, h₁, hf⟩, fun k hk => ?_⟩
  · -- translating has not touched the binary
    have hbinds (b : Bytes) :
        r.Binds S binary? source f₁ t b ↔ r.Binds S binary? source f t b := by
      rw [Request.Binds, Request.Binds, hsame]
    refine solo_ensureCompiled hT h₁ hf₁ hr htr₁ rounds (fun b f₂ s₂ hb hf₂ htr₂ hb₂ h₂ => ?_)
      fun e s₂ hnone h₂ => ⟨⟨f₁, h₂, hf₁⟩, fun k hk => ?_⟩
    · refine solo_readManifest h₂ htr₂ fun m hm => ?_
      have hready : Ready S V s₂.machine.files := ⟨f₂, h₂, hf₂⟩
      have hsource := h₂.readFile_some S.plain_sourceName htr₂.source
      have hbinary : s₂.machine.files.readFile (S.store.path (r.entry source) .binary) = .ok b :=
        h₂.readFile_some Site.plain_binary hb₂
      have hb₀ := (hbinds b).1 hb
      rw [← Task.needs_bind]
      refine solo_loadKernel hT hbinary hm
        (fun k hk => ⟨hready, ⟨_, hsource⟩, t, b, ht, hb₀, hk⟩) fun e hnone => ⟨hready, ?_⟩
      rintro k ⟨t', b', ht', hb', hk⟩
      obtain rfl := ht.unique ht'
      obtain rfl := hb₀.unique hb'
      exact hnone k hk
    · -- the compiler has refused the translation
      obtain ⟨t', b, ht', hb, -⟩ := hk
      obtain rfl := ht.unique ht'
      exact hnone b ((hbinds b).2 hb)
  · -- the translator has refused the source
    obtain ⟨t, -, ht, -⟩ := hk
    exact hnone t ht

theorem solo_build (hT : T.Deterministic binary?) (h : Shows S none f s.machine.files)
    (hf : f.Stocked S V) (hpatience : 0 < r.patience)
    (hr : ∀ source, s.machine.files.readFile r.job.path = .ok source →
      r.Supplies S binary? source V) :
    Task.Needs False (T.needs r.view.identity)
      (fun k s₁ => Ready S V s₁.machine.files ∧ r.Obtains T S binary? f s.machine.files k ∧
        ∀ source, s.machine.files.readFile r.job.path = .ok source → ∃ b,
          s₁.machine.files.readFile (S.store.path (r.entry source) .source) = .ok b)
      (fun _ s₁ => Ready S V s₁.machine.files ∧ ∀ k, ¬r.Obtains T S binary? f s.machine.files k)
      ((r.pipeline S).build r.view r.job) s := by
  have hready : Ready S V s.machine.files := ⟨f, h, hf⟩
  rw [Pipeline.build]
  cases hopen : r.view.isOpen with
  | false =>
      refine Task.needs_throw_of ⟨hready, fun k hk => ?_⟩
      cases hopen.symm.trans hk.1
  | true =>
      simp only [Bool.not_true, Bool.false_eq_true, if_false, Task.needs_bind, solo_files,
        readBytes, needs_attempt]
      refine solo_act (.read r.job.path) ?_
      simp only [Process.perform]
      cases hread : s.machine.files.readFile r.job.path with
      | error e =>
          refine ⟨hready, fun k hk => ?_⟩
          obtain ⟨-, source, hsource, -⟩ := hk
          cases hread.symm.trans hsource
      | ok source =>
          refine Task.Needs.mono (fun a k k' s hk => hk _ _) (fun k s₁ hk => ?_) (fun e s₁ he => ?_)
            (solo_buildFrom hT h hf (hr source hread) hpatience)
          · obtain ⟨hready₁, hthere, hgets⟩ := hk
            refine ⟨hready₁, ⟨hopen, source, hread, hgets⟩, fun source' hsource' => ?_⟩
            obtain rfl := Except.ok.inj hsource'
            exact hthere
          · refine ⟨he.1, fun k hk => ?_⟩
            obtain ⟨-, source', hsource', hgets⟩ := hk
            obtain rfl := Except.ok.inj (hread.symm.trans hsource')
            exact he.2 k hgets

/-- **A build comes to an end, gives what the request gets, and leaves the cache in order.**  After
a success the translation is there for others. -/
theorem Toolkit.build_ready (hT : T.Deterministic binary?) (h : Shows S none f s.machine.files)
    (hf : f.Stocked S V) (hpatience : 0 < r.patience)
    (hr : ∀ source, s.machine.files.readFile r.job.path = .ok source →
      r.Supplies S binary? source V) :
    ∃ x, (T.build S r s).1 = some x ∧ Ready S V (T.build S r s).2.machine.files ∧
      (∀ k, x = .ok k ↔ r.Obtains T S binary? f s.machine.files k) ∧
      ((∃ k, x = .ok k) → ∀ source, s.machine.files.readFile r.job.path = .ok source →
        ∃ b, (T.build S r s).2.machine.files.readFile
          (S.store.path (r.entry source) .source) = .ok b) := by
  obtain ⟨x, s₁, hrun, hx⟩ := Program.run_of_needs (solo_build hT h hf hpatience hr)
  rw [Toolkit.build, hrun]
  cases x with
  | ok k =>
      obtain ⟨hready, hk, hthere⟩ := hx
      refine ⟨.ok k, rfl, hready, fun k' => ⟨fun hk' => ?_, fun hk' => ?_⟩, fun _ => hthere⟩
      · exact Except.ok.inj hk' ▸ hk
      · rw [hk.unique hT hk']
  | error e =>
      obtain ⟨hready, hnone⟩ := hx
      refine ⟨.error e, rfl, hready, fun k => ⟨fun hk => ?_, fun hk => ?_⟩, fun hk => ?_⟩
      · cases hk
      · exact absurd hk (hnone k)
      · obtain ⟨k, hk⟩ := hk
        cases hk

end

end KernelCache
