/-
**What an attempt leaves in its entry.**

Wherever an attempt fails, its entry is as it was, but for a part of what a success would have
added: the manifest of the translation, the translated source, the checksum of the binary, and the
binary, in this order.  A failure to translate leaves no translated source.

Main definitions:

* `BuildError.isTranslation` — failures to translate;
* `Request.Translating`, `Request.Compiling` — what the two steps of an attempt may leave;
* `Request.Leaves`, `Request.Fails` — **what an attempt leaves**, and one that fails.

Main results:

* `sketch_ensureTranslated`, `sketch_ensureCompiled` — the two steps;
* `sketch_buildFrom` — **whole attempts**.
-/

import KernelCache.Proofs.Retry.Store

set_option relaxedAutoImplicit false
set_option autoImplicit false

namespace KernelCache

/-! ### Failures to translate -/

/-- Whether an error is a failure to translate. -/
def BuildError.isTranslation : BuildError → Bool
  | .translation _ _ _ => true
  | _ => false

@[simp] theorem BuildError.isTranslation_ofCache (e : CacheError) :
    (ofCache e).isTranslation = false := by
  cases e <;> rfl

@[simp] theorem BuildError.isTranslation_ofDevice (e : DeviceError) :
    (ofDevice e).isTranslation = false := by
  cases e <;> rfl

@[simp] theorem Pipeline.isTranslation_compileError (i : Identity) (job : Job) (e : DeviceError) :
    (compileError i job e).isTranslation = false := by
  cases e <;> rfl

/-! ### What is left -/

namespace Request

variable (r : Request) (S : Site) (binary? : Identity → Path → Bytes → Option Bytes)
  (source : Bytes)

/-- The manifest that a request writes for a translation. -/
def manifest (t : Translation) : Manifest := ⟨r.version, r.job.path.display, t.kernels⟩

/-- The files with the manifest of a translation. -/
def withManifest (t : Translation) (f : Files) : Files :=
  f.set (r.entry source) "manifest.json" (some (r.manifest t).toBytes)

/-- The files with a translation. -/
def withTranslation (t : Translation) (f : Files) : Files :=
  (r.withManifest source t f).set (r.entry source) S.sourceName (some (Utf8.encode t.source))

/-- The files with the checksum of a binary. -/
def withChecksum (b : Bytes) (f : Files) : Files :=
  f.set (r.entry source) "binary.xxh3" (some (Utf8.encode (Checksum.of b).toText))

/-- The files with a binary. -/
def withBinary (b : Bytes) (f : Files) : Files :=
  (r.withChecksum source b f).set (r.entry source) "binary" (some b)

/-- What an attempt to translate may leave of given files. -/
inductive Translating (f : Files) : Files → Prop where
  | nothing : Translating f f
  | manifest {t : Translation} (hnone : f (r.entry source) (Utf8.encode S.sourceName) = none)
      (ht : r.Translates source t) : Translating f (r.withManifest source t f)
  | source {t : Translation} (hnone : f (r.entry source) (Utf8.encode S.sourceName) = none)
      (ht : r.Translates source t) : Translating f (r.withTranslation S source t f)

/-- What an attempt to compile may leave of given files. -/
inductive Compiling (f : Files) : Files → Prop where
  | nothing : Compiling f f
  | checksum {text b : Bytes} (hnone : f (r.entry source) (Utf8.encode "binary") = none)
      (htext : f (r.entry source) (Utf8.encode S.sourceName) = some text)
      (hb : binary? r.view.identity (S.store.path (r.entry source) .source) text = some b) :
      Compiling f (r.withChecksum source b f)
  | binary {text b : Bytes} (hnone : f (r.entry source) (Utf8.encode "binary") = none)
      (htext : f (r.entry source) (Utf8.encode S.sourceName) = some text)
      (hb : binary? r.view.identity (S.store.path (r.entry source) .source) text = some b) :
      Compiling f (r.withBinary source b f)

/-- **What an attempt leaves.**  It holds no lock, and there is nothing of what could not be
produced. -/
structure Leaves (f : Files) (h : Sketch) : Prop where
  held : h.held = none
  files : ∃ f', r.Translating S source f f' ∧ r.Compiling S binary? source f' h.files
  lost : ∀ k, h.lost = some k →
    h.files (r.entry source) (Utf8.encode (S.store.fileName k)) = none

/-- What an attempt leaves that fails with an error.  If it could not translate, there is no
translated source. -/
structure Fails (f : Files) (e : BuildError) (h : Sketch) : Prop where
  leaves : r.Leaves S binary? source f h
  untranslated : e.isTranslation = true →
    h.files (r.entry source) (Utf8.encode S.sourceName) = none

end Request

theorem mono_sketchAct (S : Site) (a : Action) {post post' : a.Reply → Sketch → Prop} {h : Sketch}
    (hpost : ∀ r h, post r h → post' r h) (hact : sketchAct S a post h) :
    sketchAct S a post' h := by
  cases a with
  | look p => exact fun r hr => hpost _ _ (hact r hr)
  | read p => exact fun r hr => hpost _ _ (hact r hr)
  | names p => exact hact
  | makeDirectory p =>
      rcases hact with ⟨hway, hall⟩ | ⟨d, depth, hp, hheld, herr, hok⟩
      · exact Or.inl ⟨hway, fun r => hpost _ _ (hall r)⟩
      · exact Or.inr ⟨d, depth, hp, hheld, fun e => hpost _ _ (herr e), hpost _ _ hok⟩
  | removeDirectory p =>
      obtain ⟨d, depth, hp, hheld, hok⟩ := hact
      exact ⟨d, depth, hp, hheld, hpost _ _ hok⟩
  | createFresh dir stem =>
      obtain ⟨d, hdir, hstem, herr, hok⟩ := hact
      exact ⟨d, hdir, hstem, fun e => hpost _ _ (herr e), fun n hn => hpost _ _ (hok n hn)⟩
  | write p b =>
      obtain ⟨d, name, hp, hname, hok, herr, htorn⟩ := hact
      exact ⟨d, name, hp, hname, hpost _ _ hok, fun e => hpost _ _ (herr e),
        fun e b' => hpost _ _ (htorn e b')⟩
  | removeFile p =>
      obtain ⟨d, name, hp, hname, hall⟩ := hact
      exact ⟨d, name, hp, hname, fun r => hpost _ _ (hall r)⟩
  | move p q =>
      obtain ⟨d, name, other, b, hp, hq, hname, hother, hb, herr, hok⟩ := hact
      exact ⟨d, name, other, b, hp, hq, hname, hother, hb, fun e => hpost _ _ (herr e),
        hpost _ _ hok⟩
  | now => exact fun t => hpost _ _ (hact t)
  | sleep duration => exact hact
  | hold lock => exact hpost _ _ hact
  | letGo lock => exact hpost _ _ hact
  | held => exact hact

/-- Sketching asks less where less is to hold. -/
theorem mono_sketching (S : Site) (binary? : Identity → Path → Bytes → Option Bytes)
    (i : Identity) : (sketching S binary? i).Mono := by
  intro a post post' h hpost hact
  cases a with
  | file a => exact mono_sketchAct S a hpost hact
  | translate t =>
      obtain ⟨hlost, herr, hok⟩ := hact
      exact ⟨hlost, fun e => hpost _ _ (herr e), fun t' ht => hpost _ _ (hok t' ht)⟩
  | compile source output =>
      obtain ⟨hlost, d, name, text, old, hs, ho, hname, htext, hold, herr, hok⟩ := hact
      exact ⟨hlost, d, name, text, old, hs, ho, hname, htext, hold,
        fun e v => hpost _ _ (herr e v), fun b hb => hpost _ _ (hok b hb)⟩
  | load binary l => exact fun r => hpost _ _ (hact r)

section

variable {S : Site} {binary? : Identity → Path → Bytes → Option Bytes} {r : Request}
  {source : Bytes} {h : Sketch} {f : Files}

/-! ### Cache tasks in a build -/

theorem sketch_files {α : Type} {i : Identity} {ok : α → Sketch → Prop}
    {err : BuildError → Sketch → Prop} (t : FileTask CacheError α) :
    Task.Obeys (sketching S binary? i) ok err (BuildTask.files t) =
      Task.Obeys (sketchFiles S) ok (fun e => err (.ofCache e)) t :=
  BuildTask.obeys_files t

theorem sketch_quietly {i : Identity} {post : Unit → Sketch → Prop} (p : FileProgram Unit) :
    Program.Obeys (sketching S binary? i) post (BuildTask.quietly p) =
      Program.Obeys (sketchFiles S) post p :=
  BuildTask.obeys_quietly p

theorem sketch_request {i : Identity} (a : BuildAction) {post : a.Reply → Sketch → Prop}
    (hact : (sketching S binary? i).act a post h) :
    Program.Obeys (sketching S binary? i) post (Program.act a) h := Program.obeys_act_of hact

theorem sketch_pipelineWait {i : Identity} {d : Digest} (hfree : h.held = none) {depth : Nat}
    (hdepth : depth ≤ maxLockDepth) {ok : Unit → Sketch → Prop}
    {err : BuildError → Sketch → Prop} (herr : ∀ e, err (.ofCache e) h) (hok : ok () h) :
    Task.Obeys (sketching S binary? i) ok err ((r.pipeline S).wait d depth) h := by
  rw [Pipeline.wait, sketch_files]
  cases (r.pipeline S).timeout with
  | none => exact sketch_wait hfree hdepth herr hok _
  | some timeout => exact sketch_waitAtMost hfree hdepth herr hok _ _

/-- Something done under a lock that was just taken, which is given back in any case. -/
theorem sketch_holding {α : Type} {body : BuildTask α} {i : Identity} {d : Digest} {depth : Nat}
    (hdepth : depth ≤ maxLockDepth) {ok : α → Sketch → Prop} {err : BuildError → Sketch → Prop}
    (hbody : Task.Obeys (sketching S binary? i)
      (fun a h' => h'.held = some (d, depth) ∧ ok a { h' with held := none })
      (fun e h' => h'.held = some (d, depth) ∧ err e { h' with held := none }) body h) :
    Task.Obeys (sketching S binary? i) ok err ((r.pipeline S).holding d depth body) h := by
  rw [Pipeline.holding, Task.obeys_bind, Task.obeys_onFailure]
  refine Task.Obeys.mono (mono_sketching S binary? i) (fun a h' h₁ => ?_) (fun e h' h₁ => ?_) hbody
  · obtain ⟨hheld, hok⟩ := h₁
    rw [Task.obeys_bind, sketch_files]
    exact sketch_release hheld hdepth (Task.obeys_pure_of hok)
  · obtain ⟨hheld, herr⟩ := h₁
    rw [sketch_quietly]
    exact sketch_releaseQuietly hheld hdepth herr

/-- An attempt that has changed nothing leaves nothing. -/
theorem Request.leaves_nothing : r.Leaves S binary? source f ⟨none, f, none⟩ where
  held := rfl
  files := ⟨f, .nothing, .nothing⟩
  lost := by
    intro k hk
    cases hk

/-- An attempt that has failed otherwise leaves what any attempt may leave. -/
theorem Request.Leaves.fails {e : BuildError} (hleaves : r.Leaves S binary? source f h)
    (he : e.isTranslation = false) : r.Fails S binary? source f e h where
  leaves := hleaves
  untranslated := by
    intro htranslation
    cases he.symm.trans htranslation

/-! ### Translation -/

theorem sketch_translateEntry {held : Option (Digest × Nat)}
    (hnone : f (r.entry source) (Utf8.encode S.sourceName) = none)
    {ok : Unit → Sketch → Prop} {err : BuildError → Sketch → Prop}
    (hok : ∀ t, r.Translates source t → ok () ⟨held, r.withTranslation S source t f, none⟩)
    (herr : ∀ e f', r.Translating S source f f' → err (.ofCache e) ⟨held, f', none⟩)
    (hrefused : ∀ e lost, (∀ k, lost = some k → k = .source) → err e ⟨held, f, lost⟩) :
    Task.Obeys (sketching S binary? r.view.identity) ok err
      ((r.pipeline S).translateEntry r.view.identity (r.entry source) r.job source)
      ⟨held, f, none⟩ := by
  rw [Pipeline.translateEntry, Task.obeys_bind, Task.obeys_mk, Pipeline.sourceText]
  cases htext : Utf8.toString? source with
  | none => exact Program.obeys_pure_of (hrefused _ none fun k hk => by cases hk)
  | some text =>
      refine Program.obeys_pure_of ?_
      simp only [Task.Outcome, Task.obeys_bind, Task.obeys_lift]
      refine sketch_request (.translate (Pipeline.request r.view.identity r.job text))
        ⟨rfl, fun e => ?_, fun t ht => ?_⟩
      · exact Task.obeys_throw_of (hrefused _ (some .source) fun k hk => by cases hk; rfl)
      · have htranslates : r.Translates source t := ⟨text, htext, ht⟩
        simp only [Task.obeys_bind, sketch_files]
        refine sketch_put (by decide) _ (fun e => herr _ _ .nothing) ?_
        refine sketch_put (by decide) _ (fun e => herr _ _ (.manifest hnone htranslates)) ?_
        exact Task.obeys_pure_of (hok t htranslates)

/-- **Making sure of a translation.**  It is there afterwards, or a part of it. -/
theorem sketch_ensureTranslated (rounds : Nat) {ok : Unit → Sketch → Prop}
    {err : BuildError → Sketch → Prop}
    (hok : ∀ f', r.Translating S source f f' →
      f' (r.entry source) (Utf8.encode S.sourceName) ≠ none → ok () ⟨none, f', none⟩)
    (herr : ∀ e h, r.Fails S binary? source f e h → err e h) :
    Task.Obeys (sketching S binary? r.view.identity) ok err
      ((r.pipeline S).ensureTranslated r.view.identity (r.entry source) r.job source rounds)
      ⟨none, f, none⟩ := by
  have hself (e : CacheError) : err (.ofCache e) ⟨none, f, none⟩ :=
    herr _ _ (Request.leaves_nothing.fails (by simp))
  induction rounds with
  | zero =>
      rw [Pipeline.ensureTranslated]
      exact Task.obeys_stalled_of trivial
  | succ rounds ih =>
      rw [Pipeline.ensureTranslated]
      simp only [Task.obeys_bind, sketch_files]
      refine sketch_contains .source hself fun b hb => ?_
      cases b with
      | true =>
          have hthere : f (r.entry source) (Utf8.encode S.sourceName) ≠ none := by
            intro hnone
            cases hb.2 hnone
          exact Task.obeys_pure_of (hok _ .nothing hthere)
      | false =>
          have hnone : f (r.entry source) (Utf8.encode S.sourceName) = none := hb.1 rfl
          simp only [Bool.false_eq_true, if_false, Task.obeys_bind, sketch_files]
          refine sketch_acquire rfl (by decide) hself ?_ ?_
          · -- the lock is not taken; it is waited for, and all is tried again
            simp only [Bool.false_eq_true, if_false, Task.obeys_bind]
            exact sketch_pipelineWait rfl (by decide) hself ih
          · rw [if_pos rfl]
            refine sketch_holding (by decide) ?_
            simp only [Task.obeys_bind, sketch_files]
            refine sketch_contains .source (fun e => ⟨rfl, hself _⟩) fun b hb => ?_
            obtain rfl : b = false := hb.2 hnone
            simp only [Bool.false_eq_true, if_false]
            refine sketch_translateEntry hnone (fun t ht => ⟨rfl, ?_⟩)
              (fun e f' hf' => ⟨rfl, ?_⟩) fun e lost hlost => ⟨rfl, ?_⟩
            · have hthere : r.withTranslation S source t f (r.entry source)
                  (Utf8.encode S.sourceName) = some (Utf8.encode t.source) := Files.set_self
              refine hok _ (.source hnone ht) fun hmissing => ?_
              cases hthere.symm.trans hmissing
            · have hleaves : r.Leaves S binary? source f ⟨none, f', none⟩ :=
                ⟨rfl, ⟨f', hf', .nothing⟩, fun k hk => by cases hk⟩
              exact herr _ _ (hleaves.fails (by simp))
            · refine herr _ _ ⟨⟨rfl, ⟨f, .nothing, .nothing⟩, fun k hk => ?_⟩, fun _ => hnone⟩
              rw [hlost k hk]
              exact hnone

/-! ### Compilation -/

theorem sketch_compileEntry {held : Option (Digest × Nat)}
    (hthere : f (r.entry source) (Utf8.encode S.sourceName) ≠ none)
    (hnone : f (r.entry source) (Utf8.encode "binary") = none)
    {ok : Path → Sketch → Prop} {err : BuildError → Sketch → Prop}
    (hok : ∀ f', r.Compiling S binary? source f f' →
      f' (r.entry source) (Utf8.encode "binary") ≠ none →
      ok (S.store.path (r.entry source) .binary) ⟨held, f', none⟩)
    (herr : ∀ e f', r.Compiling S binary? source f f' → err (.ofCache e) ⟨held, f', none⟩)
    (hrefused : ∀ e, err (Pipeline.compileError r.view.identity r.job e)
      ⟨held, f, some .binary⟩) :
    Task.Obeys (sketching S binary? r.view.identity) ok err
      ((r.pipeline S).compileEntry r.view.identity (r.entry source) r.job) ⟨held, f, none⟩ := by
  rw [Pipeline.compileEntry, Task.obeys_bind, sketch_files]
  refine sketch_reserve (fun e => herr _ _ .nothing) fun n hfree => ?_
  have hscratch := Site.scratch_reserved n
  generalize ".binary" ++ FileSystem.freshTail n = temp at hfree hscratch ⊢
  have hname : Plain (Utf8.encode temp) := hscratch.plain
  have hnotSource : S.sourceName ≠ temp := by
    intro heq
    exact S.not_isScratch_sourceName (heq ▸ hscratch.isScratch)
  have hside : temp ≠ "binary.xxh3" := by
    intro heq
    exact Site.not_isScratch_sidecar (heq ▸ hscratch.isScratch)
  have hgone : f.set (r.entry source) temp none = f := Files.set_eq_self hfree
  obtain ⟨text, htext⟩ := Option.ne_none_iff_exists'.1 hthere
  simp only [Task.obeys_bind, Task.obeys_onFailure, Pipeline.compileTo, Task.obeys_lift]
  refine sketch_request (.compile _ _) ⟨rfl, r.entry source, temp, text, [], rfl, rfl, hname,
    (Files.set_of_name_ne hnotSource).trans htext, Files.set_self, fun e v => ?_, fun b hb => ?_⟩
  · refine Task.obeys_throw_of ?_
    rw [sketch_quietly]
    refine sketch_discard hname ?_
    simp only [Sketch.set, Sketch.lose, Files.set_set, hgone]
    exact hrefused _
  · refine Task.obeys_pure_of ?_
    rw [sketch_files]
    -- the checksum stays even if the binary is not published
    have hchecksum : ((f.set (r.entry source) temp (some b)).set (r.entry source) "binary.xxh3"
        (some (Utf8.encode (Checksum.of b).toText))).set (r.entry source) temp none =
          r.withChecksum source b f := by
      rw [Files.set_comm hside, Files.set_set]
      exact Files.set_eq_self ((Files.set_of_name_ne hside).trans hfree)
    refine sketch_publish_binary (b := b) hname hside Files.set_self (fun e => ?_) (fun e => ?_) ?_
    · simp only [Sketch.set, Files.set_set, hgone]
      exact herr _ _ .nothing
    · simp only [Sketch.set, Files.set_set, hchecksum]
      exact herr _ _ (.checksum hnone htext hb)
    · simp only [Sketch.set, Files.set_set, hchecksum]
      have hthere : r.withBinary source b f (r.entry source) (Utf8.encode "binary") = some b :=
        Files.set_self
      refine hok _ (.binary hnone htext hb) fun hmissing => ?_
      cases hthere.symm.trans hmissing

/-- **Making sure of a binary.**  It is there afterwards, or a part of it. -/
theorem sketch_ensureCompiled {f₀ : Files} (hf : r.Translating S source f₀ f)
    (hthere : f (r.entry source) (Utf8.encode S.sourceName) ≠ none) (rounds : Nat)
    {ok : Path → Sketch → Prop} {err : BuildError → Sketch → Prop}
    (hok : ∀ f', r.Compiling S binary? source f f' →
      f' (r.entry source) (Utf8.encode "binary") ≠ none →
      ok (S.store.path (r.entry source) .binary) ⟨none, f', none⟩)
    (herr : ∀ e h, r.Fails S binary? source f₀ e h → err e h) :
    Task.Obeys (sketching S binary? r.view.identity) ok err
      ((r.pipeline S).ensureCompiled r.view.identity (r.entry source) r.job rounds)
      ⟨none, f, none⟩ := by
  have hleaves {f' : Files} (hf' : r.Compiling S binary? source f f') :
      r.Leaves S binary? source f₀ ⟨none, f', none⟩ :=
    ⟨rfl, ⟨f, hf, hf'⟩, fun k hk => by cases hk⟩
  have hself (e : CacheError) : err (.ofCache e) ⟨none, f, none⟩ :=
    herr _ _ ((hleaves .nothing).fails (by simp))
  induction rounds with
  | zero =>
      rw [Pipeline.ensureCompiled]
      exact Task.obeys_stalled_of trivial
  | succ rounds ih =>
      rw [Pipeline.ensureCompiled]
      simp only [Task.obeys_bind, sketch_files]
      refine sketch_verified hself (fun hnone => ?_) fun hbinary =>
        Task.obeys_pure_of (hok _ .nothing hbinary)
      simp only [Task.obeys_bind, sketch_files]
      refine sketch_acquire rfl (by decide) hself ?_ ?_
      · simp only [Bool.false_eq_true, if_false, Task.obeys_bind]
        exact sketch_pipelineWait rfl (by decide) hself ih
      · rw [if_pos rfl]
        refine sketch_holding (by decide) ?_
        simp only [Task.obeys_bind, sketch_files]
        refine sketch_verified (fun e => ⟨rfl, hself _⟩) (fun _ => ?_) fun hbinary =>
          absurd hnone hbinary
        refine sketch_compileEntry hthere hnone (fun f' hf' hbinary => ⟨rfl, hok f' hf' hbinary⟩)
          (fun e f' hf' => ⟨rfl, herr _ _ ((hleaves hf').fails (by simp))⟩) fun e => ⟨rfl, ?_⟩
        have hlost : r.Leaves S binary? source f₀ ⟨none, f, some .binary⟩ := by
          refine ⟨rfl, ⟨f, hf, .nothing⟩, fun k hk => ?_⟩
          cases hk
          exact hnone
        exact herr _ _ (hlost.fails (by simp))

/-! ### Whole attempts -/

/-- Compiling leaves all other files of the entry alone. -/
theorem Request.Compiling.eq_of_name {f' : Files} (h : r.Compiling S binary? source f f')
    {name : String} (hside : name ≠ "binary.xxh3") (hbinary : name ≠ "binary") (d : Digest) :
    f' d (Utf8.encode name) = f d (Utf8.encode name) := by
  cases h with
  | nothing => rfl
  | checksum hnone htext hb => exact Files.set_of_name_ne hside
  | binary hnone htext hb =>
      rw [Request.withBinary, Files.set_of_name_ne hbinary]
      exact Files.set_of_name_ne hside

theorem sketch_readManifest {i : Identity} {d : Digest} {ok : Manifest → Sketch → Prop}
    {err : BuildError → Sketch → Prop} (herr : ∀ e, e.isTranslation = false → err e h)
    (hok : ∀ m, ok m h) :
    Task.Obeys (sketching S binary? i) ok err ((r.pipeline S).readManifest d) h := by
  rw [Pipeline.readManifest]
  simp only [Task.obeys_bind, sketch_files]
  refine sketch_get .manifest (fun e => herr _ (by simp)) ?_
  cases h.files d (Utf8.encode (S.store.fileName .manifest)) with
  | none => exact Task.obeys_throw_of (herr _ rfl)
  | some bytes =>
      dsimp only
      rw [Task.obeys_mk, Pipeline.parseManifest]
      cases Manifest.ofBytes? bytes with
      | none => exact Program.obeys_pure_of (herr _ rfl)
      | some m => exact Program.obeys_pure_of (hok m)

theorem sketch_loadWith {i : Identity} {binary : Path} {function : String} {l : Launch}
    {ok : Kernel → Sketch → Prop} {err : BuildError → Sketch → Prop}
    (herr : ∀ e, e.isTranslation = false → err e h) (hok : ∀ k, ok k h) :
    Task.Obeys (sketching S binary? i) ok err
      (Pipeline.loadWith r.view binary function l) h := by
  rw [Pipeline.loadWith, Task.obeys_bind, Task.obeys_lift]
  refine sketch_request (.load binary l) fun x => ?_
  cases x with
  | ok loaded => exact Task.obeys_pure_of (hok _)
  | error e => exact Task.obeys_throw_of (herr _ (by simp))

/-- **An attempt for a source that was read leaves no more than a part of what a success adds**, and
after a success the translation and the binary are there, after a failure to translate no translated
source. -/
theorem sketch_buildFrom : Task.Obeys (sketching S binary? r.view.identity)
    (fun _ h => r.Leaves S binary? source f h ∧
      h.files (r.entry source) (Utf8.encode S.sourceName) ≠ none ∧
      h.files (r.entry source) (Utf8.encode "binary") ≠ none)
    (fun e h => r.Fails S binary? source f e h) ((r.pipeline S).buildFrom r.view r.job source)
    ⟨none, f, none⟩ := by
  rw [Pipeline.buildFrom]
  simp only [r.key_eq, Task.obeys_bind]
  refine sketch_ensureTranslated _ (fun f₁ hf₁ hthere => ?_) fun e h hfails => hfails
  refine sketch_ensureCompiled hf₁ hthere _ (fun f₂ hf₂ hbinary => ?_) fun e h hfails => hfails
  have hleaves : r.Leaves S binary? source f ⟨none, f₂, none⟩ :=
    ⟨rfl, ⟨f₁, hf₁, hf₂⟩, fun k hk => by cases hk⟩
  have hsource : f₂ (r.entry source) (Utf8.encode S.sourceName) ≠ none := by
    rwa [hf₂.eq_of_name (S.sourceName_ne (by decide)) (S.sourceName_ne (by decide))]
  refine sketch_readManifest (fun e he => hleaves.fails he) fun m => ?_
  rw [Task.obeys_mk, Pipeline.findKernel]
  cases m.kernels.get? r.job.function with
  | none => exact Program.obeys_pure_of (hleaves.fails rfl)
  | some l =>
      exact Program.obeys_pure_of
        (sketch_loadWith (fun e he => hleaves.fails he) fun k => ⟨hleaves, hsource, hbinary⟩)

end

end KernelCache
