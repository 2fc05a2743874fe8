/-
**A build does what it may.**

Step by step through a build: it calls the translator only under the lock for translation and only
while there is no source, the compiler only under the lock for compilation and only while there is
no binary, and it publishes only over nothing.  What it returns at the end comes from a call of the
translator for its own key.

Main definitions:

* `BuildError.IsChecksumFailure` — failures because of a checksum;
* `Genuine`, `Blameless`, `Settles` — what holds of the result of a build.

Main results:

* `needs_translateEntry`, `needs_compileEntry` — producing and publishing;
* `needs_ensureTranslated`, `needs_ensureCompiled` — the two steps, with all their rounds;
* `needs_buildFrom` — **a whole build**.
-/

import KernelCache.Proofs.Crew.Publish
import KernelCache.Proofs.Kernel.Manifest

set_option relaxedAutoImplicit false
set_option autoImplicit false

namespace KernelCache

/-- Whether a build has failed because a checksum is missing or does not fit. -/
def BuildError.IsChecksumFailure : BuildError → Prop
  | .cache e => e.IsChecksumFailure
  | _ => False

theorem BuildError.isChecksumFailure_ofCache {e : CacheError}
    (h : (BuildError.ofCache e).IsChecksumFailure) : e.IsChecksumFailure := by
  cases e <;> exact h

theorem BuildError.not_isChecksumFailure_ofDevice (e : DeviceError) :
    ¬(BuildError.ofDevice e).IsChecksumFailure := by
  cases e <;> exact id

section

variable {ι : Type} (C : Crew ι) (me : ι) (source : Bytes)

/-- A failure is not one of a checksum, if the builder's entry was vacant. -/
def Blameless (e : BuildError) (_ : Scene ι) : Prop :=
  C.vacant (C.key me source) → ¬e.IsChecksumFailure

/-- A kernel is bound to the builder's device and to the binary of its entry.  If the entry was
vacant, the kernel comes from a call of the translator for its key, and the entry is complete. -/
structure Genuine (k : Kernel) (s : Scene ι) : Prop where
  device : k.device = (C.request me).view.id
  function : k.function = (C.request me).job.function
  binary : k.binary = C.site.store.path (C.key me source) .binary
  call : C.vacant (C.key me source) → ∃ c ∈ s.calls, C.callKey c = C.key me source ∧
    ∃ l, c.result.kernels.get? k.function = some l ∧ k.loaded = Loaded.ofLaunch l
  complete : C.vacant (C.key me source) → Complete C s (C.key me source)

/-- What holds of the result of a build. -/
def Settles : Except BuildError Kernel → Scene ι → Prop :=
  Task.Outcome (Genuine C me source) (Blameless C me source)

end

section

variable {ι : Type} {C : Crew ι} {me : ι} {s s' : Scene ι} {source : Bytes}

/-! ### Actions of a build -/

theorem needs_files {α : Type} {ok : α → Scene ι → Prop} {err : BuildError → Scene ι → Prop}
    (t : FileTask CacheError α) :
    Task.Needs True (buildNeeds C me source) ok err (BuildTask.files t) =
      Task.Needs True (fileNeeds C me) ok (fun e => err (.ofCache e)) t :=
  BuildTask.needs_files (fun _ => rfl) t

theorem needs_quietly {post : Unit → Scene ι → Prop} (p : FileProgram Unit) :
    Program.Needs True (buildNeeds C me source) post (BuildTask.quietly p) =
      Program.Needs True (fileNeeds C me) post p :=
  BuildTask.needs_quietly (fun _ => rfl) p

/-- A successful call of the translator is a fair change. -/
theorem fair_record {c : Call ι} (hs : Sound C s) (hc : C.Answered c) (i : ι) :
    Fair C i s (s.record c) := by
  have hsub : s.calls ⊆ (s.record c).calls := List.subset_append_left s.calls [c]
  have hgrows : Grows C s (s.record c) := .of_machine_eq rfl hsub
  refine ⟨⟨hs.due, fun c' hc' => ?_, hs.lock, hs.aside, fun e he => ?_⟩, hgrows, fun j _ =>
    ⟨hgrows, fun _ _ => Iff.rfl, fun _ _ _ _ _ _ _ => Iff.rfl⟩⟩
  · rcases List.mem_append.1 hc' with h | h
    · exact hs.calls c' h
    · exact List.mem_singleton.1 h ▸ hc
  · have hes := hs.entry e he
    refine ⟨hes.isOpen, fun b hb => ?_, fun b hb => ?_, hes.binary⟩
    · obtain ⟨c', hc', hrest⟩ := hes.source b hb
      exact ⟨c', hsub hc', hrest⟩
    · obtain ⟨c', hc', hrest⟩ := hes.manifest b hb
      exact ⟨c', hsub hc', hrest⟩

theorem needs_of_buildNeeds {a : BuildAction} {post : a.Reply → Scene ι → Prop}
    (h : buildNeeds C me source a post s) :
    Program.Needs True (buildNeeds C me source) post (Program.act a) s := by
  rw [Program.needs_act]
  exact h

theorem needs_translate {text : String}
    {post : Except TranslateError Translation → Scene ι → Prop}
    (htext : Utf8.toString? source = some text)
    (hmay : ∀ s₁, Later C me s s₁ → MayTranslate C me (C.key me source) s₁)
    (herror : ∀ e s₁, Later C me s s₁ → post (.error e) s₁)
    (hok : ∀ t s₁, Later C me s s₁ → C.translates (C.asks me text) (.ok t) →
      post (.ok t) (s₁.record ⟨me, source, t⟩)) :
    Program.Needs True (buildNeeds C me source) post (BuildTask.translate (C.asks me text)) s :=
  needs_of_buildNeeds (a := .translate (C.asks me text)) fun s₁ h₁ =>
    ⟨hmay s₁ h₁, ⟨text, htext, rfl⟩, fun e => herror e s₁ h₁, fun t ht => hok t s₁ h₁ ht⟩

theorem needs_compile {src output : Path} {post : Except DeviceError Unit → Scene ι → Prop}
    (h : ∀ s₁, Sound C s₁ → Relies C (· = output.place) me s s₁ →
      MayCompile C me (C.key me source) output s₁ ∧ ∀ r, post r s₁) :
    Program.Needs True (buildNeeds C me source) post (BuildTask.compile src output) s :=
  needs_of_buildNeeds (a := .compile src output) h

theorem needs_load {binary : Path} {l : Launch} {post : Except DeviceError Loaded → Scene ι → Prop}
    (h : ∀ r s₁, Later C me s s₁ → (∀ x, r = .ok x → x = Loaded.ofLaunch l) → post r s₁) :
    Program.Needs True (buildNeeds C me source) post (BuildTask.load binary l) s :=
  needs_of_buildNeeds (a := .load binary l) fun s₁ h₁ r hr => h r s₁ h₁ hr

theorem blameless_ofCache {e : CacheError}
    (h : C.vacant (C.key me source) → ¬e.IsChecksumFailure) (s : Scene ι) :
    Blameless C me source (.ofCache e) s :=
  fun hd hfailure => h hd (BuildError.isChecksumFailure_ofCache hfailure)

/-! ### Locks -/

section

variable {depth : Nat}

/-- What holds at the end of the work under a lock, which is still there to be given back. -/
def Held (C : Crew ι) (me : ι) (d : Digest) (depth : Nat) (post : Prop) (s : Scene ι) : Prop :=
  Sound C s ∧ s.owner d depth = some me ∧ post

/-- Something done under a lock that was just taken. -/
theorem needs_holding {α : Type} {body : BuildTask α} (ok : α → Scene ι → Prop)
    {ok' : α → Scene ι → Prop}
    (hbody : Task.Needs True (buildNeeds C me source)
      (fun a s₁ => Held C me (C.key me source) depth (ok a s₁) s₁)
      (fun e s₁ => Held C me (C.key me source) depth (Blameless C me source e s₁) s₁) body s)
    (hok : ∀ a s₁ s₂, ok a s₁ → Grows C s₁ s₂ → Sound C s₂ → ok' a s₂) :
    Task.Needs True (buildNeeds C me source) ok' (Blameless C me source)
      ((C.pipeline me).holding (C.key me source) depth body) s := by
  rw [Pipeline.holding, Task.needs_bind, Task.needs_onFailure]
  refine Task.Needs.mono buildNeeds_mono (fun a s₁ h₁ => ?_) (fun e s₁ h₁ => ?_) hbody
  · obtain ⟨hs₁, hown, ha⟩ := h₁
    have hrelease : Task.Needs True (buildNeeds C me source) (fun _ s₂ => Sound C s₂)
        (Blameless C me source)
        (BuildTask.files (C.site.locks.release (C.key me source) depth)) s₁ := by
      rw [needs_files]
      exact needs_release hs₁ hown (fun _ hs₂ => hs₂) fun e s₂ _ he =>
        blameless_ofCache (fun _ => he) s₂
    rw [Task.needs_bind]
    exact Task.needs_grown hrelease fun _ s₂ hgrows hs₂ =>
      Task.needs_pure_of (hok a s₁ s₂ ha hgrows hs₂)
  · obtain ⟨hs₁, hown, he⟩ := h₁
    rw [needs_quietly]
    exact needs_releaseQuietly hs₁ hown fun _ _ => he

/-- Waiting for a lock changes nothing. -/
theorem needs_wait (hs : Sound C s) {d : Digest} {ok : Unit → Scene ι → Prop}
    (hok : ∀ s₁, Later C me s s₁ → ok () s₁) :
    Task.Needs True (buildNeeds C me source) ok (Blameless C me source)
      ((C.pipeline me).wait d depth) s := by
  have herr (e : CacheError) (s₁ : Scene ι) (_ : Later C me s s₁) (he : ¬e.IsChecksumFailure) :
      Blameless C me source (.ofCache e) s₁ := blameless_ofCache (fun _ => he) s₁
  rw [Pipeline.wait, needs_files]
  cases (C.pipeline me).timeout with
  | none =>
      dsimp only
      rw [LockTable.wait, Task.needs_bind]
      exact needs_checkDepth (needs_waitLoop _ _ hok herr) (herr _ s (Later.refl hs) id)
  | some timeout =>
      dsimp only
      rw [LockTable.waitAtMost, Task.needs_bind]
      refine needs_checkDepth ?_ (herr _ s (Later.refl hs) id)
      rw [Task.needs_bind, Task.needs_lift]
      refine needs_calm (a := .now) trivial fun now s₁ h₁ => ?_
      exact needs_waitAtMostLoop _ _ _ _ (fun s₂ h₂ => hok s₂ (h₁.trans h₂)) fun e s₂ h₂ =>
        herr e s₂ (h₁.trans h₂)

end

/-! ### Translation -/

/-- Translating and publishing under the lock for translation, over nothing. -/
theorem needs_translateEntry (hs : Sound C s)
    (hown : s.owner (C.key me source) Pipeline.translationDepth = some me)
    (habsent : C.vacant (C.key me source) → ∀ b, ¬s.Has (C.sourcePlace (C.key me source)) b) :
    Task.Needs True (buildNeeds C me source)
      (fun _ s₁ => Held C me (C.key me source) Pipeline.translationDepth
        (C.vacant (C.key me source) → LooksTranslated C s₁ (C.key me source)) s₁)
      (fun e s₁ =>
        Held C me (C.key me source) Pipeline.translationDepth (Blameless C me source e s₁) s₁)
      ((C.pipeline me).translateEntry (C.request me).view.identity (C.key me source)
        (C.request me).job source) s := by
  rw [Pipeline.translateEntry, Task.needs_bind, Task.needs_mk, Pipeline.sourceText]
  cases htext : Utf8.toString? source with
  | none => exact Program.needs_pure_of ⟨hs, hown, fun _ => id⟩
  | some text =>
      have hstill {s₁ : Scene ι} (h₁ : Later C me s s₁) :
          MayTranslate C me (C.key me source) s₁ :=
        have hw : Works C me (C.key me source) Pipeline.translationDepth (fun _ => False) s s₁ :=
          Works.of_later h₁ hown
        ⟨hw.owner, absent_of_works hw id habsent⟩
      refine Program.needs_pure_of ?_
      simp only [Task.Outcome, Task.needs_bind, Task.needs_lift]
      refine needs_translate htext (fun s₁ h₁ => hstill h₁) (fun e s₁ h₁ => ?_)
        fun t s₁ h₁ ht => ?_
      · exact Task.needs_throw_of ⟨h₁.sound, (hstill h₁).owner, fun _ => id⟩
      · -- the call is on record before anything of it is published
        have hanswered : C.Answered ⟨me, source, t⟩ := ⟨text, htext, ht⟩
        have hfair := fair_record h₁.sound hanswered me
        have hfails {p : Path} {e : Failure} (s₂ : Scene ι) (hs₂ : Sound C s₂)
            (hown₂ : s₂.owner (C.key me source) Pipeline.translationDepth = some me) :
            Held C me (C.key me source) Pipeline.translationDepth
              (Blameless C me source (.ofCache (.io p e)) s₂) s₂ :=
          ⟨hs₂, hown₂, blameless_ofCache (fun _ => id) s₂⟩
        simp only [Task.needs_bind, needs_files]
        refine needs_putManifest (c := ⟨me, source, t⟩) hfair.sound (hstill h₁).owner
          (hstill h₁).absent (List.mem_append_right _ (List.mem_singleton_self _)) rfl
          (fun p s₂ hs₂ hown₂ habsent₂ hc hmanifest => ?_) fun p e s₂ hs₂ => hfails s₂ hs₂
        refine needs_putSource (c := ⟨me, source, t⟩) hs₂ hown₂ habsent₂ hc rfl hmanifest
          (fun p s₃ hs₃ hown₃ hsource => ?_) fun p e s₃ hs₃ => hfails s₃ hs₃
        exact Task.needs_pure_of ⟨hs₃, hown₃, fun hd => (hs₃.entry _ hd).looksTranslated hsource⟩

/-- **Making sure of a translation**, in as many rounds as it takes. -/
theorem needs_ensureTranslated (hs : Sound C s) (rounds : Nat) {ok : Unit → Scene ι → Prop}
    (hok : ∀ s₁, Sound C s₁ →
      (C.vacant (C.key me source) → LooksTranslated C s₁ (C.key me source)) → ok () s₁) :
    Task.Needs True (buildNeeds C me source) ok (Blameless C me source)
      ((C.pipeline me).ensureTranslated (C.request me).view.identity (C.key me source)
        (C.request me).job source rounds) s := by
  induction rounds generalizing s with
  | zero => exact Task.needs_stalled s
  | succ rounds ih =>
      have herr (e : CacheError) (s₁ : Scene ι) (he : ¬e.IsChecksumFailure) :
          Blameless C me source (.ofCache e) s₁ := blameless_ofCache (fun _ => he) s₁
      rw [Pipeline.ensureTranslated]
      simp only [Task.needs_bind, needs_files]
      refine needs_contains
        (fun s₁ h₁ hopen hnode => Task.needs_pure_of (hok s₁ h₁.sound fun _ => ⟨hopen, hnode⟩))
        (fun s₁ h₁ _ => ?_) fun p e s₁ _ => herr _ s₁ id
      simp only [Bool.false_eq_true, if_false, Task.needs_bind, needs_files]
      refine needs_acquire h₁.sound (fun s₂ hs₂ hown => ?_) (fun s₂ h₂ => ?_)
        fun e s₂ _ he => herr e s₂ he
      · refine needs_holding (fun _ s₃ =>
          C.vacant (C.key me source) → LooksTranslated C s₃ (C.key me source)) ?_
          fun _ s₃ s₄ h₃ hgrows hs₄ => hok s₄ hs₄ fun hd => (h₃ hd).grows hd hgrows
        have hstill {s₃ : Scene ι} (h₃ : Later C me s₂ s₃) :=
          (h₃.relies.owner (C.key me source) Pipeline.translationDepth).2 hown
        simp only [Task.needs_bind, needs_files]
        refine needs_contains (fun s₃ h₃ hopen hnode => ?_) (fun s₃ h₃ hnot => ?_)
          fun p e s₃ h₃ => ?_
        · exact Task.needs_pure_of ⟨h₃.sound, hstill h₃, fun _ => ⟨hopen, hnode⟩⟩
        · refine needs_translateEntry h₃.sound (hstill h₃) fun hd b hb => ?_
          exact hnot ((h₃.sound.entry _ hd).isOpen b (Or.inl hb)) b hb
        · exact ⟨h₃.sound, hstill h₃, herr _ s₃ id⟩
      · simp only [Bool.false_eq_true, if_false, Task.needs_bind]
        exact needs_wait h₂.sound fun s₃ h₃ => ih h₃.sound

/-! ### Compilation -/

theorem blameless_compileError (e : DeviceError) (i : Identity) (job : Job) (s : Scene ι) :
    Blameless C me source (Pipeline.compileError i job e) s := by
  intro _
  cases e <;> exact id

/-- While a compiler writes its output the lock stays with its builder, and the binary absent. -/
theorem mayCompile_of_relies {n : Nat}
    (hown : s.owner (C.key me source) Pipeline.compilationDepth = some me)
    (habsent : C.vacant (C.key me source) → ∀ b, ¬s.Has (C.binaryPlace (C.key me source)) b)
    (h : Relies C (· = ((C.site.store.entryDir (C.key me source)).child
      (".binary" ++ FileSystem.freshTail n)).place) me s s') :
    MayCompile C me (C.key me source) ((C.site.store.entryDir (C.key me source)).child
      (".binary" ++ FileSystem.freshTail n)) s' where
  owner := (h.owner _ _).2 hown
  absent := fun hd b hb => by
    refine habsent hd b ((h.guarded _ _ hown (Utf8.encode "binary") b Site.guard_binary ?_).1 hb)
    rw [place_child (Site.scratch_reserved n).plain]
    intro hplace
    obtain ⟨-, hname⟩ := C.site.entry_append_inj hplace
    have hscratch := (Site.scratch_reserved n).isScratch
    rw [← hname] at hscratch
    exact Site.not_isScratch_binary hscratch
  output := ⟨n, place_child (Site.scratch_reserved n).plain _⟩

/-- Compiling and publishing under the lock for compilation, over nothing. -/
theorem needs_compileEntry (hs : Sound C s)
    (hown : s.owner (C.key me source) Pipeline.compilationDepth = some me)
    (habsent : C.vacant (C.key me source) → ∀ b, ¬s.Has (C.binaryPlace (C.key me source)) b) :
    Task.Needs True (buildNeeds C me source)
      (fun p s₁ => Held C me (C.key me source) Pipeline.compilationDepth
        (p = C.site.store.path (C.key me source) .binary ∧
          (C.vacant (C.key me source) → ∃ b, s₁.Has (C.binaryPlace (C.key me source)) b)) s₁)
      (fun e s₁ =>
        Held C me (C.key me source) Pipeline.compilationDepth (Blameless C me source e s₁) s₁)
      ((C.pipeline me).compileEntry (C.request me).view.identity (C.key me source)
        (C.request me).job) s := by
  have hfails {p : Path} {e : Failure} (s₁ : Scene ι) (hs₁ : Sound C s₁)
      (hown₁ : s₁.owner (C.key me source) Pipeline.compilationDepth = some me) :
      Held C me (C.key me source) Pipeline.compilationDepth
        (Blameless C me source (.ofCache (.io p e)) s₁) s₁ :=
    ⟨hs₁, hown₁, blameless_ofCache (fun _ => id) s₁⟩
  have hworks {s₁ : Scene ι} (h₁ : Later C me s s₁) :
      Works C me (C.key me source) Pipeline.compilationDepth (IsFresh ".binary") s s₁ :=
    Works.of_later h₁ hown
  rw [Pipeline.compileEntry, Task.needs_bind, needs_files, Store.reserve, Task.needs_bind]
  refine needs_ensureEntryDir hs (fun s₁ h₁ => ?_) fun p e s₁ h₁ =>
    hfails s₁ h₁.sound (hworks h₁).owner
  rw [Store.createFresh, needs_attempt]
  refine needs_createFresh (hworks h₁).owner Site.scratch_reserved (fun n s₂ h₂ => ?_)
    fun e s₂ h₂ => hfails s₂ h₂.sound (hworks (h₁.trans h₂)).owner
  have hw₂ := (hworks h₁).trans (h₂.mono fun name heq => ⟨n, heq⟩)
  have hnot : ¬IsFresh ".binary" (Utf8.encode "binary") := fun h =>
    Site.not_isScratch_binary (h.isScratch Site.scratch_reserved)
  have habsent₂ := absent_binary_of_works hw₂ hnot habsent
  simp only [Task.Outcome, Task.needs_bind, Task.needs_onFailure, Pipeline.compileTo,
    Task.needs_lift]
  refine needs_compile fun s₃ hs₃ h₃ => ?_
  have hmay := mayCompile_of_relies hw₂.owner habsent₂ h₃
  refine ⟨hmay, fun r => ?_⟩
  cases r with
  | ok _ =>
      refine Task.needs_pure_of ?_
      rw [needs_files]
      exact needs_publishBinary hmay.owner hmay.absent
        (fun b s₄ hs₄ hown₄ hb => ⟨hs₄, hown₄, rfl, fun _ => ⟨b, hb⟩⟩)
        fun p e s₄ hs₄ => hfails s₄ hs₄
  | error e =>
      refine Task.needs_throw_of ?_
      rw [needs_quietly]
      refine needs_discard hmay.owner (Site.scratch_reserved n) fun s₄ h₄ => ?_
      exact ⟨h₄.sound, h₄.owner, blameless_compileError e _ _ s₄⟩

/-- **Making sure of a binary**, in as many rounds as it takes. -/
theorem needs_ensureCompiled (hs : Sound C s) (rounds : Nat) {ok : Path → Scene ι → Prop}
    (hok : ∀ s₁, Sound C s₁ →
      (C.vacant (C.key me source) → ∃ b, s₁.Has (C.binaryPlace (C.key me source)) b) →
        ok (C.site.store.path (C.key me source) .binary) s₁) :
    Task.Needs True (buildNeeds C me source) ok (Blameless C me source)
      ((C.pipeline me).ensureCompiled (C.request me).view.identity (C.key me source)
        (C.request me).job rounds) s := by
  induction rounds generalizing s with
  | zero => exact Task.needs_stalled s
  | succ rounds ih =>
      rw [Pipeline.ensureCompiled]
      simp only [Task.needs_bind, needs_files]
      refine needs_verified (fun s₁ h₁ _ => ?_)
        (fun s₁ h₁ hb => Task.needs_pure_of (hok s₁ h₁.sound hb))
        fun e s₁ _ he => blameless_ofCache he s₁
      simp only [Task.needs_bind, needs_files]
      refine needs_acquire h₁.sound (fun s₂ hs₂ hown => ?_) (fun s₂ h₂ => ?_)
        fun e s₂ _ he => blameless_ofCache (fun _ => he) s₂
      · refine needs_holding (fun p s₃ => p = C.site.store.path (C.key me source) .binary ∧
          (C.vacant (C.key me source) → ∃ b, s₃.Has (C.binaryPlace (C.key me source)) b)) ?_
          fun p s₃ s₄ h₃ hgrows hs₄ => h₃.1 ▸ hok s₄ hs₄ fun hd =>
            (h₃.2 hd).imp fun b hb => hgrows.binary _ hd b hb
        have hstill {s₃ : Scene ι} (h₃ : Later C me s₂ s₃) :=
          (h₃.relies.owner (C.key me source) Pipeline.compilationDepth).2 hown
        simp only [Task.needs_bind, needs_files]
        refine needs_verified (fun s₃ h₃ hnot => ?_) (fun s₃ h₃ hb => ?_) fun e s₃ h₃ he => ?_
        · exact needs_compileEntry h₃.sound (hstill h₃) hnot
        · exact Task.needs_pure_of ⟨h₃.sound, hstill h₃, rfl, hb⟩
        · exact ⟨h₃.sound, hstill h₃, blameless_ofCache he s₃⟩
      · simp only [Bool.false_eq_true, if_false, Task.needs_bind]
        exact needs_wait h₂.sound fun s₃ h₃ => ih h₃.sound

/-! ### Loading -/

theorem needs_readManifest {ok : Manifest → Scene ι → Prop}
    (hok : ∀ m s₁, Later C me s s₁ → (∃ b, s₁.Has (C.manifestPlace (C.key me source)) b) →
      (C.vacant (C.key me source) →
        ∃ c ∈ s₁.calls, C.callKey c = C.key me source ∧ m = C.manifest c) → ok m s₁) :
    Task.Needs True (buildNeeds C me source) ok (Blameless C me source)
      ((C.pipeline me).readManifest (C.key me source)) s := by
  rw [Pipeline.readManifest]
  simp only [Task.needs_bind, needs_files]
  refine needs_get (fun b s₁ h₁ _ hhas => ?_) (fun s₁ h₁ _ => ?_)
    fun p e s₁ _ => blameless_ofCache (fun _ => id) s₁
  · simp only [Task.needs_mk, Pipeline.parseManifest]
    cases hm : Manifest.ofBytes? b with
    | none => exact Program.needs_pure_of fun _ => id
    | some m =>
        refine Program.needs_pure_of (hok m s₁ h₁ ⟨b, hhas⟩ fun hd => ?_)
        obtain ⟨c, hc, hkey, rfl⟩ := (h₁.sound.entry _ hd).manifest b hhas
        rw [Manifest.ofBytes?_toBytes] at hm
        exact ⟨c, hc, hkey, (Option.some.inj hm).symm⟩
  · exact Task.needs_throw_of fun _ => id

/-- **A whole build does what it may, and what it returns is genuine.** -/
theorem needs_buildFrom (hs : Sound C s) :
    Program.Needs True (buildNeeds C me source) (Settles C me source)
      ((C.pipeline me).buildFrom (C.request me).view (C.request me).job source).run s := by
  change Task.Needs True (buildNeeds C me source) (Genuine C me source) (Blameless C me source) _ s
  rw [Pipeline.buildFrom, Task.needs_bind]
  refine needs_ensureTranslated hs _ fun s₁ hs₁ htranslated => ?_
  rw [Task.needs_bind]
  have hcompiled : Task.Needs True (buildNeeds C me source)
      (fun p s₂ => p = C.site.store.path (C.key me source) .binary ∧
        (C.vacant (C.key me source) → ∃ b, s₂.Has (C.binaryPlace (C.key me source)) b))
      (Blameless C me source) ((C.pipeline me).ensureCompiled (C.request me).view.identity
        (C.key me source) (C.request me).job (C.pipeline me).patience) s₁ :=
    needs_ensureCompiled hs₁ _ fun s₂ _ hb => ⟨rfl, hb⟩
  refine Task.needs_grown hcompiled fun p s₂ hgrows hp => ?_
  obtain ⟨rfl, hbinary⟩ := hp
  rw [Task.needs_bind]
  refine needs_readManifest fun m s₃ h₃ hmanifest hm => ?_
  rw [Task.needs_bind, Task.needs_mk, Pipeline.findKernel]
  cases hl : m.kernels.get? (C.request me).job.function with
  | none => exact Program.needs_pure_of fun _ => id
  | some l =>
      refine Program.needs_pure_of ?_
      simp only [Task.Outcome, Pipeline.loadWith, Task.needs_bind, Task.needs_lift]
      refine needs_load fun r s₄ h₄ hr => ?_
      cases r with
      | error e =>
          exact Task.needs_throw_of fun _ => BuildError.not_isChecksumFailure_ofDevice e
      | ok loaded =>
          refine Task.needs_pure_of ⟨rfl, rfl, rfl, fun hd => ?_, fun hd => ?_⟩
          · obtain ⟨c, hc, hkey, rfl⟩ := hm hd
            exact ⟨c, h₄.relies.grows.calls hc, hkey, l, hl, hr loaded rfl⟩
          · have hgrows₄ := h₃.relies.grows.trans h₄.relies.grows
            exact ⟨(htranslated hd).grows hd (hgrows.trans hgrows₄),
              h₄.relies.grows.manifest _ hmanifest,
              (hbinary hd).imp fun b hb => hgrows₄.binary _ hd b hb⟩

end

end KernelCache
