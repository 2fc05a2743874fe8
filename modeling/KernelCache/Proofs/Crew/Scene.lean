/-
**Builders who share a cache.**

Any number of builders work at one cache at the same time.  What they rely on is said of scenes: the
machine, an account of who holds which lock, and the calls of the translator that have succeeded.
The account exists for the proofs only; no builder can look at it.

A scene is sound if every entry is consistent: a translated source and the manifest beside it come
from one call of the translator, and a binary has its checksum beside it.  What one builder does is
visible to the others only as a scene that they can rely on: what their own locks protect is as they
left it, and nothing that was published has changed.

Main definitions:

* `Crew`, `Call` — builders, and successful calls of the translator;
* `Scene`, `Scene.Has` — scenes and the files in them;
* `EntrySound`, `Sound` — **the consistency of entries and of the account of locks**;
* `Grows`, `Relies` — what every change respects, and what a builder relies on;
* `LooksTranslated`, `Complete` — entries with a translation, and with everything;
* `Drift` — changes of files in certain places only.

Main results:

* `Relies.trans`, `Drift.sound`, `Drift.relies` — relying on one change after another, and what a
  change of files leaves intact.
-/

import KernelCache.Kernel.Manifest
import KernelCache.Proofs.Build.Request

set_option relaxedAutoImplicit false
set_option autoImplicit false

namespace KernelCache

/-! ### Crews -/

/-- Builders who share a cache and a translator, which may answer what `translates` allows.  The
digests in `vacant` have no entry when the builders start. -/
structure Crew (ι : Type) where
  site : Site
  request : ι → Request
  translates : TranslationRequest → Except TranslateError Translation → Prop
  vacant : Digest → Prop

/-- A successful call of the translator, with the source that its builder has read. -/
structure Call (ι : Type) where
  builder : ι
  source : Bytes
  result : Translation

namespace Crew

variable {ι : Type} (C : Crew ι)

/-- The pipeline of a builder. -/
def pipeline (i : ι) : Pipeline := (C.request i).pipeline C.site

/-- The key of a builder that has read a source. -/
def key (i : ι) (source : Bytes) : Digest :=
  (C.pipeline i).key (C.request i).view (C.request i).job source

/-- What a builder asks the translator for, when the source is a text. -/
def asks (i : ι) (text : String) : TranslationRequest :=
  Pipeline.request (C.request i).view.identity (C.request i).job text

/-- The key of the builder that made a call. -/
def callKey (c : Call ι) : Digest := C.key c.builder c.source

/-- The manifest of a call. -/
def manifest (c : Call ι) : Manifest :=
  ⟨(C.request c.builder).version, (C.request c.builder).job.path.display, c.result.kernels⟩

/-- Whether a call is one that the translator may have answered. -/
def Answered (c : Call ι) : Prop :=
  ∃ text, Utf8.toString? c.source = some text ∧
    C.translates (C.asks c.builder text) (.ok c.result)

/-- The place of a translated source. -/
def sourcePlace (d : Digest) : Place := C.site.filePlace d C.site.sourceName

/-- The place of a manifest. -/
def manifestPlace (d : Digest) : Place := C.site.filePlace d "manifest.json"

/-- The place of a binary. -/
def binaryPlace (d : Digest) : Place := C.site.filePlace d "binary"

/-- The place of the checksum of a binary. -/
def sidecarPlace (d : Digest) : Place := C.site.filePlace d "binary.xxh3"

end Crew

/-! ### Scenes -/

/-- The machine, who holds the lock of a digest and a depth, and the calls so far. -/
structure Scene (ι : Type) where
  machine : Machine
  owner : Digest → Nat → Option ι
  calls : List (Call ι)

namespace Scene

variable {ι : Type}

/-- The node at a place. -/
def node? (s : Scene ι) (x : Place) : Option Node := s.machine.files.node? x

/-- Whether a file with certain contents is at a place. -/
def Has (s : Scene ι) (x : Place) (b : Bytes) : Prop := s.node? x = some (.file b)

/-- Whether the directory of an entry is there, with all directories above it. -/
def Open (s : Scene ι) (S : Site) (d : Digest) : Prop :=
  s.machine.files.Walkable (S.store.entryDir d)

theorem Has.unique {s : Scene ι} {x : Place} {b c : Bytes} (h : s.Has x b) (h' : s.Has x c) :
    b = c := by
  have := h.symm.trans h'
  simpa using this

end Scene

section

variable {ι : Type} (C : Crew ι)

/-- An entry is consistent: what is published is where it can be found, a source is there only with
the manifest from the same call, and a binary only with its checksum. -/
structure EntrySound (s : Scene ι) (d : Digest) : Prop where
  isOpen : ∀ b, s.Has (C.sourcePlace d) b ∨ s.Has (C.binaryPlace d) b → s.Open C.site d
  source : ∀ b, s.Has (C.sourcePlace d) b → ∃ c ∈ s.calls, C.callKey c = d ∧
    b = Utf8.encode c.result.source ∧ s.Has (C.manifestPlace d) (C.manifest c).toBytes
  manifest : ∀ b, s.Has (C.manifestPlace d) b → ∃ c ∈ s.calls, C.callKey c = d ∧
    b = (C.manifest c).toBytes
  binary : ∀ b, s.Has (C.binaryPlace d) b →
    s.Has (C.sidecarPlace d) (Utf8.encode (Checksum.of b).toText)

/-- The entries that were vacant are consistent, and a lock that someone holds is there. -/
structure Sound (s : Scene ι) : Prop where
  due : s.machine.due = []
  calls : ∀ c ∈ s.calls, C.Answered c
  lock : ∀ d depth i, s.owner d depth = some i →
    s.node? (C.site.lockPlace d depth) = some .directory
  aside : ∀ d depth i, s.owner d depth = some i → C.site.lockPlace d depth ∉ C.site.root.visits
  entry : ∀ d, C.vacant d → EntrySound C s d

/-- What every change respects: published files, calls, and the directories of entries and in them.
A manifest may be replaced by another one, but it does not go away. -/
structure Grows (s s' : Scene ι) : Prop where
  source : ∀ d, C.vacant d → ∀ b, s.Has (C.sourcePlace d) b → s'.Has (C.sourcePlace d) b
  manifest : ∀ d, (∃ b, s.Has (C.manifestPlace d) b) → ∃ b, s'.Has (C.manifestPlace d) b
  binary : ∀ d, C.vacant d → ∀ b, s.Has (C.binaryPlace d) b → s'.Has (C.binaryPlace d) b
  calls : s.calls ⊆ s'.calls
  isOpen : ∀ d, s.Open C.site d → s'.Open C.site d
  directory : ∀ d name, s.node? (C.site.entryPlace d ++ [name]) = some .directory →
    s'.node? (C.site.entryPlace d ++ [name]) = some .directory

/-- What builders take for a translated entry: something is in the place of the source. -/
structure LooksTranslated (s : Scene ι) (d : Digest) : Prop where
  isOpen : s.Open C.site d
  source : s.node? (C.sourcePlace d) ≠ none

/-- What a builder leaves behind that has succeeded. -/
structure Complete (s : Scene ι) (d : Digest) : Prop where
  translated : LooksTranslated C s d
  manifest : ∃ b, s.Has (C.manifestPlace d) b
  binary : ∃ b, s.Has (C.binaryPlace d) b

/-- What a builder relies on while others work: its locks stay its own, and what they protect is as
it was.  Only what is loose may have changed. -/
structure Relies (loose : Place → Prop) (i : ι) (s s' : Scene ι) : Prop where
  grows : Grows C s s'
  owner : ∀ d depth, s'.owner d depth = some i ↔ s.owner d depth = some i
  guarded : ∀ d depth, s.owner d depth = some i → ∀ name b, Site.guard name = depth →
    ¬loose (C.site.entryPlace d ++ [name]) →
    (s'.Has (C.site.entryPlace d ++ [name]) b ↔ s.Has (C.site.entryPlace d ++ [name]) b)

/-- Nothing is loose. -/
def nowhere : Place → Prop := fun _ => False

/-- A change of files: in entries only where `changed` says so, and with the directories of entries
and in them and the locks that are held still there. -/
structure Drift (changed : Place → Prop) (s s' : Scene ι) : Prop where
  due : s'.machine.due = s.machine.due
  owner : s'.owner = s.owner
  calls : s'.calls = s.calls
  file : ∀ d name b, ¬changed (C.site.entryPlace d ++ [name]) →
    (s'.Has (C.site.entryPlace d ++ [name]) b ↔ s.Has (C.site.entryPlace d ++ [name]) b)
  isOpen : ∀ d, s.Open C.site d → s'.Open C.site d
  directory : ∀ d name, s.node? (C.site.entryPlace d ++ [name]) = some .directory →
    s'.node? (C.site.entryPlace d ++ [name]) = some .directory
  lock : ∀ d depth i, s.owner d depth = some i →
    s.node? (C.site.lockPlace d depth) = some .directory →
    s'.node? (C.site.lockPlace d depth) = some .directory

end

/-! ### Relying on changes -/

section

variable {ι : Type} {C : Crew ι} {s s' s'' : Scene ι} {i : ι}

/-- Nothing but new calls. -/
theorem Grows.of_machine_eq (hmachine : s'.machine = s.machine) (hcalls : s.calls ⊆ s'.calls) :
    Grows C s s' := by
  obtain ⟨m, owner, calls⟩ := s
  obtain ⟨m', owner', calls'⟩ := s'
  obtain rfl : m' = m := hmachine
  exact ⟨fun _ _ _ h => h, fun _ h => h, fun _ _ _ h => h, hcalls, fun _ h => h, fun _ _ h => h⟩

theorem Grows.refl (s : Scene ι) : Grows C s s := .of_machine_eq rfl (List.Subset.refl _)

theorem Grows.trans (h : Grows C s s') (h' : Grows C s' s'') : Grows C s s'' where
  source := fun d hd b hb => h'.source d hd b (h.source d hd b hb)
  manifest := fun d hd => h'.manifest d (h.manifest d hd)
  binary := fun d hd b hb => h'.binary d hd b (h.binary d hd b hb)
  calls := List.Subset.trans h.calls h'.calls
  isOpen := fun d hd => h'.isOpen d (h.isOpen d hd)
  directory := fun d name hd => h'.directory d name (h.directory d name hd)

theorem EntrySound.looksTranslated {d : Digest} {b : Bytes} (h : EntrySound C s d)
    (hb : s.Has (C.sourcePlace d) b) : LooksTranslated C s d where
  isOpen := h.isOpen b (Or.inl hb)
  source := fun hnone => by cases hnone.symm.trans hb

theorem LooksTranslated.grows {d : Digest} (h : LooksTranslated C s d) (hd : C.vacant d)
    (hgrows : Grows C s s') : LooksTranslated C s' d where
  isOpen := hgrows.isOpen d h.isOpen
  source := by
    obtain ⟨n, hn⟩ := Option.ne_none_iff_exists'.1 h.source
    cases n with
    | directory =>
        rw [show s'.node? (C.sourcePlace d) = some .directory from hgrows.directory d _ hn]
        exact Option.some_ne_none _
    | file b =>
        rw [show s'.node? (C.sourcePlace d) = some (.file b) from hgrows.source d hd b hn]
        exact Option.some_ne_none _

/-- What was complete stays so. -/
theorem Complete.grows {d : Digest} (h : Complete C s d) (hd : C.vacant d)
    (hgrows : Grows C s s') : Complete C s' d where
  translated := h.translated.grows hd hgrows
  manifest := hgrows.manifest d h.manifest
  binary := h.binary.imp fun b hb => hgrows.binary d hd b hb

theorem Relies.refl (loose : Place → Prop) (i : ι) (s : Scene ι) : Relies C loose i s s :=
  ⟨Grows.refl s, fun _ _ => Iff.rfl, fun _ _ _ _ _ _ _ => Iff.rfl⟩

theorem Relies.trans {loose : Place → Prop} (h : Relies C loose i s s')
    (h' : Relies C loose i s' s'') : Relies C loose i s s'' where
  grows := h.grows.trans h'.grows
  owner := fun d depth => (h'.owner d depth).trans (h.owner d depth)
  guarded := fun d depth hown name b hguard hloose =>
    (h'.guarded d depth ((h.owner d depth).2 hown) name b hguard hloose).trans
      (h.guarded d depth hown name b hguard hloose)

theorem Relies.weaken {loose : Place → Prop} (h : Relies C nowhere i s s') :
    Relies C loose i s s' where
  grows := h.grows
  owner := h.owner
  guarded := fun d depth hown name b hguard _ => h.guarded d depth hown name b hguard id

/-- What a builder's lock protects is as it was. -/
theorem Relies.has_iff (h : Relies C nowhere i s s') {d : Digest} {depth : Nat} {name : String}
    (hown : s.owner d depth = some i) (hguard : Site.guard (Utf8.encode name) = depth) (b : Bytes) :
    s'.Has (C.site.filePlace d name) b ↔ s.Has (C.site.filePlace d name) b :=
  h.guarded d depth hown (Utf8.encode name) b hguard id

/-! ### Changes of files -/

namespace Drift

variable {changed : Place → Prop}

/-- A change of files respects what is published if it touches neither sources nor binaries that are
there, and puts a manifest where it touches one. -/
theorem grows (h : Drift C changed s s')
    (hsource : ∀ d, C.vacant d → ∀ b, changed (C.sourcePlace d) → ¬s.Has (C.sourcePlace d) b)
    (hmanifest : ∀ d, changed (C.manifestPlace d) → ∃ b, s'.Has (C.manifestPlace d) b)
    (hbinary : ∀ d, C.vacant d → ∀ b, changed (C.binaryPlace d) → ¬s.Has (C.binaryPlace d) b) :
    Grows C s s' where
  source := fun d hd b hb => (h.file d _ b fun hch => hsource d hd b hch hb).2 hb
  manifest := fun d hd => by
    by_cases hch : changed (C.manifestPlace d)
    · exact hmanifest d hch
    · exact hd.imp fun b hb => (h.file d _ b hch).2 hb
  binary := fun d hd b hb => (h.file d _ b fun hch => hbinary d hd b hch hb).2 hb
  calls := h.calls ▸ List.Subset.refl _
  isOpen := h.isOpen
  directory := h.directory

/-- Who does not hold the locks that protect the changed files can rely on the change. -/
theorem relies {loose : Place → Prop} (h : Drift C changed s s') (hgrows : Grows C s s')
    (hown : ∀ d name, changed (C.site.entryPlace d ++ [name]) →
      loose (C.site.entryPlace d ++ [name]) ∨ s.owner d (Site.guard name) ≠ some i) :
    Relies C loose i s s' where
  grows := hgrows
  owner := fun d depth => by rw [h.owner]
  guarded := fun d depth hd name b hguard hloose => h.file d name b fun hch => by
    rcases hown d name hch with hl | hne
    · exact hloose hl
    · exact hne (hguard ▸ hd)

/-- An entry none of whose published files is changed stays consistent. -/
theorem entrySound (h : Drift C changed s s') {d : Digest}
    (hsource : ¬changed (C.sourcePlace d)) (hmanifest : ¬changed (C.manifestPlace d))
    (hbinary : ¬changed (C.binaryPlace d)) (hsidecar : ¬changed (C.sidecarPlace d))
    (he : EntrySound C s d) : EntrySound C s' d where
  isOpen := fun b hb => h.isOpen d <| he.isOpen b <|
    hb.imp (h.file d _ b hsource).1 (h.file d _ b hbinary).1
  source := fun b hb => by
    obtain ⟨c, hc, hkey, hbytes, hman⟩ := he.source b ((h.file d _ b hsource).1 hb)
    exact ⟨c, h.calls ▸ hc, hkey, hbytes, (h.file d _ _ hmanifest).2 hman⟩
  manifest := fun b hb => by
    obtain ⟨c, hc, hkey, hbytes⟩ := he.manifest b ((h.file d _ b hmanifest).1 hb)
    exact ⟨c, h.calls ▸ hc, hkey, hbytes⟩
  binary := fun b hb => (h.file d _ _ hsidecar).2 (he.binary b ((h.file d _ b hbinary).1 hb))

/-- A change of files keeps a scene sound if it keeps its entries so. -/
theorem sound (h : Drift C changed s s') (hs : Sound C s)
    (hentry : ∀ d, C.vacant d → EntrySound C s d → EntrySound C s' d) : Sound C s' where
  due := h.due.trans hs.due
  calls := fun c hc => hs.calls c (h.calls ▸ hc)
  lock := fun d depth i hi =>
    h.lock d depth i (h.owner ▸ hi) (hs.lock d depth i (h.owner ▸ hi))
  aside := fun d depth i hi => hs.aside d depth i (h.owner ▸ hi)
  entry := fun d hd => hentry d hd (hs.entry d hd)

/-- Nothing changes in any entry. -/
theorem quiet (h : Drift C nowhere s s') (hs : Sound C s) :
    Sound C s' ∧ Grows C s s' ∧ ∀ i, Relies C nowhere i s s' := by
  have hgrows : Grows C s s' :=
    h.grows (fun _ _ _ hch => hch.elim) (fun _ hch => hch.elim) fun _ _ _ hch => hch.elim
  refine ⟨h.sound hs fun d _ he => h.entrySound id id id id he, hgrows, fun i => ?_⟩
  exact h.relies hgrows fun _ _ hch => hch.elim

end Drift

end

end KernelCache
