/-
**Publishing under a lock.**

A file is written under a fresh name and then moved to its own.  Until the move the entry is as it
was, and after it the entry has the whole file, so all that has to be shown of an artifact is that
its entry may have it.

Main results:

* `needs_writeFresh`, `needs_settle` — writing a fresh file, and moving it;
* `needs_putManifest`, `needs_putSource`, `needs_publishBinary` — **publishing**.
-/

import KernelCache.Proofs.Crew.Store

set_option relaxedAutoImplicit false
set_option autoImplicit false

namespace KernelCache

section

variable {ι : Type} {C : Crew ι} {me : ι} {s s' : Scene ι} {d : Digest} {depth : Nat}
  {err : CacheError → Scene ι → Prop}

/-! ### Fresh files -/

theorem needs_discard {name : String} {post : Unit → Scene ι → Prop}
    (hown : s.owner d depth = some me) (hname : Site.Scratch depth name)
    (h : ∀ s₁, Works C me d depth (· = Utf8.encode name) s s₁ → post () s₁) :
    Program.Needs True (fileNeeds C me) post
      (Store.discard ((C.site.store.entryDir d).child name)) s := by
  rw [Store.discard, Program.needs_bind]
  exact needs_removeFile hown hname fun _ s₁ h₁ => Program.needs_pure_of (h s₁ h₁)

theorem needs_writeFresh {stem : String} {bytes : Bytes} {ok : Path → Scene ι → Prop}
    (hown : s.owner d depth = some me)
    (hstem : ∀ n, Site.Scratch depth (stem ++ FileSystem.freshTail n))
    (hok : ∀ n s₁, Works C me d depth (IsFresh stem) s s₁ →
      s₁.Has (C.site.filePlace d (stem ++ FileSystem.freshTail n)) bytes →
        ok ((C.site.store.entryDir d).child (stem ++ FileSystem.freshTail n)) s₁)
    (herr : ∀ p e s₁, Works C me d depth (IsFresh stem) s s₁ → err (.io p e) s₁) :
    Task.Needs True (fileNeeds C me) ok err
      (Store.writeFresh (C.site.store.entryDir d) stem bytes) s := by
  rw [Store.writeFresh, Task.needs_bind, Store.createFresh, needs_attempt]
  refine needs_createFresh hown hstem (fun n s₁ h₁ => ?_) fun e s₁ h₁ =>
    herr _ e s₁ (Works.of_later h₁ hown)
  have hfresh {name : Bytes} (heq : name = Utf8.encode (stem ++ FileSystem.freshTail n)) :
      IsFresh stem name := ⟨n, heq⟩
  have h₁' := h₁.mono fun name => hfresh
  simp only [Task.Outcome, Task.needs_bind, Task.needs_onFailure, needs_attempt]
  refine needs_write h₁.owner (hstem n) (fun s₂ h₂ hhas => ?_) fun e s₂ h₂ => ?_
  · exact Task.needs_pure_of (hok n s₂ (h₁'.trans (h₂.mono fun name => hfresh)) hhas)
  · have hown₂ := (h₂.relies.owner d depth).2 h₁.owner
    refine needs_discard hown₂ (hstem n) fun s₃ h₃ => herr _ e s₃ ?_
    exact (h₁'.trans (Works.of_later h₂ h₁.owner)).trans (h₃.mono fun name => hfresh)

/-- A fresh file is moved to a published name, or removed. -/
theorem needs_settle {name published : String} {b : Bytes} {ok : Unit → Scene ι → Prop}
    (hown : s.owner d depth = some me) (hname : Site.Scratch depth name)
    (hplain : Plain (Utf8.encode published))
    (hguard : Site.guard (Utf8.encode published) = depth) (hhas : s.Has (C.site.filePlace d name) b)
    (hcareful : ∀ s₁, Later C me s s₁ →
      Careful C (.move ((C.site.store.entryDir d).child name)
        ((C.site.store.entryDir d).child published)) s₁)
    (hfair : ∀ s₁ s₂, Later C me s s₁ → s₁.Open C.site d →
      Publishes C d (Utf8.encode name) published s₁ s₂ →
      s₂.Has (C.site.filePlace d published) b → Fair C me s₁ s₂)
    (hok : ∀ s₂,
      Works C me d depth (fun x => x = Utf8.encode name ∨ x = Utf8.encode published) s s₂ →
      s₂.Has (C.site.filePlace d published) b → ok () s₂)
    (herr : ∀ p e s₁, Works C me d depth (· = Utf8.encode name) s s₁ → err (.io p e) s₁) :
    Task.Needs True (fileNeeds C me) ok err
      (Store.settle ((C.site.store.entryDir d).child name)
        ((C.site.store.entryDir d).child published)) s := by
  rw [Store.settle, Task.needs_onFailure, needs_attempt]
  refine needs_move hown hname hplain hguard hhas hcareful hfair hok fun e s₁ h₁ => ?_
  have hown₁ := (h₁.relies.owner d depth).2 hown
  exact needs_discard hown₁ hname fun s₂ h₂ => herr _ e s₂ ((Works.of_later h₁ hown).trans h₂)

/-- A move to a name of an entry is careful if it publishes no source or binary over another. -/
theorem careful_move {p : Path} {published : String} (hplain : Plain (Utf8.encode published))
    (hsource : published = C.site.sourceName → C.vacant d → ∀ b, ¬s.Has (C.sourcePlace d) b)
    (hbinary : published = "binary" → C.vacant d → ∀ b, ¬s.Has (C.binaryPlace d) b) :
    Careful C (.move p ((C.site.store.entryDir d).child published)) s := by
  intro e he b
  rw [place_child hplain]
  constructor
  · intro htarget
    obtain ⟨rfl, hname⟩ := C.site.filePlace_inj htarget
    exact hsource hname he b
  · intro htarget
    obtain ⟨rfl, hname⟩ := C.site.filePlace_inj htarget
    exact hbinary hname he b

/-! ### Manifests and sources -/

/-- Putting an artifact of the translation. -/
theorem needs_put {k : Artifact} {bytes : Bytes} {ok : Path → Scene ι → Prop} (hs : Sound C s)
    (hk : k ≠ .binary) (hown : s.owner d Pipeline.translationDepth = some me)
    (hguard : Site.guard (Utf8.encode (C.site.store.fileName k)) = Pipeline.translationDepth)
    (hcareful : ∀ p s₁, Works C me d Pipeline.translationDepth (IsFresh ".put") s s₁ →
      Careful C (.move p (C.site.store.path d k)) s₁)
    (hfair : ∀ name s₁ s₂, Works C me d Pipeline.translationDepth (IsFresh ".put") s s₁ →
      s₁.Open C.site d → Publishes C d name (C.site.store.fileName k) s₁ s₂ →
      s₂.Has (C.site.filePlace d (C.site.store.fileName k)) bytes → Fair C me s₁ s₂)
    (hok : ∀ s₁, Works C me d Pipeline.translationDepth
      (fun x => IsFresh ".put" x ∨ x = Utf8.encode (C.site.store.fileName k)) s s₁ →
      s₁.Has (C.site.filePlace d (C.site.store.fileName k)) bytes →
        ok (C.site.store.path d k) s₁)
    (herr : ∀ p e s₁, Works C me d Pipeline.translationDepth (IsFresh ".put") s s₁ →
      err (.io p e) s₁) :
    Task.Needs True (fileNeeds C me) ok err (C.site.store.put d k bytes) s := by
  rw [Store.put, Task.needs_bind]
  refine needs_ensureEntryDir hs (fun s₁ h₁ => ?_) fun p e s₁ h₁ =>
    herr p e s₁ (Works.of_later h₁ hown)
  have hown₁ := (h₁.relies.owner d _).2 hown
  have hw₁ : Works C me d Pipeline.translationDepth (IsFresh ".put") s s₁ :=
    Works.of_later h₁ hown
  rw [Task.needs_bind]
  refine needs_writeFresh hown₁ Site.scratch_put (fun n s₂ h₂ hhas => ?_) fun p e s₂ h₂ =>
    herr p e s₂ (hw₁.trans h₂)
  have hw₂ := hw₁.trans h₂
  have hlater {s₃ : Scene ι} (h₃ : Later C me s₂ s₃) :
      Works C me d Pipeline.translationDepth (IsFresh ".put") s s₃ :=
    hw₂.trans (Works.of_later h₃ h₂.owner)
  simp only [Store.publish, if_neg hk, Task.needs_bind]
  refine needs_settle h₂.owner (Site.scratch_put n) (C.site.plain_fileName k) hguard hhas
    (fun s₃ h₃ => hcareful _ s₃ (hlater h₃)) (fun s₃ s₄ h₃ => hfair _ s₃ s₄ (hlater h₃))
    (fun s₃ h₃ hhas₃ => ?_) fun p e s₃ h₃ => ?_
  · refine Task.needs_pure_of (hok s₃ ((hw₂.mono fun name => Or.inl).trans (h₃.mono ?_)) hhas₃)
    exact fun name heq => heq.imp (fun h => ⟨n, h⟩) id
  · exact herr p e s₃ (hw₂.trans (h₃.mono fun name heq => ⟨n, heq⟩))

/-- The holder of the lock for translation finds the source as absent as it was. -/
theorem absent_of_works {touched : Bytes → Prop}
    (h : Works C me d Pipeline.translationDepth touched s s')
    (htouched : ¬touched (Utf8.encode C.site.sourceName))
    (habsent : C.vacant d → ∀ b, ¬s.Has (C.sourcePlace d) b) (hd : C.vacant d) (b : Bytes) :
    ¬s'.Has (C.sourcePlace d) b := fun hb =>
  habsent hd b ((h.has_iff C.site.guard_sourceName htouched b).1 hb)

theorem not_isFresh_put (hname : ¬Site.IsScratch (Utf8.encode C.site.sourceName)) :
    ¬IsFresh ".put" (Utf8.encode C.site.sourceName) := fun h =>
  hname (h.isScratch Site.scratch_put)

theorem needs_putManifest {c : Call ι} {ok : Path → Scene ι → Prop} (hs : Sound C s)
    (hown : s.owner d Pipeline.translationDepth = some me)
    (habsent : C.vacant d → ∀ b, ¬s.Has (C.sourcePlace d) b) (hc : c ∈ s.calls)
    (hkey : C.callKey c = d)
    (hok : ∀ p s₁, Sound C s₁ → s₁.owner d Pipeline.translationDepth = some me →
      (C.vacant d → ∀ b, ¬s₁.Has (C.sourcePlace d) b) → c ∈ s₁.calls →
      s₁.Has (C.manifestPlace d) (C.manifest c).toBytes → ok p s₁)
    (herr : ∀ p e s₁, Sound C s₁ → s₁.owner d Pipeline.translationDepth = some me →
      err (.io p e) s₁) :
    Task.Needs True (fileNeeds C me) ok err
      (C.site.store.put d .manifest (C.manifest c).toBytes) s := by
  have hfresh := not_isFresh_put C.site.not_isScratch_sourceName
  have hsource : "manifest.json" ≠ C.site.sourceName := (C.site.sourceName_ne (by decide)).symm
  have hbinary : "manifest.json" ≠ "binary" := by decide
  refine needs_put hs (by decide) hown Site.guard_manifest
    (fun p s₁ _ => careful_move Site.plain_manifest (fun h => absurd h hsource)
      fun h => absurd h hbinary)
    (fun name s₁ s₂ h₁ hopen hpub hhas => ?_) (fun s₁ h₁ hhas => ?_) fun p e s₁ h₁ =>
      herr p e s₁ h₁.sound h₁.owner
  · exact fair_publishManifest hpub h₁.sound h₁.owner (absent_of_works h₁ hfresh habsent)
      (h₁.grows.calls hc) hkey hhas
  · refine hok _ s₁ h₁.sound h₁.owner (absent_of_works h₁ ?_ habsent) (h₁.grows.calls hc) hhas
    rintro (h | h)
    · exact hfresh h
    · exact hsource (Utf8.encode_injective h).symm

theorem needs_putSource {c : Call ι} {ok : Path → Scene ι → Prop} (hs : Sound C s)
    (hown : s.owner d Pipeline.translationDepth = some me)
    (habsent : C.vacant d → ∀ b, ¬s.Has (C.sourcePlace d) b) (hc : c ∈ s.calls)
    (hkey : C.callKey c = d) (hmanifest : s.Has (C.manifestPlace d) (C.manifest c).toBytes)
    (hok : ∀ p s₁, Sound C s₁ → s₁.owner d Pipeline.translationDepth = some me →
      s₁.Has (C.sourcePlace d) (Utf8.encode c.result.source) → ok p s₁)
    (herr : ∀ p e s₁, Sound C s₁ → s₁.owner d Pipeline.translationDepth = some me →
      err (.io p e) s₁) :
    Task.Needs True (fileNeeds C me) ok err
      (C.site.store.put d .source (Utf8.encode c.result.source)) s := by
  have hfresh := not_isFresh_put C.site.not_isScratch_sourceName
  refine needs_put hs (by decide) hown C.site.guard_sourceName
    (fun p s₁ h₁ => careful_move C.site.plain_sourceName
      (fun _ hd => absent_of_works h₁ hfresh habsent hd)
      fun h => absurd h (C.site.sourceName_ne (by decide)))
    (fun name s₁ s₂ h₁ hopen hpub hhas => ?_) (fun s₁ h₁ => hok _ s₁ h₁.sound h₁.owner)
    fun p e s₁ h₁ => herr p e s₁ h₁.sound h₁.owner
  · have hnot : ¬IsFresh ".put" (Utf8.encode "manifest.json") := fun h =>
      Site.not_isScratch_manifest (h.isScratch Site.scratch_put)
    exact fair_publishSource hpub h₁.sound h₁.owner (absent_of_works h₁ hfresh habsent) hopen
      (h₁.grows.calls hc) hkey ((h₁.has_iff Site.guard_manifest hnot _).2 hmanifest) hhas

/-! ### Binaries -/

/-- The names that the recording of a checksum touches. -/
def IsRecorded (name : Bytes) : Prop :=
  IsFresh ".checksum" name ∨ name = Utf8.encode "binary.xxh3"

theorem not_isRecorded_binary : ¬IsRecorded (Utf8.encode "binary") := by
  rintro (h | h)
  · exact Site.not_isScratch_binary (h.isScratch Site.scratch_checksum)
  · exact absurd h (by decide)

theorem not_isRecorded_reserved (n : Nat) :
    ¬IsRecorded (Utf8.encode (".binary" ++ FileSystem.freshTail n)) := by
  rintro (h | h)
  · exact not_isFresh (by decide) (by decide) (by decide) h
  · exact Site.not_isScratch_sidecar (h ▸ (Site.scratch_reserved n).isScratch)

/-- The holder of the lock for compilation finds the binary as absent as it was. -/
theorem absent_binary_of_works {touched : Bytes → Prop}
    (h : Works C me d Pipeline.compilationDepth touched s s')
    (htouched : ¬touched (Utf8.encode "binary"))
    (habsent : C.vacant d → ∀ b, ¬s.Has (C.binaryPlace d) b) (hd : C.vacant d) (b : Bytes) :
    ¬s'.Has (C.binaryPlace d) b := fun hb =>
  habsent hd b ((h.has_iff Site.guard_binary htouched b).1 hb)

theorem needs_recordChecksum {n : Nat} {ok : Unit → Scene ι → Prop}
    (hown : s.owner d Pipeline.compilationDepth = some me)
    (habsent : C.vacant d → ∀ b, ¬s.Has (C.binaryPlace d) b)
    (hok : ∀ b s₁, Works C me d Pipeline.compilationDepth IsRecorded s s₁ →
      s₁.Has (C.site.filePlace d (".binary" ++ FileSystem.freshTail n)) b →
      s₁.Has (C.sidecarPlace d) (Utf8.encode (Checksum.of b).toText) → ok () s₁)
    (herr : ∀ p e s₁, Works C me d Pipeline.compilationDepth IsRecorded s s₁ →
      err (.io p e) s₁) :
    Task.Needs True (fileNeeds C me) ok err
      (C.site.store.recordChecksum d
        ((C.site.store.entryDir d).child (".binary" ++ FileSystem.freshTail n))) s := by
  have hreserved := Site.scratch_reserved n
  rw [Store.recordChecksum, Task.needs_bind, needs_attempt]
  refine needs_read fun s₁ h₁ => ?_
  have hw₁ : Works C me d Pipeline.compilationDepth IsRecorded s s₁ := Works.of_later h₁ hown
  cases hr : s₁.machine.files.readFile
      ((C.site.store.entryDir d).child (".binary" ++ FileSystem.freshTail n)) with
  | error e => exact herr _ e s₁ hw₁
  | ok b =>
      obtain ⟨hhas₁, -⟩ := has_of_readFile hreserved.plain hr
      simp only [Task.Outcome, Task.needs_bind]
      refine needs_ensureEntryDir h₁.sound (fun s₂ h₂ => ?_) fun p e s₂ h₂ =>
        herr p e s₂ (hw₁.trans (Works.of_later h₂ hw₁.owner))
      have hw₂ := hw₁.trans (Works.of_later h₂ hw₁.owner)
      have hhas₂ := (h₂.relies.has_iff hw₁.owner hreserved.guard b).2 hhas₁
      refine needs_writeFresh hw₂.owner Site.scratch_checksum (fun k s₃ h₃ hside => ?_)
        fun p e s₃ h₃ => herr p e s₃ (hw₂.trans (h₃.mono fun name => Or.inl))
      have hw₃ := hw₂.trans (h₃.mono fun name => Or.inl)
      have hbinary : ∀ {s₄ : Scene ι}, Later C me s₃ s₄ →
          C.vacant d → ∀ b, ¬s₄.Has (C.binaryPlace d) b := fun h₄ =>
        absent_binary_of_works (hw₃.trans (Works.of_later h₄ h₃.owner)) not_isRecorded_binary
          habsent
      refine needs_settle h₃.owner (Site.scratch_checksum k) Site.plain_sidecar Site.guard_sidecar
        hside (fun s₄ _ => careful_move Site.plain_sidecar
          (fun h => absurd h.symm (C.site.sourceName_ne (by decide))) fun h => absurd h (by decide))
        (fun s₄ s₅ h₄ hopen hpub hhas => fair_publishSidecar hpub h₄.sound
          ((h₄.relies.owner d _).2 h₃.owner) (hbinary h₄)) (fun s₄ h₄ hthere => ?_)
        fun p e s₄ h₄ => herr p e s₄ (hw₃.trans (h₄.mono fun name heq => Or.inl ⟨k, heq⟩))
      · have hrecorded : ∀ name, name = Utf8.encode (".checksum" ++ FileSystem.freshTail k) ∨
            name = Utf8.encode "binary.xxh3" → IsRecorded name := fun name heq =>
          heq.imp (fun h => ⟨k, h⟩) id
        have hw₄ := h₄.mono hrecorded
        have hreserved₄ := not_isRecorded_reserved n
        have hfresh₃ : ¬IsFresh ".checksum" _ := fun h => hreserved₄ (Or.inl h)
        refine hok b s₄ (hw₃.trans hw₄) ((hw₄.has_iff hreserved.guard hreserved₄ b).2 ?_) hthere
        exact (h₃.has_iff hreserved.guard hfresh₃ b).2 hhas₂

theorem needs_publishBinary {n : Nat} {ok : Path → Scene ι → Prop}
    (hown : s.owner d Pipeline.compilationDepth = some me)
    (habsent : C.vacant d → ∀ b, ¬s.Has (C.binaryPlace d) b)
    (hok : ∀ b s₁, Sound C s₁ → s₁.owner d Pipeline.compilationDepth = some me →
      s₁.Has (C.binaryPlace d) b → ok (C.site.store.path d .binary) s₁)
    (herr : ∀ p e s₁, Sound C s₁ → s₁.owner d Pipeline.compilationDepth = some me →
      err (.io p e) s₁) :
    Task.Needs True (fileNeeds C me) ok err
      (C.site.store.publish d .binary
        ((C.site.store.entryDir d).child (".binary" ++ FileSystem.freshTail n))) s := by
  have hreserved := Site.scratch_reserved n
  have hsource : "binary" ≠ C.site.sourceName := (C.site.sourceName_ne (by decide)).symm
  simp only [Store.publish, if_true, Task.needs_bind, Task.needs_onFailure]
  refine needs_recordChecksum hown habsent (fun b s₁ h₁ hhas hside => ?_) fun p e s₁ h₁ => ?_
  · have habsent₁ : ∀ {s₂ : Scene ι}, Later C me s₁ s₂ →
        C.vacant d → ∀ b, ¬s₂.Has (C.binaryPlace d) b := fun h₂ =>
      absent_binary_of_works (h₁.trans (Works.of_later h₂ h₁.owner)) not_isRecorded_binary habsent
    refine needs_settle h₁.owner hreserved Site.plain_binary Site.guard_binary hhas
      (fun s₂ h₂ => careful_move Site.plain_binary
        (fun h => absurd h hsource) fun _ => habsent₁ h₂)
      (fun s₂ s₃ h₂ hopen hpub hthere => ?_)
      (fun s₂ h₂ hb => Task.needs_pure_of (hok b s₂ h₂.sound h₂.owner hb)) fun p e s₂ h₂ =>
        herr p e s₂ h₂.sound h₂.owner
    · have hown₂ := (h₂.relies.owner d _).2 h₁.owner
      exact fair_publishBinary hpub h₂.sound hown₂ (habsent₁ h₂) hopen
        ((h₂.relies.has_iff h₁.owner Site.guard_sidecar _).2 hside) hthere
  · exact needs_discard h₁.owner hreserved fun s₂ h₂ => herr p e s₂ h₂.sound h₂.owner

end

end KernelCache
