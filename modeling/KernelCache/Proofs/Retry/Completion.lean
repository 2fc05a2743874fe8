/-
**Completing an entry.**

A translation and its manifest, a binary and its checksum: each is a file with a companion that is
written first.  An attempt leaves such a pair as it is, or with the companion alone, or complete.
So it does not matter in how many attempts a pair is completed, as long as the same is written.

Main definitions:

* `Pair.Grows` — what may become of a pair;
* `Request.Adds` — **what attempts may make of an entry**.

Main results:

* `Pair.Grows.trans`, `Pair.Grows.unique` — several attempts are as good as one, and there is one
  way to complete a pair;
* `Request.Adds.trans`, `Request.Adds.unique` — **the same for entries**;
* `Request.Adds.gets_iff` — a request gets the same from an entry to which it was added;
* `Request.Leaves.adds`, `Request.Leaves.stocked` — what an attempt leaves is of this kind, and the
  stock stays in order.
-/

import KernelCache.Proofs.Retry.Attempt

set_option relaxedAutoImplicit false
set_option autoImplicit false

namespace KernelCache

/-! ### Pairs -/

/-- A file and its companion, each if it is there. -/
structure Pair where
  main : Option Bytes
  companion : Option Bytes

namespace Pair

/-- What may become of a pair.  If the file is not there, its companion may be written, and then the
file; `makes` says which contents go together. -/
inductive Grows (makes : Bytes → Bytes → Prop) : Pair → Pair → Prop where
  | nothing (p : Pair) : Grows makes p p
  | half {old : Option Bytes} {c b : Bytes} (h : makes c b) :
      Grows makes ⟨none, old⟩ ⟨none, some c⟩
  | whole {old : Option Bytes} {c b : Bytes} (h : makes c b) :
      Grows makes ⟨none, old⟩ ⟨some b, some c⟩

/-- Whether there is at most one way to complete a pair. -/
def Single (makes : Bytes → Bytes → Prop) : Prop :=
  ∀ c b c' b', makes c b → makes c' b' → c = c' ∧ b = b'

variable {makes makes' : Bytes → Bytes → Prop} {p q s : Pair}

/-- A file that is there stays, with its companion. -/
theorem Grows.eq_of_main (h : p.Grows makes q) (hmain : p.main ≠ none) : q = p := by
  cases h with
  | nothing => rfl
  | half => exact absurd rfl hmain
  | whole => exact absurd rfl hmain

/-- The file is as it was, or it has come into being, with its companion. -/
theorem Grows.main_eq_or (h : p.Grows makes q) :
    q.main = p.main ∨ p.main = none ∧ ∃ c b, makes c b ∧ q = ⟨some b, some c⟩ := by
  cases h with
  | nothing => exact Or.inl rfl
  | half => exact Or.inl rfl
  | whole hmakes => exact Or.inr ⟨rfl, _, _, hmakes, rfl⟩

theorem Grows.mono (hmakes : ∀ {c b}, makes c b → makes' c b) (h : p.Grows makes q) :
    p.Grows makes' q := by
  cases h with
  | nothing => exact .nothing p
  | half h => exact .half (hmakes h)
  | whole h => exact .whole (hmakes h)

/-- **Growing several times is growing once.** -/
theorem Grows.trans (h : p.Grows makes q) (h' : q.Grows makes s) : p.Grows makes s := by
  cases h with
  | nothing => exact h'
  | half hmakes =>
      cases h' with
      | nothing => exact .half hmakes
      | half hmakes' => exact .half hmakes'
      | whole hmakes' => exact .whole hmakes'
  | whole hmakes =>
      rw [h'.eq_of_main (by simp)]
      exact .whole hmakes

/-- **There is one way to complete a pair.** -/
theorem Grows.unique (hmakes : Single makes) (h : p.Grows makes q) (h' : p.Grows makes s)
    (hq : q.main ≠ none) (hs : s.main ≠ none) : q = s := by
  cases h with
  | nothing => exact (h'.eq_of_main hq).symm
  | half => exact absurd rfl hq
  | whole hm =>
      cases h' with
      | nothing => exact absurd rfl hs
      | half => exact absurd rfl hs
      | whole hm' =>
          obtain ⟨hc, hb⟩ := hmakes _ _ _ _ hm hm'
          rw [hc, hb]

end Pair

/-! ### Entries -/

section

variable (r : Request) (S : Site) (binary? : Identity → Path → Bytes → Option Bytes)
  (source : Bytes)

/-- The translation of an entry, with its manifest. -/
def Files.translationPair (f : Files) (S : Site) (d : Digest) : Pair :=
  ⟨f d (Utf8.encode S.sourceName), f d (Utf8.encode "manifest.json")⟩

/-- The binary of an entry, with its checksum. -/
def Files.binaryPair (f : Files) (d : Digest) : Pair :=
  ⟨f d (Utf8.encode "binary"), f d (Utf8.encode "binary.xxh3")⟩

/-- The manifests and translations that a request writes for a source. -/
def Request.TranslatesTo (manifest text : Bytes) : Prop :=
  ∃ t, r.Translates source t ∧ manifest = (r.manifest t).toBytes ∧ text = Utf8.encode t.source

/-- The checksums and binaries that a request writes for a translation, if there is one. -/
def Request.CompilesTo (text? : Option Bytes) (checksum b : Bytes) : Prop :=
  ∃ text, text? = some text ∧
    binary? r.view.identity (S.store.path (r.entry source) .source) text = some b ∧
    checksum = Utf8.encode (Checksum.of b).toText

/-- **What attempts may make of the entry of a request.** -/
structure Request.Adds (f g : Files) : Prop where
  translation : (f.translationPair S (r.entry source)).Grows (r.TranslatesTo source)
    (g.translationPair S (r.entry source))
  binary : (f.binaryPair (r.entry source)).Grows
    (r.CompilesTo S binary? source (g (r.entry source) (Utf8.encode S.sourceName)))
    (g.binaryPair (r.entry source))

/-- Whether the entry of a request has a translation and a binary. -/
structure Request.Complete (f : Files) : Prop where
  translation : f (r.entry source) (Utf8.encode S.sourceName) ≠ none
  binary : f (r.entry source) (Utf8.encode "binary") ≠ none

end

section

variable {r : Request} {T : Toolkit} {S : Site}
  {binary? : Identity → Path → Bytes → Option Bytes} {V : Supply} {source other : Bytes}
  {f g g' : Files} {t : Translation} {h : Sketch}

theorem Request.single_translatesTo : Pair.Single (r.TranslatesTo source) := by
  rintro c b c' b' ⟨t, ht, rfl, rfl⟩ ⟨t', ht', rfl, rfl⟩
  obtain rfl := ht.unique ht'
  exact ⟨rfl, rfl⟩

theorem Request.single_compilesTo (text? : Option Bytes) :
    Pair.Single (r.CompilesTo S binary? source text?) := by
  rintro c b c' b' ⟨text, htext, hb, rfl⟩ ⟨text', htext', hb', rfl⟩
  obtain rfl := Option.some.inj (htext.symm.trans htext')
  obtain rfl := Option.some.inj (hb.symm.trans hb')
  exact ⟨rfl, rfl⟩

/-- A translation that is there stays. -/
theorem Request.Adds.source_eq (h : r.Adds S binary? source f g)
    (hthere : f (r.entry source) (Utf8.encode S.sourceName) ≠ none) :
    g (r.entry source) (Utf8.encode S.sourceName) =
      f (r.entry source) (Utf8.encode S.sourceName) :=
  congrArg Pair.main (h.translation.eq_of_main hthere)

/-- **Several attempts are as good as one.** -/
theorem Request.Adds.trans (h : r.Adds S binary? source f g)
    (h' : r.Adds S binary? source g g') : r.Adds S binary? source f g' where
  translation := h.translation.trans h'.translation
  binary := by
    -- what was compiled was compiled from the translation that is there at the end
    have hsame {c b : Bytes} (hmakes : r.CompilesTo S binary? source
        (g (r.entry source) (Utf8.encode S.sourceName)) c b) : r.CompilesTo S binary? source
        (g' (r.entry source) (Utf8.encode S.sourceName)) c b := by
      obtain ⟨text, htext, hb⟩ := hmakes
      exact ⟨text, (h'.source_eq (by simp [htext])).trans htext, hb⟩
    exact (h.binary.mono hsame).trans h'.binary

/-- **There is one way to complete an entry.** -/
theorem Request.Adds.unique (h : r.Adds S binary? source f g)
    (h' : r.Adds S binary? source f g') (hg : r.Complete S source g)
    (hg' : r.Complete S source g') :
    g.translationPair S (r.entry source) = g'.translationPair S (r.entry source) ∧
      g.binaryPair (r.entry source) = g'.binaryPair (r.entry source) := by
  have htranslation := h.translation.unique r.single_translatesTo h'.translation hg.translation
    hg'.translation
  have hsource : g (r.entry source) (Utf8.encode S.sourceName) =
      g' (r.entry source) (Utf8.encode S.sourceName) := congrArg Pair.main htranslation
  refine ⟨htranslation, h.binary.unique (r.single_compilesTo _) ?_ hg.binary hg'.binary⟩
  rw [hsource]
  exact h'.binary

/-! ### What a request gets -/

/-- Whether an entry holds a translation can be seen from the pair. -/
theorem Files.Translated.of_pair {d : Digest} (htr : f.Translated S d t)
    (hpair : g.translationPair S d = f.translationPair S d) : g.Translated S d t where
  source := (congrArg Pair.main hpair).trans htr.source
  manifest := by
    obtain ⟨m, hm, hkernels⟩ := htr.manifest
    exact ⟨m, (congrArg Pair.companion hpair).trans hm, hkernels⟩

/-- Where there is no translation, what a request finds is made for it. -/
theorem Request.finds_iff_of_none (hnone : f (r.entry source) (Utf8.encode S.sourceName) = none) :
    r.Finds S source f t ↔ r.Translates source t := by
  refine ⟨fun ht => ?_, fun ht => Or.inr ⟨hnone, ht⟩⟩
  rcases ht with htr | ⟨-, ht⟩
  · cases hnone.symm.trans htr.source
  · exact ht

/-- Attempts do not change which translation the request finds. -/
theorem Request.Adds.finds_iff (hadds : r.Adds S binary? source f g) :
    r.Finds S source g t ↔ r.Finds S source f t := by
  by_cases hf : f (r.entry source) (Utf8.encode S.sourceName) = none
  · rw [Request.finds_iff_of_none hf]
    rcases hadds.translation.main_eq_or with hsame | ⟨-, c, b, ⟨t', ht', rfl, rfl⟩, hpair⟩
    · exact Request.finds_iff_of_none (hsame.trans hf)
    · -- the translation was made for the request by one of the attempts
      have htr : g.Translated S (r.entry source) t' :=
        ⟨congrArg Pair.main hpair, _, congrArg Pair.companion hpair, rfl⟩
      constructor
      · intro ht
        obtain rfl := ht.unique (Or.inl htr)
        exact ht'
      · intro ht
        obtain rfl := ht.unique ht'
        exact Or.inl htr
  · have hpair := hadds.translation.eq_of_main hf
    rw [Request.Finds, Request.Finds, hadds.source_eq hf]
    exact or_congr_left ⟨fun htr => htr.of_pair hpair.symm, fun htr => htr.of_pair hpair⟩

/-- Attempts do not change which binary the request finds. -/
theorem Request.Adds.binds_iff (hadds : r.Adds S binary? source f g)
    (ht : r.Finds S source g t) {b : Bytes} :
    r.Binds S binary? source g t b ↔ r.Binds S binary? source f t b := by
  rcases hadds.binary.main_eq_or with hsame | ⟨hnone, c, b', ⟨text, htext, hb', -⟩, hpair⟩
  · have hsame : g (r.entry source) (Utf8.encode "binary") =
        f (r.entry source) (Utf8.encode "binary") := hsame
    rw [Request.Binds, Request.Binds, hsame]
  · -- the binary was compiled from the translation that is there
    have htr : text = Utf8.encode t.source := by
      rcases ht with htr | ⟨hgone, -⟩
      · exact Option.some.inj (htext.symm.trans htr.source)
      · cases hgone.symm.trans htext
    have hfound : r.Binds S binary? source g t b' := Or.inl (congrArg Pair.main hpair)
    have hmade : r.Binds S binary? source f t b' := Or.inr ⟨hnone, htr ▸ hb'⟩
    constructor
    · intro hb
      rwa [hb.unique hfound]
    · intro hb
      rwa [hb.unique hmade]

/-- **Attempts do not change what the request gets.** -/
theorem Request.Adds.gets_iff (hadds : r.Adds S binary? source f g) {k : Kernel} :
    r.Gets T S binary? source g k ↔ r.Gets T S binary? source f k := by
  constructor
  · rintro ⟨t, b, ht, hb, hk⟩
    exact ⟨t, b, hadds.finds_iff.1 ht, (hadds.binds_iff ht).1 hb, hk⟩
  · rintro ⟨t, b, ht, hb, hk⟩
    have ht' := hadds.finds_iff.2 ht
    exact ⟨t, b, ht', (hadds.binds_iff ht').2 hb, hk⟩

/-! ### What attempts leave -/

/-- Nothing becomes of an entry whose files are the same. -/
theorem Request.Adds.of_eq (heq : g (r.entry source) = f (r.entry source)) :
    r.Adds S binary? source f g where
  translation := by
    rw [Files.translationPair, Files.translationPair, heq]
    exact .nothing _
  binary := by
    rw [Files.binaryPair, Files.binaryPair, heq]
    exact .nothing _

/-- Translating leaves the other files of the entry alone. -/
theorem Request.Translating.eq_of_name (h : r.Translating S source f g) {name : String}
    (hmanifest : name ≠ "manifest.json") (hsource : name ≠ S.sourceName) (d : Digest) :
    g d (Utf8.encode name) = f d (Utf8.encode name) := by
  cases h with
  | nothing => rfl
  | manifest hnone ht => exact Files.set_of_name_ne hmanifest
  | source hnone ht =>
      rw [Request.withTranslation, Files.set_of_name_ne hsource]
      exact Files.set_of_name_ne hmanifest

theorem Request.Translating.grows (h : r.Translating S source f g) :
    (f.translationPair S (r.entry source)).Grows (r.TranslatesTo source)
      (g.translationPair S (r.entry source)) := by
  have hnames : S.sourceName ≠ "manifest.json" := S.sourceName_ne (by decide)
  cases h with
  | nothing => exact .nothing _
  | manifest hnone ht =>
      rw [Files.translationPair, Files.translationPair, Request.withManifest,
        Files.set_of_name_ne hnames, Files.set_self, hnone]
      exact .half ⟨_, ht, rfl, rfl⟩
  | source hnone ht =>
      rw [Files.translationPair, Files.translationPair, hnone, Request.withTranslation,
        Files.set_self, Files.set_of_name_ne hnames.symm, Request.withManifest, Files.set_self]
      exact .whole ⟨_, ht, rfl, rfl⟩

theorem Request.Compiling.grows (h : r.Compiling S binary? source f g) :
    (f.binaryPair (r.entry source)).Grows
      (r.CompilesTo S binary? source (f (r.entry source) (Utf8.encode S.sourceName)))
      (g.binaryPair (r.entry source)) := by
  cases h with
  | nothing => exact .nothing _
  | checksum hnone htext hb =>
      rw [Files.binaryPair, Files.binaryPair, Request.withChecksum,
        Files.set_of_name_ne (by decide), Files.set_self, hnone]
      exact .half ⟨_, htext, hb, rfl⟩
  | binary hnone htext hb =>
      rw [Files.binaryPair, Files.binaryPair, hnone, Request.withBinary, Files.set_self,
        Files.set_of_name_ne (by decide), Request.withChecksum, Files.set_self]
      exact .whole ⟨_, htext, hb, rfl⟩

/-- **What an attempt leaves is what attempts may make of an entry.** -/
theorem Request.Leaves.adds (hleaves : r.Leaves S binary? source f h) :
    r.Adds S binary? source f h.files := by
  obtain ⟨f', htranslating, hcompiling⟩ := hleaves.files
  refine ⟨?_, ?_⟩
  · have hsame : h.files.translationPair S (r.entry source) =
        f'.translationPair S (r.entry source) := by
      rw [Files.translationPair, hcompiling.eq_of_name (S.sourceName_ne (by decide))
        (S.sourceName_ne (by decide)), hcompiling.eq_of_name (by decide) (by decide)]
      rfl
    rw [hsame]
    exact htranslating.grows
  · have hsame : f'.binaryPair (r.entry source) = f.binaryPair (r.entry source) := by
      rw [Files.binaryPair, htranslating.eq_of_name (by decide) (S.sourceName_ne (by decide)).symm,
        htranslating.eq_of_name (by decide) (S.sourceName_ne (by decide)).symm]
      rfl
    rw [← hsame, hcompiling.eq_of_name (S.sourceName_ne (by decide)) (S.sourceName_ne (by decide))]
    exact hcompiling.grows

theorem Request.Translating.eq_of_digest (h : r.Translating S source f g) {d : Digest}
    (hd : d ≠ r.entry source) : g d = f d := by
  cases h with
  | nothing => rfl
  | manifest hnone ht => exact Files.set_digest_ne hd
  | source hnone ht =>
      rw [Request.withTranslation, Files.set_digest_ne hd]
      exact Files.set_digest_ne hd

theorem Request.Compiling.eq_of_digest (h : r.Compiling S binary? source f g) {d : Digest}
    (hd : d ≠ r.entry source) : g d = f d := by
  cases h with
  | nothing => rfl
  | checksum hnone htext hb => exact Files.set_digest_ne hd
  | binary hnone htext hb =>
      rw [Request.withBinary, Files.set_digest_ne hd]
      exact Files.set_digest_ne hd

/-- An attempt leaves other entries alone. -/
theorem Request.Leaves.eq_of_digest (hleaves : r.Leaves S binary? source f h) {d : Digest}
    (hd : d ≠ r.entry source) : h.files d = f d := by
  obtain ⟨f', htranslating, hcompiling⟩ := hleaves.files
  exact (hcompiling.eq_of_digest hd).trans (htranslating.eq_of_digest hd)

/-- What an attempt for any source makes of the entry for a given one, unless two sources have the
same entry. -/
theorem Request.Leaves.adds_of (hleaves : r.Leaves S binary? other f h)
    (hother : r.entry source = r.entry other → source = other) :
    r.Adds S binary? source f h.files := by
  by_cases heq : r.entry source = r.entry other
  · obtain rfl := hother heq
    exact hleaves.adds
  · exact .of_eq (hleaves.eq_of_digest heq)

/-! ### The stock -/

/-- A manifest may be written where there is no translation. -/
theorem Files.Stocked.withManifest (hf : f.Stocked S V)
    (hnone : f (r.entry source) (Utf8.encode S.sourceName) = Option.none) :
    (r.withManifest source t f).Stocked S V := by
  have hnames : S.sourceName ≠ "manifest.json" := S.sourceName_ne (by decide)
  refine hf.of_entry (d := r.entry source) (fun e he => Files.set_digest_ne he) (fun y hy => ?_)
    (fun b hb => ?_) fun b hb => ?_
  · rw [Request.withManifest,
      Files.set_of_ne fun heq => Site.not_isScratch_manifest (heq ▸ hy)]
    exact hf.tidy _ y hy
  · rw [Request.withManifest, Files.set_of_name_ne hnames, hnone] at hb
    cases hb
  · rw [Request.withManifest, Files.set_of_name_ne (by decide), hf.binary_none hnone] at hb
    cases hb

/-- A checksum may be written where there is no binary. -/
theorem Files.Stocked.withChecksum (hf : f.Stocked S V) {b : Bytes}
    (hnone : f (r.entry source) (Utf8.encode "binary") = Option.none) :
    (r.withChecksum source b f).Stocked S V := by
  have hnames : S.sourceName ≠ "binary.xxh3" := S.sourceName_ne (by decide)
  have hpair : (r.withChecksum source b f).translationPair S (r.entry source) =
      f.translationPair S (r.entry source) := by
    rw [Files.translationPair, Files.translationPair, Request.withChecksum,
      Files.set_of_name_ne hnames, Files.set_of_name_ne (by decide)]
  refine hf.of_entry (d := r.entry source) (fun e he => Files.set_digest_ne he) (fun y hy => ?_)
    (fun b' hb => ?_) fun b' hb => ?_
  · rw [Request.withChecksum,
      Files.set_of_ne fun heq => Site.not_isScratch_sidecar (heq ▸ hy)]
    exact hf.tidy _ y hy
  · rw [Request.withChecksum, Files.set_of_name_ne hnames] at hb
    obtain ⟨t, hV, htr⟩ := hf.translated _ b' hb
    exact ⟨t, hV, htr.of_pair hpair⟩
  · rw [Request.withChecksum, Files.set_of_name_ne (by decide), hnone] at hb
    cases hb

/-- **What an attempt leaves is in stock.** -/
theorem Request.Leaves.stocked (hf : f.Stocked S V) (hr : r.Supplies S binary? source V)
    (hleaves : r.Leaves S binary? source f h) : h.files.Stocked S V := by
  obtain ⟨f', htranslating, hcompiling⟩ := hleaves.files
  generalize h.files = g at hcompiling ⊢
  have hf' : f'.Stocked S V := by
    cases htranslating with
    | nothing => exact hf
    | manifest hnone ht => exact hf.withManifest hnone
    | source hnone ht => exact (hf.translate hnone (hr.translation _ ht) rfl rfl).1
  cases hcompiling with
  | nothing => exact hf'
  | checksum hnone htext hb => exact hf'.withChecksum hnone
  | binary hnone htext hb =>
      obtain ⟨t, hV, htr⟩ := hf'.translated _ _ htext
      obtain rfl := Option.some.inj (htext.symm.trans htr.source)
      exact (hf'.compile htr (hr.binary t _ hV hb) rfl).1

end

end KernelCache
