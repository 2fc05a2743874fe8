/-
**What a cache has in stock.**

Between builds the entries hold nothing but what was made for requests.  A translated source is
there together with a manifest of its kernels, a binary together with its checksum.  What else is
known of them depends on what is known of the requests, and is kept apart: a supply says which
translations and binaries an entry may hold.

Main definitions:

* `Supply`, `Supply.any` — what entries may hold, and the supply of which nothing is known;
* `Files.Translated`, `Files.Stocked` — entries with a translation, and **what a cache has in
  stock**;
* `Request.Supplies` — requests for which no more is made than the supply has;
* `Ingredients.Distinct`, `Supply.of` — components that are told apart by their digests, and what is
  made of them.

Main results:

* `Files.Translated.unique` — an entry holds one translation;
* `Files.Stocked.translation`, `Files.Stocked.binary` — what is found is in the supply;
* `Files.Stocked.translate`, `Files.Stocked.compile` — what is made goes into stock;
* `Files.Stocked.gives`, `Files.Stocked.binary_eq` — where components are told apart, what is found
  is what would be made.
-/

import KernelCache.Proofs.Build.Request
import KernelCache.Proofs.Kernel.Manifest
import KernelCache.Proofs.Solo.State

set_option relaxedAutoImplicit false
set_option autoImplicit false

namespace KernelCache

/-- What entries may hold: translations, and binaries made of them. -/
structure Supply where
  translation : Digest → Translation → Prop
  binary : Digest → Translation → Bytes → Prop

/-- The supply of which nothing is known. -/
def Supply.any : Supply := ⟨fun _ _ => True, fun _ _ _ => True⟩

namespace Files

/-- An entry holds a translation: its text, and a manifest of its kernels. -/
structure Translated (f : Files) (S : Site) (d : Digest) (t : Translation) : Prop where
  source : f d (Utf8.encode S.sourceName) = some (Utf8.encode t.source)
  manifest : ∃ m : Manifest, f d (Utf8.encode "manifest.json") = some m.toBytes ∧
    m.kernels = t.kernels

/-- Whatever the entries hold is complete and in the supply, and no fresh files are left. -/
structure Stocked (S : Site) (V : Supply) (f : Files) : Prop where
  tidy : ∀ d x, Site.IsScratch x → f d x = Option.none
  translated : ∀ d b, f d (Utf8.encode S.sourceName) = some b →
    ∃ t, V.translation d t ∧ f.Translated S d t
  compiled : ∀ d b, f d (Utf8.encode "binary") = some b →
    f d (Utf8.encode "binary.xxh3") = some (Utf8.encode (Checksum.of b).toText) ∧
      ∃ t, f.Translated S d t ∧ V.binary d t b

end Files

/-- No more is made for a request for a source than the supply has. -/
structure Request.Supplies (r : Request) (S : Site)
    (binary? : Identity → Path → Bytes → Option Bytes) (source : Bytes) (V : Supply) : Prop where
  translation : ∀ t, r.Translates source t → V.translation (r.entry source) t
  binary : ∀ t b, V.translation (r.entry source) t →
    binary? r.view.identity (S.store.path (r.entry source) .source) (Utf8.encode t.source) =
      some b → V.binary (r.entry source) t b

namespace Files

section

variable {S : Site} {V : Supply} {f f' : Files} {d e : Digest} {t t' : Translation} {b : Bytes}

/-! ### What is found -/

/-- An entry holds one translation. -/
theorem Translated.unique (h : f.Translated S d t) (h' : f.Translated S d t') : t = t' := by
  obtain ⟨m, hm, hkernels⟩ := h.manifest
  obtain ⟨m', hm', hkernels'⟩ := h'.manifest
  have hsource : t.source = t'.source :=
    Utf8.encode_injective (Option.some.inj (h.source.symm.trans h'.source))
  have hbytes : m.toBytes = m'.toBytes := Option.some.inj (hm.symm.trans hm')
  have hread := Manifest.ofBytes?_toBytes m
  rw [hbytes, Manifest.ofBytes?_toBytes] at hread
  obtain rfl := Option.some.inj hread
  obtain ⟨source, kernels⟩ := t
  obtain ⟨source', kernels'⟩ := t'
  simp only [Translation.mk.injEq]
  exact ⟨hsource, hkernels.symm.trans hkernels'⟩

theorem Translated.congr (h : f.Translated S e t) (heq : f' e = f e) : f'.Translated S e t := by
  refine ⟨?_, ?_⟩
  · rw [heq]
    exact h.source
  · rw [heq]
    exact h.manifest

/-- An empty cache has nothing in stock. -/
theorem stocked_none : Stocked S V none where
  tidy := fun _ _ _ => rfl
  translated := fun _ _ h => by cases h
  compiled := fun _ _ h => by cases h

/-- A translation that is found is in the supply. -/
theorem Stocked.translation (h : f.Stocked S V) (htr : f.Translated S d t) : V.translation d t := by
  obtain ⟨t', hV, htr'⟩ := h.translated d _ htr.source
  obtain rfl := htr.unique htr'
  exact hV

/-- A binary that is found comes with its checksum, and is in the supply for its translation. -/
theorem Stocked.binary (h : f.Stocked S V) (htr : f.Translated S d t)
    (hb : f d (Utf8.encode "binary") = some b) :
    f d (Utf8.encode "binary.xxh3") = some (Utf8.encode (Checksum.of b).toText) ∧
      V.binary d t b := by
  obtain ⟨hside, t', htr', hV⟩ := h.compiled d b hb
  obtain rfl := htr.unique htr'
  exact ⟨hside, hV⟩

/-- Where there is no translation there is no binary. -/
theorem Stocked.binary_none (h : f.Stocked S V)
    (hnone : f d (Utf8.encode S.sourceName) = Option.none) :
    f d (Utf8.encode "binary") = Option.none := by
  cases hb : f d (Utf8.encode "binary") with
  | none => rfl
  | some b =>
      obtain ⟨-, t, htr, -⟩ := h.compiled d b hb
      cases hnone.symm.trans htr.source

/-! ### What is made -/

/-- The stock stays in order when one entry changes and is in order afterwards. -/
theorem Stocked.of_entry (h : f.Stocked S V) (hothers : ∀ e, e ≠ d → f' e = f e)
    (htidy : ∀ y, Site.IsScratch y → f' d y = Option.none)
    (htranslated : ∀ b, f' d (Utf8.encode S.sourceName) = some b →
      ∃ t, V.translation d t ∧ f'.Translated S d t)
    (hcompiled : ∀ b, f' d (Utf8.encode "binary") = some b →
      f' d (Utf8.encode "binary.xxh3") = some (Utf8.encode (Checksum.of b).toText) ∧
        ∃ t, f'.Translated S d t ∧ V.binary d t b) : f'.Stocked S V where
  tidy := fun e y hy => by
    by_cases hed : e = d
    · rw [hed]
      exact htidy y hy
    · rw [hothers e hed]
      exact h.tidy e y hy
  translated := fun e b he => by
    by_cases hed : e = d
    · rw [hed] at he ⊢
      exact htranslated b he
    · rw [hothers e hed] at he
      obtain ⟨t, hV, htr⟩ := h.translated e b he
      exact ⟨t, hV, htr.congr (hothers e hed)⟩
  compiled := fun e b he => by
    by_cases hed : e = d
    · rw [hed] at he ⊢
      exact hcompiled b he
    · rw [hothers e hed] at he ⊢
      obtain ⟨hside, t, htr, hV⟩ := h.compiled e b he
      exact ⟨hside, t, htr.congr (hothers e hed), hV⟩

theorem set_digest_ne {name : String} {v : Option Bytes} (h : e ≠ d) : f.set d name v e = f e :=
  funext fun _ => set_of_digest_ne h

/-- A translation goes into an entry that has no source yet. -/
theorem Stocked.translate (h : f.Stocked S V)
    (hnone : f d (Utf8.encode S.sourceName) = Option.none) (hV : V.translation d t)
    {m : Manifest} (hm : m.kernels = t.kernels)
    (hf' : f' = (f.set d "manifest.json" (some m.toBytes)).set d S.sourceName
      (some (Utf8.encode t.source))) :
    f'.Stocked S V ∧ f'.Translated S d t := by
  have hmanifest : "manifest.json" ≠ S.sourceName := (S.sourceName_ne (by decide)).symm
  have hbinary : "binary" ≠ S.sourceName := (S.sourceName_ne (by decide)).symm
  have htr : f'.Translated S d t := by
    refine ⟨?_, m, ?_, hm⟩
    · rw [hf', set_self]
    · rw [hf', set_of_name_ne hmanifest, set_self]
  refine ⟨h.of_entry (fun e he => ?_) (fun y hy => ?_) (fun _ _ => ⟨t, hV, htr⟩) fun b hb => ?_,
    htr⟩
  · rw [hf', set_digest_ne he, set_digest_ne he]
  · rw [hf', set_of_ne fun heq => S.not_isScratch_sourceName (heq ▸ hy),
      set_of_ne fun heq => Site.not_isScratch_manifest (heq ▸ hy)]
    exact h.tidy _ y hy
  · -- a binary would have been compiled from a source, and there was none
    rw [hf', set_of_name_ne hbinary, set_of_name_ne (by decide), h.binary_none hnone] at hb
    cases hb

/-- A binary goes into an entry that has a translation. -/
theorem Stocked.compile (h : f.Stocked S V) (htr : f.Translated S d t) (hV : V.binary d t b)
    (hf' : f' = (f.set d "binary.xxh3" (some (Utf8.encode (Checksum.of b).toText))).set d "binary"
      (some b)) :
    f'.Stocked S V ∧ f'.Translated S d t := by
  have hbinary : S.sourceName ≠ "binary" := S.sourceName_ne (by decide)
  have hside : S.sourceName ≠ "binary.xxh3" := S.sourceName_ne (by decide)
  have htr' : f'.Translated S d t := by
    refine ⟨?_, ?_⟩
    · rw [hf', set_of_name_ne hbinary, set_of_name_ne hside]
      exact htr.source
    · rw [hf', set_of_name_ne (by decide), set_of_name_ne (by decide)]
      exact htr.manifest
  refine ⟨h.of_entry (fun e he => ?_) (fun y hy => ?_) (fun _ _ => ⟨t, h.translation htr, htr'⟩)
    fun b' hb' => ?_, htr'⟩
  · rw [hf', set_digest_ne he, set_digest_ne he]
  · rw [hf', set_of_ne fun heq => Site.not_isScratch_binary (heq ▸ hy),
      set_of_ne fun heq => Site.not_isScratch_sidecar (heq ▸ hy)]
    exact h.tidy _ y hy
  · rw [hf', set_self] at hb'
    obtain rfl := Option.some.inj hb'
    refine ⟨?_, t, htr', hV⟩
    rw [hf', set_of_name_ne (by decide), set_self]

end

end Files

/-! ### Components that are told apart -/

/-- Components that differ have different digests. -/
def Ingredients.Distinct (K : Ingredients → Prop) : Prop :=
  ∀ x y, K x → K y → x.digest = y.digest → x = y

/-- What is made of components for which `K` holds. -/
def Supply.of (S : Site) (binary? : Identity → Path → Bytes → Option Bytes)
    (K : Ingredients → Prop) : Supply where
  translation := fun d t => ∃ x, K x ∧ x.digest = d ∧ x.Gives t
  binary := fun d t b => ∃ x, K x ∧ x.digest = d ∧
    binary? x.identity (S.store.path d .source) (Utf8.encode t.source) = some b

section

variable {S : Site} {binary? : Identity → Path → Bytes → Option Bytes} {K : Ingredients → Prop}
  {r : Request} {source : Bytes} {f : Files} {t : Translation} {b : Bytes}

theorem Request.supplies_any : r.Supplies S binary? source .any where
  translation := fun _ _ => trivial
  binary := fun _ _ _ _ => trivial

/-- What is made for a request is made of its components. -/
theorem Request.supplies_of (hx : K (r.ingredients source)) :
    r.Supplies S binary? source (.of S binary? K) where
  translation := fun _ ht => ⟨_, hx, rfl, ht.gives⟩
  binary := fun _ _ _ hb => ⟨_, hx, rfl, hb⟩

/-- If components are told apart, the translation that an entry holds is the one that they give. -/
theorem Files.Stocked.gives (hf : f.Stocked S (.of S binary? K)) (hK : Ingredients.Distinct K)
    (hx : K (r.ingredients source)) (htr : f.Translated S (r.entry source) t) :
    (r.ingredients source).Gives t := by
  obtain ⟨y, hy, hdigest, ht⟩ := hf.translation htr
  obtain rfl := hK y _ hy hx hdigest
  exact ht

/-- If components are told apart, the binary that an entry holds is the one that the compiler makes
of their translation. -/
theorem Files.Stocked.binary_eq (hf : f.Stocked S (.of S binary? K))
    (hK : Ingredients.Distinct K) (hx : K (r.ingredients source))
    (ht : (r.ingredients source).Gives t)
    (hbinary : f (r.entry source) (Utf8.encode "binary") = some b) :
    binary? r.view.identity (S.store.path (r.entry source) .source) (Utf8.encode t.source) =
      some b := by
  obtain ⟨-, t', htr, y, hy, hdigest, hb⟩ := hf.compiled _ b hbinary
  obtain rfl := ht.unique (hf.gives hK hx htr)
  obtain rfl := hK y _ hy hx hdigest
  exact hb

end

end KernelCache
