/-
**What a translation depends on.**

As C, a source gives the same translation whatever file it is from and whatever function is asked
for: these only decide whether there is a translation at all.  Of the flags only their text at the
start of the source counts.

Main definitions:

* `Translation.ofText` — the translation of a text for an execution model, as C;
* `Translation.IsOf` — being what the translator makes of a source, as C.

Main results:

* `translate_eq` — translating in terms of it;
* `exists_scan_of_translate` — a translation is made from the kernels of its source;
* `Translation.isOf_of_translate` — **a translation is what its source gives as C**.
-/

import KernelCache.Kernel.Translation

set_option relaxedAutoImplicit false
set_option autoImplicit false

namespace KernelCache

namespace Translation

/-- The translation of a text as C, with whatever kernels it has. -/
def ofText (b : Backend) (flags : Flags) (text : String) : Except Declaration.Fault Translation :=
  (Declaration.scan text.toList).map fun ds => ⟨Translation.text b flags text ds, table b ds⟩

/-- Only the text of the flags counts. -/
theorem ofText_congr {b : Backend} {flags flags' : Flags} (h : flags.prelude = flags'.prelude)
    (text : String) : ofText b flags text = ofText b flags' text := by
  have htext : Translation.text b flags = Translation.text b flags' := by
    funext source ds
    simp only [Translation.text, body, h]
  rw [ofText, ofText, htext]

/-- A translation is what the translator makes of a source as C, for an execution model and flags,
whichever of its kernels is asked for, and from whatever file. -/
structure IsOf (t : Translation) (b : Backend) (flags : Flags) (source : Bytes) : Prop where
  nonempty : ∃ function, t.kernels.contains function
  translate : ∃ text, Utf8.toString? source = some text ∧ ∀ path function,
    KernelCache.translate ⟨text, path, b, .c, function, flags⟩ =
      if t.kernels.contains function then .ok t else .error (.missingFunction path function)

end Translation

/-- Translating is translating as C and looking for the function. -/
theorem translate_eq (r : TranslationRequest) : translate r =
    if r.language ≠ .c then .error (.unsupportedLanguage r.path r.language)
    else match Translation.ofText r.backend r.flags r.source with
      | .error fault => .error (.ofFault r.path fault)
      | .ok t =>
        if t.kernels.contains r.function then .ok t
        else .error (.missingFunction r.path r.function) := by
  rw [translate, Translation.ofText]
  split
  · rfl
  · cases Declaration.scan r.source.toList with
    | error fault => rfl
    | ok ds => rfl

theorem translate_eq_ok_iff {r : TranslationRequest} {t : Translation} : translate r = .ok t ↔
    r.language = .c ∧ Translation.ofText r.backend r.flags r.source = .ok t ∧
      t.kernels.contains r.function := by
  rw [translate_eq]
  by_cases hc : r.language = .c
  · rw [if_neg (not_not_intro hc)]
    cases Translation.ofText r.backend r.flags r.source with
    | error fault => simp
    | ok t' =>
        dsimp only
        by_cases hf : t'.kernels.contains r.function
        · rw [if_pos hf]
          constructor
          · rintro h
            cases h
            exact ⟨hc, rfl, hf⟩
          · rintro ⟨-, h, -⟩
            cases h
            rfl
        · rw [if_neg hf]
          constructor
          · intro h
            cases h
          · rintro ⟨-, h, hf'⟩
            cases h
            exact absurd hf' hf
  · rw [if_pos hc]
    constructor
    · intro h
      cases h
    · rintro ⟨h, -⟩
      exact absurd h hc

/-- A translation is made from the kernels of its source. -/
theorem exists_scan_of_translate {r : TranslationRequest} {t : Translation}
    (h : translate r = .ok t) : ∃ ds, Declaration.scan r.source.toList = .ok ds ∧
      t = ⟨Translation.text r.backend r.flags r.source ds, Translation.table r.backend ds⟩ := by
  obtain ⟨-, htext, -⟩ := translate_eq_ok_iff.1 h
  rw [Translation.ofText] at htext
  cases hds : Declaration.scan r.source.toList with
  | error fault =>
      rw [hds] at htext
      cases htext
  | ok ds =>
      rw [hds] at htext
      exact ⟨ds, rfl, (Except.ok.inj htext).symm⟩

/-- **A translation is what its source gives as C.** -/
theorem Translation.isOf_of_translate {r : TranslationRequest} {t : Translation}
    (h : KernelCache.translate r = .ok t) {source : Bytes}
    (hsource : Utf8.toString? source = some r.source) {flags : Flags}
    (hflags : r.flags.prelude = flags.prelude) : t.IsOf r.backend flags source := by
  obtain ⟨-, htext, hfunction⟩ := translate_eq_ok_iff.1 h
  rw [ofText_congr hflags] at htext
  refine ⟨⟨r.function, hfunction⟩, r.source, hsource, fun path function => ?_⟩
  rw [translate_eq, if_neg (not_not_intro rfl), htext]

end KernelCache
