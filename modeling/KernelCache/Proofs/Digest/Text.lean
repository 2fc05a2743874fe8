/-
**Digests are read as they are written, and checksums as they are trimmed.**

Main results:

* `Digest.parse?_toText` — **the text of a digest denotes that digest**;
* `Digest.toText_injective` — digests with the same text are the same;
* `Digest.length_toText`, `Digest.mem_toText` — what such texts look like;
* `Checksum.trim_toText` — trimming leaves the text of a checksum as it is.
-/

import KernelCache.Checksum
import KernelCache.Digest.Text
import KernelCache.Proofs.Text.Hex
import KernelCache.Text.Blank

set_option relaxedAutoImplicit false
set_option autoImplicit false

namespace KernelCache

namespace Digest

theorem toList_toText (d : Digest) :
    d.toText.toList = d.words.flatMap fun w => Hex.digits 8 w.toNat := by
  rw [toText, String.toList_ofList]

/-- A word of eight digits is read as it is written. -/
theorem readWord?_digits (w : UInt32) : readWord? (Hex.digits 8 w.toNat) = some w := by
  have hword : w.toNat < 16 ^ 8 := w.toNat_lt
  have hnumber := Hex.number?_digits hword
  have hplus : ∀ i < 16, Hex.digit i ≠ '+' := by decide
  rw [readWord?.eq_2, hnumber]
  · simp
  · rintro cs hcs
    have hmem : '+' ∈ Hex.digits 8 w.toNat := by simp [hcs]
    obtain ⟨i, hi, heq⟩ := Hex.mem_digits hmem
    exact hplus i hi heq.symm

theorem readWords?_append (l : List Char) (rest : List Char) (h : l.length = 8) :
    readWords? (l ++ rest) = do
      let w ← readWord? l
      let ws ← readWords? rest
      return w :: ws := by
  match l, h with
  | [_, _, _, _, _, _, _, _], _ => rfl

theorem readWords?_flatMap (ws : List UInt32) :
    readWords? (ws.flatMap fun w => Hex.digits 8 w.toNat) = some ws := by
  induction ws with
  | nil => rfl
  | cons w rest ih =>
      rw [List.flatMap_cons, readWords?_append _ _ (Hex.length_digits 8 _), readWord?_digits, ih]
      rfl

/-- **The text of a digest denotes that digest.** -/
theorem parse?_toText (d : Digest) : parse? d.toText = some d := by
  rw [parse?, toList_toText, readWords?_flatMap]
  exact ofWords?_words d

theorem toText_injective {d e : Digest} (h : d.toText = e.toText) : d = e := by
  have := congrArg parse? h
  rw [parse?_toText, parse?_toText] at this
  exact Option.some.inj this

theorem length_toText (d : Digest) : d.toText.toList.length = 64 := by
  simp [toList_toText, words]

theorem mem_toText {d : Digest} {c : Char} (h : c ∈ d.toText.toList) :
    ∃ i < 16, c = Hex.digit i := by
  rw [toList_toText, List.mem_flatMap] at h
  obtain ⟨w, -, hc⟩ := h
  exact Hex.mem_digits hc

end Digest

/-- The text of a checksum has no blanks around it. -/
theorem Checksum.trim_toText (c : Checksum) :
    Text.trim c.toText.toList = c.toText.toList := by
  have hblank : ∀ i < 16, Text.isBlank (Hex.digit i) = false := by decide
  have hnot : ∀ x ∈ c.toText.toList, Text.isBlank x = false := by
    intro x hx
    rw [toText, Hex.ofBytes, String.toList_ofList, List.mem_flatMap] at hx
    obtain ⟨b, -, hb⟩ := hx
    obtain ⟨i, hi, rfl⟩ := Hex.mem_digits hb
    exact hblank i hi
  have hdrop {l : List Char} (hl : ∀ x ∈ l, Text.isBlank x = false) :
      l.dropWhile Text.isBlank = l := by
    cases l with
    | nil => rfl
    | cons x rest => rw [List.dropWhile_cons_of_neg]; simp [hl x (by simp)]
  rw [Text.trim, Text.trimStart, hdrop hnot, Text.trimEnd, hdrop fun x hx =>
    hnot x (List.mem_reverse.1 hx), List.reverse_reverse]

end KernelCache
