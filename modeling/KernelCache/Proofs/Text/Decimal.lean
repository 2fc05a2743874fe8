/-
**Decimal numbers as they are written.**

A number is written without a sign and without leading zeros, and it is read back from that; up to
nine it is one digit, so that the order of such numbers is that of their texts.

Main results:

* `Decimal.number?_text`, `Decimal.unsigned?_text` — **a number is read back from its text**;
* `Decimal.text_lt_text_iff` — the order of single digits.
-/

import KernelCache.Text.Decimal

set_option relaxedAutoImplicit false
set_option autoImplicit false

namespace KernelCache.Decimal

theorem isDigit_of_mem_text {n : Nat} {c : Char} (h : c ∈ (text n).toList) : isDigit c = true := by
  rw [text, String.toList_ofList] at h
  have hdigit := Nat.isDigit_of_mem_toDigits (by decide) (by decide) h
  simpa [isDigit, Char.isDigit, UInt32.le_iff_toNat_le] using hdigit

/-- The digits of a number denote it. -/
theorem number?_text (n : Nat) : number? (text n).toList = some n := by
  have hall : (text n).toList.all isDigit = true :=
    List.all_eq_true.2 fun c hc => isDigit_of_mem_text hc
  have hne : (text n).toList.isEmpty = false := by
    rw [text, String.toList_ofList, List.isEmpty_eq_false_iff]
    exact Nat.toDigits_ne_nil
  have hvalue : (text n).toList.foldl (fun n c => n * 10 + (c.toNat - 48)) 0 = n := by
    have hdigits := Nat.ofDigitChars_toDigits (b := 10) (n := n) (by decide) (by decide)
    rw [Nat.ofDigitChars] at hdigits
    rw [text, String.toList_ofList]
    simpa [Nat.mul_comm] using hdigits
  rw [number?, hne, hall, hvalue]
  rfl

/-- **A number within the bound is read back from its text**, which has no sign. -/
theorem unsigned?_text {bound n : Nat} (h : n ≤ bound) :
    unsigned? bound (text n).toList = some n := by
  have hplain : ∀ rest, (text n).toList ≠ '+' :: rest := by
    intro rest heq
    have hplus : '+' ∈ (text n).toList := by simp [heq]
    exact absurd (isDigit_of_mem_text hplus) (by decide)
  rw [unsigned?.eq_2 _ _ hplain, number?_text, Option.bind_some, if_pos h]

/-- Numbers of one digit are in the order of their texts. -/
theorem text_lt_text_iff {m n : Nat} (hm : m ≤ 9) (hn : n ≤ 9) :
    (text m).toList < (text n).toList ↔ m < n := by
  have hall : ∀ m ≤ 9, ∀ n ≤ 9, (Nat.toDigits 10 m < Nat.toDigits 10 n ↔ m < n) := by decide
  rw [text, text, String.toList_ofList, String.toList_ofList]
  exact hall m hm n hn

end KernelCache.Decimal
