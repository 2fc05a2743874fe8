/-
**Hexadecimal numbers are read as they are written.**

Numbers are written in digits of lower case and read in digits of either case.  Numbers written with
the same width are in the order of their digits.

Main definitions:

* `Hex.IsLower`, `Hex.IsDigit` — the digits of lower case and those of either case;
* `Hex.valueOf` — the number that digits stand for.

Main results:

* `Hex.number?_digits` — **the digits of a number that fits denote that number**;
* `Hex.mem_digits` — which characters the digits are;
* `Hex.number?_eq_some_iff` — **what is read, and as what**;
* `Hex.digits_valueOf` — of all spellings that of lower case is written;
* `Hex.digits_lt_iff` — **the order of numbers is that of their digits**.
-/

import KernelCache.Text.Hex
import Mathlib.Data.Nat.Digits.Lemmas

set_option relaxedAutoImplicit false
set_option autoImplicit false

namespace KernelCache.Hex

theorem value?_digit {n : Nat} (h : n < 16) : value? (digit n) = some n := by
  have hall : ∀ i : Fin 16, value? (digit i) = some i.val := by decide
  exact hall ⟨n, h⟩

@[simp] theorem length_digits (width n : Nat) : (digits width n).length = width := by
  induction width generalizing n with
  | zero => rfl
  | succ width ih => simp [digits, ih]

theorem numberFrom_append (n : Nat) (l l' : List Char) :
    numberFrom n (l ++ l') = (numberFrom n l).bind fun m => numberFrom m l' := by
  induction l generalizing n with
  | nil => rfl
  | cons c rest ih =>
      rw [List.cons_append, numberFrom, numberFrom]
      cases value? c with
      | none => rfl
      | some d => exact ih _

theorem numberFrom_digits (start width n : Nat) :
    numberFrom start (digits width n) = some (start * 16 ^ width + n % 16 ^ width) := by
  induction width generalizing n with
  | zero => simp [digits, numberFrom, Nat.mod_one]
  | succ width ih =>
      have hlast : n % 16 < 16 := Nat.mod_lt n (by decide)
      have hmod : n % 16 ^ (width + 1) = n / 16 % 16 ^ width * 16 + n % 16 := by
        rw [Nat.pow_succ', Nat.mod_mul, Nat.mul_comm]
        omega
      rw [digits, numberFrom_append, ih, Option.bind_some, numberFrom, value?_digit hlast,
        Option.bind_some, numberFrom, hmod, Nat.add_mul, Nat.mul_assoc, Nat.pow_succ]
      congr 1
      omega

/-- **The digits of a number that fits denote that number.** -/
theorem number?_digits {width n : Nat} (h : n < 16 ^ width) :
    number? (digits width n) = some n := by
  rw [number?, numberFrom_digits, Nat.zero_mul, Nat.zero_add, Nat.mod_eq_of_lt h]

/-- The digits are characters of digits. -/
theorem mem_digits {width n : Nat} {c : Char} (h : c ∈ digits width n) :
    ∃ i < 16, c = digit i := by
  induction width generalizing n with
  | zero => simp [digits] at h
  | succ width ih =>
      rw [digits, List.mem_append, List.mem_singleton] at h
      rcases h with h | rfl
      · exact ih h
      · exact ⟨n % 16, Nat.mod_lt n (by decide), rfl⟩

/-! ### Digits of either case -/

/-- Whether a character is a digit of lower case. -/
def IsLower (c : Char) : Prop := c ∈ "0123456789abcdef".toList

/-- Whether a character is a digit of either case. -/
def IsDigit (c : Char) : Prop := c ∈ "0123456789abcdefABCDEF".toList

instance (c : Char) : Decidable (IsLower c) :=
  inferInstanceAs (Decidable (c ∈ "0123456789abcdef".toList))

instance (c : Char) : Decidable (IsDigit c) :=
  inferInstanceAs (Decidable (c ∈ "0123456789abcdefABCDEF".toList))

/-- What a digit stands for: its position among the digits of lower case. -/
def worth (c : Char) : Nat := "0123456789abcdef".toList.idxOf c.toLower

/-- The number that digits stand for, the most significant first. -/
def valueOf (cs : List Char) : Nat := Nat.ofDigits 16 (cs.reverse.map worth)

variable {c : Char} {cs : List Char}

theorem isLower_digit {n : Nat} (h : n < 16) : IsLower (digit n) := by
  have hall : ∀ n < 16, IsLower (digit n) := by decide
  exact hall n h

theorem IsLower.isDigit (h : IsLower c) : IsDigit c := by
  have hall : ∀ c ∈ "0123456789abcdef".toList, IsDigit c :=
    List.forall_iff_forall_mem.1 (by decide)
  exact hall c h

theorem IsLower.digit_worth (h : IsLower c) : digit (worth c) = c := by
  have hall : ∀ c ∈ "0123456789abcdef".toList, digit (worth c) = c :=
    List.forall_iff_forall_mem.1 (by decide)
  exact hall c h

theorem IsDigit.worth_lt (h : IsDigit c) : worth c < 16 := by
  have hall : ∀ c ∈ "0123456789abcdefABCDEF".toList, worth c < 16 :=
    List.forall_iff_forall_mem.1 (by decide)
  exact hall c h

theorem IsDigit.toNat_lt (h : IsDigit c) : c.toNat < 0x80 := by
  have hall : ∀ c ∈ "0123456789abcdefABCDEF".toList, c.toNat < 0x80 :=
    List.forall_iff_forall_mem.1 (by decide)
  exact hall c h

/-- A digit is read as what it stands for, and nothing else is read as a digit. -/
theorem value?_eq_some_iff {n : Nat} : value? c = some n ↔ IsDigit c ∧ n = worth c := by
  have hread : ∀ c ∈ "0123456789abcdefABCDEF".toList, value? c = some (worth c) :=
    List.forall_iff_forall_mem.1 (by decide)
  have honly : ∀ m < 103, value? (Char.ofNat m) ≠ none → IsDigit (Char.ofNat m) := by decide
  constructor
  · intro h
    have hlt : c.toNat < 103 := by
      simp only [value?] at h
      grind
    have hdigit : IsDigit c := by
      have hc : Char.ofNat c.toNat = c := Char.ofNat_toNat c
      rw [← hc]
      exact honly _ hlt (by rw [hc, h]; simp)
    exact ⟨hdigit, Option.some.inj (h.symm.trans (hread c hdigit))⟩
  · rintro ⟨hdigit, rfl⟩
    exact hread c hdigit

@[simp] theorem valueOf_nil : valueOf [] = 0 := rfl

theorem valueOf_cons (c : Char) (cs : List Char) :
    valueOf (c :: cs) = worth c * 16 ^ cs.length + valueOf cs := by
  rw [valueOf, List.reverse_cons, List.map_append, List.map_singleton, Nat.ofDigits_append,
    Nat.ofDigits_singleton, List.length_map, List.length_reverse, ← valueOf]
  ring

theorem valueOf_concat (cs : List Char) (c : Char) :
    valueOf (cs ++ [c]) = valueOf cs * 16 + worth c := by
  rw [valueOf, List.reverse_append, List.reverse_singleton, List.singleton_append, List.map_cons,
    Nat.ofDigits_cons, ← valueOf]
  ring

theorem valueOf_lt (h : ∀ c ∈ cs, IsDigit c) : valueOf cs < 16 ^ cs.length := by
  have hworth : ∀ n ∈ cs.reverse.map worth, n < 16 := by
    intro n hn
    obtain ⟨c, hc, rfl⟩ := List.mem_map.1 hn
    exact (h c (List.mem_reverse.1 hc)).worth_lt
  have hlt := Nat.ofDigits_lt_base_pow_length (by decide) hworth
  rwa [List.length_map, List.length_reverse] at hlt

theorem numberFrom_eq_some_iff {start n : Nat} :
    numberFrom start cs = some n ↔
      (∀ c ∈ cs, IsDigit c) ∧ n = start * 16 ^ cs.length + valueOf cs := by
  induction cs generalizing start with
  | nil => simp [numberFrom, eq_comm]
  | cons c rest ih =>
      have hsum : (start * 16 + worth c) * 16 ^ rest.length + valueOf rest =
          start * 16 ^ (c :: rest).length + valueOf (c :: rest) := by
        rw [valueOf_cons, List.length_cons]
        ring
      rw [numberFrom, Option.bind_eq_some_iff, List.forall_mem_cons]
      constructor
      · rintro ⟨v, hv, hrest⟩
        obtain ⟨hc, rfl⟩ := value?_eq_some_iff.1 hv
        obtain ⟨hall, hn⟩ := ih.1 hrest
        exact ⟨⟨hc, hall⟩, hn.trans hsum⟩
      · rintro ⟨⟨hc, hall⟩, hn⟩
        exact ⟨worth c, value?_eq_some_iff.2 ⟨hc, rfl⟩, ih.2 ⟨hall, hn.trans hsum.symm⟩⟩

/-- **What is read, and as what**: digits of either case, as what they stand for. -/
theorem number?_eq_some_iff {n : Nat} :
    number? cs = some n ↔ (∀ c ∈ cs, IsDigit c) ∧ n = valueOf cs := by
  rw [number?, numberFrom_eq_some_iff, Nat.zero_mul, Nat.zero_add]

/-- Of all spellings of a number that of lower case is written. -/
theorem digits_valueOf (h : ∀ c ∈ cs, IsLower c) : digits cs.length (valueOf cs) = cs := by
  induction cs using List.reverseRecOn with
  | nil => rfl
  | append_singleton rest c ih =>
      have hc : IsLower c := h c (by simp)
      have hlt := hc.isDigit.worth_lt
      have hlast : (valueOf rest * 16 + worth c) % 16 = worth c := by omega
      have hfront : (valueOf rest * 16 + worth c) / 16 = valueOf rest := by omega
      rw [List.length_append, List.length_singleton, digits, valueOf_concat, hlast, hfront,
        ih fun d hd => h d (by simp [hd]), hc.digit_worth]

/-! ### Order -/

/-- Of two lists with starts of the same length the starts are compared first. -/
theorem append_lt_append_iff {α : Type} [LT α] {l l' : List α} (h : l.length = l'.length)
    (m m' : List α) : l ++ m < l' ++ m' ↔ l < l' ∨ l = l' ∧ m < m' := by
  induction l generalizing l' with
  | nil =>
      obtain rfl := List.length_eq_zero_iff.1 h.symm
      simp
  | cons a rest ih =>
      match l' with
      | b :: rest' =>
          have hrest := ih (Nat.succ.inj h)
          rw [List.cons_append, List.cons_append, List.cons_lt_cons_iff, List.cons_lt_cons_iff,
            hrest, List.cons.injEq]
          tauto

/-- **The order of numbers is that of their digits.** -/
theorem digits_lt_iff {width m n : Nat} (hm : m < 16 ^ width) (hn : n < 16 ^ width) :
    digits width m < digits width n ↔ m < n := by
  have hdigit : ∀ i < 16, ∀ j < 16, digit i < digit j ↔ i < j := by decide
  induction width generalizing m n with
  | zero => simp_all [digits]
  | succ width ih =>
      rw [Nat.pow_succ] at hm hn
      have hm' : m / 16 < 16 ^ width := Nat.div_lt_of_lt_mul (by omega)
      have hn' : n / 16 < 16 ^ width := Nat.div_lt_of_lt_mul (by omega)
      have hsame : digits width (m / 16) = digits width (n / 16) ↔ m / 16 = n / 16 := by
        refine ⟨fun h => ?_, fun h => by rw [h]⟩
        have hread := congrArg number? h
        rw [number?_digits hm', number?_digits hn'] at hread
        exact Option.some.inj hread
      have hfront : digits width (m / 16) < digits width (n / 16) ↔ m / 16 < n / 16 := ih hm' hn'
      rw [digits, digits, append_lt_append_iff (by simp), hfront, hsame, List.cons_lt_cons_iff,
        hdigit _ (Nat.mod_lt _ (by decide)) _ (Nat.mod_lt _ (by decide))]
      simp only [List.not_lt_nil, and_false, or_false]
      omega

end KernelCache.Hex
