/-
**Texts between quotes.**

What stands between the quotes of a written text is taken character by character: a short escape, a
code of four digits, or the bytes of the character as they are.  In each form the bytes keep the
reading machine inside the string, and they stand for the character.

Main definitions:

* `Json.Spelled` — bytes that may stand between quotes.

Main results:

* `Json.spelled_escape` — the bytes of a text may stand between quotes;
* `Json.text?_escape` — **what is written for a text is read as that text**.
-/

import KernelCache.Json.Text
import KernelCache.Json.Token
import KernelCache.Proofs.Text.Hex
import KernelCache.Proofs.Text.Utf8

set_option relaxedAutoImplicit false
set_option autoImplicit false

namespace KernelCache.Json

/-! ### How a character is written -/

/-- The bytes that are written for a character. -/
def escapedBytes (c : Char) : Bytes := (escapeChar c).flatMap String.utf8EncodeChar

theorem escape_eq (s : String) : escape s = s.toList.flatMap escapedBytes := by
  rw [escape, Utf8.encode, String.toList_ofList, List.flatMap_assoc]
  rfl

/-- The three forms in which a character is written. -/
inductive Written (c : Char) : Bytes → Prop where
  | short (b : UInt8) (hshort : Lexer.isShortEscape b) (hnot : b ≠ 0x75)
      (hvalue : shortEscape? b = some (UInt8.ofNat c.toNat)) (hc : c.toNat < 0x80) :
      Written c [0x5C, b]
  | code (hc : c.toNat < 0x20) :
      Written c (0x5C :: 0x75 :: (Hex.digits 4 c.toNat).map fun d => UInt8.ofNat d.toNat)
  | plain (hbytes : ∀ b ∈ String.utf8EncodeChar c, b ≠ 0x22 ∧ b ≠ 0x5C ∧ ¬b < 0x20) :
      Written c (String.utf8EncodeChar c)

theorem toNat_digit_lt {n : Nat} {c : Char} (h : c ∈ Hex.digits 4 n) : c.toNat < 0x80 := by
  have hall : ∀ i < 16, (Hex.digit i).toNat < 0x80 := by decide
  obtain ⟨i, hi, rfl⟩ := Hex.mem_digits h
  exact hall i hi

/-- The bytes of a character that is written as it is. -/
theorem plain_bytes {c : Char} (hquote : c ≠ '"') (hback : c ≠ '\\') (hc : 0x20 ≤ c.toNat) :
    ∀ b ∈ String.utf8EncodeChar c, b ≠ 0x22 ∧ b ≠ 0x5C ∧ ¬b < 0x20 := by
  intro b hb
  rcases Utf8.encodeChar_cases c with ⟨hlow, hone⟩ | ⟨-, hhigh⟩
  · rw [hone, List.mem_singleton] at hb
    have hnat : b.toNat = c.toNat := by
      rw [hb, UInt8.toNat_ofNat']
      omega
    refine ⟨?_, ?_, ?_⟩
    · rintro rfl
      exact hquote (Char.toNat_inj.1 hnat.symm)
    · rintro rfl
      exact hback (Char.toNat_inj.1 hnat.symm)
    · rw [UInt8.lt_iff_toNat_lt, hnat]
      simpa using hc
  · have := hhigh b hb
    refine ⟨?_, ?_, ?_⟩
    · rintro rfl
      exact absurd this (by decide)
    · rintro rfl
      exact absurd this (by decide)
    · rw [UInt8.lt_iff_toNat_lt]
      simp only [UInt8.reduceToNat]
      omega

theorem written_escapedBytes (c : Char) : Written c (escapedBytes c) := by
  rw [escapedBytes]
  unfold escapeChar
  split
  · exact .short 0x22 (by decide) (by decide) (by decide) (by decide)
  · exact .short 0x5C (by decide) (by decide) (by decide) (by decide)
  · exact .short 0x62 (by decide) (by decide) (by decide) (by decide)
  · exact .short 0x74 (by decide) (by decide) (by decide) (by decide)
  · exact .short 0x6E (by decide) (by decide) (by decide) (by decide)
  · exact .short 0x66 (by decide) (by decide) (by decide) (by decide)
  · exact .short 0x72 (by decide) (by decide) (by decide) (by decide)
  · rename_i hquote hback _ _ _ _ _
    split
    · rename_i hc
      have hdigits := Utf8.flatMap_encodeChar fun d hd => toNat_digit_lt (n := c.toNat) hd
      rw [List.flatMap_cons, List.flatMap_cons, hdigits]
      exact .code hc
    · rename_i hc
      rw [List.flatMap_singleton]
      exact .plain (plain_bytes hquote hback (by omega))

/-! ### Writing -/

theorem feed_append (l : Lexer) (a b : Bytes) :
    l.feed (a ++ b) = (l.feed a).bind fun l => l.feed b := List.foldlM_append

/-- Bytes that may stand between quotes. -/
def Spelled (raw : Bytes) : Prop :=
  ∀ done before, Lexer.feed ⟨done, .text before⟩ raw = some ⟨done, .text (raw.reverse ++ before)⟩

theorem spelled_nil : Spelled [] := fun _ _ => rfl

theorem spelled_append {a b : Bytes} (ha : Spelled a) (hb : Spelled b) : Spelled (a ++ b) := by
  intro done before
  rw [feed_append, ha, Option.bind_some, hb]
  simp

/-- A byte that is no quotation mark, no backslash and no control character. -/
theorem spelled_byte {b : UInt8} (h : b ≠ 0x22 ∧ b ≠ 0x5C ∧ ¬b < 0x20) : Spelled [b] := by
  intro done before
  obtain ⟨hquote, hback, hcontrol⟩ := h
  simp [Lexer.feed, Lexer.step, hquote, hback, hcontrol]

theorem spelled_bytes {l : Bytes} (h : ∀ b ∈ l, b ≠ 0x22 ∧ b ≠ 0x5C ∧ ¬b < 0x20) : Spelled l := by
  induction l with
  | nil => exact spelled_nil
  | cons b rest ih =>
      have hrest : Spelled rest := ih fun c hc => h c (by simp [hc])
      exact spelled_append (spelled_byte (h b (by simp))) hrest

theorem isHexDigit_digit {n : Nat} {c : Char} (h : c ∈ Hex.digits 4 n) :
    Lexer.isHexDigit (UInt8.ofNat c.toNat) = true := by
  have hall : ∀ i < 16, Lexer.isHexDigit (UInt8.ofNat (Hex.digit i).toNat) = true := by decide
  obtain ⟨i, hi, rfl⟩ := Hex.mem_digits h
  exact hall i hi

/-- A code of four digits. -/
theorem spelled_code (n : Nat) :
    Spelled (0x5C :: 0x75 :: (Hex.digits 4 n).map fun d => UInt8.ofNat d.toNat) := by
  have hhex : ∀ c ∈ Hex.digits 4 n, _ := fun c => isHexDigit_digit
  have hlength := Hex.length_digits 4 n
  intro done before
  match hdigits : Hex.digits 4 n, hlength with
  | [a, b, c, d], _ =>
    rw [hdigits] at hhex
    simp [Lexer.feed, Lexer.step, hhex a (by simp), hhex b (by simp), hhex c (by simp),
      hhex d (by simp)]

theorem spelled_written {c : Char} {l : Bytes} (h : Written c l) : Spelled l := by
  cases h with
  | short b hshort hnot hvalue hc =>
      intro done before
      simp [Lexer.feed, Lexer.step, hshort, hnot]
  | code hc => exact spelled_code c.toNat
  | plain hbytes => exact spelled_bytes hbytes

/-- The bytes of a text may stand between quotes. -/
theorem spelled_escape (s : String) : Spelled (escape s) := by
  rw [escape_eq]
  induction s.toList with
  | nil => exact spelled_nil
  | cons c rest ih => exact spelled_append (spelled_written (written_escapedBytes c)) ih

/-! ### Reading -/

theorem unescapeFrom_byte {b : UInt8} (h : b ≠ 0x5C) (rest : Bytes) :
    unescapeFrom none (b :: rest) = (unescapeFrom none rest).map (b :: ·) := by
  rw [unescapeFrom.eq_6]
  · intro a b c d rest' hb
    exact absurd hb h
  · intro c rest' hb
    exact absurd hb h

theorem unescapeFrom_bytes {l : Bytes} (h : ∀ b ∈ l, b ≠ 0x5C) (rest : Bytes) :
    unescapeFrom none (l ++ rest) = (unescapeFrom none rest).map (l ++ ·) := by
  induction l with
  | nil => simp
  | cons b l ih =>
      rw [List.cons_append, unescapeFrom_byte (h b (by simp)), ih fun c hc => h c (by simp [hc]),
        Option.map_map]
      rfl

theorem code?_digits {n : Nat} {a b c d : Char} (hn : n < 16 ^ 4)
    (h : Hex.digits 4 n = [a, b, c, d]) :
    code? (UInt8.ofNat a.toNat) (UInt8.ofNat b.toNat) (UInt8.ofNat c.toNat)
      (UInt8.ofNat d.toNat) = some n := by
  have hchar {x : Char} (hx : x ∈ Hex.digits 4 n) :
      Char.ofNat (UInt8.ofNat x.toNat).toNat = x := by
    have hlt := toNat_digit_lt hx
    have hnat : (UInt8.ofNat x.toNat).toNat = x.toNat := by
      rw [UInt8.toNat_ofNat']
      omega
    rw [hnat, Char.ofNat_toNat]
  rw [h] at hchar
  simp only [code?, List.map_cons, List.map_nil]
  rw [hchar (by simp), hchar (by simp), hchar (by simp), hchar (by simp), ← h]
  exact Hex.number?_digits hn

/-- What is written for a character stands for its bytes. -/
theorem unescapeFrom_written {c : Char} {l : Bytes} (h : Written c l) (rest : Bytes) :
    unescapeFrom none (l ++ rest) =
      (unescapeFrom none rest).map (String.utf8EncodeChar c ++ ·) := by
  cases h with
  | short b hshort hnot hvalue hc =>
      rw [List.cons_append, List.singleton_append, unescapeFrom.eq_5, hvalue,
        Utf8.encodeChar_of_lt hc]
      · rfl
      · intro _ _ _ _ _ hb
        exact absurd hb hnot
  | code hc =>
      have hn : c.toNat < 16 ^ 4 := by omega
      have hlength := Hex.length_digits 4 c.toNat
      match hdigits : Hex.digits 4 c.toNat, hlength with
      | [x, y, z, w], _ =>
        have hhigh : isHigh c.toNat = false := by
          rw [isHigh, Bool.and_eq_false_iff]
          exact Or.inl (by simp; omega)
        have hlow : isLow c.toNat = false := by
          rw [isLow, Bool.and_eq_false_iff]
          exact Or.inl (by simp; omega)
        simp only [List.map_cons, List.map_nil, List.cons_append, List.nil_append]
        rw [unescapeFrom.eq_4, code?_digits hn hdigits]
        simp only [hhigh, hlow, Bool.false_eq_true, if_false, Char.ofNat_toNat]
  | plain hbytes => exact unescapeFrom_bytes (fun b hb => (hbytes b hb).2.1) rest

theorem unescape?_escape (s : String) : unescape? (escape s) = some (Utf8.encode s) := by
  rw [unescape?, escape_eq, Utf8.encode]
  induction s.toList with
  | nil => rfl
  | cons c rest ih =>
      rw [List.flatMap_cons, unescapeFrom_written (written_escapedBytes c), ih]
      rfl

/-- **What is written for a text is read as that text.** -/
@[simp] theorem text?_escape (s : String) : text? (escape s) = some s := by
  rw [text?, unescape?_escape, Option.bind_some, Utf8.toString?_encode]

end KernelCache.Json
