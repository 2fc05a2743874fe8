/-
**Texts cut at byte offsets.**

Searches answer with offsets in bytes, and a text is cut at such offsets.  There is a cut at an
offset only if a character ends there: an offset beyond the end, or inside a character of several
bytes, has none.

Main definitions:

* `Text.cutAt?` — the two parts of a text at an offset;
* `Text.from?`, `Text.upTo?`, `Text.between?` — what offsets cut out of a text;
* `Text.findText?`, `Text.find?`, `Text.rfind?` — searches.

Main results:

* `Text.cutAt?_eq_some_iff` — **an offset cuts a text exactly where a part of that size ends**;
* `Text.cutAt?_eq_none_of_inside` — an offset inside a character cuts nothing;
* `Text.rfind?_append` — the last character with a property.
-/

import KernelCache.Text.Search
import Mathlib.Data.String.Basic

set_option relaxedAutoImplicit false
set_option autoImplicit false

namespace KernelCache.Text

open String (utf8Len)

/-! ### Cutting -/

/-- The two parts of a text at an offset. -/
def cutAt? : (offset : Nat) → List Char → Option (List Char × List Char)
  | 0, s => some ([], s)
  | _ + 1, [] => none
  | n + 1, c :: s =>
    if c.utf8Size ≤ n + 1 then
      (cutAt? (n + 1 - c.utf8Size) s).map fun parts => (c :: parts.1, parts.2)
    else none

/-- The text from an offset on. -/
def from? (offset : Nat) (s : List Char) : Option (List Char) := (cutAt? offset s).map (·.2)

/-- The text up to an offset. -/
def upTo? (offset : Nat) (s : List Char) : Option (List Char) := (cutAt? offset s).map (·.1)

/-- The text between two offsets. -/
def between? (start stop : Nat) (s : List Char) : Option (List Char) :=
  (upTo? stop s).bind (from? start)

theorem cutAt?_append (a b : List Char) : cutAt? (utf8Len a) (a ++ b) = some (a, b) := by
  induction a with
  | nil => rw [String.utf8Len_nil, List.nil_append, cutAt?]
  | cons c a ih =>
      have hpos := c.utf8Size_pos
      have hsize : utf8Len (c :: a) = utf8Len a + c.utf8Size := String.utf8Len_cons ..
      obtain ⟨n, hn⟩ := Nat.exists_eq_add_one_of_ne_zero (by omega : utf8Len (c :: a) ≠ 0)
      have hrest : n + 1 - c.utf8Size = utf8Len a := by omega
      have hfits : c.utf8Size ≤ n + 1 := by omega
      rw [hn, List.cons_append, cutAt?, if_pos hfits, hrest, ih]
      rfl

theorem parts_of_cutAt? {n : Nat} {s a b : List Char} (h : cutAt? n s = some (a, b)) :
    s = a ++ b ∧ n = utf8Len a := by
  induction s generalizing n a with
  | nil =>
      cases n with
      | zero => simp_all [cutAt?]
      | succ n => simp [cutAt?] at h
  | cons c s ih =>
      cases n with
      | zero => simp_all [cutAt?]
      | succ n =>
          rw [cutAt?] at h
          split at h
          · obtain ⟨⟨a', b'⟩, hparts, heq⟩ := Option.map_eq_some_iff.1 h
            simp only [Prod.mk.injEq] at heq
            obtain ⟨rfl, rfl⟩ := heq
            obtain ⟨hs, hn⟩ := ih hparts
            refine ⟨by rw [hs, List.cons_append], ?_⟩
            rw [String.utf8Len_cons]
            omega
          · simp at h

/-- **An offset cuts a text exactly where a part of that size ends.** -/
theorem cutAt?_eq_some_iff {n : Nat} {s a b : List Char} :
    cutAt? n s = some (a, b) ↔ s = a ++ b ∧ n = utf8Len a := by
  constructor
  · exact parts_of_cutAt?
  · rintro ⟨rfl, rfl⟩
    exact cutAt?_append a b

/-- An offset inside a character cuts nothing. -/
theorem cutAt?_eq_none_of_inside {n : Nat} {a b : List Char} {c : Char} (hlow : utf8Len a < n)
    (hhigh : n < utf8Len a + c.utf8Size) : cutAt? n (a ++ c :: b) = none := by
  cases hcut : cutAt? n (a ++ c :: b) with
  | none => rfl
  | some parts =>
      obtain ⟨heq, hn⟩ := parts_of_cutAt? hcut
      rcases List.append_eq_append_iff.1 heq with ⟨t, ht, hrest⟩ | ⟨t, ht, -⟩
      · -- The part before the cut is longer, so it has the whole character.
        cases t with
        | nil =>
            rw [ht, List.append_nil] at hn
            omega
        | cons d t =>
            obtain ⟨rfl, -⟩ := List.cons.inj (hrest.trans (List.cons_append ..))
            rw [ht, String.utf8Len_append, String.utf8Len_cons] at hn
            omega
      · -- The part before the cut ends before the character.
        rw [ht, String.utf8Len_append] at hlow
        omega

@[simp] theorem from?_append (a b : List Char) : from? (utf8Len a) (a ++ b) = some b := by
  rw [from?, cutAt?_append, Option.map_some]

@[simp] theorem upTo?_append (a b : List Char) : upTo? (utf8Len a) (a ++ b) = some a := by
  rw [upTo?, cutAt?_append, Option.map_some]

theorem between?_append (a b c : List Char) :
    between? (utf8Len a) (utf8Len a + utf8Len b) (a ++ b ++ c) = some b := by
  rw [between?, ← String.utf8Len_append, upTo?_append, Option.bind_some, from?_append]

/-- What two offsets cut out of a text stands between them. -/
theorem cutAt?_of_between? {start stop : Nat} {s t : List Char}
    (h : between? start stop s = some t) :
    start ≤ stop ∧ ∃ parts, cutAt? stop s = some parts := by
  obtain ⟨front, hfront, hfrom⟩ := Option.bind_eq_some_iff.1 h
  obtain ⟨⟨a, b⟩, hstop, rfl⟩ := Option.map_eq_some_iff.1 hfront
  obtain ⟨⟨a', b'⟩, hstart, -⟩ := Option.map_eq_some_iff.1 hfrom
  obtain ⟨-, rfl⟩ := parts_of_cutAt? hstop
  obtain ⟨ha, rfl⟩ := parts_of_cutAt? hstart
  have ha : a = a' ++ b' := ha
  refine ⟨?_, (a, b), hstop⟩
  rw [ha, String.utf8Len_append]
  exact Nat.le_add_right _ _

/-! ### Searching -/

/-- The offset of the first occurrence of a pattern. -/
def findText? (pattern s : List Char) : Option Nat :=
  (cut? pattern s).map fun parts => utf8Len parts.1

/-- The offset of the first character with a property. -/
def find? (p : Char → Bool) : List Char → Option Nat
  | [] => none
  | c :: s => if p c then some 0 else (find? p s).map (· + c.utf8Size)

/-- The offset of the last character with a property. -/
def rfind? (p : Char → Bool) : List Char → Option Nat
  | [] => none
  | c :: s =>
    match rfind? p s with
    | some n => some (n + c.utf8Size)
    | none => if p c then some 0 else none

theorem find?_eq_none {p : Char → Bool} {s : List Char} (h : ∀ c ∈ s, p c = false) :
    find? p s = none := by
  induction s with
  | nil => rfl
  | cons c s ih =>
      rw [find?, h c (by simp), ih fun d hd => h d (by simp [hd])]
      rfl

theorem find?_append {p : Char → Bool} {s : List Char} (h : ∀ c ∈ s, p c = false) {c : Char}
    (hc : p c = true) (t : List Char) : find? p (s ++ c :: t) = some (utf8Len s) := by
  induction s with
  | nil => rw [List.nil_append, find?, hc, if_pos rfl, String.utf8Len_nil]
  | cons d s ih =>
      have hd : p d = false := h d (by simp)
      rw [List.cons_append, find?, hd, ih fun a ha => h a (by simp [ha]), String.utf8Len_cons]
      rfl

theorem rfind?_eq_none {p : Char → Bool} {s : List Char} (h : ∀ c ∈ s, p c = false) :
    rfind? p s = none := by
  induction s with
  | nil => rfl
  | cons c s ih => simp [rfind?, ih fun d hd => h d (by simp [hd]), h c (by simp)]

/-- The last character with a property. -/
theorem rfind?_append {p : Char → Bool} (s : List Char) {c : Char} (hc : p c = true)
    {t : List Char} (h : ∀ d ∈ t, p d = false) : rfind? p (s ++ c :: t) = some (utf8Len s) := by
  induction s with
  | nil => simp [rfind?, rfind?_eq_none h, hc]
  | cons d s ih => rw [List.cons_append, rfind?, ih, String.utf8Len_cons]

end KernelCache.Text
