/-
**Finding and replacing in text.**

Main definitions:

* `Text.cut?` — a text before and after the first occurrence of a pattern;
* `Text.replace` — a text with another in place of each occurrence of a pattern;
* `Text.newlines` — the number of line breaks.

Main result:

* `Text.cut?_eq` — the parts that `cut?` gives make up the text.
-/

set_option relaxedAutoImplicit false
set_option autoImplicit false

namespace KernelCache.Text

/-- The text before and after the first occurrence of a pattern. -/
def cut? (pattern : List Char) : List Char → Option (List Char × List Char)
  | [] => if pattern.isEmpty then some ([], []) else none
  | c :: s =>
    if pattern.isPrefixOf (c :: s) then some ([], (c :: s).drop pattern.length)
    else (cut? pattern s).map fun parts => (c :: parts.1, parts.2)

/-- The parts that `cut?` gives make up the text. -/
theorem cut?_eq {pattern s before after : List Char}
    (h : cut? pattern s = some (before, after)) : s = before ++ pattern ++ after := by
  induction s generalizing before with
  | nil =>
    rw [cut?] at h
    split at h <;> simp_all
  | cons c s ih =>
    rw [cut?] at h
    split at h
    · rename_i hp
      obtain ⟨t, ht⟩ := List.isPrefixOf_iff_prefix.1 hp
      simp only [Option.some.injEq, Prod.mk.injEq] at h
      simp [← h.1, ← h.2, ← ht]
    · obtain ⟨⟨b, a⟩, hparts, heq⟩ := Option.map_eq_some_iff.1 h
      simp only [Prod.mk.injEq] at heq
      obtain ⟨rfl, rfl⟩ := heq
      simp [ih hparts]

theorem length_lt_of_cut? {pattern s before after : List Char} (hp : pattern ≠ [])
    (h : cut? pattern s = some (before, after)) : after.length < s.length := by
  have hlength := congrArg List.length (cut?_eq h)
  have hpos := List.length_pos_iff.2 hp
  simp only [List.length_append] at hlength
  omega

/-- Replaces what is left of a text after passing over some characters. -/
def replaceFrom (pattern new : List Char) : (skip : Nat) → List Char → List Char
  | _, [] => []
  | 0, c :: s =>
    if pattern.isPrefixOf (c :: s) then new ++ replaceFrom pattern new (pattern.length - 1) s
    else c :: replaceFrom pattern new 0 s
  | skip + 1, _ :: s => replaceFrom pattern new skip s

/-- The text with another in place of each occurrence of a pattern, from the left. -/
def replace (pattern new s : List Char) : List Char := replaceFrom pattern new 0 s

/-- The number of line breaks. -/
def newlines (s : List Char) : Nat := s.count '\n'

end KernelCache.Text
