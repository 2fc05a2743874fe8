/-
**Arguments in normal form.**

A declaration may have blanks around it and the suffix of an array behind it.  The argument that it
gives has neither: its type has no blanks at its ends, and an array has become a pointer, so there is
no bracket.  Written as its type, a space and its name, such an argument declares itself, and no
other arguments do.

Main definitions:

* `Argument.text` — an argument as it is written;
* `Argument.Normal` — arguments in normal form.

Main results:

* `Argument.normal_make`, `Argument.Normal.make_self` — the normal form, and how it is put together;
* `Argument.parse_text_iff` — arguments that declare themselves;
* `Argument.parse_normal` — **what a declaration gives is in normal form, and declares itself**.
-/

import KernelCache.Proofs.Kernel.Declaration

set_option relaxedAutoImplicit false
set_option autoImplicit false

namespace KernelCache

namespace Argument

/-- The text of an argument: its type and its name, with a space between them. -/
def text (a : Argument) : List Char := a.type.toList ++ ' ' :: a.name.toList

/-- An argument in normal form: with a name that may be declared, and a type that is there, has
neither blanks at its ends nor a bracket, and has a star exactly if a pointer is passed. -/
structure Normal (a : Argument) : Prop where
  identifier : isIdentifier a.name.toList = true
  type_ne_nil : a.type.toList ≠ []
  snug : Text.Snug a.type.toList
  unbracketed : '[' ∉ a.type.toList
  pointer_iff : a.kind = .pointer ↔ '*' ∈ a.type.toList

/-! ### What is put together -/

/-- The star of an array goes behind the type. -/
theorem normal_make {name type : List Char} (hname : isIdentifier name = true) (hne : type ≠ [])
    (hsnug : Text.Snug type) (hopen : '[' ∉ type) (isArray : Bool) :
    (make name type isArray).Normal := by
  cases isArray with
  | true =>
      have hstar : Text.Snug ['*'] := ⟨by simp [Text.isBlank], by simp [Text.isBlank]⟩
      have hbehind : Text.Snug (type ++ [' ', '*']) := by
        rw [List.append_cons]
        exact hsnug.enclose hne hstar (by decide) [' ']
      exact {
        identifier := by simpa [make] using hname
        type_ne_nil := by simp [make]
        snug := by simpa [make] using hbehind
        unbracketed := by simp [make, hopen]
        pointer_iff := by simp [make] }
  | false =>
      exact {
        identifier := by simpa [make] using hname
        type_ne_nil := by simpa [make] using hne
        snug := by simpa [make] using hsnug
        unbracketed := by simpa [make] using hopen
        pointer_iff := by simp [make] }

namespace Normal

variable {a : Argument}

theorem kind_eq (h : a.Normal) :
    a.kind = if '*' ∈ a.type.toList then .pointer else .scalar := by
  split
  · next hstar => exact h.pointer_iff.2 hstar
  · next hstar =>
      cases hkind : a.kind with
      | pointer => exact absurd (h.pointer_iff.1 hkind) hstar
      | scalar => rfl

/-- An argument in normal form is made from its own name and type, and not as an array. -/
theorem make_self (h : a.Normal) : make a.name.toList a.type.toList false = a := by
  simp [make, ← h.kind_eq]

theorem notMem_text (h : a.Normal) : '[' ∉ a.text := by
  have hname : '[' ∉ a.name.toList := not_mem_of_identifier h.identifier (by decide)
  simp [text, h.unbracketed, hname]

theorem trim_text (h : a.Normal) : Text.trim a.text = a.text :=
  (snug_named h.snug h.type_ne_nil h.identifier).trim

/-- There is no suffix to leave out. -/
theorem declarator_text (h : a.Normal) : declarator a.text = a.text := by
  have htake : a.text.takeWhile (· ≠ '[') = a.text := List.takeWhile_eq_self_iff.2 fun c hc =>
    decide_eq_true (ne_of_mem_of_not_mem hc h.notMem_text)
  rw [declarator, h.trim_text, htake]
  exact (snug_named h.snug h.type_ne_nil h.identifier).trimEnd

/-- **An argument in normal form declares itself.** -/
theorem parse_text (h : a.Normal) : parse a.text = .ok a := by
  have hcontains : (Text.trim a.text).contains '[' = false := by
    rw [h.trim_text]
    simpa using h.notMem_text
  rw [parse_of_declarator h.declarator_text h.snug h.type_ne_nil h.identifier, hcontains,
    h.make_self]

end Normal

/-! ### What is declared -/

theorem normal_of_parse {text : List Char} {a : Argument} (h : parse text = .ok a) :
    a.Normal := by
  obtain ⟨front, c, name, heq, -, -, hname, hne, rfl⟩ := parse_eq_ok_iff.1 h
  have hopen : '[' ∉ Text.trim (front ++ [c]) := fun hmem => (mem_of_mem_type heq hmem).2 rfl
  exact normal_make hname hne (Text.snug_trim _) hopen _

/-- The arguments that declare themselves are those in normal form. -/
theorem parse_text_iff {a : Argument} : parse a.text = .ok a ↔ a.Normal :=
  ⟨normal_of_parse, Normal.parse_text⟩

/-- **What a declaration gives is in normal form, and declares itself**, whatever blanks and array
suffixes the declaration had. -/
theorem parse_normal {text : List Char} {a : Argument} (h : parse text = .ok a) :
    a.Normal ∧ parse a.text = .ok a := by
  have hnormal : a.Normal := normal_of_parse h
  exact ⟨hnormal, hnormal.parse_text⟩

/-- An array of pointers has the type of a pointer to pointers, and is declared as one from then
on. -/
theorem rows_normal :
    let rows : Argument := ⟨"rows", "const float * *", .pointer⟩
    parse "\tconst float *rows [4][N]\n".toList = .ok rows ∧ rows.Normal ∧
      parse "const float * * rows".toList = .ok rows := by
  have hrows : parse "\tconst float *rows [4][N]\n".toList =
      .ok ⟨"rows", "const float * *", .pointer⟩ := rfl
  exact ⟨hrows, parse_normal hrows⟩

end Argument

end KernelCache
