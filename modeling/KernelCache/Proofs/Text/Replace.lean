/-
**What becomes of a text when a pattern is replaced.**

A text is made up of parts without the pattern, with an occurrence between each two, and replacing
it exchanges the occurrences.  What is put in their place cannot bring the pattern back, together
with the parts around it, if it has no character in common with the pattern.

Main results:

* `Text.occurrence_induction` — texts by their occurrences of a pattern, from the left;
* `Text.replace_occurrence`, `Text.replace_append` — replacing part by part;
* `Text.not_infix_replace` — **a replaced pattern is gone**;
* `Text.getLast?_replace` — the last character stays, or it is of the same kind.
-/

import KernelCache.Proofs.Text.Search

set_option relaxedAutoImplicit false
set_option autoImplicit false

namespace KernelCache.Text

/-- **Texts by their occurrences of a pattern.**  A text is without the pattern, or it has a first
occurrence and another text after that. -/
@[elab_as_elim]
theorem occurrence_induction {p : List Char} (hp : p ≠ []) {motive : List Char → Prop}
    (last : ∀ s, ¬p <:+: s → motive s)
    (occurrence : ∀ before after, ¬p <:+: before → motive after →
      motive (before ++ p ++ after)) (s : List Char) : motive s := by
  induction hn : s.length using Nat.strong_induction_on generalizing s with
  | _ n ih =>
    cases hcut : cut? p s with
    | none => exact last s (cut?_eq_none_iff.1 hcut)
    | some parts =>
        obtain ⟨before, after⟩ := parts
        have hlength := length_lt_of_cut? hp hcut
        rw [cut?_eq hcut]
        exact occurrence before after (not_infix_of_cut? hp hcut) (ih _ (by omega) after rfl)

/-! ### Part by part -/

theorem replaceFrom_eq (p new : List Char) (skip : Nat) (s : List Char) :
    replaceFrom p new skip s = replace p new (s.drop skip) := by
  induction s generalizing skip with
  | nil => cases skip <;> rfl
  | cons c s ih =>
      cases skip with
      | zero => rfl
      | succ skip => rw [replaceFrom, ih, List.drop_succ_cons]

/-- A character that no occurrence begins at stays. -/
theorem replace_cons {p new s : List Char} {c : Char} (h : ¬p <+: c :: s) :
    replace p new (c :: s) = c :: replace p new s := by
  rw [replace, replaceFrom, if_neg fun hp => h (List.isPrefixOf_iff_prefix.1 hp)]
  rfl

/-- An occurrence is replaced where it stands. -/
theorem replace_self {p : List Char} (hp : p ≠ []) (new s : List Char) :
    replace p new (p ++ s) = new ++ replace p new s := by
  obtain ⟨c, q, rfl⟩ := List.exists_cons_of_ne_nil hp
  have hprefix : (c :: q).isPrefixOf (c :: (q ++ s)) = true :=
    List.isPrefixOf_iff_prefix.2 (List.prefix_append (c :: q) s)
  rw [replace, List.cons_append, replaceFrom, if_pos hprefix, replaceFrom_eq, List.length_cons,
    Nat.add_sub_cancel, List.drop_left]

/-- A text without the pattern stays. -/
theorem replace_of_absent {p s : List Char} (h : ¬p <:+: s) (new : List Char) :
    replace p new s = s := by
  induction s with
  | nil => rfl
  | cons c s ih =>
      rw [List.infix_cons_iff, not_or] at h
      rw [replace_cons h.1, ih h.2]

/-- What stands before, without the pattern, stays if no occurrence straddles the join. -/
theorem replace_append_of_absent {p a b : List Char} (ha : ¬p <:+: a)
    (hjoin : ¬Straddles p a b) (new : List Char) :
    replace p new (a ++ b) = a ++ replace p new b := by
  induction a with
  | nil => rfl
  | cons c a ih =>
      have hnot := not_prefix_append (List.cons_ne_nil c a) ha hjoin
      rw [List.infix_cons_iff, not_or] at ha
      have hrest := ih ha.2 fun h => hjoin (h.of_suffix (List.suffix_cons c a))
      rw [List.cons_append] at hnot ⊢
      rw [replace_cons hnot, hrest, List.cons_append]

section

variable {p : List Char} (hp : Unbordered p)

include hp

/-- The first occurrence is replaced, and then what follows it. -/
theorem replace_occurrence {before : List Char} (h : ¬p <:+: before) (new after : List Char) :
    replace p new (before ++ p ++ after) = before ++ new ++ replace p new after := by
  rw [List.append_assoc, replace_append_of_absent h (hp.not_straddles before after),
    replace_self hp.ne_nil, List.append_assoc]

/-- **Two texts may be treated apart if no occurrence straddles the join.** -/
theorem replace_append {s t : List Char} (hjoin : ¬Straddles p s t) (new : List Char) :
    replace p new (s ++ t) = replace p new s ++ replace p new t := by
  induction s using occurrence_induction hp.ne_nil with
  | last s h => rw [replace_append_of_absent h hjoin, replace_of_absent h]
  | occurrence before after h ih =>
      have hrest := ih fun hafter => hjoin (hafter.of_suffix (List.suffix_append _ after))
      rw [List.append_assoc, replace_occurrence hp h, replace_occurrence hp h, hrest,
        List.append_assoc, List.append_assoc, List.append_assoc]

/-- **A replaced pattern is gone**, if what is put in its place has no character of it. -/
theorem not_infix_replace {new : List Char} (hnew : new ≠ []) (h : ∀ c ∈ new, c ∉ p)
    (s : List Char) : ¬p <:+: replace p new s := by
  induction s using occurrence_induction hp.ne_nil with
  | last s hs => rwa [replace_of_absent hs]
  | occurrence before after hbefore ih =>
      rw [replace_occurrence hp hbefore, infix_border_iff hp.ne_nil hnew h, not_or]
      exact ⟨hbefore, ih⟩

/-- Whether the last character is of a class stays, if the last characters of the pattern and of
what is put in its place agree on it. -/
theorem getLast?_replace {new : List Char} {f : Char → Bool}
    (h : new.getLast?.map f = p.getLast?.map f) (s : List Char) :
    (replace p new s).getLast?.map f = s.getLast?.map f := by
  induction s using occurrence_induction hp.ne_nil with
  | last s hs => rw [replace_of_absent hs]
  | occurrence before after hbefore ih =>
      rw [replace_occurrence hp hbefore]
      simp only [List.getLast?_append, Option.map_or, h, ih]

end

end KernelCache.Text
