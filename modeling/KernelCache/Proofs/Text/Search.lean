/-
**Where a pattern is found.**

A text is cut at the first occurrence of a pattern.  Whether a pattern occurs in two texts that are
joined is a question of each of them and of the join: an occurrence in the whole either lies in one
of the two, or it straddles the join.  A character that is not in the pattern is a border that none
straddles.

Main definitions:

* `Text.Straddles` — an occurrence begins in one text and ends in the next;
* `Text.Unbordered` — patterns whose first character does not come again in them.

Main results:

* `Text.cut?_eq_none_iff`, `Text.not_infix_of_cut?` — a text is cut at the first occurrence;
* `Text.infix_append_iff` — **where a pattern occurs in two texts**;
* `Text.infix_append_cons_iff`, `Text.infix_border_iff` — borders;
* `Text.cut?_append_right` — what stands before the pattern may be longer, if it is without it;
* `Text.cut?_append` — **a text is cut at the pattern, if what stands before is without it**.
-/

import KernelCache.Text.Search
import Mathlib.Data.List.Infix
import Mathlib.Data.Nat.Find

set_option relaxedAutoImplicit false
set_option autoImplicit false

namespace KernelCache.Text

variable {p : List Char}

/-! ### First occurrences -/

/-- A text is not cut exactly if it is without the pattern. -/
theorem cut?_eq_none_iff {s : List Char} : cut? p s = none ↔ ¬p <:+: s := by
  induction s with
  | nil => simp [cut?]
  | cons c s ih =>
      rw [cut?, List.infix_cons_iff, not_or, ← ih]
      split <;> simp_all

/-- A text without a pattern is not cut. -/
theorem cut?_eq_none {s : List Char} (h : ¬p <:+: s) : cut? p s = none := cut?_eq_none_iff.2 h

/-- What stands before the cut is without the pattern. -/
theorem not_infix_of_cut? (hp : p ≠ []) {s before after : List Char}
    (h : cut? p s = some (before, after)) : ¬p <:+: before := by
  induction s generalizing before with
  | nil => simp [cut?, hp] at h
  | cons c s ih =>
      rw [cut?] at h
      split at h
      · simp only [Option.some.injEq, Prod.mk.injEq] at h
        rw [← h.1, List.infix_nil]
        exact hp
      · next hnot =>
          obtain ⟨⟨b, a⟩, hparts, heq⟩ := Option.map_eq_some_iff.1 h
          simp only [Prod.mk.injEq] at heq
          obtain ⟨rfl, rfl⟩ := heq
          rw [List.infix_cons_iff, not_or]
          refine ⟨fun hstart => hnot (List.isPrefixOf_iff_prefix.2 (hstart.trans ?_)), ih hparts⟩
          rw [List.prefix_cons_inj, cut?_eq hparts, List.append_assoc]
          exact List.prefix_append _ _

/-- The pattern itself is cut off where it stands. -/
theorem cut?_self (hp : p ≠ []) (after : List Char) : cut? p (p ++ after) = some ([], after) := by
  obtain ⟨c, q, rfl⟩ := List.exists_cons_of_ne_nil hp
  have hprefix : (c :: q).isPrefixOf (c :: q ++ after) = true :=
    List.isPrefixOf_iff_prefix.2 (List.prefix_append _ _)
  rw [List.cons_append, cut?, ← List.cons_append, if_pos hprefix, List.drop_left]

/-! ### Joined texts -/

/-- An occurrence of the pattern begins in the first text and ends in the second. -/
def Straddles (p a b : List Char) : Prop :=
  ∃ n < p.length, 0 < n ∧ p.take n <:+ a ∧ p.drop n <+: b

instance (p a b : List Char) : Decidable (Straddles p a b) :=
  inferInstanceAs (Decidable (∃ n < p.length, 0 < n ∧ p.take n <:+ a ∧ p.drop n <+: b))

/-- Where an occurrence straddles the end of a text, it does that of all longer ones. -/
theorem Straddles.of_suffix {a a' b : List Char} (h : Straddles p a b) (ha : a <:+ a') :
    Straddles p a' b := by
  obtain ⟨n, hn, hpos, hleft, hright⟩ := h
  exact ⟨n, hn, hpos, hleft.trans ha, hright⟩

/-- A part of a pattern that is not empty and goes over the end of a text is in both. -/
theorem straddles_of_append {u v a b : List Char} (hu : u ≠ []) (hv : v ≠ []) (hleft : u <:+ a)
    (hright : v <+: b) : Straddles (u ++ v) a b := by
  refine ⟨u.length, ?_, List.length_pos_iff.2 hu, ?_, ?_⟩
  · have := List.length_pos_iff.2 hv
    simp only [List.length_append]
    omega
  · rwa [List.take_left]
  · rwa [List.drop_left]

/-- **Where a pattern occurs in two texts**: in one of them, or over the join. -/
theorem infix_append_iff {a b : List Char} :
    p <:+: a ++ b ↔ p <:+: a ∨ p <:+: b ∨ Straddles p a b := by
  rw [List.infix_append_iff]
  constructor
  · rintro (h | h | ⟨u, v, rfl, hleft, hright⟩)
    · exact Or.inl h
    · exact Or.inr (Or.inl h)
    · by_cases hu : u = []
      · subst hu
        exact Or.inr (Or.inl hright.isInfix)
      · by_cases hv : v = []
        · subst hv
          rw [List.append_nil]
          exact Or.inl hleft.isInfix
        · exact Or.inr (Or.inr (straddles_of_append hu hv hleft hright))
  · rintro (h | h | ⟨n, -, -, hleft, hright⟩)
    · exact Or.inl h
    · exact Or.inr (Or.inl h)
    · exact Or.inr (Or.inr ⟨p.take n, p.drop n, (List.take_append_drop n p).symm, hleft, hright⟩)

/-- No occurrence straddles the end of a text whose last character is not in the pattern. -/
theorem not_straddles_of_getLast? {a : List Char} (h : ∀ c ∈ a.getLast?, c ∉ p) (b : List Char) :
    ¬Straddles p a b := by
  rintro ⟨n, hn, hpos, ⟨front, rfl⟩, -⟩
  have hne : p.take n ≠ [] := by
    rw [← List.length_pos_iff, List.length_take]
    omega
  have hlast := List.getLast_mem hne
  refine h _ ?_ (List.mem_of_mem_take hlast)
  rw [List.getLast?_append_of_ne_nil _ hne, List.getLast?_eq_getLast_of_ne_nil hne]
  rfl

/-- No occurrence straddles the end of a text without the first character of the pattern. -/
theorem not_straddles_of_notMem {a : List Char} (h : ∀ c ∈ p.head?, c ∉ a) (b : List Char) :
    ¬Straddles p a b := by
  rintro ⟨n, hn, hpos, hleft, -⟩
  cases p with
  | nil => exact absurd hn (Nat.not_lt_zero n)
  | cons c q =>
      obtain ⟨m, rfl⟩ := Nat.exists_eq_add_one_of_ne_zero hpos.ne'
      exact h c rfl (hleft.subset (by simp))

/-- No occurrence straddles the start of a text whose first character is not in the rest of the
pattern. -/
theorem not_straddles_of_head? {b : List Char} (h : ∀ c ∈ b.head?, c ∉ p.tail) (a : List Char) :
    ¬Straddles p a b := by
  rintro ⟨n, hn, hpos, -, ⟨rest, rfl⟩⟩
  obtain ⟨m, rfl⟩ := Nat.exists_eq_add_one_of_ne_zero hpos.ne'
  have hne : p.drop (m + 1) ≠ [] := by
    rw [← List.length_pos_iff, List.length_drop]
    omega
  rw [← List.drop_tail] at hne h
  have hfirst := List.head_mem hne
  refine h _ ?_ (List.mem_of_mem_drop hfirst)
  rw [List.head?_append_of_ne_nil _ hne, List.head?_eq_some_head hne]
  rfl

/-- The pattern does not begin a text whose first part is without it and not straddled. -/
theorem not_prefix_append {a b : List Char} (hne : a ≠ []) (ha : ¬p <:+: a)
    (hjoin : ¬Straddles p a b) : ¬p <+: a ++ b := by
  intro hprefix
  rcases List.prefix_or_prefix_of_prefix hprefix (List.prefix_append a b) with hin | ⟨v, rfl⟩
  · exact ha hin.isInfix
  · -- The pattern goes on after the first part.
    by_cases hv : v = []
    · subst hv
      exact ha (by simp)
    · rw [List.prefix_append_right_inj] at hprefix
      exact hjoin (straddles_of_append hne hv List.suffix_rfl hprefix)

/-- A pattern whose first character does not come again in it. -/
structure Unbordered (p : List Char) : Prop where
  ne_nil : p ≠ []
  head : ∀ c ∈ p.head?, c ∉ p.tail

theorem unbordered_singleton (c : Char) : Unbordered [c] := ⟨List.cons_ne_nil c [], by simp⟩

/-- Such a pattern does not straddle the place where it stands. -/
theorem Unbordered.not_straddles (hp : Unbordered p) (before after : List Char) :
    ¬Straddles p before (p ++ after) := by
  refine not_straddles_of_head? (fun c hc => hp.head c ?_) before
  rwa [List.head?_append_of_ne_nil _ hp.ne_nil] at hc

/-- A character that is not in the pattern is a border. -/
theorem infix_append_cons_iff (hp : p ≠ []) {c : Char} (hc : c ∉ p) {x y : List Char} :
    p <:+: x ++ c :: y ↔ p <:+: x ∨ p <:+: y := by
  have hhead : ¬Straddles p x (c :: y) :=
    not_straddles_of_head? (fun d hd => by
      cases hd
      exact fun hmem => hc (List.mem_of_mem_tail hmem)) x
  have hprefix : ¬p <+: c :: y := by
    obtain ⟨d, q, rfl⟩ := List.exists_cons_of_ne_nil hp
    rw [List.cons_prefix_cons]
    rintro ⟨rfl, -⟩
    exact hc (List.mem_cons_self ..)
  rw [infix_append_iff, List.infix_cons_iff]
  simp [hhead, hprefix]

/-- Characters that are not in the pattern are a border. -/
theorem infix_border_iff (hp : p ≠ []) {m : List Char} (hm : m ≠ []) (h : ∀ c ∈ m, c ∉ p)
    {x y : List Char} : p <:+: x ++ m ++ y ↔ p <:+: x ∨ p <:+: y := by
  induction m generalizing x with
  | nil => exact absurd rfl hm
  | cons c m ih =>
      rw [List.forall_mem_cons] at h
      have hfirst : x ++ c :: m ++ y = x ++ c :: (m ++ y) := by simp
      rw [hfirst, infix_append_cons_iff hp h.1]
      by_cases hrest : m = []
      · rw [hrest, List.nil_append]
      · have hmiddle := ih hrest h.2 (x := [])
        rw [List.nil_append, List.infix_nil] at hmiddle
        simp [hmiddle, hp]

/-! ### Cutting joined texts -/

/-- What stands before the pattern may be longer, if it is without it. -/
theorem cut?_append_right {a b : List Char} (ha : ¬p <:+: a) (hjoin : ¬Straddles p a b) :
    cut? p (a ++ b) = (cut? p b).map fun parts => (a ++ parts.1, parts.2) := by
  induction a with
  | nil => simp
  | cons c a ih =>
      have hnot : ¬p.isPrefixOf (c :: a ++ b) = true := fun hp =>
        not_prefix_append (List.cons_ne_nil c a) ha hjoin (List.isPrefixOf_iff_prefix.1 hp)
      rw [List.infix_cons_iff, not_or] at ha
      have hrest := ih ha.2 fun h => hjoin (h.of_suffix (List.suffix_cons c a))
      rw [List.cons_append] at hnot ⊢
      rw [cut?, if_neg hnot, hrest, Option.map_map]
      rfl

/-- **A text is cut at the pattern, if what stands before is without it.** -/
theorem cut?_append (hp : Unbordered p) {before : List Char} (h : ¬p <:+: before)
    (after : List Char) : cut? p (before ++ p ++ after) = some (before, after) := by
  rw [List.append_assoc, cut?_append_right h (hp.not_straddles before after), cut?_self hp.ne_nil]
  simp

/-- A text is cut at the first place of a character. -/
theorem cut?_char {a : Char} {before : List Char} (h : a ∉ before) (after : List Char) :
    cut? [a] (before ++ a :: after) = some (before, after) := by
  have hnot : ¬[a] <:+: before := fun hin => h (hin.subset (by simp))
  simpa using cut?_append (unbordered_singleton a) hnot after

/-- What stands before the first place of a character is without it. -/
theorem notMem_of_cut?_char {a : Char} {s before after : List Char}
    (h : cut? [a] s = some (before, after)) : a ∉ before := fun hmem => by
  obtain ⟨x, y, rfl⟩ := List.append_of_mem hmem
  exact not_infix_of_cut? (List.cons_ne_nil a []) h ⟨x, y, by simp⟩

end KernelCache.Text
