/-
**Which parentheses belong together.**

A parenthesis is closed by the first character through which as many are closed as were opened.  As
long as it is open, no beginning of what stands behind it closes more parentheses than it opens, so
the count never goes below zero.

Main definitions:

* `Declaration.StaysOpen` — a text within an open parenthesis that it does not close;
* `Offsets.closingAt?` — the offset of the parenthesis that closes the one at an offset;
* `Offsets.Balanced` — as many parentheses are opened as are closed between two offsets.

Main results:

* `Declaration.count_of_depthAfter?` — what the count keeps with each character;
* `Declaration.closing?_eq_none_iff`, `Declaration.staysOpen_of_closing?` — **what it finds**;
* `Offsets.listAt_eq_closingAt?` — the parameter list is closed where the count ends;
* `Offsets.closingAt?_pairs` — **the closing parenthesis is the least offset that balances**.
-/

import KernelCache.Proofs.Kernel.Offsets
import Mathlib.Order.Bounds.Basic

set_option relaxedAutoImplicit false
set_option autoImplicit false

namespace KernelCache

open String (utf8Len)

namespace Declaration

/-! ### Open parentheses -/

/-- Whether a text within `depth + 1` open parentheses closes the outermost one nowhere. -/
def StaysOpen (depth : Nat) (s : List Char) : Prop :=
  ∀ u, u <+: s → u.count ')' ≤ depth + u.count '('

theorem staysOpen_nil (depth : Nat) : StaysOpen depth [] := by
  intro u hu
  rw [List.prefix_nil.1 hu]
  exact Nat.zero_le _

/-- The count keeps the difference between the parentheses that are open and those to be closed. -/
theorem count_of_depthAfter? {depth depth' : Nat} {c : Char}
    (h : depthAfter? depth c = some depth') (u : List Char) :
    depth' + u.count '(' + (c :: u).count ')' = depth + (c :: u).count '(' + u.count ')' := by
  rw [depthAfter?] at h
  split at h
  · next hopen =>
      obtain rfl := Option.some.inj h
      rw [hopen, List.count_cons_self, List.count_cons_of_ne (by decide)]
      omega
  · next hopen =>
      split at h
      · next hclose =>
          split at h
          · cases h
          · obtain rfl := Option.some.inj h
            rw [hclose, List.count_cons_self, List.count_cons_of_ne (by decide)]
            omega
      · next hclose =>
          obtain rfl := Option.some.inj h
          rw [List.count_cons_of_ne hopen, List.count_cons_of_ne hclose]

/-- The beginnings of a text are the empty one and those of its rest with the first character. -/
theorem staysOpen_cons {depth : Nat} {c : Char} {s : List Char} :
    StaysOpen depth (c :: s) ↔
      ∀ u, u <+: s → (c :: u).count ')' ≤ depth + (c :: u).count '(' := by
  constructor
  · exact fun h u hu => h (c :: u) ((List.prefix_cons_inj c).2 hu)
  · intro h u hu
    cases u with
    | nil => exact Nat.zero_le _
    | cons d u =>
        obtain ⟨rfl, htail⟩ := List.cons_prefix_cons.1 hu
        exact h u htail

/-- A parenthesis that closes the outermost one does not leave it open. -/
theorem not_staysOpen_of_depthAfter? {depth : Nat} {c : Char} (h : depthAfter? depth c = none)
    (s : List Char) : ¬StaysOpen depth (c :: s) := by
  obtain ⟨rfl, rfl⟩ := depthAfter?_eq_none_iff.1 h
  intro hopen
  exact absurd (staysOpen_cons.1 hopen [] List.nil_prefix) (by decide)

/-- After any other character the rest decides. -/
theorem staysOpen_of_depthAfter? {depth depth' : Nat} {c : Char}
    (h : depthAfter? depth c = some depth') (s : List Char) :
    StaysOpen depth (c :: s) ↔ StaysOpen depth' s := by
  rw [staysOpen_cons, StaysOpen]
  refine forall₂_congr fun u _ => ?_
  have hcount := count_of_depthAfter? h u
  omega

/-- **Nothing is found exactly if the text stays open.** -/
theorem closing?_eq_none_iff {depth : Nat} {s : List Char} :
    closing? depth s = none ↔ StaysOpen depth s := by
  induction s generalizing depth with
  | nil => exact ⟨fun _ => staysOpen_nil depth, fun _ => rfl⟩
  | cons c s ih =>
      rw [closing?]
      cases hdepth : depthAfter? depth c with
      | none => simp [not_staysOpen_of_depthAfter? hdepth s]
      | some depth' => simp [staysOpen_of_depthAfter? hdepth s, ih]

/-- **What is found is the end of a text that stays open**, and that text closes all but one of the
parentheses that were open before it. -/
theorem staysOpen_of_closing? {depth : Nat} {s inside rest : List Char}
    (h : closing? depth s = some (inside, rest)) :
    StaysOpen depth inside ∧ inside.count ')' = depth + inside.count '(' := by
  induction s generalizing depth inside with
  | nil => cases h
  | cons c s ih =>
      rw [closing?] at h
      split at h
      · next hdepth =>
          obtain ⟨-, rfl⟩ := depthAfter?_eq_none_iff.1 hdepth
          cases h
          exact ⟨staysOpen_nil _, rfl⟩
      · next depth' hdepth =>
          obtain ⟨⟨front, after⟩, hparts, heq⟩ := Option.map_eq_some_iff.1 h
          simp only [Prod.mk.injEq] at heq
          obtain ⟨rfl, rfl⟩ := heq
          obtain ⟨hopen, hfront⟩ := ih hparts
          have hcount := count_of_depthAfter? hdepth front
          exact ⟨(staysOpen_of_depthAfter? hdepth front).2 hopen, by omega⟩

end Declaration

namespace Offsets

open Declaration

/-! ### Offsets -/

/-- The offset of the parenthesis that closes the one at an offset. -/
def closingAt? (src : List Char) (opening : Nat) : Option (Option Nat) := do
  let offset? ← matching? 0 0 (← Text.from? opening src)
  return offset?.map (opening + ·)

/-- The parameter list is closed where the count ends. -/
theorem listAt_eq_closingAt? (src : List Char) (opening : Nat) : listAt src opening = (do
    match ← closingAt? src opening with
    | none => malformed src opening .unterminated
    | some closing =>
      let arguments ← argumentsAt src opening (← Text.between? (opening + 1) closing src)
      return (arguments, closing)) := by
  rw [listAt, closingAt?]
  cases Text.from? opening src with
  | none => rfl
  | some s =>
      simp only [lift_some, pure_bind, Option.bind_eq_bind, Option.bind_some]
      cases matching? 0 0 s with
      | none => rfl
      | some offset? => cases offset? <;> rfl

/-- Whether as many parentheses are opened as are closed from the character at one offset through
the character at another. -/
def Balanced (src : List Char) (first last : Nat) : Prop :=
  ∃ before text c after, src = before ++ text ++ c :: after ∧ first = utf8Len before ∧
    last = utf8Len (before ++ text) ∧ (text ++ [c]).count '(' = (text ++ [c]).count ')'

/-- What balances an opening parenthesis closes one more than what stands behind it opens. -/
theorem balanced_iff {before body : List Char} {c : Nat} (h : utf8Len before < c) :
    Balanced (before ++ '(' :: body) (utf8Len before) c ↔
      ∃ text d, text ++ [d] <+: body ∧ c = utf8Len before + 1 + utf8Len text ∧
        (text ++ [d]).count ')' = (text ++ [d]).count '(' + 1 := by
  have hone : '('.utf8Size = 1 := rfl
  constructor
  · rintro ⟨before', text, d, after, hsrc, hfirst, hlast, hcount⟩
    have hcut := Text.cutAt?_append before' (text ++ d :: after)
    rw [← List.append_assoc, ← hsrc, ← hfirst, Text.cutAt?_append, Option.some.injEq,
      Prod.mk.injEq] at hcut
    obtain ⟨rfl, hbody⟩ := hcut
    cases text with
    | nil =>
        rw [List.append_nil] at hlast
        omega
    | cons e text =>
        rw [List.cons_append] at hbody
        obtain ⟨rfl, rfl⟩ := List.cons.inj hbody
        refine ⟨text, d, ⟨after, by simp⟩, ?_, ?_⟩
        · rw [hlast, String.utf8Len_append, String.utf8Len_cons, hone]
          omega
        · rw [List.cons_append, List.count_cons_self, List.count_cons_of_ne (by decide)] at hcount
          exact hcount.symm
  · rintro ⟨text, d, ⟨after, rfl⟩, rfl, hcount⟩
    refine ⟨before, '(' :: text, d, after, by simp, rfl, ?_, ?_⟩
    · rw [String.utf8Len_append, String.utf8Len_cons, hone]
      omega
    · rw [List.cons_append, List.count_cons_self, List.count_cons_of_ne (by decide)]
      exact hcount.symm

/-- A text that stays open is not balanced by any of its beginnings. -/
theorem not_balanced_of_staysOpen {s text : List Char} {d : Char} (h : StaysOpen 0 s)
    (hbegins : text ++ [d] <+: s) : (text ++ [d]).count ')' ≠ (text ++ [d]).count '(' + 1 := by
  have := h _ hbegins
  omega

theorem closingAt?_eq (before body : List Char) :
    closingAt? (before ++ '(' :: body) (utf8Len before) =
      some ((closing? 0 body).map fun parts => utf8Len before + 1 + utf8Len parts.1) := by
  rw [closingAt?, Text.from?_append, Option.bind_eq_bind, Option.bind_some, matching?_opening,
    Option.bind_eq_bind, Option.bind_some]
  cases closing? 0 body with
  | none => rfl
  | some parts => simp only [Option.map_some, ← Nat.add_assoc]; rfl

/-- The offset that is found is the least one that balances. -/
theorem isLeast_of_closing? (before : List Char) {body inside rest : List Char}
    (h : closing? 0 body = some (inside, rest)) :
    IsLeast {c | utf8Len before < c ∧ Balanced (before ++ '(' :: body) (utf8Len before) c}
      (utf8Len before + 1 + utf8Len inside) := by
  obtain ⟨hopen, hcount⟩ := staysOpen_of_closing? h
  have hbody := parts_of_closing? h
  have hlt : utf8Len before < utf8Len before + 1 + utf8Len inside := by omega
  constructor
  · refine ⟨hlt, (balanced_iff hlt).2 ⟨inside, ')', ⟨rest, by simp [hbody]⟩, rfl, ?_⟩⟩
    have hclosed : [')'].count ')' = 1 := by decide
    have hopened : [')'].count '(' = 0 := by decide
    rw [List.count_append, List.count_append, hclosed, hopened]
    omega
  · rintro c ⟨hc, hbalanced⟩
    obtain ⟨text, d, hbegins, rfl, htext⟩ := (balanced_iff hc).1 hbalanced
    have hinside : inside <+: body := ⟨')' :: rest, hbody.symm⟩
    -- a shorter text would be a beginning of what stays open
    have hlonger : inside <+: text := by
      rcases List.prefix_or_prefix_of_prefix hinside hbegins with hle | hle
      · rcases List.prefix_concat_iff.1 hle with heq | hle
        · exact absurd htext (not_balanced_of_staysOpen hopen (heq ▸ List.prefix_rfl))
        · exact hle
      · exact absurd htext (not_balanced_of_staysOpen hopen hle)
    obtain ⟨more, rfl⟩ := hlonger
    rw [String.utf8Len_append]
    omega

/-- **The closing parenthesis is the least offset that balances**, and there is none exactly if
nothing balances. -/
theorem closingAt?_pairs (before body : List Char) :
    ∃ closing?, closingAt? (before ++ '(' :: body) (utf8Len before) = some closing? ∧
      (∀ c, closing? = some c ↔ IsLeast
        {c | utf8Len before < c ∧ Balanced (before ++ '(' :: body) (utf8Len before) c} c) ∧
      (closing? = none ↔
        ∀ c, utf8Len before < c → ¬Balanced (before ++ '(' :: body) (utf8Len before) c) := by
  refine ⟨_, closingAt?_eq before body, ?_⟩
  cases h : closing? 0 body with
  | none =>
      have hopen := closing?_eq_none_iff.1 h
      have hnone (c : Nat) (hc : utf8Len before < c) :
          ¬Balanced (before ++ '(' :: body) (utf8Len before) c := by
        intro hbalanced
        obtain ⟨text, d, hbegins, -, hcount⟩ := (balanced_iff hc).1 hbalanced
        exact not_balanced_of_staysOpen hopen hbegins hcount
      refine ⟨fun c => ?_, fun _ => hnone, fun _ => rfl⟩
      constructor
      · rintro ⟨⟩
      · exact fun hleast => absurd hleast.1.2 (hnone c hleast.1.1)
  | some parts =>
      obtain ⟨inside, rest⟩ := parts
      have hleast := isLeast_of_closing? before h
      refine ⟨fun c => ?_, ?_⟩
      · rw [Option.map_some, Option.some.injEq]
        exact ⟨fun heq => heq ▸ hleast, fun hc => hleast.unique hc⟩
      · constructor
        · rintro ⟨⟩
        · exact fun hnone => absurd hleast.1.2 (hnone _ hleast.1.1)

end Offsets

end KernelCache
