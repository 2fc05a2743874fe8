/-
**What readers do on a text.**

A choice between readers is decided by the ones that fail, and a repetition takes what its reader
takes one time after another until that fails.

Main definitions:

* `Scan.Reads` — what a reader takes in several turns.

Main results:

* `Scan.orElse_of_none`, `Scan.optional_of_none` — choices in which a reader fails;
* `Scan.many_of_reads` — **a repetition ends where its reader fails**.
-/

import KernelCache.Text.Scan

set_option relaxedAutoImplicit false
set_option autoImplicit false

namespace KernelCache.Scan

variable {α β : Type}

/-! ### Choices -/

theorem bind_of_some {p : Scan α} {f : α → Scan β} {s s' : List Char} {a : α}
    (h : p s = some (a, s')) : (p >>= f) s = f a s' := by
  change (p s).bind (fun r => f r.1 r.2) = f a s'
  rw [h]
  rfl

theorem bind_of_none {p : Scan α} {s : List Char} (h : p s = none) (f : α → Scan β) :
    (p >>= f) s = none := by
  change (p s).bind (fun r => f r.1 r.2) = none
  rw [h]
  rfl

theorem map_of_some {p : Scan α} {s s' : List Char} {a : α} (f : α → β)
    (h : p s = some (a, s')) : (f <$> p) s = some (f a, s') := by
  change (p s).bind (fun r => some (f r.1, r.2)) = some (f a, s')
  rw [h]
  rfl

theorem map_of_none {p : Scan α} {s : List Char} (f : α → β) (h : p s = none) :
    (f <$> p) s = none := by
  change (p s).bind (fun r => some (f r.1, r.2)) = none
  rw [h]
  rfl

theorem orElse_of_none {p : Scan α} {s : List Char} (h : p s = none) (q : Scan α) :
    (p <|> q) s = q s := by
  change (p s <|> q s) = q s
  rw [h]
  rfl

theorem orElse_of_some {p : Scan α} {s : List Char} {r : α × List Char} (h : p s = some r)
    (q : Scan α) : (p <|> q) s = some r := by
  change (p s <|> q s) = some r
  rw [h]
  rfl

theorem optional_of_none {p : Scan α} {s : List Char} (h : p s = none) :
    optional p s = some (none, s) := orElse_of_none (map_of_none some h) (pure none)

theorem optional_of_some {p : Scan α} {s s' : List Char} {a : α} (h : p s = some (a, s')) :
    optional p s = some (some a, s') := orElse_of_some (map_of_some some h) (pure none)

/-! ### Words -/

/-- A word is not read where another character comes first. -/
theorem word_of_ne {w : String} {c : Char} {rest s : List Char} (hw : w.toList = c :: rest)
    (h : c ∉ s.head?) : word w s = none := by
  have hprefix : w.toList.isPrefixOf s = false := by
    rw [hw]
    cases s with
    | nil => rfl
    | cons d s =>
        have hne : c ≠ d := fun heq => h (by simp [heq])
        simp [List.isPrefixOf, hne]
  rw [word, hprefix]
  rfl

/-! ### Repetition -/

/-- What a reader takes from a text in several turns, and what it leaves.  It takes at least one
character in each. -/
inductive Reads (p : Scan α) : List Char → List α → List Char → Prop
  | done (s : List Char) : Reads p s [] s
  | turn {s s' r : List Char} {a : α} {as : List α} (h : p s = some (a, s'))
      (hlt : s'.length < s.length) (hrest : Reads p s' as r) : Reads p s (a :: as) r

theorem Reads.trans {p : Scan α} {s s' r : List Char} {as bs : List α} (h : Reads p s as s')
    (h' : Reads p s' bs r) : Reads p s (as ++ bs) r := by
  induction h with
  | done s => exact h'
  | turn h hlt _ ih => exact .turn h hlt (ih h')

theorem Reads.length_le {p : Scan α} {s r : List Char} {as : List α} (h : Reads p s as r) :
    as.length + r.length ≤ s.length := by
  induction h with
  | done s => simp
  | turn _ hlt _ ih =>
      rw [List.length_cons]
      omega

theorem manyUpTo_of_reads {p : Scan α} {s r : List Char} {as : List α} (h : Reads p s as r)
    (hstop : p r = none) {n : Nat} (hn : as.length ≤ n) : manyUpTo p n s = some (as, r) := by
  induction h generalizing n with
  | done s =>
      cases n with
      | zero => rfl
      | succ n => rw [manyUpTo, bind_of_some (optional_of_none hstop)]; rfl
  | turn h _ _ ih =>
      cases n with
      | zero => simp at hn
      | succ n =>
          rw [manyUpTo, bind_of_some (optional_of_some h)]
          exact bind_of_some (ih hstop (by simpa using hn))

/-- **A repetition ends where its reader fails.** -/
theorem many_of_reads {p : Scan α} {s r : List Char} {as : List α} (h : Reads p s as r)
    (hstop : p r = none) : many p s = some (as, r) := by
  have hlength := h.length_le
  exact manyUpTo_of_reads h hstop (by omega)

end KernelCache.Scan
