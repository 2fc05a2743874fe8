/-
**Which sources have a name after a character of several bytes.**

The type of a parameter is meant to end one byte after the last character that is not part of its
name.  When that character has several bytes there is no such end, and the scan stops there.  This
happens if and only if the scan comes to such a parameter, all earlier ones being well formed.

Main definitions:

* `Argument.declarator` — a declaration without the suffix of an array;
* `Argument.LedByWide`, `Argument.ListLedByWide` — the parameters and lists at which a scan stops;
* `Declaration.Opening` — the first kernel of a text, as far as its parameter list is closed;
* `Declaration.ReachesWide` — the sources at which a scan stops.

Main results:

* `Argument.parse_eq_insideCharacter_iff`, `Argument.parseList_eq_insideCharacter_iff`;
* `Declaration.next?_cases` — what one turn of a scan finds;
* `Declaration.scan_eq_insideCharacter_iff` — **a scan stops inside a character exactly if it
  reaches a name after a character of several bytes**.
-/

import KernelCache.Kernel.Declaration
import KernelCache.Proofs.Except
import KernelCache.Proofs.Text.Search
import Mathlib.Data.List.TakeWhile

set_option relaxedAutoImplicit false
set_option autoImplicit false

namespace KernelCache

/-! ### Parameters -/

namespace Argument

/-- What a text declares, without the suffix of an array. -/
def declarator (text : List Char) : List Char :=
  Text.trimEnd ((Text.trim text).takeWhile (· ≠ '['))

/-- In a declaration the name follows a character of several bytes. -/
def LedByWide (text : List Char) : Prop :=
  ∃ front c name, declarator text = front ++ c :: name ∧ 1 < c.utf8Size ∧
    ∀ d ∈ name, isNameChar d = true

/-- In a parameter list there is such a declaration after others that give arguments. -/
def ListLedByWide (text : List Char) : Prop :=
  ∃ before p after, (Text.trim text).splitOn ',' = before ++ p :: after ∧
    (∀ q ∈ before, ∃ a, parse q = .ok a) ∧ LedByWide p

theorem utf8Size_of_isNameChar {c : Char} (h : isNameChar c = true) : c.utf8Size = 1 := by
  have hvalue : c.toNat ≤ 127 := by
    simp only [isNameChar, isLetter, Bool.or_eq_true, Bool.and_eq_true, decide_eq_true_eq,
      beq_iff_eq] at h
    rcases h with ((h | h) | h) | rfl
    · omega
    · omega
    · omega
    · decide
  exact Char.utf8Size_eq_one_iff.2 (UInt32.le_iff_toNat_le.2 hvalue)

/-- A text has only characters of names, or there is a last one that is none. -/
theorem exists_last (s : List Char) : (∀ c ∈ s, isNameChar c = true) ∨
    ∃ front c name, s = front ++ c :: name ∧ isNameChar c = false ∧
      ∀ d ∈ name, isNameChar d = true := by
  induction s with
  | nil => exact Or.inl (by simp)
  | cons c s ih =>
      rcases ih with hall | ⟨front, d, name, rfl, hd, hname⟩
      · cases hc : isNameChar c with
        | true => exact Or.inl (by simpa [hc] using hall)
        | false => exact Or.inr ⟨[], c, s, rfl, hc, hall⟩
      · exact Or.inr ⟨c :: front, d, name, rfl, hd, hname⟩

/-- A declaration of a name alone has no type. -/
theorem parse_of_name {text : List Char} (h : ∀ c ∈ declarator text, isNameChar c = true) :
    parse text = .error (.unclear (String.ofList (Text.trim text))) := by
  have hbefore : (declarator text).reverse.dropWhile isNameChar = [] := by
    simpa [List.dropWhile_eq_nil_iff] using h
  rw [parse, ← declarator, hbefore]
  rfl

/-- What a declaration gives, by the last character that is not part of the name. -/
theorem parse_of_last {text front name : List Char} {c : Char}
    (h : declarator text = front ++ c :: name) (hc : isNameChar c = false)
    (hname : ∀ d ∈ name, isNameChar d = true) :
    parse text =
      if 1 < c.utf8Size then .error .insideCharacter
      else if isIdentifier name && !(Text.trim (front ++ [c])).isEmpty then
        .ok (make name (Text.trim (front ++ [c])) ((Text.trim text).contains '['))
      else .error (.unclear (String.ofList (Text.trim text))) := by
  have hreversed : (front ++ c :: name).reverse = name.reverse ++ c :: front.reverse := by simp
  have hpass : ∀ d ∈ name.reverse, isNameChar d = true :=
    fun d hd => hname d (List.mem_reverse.1 hd)
  have htake : (front ++ c :: name).reverse.takeWhile isNameChar = name.reverse := by
    rw [hreversed, List.takeWhile_append_of_pos hpass]
    simp [hc]
  have hdrop : (front ++ c :: name).reverse.dropWhile isNameChar = c :: front.reverse := by
    rw [hreversed, List.dropWhile_append_of_pos hpass]
    simp [hc]
  rw [parse, ← declarator, h, htake, hdrop]
  simp only [List.head?_cons, List.reverse_cons, List.reverse_reverse]

/-- A declaration has no place to cut exactly if the name follows a character of several bytes. -/
theorem parse_eq_insideCharacter_iff {text : List Char} :
    parse text = .error .insideCharacter ↔ LedByWide text := by
  constructor
  · intro h
    rcases exists_last (declarator text) with hall | ⟨front, c, name, heq, hc, hname⟩
    · rw [parse_of_name hall] at h
      cases h
    · rw [parse_of_last heq hc hname] at h
      split at h
      · next hwide => exact ⟨front, c, name, heq, hwide, hname⟩
      · split at h <;> cases h
  · rintro ⟨front, c, name, heq, hwide, hname⟩
    have hc : isNameChar c = false := by
      cases hc : isNameChar c with
      | false => rfl
      | true =>
          rw [utf8Size_of_isNameChar hc] at hwide
          omega
    rw [parse_of_last heq hc hname, if_pos hwide]

/-- A list that says that there are no parameters is one piece, without wide characters. -/
theorem not_listLedByWide {text : List Char}
    (h : Text.trim text = [] ∨ Text.trim text = "void".toList) : ¬ListLedByWide text := by
  have hpiece : ∀ whole : List Char, whole = [] ∨ whole = "void".toList →
      whole.splitOn ',' = [whole] ∧ (declarator whole).all (·.utf8Size == 1) = true := by
    rintro whole (rfl | rfl)
    · exact ⟨by decide, by decide⟩
    · exact ⟨by decide, by decide⟩
  obtain ⟨hsplit, hnarrow⟩ := hpiece _ h
  rintro ⟨before, p, after, heq, -, front, c, name, hdeclarator, hwide, -⟩
  rw [hsplit] at heq
  have hp : p ∈ [Text.trim text] := by
    rw [heq]
    simp
  rw [List.mem_singleton.1 hp] at hdeclarator
  have hone := List.all_eq_true.1 hnarrow c (by rw [hdeclarator]; simp)
  rw [beq_iff_eq] at hone
  omega

theorem parseList_eq_insideCharacter_iff {text : List Char} :
    parseList text = .error .insideCharacter ↔ ListLedByWide text := by
  rw [parseList]
  split
  · next hnone =>
      have hwide : ¬ListLedByWide text := not_listLedByWide (by simpa using hnone)
      simp [hwide]
  · rw [mapM_eq_error_iff]
    simp only [parse_eq_insideCharacter_iff, ListLedByWide]

end Argument

/-! ### Kernels -/

namespace Declaration

/-- The first character of a marker does not come again in it. -/
theorem unbordered_marker : Text.Unbordered marker where
  ne_nil := by decide
  head c hc := by
    obtain rfl : '@' = c := Option.some.inj hc
    decide

theorem newlines_append (a b : List Char) :
    Text.newlines (a ++ b) = Text.newlines a + Text.newlines b := List.count_append

theorem depthAfter?_eq_none_iff {depth : Nat} {c : Char} :
    depthAfter? depth c = none ↔ c = ')' ∧ depth = 0 := by
  rw [depthAfter?]
  split
  · next hopen => simp [hopen]
  · split <;> simp_all

theorem parts_of_closing? {depth : Nat} {s inside rest : List Char}
    (h : closing? depth s = some (inside, rest)) : s = inside ++ ')' :: rest := by
  induction s generalizing depth inside with
  | nil => simp [closing?] at h
  | cons c s ih =>
      rw [closing?] at h
      split at h
      · next hnone =>
          simp only [Option.some.injEq, Prod.mk.injEq] at h
          rw [← h.1, ← h.2, (depthAfter?_eq_none_iff.1 hnone).1, List.nil_append]
      · obtain ⟨⟨i, a⟩, hparts, heq⟩ := Option.map_eq_some_iff.1 h
        simp only [Prod.mk.injEq] at heq
        obtain ⟨rfl, rfl⟩ := heq
        rw [ih hparts, List.cons_append]

/-- The first kernel of a text, as far as its parameter list is closed. -/
structure Opening (s : List Char) where
  before : List Char
  after : List Char
  head : List Char
  body : List Char
  name : List Char
  inside : List Char
  rest : List Char
  cut_marker : Text.cut? marker s = some (before, after)
  cut_opening : Text.cut? ['('] after = some (head, body)
  words_head : Text.words head = ["void".toList, name]
  identifier : isIdentifier name = true
  closing : closing? 0 body = some (inside, rest)

namespace Opening

variable {s : List Char} (k : Opening s)

/-- What a scan passes over until the parameter list is closed. -/
def passed : List Char := k.before ++ marker ++ k.head ++ '(' :: k.inside

theorem passed_ne_nil : k.passed ≠ [] := by simp [passed]

theorem passed_append : k.passed ++ ')' :: k.rest = s := by
  have hopen := Text.cut?_eq k.cut_opening
  rw [parts_of_closing? k.closing] at hopen
  have hmarker := Text.cut?_eq k.cut_marker
  rw [hopen] at hmarker
  refine Eq.trans ?_ hmarker.symm
  simp [passed]

theorem length_rest_lt : k.rest.length + 1 < s.length := by
  have hpassed := List.length_pos_iff.2 k.passed_ne_nil
  have hlength := congrArg List.length k.passed_append
  simp only [List.length_append, List.length_cons] at hlength
  omega

theorem newlines_passed : Text.newlines k.passed =
    Text.newlines k.before + Text.newlines k.head + Text.newlines k.inside := by
  have hmarker : Text.newlines marker = 0 := by decide
  have hinside : Text.newlines ('(' :: k.inside) = Text.newlines k.inside :=
    List.count_cons_of_ne (by decide)
  rw [passed, newlines_append, newlines_append, newlines_append, hinside, hmarker, Nat.add_zero]

/-- The line on which the parameter list opens. -/
def lineAt (line : Nat) : Nat := line + Text.newlines k.before + Text.newlines k.head

/-- What the scan makes of the kernel is decided by its parameters. -/
theorem next?_eq (line : Nat) : next? line s =
    match Argument.parseList k.inside with
    | .error fault => .error (.ofArgument (k.lineAt line) fault)
    | .ok arguments =>
      .ok (some (⟨String.ofList k.name, arguments⟩, line + Text.newlines k.passed, k.rest)) := by
  have hname : signature (line + Text.newlines k.before) k.head = .ok k.name := by
    rw [signature, k.words_head]
    simp [k.identifier]
  rw [next?, k.cut_marker]
  dsimp only
  rw [k.cut_opening]
  dsimp only
  rw [hname]
  simp only [bind, Except.bind]
  rw [k.closing]
  dsimp only
  rw [argumentsAt, newlines_passed, ← Nat.add_assoc, ← Nat.add_assoc]
  cases Argument.parseList k.inside <;> rfl

end Opening

/-- A text that is not scanned as far as the parameters of a kernel has no kernel, or it is
malformed. -/
theorem next?_cases (line : Nat) (s : List Char) : Nonempty (Opening s) ∨
    (¬marker <:+: s ∧ next? line s = .ok none) ∨
      ∃ line' reason, next? line s = .error (.malformed line' reason) := by
  rw [next?]
  cases hmarker : Text.cut? marker s with
  | none => exact Or.inr (Or.inl ⟨Text.cut?_eq_none_iff.1 hmarker, rfl⟩)
  | some parts =>
      obtain ⟨before, after⟩ := parts
      dsimp only
      cases hopen : Text.cut? ['('] after with
      | none => exact Or.inr (Or.inr ⟨_, _, rfl⟩)
      | some parts =>
          obtain ⟨head, body⟩ := parts
          dsimp only
          rw [signature]
          split
          · next result name hwords =>
              split
              · exact Or.inr (Or.inr ⟨_, _, rfl⟩)
              · next hvoid =>
                  rw [ne_eq, not_not] at hvoid
                  split
                  · next hname =>
                      cases hclose : closing? 0 body with
                      | none => exact Or.inr (Or.inr ⟨_, _, rfl⟩)
                      | some parts =>
                          exact Or.inl ⟨⟨before, after, head, body, name, parts.1, parts.2, hmarker,
                            hopen, hvoid ▸ hwords, hname, hclose⟩⟩
                  · exact Or.inr (Or.inr ⟨_, _, rfl⟩)
          · exact Or.inr (Or.inr ⟨_, _, rfl⟩)

/-! ### Sources -/

/-- A scan of the text comes to a name after a character of several bytes: in the parameters of the
first kernel, or after it. -/
inductive ReachesWide : List Char → Prop
  | here {s : List Char} (k : Opening s) (h : Argument.ListLedByWide k.inside) : ReachesWide s
  | later {s : List Char} (k : Opening s) {arguments : List Argument}
      (h : Argument.parseList k.inside = .ok arguments) (hrest : ReachesWide k.rest) : ReachesWide s

theorem scanFrom_of_none {line : Nat} {s : List Char} (h : next? line s = .ok none) :
    scanFrom line s = .ok [] := by
  rw [scanFrom]
  split <;> simp_all

theorem scanFrom_of_error {line : Nat} {s : List Char} {fault : Fault}
    (h : next? line s = .error fault) : scanFrom line s = .error fault := by
  rw [scanFrom]
  split <;> simp_all

/-- A scan goes on after a kernel if its parameters are well formed. -/
theorem Opening.scanFrom_eq {s : List Char} (k : Opening s) (line : Nat) : scanFrom line s =
    match Argument.parseList k.inside with
    | .error fault => .error (.ofArgument (k.lineAt line) fault)
    | .ok arguments =>
      (scanFrom (line + Text.newlines k.passed) k.rest).map (⟨String.ofList k.name, arguments⟩ :: ·)
    := by
  have hnext := k.next?_eq line
  cases hlist : Argument.parseList k.inside with
  | error fault =>
      rw [hlist] at hnext
      exact scanFrom_of_error hnext
  | ok arguments =>
      rw [hlist] at hnext
      rw [scanFrom]
      split <;> simp_all

/-- **A scan stops inside a character exactly if it reaches a name after a character of several
bytes.** -/
theorem scanFrom_eq_insideCharacter_iff {line : Nat} {s : List Char} :
    scanFrom line s = .error .insideCharacter ↔ ReachesWide s := by
  constructor
  · -- One turn may pass over any part of the text, so the induction is on its length.
    intro h
    induction hn : s.length using Nat.strong_induction_on generalizing s line with
    | _ n ih =>
      rcases next?_cases line s with ⟨⟨k⟩⟩ | ⟨-, hnone⟩ | ⟨_, _, hfault⟩
      · rw [k.scanFrom_eq] at h
        cases hlist : Argument.parseList k.inside with
        | error fault =>
            rw [hlist] at h
            cases fault with
            | unclear declaration => cases h
            | insideCharacter =>
                exact .here k (Argument.parseList_eq_insideCharacter_iff.1 hlist)
        | ok arguments =>
            rw [hlist] at h
            have hrest := k.length_rest_lt
            have hscan : scanFrom (line + Text.newlines k.passed) k.rest =
                .error .insideCharacter := by
              cases hr : scanFrom (line + Text.newlines k.passed) k.rest with
              | error fault =>
                  rw [hr] at h
                  cases h
                  rfl
              | ok ds =>
                  rw [hr] at h
                  cases h
            exact .later k hlist (ih _ (by omega) hscan rfl)
      · rw [scanFrom_of_none hnone] at h
        cases h
      · rw [scanFrom_of_error hfault] at h
        cases h
  · intro h
    induction h generalizing line with
    | here k h =>
        rw [k.scanFrom_eq, Argument.parseList_eq_insideCharacter_iff.2 h]
        rfl
    | later k h _ ih =>
        rw [k.scanFrom_eq, h]
        dsimp only
        rw [ih]
        rfl

end Declaration

end KernelCache
