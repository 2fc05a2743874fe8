/-
**Texts are scanned part by part.**

A kernel is read as far as the parenthesis that closes its parameter list, and nothing after that
can change how it was read.  What is left of a text when its last kernel has been read has no
marker.  So the kernels of two texts that are joined are those of the first and then those of the
second, as long as no marker straddles the join.

Main definitions:

* `Declaration.Reads` — **the kernels of a text, one after the other**;
* `Declaration.Fault.shift` — a fault some lines further down.

Main results:

* `Declaration.scanFrom_append_of_unmarked` — text without a marker is passed over;
* `Declaration.Opening.scanFrom_passed` — what follows a kernel does not change how it is read;
* `Declaration.scanFrom_eq_ok_iff` — what a scan that ends well has read;
* `Declaration.Reads.scanFrom_append`, `Declaration.scanFrom_add` — parts and lines;
* `scan_append` — **the kernels of two texts that are joined**.
-/

import KernelCache.Proofs.Kernel.Opening

set_option relaxedAutoImplicit false
set_option autoImplicit false

namespace KernelCache

namespace Declaration

/-! ### Text between kernels -/

theorem scanFrom_of_next? {line line' : Nat} {s rest : List Char} {d : Declaration}
    (h : next? line s = .ok (some (d, line', rest))) :
    scanFrom line s = (scanFrom line' rest).map (d :: ·) := by
  rw [scanFrom]
  split <;> simp_all

/-- A scan is decided by its first turn. -/
theorem scanFrom_congr {line line' : Nat} {s s' : List Char} (h : next? line s = next? line' s') :
    scanFrom line s = scanFrom line' s' := by
  cases hnext : next? line' s' with
  | error fault => rw [scanFrom_of_error hnext, scanFrom_of_error (h.trans hnext)]
  | ok found? =>
      cases found? with
      | none => rw [scanFrom_of_none hnext, scanFrom_of_none (h.trans hnext)]
      | some found => rw [scanFrom_of_next? hnext, scanFrom_of_next? (h.trans hnext)]

/-- The next kernel after text without a marker is the next one of what follows that. -/
theorem next?_append_of_unmarked {a b : List Char} (ha : ¬marker <:+: a)
    (hjoin : ¬Text.Straddles marker a b) (line : Nat) :
    next? line (a ++ b) = next? (line + Text.newlines a) b := by
  rw [next?, next?, Text.cut?_append_right ha hjoin]
  cases Text.cut? marker b with
  | none => rfl
  | some parts =>
      have hline : line + Text.newlines (a ++ parts.1) =
          line + Text.newlines a + Text.newlines parts.1 := by
        rw [newlines_append, Nat.add_assoc]
      simp only [Option.map_some, hline]

/-- Text without a marker is passed over. -/
theorem scanFrom_append_of_unmarked {a b : List Char} (ha : ¬marker <:+: a)
    (hjoin : ¬Text.Straddles marker a b) (line : Nat) :
    scanFrom line (a ++ b) = scanFrom (line + Text.newlines a) b :=
  scanFrom_congr (next?_append_of_unmarked ha hjoin line)

/-! ### Text after a kernel -/

/-- Where a parenthesis is closed does not depend on what follows. -/
theorem closing?_rest {depth : Nat} {s inside rest : List Char}
    (h : closing? depth s = some (inside, rest)) (rest' : List Char) :
    closing? depth (inside ++ ')' :: rest') = some (inside, rest') := by
  induction s generalizing depth inside with
  | nil => cases h
  | cons c s ih =>
      rw [closing?] at h
      split at h
      · next hnone =>
          cases h
          obtain ⟨rfl, -⟩ := depthAfter?_eq_none_iff.1 hnone
          rw [List.nil_append, closing?, hnone]
      · next depth' hdepth =>
          obtain ⟨⟨i, r⟩, hparts, heq⟩ := Option.map_eq_some_iff.1 h
          simp only [Prod.mk.injEq] at heq
          obtain ⟨rfl, rfl⟩ := heq
          rw [List.cons_append, closing?, hdepth]
          simp only [ih hparts, Option.map_some]

namespace Opening

variable {s : List Char} (k : Opening s)

/-- The same kernel, with another text after it. -/
def withRest (rest : List Char) : Opening (k.passed ++ ')' :: rest) where
  before := k.before
  after := k.head ++ '(' :: (k.inside ++ ')' :: rest)
  head := k.head
  body := k.inside ++ ')' :: rest
  name := k.name
  inside := k.inside
  rest := rest
  cut_marker := by
    have hbefore := Text.not_infix_of_cut? unbordered_marker.ne_nil k.cut_marker
    rw [← Text.cut?_append unbordered_marker hbefore, passed]
    simp only [List.append_assoc, List.cons_append]
  cut_opening := Text.cut?_char (Text.notMem_of_cut?_char k.cut_opening) _
  words_head := k.words_head
  identifier := k.identifier
  closing := closing?_rest k.closing rest

theorem rest_suffix : k.rest <:+ s := by
  have hsuffix := (List.suffix_cons ')' k.rest).trans (List.suffix_append k.passed _)
  rwa [k.passed_append] at hsuffix

/-- The line breaks of a text are in what is passed over and in what is left. -/
theorem newlines_eq : Text.newlines k.passed + Text.newlines k.rest = Text.newlines s := by
  have hclose : Text.newlines (')' :: k.rest) = Text.newlines k.rest :=
    List.count_cons_of_ne (by decide)
  rw [← hclose, ← newlines_append, k.passed_append]

/-- **What follows a kernel does not change how it is read.** -/
theorem scanFrom_passed (line : Nat) (rest : List Char) :
    scanFrom line (k.passed ++ ')' :: rest) =
      match Argument.parseList k.inside with
      | .error fault => .error (.ofArgument (k.lineAt line) fault)
      | .ok arguments =>
        (scanFrom (line + Text.newlines k.passed) rest).map
          (⟨String.ofList k.name, arguments⟩ :: ·) :=
  (k.withRest rest).scanFrom_eq line

end Opening

/-! ### Kernels one after the other -/

/-- **The kernels of a text, one after the other.**  Each has well-formed parameters, and after the
last one there is no marker. -/
inductive Reads : List Char → List Declaration → Prop
  | done {s : List Char} (h : ¬marker <:+: s) : Reads s []
  | kernel {s : List Char} (k : Opening s) {arguments : List Argument}
      (h : Argument.parseList k.inside = .ok arguments) {ds : List Declaration}
      (hrest : Reads k.rest ds) : Reads s (⟨String.ofList k.name, arguments⟩ :: ds)

/-- **What a scan that ends well has read.** -/
theorem scanFrom_eq_ok_iff {line : Nat} {s : List Char} {ds : List Declaration} :
    scanFrom line s = .ok ds ↔ Reads s ds := by
  constructor
  · -- One turn may pass over any part of the text, so the induction is on its length.
    intro h
    induction hn : s.length using Nat.strong_induction_on generalizing s line ds with
    | _ n ih =>
      rcases next?_cases line s with ⟨⟨k⟩⟩ | ⟨hunmarked, hnone⟩ | ⟨_, _, hfault⟩
      · rw [k.scanFrom_eq] at h
        cases hlist : Argument.parseList k.inside with
        | error fault =>
            rw [hlist] at h
            cases h
        | ok arguments =>
            rw [hlist] at h
            cases hrest : scanFrom (line + Text.newlines k.passed) k.rest with
            | error fault =>
                rw [hrest] at h
                cases h
            | ok later =>
                rw [hrest] at h
                cases h
                have hlength := k.length_rest_lt
                exact .kernel k hlist (ih _ (by omega) hrest rfl)
      · rw [scanFrom_of_none hnone] at h
        cases h
        exact .done hunmarked
      · rw [scanFrom_of_error hfault] at h
        cases h
  · intro h
    induction h generalizing line with
    | @done s h =>
        refine scanFrom_of_none ?_
        rw [next?, Text.cut?_eq_none h]
    | kernel k h _ ih =>
        rw [k.scanFrom_eq, h]
        dsimp only
        rw [ih]
        rfl

/-- A kernel with no marker behind it is the only one. -/
theorem scan_single (line : Nat) {s : List Char} (rest : List Char) {d : Declaration}
    (h : next? 1 s = .ok (some (d, line, rest))) (hrest : ¬marker <:+: rest) :
    scan s = .ok [d] := by
  rw [scan, scanFrom_of_next? h, scanFrom_eq_ok_iff.2 (.done hrest)]
  rfl

/-- A scan goes on behind a text that has been read. -/
theorem Reads.scanFrom_append {a : List Char} {ds : List Declaration} (h : Reads a ds)
    {b : List Char} (hjoin : ¬Text.Straddles marker a b) (line : Nat) :
    scanFrom line (a ++ b) = (scanFrom (line + Text.newlines a) b).map (ds ++ ·) := by
  induction h generalizing line with
  | done h =>
      rw [scanFrom_append_of_unmarked h hjoin]
      cases scanFrom _ b <;> rfl
  | @kernel s k arguments h ds _ ih =>
      have htext : s ++ b = k.passed ++ ')' :: (k.rest ++ b) := by
        rw [← List.cons_append, ← List.append_assoc, k.passed_append]
      rw [htext, k.scanFrom_passed, h]
      dsimp only
      rw [ih fun hin => hjoin (hin.of_suffix k.rest_suffix), Nat.add_assoc, k.newlines_eq]
      cases scanFrom (line + Text.newlines s) b <;> rfl

/-! ### Lines -/

/-- A fault some lines further down. -/
def Fault.shift (lines : Nat) : Fault → Fault
  | .malformed line reason => .malformed (line + lines) reason
  | .insideCharacter => .insideCharacter

theorem signature_add (line lines : Nat) (text : List Char) :
    signature (line + lines) text = (signature line text).mapError (Fault.shift lines) := by
  rw [signature, signature]
  split
  · split
    · rfl
    · split <;> rfl
  · rfl

theorem argumentsAt_add (line lines : Nat) (text : List Char) :
    argumentsAt (line + lines) text = (argumentsAt line text).mapError (Fault.shift lines) := by
  rw [argumentsAt, argumentsAt]
  cases Argument.parseList text with
  | error fault => cases fault <;> rfl
  | ok arguments => rfl

/-- A turn that starts some lines further down finds the same there. -/
theorem next?_add (line lines : Nat) (s : List Char) : next? (line + lines) s =
    ((next? line s).map fun found? => found?.map fun found =>
      (found.1, found.2.1 + lines, found.2.2)).mapError (Fault.shift lines) := by
  rw [next?, next?]
  cases Text.cut? marker s with
  | none => rfl
  | some parts =>
      obtain ⟨before, after⟩ := parts
      have hline : line + lines + Text.newlines before = line + Text.newlines before + lines :=
        Nat.add_right_comm ..
      dsimp only
      cases Text.cut? ['('] after with
      | none =>
          rw [hline]
          rfl
      | some parts =>
          obtain ⟨head, body⟩ := parts
          dsimp only
          rw [hline, signature_add]
          cases signature (line + Text.newlines before) head with
          | error fault => rfl
          | ok name =>
              have hopen : line + Text.newlines before + lines + Text.newlines head =
                  line + Text.newlines before + Text.newlines head + lines := Nat.add_right_comm ..
              simp only [Except.mapError, bind, Except.bind, hopen]
              cases closing? 0 body with
              | none => rfl
              | some parts =>
                  obtain ⟨inside, rest⟩ := parts
                  dsimp only
                  rw [argumentsAt_add]
                  cases argumentsAt _ inside with
                  | error fault => rfl
                  | ok arguments =>
                      have hlast := Nat.add_right_comm
                        (line + Text.newlines before + Text.newlines head) lines
                        (Text.newlines inside)
                      simp [Except.map, Except.mapError, pure, Except.pure, hlast]

/-- A scan that starts some lines further down is the same there. -/
theorem scanFrom_add (line lines : Nat) (s : List Char) :
    scanFrom (line + lines) s = (scanFrom line s).mapError (Fault.shift lines) := by
  -- One turn may pass over any part of the text, so the induction is on its length.
  induction hn : s.length using Nat.strong_induction_on generalizing s line with
  | _ n ih =>
    have hnext := next?_add line lines s
    cases hfound : next? line s with
    | error fault =>
        rw [hfound] at hnext
        rw [scanFrom_of_error hfound, scanFrom_of_error hnext]
        rfl
    | ok found? =>
        rw [hfound] at hnext
        cases found? with
        | none =>
            rw [scanFrom_of_none hfound, scanFrom_of_none hnext]
            rfl
        | some found =>
            obtain ⟨d, line', rest⟩ := found
            have hlength := length_lt_of_next? hfound
            rw [scanFrom_of_next? hfound, scanFrom_of_next? hnext]
            dsimp only
            rw [ih _ (by omega) line' rest rfl]
            cases scanFrom line' rest <;> rfl

end Declaration

/-! ### Joined texts -/

open Declaration in
/-- **Scanning is compositional.**  Where the kernels of a text are found and no marker straddles
its end, those of the text that follows are found behind it: the whole has kernels exactly if the
second text has, and these are the kernels of the two, in their order.  A fault of the second text
is one of the whole, for the same reason, and further down by the lines of the first text; and where
the scan of the second text comes to a cut inside a character, so does that of the whole. -/
theorem scan_append {a b : List Char} {ds : List Declaration} (ha : scan a = .ok ds)
    (hjoin : ¬Text.Straddles marker a b) :
    ((∃ fs, scan (a ++ b) = .ok fs) ↔ ∃ es, scan b = .ok es) ∧
    (∀ es, scan b = .ok es → scan (a ++ b) = .ok (ds ++ es)) ∧
    (∀ line reason, scan b = .error (.malformed line reason) →
      scan (a ++ b) = .error (.malformed (line + a.count '\n') reason)) ∧
    (scan b = .error .insideCharacter → scan (a ++ b) = .error .insideCharacter) := by
  have hscan : scan (a ++ b) =
      ((scan b).mapError (Fault.shift (a.count '\n'))).map (ds ++ ·) := by
    have hjoined := (scanFrom_eq_ok_iff.1 ha).scanFrom_append hjoin 1
    rwa [scanFrom_add] at hjoined
  rw [hscan]
  cases scan b with
  | error fault => cases fault <;> simp_all [Except.mapError, Except.map, Fault.shift]
  | ok es => simp [Except.mapError, Except.map]

namespace SplitSource

/-- A kernel, and the start of a marker that nothing completes. -/
def first : List Char := "@kernel void f(int n) \x7b\n\x7d @kern".toList

/-- A text whose declaration has another result type. -/
def second : List Char := "\n@kernel int g()".toList

theorem scan_first : Declaration.scan first = .ok [⟨"f", [⟨"n", "int", .scalar⟩]⟩] :=
  Declaration.scan_single 1 " \x7b\n\x7d @kern".toList rfl (by decide)

/-- The fault on the second line of the second part is on the third line of the whole. -/
theorem scan_joined : ¬Text.Straddles Declaration.marker first second ∧
    Declaration.scan second = .error (.malformed 2 .notVoid) ∧
    Declaration.scan (first ++ second) = .error (.malformed 3 .notVoid) := by
  have hjoin : ¬Text.Straddles Declaration.marker first second := by decide
  have hsecond : Declaration.scan second = .error (.malformed 2 .notVoid) :=
    Declaration.scanFrom_of_error rfl
  obtain ⟨-, -, hfault, -⟩ := scan_append scan_first hjoin
  exact ⟨hjoin, hsecond, hfault 2 .notVoid hsecond⟩

end SplitSource

end KernelCache
