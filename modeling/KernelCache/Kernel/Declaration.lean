/-
**Declarations of kernels in a source text.**

A kernel is declared as `@kernel void name(parameters)`.  The text is scanned for markers from the
left; what stands inside a parameter list is passed over.

Main definitions:

* `Declaration` — a declared kernel;
* `Declaration.closing?` — the end of a parenthesis;
* `Declaration.scan` — the kernels of a text, or the line of the first fault.
-/

import KernelCache.Kernel.Argument
import KernelCache.Text.Search

set_option relaxedAutoImplicit false
set_option autoImplicit false

namespace KernelCache

/-- A kernel declared in a source text. -/
structure Declaration where
  name : String
  arguments : List Argument
  deriving DecidableEq, Repr

namespace Declaration

/-- What announces a kernel. -/
def marker : List Char := "@kernel".toList

/-! ### Faults -/

/-- What is wrong with a declaration. -/
inductive Reason where
  | noParameterList
  | notVoid
  | noSignature
  | unterminated
  | unclearParameter (declaration : String)
  | notText
  deriving DecidableEq, Repr

/-- The text of a reason. -/
def Reason.message : Reason → String
  | .noParameterList => "kernel without a parameter list"
  | .notVoid => "kernels must return void"
  | .noSignature => "expected `void <name>(...)` after @kernel"
  | .unterminated => "unterminated parameter list"
  | .unclearParameter declaration => "cannot parse kernel parameter `" ++ declaration ++ "`"
  | .notText => "source is not valid UTF-8"

/-- Why a text has no list of kernels. -/
inductive Fault where
  | malformed (line : Nat) (reason : Reason)
  | insideCharacter
  deriving DecidableEq, Repr

/-- A fault of a parameter list that opens on a line. -/
def Fault.ofArgument (line : Nat) : Argument.Fault → Fault
  | .unclear declaration => .malformed line (.unclearParameter declaration)
  | .insideCharacter => .insideCharacter

/-! ### Scanning -/

/-- The number of parentheses that stay open within the outermost one after a character, or nothing
when that closes the outermost one. -/
def depthAfter? (depth : Nat) (c : Char) : Option Nat :=
  if c = '(' then some (depth + 1)
  else if c = ')' then (if depth = 0 then none else some (depth - 1))
  else some depth

/-- The text before and after the parenthesis that closes `depth + 1` open ones. -/
def closing? : (depth : Nat) → List Char → Option (List Char × List Char)
  | _, [] => none
  | depth, c :: s =>
    match depthAfter? depth c with
    | none => some ([], s)
    | some depth => (closing? depth s).map fun parts => (c :: parts.1, parts.2)

theorem length_lt_of_closing? {depth : Nat} {s inside after : List Char}
    (h : closing? depth s = some (inside, after)) : after.length < s.length := by
  induction s generalizing depth inside with
  | nil => simp [closing?] at h
  | cons c s ih =>
    rw [closing?] at h
    split at h
    · simp_all
    · obtain ⟨⟨i, a⟩, hparts, heq⟩ := Option.map_eq_some_iff.1 h
      simp only [Prod.mk.injEq] at heq
      obtain ⟨-, rfl⟩ := heq
      have := ih hparts
      simp only [List.length_cons]
      omega

/-- The name that stands between a marker on one line and a parameter list. -/
def signature (line : Nat) (text : List Char) : Except Fault (List Char) :=
  match Text.words text with
  | [result, name] =>
    if result ≠ "void".toList then .error (.malformed line .notVoid)
    else if isIdentifier name then .ok name
    else .error (.malformed line .noSignature)
  | _ => .error (.malformed line .noSignature)

/-- The arguments between the parentheses of a list that opens on a line. -/
def argumentsAt (line : Nat) (text : List Char) : Except Fault (List Argument) :=
  (Argument.parseList text).mapError (Fault.ofArgument line)

/-- The first kernel of a text that starts on a line, with the text after its parameter list and the
line on which that starts. -/
def next? (line : Nat) (s : List Char) :
    Except Fault (Option (Declaration × Nat × List Char)) :=
  match Text.cut? marker s with
  | none => .ok none
  | some (before, after) => do
    let line := line + Text.newlines before
    match Text.cut? ['('] after with
    | none => throw (.malformed line .noParameterList)
    | some (head, body) =>
      let name ← signature line head
      let line := line + Text.newlines head
      match closing? 0 body with
      | none => throw (.malformed line .unterminated)
      | some (inside, rest) =>
        let arguments ← argumentsAt line inside
        return some (⟨String.ofList name, arguments⟩, line + Text.newlines inside, rest)

theorem length_lt_of_next? {line line' : Nat} {s rest : List Char} {d : Declaration}
    (h : next? line s = .ok (some (d, line', rest))) : rest.length < s.length := by
  rw [next?] at h
  split at h
  · simp at h
  · rename_i before after hmarker
    have h₁ := Text.length_lt_of_cut? (by decide) hmarker
    simp only at h
    split at h
    · cases h
    · rename_i head body hopen
      have h₂ := Text.length_lt_of_cut? (by decide) hopen
      cases hname : signature (line + Text.newlines before) head with
      | error e => simp [hname, bind, Except.bind] at h
      | ok name =>
        simp only [hname, bind, Except.bind] at h
        split at h
        · cases h
        · rename_i inside rest' hclose
          have h₃ := length_lt_of_closing? hclose
          split at h
          · cases h
          · simp only [pure, Except.pure, Except.ok.injEq, Option.some.injEq,
              Prod.mk.injEq] at h
            have : rest' = rest := h.2.2
            subst this
            omega

/-- The kernels of a text that starts on a line. -/
def scanFrom (line : Nat) (s : List Char) : Except Fault (List Declaration) :=
  match _h : next? line s with
  | .error e => .error e
  | .ok none => .ok []
  | .ok (some (d, line', rest)) => (scanFrom line' rest).map (d :: ·)
termination_by s.length
decreasing_by exact length_lt_of_next? _h

/-- The kernels of a text, in their order. -/
def scan (s : List Char) : Except Fault (List Declaration) := scanFrom 1 s

end Declaration

end KernelCache
