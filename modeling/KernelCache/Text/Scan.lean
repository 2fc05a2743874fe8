/-
**Reading text from the left.**

A reader takes characters from the start of a text and gives a value, or fails.  A failed reader has
taken nothing, so that another one may be tried in its place.

Main definitions:

* `Scan` — readers;
* `Scan.take`, `Scan.one`, `Scan.word` — the smallest readers;
* `Scan.many`, `Scan.separated` — repetition;
* `Scan.whole?` — the value of a text that is read to its end.
-/

set_option relaxedAutoImplicit false
set_option autoImplicit false

namespace KernelCache

/-- A reader of values from the start of a text. -/
abbrev Scan (α : Type) := StateT (List Char) Option α

namespace Scan

variable {α β : Type}

/-- The next character, which is not taken. -/
def peek? : Scan (Option Char) := fun s => some (s.head?, s)

/-- The longest start of the text with characters of a class. -/
def take (p : Char → Bool) : Scan (List Char) := fun s => some (s.takeWhile p, s.dropWhile p)

/-- The next character, if it is of a class. -/
def one (p : Char → Bool) : Scan Char
  | c :: s => if p c then some (c, s) else none
  | [] => none

/-- At least one character of a class. -/
def some1 (p : Char → Bool) : Scan (List Char) := do
  let c ← one p
  return c :: (← take p)

/-- A given word. -/
def word (w : String) : Scan Unit := fun s =>
  if w.toList.isPrefixOf s then some ((), s.drop w.toList.length) else none

/-- The end of the text. -/
def atEnd : Scan Unit
  | [] => some ((), [])
  | _ => none

/-- The value of a step that may refuse it. -/
def check (a : Option α) : Scan α := fun s => a.map (·, s)

/-- A reader as often as it succeeds, `n` times at most. -/
def manyUpTo (p : Scan α) : Nat → Scan (List α)
  | 0 => pure []
  | n + 1 => do
    match ← optional p with
    | some a => return a :: (← manyUpTo p n)
    | none => return []

/-- A reader as often as it succeeds, where it takes at least one character each time. -/
def many (p : Scan α) : Scan (List α) := fun s => manyUpTo p s.length s

/-- Values with a separator between each two; none at all is possible. -/
def separated (p : Scan α) (separator : Scan β) : Scan (List α) := do
  match ← optional p with
  | some a => return a :: (← many do let _ ← separator; p)
  | none => return []

/-- The value of a text that is read to its end. -/
def whole? (p : Scan α) (s : List Char) : Option α := (p s).bind fun r =>
  if r.2.isEmpty then some r.1 else none

end Scan

end KernelCache
