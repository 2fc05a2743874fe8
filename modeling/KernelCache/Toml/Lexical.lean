/-
**Blanks, comments and line breaks of TOML.**

Main definitions:

* `Toml.blanks`, `Toml.newline`, `Toml.comment` — what stands between the words of a line;
* `Toml.lineEnd` — the end of a line after its last word;
* `Toml.filler` — what may stand between the items of an array.
-/

import KernelCache.Text.Scan

set_option relaxedAutoImplicit false
set_option autoImplicit false

namespace KernelCache.Toml

open Scan

/-- A space or a tab. -/
def isBlank (c : Char) : Bool := c == ' ' || c == '\t'

/-- A character that text may contain as it is: no control character but the tab. -/
def isPlain (c : Char) : Bool := c == '\t' || (0x20 ≤ c.toNat && c.toNat ≠ 0x7F)

/-- One of the ten digits. -/
def isDigit (c : Char) : Bool := 48 ≤ c.toNat && c.toNat ≤ 57

/-- Blanks, if there are any. -/
def blanks : Scan Unit := do let _ ← take isBlank

/-- A line break of one or two characters. -/
def newline : Scan Unit := word "\n" <|> word "\r\n"

/-- A comment, to the end of its line. -/
def comment : Scan Unit := do
  word "#"
  let _ ← take isPlain

/-- A line break or the end of the document. -/
def lineBreak : Scan Unit := newline <|> atEnd

/-- The end of a line after its last word. -/
def lineEnd : Scan Unit := do
  blanks
  let _ ← optional comment
  lineBreak

/-- Blanks, comments and line breaks. -/
def filler : Scan Unit := do
  let _ ← many ((do let _ ← some1 isBlank) <|> newline <|> comment)

end KernelCache.Toml
