/-
**Strings of TOML.**

A string stands in quotation marks, where a backslash starts an escape, or in apostrophes, where it
does not.  In triple quotes it may run over several lines; a line break right at its start does not
count, one or two quotes may stand inside, and before the quotes at its end, too.

Main definitions:

* `Toml.basic`, `Toml.literal` — strings on one line;
* `Toml.multiBasic`, `Toml.multiLiteral` — strings on several lines;
* `Toml.string` — any of them.
-/

import KernelCache.Text.Hex
import KernelCache.Toml.Lexical

set_option relaxedAutoImplicit false
set_option autoImplicit false

namespace KernelCache.Toml

open Scan

/-- The character of a code written in `width` digits. -/
def code (width : Nat) : Scan Char := do
  let ds ← (List.replicate width (one fun c => (Hex.value? c).isSome)).mapM id
  let n ← check (Hex.number? ds)
  check (if n.isValidChar then some (Char.ofNat n) else none)

/-- The character of an escape. -/
def escape : Scan Char := do
  word "\\"
  match ← one fun _ => true with
  | 'b' => return '\x08'
  | 't' => return '\t'
  | 'n' => return '\n'
  | 'f' => return '\x0C'
  | 'r' => return '\r'
  | '"' => return '"'
  | '\\' => return '\\'
  | 'u' => code 4
  | 'U' => code 8
  | _ => failure

/-- A character that stands for itself between quotation marks. -/
def isBasic (c : Char) : Bool := isPlain c && c != '"' && c != '\\'

/-- A character that stands for itself between apostrophes. -/
def isLiteral (c : Char) : Bool := isPlain c && c != '\''

/-- Text of several parts. -/
def parts (p : Scan (List Char)) : Scan (List Char) := do return (← many p).flatten

/-- A string in quotation marks. -/
def basic : Scan (List Char) := do
  word "\""
  let text ← parts (some1 isBasic <|> do return [← escape])
  word "\""
  return text

/-- A string in apostrophes. -/
def literal : Scan (List Char) := do
  word "'"
  let text ← take isLiteral
  word "'"
  return text

/-- One or two quotes that do not belong to the end of a string. -/
def innerQuotes (quote : Char) : Scan (List Char) := fun s =>
  let run := s.takeWhile (· == quote)
  if 1 ≤ run.length ∧ run.length ≤ 2 then some (run, s.drop run.length) else none

/-- The three quotes at the end of a string, with one or two before them that belong to it. -/
def closingQuotes (quote : Char) : Scan (List Char) := fun s =>
  let run := s.takeWhile (· == quote)
  if 3 ≤ run.length ∧ run.length ≤ 5 then some (run.drop 3, s.drop run.length) else none

/-- A line break, which stands for a line feed. -/
def lineFeed : Scan (List Char) := do
  newline
  return ['\n']

/-- A backslash at the end of a line, which stands for nothing, as do the blanks and line breaks
after it. -/
def continuation : Scan (List Char) := do
  word "\\"
  blanks
  newline
  let _ ← many ((do let _ ← some1 isBlank) <|> newline)
  return []

/-- A string between triple quotes of a kind. -/
def multi (start : String) (quote : Char) (part : Scan (List Char)) : Scan (List Char) := do
  word start
  let _ ← optional newline
  let text ← parts (part <|> lineFeed <|> innerQuotes quote)
  return text ++ (← closingQuotes quote)

/-- A string in triple quotation marks. -/
def multiBasic : Scan (List Char) :=
  multi "\"\"\"" '"' (some1 isBasic <|> continuation <|> do return [← escape])

/-- A string in triple apostrophes. -/
def multiLiteral : Scan (List Char) := multi "'''" '\'' (some1 isLiteral)

/-- A string. -/
def string : Scan String := do
  return String.ofList (← multiBasic <|> basic <|> multiLiteral <|> literal)

end KernelCache.Toml
