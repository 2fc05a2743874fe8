/-
**Text in JSON strings.**

Between its quotes a string holds characters and escapes.  Quotation marks, backslashes and control
characters are written as escapes, everything else as it is.  Reading also knows the escapes that
are never written; a character beyond the first plane may be given by the two halves of a surrogate
pair, and a half on its own stands for nothing.

Main definitions:

* `Json.escape` — the bytes of a text between quotes;
* `Json.unescape?`, `Json.text?` — the bytes and the text that these stand for.
-/

import KernelCache.Text.Hex
import KernelCache.Text.Utf8

set_option relaxedAutoImplicit false
set_option autoImplicit false

namespace KernelCache.Json

/-! ### Writing -/

/-- How a character is written between quotes. -/
def escapeChar (c : Char) : List Char :=
  match c with
  | '"' => ['\\', '"']
  | '\\' => ['\\', '\\']
  | '\x08' => ['\\', 'b']
  | '\x09' => ['\\', 't']
  | '\x0A' => ['\\', 'n']
  | '\x0C' => ['\\', 'f']
  | '\x0D' => ['\\', 'r']
  | c => if c.toNat < 0x20 then '\\' :: 'u' :: Hex.digits 4 c.toNat else [c]

/-- The bytes of a text between quotes. -/
def escape (s : String) : Bytes := Utf8.encode (String.ofList (s.toList.flatMap escapeChar))

/-! ### Reading -/

/-- What a byte after a backslash stands for, unless it announces a code. -/
def shortEscape? (b : UInt8) : Option UInt8 :=
  if b = 0x22 ∨ b = 0x5C ∨ b = 0x2F then some b
  else if b = 0x62 then some 0x08
  else if b = 0x66 then some 0x0C
  else if b = 0x6E then some 0x0A
  else if b = 0x72 then some 0x0D
  else if b = 0x74 then some 0x09
  else none

/-- The number that four hexadecimal digits write. -/
def code? (a b c d : UInt8) : Option Nat :=
  Hex.number? ([a, b, c, d].map fun x => Char.ofNat x.toNat)

/-- The character that the halves of a surrogate pair stand for. -/
def pairChar (high low : Nat) : Char :=
  Char.ofNat (0x10000 + (high - 0xD800) * 0x400 + (low - 0xDC00))

/-- Whether a code is the first half of a surrogate pair. -/
def isHigh (n : Nat) : Bool := 0xD800 ≤ n && n ≤ 0xDBFF

/-- Whether a code is the second half of a surrogate pair. -/
def isLow (n : Nat) : Bool := 0xDC00 ≤ n && n ≤ 0xDFFF

/-- The bytes that written bytes stand for.  A code that is the first half of a surrogate pair is
kept until its second half comes. -/
def unescapeFrom : (high : Option Nat) → Bytes → Option Bytes
  | none, [] => some []
  | some high, 0x5C :: 0x75 :: a :: b :: c :: d :: rest =>
    match code? a b c d with
    | some n =>
      if isLow n then
        (unescapeFrom none rest).map (String.utf8EncodeChar (pairChar high n) ++ ·)
      else none
    | none => none
  | some _, _ => none
  | none, 0x5C :: 0x75 :: a :: b :: c :: d :: rest =>
    match code? a b c d with
    | some n =>
      if isHigh n then unescapeFrom (some n) rest
      else if isLow n then none
      else (unescapeFrom none rest).map (String.utf8EncodeChar (Char.ofNat n) ++ ·)
    | none => none
  | none, 0x5C :: b :: rest =>
    match shortEscape? b with
    | some c => (unescapeFrom none rest).map (c :: ·)
    | none => none
  | none, b :: rest => (unescapeFrom none rest).map (b :: ·)

/-- The bytes that written bytes stand for. -/
def unescape? (raw : Bytes) : Option Bytes := unescapeFrom none raw

/-- The text that written bytes stand for. -/
def text? (raw : Bytes) : Option String := (unescape? raw).bind Utf8.toString?

end KernelCache.Json
