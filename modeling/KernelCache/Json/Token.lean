/-
**The tokens of JSON.**

A document is cut into tokens by a machine that takes one byte at a time.  The inside of a string is
kept as it is written: an escape is checked for its shape only, and whether the bytes are text is
not asked, because a document may carry strings that nobody looks at.

Main definitions:

* `Json.Token` — the tokens;
* `Json.Lexer`, `Json.Lexer.step` — the machine;
* `Json.tokens?` — the tokens of a document.
-/

import KernelCache.Text.Utf8

set_option relaxedAutoImplicit false
set_option autoImplicit false

namespace KernelCache.Json

/-- A token.  Strings and numbers keep the bytes in which they are written. -/
inductive Token where
  | openBrace
  | closeBrace
  | openBracket
  | closeBracket
  | colon
  | comma
  | null
  | bool (b : Bool)
  | number (text : Bytes)
  | string (raw : Bytes)
  deriving DecidableEq, Repr

/-! ### Numbers -/

/-- How far the reading of a number has come. -/
inductive NumberPart where
  | sign
  | zero
  | whole
  | point
  | fraction
  | mark
  | markSign
  | exponent
  deriving DecidableEq, Repr

/-- Whether a byte is one of the ten digits. -/
def isDigit (b : UInt8) : Bool := 0x30 ≤ b && b ≤ 0x39

/-- Whether a number may end here. -/
def NumberPart.complete : NumberPart → Bool
  | .zero | .whole | .fraction | .exponent => true
  | .sign | .point | .mark | .markSign => false

/-- The part of a number that a byte leads to, if the byte continues the number. -/
def NumberPart.next? (part : NumberPart) (b : UInt8) : Option NumberPart :=
  let digit := isDigit b
  let dot := b == 0x2E
  let mark := b == 0x65 || b == 0x45
  let sign := b == 0x2B || b == 0x2D
  match part with
  | .sign => if b == 0x30 then some .zero else if digit then some .whole else none
  | .zero => if dot then some .point else if mark then some .mark else none
  | .whole =>
    if digit then some .whole else if dot then some .point else if mark then some .mark else none
  | .point => if digit then some .fraction else none
  | .fraction => if digit then some .fraction else if mark then some .mark else none
  | .mark => if digit then some .exponent else if sign then some .markSign else none
  | .markSign => if digit then some .exponent else none
  | .exponent => if digit then some .exponent else none

/-! ### The machine -/

/-- What the machine is in the middle of.  The bytes read are kept latest first. -/
inductive Mode where
  | between
  | word (left : Bytes) (token : Token)
  | text (raw : Bytes)
  | escape (raw : Bytes)
  | code (left : Nat) (raw : Bytes)
  | number (text : Bytes) (part : NumberPart)
  deriving DecidableEq, Repr

/-- The tokens so far, latest first, and what the machine is in the middle of. -/
structure Lexer where
  done : List Token
  mode : Mode
  deriving DecidableEq, Repr

namespace Lexer

/-- The machine before the first byte. -/
def start : Lexer := ⟨[], .between⟩

/-- Ends a token. -/
def emit (l : Lexer) (t : Token) : Lexer := ⟨t :: l.done, .between⟩

/-- Whether a byte stands between tokens. -/
def isBlank (b : UInt8) : Bool := b == 0x20 || b == 0x09 || b == 0x0A || b == 0x0D

/-- Whether a byte stands for itself or a control character after a backslash. -/
def isShortEscape (b : UInt8) : Bool :=
  [0x22, 0x5C, 0x2F, 0x62, 0x66, 0x6E, 0x72, 0x74].contains b

/-- Whether a byte is a hexadecimal digit. -/
def isHexDigit (b : UInt8) : Bool :=
  isDigit b || (0x61 ≤ b && b ≤ 0x66) || (0x41 ≤ b && b ≤ 0x46)

/-- The effect of a byte between tokens. -/
def stepBetween (l : Lexer) (b : UInt8) : Option Lexer :=
  if isBlank b then some { l with mode := .between }
  else if b = 0x7B then some (l.emit .openBrace)
  else if b = 0x7D then some (l.emit .closeBrace)
  else if b = 0x5B then some (l.emit .openBracket)
  else if b = 0x5D then some (l.emit .closeBracket)
  else if b = 0x3A then some (l.emit .colon)
  else if b = 0x2C then some (l.emit .comma)
  else if b = 0x22 then some { l with mode := .text [] }
  else if b = 0x6E then some { l with mode := .word (Utf8.encode "ull") .null }
  else if b = 0x74 then some { l with mode := .word (Utf8.encode "rue") (.bool true) }
  else if b = 0x66 then some { l with mode := .word (Utf8.encode "alse") (.bool false) }
  else if b = 0x2D then some { l with mode := .number [b] .sign }
  else if b = 0x30 then some { l with mode := .number [b] .zero }
  else if isDigit b then some { l with mode := .number [b] .whole }
  else none

/-- The effect of a byte. -/
def step (l : Lexer) (b : UInt8) : Option Lexer :=
  match l.mode with
  | .between => l.stepBetween b
  | .word [] _ => none
  | .word [c] t => if b = c then some (l.emit t) else none
  | .word (c :: left) t => if b = c then some { l with mode := .word left t } else none
  | .text raw =>
    if b = 0x22 then some (l.emit (.string raw.reverse))
    else if b = 0x5C then some { l with mode := .escape (b :: raw) }
    else if b < 0x20 then none
    else some { l with mode := .text (b :: raw) }
  | .escape raw =>
    if b = 0x75 then some { l with mode := .code 3 (b :: raw) }
    else if isShortEscape b then some { l with mode := .text (b :: raw) }
    else none
  | .code left raw =>
    if isHexDigit b then
      match left with
      | 0 => some { l with mode := .text (b :: raw) }
      | left + 1 => some { l with mode := .code left (b :: raw) }
    else none
  | .number text part =>
    match part.next? b with
    | some next => some { l with mode := .number (b :: text) next }
    | none => if part.complete then (l.emit (.number text.reverse)).stepBetween b else none

/-- The machine after more bytes. -/
def feed (l : Lexer) (bytes : Bytes) : Option Lexer := bytes.foldlM step l

/-- The tokens at the end of a document. -/
def finish (l : Lexer) : Option (List Token) :=
  match l.mode with
  | .between => some l.done.reverse
  | .number text part =>
    if part.complete then some (l.emit (.number text.reverse)).done.reverse else none
  | _ => none

end Lexer

/-- The tokens of a document. -/
def tokens? (bytes : Bytes) : Option (List Token) := (Lexer.start.feed bytes).bind Lexer.finish

end KernelCache.Json
