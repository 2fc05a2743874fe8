/-
**Numbers and dates of TOML.**

A single underscore may stand between two digits.  Integers have sixty-four bits.  A float must not
be too great for a double; of its value nothing else is kept.

Main definitions:

* `Toml.integer` — integers, decimal or with the prefix of another base;
* `Toml.float`, `Toml.tooGreat` — floats;
* `Toml.dateTime` — dates, times of day and both together.
-/

import KernelCache.Text.Decimal
import KernelCache.Text.Hex
import KernelCache.Toml.Lexical

set_option relaxedAutoImplicit false
set_option autoImplicit false

namespace KernelCache.Toml

open Scan

/-! ### Integers -/

/-- Digits of a class with single underscores between some of them. -/
def digits (isDigit : Char → Bool) : Scan (List Char) := do
  let groups := (← some1 fun c => isDigit c || c == '_').splitOn '_'
  check (if groups.all (!·.isEmpty) then some groups.flatten else none)

/-- Decimal digits without a leading zero. -/
def wholeDigits : Scan (List Char) := do
  let ds ← digits isDigit
  check (if ds.head? = some '0' ∧ 1 < ds.length then none else some ds)

/-- Whether a sign is there and is a minus. -/
def negative : Scan Bool := (do word "-"; return true) <|> (do word "+"; return false) <|> pure false

/-- The least and the greatest integer. -/
def least : Int := -0x8000000000000000

@[inherit_doc least] def greatest : Int := 0x7FFFFFFFFFFFFFFF

/-- An integer, unless it is out of range. -/
def inRange (n : Int) : Scan Int := check (if least ≤ n ∧ n ≤ greatest then some n else none)

/-- A decimal integer. -/
def decimal : Scan Int := do
  let minus ← negative
  let n ← check (Decimal.number? (← wholeDigits))
  inRange (if minus then -n else n)

/-- An integer with the prefix of a base. -/
def based (start : String) (base : Nat) : Scan Int := do
  word start
  let values ← check ((← digits fun c => ((Hex.value? c).any (· < base))).mapM Hex.value?)
  inRange (values.foldl (fun n d => n * base + d) 0 : Nat)

/-- An integer. -/
def integer : Scan Int := based "0x" 16 <|> based "0o" 8 <|> based "0b" 2 <|> decimal

/-! ### Floats -/

/-- The least number that rounds to infinity as a double. -/
def overflow : Nat := Nat.pow 2 1024 - Nat.pow 2 970

/-- Whether `n * 10 ^ e` rounds to infinity as a double.  The number of digits decides before a
great power is computed. -/
def tooGreat (n : Nat) (e : Int) : Bool :=
  let places := ((Nat.toDigits 10 n).length : Int) + e
  if n = 0 || places < 300 then false
  else if 320 < places then true
  else if 0 ≤ e then overflow ≤ n * Nat.pow 10 e.toNat
  else overflow * Nat.pow 10 (-e).toNat ≤ n

/-- The exponent of a float. -/
def exponent : Scan Int := do
  let _ ← one fun c => c == 'e' || c == 'E'
  let minus ← negative
  let n ← check (Decimal.number? (← digits isDigit))
  return if minus then -n else n

/-- The digits after the point of a float. -/
def fraction : Scan (List Char) := do
  word "."
  digits isDigit

/-- A float in digits. -/
def digitFloat : Scan Unit := do
  let minus ← negative
  let whole ← wholeDigits
  let part ← optional fraction
  let power ← optional exponent
  if part.isNone && power.isNone then failure
  let places := part.getD []
  let n ← check (Decimal.number? (whole ++ places))
  if !minus && tooGreat n (power.getD 0 - places.length) then failure

/-- A float. -/
def float : Scan Unit := digitFloat <|> do
  let _ ← negative
  word "inf" <|> word "nan"

/-! ### Dates and times -/

/-- A number of exactly so many digits, between two bounds. -/
def fixed (width low high : Nat) : Scan Nat := do
  let ds ← (List.replicate width (one isDigit)).mapM id
  let n ← check (Decimal.number? ds)
  check (if low ≤ n ∧ n ≤ high then some n else none)

/-- The number of days of a month. -/
def daysOf (year month : Nat) : Nat :=
  if month = 2 then
    if year % 4 = 0 ∧ (year % 100 ≠ 0 ∨ year % 400 = 0) then 29 else 28
  else if month = 4 ∨ month = 6 ∨ month = 9 ∨ month = 11 then 30
  else 31

/-- A date. -/
def date : Scan Unit := do
  let year ← fixed 4 0 9999
  word "-"
  let month ← fixed 2 1 12
  word "-"
  let _ ← fixed 2 1 (daysOf year month)

/-- An hour and a minute. -/
def hourMinute : Scan Unit := do
  let _ ← fixed 2 0 23
  word ":"
  let _ ← fixed 2 0 59

/-- A time of day. -/
def time : Scan Unit := do
  hourMinute
  word ":"
  let _ ← fixed 2 0 60
  let _ ← optional do
    word "."
    some1 isDigit

/-- The distance from universal time. -/
def offset : Scan Unit := word "Z" <|> word "z" <|> do
  let _ ← one fun c => c == '+' || c == '-'
  hourMinute

/-- A date, a time of day, or both. -/
def dateTime : Scan Unit :=
  (do
    date
    let _ ← optional do
      let _ ← one fun c => c == 'T' || c == 't' || c == ' '
      time
      optional offset) <|> time

end KernelCache.Toml
