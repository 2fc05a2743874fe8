/-
**Decimal numbers.**

Main definitions:

* `Decimal.number?` — the number that decimal digits denote;
* `Decimal.unsigned?` — the number of a text with an optional plus sign, up to a bound;
* `Decimal.text` — the digits of a number.
-/

set_option relaxedAutoImplicit false
set_option autoImplicit false

namespace KernelCache.Decimal

/-- Whether a character is one of the ten digits. -/
def isDigit (c : Char) : Bool := 48 ≤ c.toNat && c.toNat ≤ 57

/-- The number that a list of digits denotes; an empty list denotes none. -/
def number? (cs : List Char) : Option Nat :=
  if cs.isEmpty || !cs.all isDigit then none
  else some (cs.foldl (fun n c => n * 10 + (c.toNat - 48)) 0)

/-- The number of a text of digits with an optional plus sign, if it does not exceed a bound. -/
def unsigned? (bound : Nat) (cs : List Char) : Option Nat :=
  let digits := match cs with
    | '+' :: rest => rest
    | _ => cs
  (number? digits).bind fun n => if n ≤ bound then some n else none

/-- The digits of a number, without leading zeros. -/
def text (n : Nat) : String := String.ofList (Nat.toDigits 10 n)

end KernelCache.Decimal
