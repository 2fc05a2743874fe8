/-
**Spans of time.**

A span of time, and a reading of a clock that never goes back, is a number of nanoseconds.

Main definitions:

* `Duration.microsecond`, `Duration.millisecond`, `Duration.second` — the greater units;
* `Duration.text` — a span in the greatest unit that it fills, with the digits that are left over.
-/

import KernelCache.Text.Decimal

set_option relaxedAutoImplicit false
set_option autoImplicit false

namespace KernelCache.Duration

/-- A microsecond, in nanoseconds. -/
def microsecond : Nat := 1000

/-- A millisecond, in nanoseconds. -/
def millisecond : Nat := 1000 * microsecond

/-- A second, in nanoseconds. -/
def second : Nat := 1000 * millisecond

/-- The digits of a part of a unit: none where there is nothing, else a point and as many places as
the unit has, without the zeros at the end. -/
def fraction (places part : Nat) : String :=
  if part = 0 then ""
  else
    let digits := List.leftpad places '0' (Nat.toDigits 10 part)
    "." ++ String.ofList (digits.reverse.dropWhile (· = '0')).reverse

/-- A span in a unit with so many decimal places. -/
def inUnits (unit places : Nat) (name : String) (t : Nat) : String :=
  Decimal.text (t / unit) ++ fraction places (t % unit) ++ name

/-- The text of a span. -/
def text (t : Nat) : String :=
  if second ≤ t then inUnits second 9 "s" t
  else if millisecond ≤ t then inUnits millisecond 6 "ms" t
  else if microsecond ≤ t then inUnits microsecond 3 "µs" t
  else inUnits 1 0 "ns" t

end KernelCache.Duration
