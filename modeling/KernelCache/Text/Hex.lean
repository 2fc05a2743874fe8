/-
**Hexadecimal numbers of fixed width.**

Numbers are written most significant digit first, in lower case, with leading zeros up to a given
width.  They are read in either case.

Main definitions:

* `Hex.digit`, `Hex.value?` — a digit and its value;
* `Hex.digits` — a number as that many digits;
* `Hex.number?` — the number that a list of digits denotes.
-/

set_option relaxedAutoImplicit false
set_option autoImplicit false

namespace KernelCache.Hex

/-- The lower-case digit of a value below sixteen. -/
def digit (n : Nat) : Char := if n < 10 then Char.ofNat (48 + n) else Char.ofNat (87 + n)

/-- The value of a digit of either case. -/
def value? (c : Char) : Option Nat :=
  let v := c.toNat
  if 48 ≤ v ∧ v ≤ 57 then some (v - 48)
  else if 97 ≤ v ∧ v ≤ 102 then some (v - 87)
  else if 65 ≤ v ∧ v ≤ 70 then some (v - 55)
  else none

/-- The last `width` hexadecimal digits of a number, most significant first. -/
def digits : (width : Nat) → Nat → List Char
  | 0, _ => []
  | width + 1, n => digits width (n / 16) ++ [digit (n % 16)]

/-- The number that digits denote after a number already read. -/
def numberFrom (n : Nat) : List Char → Option Nat
  | [] => some n
  | c :: rest => (value? c).bind fun d => numberFrom (n * 16 + d) rest

/-- The number that a list of digits denotes. -/
def number? (cs : List Char) : Option Nat := numberFrom 0 cs

/-- The two digits of each byte in turn. -/
def ofBytes (bytes : List UInt8) : String :=
  String.ofList (bytes.flatMap fun b => digits 2 b.toNat)

end KernelCache.Hex
