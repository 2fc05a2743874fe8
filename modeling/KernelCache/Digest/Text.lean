/-
**The written form of digests.**

A digest is written as its eight words of eight hexadecimal digits each.  Reading also accepts upper
case, and a plus sign in place of the first digit of a word.

Main definitions:

* `Digest.toText`, `Digest.brief` — the full and the abbreviated written form;
* `Digest.parse?` — reading;
* `Digest.Malformed` — the failure of reading.
-/

import KernelCache.Digest
import KernelCache.Text.Hex

set_option relaxedAutoImplicit false
set_option autoImplicit false

namespace KernelCache

namespace Digest

/-- The eight words, eight digits each. -/
def toText (d : Digest) : String :=
  String.ofList (d.words.flatMap fun w => Hex.digits 8 w.toNat)

/-- The hashes of the first two lanes, for diagnostics. -/
def brief (d : Digest) : String :=
  "Digest(" ++ String.ofList ([d.first.hash, d.second.hash].flatMap fun w => Hex.digits 8 w.toNat)
    ++ "..)"

/-- The word that eight characters denote: eight digits, or a plus sign and seven. -/
def readWord? : List Char → Option UInt32
  | '+' :: cs => (Hex.number? cs).map UInt32.ofNat
  | cs => (Hex.number? cs).map UInt32.ofNat

/-- The words that a text denotes, in groups of eight characters. -/
def readWords? : List Char → Option (List UInt32)
  | [] => some []
  | a :: b :: c :: d :: e :: f :: g :: h :: rest => do
    let w ← readWord? [a, b, c, d, e, f, g, h]
    let ws ← readWords? rest
    return w :: ws
  | _ => none

/-- The digest that a text of sixty-four characters denotes. -/
def parse? (s : String) : Option Digest := (readWords? s.toList).bind ofWords?

/-- A text that denotes no digest. -/
structure Malformed where
  text : String
  deriving DecidableEq, Repr

/-- The description of a text that denotes no digest. -/
def Malformed.message (e : Malformed) : String :=
  "invalid digest '" ++ e.text ++ "': expected 64 hex characters"

/-- The digest that a text denotes, or the failure. -/
def parse (s : String) : Except Malformed Digest :=
  match parse? s with
  | some d => .ok d
  | none => .error ⟨s⟩

end Digest

end KernelCache
