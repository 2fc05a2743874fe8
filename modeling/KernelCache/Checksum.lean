/-
**Checksums of stored binaries.**

The checksum of a byte sequence is its XXH3 hash of 128 bits, kept as sixteen bytes with the least
significant first and written as their hexadecimal digits in that order.

Main definitions:

* `Checksum`, `Checksum.of` — checksums;
* `Checksum.toText`, `Checksum.brief` — the full and the abbreviated written form;
* `Checksum.toJson`, `Checksum.ofJson?` — the form as a list of numbers.
-/

import KernelCache.Checksum.Xxh3
import KernelCache.Digest.Image
import KernelCache.Json.Record
import KernelCache.Text.Hex

set_option relaxedAutoImplicit false
set_option autoImplicit false

namespace KernelCache

/-- A checksum of sixteen bytes. -/
structure Checksum where
  bytes : Bytes
  deriving DecidableEq, Repr

namespace Checksum

/-- The checksum of a byte sequence. -/
def of (data : Bytes) : Checksum :=
  let h := Xxh3.hash data.toArray
  ⟨littleEndian 8 h.low.toNat ++ littleEndian 8 h.high.toNat⟩

/-- The thirty-two hexadecimal digits of a checksum. -/
def toText (c : Checksum) : String := Hex.ofBytes c.bytes

/-- The first two bytes, for diagnostics. -/
def brief (c : Checksum) : String := "Checksum(" ++ Hex.ofBytes (c.bytes.take 2) ++ "..)"

/-- The list of the sixteen bytes. -/
def toJson (c : Checksum) : Json :=
  .array (c.bytes.map fun b => .number (Utf8.encode (Decimal.text b.toNat)))

/-- The checksum of a list of sixteen bytes. -/
def ofJson? (v : Json) : Option Checksum := do
  let bytes ← (← v.items?).mapM Json.byte?
  if bytes.length = 16 then return ⟨bytes⟩ else none

end Checksum

end KernelCache
