/-
**Digests of byte sequences.**

A digest is four polynomial hashes over the field of order `2 ^ 31 - 1`, each kept together with the
power of its base that belongs to the length of the input.  The power is what makes digests compose:
from the digests of two byte sequences one gets the digest of the sequences joined.

Main definitions:

* `Lane`, `Lane.of`, `Lane.merge` — one polynomial hash with its power;
* `Digest`, `Digest.of`, `Digest.merge`, `Digest.empty` — four of them;
* `Digest.words` — the eight words, which also give digests their order;
* `Digest.salted` — the digest of data followed by a salt.
-/

import KernelCache.Text.Utf8

set_option relaxedAutoImplicit false
set_option autoImplicit false

namespace KernelCache

/-- A polynomial hash and the power of the base for the length of what was hashed. -/
structure Lane where
  hash : UInt32
  power : UInt32
  deriving DecidableEq, Repr

namespace Lane

/-- The Mersenne prime `2 ^ 31 - 1`. -/
def modulus : UInt64 := 0x7fffffff

/-- The base of a polynomial hash and the factor that spreads a byte over the field. -/
structure Key where
  base : UInt64
  mixer : UInt64

/-- The hash after one more byte. -/
def absorb (k : Key) (h : UInt64) (b : UInt8) : UInt64 :=
  (h * k.base + (b.toUInt64 + 1) * k.mixer % modulus) % modulus

/-- `acc * base ^ e` in the field, by repeated squaring. -/
def powerLoop (acc base : UInt64) (e : Nat) : UInt64 :=
  if e = 0 then acc
  else
    powerLoop (if e % 2 = 1 then acc * base % modulus else acc) (base * base % modulus) (e / 2)
termination_by e
decreasing_by omega

/-- `base ^ e` in the field. -/
def raise (base : UInt64) (e : Nat) : UInt64 := powerLoop 1 (base % modulus) e

/-- The lane of a byte sequence. -/
def of (k : Key) (bytes : Bytes) : Lane where
  hash := (bytes.foldl (absorb k) 0).toUInt32
  power := (raise k.base bytes.length).toUInt32

/-- The lane of two sequences joined, from the lanes of the two. -/
def merge (a b : Lane) : Lane where
  hash := ((a.hash.toUInt64 * b.power.toUInt64 + b.hash.toUInt64) % modulus).toUInt32
  power := (a.power.toUInt64 * b.power.toUInt64 % modulus).toUInt32

/-- The lane of the empty sequence. -/
def empty : Lane := ⟨0, 1⟩

end Lane

/-- The digest of a byte sequence: four lanes with different keys. -/
structure Digest where
  first : Lane
  second : Lane
  third : Lane
  fourth : Lane
  deriving DecidableEq, Repr

namespace Digest

/-- The keys of the four lanes. -/
def firstKey : Lane.Key := ⟨0x1b873593, 0x1e35a7bd⟩

@[inherit_doc firstKey] def secondKey : Lane.Key := ⟨0x2c1b3c6d, 0x2545f491⟩

@[inherit_doc firstKey] def thirdKey : Lane.Key := ⟨0x3a4f1d29, 0x3c6ef372⟩

@[inherit_doc firstKey] def fourthKey : Lane.Key := ⟨0x0b4c7e5f, 0x14d3b0a9⟩

/-- The digest of a byte sequence. -/
def of (bytes : Bytes) : Digest where
  first := Lane.of firstKey bytes
  second := Lane.of secondKey bytes
  third := Lane.of thirdKey bytes
  fourth := Lane.of fourthKey bytes

/-- The digest of two sequences joined, from the digests of the two. -/
def merge (a b : Digest) : Digest where
  first := a.first.merge b.first
  second := a.second.merge b.second
  third := a.third.merge b.third
  fourth := a.fourth.merge b.fourth

/-- The digest of the empty sequence. -/
def empty : Digest := ⟨Lane.empty, Lane.empty, Lane.empty, Lane.empty⟩

/-- The digest of a string's bytes. -/
def ofString (s : String) : Digest := of (Utf8.encode s)

/-- The digest of data followed by a salt. -/
def salted (data salt : Bytes) : Digest := (of data).merge (of salt)

/-! ### Words -/

/-- The eight words, lane by lane. -/
def words (d : Digest) : List UInt32 :=
  [d.first, d.second, d.third, d.fourth].flatMap fun l => [l.hash, l.power]

/-- The digest with the given eight words. -/
def ofWords? : List UInt32 → Option Digest
  | [a, b, c, d, e, f, g, h] => some ⟨⟨a, b⟩, ⟨c, d⟩, ⟨e, f⟩, ⟨g, h⟩⟩
  | _ => none

/-- Digests are ordered by their words, from the left. -/
instance : LT Digest := ⟨fun a b => a.words < b.words⟩

instance (a b : Digest) : Decidable (a < b) := inferInstanceAs (Decidable (a.words < b.words))

@[simp] theorem ofWords?_words (d : Digest) : ofWords? d.words = some d := rfl

end Digest

end KernelCache
