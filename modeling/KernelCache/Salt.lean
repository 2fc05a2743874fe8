/-
**Salts.**

What identifies a build is written as one byte sequence, its salt: the components in a fixed order
with a bar between each two.  A component that may be absent is left out with its bar when it is
empty.

Main definitions:

* `Salt`, `Salt.component`, `Salt.optional` — building a salt;
* `Salt.ofParts` — the salt of a list of components;
* `Salt.digest` — the cache key.
-/

import KernelCache.Digest

set_option relaxedAutoImplicit false
set_option autoImplicit false

namespace KernelCache

/-- Components joined by bars, and how many there are. -/
structure Salt where
  bytes : Bytes
  parts : Nat
  deriving DecidableEq, Repr

namespace Salt

/-- The bar between components. -/
def separator : UInt8 := 0x7C

/-- The salt with no component. -/
def empty : Salt := ⟨[], 0⟩

/-- Adds a component. -/
def component (s : Salt) (part : Bytes) : Salt where
  bytes := if s.parts = 0 then s.bytes ++ part else s.bytes ++ separator :: part
  parts := s.parts + 1

/-- Adds a component unless it is empty. -/
def optional (s : Salt) (part : Bytes) : Salt :=
  if part.isEmpty then s else s.component part

/-- Whether no component was added. -/
def isEmpty (s : Salt) : Bool := s.parts == 0

/-- The digest of the bytes. -/
def digest (s : Salt) : Digest := Digest.of s.bytes

/-- The salt of a list of components. -/
def ofParts (parts : List Bytes) : Salt := parts.foldl component empty

end Salt

end KernelCache
