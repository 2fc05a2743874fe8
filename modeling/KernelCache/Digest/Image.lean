/-
**Byte images of values.**

A value is hashed through its byte image: a number is the bytes of its two's complement, least
significant first, a truth value is one byte, a text is its UTF-8 form, and a sequence is the images
of its elements one after another.

Main definitions:

* `littleEndian` — a number as bytes, least significant first;
* `ByteImage` — types with a byte image;
* `Digest.ofValue` — the salted digest of a value.
-/

import KernelCache.Digest

set_option relaxedAutoImplicit false
set_option autoImplicit false

namespace KernelCache

/-- The low `width` bytes of a number, least significant first. -/
def littleEndian : (width : Nat) → Nat → Bytes
  | 0, _ => []
  | width + 1, n => UInt8.ofNat (n % 256) :: littleEndian width (n / 256)

/-- Types whose values have a byte image. -/
class ByteImage (α : Type) where
  image : α → Bytes

instance {w : Nat} : ByteImage (BitVec w) := ⟨fun n => littleEndian (w / 8) n.toNat⟩

instance : ByteImage Bool := ⟨fun b => [if b then 1 else 0]⟩

instance : ByteImage String := ⟨Utf8.encode⟩

instance {α : Type} [ByteImage α] : ByteImage (List α) := ⟨fun xs => xs.flatMap ByteImage.image⟩

/-- The digest of a value's image followed by a salt. -/
def Digest.ofValue {α : Type} [ByteImage α] (v : α) (salt : Bytes) : Digest :=
  Digest.salted (ByteImage.image v) salt

end KernelCache
