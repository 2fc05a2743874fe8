/-
**Memory of devices.**

All storage is made of blocks, which are known by numbers.  A device owns the blocks that it has
allocated, and wraps blocks that belong to its caller.  A memory is a handle of a block with a fixed
size; owned blocks are rounded up to words of eight bytes.  How much room a host has for one more
block is part of its storage.  Sizes and offsets are numbers of sixty-four bits, and so is the end
of a range that is copied, if there is one.

Main definitions:

* `Storage` — the blocks;
* `Memory` — handles, with `contents`, `copyFrom` and `copyTo`.
-/

import KernelCache.Device.Error
import KernelCache.SortedMap

set_option relaxedAutoImplicit false
set_option autoImplicit false

namespace KernelCache

/-- Blocks of bytes by their numbers, the next number, and the number of bytes from which on the
host has none to give. -/
structure Storage where
  blocks : SortedMap Nat Bytes
  next : Nat
  room : Nat
  deriving DecidableEq

namespace Storage

/-- The number of bytes from which on a request cannot be met at the start. -/
def capacity : Nat := 0x1000000000

/-- No blocks. -/
def empty : Storage := ⟨.empty, 0, capacity⟩

/-- The bytes of a block. -/
def block (s : Storage) (n : Nat) : Bytes := (s.blocks.get? n).getD []

/-- A new block with given bytes. -/
def add (s : Storage) (bytes : Bytes) : Nat × Storage :=
  (s.next, { s with blocks := s.blocks.insert s.next bytes, next := s.next + 1 })

/-- Writes bytes into a block from an offset on. -/
def write (s : Storage) (n offset : Nat) (bytes : Bytes) : Storage :=
  let old := s.block n
  let new := old.take offset ++ bytes ++ old.drop (offset + bytes.length)
  { s with blocks := s.blocks.insert n new }

/-- Gives a block up. -/
def release (s : Storage) (n : Nat) : Storage := { s with blocks := s.blocks.erase n }

end Storage

/-- Sizes are numbers of sixty-four bits. -/
def Device.sizeBound : Nat := 0x10000000000000000

/-- A handle of a block. -/
structure Memory where
  device : Nat
  size : Nat
  block : Nat
  isWrapper : Bool
  isMapped : Bool
  deriving DecidableEq, Repr

namespace Memory

/-- The number of bytes in the words that hold `size` bytes. -/
def wordBytes (size : Nat) : Nat := 8 * ((size + 7) / 8)

/-- A new block of zeros for `size` bytes, with a handle that owns it. -/
def owned (device size : Nat) (isMapped : Bool) (s : Storage) :
    Except DeviceError (Memory × Storage) :=
  if s.room ≤ wordBytes size then .error (.allocation size)
  else
    let (n, s) := s.add (List.replicate (wordBytes size) 0)
    .ok (⟨device, size, n, false, isMapped⟩, s)

/-- The bytes of a memory. -/
def contents (m : Memory) (s : Storage) : Bytes := (s.block m.block).take m.size

/-- The end of a range, if it is a number of sixty-four bits. -/
def rangeEnd? (offset length : Nat) : Option Nat :=
  if offset + length < Device.sizeBound then some (offset + length) else none

/-- Refuses ranges that have no end, or do not end within the memory. -/
def checkRange (m : Memory) (offset length : Nat) : Except DeviceError Unit :=
  match rangeEnd? offset length with
  | some last =>
    if last ≤ m.size then .ok () else .error (.outOfBounds offset length m.size)
  | none => .error (.outOfBounds offset length m.size)

/-- Copies bytes into the memory. -/
def copyFrom (m : Memory) (s : Storage) (bytes : Bytes) (offset : Nat) :
    Except DeviceError Storage := do
  m.checkRange offset bytes.length
  return s.write m.block offset bytes

/-- Copies bytes out of the memory. -/
def copyTo (m : Memory) (s : Storage) (length offset : Nat) : Except DeviceError Bytes := do
  m.checkRange offset length
  return ((s.block m.block).drop offset).take length

/-- Gives a handle up, and with it the block if it owns one. -/
def drop (m : Memory) (s : Storage) : Storage := if m.isWrapper then s else s.release m.block

end Memory

end KernelCache
