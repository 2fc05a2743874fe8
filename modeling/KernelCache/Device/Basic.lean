/-
**Devices.**

A device allocates memory, keeps streams, and compiles and loads kernels with its toolchain.  Once
freed it refuses everything.

Main definitions:

* `Device`, `Device.open` — devices;
* `Device.allocate`, `Device.wrap`, `Device.freeMemory` — memory;
* `Device.createStream`, `freeStream`, `currentStream`, `setStream`, `tagStream`, `waitFor`,
  `timeBetween` — streams;
* `Device.freeKernel`, `Device.flush`, `Device.finish`, `Device.free` — the rest.
-/

import KernelCache.Device.Identity
import KernelCache.Device.Kernel
import KernelCache.Device.Memory
import KernelCache.Device.Stream

set_option relaxedAutoImplicit false
set_option autoImplicit false

namespace KernelCache

/-- A device, with the number by which it is known and the bytes that it has allocated. -/
structure Device where
  id : Nat
  identity : Identity
  isOpen : Bool
  allocated : Nat
  streams : StreamTable
  deriving DecidableEq, Repr

namespace Device

/-- A new device with given settings. -/
def «open» (id : Nat) (spec : DeviceSpec) : Device where
  id := id
  identity := Identity.ofSpec spec
  isOpen := true
  allocated := 0
  streams := StreamTable.start id (spec.backend = .accelerator)

/-- The first component of a cache key, which names the execution model. -/
def salt (d : Device) : String := d.identity.backend.tag

/-- Refuses everything once the device is freed. -/
def ensureOpen (d : Device) : Except DeviceError Unit :=
  if d.isOpen then .ok () else .error .freed

/-! ### Memory -/

/-- Allocates memory, and copies bytes to its start if some are given. -/
def allocate (d : Device) (s : Storage) (size : Nat) (source : Option Bytes) (isMapped : Bool) :
    Except DeviceError (Memory × Device × Storage) := do
  d.ensureOpen
  if sizeBound ≤ d.allocated + size then throw (.allocation size)
  let (m, s) ← Memory.owned d.id size isMapped s
  let s ← match source with
    | some bytes => m.copyFrom s bytes 0
    | none => pure s
  return (m, { d with allocated := d.allocated + size }, s)

/-- A memory for a block that belongs to the caller. -/
def wrap (d : Device) (block : Option Nat) (size : Nat) : Except DeviceError Memory := do
  d.ensureOpen
  match block with
  | some n => return ⟨d.id, size, n, true, false⟩
  | none => throw .nullHandle

/-- The account of a device after giving a memory back. -/
def account (d : Device) (m : Memory) : Except DeviceError Device := do
  d.ensureOpen
  if m.device ≠ d.id then throw (.foreign .memory)
  return if m.isWrapper then d else { d with allocated := d.allocated - m.size }

/-- Gives a memory back.  Its handle is given up even when the device refuses it. -/
def freeMemory (d : Device) (s : Storage) (m : Memory) : Except DeviceError Device × Storage :=
  (d.account m, m.drop s)

/-! ### Streams -/

/-- Creates a stream. -/
def createStream (d : Device) : Except DeviceError (Stream × Device) := do
  d.ensureOpen
  let (stream, streams) := d.streams.create
  return (stream, { d with streams := streams })

/-- Frees a stream. -/
def freeStream (d : Device) (stream : Stream) : Except DeviceError Device := do
  d.ensureOpen
  return { d with streams := ← d.streams.free stream }

/-- The stream on which work is queued. -/
def currentStream (d : Device) : Except DeviceError Stream := do
  d.ensureOpen
  return d.streams.handle d.streams.current

/-- Makes a stream current. -/
def setStream (d : Device) (stream : Stream) : Except DeviceError Device := do
  d.ensureOpen
  return { d with streams := ← d.streams.setCurrent stream }

/-- A tag for the current stream at a time. -/
def tagStream (d : Device) (time : Nat) : Except DeviceError StreamTag := do
  d.ensureOpen
  return d.streams.tag time

/-- Waits for the work before a tag, which is always done already. -/
def waitFor (d : Device) (tag : StreamTag) : Except DeviceError Unit := do
  d.ensureOpen
  d.streams.checkTag tag

/-- The time between two tags. -/
def timeBetween (d : Device) (first second : StreamTag) : Except DeviceError Nat := do
  d.ensureOpen
  d.streams.timeBetween first second

/-! ### The rest -/

/-- Gives a kernel back. -/
def freeKernel (d : Device) (k : Kernel) : Except DeviceError Unit := do
  d.ensureOpen
  if k.device ≠ d.id then throw (.foreign .kernel)

/-- Hands queued work over; there never is any. -/
def flush (d : Device) : Except DeviceError Unit := d.ensureOpen

/-- Waits for queued work; there never is any. -/
def finish (d : Device) : Except DeviceError Unit := d.ensureOpen

/-- Frees the device. -/
def free (d : Device) : Device := { d with isOpen := false }

end Device

end KernelCache
