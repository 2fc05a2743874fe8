/-
**Streams.**

Work is queued on the current stream of a device.  The default stream is always there.  A device
with several streams gives each new one a number that it has not used before; one with a single
stream hands that out again.

Main definitions:

* `Stream`, `StreamTag` — handles of streams, and points in the work of a stream;
* `StreamTable` — the streams of a device, with `create`, `free`, `setCurrent` and `tag`.
-/

import KernelCache.Device.Error

set_option relaxedAutoImplicit false
set_option autoImplicit false

namespace KernelCache

/-- A handle of a stream of a device. -/
structure Stream where
  device : Nat
  id : Nat
  deriving DecidableEq, Repr

/-- A point in the work of a stream, with the time when it was reached. -/
structure StreamTag where
  device : Nat
  stream : Nat
  time : Nat
  deriving DecidableEq, Repr

/-- The streams of a device. -/
structure StreamTable where
  device : Nat
  several : Bool
  next : Nat
  current : Nat
  ids : List Nat
  deriving DecidableEq, Repr

namespace StreamTable

/-- The number of the default stream. -/
def defaultId : Nat := 0

/-- The table of a new device. -/
def start (device : Nat) (several : Bool) : StreamTable :=
  ⟨device, several, 1, defaultId, [defaultId]⟩

/-- The handle of a stream. -/
def handle (t : StreamTable) (id : Nat) : Stream := ⟨t.device, id⟩

/-- Refuses handles that are not of one of the streams. -/
def check (t : StreamTable) (s : Stream) : Except DeviceError Unit :=
  if s.device ≠ t.device then .error (.foreign .stream)
  else if s.id ∈ t.ids then .ok ()
  else .error (.unknownStream s.id)

/-- A new stream, or the only one. -/
def create (t : StreamTable) : Stream × StreamTable :=
  if t.several then (t.handle t.next, { t with next := t.next + 1, ids := t.ids ++ [t.next] })
  else (t.handle defaultId, t)

/-- Frees a stream, unless it is the default one.  When the current stream is freed, the default one
becomes current. -/
def free (t : StreamTable) (s : Stream) : Except DeviceError StreamTable := do
  t.check s
  if s.id = defaultId then return t
  else
    return { t with
      ids := t.ids.filter (· ≠ s.id)
      current := if t.current = s.id then defaultId else t.current }

/-- Makes a stream current. -/
def setCurrent (t : StreamTable) (s : Stream) : Except DeviceError StreamTable := do
  t.check s
  return { t with current := s.id }

/-- A tag for the current stream at a time. -/
def tag (t : StreamTable) (time : Nat) : StreamTag := ⟨t.device, t.current, time⟩

/-- Refuses tags of other devices. -/
def checkTag (t : StreamTable) (tag : StreamTag) : Except DeviceError Unit :=
  if tag.device = t.device then .ok () else .error (.foreign .streamTag)

/-- The time between two tags, zero if the second was reached first. -/
def timeBetween (t : StreamTable) (first second : StreamTag) : Except DeviceError Nat := do
  t.checkTag first
  t.checkTag second
  return second.time - first.time

end StreamTable

end KernelCache
