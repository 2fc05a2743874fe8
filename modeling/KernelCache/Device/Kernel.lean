/-
**Loaded kernels.**

Main definitions:

* `Kernel`, `Kernel.ofLaunch` — a kernel that a device has loaded;
* `Kernel.checkSlots` — the condition for launching it.
-/

import KernelCache.Device.Error
import KernelCache.Kernel.Launch

set_option relaxedAutoImplicit false
set_option autoImplicit false

namespace KernelCache

/-- What loading a binary gives: the symbol to call and its arguments. -/
structure Loaded where
  entry : String
  arguments : List Argument
  deriving DecidableEq, Repr

/-- What loading gives for a kernel of which a launch knows enough. -/
def Loaded.ofLaunch (l : Launch) : Loaded := ⟨l.entry, l.arguments⟩

/-- A kernel that a device has loaded from a binary. -/
structure Kernel where
  device : Nat
  function : String
  binary : Path
  loaded : Loaded
  deriving DecidableEq, Repr

/-- A launch needs one slot for each argument. -/
def Kernel.checkSlots (k : Kernel) (slots : Nat) : Except DeviceError Unit :=
  if slots = k.loaded.arguments.length then .ok ()
  else .error (.argumentCount k.function k.loaded.arguments.length slots)

end KernelCache
