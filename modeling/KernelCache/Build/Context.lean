/-
**Contexts of builds.**

Main definitions:

* `BuildContext`, `BuildContext.ofSettings` — what a build needs from the settings and the
  environment.
-/

import KernelCache.Build.Error
import KernelCache.Settings.Resolve

set_option relaxedAutoImplicit false
set_option autoImplicit false

namespace KernelCache

/-- The root of the cache, and the settings with which devices are opened. -/
structure BuildContext where
  cacheRoot : Path
  device : DeviceSpec
  deriving DecidableEq, Repr

/-- Resolves settings against the environment. -/
def BuildContext.ofSettings (s : Settings) (env : Environment) :
    Except BuildError BuildContext := do
  let root ← (Settings.resolveRoot s.cacheRoot env).mapError BuildError.configuration
  let device ← (s.device.resolve env).mapError BuildError.configuration
  return ⟨root, device⟩

end KernelCache
