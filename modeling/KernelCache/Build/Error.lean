/-
**Failures of builds.**

Main definitions:

* `BuildError` — why a build failed;
* `BuildError.ofCache`, `BuildError.ofDevice` — failures of the cache and of devices as such;
* `BuildError.message` — the text of a failure.
-/

import KernelCache.CacheError
import KernelCache.Device.Error
import KernelCache.Kernel.Translation

set_option relaxedAutoImplicit false
set_option autoImplicit false

namespace KernelCache

/-- Why a build failed. -/
inductive BuildError where
  | configuration (cause : ConfigError)
  | translation (path : Path) (function : String) (cause : TranslateError)
  | compile (path : Path) (function flags diagnostics : String)
  | cache (cause : CacheError)
  | lockTimeout (lock : Path) (waited : Nat)
  | notFound (function : String) (path : Path)
  | device (cause : DeviceError)
  deriving DecidableEq, Repr

namespace BuildError

/-- A failure of the cache. -/
def ofCache : CacheError → BuildError
  | .lockTimeout lock waited => .lockTimeout lock waited
  | e => .cache e

/-- A failure of a device. -/
def ofDevice : DeviceError → BuildError
  | .config e => .configuration e
  | e => .device e

/-- The text of a failure. -/
def message : BuildError → String
  | .configuration cause => "configuration error: " ++ cause.message
  | .translation path function cause =>
    "translating '" ++ function ++ "' from " ++ path.display ++ " failed: " ++ cause.message
  | .compile path function flags diagnostics =>
    "compiling '" ++ function ++ "' from " ++ path.display ++ " with `" ++ flags ++
      "` failed:\n" ++ diagnostics
  | .cache cause => cause.message
  | .lockTimeout lock waited =>
    "timed out after " ++ Duration.text waited ++ " waiting for " ++ lock.display
  | .notFound function path => "kernel '" ++ function ++ "' not found in " ++ path.display
  | .device cause => "device error: " ++ cause.message

end BuildError

end KernelCache
