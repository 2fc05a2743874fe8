/-
**Failures of the configuration.**

Main definitions:

* `ConfigError` — why settings cannot be read or used;
* `ConfigError.message` — the text of a failure.
-/

import KernelCache.Files.Failure

set_option relaxedAutoImplicit false
set_option autoImplicit false

namespace KernelCache

/-- The settings that become part of cache keys. -/
inductive KeySetting where
  | compiler
  | compilerFlags
  | environmentScript
  | vendorHints
  deriving DecidableEq, Repr

/-- The name of a setting. -/
def KeySetting.name : KeySetting → String
  | .compiler => "compiler"
  | .compilerFlags => "compiler_flags"
  | .environmentScript => "compiler_env_script"
  | .vendorHints => "vendor_hints"

/-- Why settings cannot be read or used. -/
inductive ConfigError where
  | unreadable (cause : Failure)
  | malformed
  | unknownBackend (name : String)
  | noCompiler
  | noCacheRoot
  | emptyCacheRoot
  | noThreads
  | separatorIn (setting : KeySetting)
  deriving DecidableEq, Repr

/-- The text of a failure. -/
def ConfigError.message : ConfigError → String
  | .unreadable cause => "failed to read configuration: " ++ cause.message
  | .malformed => "failed to parse configuration: not a valid configuration"
  | .unknownBackend name => "unknown backend '" ++ name ++ "'"
  | .noCompiler => "unable to resolve compiler"
  | .noCacheRoot => "unable to resolve cache root"
  | .emptyCacheRoot => "validation error: cache.root must not be empty"
  | .noThreads => "validation error: device.threads must be at least 1"
  | .separatorIn setting =>
    "validation error: device." ++ setting.name ++ " must not contain '|'"

end KernelCache
