/-
**Failures of devices.**

Main definitions:

* `DeviceError` — why a device refuses an operation;
* `DeviceError.message` — the text of a failure.
-/

import KernelCache.Path
import KernelCache.Settings.Error
import KernelCache.Text.Decimal

set_option relaxedAutoImplicit false
set_option autoImplicit false

namespace KernelCache

/-- What may belong to another device. -/
inductive Belonging where
  | kernel
  | memory
  | stream
  | streamTag
  deriving DecidableEq, Repr

/-- The name of a belonging. -/
def Belonging.name : Belonging → String
  | .kernel => "kernel"
  | .memory => "memory"
  | .stream => "stream"
  | .streamTag => "stream tag"

/-- Why a device refuses an operation. -/
inductive DeviceError where
  | compile (source : Path) (command diagnostics : String)
  | spawn (command : String) (cause : Failure)
  | load (path : Path) (reason : String)
  | missingSymbol (path : Path) (symbol : String)
  | freed
  | allocation (bytes : Nat)
  | nullHandle
  | foreign (what : Belonging)
  | unknownStream (id : Nat)
  | outOfBounds (offset length size : Nat)
  | argumentCount (function : String) (expected actual : Nat)
  | config (cause : ConfigError)
  deriving DecidableEq, Repr

/-- The text of a failure. -/
def DeviceError.message : DeviceError → String
  | .compile source command diagnostics =>
    "compilation of " ++ source.display ++ " failed (" ++ command ++ "):\n" ++ diagnostics
  | .spawn command cause => "failed to run `" ++ command ++ "`: " ++ cause.message
  | .load path reason =>
    "failed to load " ++ path.display ++ (if reason = "" then "" else ": " ++ reason)
  | .missingSymbol path symbol => path.display ++ " has no symbol '" ++ symbol ++ "'"
  | .freed => "device has been freed"
  | .allocation bytes => "cannot allocate " ++ Decimal.text bytes ++ " bytes"
  | .nullHandle => "cannot wrap a null memory handle"
  | .foreign what => what.name ++ " belongs to another device"
  | .unknownStream id => "unknown stream #" ++ Decimal.text id
  | .outOfBounds offset length size =>
    "copy of " ++ Decimal.text length ++ " bytes at offset " ++ Decimal.text offset ++
      " exceeds allocation of " ++ Decimal.text size ++ " bytes"
  | .argumentCount function expected actual =>
    "kernel '" ++ function ++ "' takes " ++ Decimal.text expected ++ " arguments, got " ++
      Decimal.text actual
  | .config cause => cause.message

end KernelCache
