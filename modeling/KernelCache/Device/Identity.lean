/-
**Identities of devices.**

What distinguishes the binaries of one device from those of another: its execution model and the
toolchain with all its settings.  Every part of an identity is part of the cache key.

Main definitions:

* `Identity`, `Identity.ofSpec` — identities;
* `Identity.describe` — an identity for a reader;
* `CompileCommand` — how a compiler is run.
-/

import KernelCache.Device.Toolchain
import KernelCache.Settings.Resolve
import KernelCache.Text.Decimal

set_option relaxedAutoImplicit false
set_option autoImplicit false

namespace KernelCache

/-- What distinguishes the binaries of a device. -/
structure Identity where
  backend : Backend
  compiler : String
  compilerFlags : String
  environmentScript : String
  vendorHint : String
  deriving DecidableEq, Repr

namespace Identity

/-- The name that tells a kernel's source the number of threads. -/
def threadMacro : String := "KILN_THREADS"

/-- The flags with which a device compiles: a threaded one asks for many threads, and gives their
number where one is set. -/
def effectiveFlags (spec : DeviceSpec) : String :=
  match spec.backend with
  | .serial | .accelerator => spec.compilerFlags
  | .threaded =>
    let vendor := Vendor.ofCompiler spec.compiler
    joinFlags spec.compilerFlags (vendor.threadFlag ::
      (spec.threads.map fun n => vendor.defineFlag threadMacro (Decimal.text n)).toList)

/-- The identity of a device with given settings. -/
def ofSpec (spec : DeviceSpec) : Identity where
  backend := spec.backend
  compiler := spec.compiler
  compilerFlags := effectiveFlags spec
  environmentScript := spec.environmentScript
  vendorHint := spec.vendorHint

/-- The identity for a reader. -/
def describe (i : Identity) : String :=
  i.backend.tag ++ " [" ++ i.compiler ++ " " ++ i.compilerFlags ++ "]" ++
    (if i.vendorHint = "" then "" else " vendor=" ++ i.vendorHint)

end Identity

/-- How a compiler is run: its arguments, and a script that prepares its environment. -/
structure CompileCommand where
  compiler : String
  arguments : List String
  script : String
  deriving DecidableEq, Repr

namespace CompileCommand

/-- The command that compiles a source to a shared library. -/
def make (i : Identity) (source output : Path) : CompileCommand :=
  let vendor := Vendor.ofCompiler i.compiler
  { compiler := i.compiler
    arguments := (Text.words i.compilerFlags.toList).map String.ofList ++ vendor.sharedFlags ++
      source.display :: vendor.outputArguments output.display
    script := i.environmentScript }

/-- The command as one line. -/
def line (c : CompileCommand) : String := c.compiler ++ " " ++ " ".intercalate c.arguments

/-- Whether there is a script. -/
def hasScript (c : CompileCommand) : Bool := !Text.isBlankText c.script

/-- The text that a shell runs when there is a script. -/
def shellText (c : CompileCommand) : String := c.script ++ " && " ++ c.line

end CompileCommand

end KernelCache
