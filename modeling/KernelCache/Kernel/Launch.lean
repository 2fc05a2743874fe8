/-
**Launching kernels.**

A kernel is launched through a wrapper of one shape for all kernels: it takes one slot for each
argument, hands pointers over as they are, and reads scalars through their slots.

Main definitions:

* `Launch` — what a launch has to know of a kernel;
* `Declaration.launch` — the same, from the declaration;
* `Declaration.wrapper` — the text of the wrapper.
-/

import KernelCache.Kernel.Declaration
import KernelCache.Text.Decimal

set_option relaxedAutoImplicit false
set_option autoImplicit false

namespace KernelCache

/-- What a launch has to know of a kernel: the symbol to call, the dialect in which it is written,
and the arguments. -/
structure Launch where
  entry : String
  dialect : String
  arguments : List Argument
  deriving DecidableEq, Repr

/-- The symbol of the wrapper of a kernel. -/
def Launch.symbol (name : String) : String := "__kiln_launch_" ++ name

/-- How a wrapper hands the argument of a slot over. -/
def Argument.fromSlot (a : Argument) (slot : Nat) : String :=
  let args := "args[" ++ Decimal.text slot ++ "]"
  match a.kind with
  | .pointer => "(" ++ a.type ++ ") " ++ args
  | .scalar => "*(" ++ a.type ++ " *) " ++ args

namespace Declaration

/-- What a launch has to know of a declared kernel. -/
def launch (d : Declaration) (dialect : String) : Launch where
  entry := Launch.symbol d.name
  dialect := dialect
  arguments := d.arguments

/-- What a wrapper hands to its kernel. -/
def slots (d : Declaration) : List String := d.arguments.mapIdx fun slot a => a.fromSlot slot

/-- The text of the wrapper. -/
def wrapper (d : Declaration) : String :=
  "KILN_KERNEL void " ++ Launch.symbol d.name ++ "(void **args) \x7b\n" ++
    (if d.arguments.isEmpty then "  (void) args;\n" else "") ++
    "  " ++ d.name ++ "(" ++ ", ".intercalate d.slots ++ ");\n" ++
    "\x7d\n"

end Declaration

end KernelCache
