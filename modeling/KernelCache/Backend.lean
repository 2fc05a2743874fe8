/-
**Execution models.**

Main definitions:

* `Backend` — the three ways in which kernels are executed;
* `Backend.tag`, `Backend.word` — their names in cache keys and in settings;
* `Backend.ofName?` — the model that a user names.
-/

set_option relaxedAutoImplicit false
set_option autoImplicit false

namespace KernelCache

/-- How a device executes kernels: one after another in one thread, in many threads, or with
streams and memory of its own. -/
inductive Backend where
  | serial
  | threaded
  | accelerator
  deriving DecidableEq, Repr, Inhabited

namespace Backend

/-- All execution models. -/
def all : List Backend := [.serial, .threaded, .accelerator]

/-- The name in cache keys. -/
def tag : Backend → String
  | .serial => "Serial"
  | .threaded => "Threaded"
  | .accelerator => "Accelerator"

/-- The name in settings and in generated code. -/
def word : Backend → String
  | .serial => "serial"
  | .threaded => "threaded"
  | .accelerator => "accelerator"

/-- The model of a name in settings. -/
def ofWord? (s : String) : Option Backend := all.find? fun b => b.word == s

/-- The lower-case form of the letters A to Z; other characters stay. -/
def lower (c : Char) : Char :=
  if 65 ≤ c.toNat ∧ c.toNat ≤ 90 then Char.ofNat (c.toNat + 32) else c

/-- The model that a user names, in letters of either case. -/
def ofName? (s : String) : Option Backend :=
  let name := String.ofList (s.toList.map lower)
  if name = "openmp" then some .threaded else ofWord? name

end Backend

end KernelCache
