/-
**Toolchains.**

The vendor of a compiler is told by the name of its executable.  It decides how a shared library is
asked for, and the flags for many threads and for definitions.

Main definitions:

* `Vendor`, `Vendor.ofCompiler` — vendors;
* `Vendor.sharedFlags`, `Vendor.threadFlag`, `Vendor.defineFlag` — their flags;
* `joinFlags` — flags with more of them added.
-/

import KernelCache.Backend
import KernelCache.Path
import KernelCache.Text.Blank

set_option relaxedAutoImplicit false
set_option autoImplicit false

namespace KernelCache

/-- A vendor of compilers. -/
inductive Vendor where
  | gnu
  | llvm
  | intel
  | msvc
  | unknown
  deriving DecidableEq, Repr

namespace Vendor

/-- The name of a compiler's executable, in lower case and without the suffix of programs. -/
def executable (compiler : String) : List Char :=
  let name := match (Path.ofString compiler).fileName? with
    | some bytes => (Utf8.display bytes).toList
    | none => compiler.toList
  let name := name.map Backend.lower
  let suffix := ".exe".toList
  if suffix.isSuffixOf name then name.take (name.length - suffix.length) else name

/-- The vendor that an executable's name tells. -/
def ofExecutable (exe : List Char) : Vendor :=
  let starts (s : String) := s.toList.isPrefixOf exe
  let ends (s : String) := s.toList.isSuffixOf exe
  if exe = "cl".toList then .msvc
  else if starts "clang" then .llvm
  else if ["icc", "icpc", "icx", "icpx"].any starts then .intel
  else if starts "gcc" || starts "g++" || ends "-gcc" || ends "-g++" then .gnu
  else if exe = "cc".toList || exe = "c++".toList then .gnu
  else .unknown

/-- The vendor of a compiler. -/
def ofCompiler (compiler : String) : Vendor := ofExecutable (executable compiler)

/-- The flags that ask for a shared library. -/
def sharedFlags : Vendor → List String
  | .msvc => ["/nologo", "/LD"]
  | _ => ["-shared", "-fPIC"]

/-- The flag that asks for many threads. -/
def threadFlag : Vendor → String
  | .intel => "-qopenmp"
  | .msvc => "/openmp"
  | _ => "-fopenmp"

/-- The flag that defines a name. -/
def defineFlag (v : Vendor) (name value : String) : String :=
  (match v with
    | .msvc => "/D"
    | _ => "-D") ++ name ++ "=" ++ value

/-- The arguments that say where the compiler writes to. -/
def outputArguments (v : Vendor) (output : String) : List String :=
  match v with
  | .msvc => ["/Fe:" ++ output]
  | _ => ["-o", output]

end Vendor

/-- Adds a flag after those that are there. -/
def addFlag (flags flag : List Char) : List Char :=
  if flags.isEmpty then flag else flags ++ ' ' :: flag

/-- Flags without the blanks around them, and more flags after them. -/
def joinFlags (flags : String) (extra : List String) : String :=
  String.ofList ((extra.map String.toList).foldl addFlag (Text.trim flags.toList))

end KernelCache
