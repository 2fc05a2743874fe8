/-
**Making directories with their ancestors.**

Main definitions:

* `makeAll` — makes a directory and, where they are missing, those above it;
* `makeDirectories` — the same for the whole lineage of a path.
-/

import KernelCache.Files.Action

set_option relaxedAutoImplicit false
set_option autoImplicit false

namespace KernelCache

/-- Whether a directory stands at a path. -/
def isDirectory (p : Path) : FileProgram Bool := do
  match ← Ask.look p with
  | .ok .directory => return true
  | _ => return false

/-- A directory that could not be made is no failure if it is there all the same: another process
may have made it. -/
def unlessThere (p : Path) (e : Failure) : FileProgram (Except Failure Unit) := do
  if ← isDirectory p then return .ok () else return .error e

/-- Makes the first directory of a lineage, and the others first if it has no parent yet. -/
def makeAll : List Path → FileProgram (Except Failure Unit)
  | [] => return .error .noAncestor
  | p :: up => do
    if p.bytes.isEmpty then return .ok ()
    match ← Ask.makeDirectory p with
    | .ok () => return .ok ()
    | .error .notFound =>
      match ← makeAll up with
      | .error e => return .error e
      | .ok () =>
        match ← Ask.makeDirectory p with
        | .ok () => return .ok ()
        | .error e => unlessThere p e
    | .error e => unlessThere p e

/-- Makes a directory and those above it. -/
def makeDirectories (p : Path) : FileProgram (Except Failure Unit) := makeAll p.lineage

end KernelCache
