/-
**Manifests of cache entries.**

A manifest records what the translation of an entry's source has found, so that an entry is used
without translating again.  It is kept as a JSON document.

Main definitions:

* `Manifest` — manifests;
* `Manifest.toBytes`, `Manifest.ofBytes?` — their written form.
-/

import KernelCache.Json.Record
import KernelCache.Kernel.Translation

set_option relaxedAutoImplicit false
set_option autoImplicit false

namespace KernelCache

/-! ### Arguments and kernels -/

namespace Argument

/-- The word for how an argument is passed. -/
def kindWord : ArgumentKind → String
  | .pointer => "pointer"
  | .scalar => "scalar"

/-- How the argument of a word is passed. -/
def kindOfWord? (s : String) : Option ArgumentKind :=
  if s = "pointer" then some .pointer else if s = "scalar" then some .scalar else none

/-- The document of an argument. -/
def toJson (a : Argument) : Json :=
  .object
    [(Json.escape "name", Json.ofString a.name), (Json.escape "ty", Json.ofString a.type),
      (Json.escape "kind", Json.ofString (kindWord a.kind))]

/-- The argument of a document. -/
def ofJson? (v : Json) : Option Argument := do
  match ← v.record? ["name", "ty", "kind"] with
  | [name, type, kind] =>
    return ⟨← name.string?, ← type.string?, ← kind.choice?.bind kindOfWord?⟩
  | _ => none

end Argument

namespace Launch

/-- The document of what a launch has to know. -/
def toJson (l : Launch) : Json :=
  .object
    [(Json.escape "entry", Json.ofString l.entry), (Json.escape "dialect", Json.ofString l.dialect),
      (Json.escape "args", .array (l.arguments.map Argument.toJson))]

/-- What a launch has to know, from a document. -/
def ofJson? (v : Json) : Option Launch := do
  match ← v.record? ["entry", "dialect", "args"] with
  | [entry, dialect, args] =>
    return ⟨← entry.string?, ← dialect.string?, ← (← args.items?).mapM Argument.ofJson?⟩
  | _ => none

end Launch

/-! ### Manifests -/

/-- What the translation of an entry's source has found. -/
structure Manifest where
  version : String
  sourcePath : String
  kernels : SortedMap String Launch
  deriving DecidableEq

namespace Manifest

/-- The document of a manifest. -/
def toJson (m : Manifest) : Json :=
  .object
    [(Json.escape "translator_version", Json.ofString m.version),
      (Json.escape "source_path", Json.ofString m.sourcePath),
      (Json.escape "functions", Json.ofTable Launch.toJson m.kernels)]

/-- The manifest of a document. -/
def ofJson? (v : Json) : Option Manifest := do
  match ← v.record? ["translator_version", "source_path", "functions"] with
  | [version, path, kernels] =>
    return ⟨← version.string?, ← path.string?, ← kernels.table? Launch.ofJson?⟩
  | _ => none

/-- The written form of a manifest. -/
def toBytes (m : Manifest) : Bytes := m.toJson.pretty

/-- The manifest that bytes write. -/
def ofBytes? (bytes : Bytes) : Option Manifest := (Json.parse? bytes).bind ofJson?

end Manifest

end KernelCache
