/-
**Flags of a build.**

The flags of a build are preprocessor definitions and text that goes before the source.  Written out
they are both the beginning of the compiled source and a component of the cache key.

Main definitions:

* `Flags`, `Flags.define`, `Flags.addHeader` — the flags and how they are collected;
* `Flags.prelude` — the flags written out;
* `Flags.salt` — what they contribute to a cache key.
-/

import KernelCache.SortedMap

set_option relaxedAutoImplicit false
set_option autoImplicit false

namespace KernelCache

/-- Preprocessor definitions, and text that goes before the source. -/
structure Flags where
  defines : SortedMap String String
  header : String
  deriving DecidableEq

namespace Flags

/-- No flags. -/
def none : Flags := ⟨.empty, ""⟩

/-- Defines a name, in place of an earlier definition. -/
def define (f : Flags) (name value : String) : Flags :=
  { f with defines := f.defines.insert name value }

/-- The text with a line break at its end. -/
def withLineBreak (s : List Char) : List Char := if s.getLast? = some '\n' then s else s ++ ['\n']

/-- Adds text to the header. -/
def addHeader (f : Flags) (text : String) : Flags :=
  { f with header := f.header ++ String.ofList (withLineBreak text.toList) }

/-- The line of a definition. -/
def defineLine (name value : String) : String :=
  "#define " ++ name ++ (if value = "" then "" else " " ++ value) ++ "\n"

/-- The lines of the definitions, sorted by name, and then the header. -/
def prelude (f : Flags) : String :=
  String.join (f.defines.entries.map fun e => defineLine e.1 e.2) ++ f.header

/-- The component of a cache key; empty when there are no flags. -/
def salt (f : Flags) : String := f.prelude

/-- Whether nothing was defined and no text added. -/
def isEmpty (f : Flags) : Bool := f.defines.entries.isEmpty && f.header.isEmpty

end Flags

end KernelCache
