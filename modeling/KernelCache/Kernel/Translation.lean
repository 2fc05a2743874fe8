/-
**Translation of kernel sources.**

The translated source starts with definitions for the execution model and those of the build's
flags.  The source follows with a macro in place of each marker, and then the wrapper of each
kernel.

Main definitions:

* `TranslationRequest`, `Translation` — what is translated, and the result;
* `TranslateError` — why there is none;
* `translate` — the translation.
-/

import KernelCache.Backend
import KernelCache.Flags
import KernelCache.Kernel.Launch
import KernelCache.Path

set_option relaxedAutoImplicit false
set_option autoImplicit false

namespace KernelCache

/-- A source to translate, where it comes from, and the kernel that it must have. -/
structure TranslationRequest where
  source : String
  path : Path
  backend : Backend
  language : Language
  function : String
  flags : Flags

/-- A translated source and its kernels by name. -/
structure Translation where
  source : String
  kernels : SortedMap String Launch
  deriving DecidableEq

/-- Why a source is not translated. -/
inductive TranslateError where
  | missingFunction (path : Path) (function : String)
  | malformed (path : Path) (line : Nat) (reason : Declaration.Reason)
  | unsupportedLanguage (path : Path) (language : Language)
  | insideCharacter (path : Path)
  deriving DecidableEq, Repr

/-- The text of a failure. -/
def TranslateError.message : TranslateError → String
  | .missingFunction path function =>
    "could not find kernel '" ++ function ++ "' in " ++ path.display
  | .malformed path line reason =>
    path.display ++ ":" ++ Decimal.text line ++ ": " ++ reason.message
  | .unsupportedLanguage path language =>
    path.display ++ ": unsupported kernel language " ++ language.name
  | .insideCharacter path => path.display ++ ": parameter name starts inside a character"

/-- A fault in the text of a file. -/
def TranslateError.ofFault (path : Path) : Declaration.Fault → TranslateError
  | .malformed line reason => .malformed path line reason
  | .insideCharacter => .insideCharacter path

namespace Translation

/-- The version of the form of translated sources. -/
def version : String := "v3"

/-- The dialect for an execution model. -/
def dialect (b : Backend) : String := "c-" ++ b.word

/-- The macro that tells translated sources their execution model. -/
def modeMacro : Backend → String
  | .serial => "KILN_MODE_SERIAL"
  | .threaded => "KILN_MODE_THREADED"
  | .accelerator => "KILN_MODE_ACCELERATOR"

/-- The definitions at the start of a translated source. -/
def prelude (b : Backend) : String :=
  "/* kiln " ++ version ++ " */\n" ++
  "#define " ++ modeMacro b ++ " 1\n" ++
  "#ifdef __cplusplus\n" ++
  "#  define KILN_EXTERN_C extern \"C\"\n" ++
  "#else\n" ++
  "#  define KILN_EXTERN_C\n" ++
  "#endif\n" ++
  "#ifdef _WIN32\n" ++
  "#  define KILN_EXPORT __declspec(dllexport)\n" ++
  "#else\n" ++
  "#  define KILN_EXPORT\n" ++
  "#endif\n" ++
  "#define KILN_KERNEL KILN_EXTERN_C KILN_EXPORT\n"

/-- The macro in place of a marker. -/
def kernelMacro : List Char := "KILN_KERNEL".toList

/-- The translated text before the wrappers. -/
def body (b : Backend) (flags : Flags) (source : String) : List Char :=
  Flags.withLineBreak
    ((prelude b ++ flags.prelude).toList ++
      Text.replace Declaration.marker kernelMacro source.toList)

/-- The translated text of a source with given kernels. -/
def text (b : Backend) (flags : Flags) (source : String) (ds : List Declaration) : String :=
  String.ofList (body b flags source) ++ String.join (ds.map Declaration.wrapper)

/-- The kernels by name; of two with one name the later counts. -/
def table (b : Backend) (ds : List Declaration) : SortedMap String Launch :=
  SortedMap.ofList (ds.map fun d => (d.name, d.launch (dialect b)))

end Translation

/-- Translates a source. -/
def translate (r : TranslationRequest) : Except TranslateError Translation := do
  if r.language ≠ .c then throw (.unsupportedLanguage r.path r.language)
  let ds ← (Declaration.scan r.source.toList).mapError (TranslateError.ofFault r.path)
  let kernels := Translation.table r.backend ds
  if kernels.contains r.function then
    return ⟨Translation.text r.backend r.flags r.source ds, kernels⟩
  else throw (.missingFunction r.path r.function)

end KernelCache
