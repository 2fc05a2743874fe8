/-
**Resolved settings.**

A setting is taken from the configuration, then from the first variable of the environment that is
set and not empty, then from a default.

Main definitions:

* `Environment`, `Environment.firstOf`, `Environment.names` — looking variables up, and which;
* `DeviceSpec`, `DeviceSettings.resolve` — the settings with which a device is opened;
* `Settings.resolveRoot` — the root of the cache.
-/

import KernelCache.Settings.Basic
import KernelCache.Text.Blank

set_option relaxedAutoImplicit false
set_option autoImplicit false

namespace KernelCache

/-- The variables that are set, with their values. -/
abbrev Environment := SortedMap String String

namespace Environment

/-- The value of the first variable that is set and not empty. -/
def firstOf (env : Environment) (names : List String) : Option String :=
  (names.filterMap env.get?).find? (· ≠ "")

/-- The variables that may name the compiler. -/
def compilerNames : List String := ["KILN_CXX", "CXX"]

/-- The variables that may give the flags of the compiler. -/
def flagsNames : List String := ["KILN_CXXFLAGS", "CXXFLAGS"]

/-- The variable that may give the script before the compiler. -/
def scriptNames : List String := ["KILN_COMPILER_ENV_SCRIPT"]

/-- The variable that may name the root of the cache. -/
def rootNames : List String := ["KILN_CACHE_DIR"]

/-- The variables that may name the user's directory. -/
def homeNames : List String := ["HOME", "USERPROFILE"]

/-- All variables that matter. -/
def names : List String := compilerNames ++ flagsNames ++ scriptNames ++ rootNames ++ homeNames

end Environment

/-- The settings with which a device is opened. -/
structure DeviceSpec where
  backend : Backend
  compiler : String
  compilerFlags : String
  environmentScript : String
  vendorHint : String
  threads : Option Nat
  deriving DecidableEq, Repr

namespace DeviceSettings

/-- The compiler when neither the configuration nor the environment names one. -/
def defaultCompiler : String := "g++"

/-- The flags when neither the configuration nor the environment gives any. -/
def defaultFlags : String := "-g"

/-- The compiler.  One that is configured must not be blank. -/
def resolveCompiler (s : DeviceSettings) (env : Environment) : Except ConfigError String :=
  match s.compiler with
  | some c => if Text.isBlankText c then .error .noCompiler else .ok c
  | none => .ok ((env.firstOf Environment.compilerNames).getD defaultCompiler)

/-- The flags of the compiler. -/
def resolveFlags (s : DeviceSettings) (env : Environment) : String :=
  s.compilerFlags.getD ((env.firstOf Environment.flagsNames).getD defaultFlags)

/-- The script that prepares the compiler's environment; empty when there is none. -/
def resolveScript (s : DeviceSettings) (env : Environment) : String :=
  s.environmentScript.getD ((env.firstOf Environment.scriptNames).getD "")

/-- The vendor hints as one text. -/
def joinedHints (s : DeviceSettings) : String := ",".intercalate s.vendorHints

/-- Whether a text contains the separator of cache key components. -/
def hasSeparator (s : String) : Bool := s.toList.contains '|'

/-- The settings with which the device is opened.  What becomes part of a cache key must not contain
the separator of its components. -/
def resolve (s : DeviceSettings) (env : Environment) : Except ConfigError DeviceSpec := do
  let spec : DeviceSpec := {
    backend := s.backend
    compiler := ← s.resolveCompiler env
    compilerFlags := s.resolveFlags env
    environmentScript := s.resolveScript env
    vendorHint := s.joinedHints
    threads := s.threads }
  if s.threads = some 0 then throw .noThreads
  if hasSeparator spec.compiler then throw (.separatorIn .compiler)
  if hasSeparator spec.compilerFlags then throw (.separatorIn .compilerFlags)
  if hasSeparator spec.environmentScript then throw (.separatorIn .environmentScript)
  if hasSeparator spec.vendorHint then throw (.separatorIn .vendorHints)
  return spec

end DeviceSettings

/-- The root of the cache. -/
def Settings.resolveRoot (root : Option Path) (env : Environment) : Except ConfigError Path :=
  match root with
  | some root => .ok root
  | none =>
    match env.firstOf Environment.rootNames with
    | some dir => .ok (Path.ofString dir)
    | none =>
      match env.firstOf Environment.homeNames with
      | some home => .ok (((Path.ofString home).child ".cache").child "kiln")
      | none => .error .noCacheRoot

end KernelCache
