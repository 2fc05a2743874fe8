/-
**Settings.**

A configuration may leave every setting open.  Reading it is forgiving about its shape: a section
may be a table or a list of values in their order, and what it does not know it ignores.

Main definitions:

* `DeviceSettings`, `Settings` — what a configuration says;
* `Settings.parse` — the settings of a document, checked;
* `Settings.load`, `Settings.discover` — the settings of a file and of a directory.
-/

import KernelCache.Backend
import KernelCache.Files.Action
import KernelCache.Settings.Error
import KernelCache.Toml.Document

set_option relaxedAutoImplicit false
set_option autoImplicit false

namespace KernelCache

/-- What a configuration says about devices. -/
structure DeviceSettings where
  backend : Backend
  compiler : Option String
  compilerFlags : Option String
  environmentScript : Option String
  vendorHints : List String
  threads : Option Nat
  deriving DecidableEq, Repr, Inhabited

/-- The settings of a device about which nothing is said. -/
def DeviceSettings.unset : DeviceSettings := ⟨.serial, none, none, none, [], none⟩

/-- What a configuration says. -/
structure Settings where
  cacheRoot : Option Path
  device : DeviceSettings
  deriving DecidableEq, Repr

/-- The settings of a configuration that says nothing. -/
def Settings.unset : Settings := ⟨none, .unset⟩

/-! ### Reading values -/

namespace Toml.Item

/-- The text of a string. -/
def string? : Item → Option String
  | .string s => some s
  | _ => none

/-- A number that is not negative. -/
def count? : Item → Option Nat
  | .integer n => if 0 ≤ n then some n.toNat else none
  | _ => none

/-- The values of a list. -/
def items? : Item → Option (List Item)
  | .array items => some items
  | .tables elements => some (elements.map (.table .header))
  | _ => none

/-- Whether a value is a table or a list with nothing in it. -/
def isEmpty : Item → Bool
  | .array [] | .table _ [] => true
  | _ => false

/-- The values of a section's settings, as far as they are there.  A section is a table, or a list
of the values in the order of the names; a date is taken for a section that says nothing. -/
def fields? (names : List String) : Item → Option (List (Option Item))
  | .table _ entries => some (names.map (Entries.get? entries))
  | .date => some (names.map fun _ => none)
  | v => (items? v).map fun items => names.mapIdx fun i _ => items[i]?

/-- The execution model of a word, or of a table that has an empty value for its only key. -/
def backend? : Item → Option Backend
  | .string s => Backend.ofWord? s
  | .table _ [(k, v)] => if v.isEmpty then Backend.ofWord? k else none
  | _ => none

/-- A value that may be missing. -/
def optional? {α : Type} (read? : Item → Option α) : Option Item → Option (Option α)
  | some v => (read? v).map some
  | none => some none

end Toml.Item

open Toml.Item (optional?)

/-- The settings of a device section. -/
def DeviceSettings.ofItem? (v : Toml.Item) : Option DeviceSettings := do
  match ← v.fields? ["backend", "compiler", "compiler_flags", "compiler_env_script", "vendor_hints",
    "threads"] with
  | [backend, compiler, flags, script, hints, threads] =>
    return {
      backend := (← optional? Toml.Item.backend? backend).getD .serial
      compiler := ← optional? Toml.Item.string? compiler
      compilerFlags := ← optional? Toml.Item.string? flags
      environmentScript := ← optional? Toml.Item.string? script
      vendorHints := (← optional? (fun v => do (← v.items?).mapM Toml.Item.string?) hints).getD []
      threads := ← optional? Toml.Item.count? threads }
  | _ => none

/-- The root of the cache that a cache section gives. -/
def Settings.rootOfItem? (v : Toml.Item) : Option (Option Path) := do
  match ← v.fields? ["root"] with
  | [root] => return (← optional? Toml.Item.string? root).map Path.ofString
  | _ => none

/-- The settings of a document's entries. -/
def Settings.ofEntries? (entries : Toml.Entries) : Option Settings := do
  let root ← optional? rootOfItem? (Toml.Entries.get? entries "cache")
  let device ← optional? DeviceSettings.ofItem? (Toml.Entries.get? entries "device")
  return ⟨root.bind id, device.getD .unset⟩

/-! ### Checked settings -/

namespace Settings

/-- Refuses settings that cannot be meant. -/
def validate (s : Settings) : Except ConfigError Settings :=
  if s.cacheRoot = some ⟨[]⟩ then .error .emptyCacheRoot
  else if s.device.threads = some 0 then .error .noThreads
  else .ok s

/-- The settings of a document. -/
def parse (text : String) : Except ConfigError Settings :=
  match (Toml.parse? text).bind ofEntries? with
  | some s => s.validate
  | none => .error .malformed

/-- The name of the configuration file of a directory. -/
def fileName : String := "kiln.toml"

/-- The settings of a file. -/
def load (p : Path) : FileTask ConfigError Settings := do
  match ← Ask.read p with
  | .error e => throw (.unreadable e)
  | .ok bytes =>
    match Utf8.toString? bytes with
    | none => throw (.unreadable .notText)
    | some text => ExceptT.mk (pure (parse text))

/-- The settings of a directory; none are made where it has no configuration file. -/
def discover (dir : Path) : FileTask ConfigError Settings := do
  match ← Ask.look (dir.child fileName) with
  | .ok (.file _) => load (dir.child fileName)
  | _ => return unset

end Settings

end KernelCache
