/-
**Reading typed values from JSON.**

A record is an object that has each of its fields once; members with other names do not matter.  It
may also be written as an array of its fields in their order.  A choice between words is written as
the word, or as an object with the word for its only key and `null` for its value.  A table is an
object whose keys are free, of two members with the same key the later counts.

Main definitions:

* `Json.string?`, `Json.items?`, `Json.byte?` — texts, arrays and small numbers;
* `Json.record?`, `Json.choice?`, `Json.table?` — records, choices and tables.
-/

import KernelCache.Json.Printer
import KernelCache.SortedMap
import KernelCache.Text.Decimal

set_option relaxedAutoImplicit false
set_option autoImplicit false

namespace KernelCache.Json

/-- The text of a string. -/
def string? : Json → Option String
  | .string raw => text? raw
  | _ => none

/-- The items of an array. -/
def items? : Json → Option (List Json)
  | .array items => some items
  | _ => none

/-- A number without sign, fraction and exponent, of at most 255. -/
def byte? : Json → Option UInt8
  | .number text =>
    (Decimal.number? (text.map fun b => Char.ofNat b.toNat)).bind fun n =>
      if n ≤ 255 then some (UInt8.ofNat n) else none
  | _ => none

/-- The members of an object with their keys as text. -/
def members? : Json → Option (List (String × Json))
  | .object members => members.mapM fun (k, v) => (text? k).map (·, v)
  | _ => none

/-- The only value that a key has. -/
def only? (name : String) (members : List (String × Json)) : Option Json :=
  match members.filter fun m => m.1 = name with
  | [m] => some m.2
  | _ => none

/-- The values of a record's fields, in the order of the names. -/
def record? (names : List String) : Json → Option (List Json)
  | .array items => if items.length = names.length then some items else none
  | v => (members? v).bind fun members => names.mapM fun name => only? name members

/-- The word of a choice. -/
def choice? : Json → Option String
  | .string raw => text? raw
  | .object [(key, .null)] => text? key
  | _ => none

/-- The values of a table by their keys. -/
def table? {α : Type} (value? : Json → Option α) (v : Json) : Option (SortedMap String α) := do
  let members ← members? v
  let entries ← members.mapM fun (k, v) => (value? v).map (k, ·)
  return SortedMap.ofList entries

/-- The document of a table. -/
def ofTable {α : Type} (value : α → Json) (m : SortedMap String α) : Json :=
  .object (m.entries.map fun (k, v) => (escape k, value v))

end KernelCache.Json
