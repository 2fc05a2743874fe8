/-
**Writing JSON.**

A document is written either without any blanks or with one item to a line, each level indented by
two spaces; an empty array or object stays on its line.

Main definitions:

* `Json.compact` — the form without blanks;
* `Json.pretty` — the form with one item to a line.
-/

import KernelCache.Json.Text
import KernelCache.Json.Value

set_option relaxedAutoImplicit false
set_option autoImplicit false

namespace KernelCache.Json

/-- The document of a text. -/
def ofString (s : String) : Json := .string (escape s)

/-- The bytes of a string with its quotes. -/
def quoted (raw : Bytes) : Bytes := 0x22 :: raw ++ [0x22]

/-- The words for the documents that have no parts. -/
def word : Bool → Bytes
  | true => Utf8.encode "true"
  | false => Utf8.encode "false"

/-! ### Without blanks -/

mutual

/-- A document without blanks. -/
def compact : Json → Bytes
  | .null => Utf8.encode "null"
  | .bool b => word b
  | .number text => text
  | .string raw => quoted raw
  | .array items => 0x5B :: compactItems items ++ [0x5D]
  | .object members => 0x7B :: compactMembers members ++ [0x7D]

/-- The items of an array without blanks. -/
def compactItems : List Json → Bytes
  | [] => []
  | [v] => compact v
  | v :: rest => compact v ++ 0x2C :: compactItems rest

/-- The members of an object without blanks. -/
def compactMembers : List (Bytes × Json) → Bytes
  | [] => []
  | [(k, v)] => quoted k ++ 0x3A :: compact v
  | (k, v) :: rest => quoted k ++ 0x3A :: compact v ++ 0x2C :: compactMembers rest

end

/-! ### One item to a line -/

/-- The start of a line at a level. -/
def lineStart (level : Nat) : Bytes := 0x0A :: List.replicate (2 * level) 0x20

mutual

/-- A document at a level, with one item to a line. -/
def prettyAt (level : Nat) : Json → Bytes
  | .null => Utf8.encode "null"
  | .bool b => word b
  | .number text => text
  | .string raw => quoted raw
  | .array [] => Utf8.encode "[]"
  | .array items => 0x5B :: prettyItems (level + 1) items ++ lineStart level ++ [0x5D]
  | .object [] => [0x7B, 0x7D]
  | .object members => 0x7B :: prettyMembers (level + 1) members ++ lineStart level ++ [0x7D]

/-- The items of an array, each on its line. -/
def prettyItems (level : Nat) : List Json → Bytes
  | [] => []
  | [v] => lineStart level ++ prettyAt level v
  | v :: rest => lineStart level ++ prettyAt level v ++ 0x2C :: prettyItems level rest

/-- The members of an object, each on its line. -/
def prettyMembers (level : Nat) : List (Bytes × Json) → Bytes
  | [] => []
  | [(k, v)] => lineStart level ++ quoted k ++ 0x3A :: 0x20 :: prettyAt level v
  | (k, v) :: rest =>
    lineStart level ++ quoted k ++ 0x3A :: 0x20 :: prettyAt level v ++
      0x2C :: prettyMembers level rest

end

/-- A document with one item to a line. -/
def pretty (v : Json) : Bytes := prettyAt 0 v

end KernelCache.Json
