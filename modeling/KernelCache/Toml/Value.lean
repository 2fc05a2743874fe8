/-
**Values of TOML.**

Main definitions:

* `Toml.Item`, `Toml.Form` — values, and how a table came about;
* `Toml.Entries.alter?`, `Toml.Entries.add?` — putting a value into a table;
* `Toml.key` — dotted keys;
* `Toml.value` — reading values.
-/

import KernelCache.Toml.Number
import KernelCache.Toml.Quoted

set_option relaxedAutoImplicit false
set_option autoImplicit false

namespace KernelCache.Toml

/-- How a table came about: written in braces, made within braces by a dotted key, announced by its
own header, made by the header of a table below it, or made by a dotted key. -/
inductive Form where
  | inline
  | inlineDotted
  | header
  | implied
  | dotted
  deriving DecidableEq, Repr

/-- Whether a table was made by a dotted key. -/
def Form.isDotted : Form → Bool
  | .inlineDotted | .dotted => true
  | .inline | .header | .implied => false

/-- Whether a table was made without being written as such. -/
def Form.isImplicit : Form → Bool
  | .inlineDotted | .implied | .dotted => true
  | .inline | .header => false

/-- Whether a table is part of a value in braces. -/
def Form.isInline : Form → Bool
  | .inline | .inlineDotted => true
  | .header | .implied | .dotted => false

/-- A value.  Of floats and dates only that they are there is kept. -/
inductive Item where
  | string (s : String)
  | integer (n : Int)
  | float
  | bool (b : Bool)
  | date
  | array (items : List Item)
  | table (form : Form) (entries : List (String × Item))
  | tables (elements : List (List (String × Item)))
  deriving Inhabited

/-- The entries of a table, in the order in which they were made. -/
abbrev Entries := List (String × Item)

namespace Entries

/-- Replaces the value of a key, or adds one. -/
def alter? (k : String) (f : Option Item → Option Item) : Entries → Option Entries
  | [] => (f none).map fun v => [(k, v)]
  | e :: rest =>
    if e.1 = k then (f (some e.2)).map fun v => (k, v) :: rest
    else (alter? k f rest).map (e :: ·)

/-- The value of a key. -/
def get? (t : Entries) (k : String) : Option Item := (t.find? (·.1 = k)).map (·.2)

/-- Adds a value for a key that has none, in a table that is reached by a dotted key if `viaDots`
holds.  Dotted keys may end only in tables that dotted keys have made, other keys only in other
tables. -/
def add? (viaDots : Bool) (k : String) (v : Item) (form : Form) (t : Entries) : Option Entries :=
  if form.isDotted = viaDots then
    alter? k (fun old => if old.isNone then some v else none) t
  else none

/-- Changes the table within braces that the beginning of a dotted key leads to. -/
def alterInline? (f : Form → Entries → Option Entries) :
    List String → Form → Entries → Option Entries
  | [], form, t => f form t
  | step :: path, _, t =>
    alter? step (fun
      | none => (alterInline? f path .inlineDotted []).map (.table .inlineDotted)
      | some (.table form t) =>
        if form.isImplicit then (alterInline? f path form t).map (.table form) else none
      | some _ => none) t

end Entries

open Scan

/-! ### Keys -/

/-- A character of a key without quotes. -/
def isBare (c : Char) : Bool :=
  isDigit c || (97 ≤ c.toNat && c.toNat ≤ 122) || (65 ≤ c.toNat && c.toNat ≤ 90) || c == '-' ||
    c == '_'

/-- A key without dots. -/
def simpleKey : Scan String := do
  blanks
  let k ← basic <|> literal <|> some1 isBare
  blanks
  return String.ofList k

/-- The number of levels that are too many, of the parts of a key and of nested values alike. -/
def depthLimit : Nat := 80

/-- A dotted key, as the parts before the last and the last. -/
def key : Scan (List String × String) := do
  let ks ← separated simpleKey (word ".")
  check (if ks.length < depthLimit then ks.getLast?.map (ks.dropLast, ·) else none)

/-! ### Values -/

/-- The items of an array and its closing bracket. -/
def arrayItems (item : Scan Item) : Scan Item := do
  let items ← separated (do filler; let v ← item; filler; return v) (word ",")
  if !items.isEmpty then
    let _ ← optional (word ",")
  filler
  word "]"
  return .array items

/-- A key with its value. -/
def pair (item : Scan Item) : Scan ((List String × String) × Item) := do
  let k ← key
  word "="
  blanks
  let v ← item
  return (k, v)

/-- The entries of a table in braces, from its pairs. -/
def inlineEntries? (pairs : List ((List String × String) × Item)) : Option Entries :=
  pairs.foldlM (fun t ((path, k), v) =>
    Entries.alterInline? (Entries.add? (!path.isEmpty) k v) path .inline t) []

/-- The pairs of a table in braces and its closing brace. -/
def inlinePairs (item : Scan Item) : Scan Item := do
  let pairs ← separated (do let p ← pair item; blanks; return p) (word ",")
  blanks
  word "\x7d"
  return .table .inline (← check (inlineEntries? pairs))

/-- A value without parts. -/
def scalar : Scan Item :=
  (.string <$> string) <|>
  (do dateTime; return .date) <|>
  (do float; return .float) <|>
  (.integer <$> integer) <|>
  (do word "true"; return .bool true) <|>
  (do word "false"; return .bool false)

/-- A value with at most `room` levels of arrays and tables in braces. -/
def valueWithin : (room : Nat) → Scan Item
  | 0 => scalar
  | room + 1 =>
    (do word "["; arrayItems (valueWithin room)) <|>
    (do word "\x7b"; inlinePairs (valueWithin room)) <|>
    scalar

/-- A value. -/
def value : Scan Item := valueWithin (depthLimit - 1)

end KernelCache.Toml
