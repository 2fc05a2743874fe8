/-
**Documents of TOML.**

A document is a sequence of lines that put values under keys and of headers that say which table the
lines after them belong to.

Main definitions:

* `Toml.Line`, `Toml.lines` — reading the lines;
* `Toml.Draft`, `Toml.Draft.add?` — putting them together;
* `Toml.parse?` — the entries of a document.
-/

import KernelCache.Toml.Value

set_option relaxedAutoImplicit false
set_option autoImplicit false

namespace KernelCache.Toml

open Scan

/-! ### Lines -/

/-- A line that counts: a key with its value, the header of a table, or the header of one more table
of an array.  Keys are given as the parts before the last and the last. -/
inductive Line where
  | pair (path : List String) (k : String) (v : Item)
  | table (path : List String) (k : String)
  | element (path : List String) (k : String)

/-- The header of one more table of an array. -/
def elementHeader : Scan Line := do
  word "[["
  let (path, k) ← key
  word "]]"
  return .element path k

/-- The header of a table. -/
def tableHeader : Scan Line := do
  word "["
  let (path, k) ← key
  word "]"
  return .table path k

/-- A header or a key with its value. -/
def line : Scan Line := do
  match ← peek? with
  | some '[' => elementHeader <|> tableHeader
  | _ =>
    let ((path, k), v) ← pair value
    return .pair path k v

/-- A line of any kind, with the blanks after it. -/
def anyLine : Scan (Option Line) := do
  let l ← (do newline; return none) <|> (do comment; lineBreak; return none) <|> do
    let l ← line
    lineEnd
    return some l
  blanks
  return l

/-- The lines of a document. -/
def lines : Scan (List Line) := do
  let _ ← optional (one (· = '\uFEFF'))
  blanks
  let ls ← many anyLine
  return ls.filterMap id

/-! ### Putting lines together -/

namespace Entries

/-- Changes the table that a path leads to.  Missing tables are made, by a dotted key if `viaDots`
holds; of an array of tables the last one counts. -/
def alterAt? (viaDots : Bool) (f : Form → Entries → Option Entries) :
    List String → Form → Entries → Option Entries
  | [], form, t => f form t
  | step :: path, _, t =>
    alter? step (fun
      | none =>
        let form := if viaDots then Form.dotted else Form.implied
        (alterAt? viaDots f path form []).map (.table form)
      | some (.table form t) =>
        if form.isInline || (viaDots && !form.isImplicit) then none
        else (alterAt? viaDots f path form t).map (.table form)
      | some (.tables ts) =>
        match ts.getLast? with
        | some t => (alterAt? viaDots f path .header t).map fun t => .tables (ts.dropLast ++ [t])
        | none => none
      | some _ => none) t

end Entries

/-- A document under construction: its entries, and the table that the next pairs belong to. -/
structure Draft where
  root : Entries
  place : List String

namespace Draft

/-- Before the first line. -/
def start : Draft := ⟨[], []⟩

/-- What a header makes of the value that its key has: a table that only headers below it have made
becomes one of its own. -/
def announced? : Option Item → Option Item
  | none => some (.table .header [])
  | some (.table .implied t) => some (.table .header t)
  | some _ => none

/-- What the header of one more table makes of the value that its key has. -/
def extended? : Option Item → Option Item
  | none => some (.tables [[]])
  | some (.tables ts) => some (.tables (ts ++ [[]]))
  | some _ => none

/-- Changes the value of a key that a header gives, and goes on in that table. -/
def enter? (d : Draft) (path : List String) (k : String) (f : Option Item → Option Item) :
    Option Draft :=
  (Entries.alterAt? false (fun _ => Entries.alter? k f) path .header d.root).map
    (⟨·, path ++ [k]⟩)

/-- The document with one more line. -/
def add? (d : Draft) : Line → Option Draft
  | .pair path k v =>
    (Entries.alterAt? false (Entries.alterAt? true (Entries.add? (!path.isEmpty) k v) path)
      d.place .header d.root).map (⟨·, d.place⟩)
  | .table path k => d.enter? path k announced?
  | .element path k => d.enter? path k extended?

end Draft

/-- The entries of a document. -/
def parse? (s : String) : Option Entries :=
  (whole? lines s.toList).bind fun ls => (ls.foldlM Draft.add? Draft.start).map (·.root)

end KernelCache.Toml
