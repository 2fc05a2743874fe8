/-
**Paths as they are written.**

A path is the bytes in which it was written, because that is how it is shown; its meaning is in its
components.  Slashes separate pieces; empty pieces and single dots do not count, except that a dot
at the very start is a component of its own.

Main definitions:

* `Path`, `Path.ofString`, `Path.display` — written paths;
* `Path.steps`, `Path.Component`, `Path.components` — what a path names;
* `Path.join`, `Path.child`, `Path.parent?`, `Path.lineage` — going down and up;
* `Path.fileName?`, `Path.extension?`, `Path.extensionText?` — the last name and what follows its
  last dot;
* `Path.within?`, `Path.shorten` — a path as seen from a directory above it;
* `Language.ofPath` — the language of a kernel file.
-/

import KernelCache.SortedMap
import KernelCache.Text.Utf8

set_option relaxedAutoImplicit false
set_option autoImplicit false

namespace KernelCache

/-- A path as written. -/
structure Path where
  bytes : Bytes
  deriving DecidableEq, Repr

namespace Path

instance : LT Path := ⟨fun a b => a.bytes < b.bytes⟩

instance : DecidableLT Path := fun a b => inferInstanceAs (Decidable (a.bytes < b.bytes))

instance : LinearKey Path where
  irrefl := fun p => LinearKey.irrefl p.bytes
  trans := LinearKey.trans (κ := Bytes)
  connected := by
    rintro ⟨a⟩ ⟨b⟩ h₁ h₂
    exact congrArg mk (LinearKey.connected (κ := Bytes) h₁ h₂)

instance : Inhabited Path := ⟨⟨[]⟩⟩

/-- The separator of pieces. -/
def slash : UInt8 := 0x2F

/-- The byte of a dot. -/
def dot : UInt8 := 0x2E

/-- The path that a text writes. -/
def ofString (s : String) : Path := ⟨Utf8.encode s⟩

/-- The path as text. -/
def display (p : Path) : String := Utf8.display p.bytes

/-! ### Components -/

/-- The pieces between slashes, with the ones that do not count. -/
def pieces (p : Path) : List Bytes := p.bytes.splitOn slash

/-- Whether a piece counts as a component. -/
def counts (piece : Bytes) : Bool := piece != [] && piece != [dot]

/-- The pieces of a path that count. -/
def steps (p : Path) : List Bytes := p.pieces.filter counts

/-- A part of what a path names. -/
inductive Component where
  | root
  | here
  | up
  | name (bytes : Bytes)
  deriving DecidableEq, Repr

/-- The component that a counting piece stands for. -/
def Component.ofPiece (piece : Bytes) : Component :=
  if piece = [dot, dot] then .up else .name piece

/-- Whether the path starts at the root. -/
def isAbsolute (p : Path) : Bool := p.bytes.head? == some slash

/-- Whether the path starts with a lone dot. -/
def startsHere (p : Path) : Bool := p.pieces.head? == some [dot]

/-- The components of a path. -/
def components (p : Path) : List Component :=
  let body := p.steps.map Component.ofPiece
  if p.isAbsolute then .root :: body
  else if p.startsHere then .here :: body
  else body

/-! ### Going down -/

/-- The path that a second path names from a first. -/
def join (p q : Path) : Path :=
  if q.isAbsolute then q
  else if p.bytes.isEmpty || p.bytes.getLast? == some slash then ⟨p.bytes ++ q.bytes⟩
  else ⟨p.bytes ++ slash :: q.bytes⟩

/-- The path of an entry in a directory. -/
def child (p : Path) (name : String) : Path := p.join (ofString name)

/-! ### Going up -/

/-- Drops the pieces at the end that do not count. -/
def trimPieces (l : List Bytes) : List Bytes := (l.reverse.dropWhile (!counts ·)).reverse

/-- The text of pieces. -/
def ofPieces (l : List Bytes) : Path := ⟨[slash].intercalate l⟩

/-- The path without its last component. -/
def parent? (p : Path) : Option Path :=
  match p.components.getLast? with
  | none | some .root => none
  | some .here => some ⟨[]⟩
  | some _ =>
    match trimPieces (trimPieces p.pieces).dropLast with
    | [] => some (if p.isAbsolute then ⟨[slash]⟩ else if p.startsHere then ⟨[dot]⟩ else ⟨[]⟩)
    | kept => some (ofPieces kept)

/-- The path and its ancestors, at most `n` of them. -/
def lineageFrom : Nat → Path → List Path
  | 0, p => [p]
  | n + 1, p => p :: (match p.parent? with
    | some q => lineageFrom n q
    | none => [])

/-- The path and all its ancestors, nearest first. -/
def lineage (p : Path) : List Path := lineageFrom (p.components.length + 1) p

/-! ### The last name -/

/-- The last component, when it is a name. -/
def fileName? (p : Path) : Option Bytes :=
  match p.components.getLast? with
  | some (.name n) => some n
  | _ => none

/-- What follows the last dot of the last name, unless that dot starts the name. -/
def extension? (p : Path) : Option Bytes :=
  p.fileName?.bind fun name =>
    let after := name.reverse.takeWhile (· != dot)
    match name.reverse.drop (after.length + 1) with
    | [] => none
    | _ => some after.reverse

/-- The extension, if it is text. -/
def extensionText? (p : Path) : Option String := p.extension?.bind Utf8.toString?

/-! ### A path from above -/

/-- Drops the first `n` counting pieces. -/
def dropPieces : Nat → List Bytes → List Bytes
  | 0, l => l
  | n + 1, l => dropPieces n ((l.dropWhile (!counts ·)).drop 1)

/-- The path as named from a directory whose components it starts with. -/
def within? (p dir : Path) : Option Path :=
  if dir.components.isPrefixOf p.components then
    if dir.components = [] then some p
    else
      let rest := dropPieces dir.steps.length p.pieces
      some (ofPieces (trimPieces (rest.dropWhile (!counts ·))))
  else none

/-- A path for display: cache entries are shown from the directory of entries. -/
def shorten (p root : Path) : String :=
  match p.within? (root.child "kernels") with
  | some rest => rest.display
  | none => p.display

end Path

/-- The language of a kernel file. -/
inductive Language where
  | c
  | fortran
  deriving DecidableEq, Repr

/-- The name of a language. -/
def Language.name : Language → String
  | .c => "C"
  | .fortran => "Fortran"

/-- The language that a file's extension announces. -/
def Language.ofPath (p : Path) : Language :=
  if p.extension? = some (Utf8.encode "ofl") then .fortran else .c

end KernelCache
