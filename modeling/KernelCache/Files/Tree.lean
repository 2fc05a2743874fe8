/-
**A tree of files.**

The files that a process can see are a map from places to nodes.  A place is the list of names that
leads to it from the working directory; places of absolute paths start with a name that is a single
slash, which no piece of a path can be.  Every operation is one atomic change of the map, or a
failure that leaves it as it was.

Main definitions:

* `Node`, `FileSystem`, `FileSystem.node?` — nodes at places;
* `FileSystem.resolve` — the place that a path leads to;
* `FileSystem.lookup`, `readFile`, `readText`, `names` — reading;
* `FileSystem.makeDirectory`, `removeDirectory`, `writeFile`, `removeFile`, `moveFile`,
  `createFresh` — changing;
* `FileSystem.provide`, `removeTree`, `listing` — setting up, clearing and showing a tree.
-/

import KernelCache.Files.Failure
import KernelCache.Path

set_option relaxedAutoImplicit false
set_option autoImplicit false

namespace KernelCache

/-- The names that lead to a node from the working directory. -/
abbrev Place := List Bytes

/-- What stands at a place. -/
inductive Node where
  | directory
  | file (contents : Bytes)
  deriving DecidableEq, Repr

/-- The nodes below the working directory and below the root. -/
structure FileSystem where
  nodes : SortedMap Place Node
  deriving DecidableEq

namespace FileSystem

instance : Inhabited FileSystem := ⟨⟨.empty⟩⟩

/-- No files at all. -/
def empty : FileSystem := ⟨.empty⟩

/-- The place of the root. -/
def rootPlace : Place := [[Path.slash]]

/-- The node at a place; the working directory and the root are always there. -/
def node? (fs : FileSystem) (place : Place) : Option Node :=
  if place = [] ∨ place = rootPlace then some .directory else fs.nodes.get? place

/-- Puts a node at a place. -/
def put (fs : FileSystem) (place : Place) (n : Node) : FileSystem := ⟨fs.nodes.insert place n⟩

/-- Takes the node away from a place. -/
def clear (fs : FileSystem) (place : Place) : FileSystem := ⟨fs.nodes.erase place⟩

/-! ### Places of paths -/

/-- The place at which a path starts. -/
def startOf (p : Path) : Place := if p.isAbsolute then rootPlace else []

/-- The place above a place; nothing is above the working directory and the root. -/
def above (place : Place) : Place := if place = rootPlace then place else place.dropLast

/-- Follows pieces through directories. -/
def walk (fs : FileSystem) : Place → List Bytes → Except Failure Place
  | place, [] => .ok place
  | place, piece :: rest =>
    if piece = [Path.dot, Path.dot] then walk fs (above place) rest
    else
      match fs.node? (place ++ [piece]) with
      | none => .error .notFound
      | some (.file _) => .error .notADirectory
      | some .directory => walk fs (place ++ [piece]) rest

/-- The place that a path leads to, and whether the path asks for a directory there. -/
structure Target where
  place : Place
  asDirectory : Bool
  deriving DecidableEq, Repr

/-- Whether the last name in a path is a single dot. -/
def endsHere (p : Path) : Bool := (p.pieces.filter (· != [])).getLast? == some [Path.dot]

/-- The place that a path leads to.  All but its last name must be directories. -/
def resolve (fs : FileSystem) (p : Path) : Except Failure Target := do
  if p.bytes = [] then throw .notFound
  match p.steps.getLast? with
  | none => return ⟨startOf p, true⟩
  | some last =>
    if endsHere p then return ⟨← walk fs (startOf p) p.steps, true⟩
    let dir ← walk fs (startOf p) p.steps.dropLast
    if last = [Path.dot, Path.dot] then return ⟨above dir, true⟩
    return ⟨dir ++ [last], p.bytes.getLast? == some Path.slash⟩

/-! ### Reading -/

/-- The node that a path leads to. -/
def lookup (fs : FileSystem) (p : Path) : Except Failure (Place × Node) := do
  let t ← fs.resolve p
  match fs.node? t.place with
  | none => throw .notFound
  | some (.file contents) =>
    if t.asDirectory then throw .notADirectory else return (t.place, .file contents)
  | some .directory => return (t.place, .directory)

/-- Whether a path leads to a file, with its symbolic links followed. -/
def isFile (fs : FileSystem) (p : Path) : Bool :=
  match fs.lookup p with
  | .ok (_, .file _) => true
  | _ => false

/-- The contents of a file. -/
def readFile (fs : FileSystem) (p : Path) : Except Failure Bytes := do
  match ← fs.lookup p with
  | (_, .file contents) => return contents
  | (_, .directory) => throw .isADirectory

/-- The contents of a text file. -/
def readText (fs : FileSystem) (p : Path) : Except Failure String := do
  match Utf8.toString? (← fs.readFile p) with
  | some s => return s
  | none => throw .notText

/-- The names directly below a place. -/
def namesAt (fs : FileSystem) (place : Place) : List Bytes :=
  fs.nodes.keys.filterMap fun k =>
    if k.dropLast = place ∧ k ≠ rootPlace then k.getLast? else none

/-- The names in a directory. -/
def names (fs : FileSystem) (p : Path) : Except Failure (List Bytes) := do
  match ← fs.lookup p with
  | (place, .directory) => return fs.namesAt place
  | (_, .file _) => throw .notADirectory

/-! ### Changing -/

/-- Makes a directory where nothing is. -/
def makeDirectory (fs : FileSystem) (p : Path) : Except Failure FileSystem := do
  let t ← fs.resolve p
  match fs.node? t.place with
  | some _ => throw .alreadyExists
  | none => return fs.put t.place .directory

/-- Removes an empty directory. -/
def removeDirectory (fs : FileSystem) (p : Path) : Except Failure FileSystem := do
  match ← fs.lookup p with
  | (_, .file _) => throw .notADirectory
  | (place, .directory) =>
    if fs.namesAt place = [] then return fs.clear place else throw .notEmpty

/-- Writes a file, new or over the one that is there. -/
def writeFile (fs : FileSystem) (p : Path) (contents : Bytes) : Except Failure FileSystem := do
  let t ← fs.resolve p
  match fs.node? t.place with
  | some .directory => throw .isADirectory
  | some (.file _) | none =>
    if t.asDirectory then throw .isADirectory else return fs.put t.place (.file contents)

/-- Removes a file. -/
def removeFile (fs : FileSystem) (p : Path) : Except Failure FileSystem := do
  match ← fs.lookup p with
  | (_, .directory) => throw .isADirectory
  | (place, .file _) => return fs.clear place

/-- Moves a file, over a file that is at its new place. -/
def moveFile (fs : FileSystem) (source target : Path) : Except Failure FileSystem := do
  let s ← fs.resolve source
  let t ← fs.resolve target
  match fs.node? s.place with
  | none => throw .notFound
  | some .directory => throw .isADirectory
  | some (.file contents) =>
    match fs.node? t.place with
    | some .directory => throw .isADirectory
    | _ =>
      if t.asDirectory then throw .notADirectory
      return (fs.clear s.place).put t.place (.file contents)

/-- The six characters that tell fresh names apart. -/
def freshTail (n : Nat) : String :=
  String.ofList ((List.range 6).reverse.map fun i => Char.ofNat (48 + n / Nat.pow 10 i % 10))

/-- The first path in a directory, counting from `n`, that names nothing. -/
def freshPath? (fs : FileSystem) (dir : Path) (stem : String) (n : Nat) : Option Path :=
  let candidates := (List.range (fs.nodes.entries.length + 1)).map fun i =>
    dir.child (stem ++ freshTail (n + i))
  candidates.find? fun p => fs.lookup p matches .error .notFound

/-- Creates an empty file under a name that was not in use. -/
def createFresh (fs : FileSystem) (dir : Path) (stem : String) (n : Nat) :
    Except Failure (Path × FileSystem) :=
  match fs.freshPath? dir stem n with
  | some p => do return (p, ← fs.writeFile p [])
  | none => do
    let _ ← fs.lookup (dir.child (stem ++ freshTail n))
    throw .alreadyExists

/-! ### Setting up and showing -/

/-- Makes a directory and those above it, where they are missing. -/
def provideDirectory (fs : FileSystem) (p : Path) : FileSystem :=
  p.lineage.reverse.foldl
    (fun fs q => match fs.makeDirectory q with
      | .ok fs => fs
      | .error _ => fs) fs

/-- Writes a file with the directories above it; a path with a slash at its end makes a
directory. -/
def provide (fs : FileSystem) (p : Path) (contents : Bytes) : Except Failure FileSystem :=
  if p.bytes.getLast? = some Path.slash then .ok (fs.provideDirectory p)
  else
    match p.parent? with
    | some dir => (fs.provideDirectory dir).writeFile p contents
    | none => fs.writeFile p contents

/-- Removes a file, or a directory with all it holds. -/
def removeTree (fs : FileSystem) (p : Path) : Except Failure FileSystem := do
  let (place, _) ← fs.lookup p
  return ⟨fs.nodes.filter fun k _ => !place.isPrefixOf k⟩

/-- Everything below the working directory in byte order; directories end in a slash. -/
def listing (fs : FileSystem) : List (Place × Bytes) :=
  let rows := fs.nodes.entries.filterMap fun (k, n) =>
    if k.head? = some [Path.slash] then none
    else
      let text := [Path.slash].intercalate k
      some (k, match n with
        | .directory => text ++ [Path.slash]
        | .file _ => text)
  rows.mergeSort fun a b => decide (a.2 ≤ b.2)

end FileSystem

end KernelCache
