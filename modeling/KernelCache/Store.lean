/-
**The store of cache entries.**

The entry of a digest is a directory below the root.  It holds the translated source, the manifest,
the compiled binary and the checksum of the binary.  Every file is written under a fresh name in the
same directory and then moved to its place, so that a reader finds nothing or all of it.  A fresh
file whose use fails is removed again.

Main definitions:

* `Artifact`, `Store`, `Store.entryDir`, `Store.path`, `Store.sidecar` — the layout;
* `Store.contains`, `Store.get`, `Store.verified` — reading;
* `Store.reserve`, `Store.publish`, `Store.put` — writing;
* `Store.discard` — giving a reserved file up.
-/

import KernelCache.CacheError
import KernelCache.Checksum
import KernelCache.Digest.Text
import KernelCache.Files.Directories
import KernelCache.Text.Blank

set_option relaxedAutoImplicit false
set_option autoImplicit false

namespace KernelCache

/-- The files of an entry, apart from the checksum. -/
inductive Artifact where
  | source
  | manifest
  | binary
  deriving DecidableEq, Repr

/-- A store below a root, for translated sources of one extension. -/
structure Store where
  root : Path
  extension : String
  deriving DecidableEq, Repr

namespace Store

/-- The store below a root; the extension may be given with its dot. -/
def atRoot (root : Path) (extension : String) : Store :=
  ⟨root, String.ofList (extension.toList.dropWhile (· = '.'))⟩

/-! ### Layout -/

/-- The directory of an entry. -/
def entryDir (s : Store) (d : Digest) : Path := (s.root.child "kernels").child d.toText

/-- The name of an artifact in its entry. -/
def fileName (s : Store) : Artifact → String
  | .source => "source." ++ s.extension
  | .manifest => "manifest.json"
  | .binary => "binary"

/-- The path of an artifact. -/
def path (s : Store) (d : Digest) (k : Artifact) : Path := (s.entryDir d).child (s.fileName k)

/-- The path of the checksum of an entry's binary. -/
def sidecar (s : Store) (d : Digest) : Path := (s.entryDir d).child "binary.xxh3"

/-- How the names of reserved files start. -/
def stem : Artifact → String
  | .source => ".source"
  | .manifest => ".manifest"
  | .binary => ".binary"

/-! ### Reading -/

/-- Asks for an action whose failure concerns a path. -/
def attempt {α : Type} (p : Path) (program : FileProgram (Except Failure α)) :
    FileTask CacheError α :=
  ExceptT.mk do
    match ← program with
    | .ok a => return .ok a
    | .error e => return .error (.io p e)

/-- Whether an artifact is there. -/
def contains (s : Store) (d : Digest) (k : Artifact) : FileTask CacheError Bool := do
  match ← Ask.look (s.path d k) with
  | .ok _ => return true
  | .error .notFound => return false
  | .error e => throw (.io (s.path d k) e)

/-- The bytes of an artifact, if it is there. -/
def get (s : Store) (d : Digest) (k : Artifact) : FileTask CacheError (Option Bytes) := do
  match ← Ask.read (s.path d k) with
  | .ok bytes => return some bytes
  | .error .notFound => return none
  | .error e => throw (.io (s.path d k) e)

/-- The recorded checksum of an entry's binary. -/
def recordedChecksum (s : Store) (d : Digest) : FileTask CacheError String := do
  match ← Ask.read (s.sidecar d) with
  | .ok bytes =>
    match Utf8.decode? bytes with
    | some text => return String.ofList (Text.trim text)
    | none => throw (.io (s.sidecar d) .notText)
  | .error .notFound => throw (.missingChecksum (s.path d .binary))
  | .error e => throw (.io (s.sidecar d) e)

/-- The path of an entry's binary, if it is there, after a check against its checksum. -/
def verified (s : Store) (d : Digest) : FileTask CacheError (Option Path) := do
  match ← s.get d .binary with
  | none => return none
  | some bytes =>
    let expected ← s.recordedChecksum d
    let actual := (Checksum.of bytes).toText
    if actual = expected then return some (s.path d .binary)
    else throw (.checksumMismatch (s.path d .binary) expected actual)

/-! ### Writing -/

/-- Makes the directory of an entry. -/
def ensureEntryDir (s : Store) (d : Digest) : FileTask CacheError Path := do
  attempt (s.entryDir d) (makeDirectories (s.entryDir d))
  return s.entryDir d

/-- Removes a file that is not needed; that this fails is no concern of its user. -/
def discard (temp : Path) : FileProgram Unit := do
  let _ ← Ask.removeFile temp

/-- Creates a fresh file in a directory. -/
def createFresh (dir : Path) (stem : String) : FileTask CacheError Path :=
  attempt dir (Ask.createFresh dir stem)

/-- Writes bytes to a fresh file in a directory. -/
def writeFresh (dir : Path) (stem : String) (bytes : Bytes) : FileTask CacheError Path := do
  let temp ← createFresh dir stem
  (attempt temp (Ask.write temp bytes)).onFailure (discard temp)
  return temp

/-- Moves a fresh file to its place, or removes it. -/
def settle (temp target : Path) : FileTask CacheError Unit :=
  (attempt target (Ask.move temp target)).onFailure (discard temp)

/-- Records the checksum of a binary that is about to be published. -/
def recordChecksum (s : Store) (d : Digest) (temp : Path) : FileTask CacheError Unit := do
  let bytes ← attempt temp (Ask.read temp)
  let dir ← s.ensureEntryDir d
  let side ← writeFresh dir ".checksum" (Utf8.encode (Checksum.of bytes).toText)
  settle side (s.sidecar d)

/-- Moves a fully written fresh file to its place as an artifact.  A binary gets its checksum
first. -/
def publish (s : Store) (d : Digest) (k : Artifact) (temp : Path) : FileTask CacheError Path := do
  if k = .binary then (s.recordChecksum d temp).onFailure (discard temp)
  settle temp (s.path d k)
  return s.path d k

/-- Reserves a fresh file in the directory of an entry. -/
def reserve (s : Store) (d : Digest) (k : Artifact) : FileTask CacheError Path := do
  let dir ← s.ensureEntryDir d
  createFresh dir (stem k)

/-- Writes an artifact and returns its path. -/
def put (s : Store) (d : Digest) (k : Artifact) (bytes : Bytes) : FileTask CacheError Path := do
  let dir ← s.ensureEntryDir d
  let temp ← writeFresh dir ".put" bytes
  s.publish d k temp

end Store

/-- Reads a file as bytes. -/
def readBytes (p : Path) : FileTask CacheError Bytes := Store.attempt p (Ask.read p)

end KernelCache
