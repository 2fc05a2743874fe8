/-
**Building kernels through the cache.**

A build fills the entry of its digest in two steps, translation and compilation.  Each step looks at
the entry, takes its lock, looks again, produces and publishes, and gives the lock back.  A build
that finds the lock taken waits until it is gone and starts the step over.

Main definitions:

* `Pipeline`, `Pipeline.saltFor`, `Pipeline.digestFor` — a pipeline, and the keys of its entries;
* `Pipeline.ensureTranslated`, `Pipeline.ensureCompiled` — the two steps;
* `Pipeline.key`, `Pipeline.build` — the key of a build, and a whole build;
* `Pipeline.fromBinary`, `Pipeline.loadWith` — loading what was built before.
-/

import KernelCache.Build.Action
import KernelCache.Device.Identity
import KernelCache.Kernel.Manifest
import KernelCache.Lock
import KernelCache.Salt

set_option relaxedAutoImplicit false
set_option autoImplicit false

namespace KernelCache

/-- A pipeline: the store and the locks of a cache, the version of its translator, how long it waits
for a lock in nanoseconds, and how often it looks at one before it is considered stalled. -/
structure Pipeline where
  store : Store
  locks : LockTable
  version : String
  timeout : Option Nat
  patience : Nat
  deriving DecidableEq, Repr

/-- What a build has to know of its device. -/
structure DeviceView where
  id : Nat
  identity : Identity
  isOpen : Bool
  deriving DecidableEq, Repr

/-- A kernel to be built: the file and the function, and the flags. -/
structure Job where
  path : Path
  function : String
  flags : Flags
  deriving DecidableEq

namespace Pipeline

/-- A pipeline on the cache below a root, for a translator with given version and extension. -/
def atRoot (root : Path) (version extension : String) (timeout : Option Nat) (patience : Nat) :
    Pipeline :=
  ⟨Store.atRoot root extension, LockTable.atRoot root, version, timeout, patience⟩

/-! ### Keys -/

/-- The salt of a build, whose digest is the key of its entry. -/
def saltFor (p : Pipeline) (i : Identity) (flags : Flags) (source : Bytes) : Salt :=
  Salt.empty
    |>.component (Utf8.encode i.backend.tag)
    |>.optional (Utf8.encode flags.salt)
    |>.component (Utf8.encode p.version)
    |>.optional (Utf8.encode i.environmentScript)
    |>.component (Utf8.encode i.compiler)
    |>.component (Utf8.encode i.compilerFlags)
    |>.optional (Utf8.encode i.vendorHint)
    |>.component source

/-- The key for the file at a path. -/
def digestFor (p : Pipeline) (i : Identity) (flags : Flags) (path : Path) : BuildTask Digest := do
  let source ← BuildTask.files (readBytes path)
  return (p.saltFor i flags source).digest

/-! ### Locks -/

/-- The depth of the lock for translation. -/
def translationDepth : Nat := 0

/-- The depth of the lock for compilation. -/
def compilationDepth : Nat := 1

/-- Waits until a lock is gone. -/
def wait (p : Pipeline) (d : Digest) (depth : Nat) : BuildTask Unit :=
  BuildTask.files (match p.timeout with
    | some timeout => p.locks.waitAtMost d depth timeout p.patience
    | none => p.locks.wait d depth p.patience)

/-- Does something while holding a lock that was just taken.  If it fails the lock is given back
quietly; if not, a failure to give it back is a failure of the whole. -/
def holding {α : Type} (p : Pipeline) (d : Digest) (depth : Nat) (body : BuildTask α) :
    BuildTask α := do
  let a ← body.onFailure (BuildTask.quietly (p.locks.releaseQuietly d depth))
  BuildTask.files (p.locks.release d depth)
  return a

/-! ### Translation -/

/-- The text of a source, or the line on which it stops being text. -/
def sourceText (job : Job) (source : Bytes) : Except BuildError String :=
  match Utf8.toString? source with
  | some text => .ok text
  | none =>
    .error (.translation job.path job.function
      (.malformed job.path (Text.newlines (Utf8.soundStart source) + 1) .notText))

/-- What is to be translated for a job. -/
def request (i : Identity) (job : Job) (text : String) : TranslationRequest where
  source := text
  path := job.path
  backend := i.backend
  language := Language.ofPath job.path
  function := job.function
  flags := job.flags

/-- Translates the source and publishes the manifest and then the translated source, whose presence
marks the entry as translated. -/
def translateEntry (p : Pipeline) (i : Identity) (d : Digest) (job : Job) (source : Bytes) :
    BuildTask Unit := do
  let text ← ExceptT.mk (pure (sourceText job source))
  match ← BuildTask.translate (request i job text) with
  | .error e => throw (.translation job.path job.function e)
  | .ok t =>
    let manifest : Manifest := ⟨p.version, job.path.display, t.kernels⟩
    let _ ← BuildTask.files (p.store.put d .manifest manifest.toBytes)
    let _ ← BuildTask.files (p.store.put d .source (Utf8.encode t.source))

/-- Makes sure that the entry has its translated source. -/
def ensureTranslated (p : Pipeline) (i : Identity) (d : Digest) (job : Job) (source : Bytes) :
    (rounds : Nat) → BuildTask Unit
  | 0 => Task.stalled
  | rounds + 1 => do
    if ← BuildTask.files (p.store.contains d .source) then return
    if ← BuildTask.files (p.locks.acquire d translationDepth) then
      p.holding d translationDepth do
        if ← BuildTask.files (p.store.contains d .source) then return
        p.translateEntry i d job source
    else
      p.wait d translationDepth
      p.ensureTranslated i d job source rounds

/-! ### Compilation -/

/-- A failure to compile for a job. -/
def compileError (i : Identity) (job : Job) : DeviceError → BuildError
  | .compile _ _ diagnostics => .compile job.path job.function i.compilerFlags diagnostics
  | e => .ofDevice e

/-- Asks the device to compile the entry's source to a reserved file. -/
def compileTo (p : Pipeline) (i : Identity) (d : Digest) (job : Job) (output : Path) :
    BuildTask Unit := do
  match ← BuildTask.compile (p.store.path d .source) output with
  | .ok () => return
  | .error e => throw (compileError i job e)

/-- Compiles the entry's source and publishes the binary. -/
def compileEntry (p : Pipeline) (i : Identity) (d : Digest) (job : Job) : BuildTask Path := do
  let temp ← BuildTask.files (p.store.reserve d .binary)
  (p.compileTo i d job temp).onFailure (BuildTask.quietly (Store.discard temp))
  BuildTask.files (p.store.publish d .binary temp)

/-- Makes sure that the entry has its binary. -/
def ensureCompiled (p : Pipeline) (i : Identity) (d : Digest) (job : Job) :
    (rounds : Nat) → BuildTask Path
  | 0 => Task.stalled
  | rounds + 1 => do
    if let some binary ← BuildTask.files (p.store.verified d) then return binary
    if ← BuildTask.files (p.locks.acquire d compilationDepth) then
      p.holding d compilationDepth do
        if let some binary ← BuildTask.files (p.store.verified d) then return binary
        p.compileEntry i d job
    else
      p.wait d compilationDepth
      p.ensureCompiled i d job rounds

/-! ### Loading -/

/-- The manifest that the bytes of a file write. -/
def parseManifest (path : Path) (bytes : Bytes) : Except BuildError Manifest :=
  match Manifest.ofBytes? bytes with
  | some m => .ok m
  | none => .error (.cache (.corrupt path .unreadable))

/-- The manifest of an entry. -/
def readManifest (p : Pipeline) (d : Digest) : BuildTask Manifest := do
  let path := p.store.path d .manifest
  match ← BuildTask.files (p.store.get d .manifest) with
  | some bytes => ExceptT.mk (pure (parseManifest path bytes))
  | none => throw (.cache (.corrupt path .noManifest))

/-- What a manifest knows of a function; `path` is named if it knows nothing. -/
def findKernel (m : Manifest) (function : String) (path : Path) : Except BuildError Launch :=
  match m.kernels.get? function with
  | some l => .ok l
  | none => .error (.notFound function path)

/-- Loads a function from a binary. -/
def loadWith (view : DeviceView) (binary : Path) (function : String) (l : Launch) :
    BuildTask Kernel := do
  match ← BuildTask.load binary l with
  | .ok loaded => return ⟨view.id, function, binary, loaded⟩
  | .error e => throw (.ofDevice e)

/-- Loads a function from a binary that has its manifest beside it. -/
def fromBinary (view : DeviceView) (binary : Path) (function : String) : BuildTask Kernel := do
  let path := (binary.parent?.getD (Path.ofString ".")).child "manifest.json"
  let bytes ← BuildTask.files (readBytes path)
  let m ← ExceptT.mk (pure (parseManifest path bytes))
  let l ← ExceptT.mk (pure (findKernel m function binary))
  loadWith view binary function l

/-! ### Whole builds -/

/-- The key of a build whose file holds the given source. -/
def key (p : Pipeline) (view : DeviceView) (job : Job) (source : Bytes) : Digest :=
  (p.saltFor view.identity job.flags source).digest

/-- Builds and loads a kernel whose source has been read. -/
def buildFrom (p : Pipeline) (view : DeviceView) (job : Job) (source : Bytes) :
    BuildTask Kernel := do
  let d := p.key view job source
  p.ensureTranslated view.identity d job source p.patience
  let binary ← p.ensureCompiled view.identity d job p.patience
  let m ← p.readManifest d
  let l ← ExceptT.mk (pure (findKernel m job.function job.path))
  loadWith view binary job.function l

/-- Builds a kernel for a device and loads it. -/
def build (p : Pipeline) (view : DeviceView) (job : Job) : BuildTask Kernel := do
  if !view.isOpen then throw (.device .freed)
  let source ← BuildTask.files (readBytes job.path)
  p.buildFrom view job source

end Pipeline

end KernelCache
