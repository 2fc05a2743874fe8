/-
**What a build may ask for.**

Besides the atomic file operations a build asks for translations, and asks its device to compile and
to load.  Each of these is one action here, whatever the device makes of it.

Main definitions:

* `BuildAction`, `BuildAction.Reply` — the actions and the types of their answers;
* `BuildTask` — builds, or parts of them;
* `BuildTask.files`, `BuildTask.translate`, `BuildTask.compile`, `BuildTask.load` — the smallest
  ones.
-/

import KernelCache.Build.Error
import KernelCache.Device.Kernel
import KernelCache.Files.Action

set_option relaxedAutoImplicit false
set_option autoImplicit false

namespace KernelCache

/-- A request of a build. -/
inductive BuildAction where
  | file (a : Action)
  | translate (r : TranslationRequest)
  | compile (source output : Path)
  | load (binary : Path) (l : Launch)

/-- The type of the answer to a request. -/
def BuildAction.Reply : BuildAction → Type
  | .file a => a.Reply
  | .translate _ => Except TranslateError Translation
  | .compile .. => Except DeviceError Unit
  | .load .. => Except DeviceError Loaded

/-- A build, or a part of one. -/
abbrev BuildTask (α : Type) := Task BuildAction BuildAction.Reply BuildError α

namespace BuildTask

/-- A program over files as a part of a build. -/
def quietly (p : FileProgram Unit) : Program BuildAction BuildAction.Reply Unit :=
  p.embed BuildAction.file fun _ r => r

/-- A task of the cache as a part of a build. -/
def files {α : Type} (t : FileTask CacheError α) : BuildTask α :=
  ExceptT.mk do
    match ← Program.embed BuildAction.file (fun _ r => r) t.run with
    | .ok a => return .ok a
    | .error e => return .error (.ofCache e)

/-- Asks for a translation. -/
def translate (r : TranslationRequest) :
    Program BuildAction BuildAction.Reply (Except TranslateError Translation) :=
  Program.act (BuildAction.translate r)

/-- Asks the device to compile. -/
def compile (source output : Path) :
    Program BuildAction BuildAction.Reply (Except DeviceError Unit) :=
  Program.act (BuildAction.compile source output)

/-- Asks the device to load. -/
def load (binary : Path) (l : Launch) :
    Program BuildAction BuildAction.Reply (Except DeviceError Loaded) :=
  Program.act (BuildAction.load binary l)

end BuildTask

end KernelCache
