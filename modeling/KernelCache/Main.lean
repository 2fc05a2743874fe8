/-
**The program.**

Carries the requests of a command line out on the files of the machine it runs on.  It starts no
other program and loads no library, so a build gets as far as its compiler, or as a binary that was
built before.

Main definitions:

* `Disk.perform`, `Disk.carryOut` — requests for files, and whole programs of them;
* `Disk.performBuild` — requests of a build;
* `main` — the program.
-/

import KernelCache.CommandLine.Run

set_option relaxedAutoImplicit false
set_option autoImplicit false

namespace KernelCache.Disk

/-! ### Failures -/

/-- The failure of a number of the system.  What is not told apart counts as a refusal. -/
def failureOfCode : UInt32 → Failure
  | 2 => .notFound
  | 17 => .alreadyExists
  | 20 => .notADirectory
  | 21 => .isADirectory
  | 39 => .notEmpty
  | _ => .permissionDenied

/-- The number in an error of the system, as some of its calls give it. -/
def signedCode : IO.Error → UInt32
  | .noFileOrDirectory _ code _ => code
  | .alreadyExists _ code _ => code
  | .inappropriateType _ code _ => code
  | .permissionDenied _ code _ => code
  | .unsatisfiedConstraints code _ => code
  | .otherError code _ => code
  | _ => 13

/-- The number in an error of the system; some calls give its negative. -/
def codeOf (e : IO.Error) : UInt32 :=
  let code := signedCode e
  if code < 0x80000000 then code else 0 - code

/-- Does something that may fail. -/
def attempt {α : Type} (act : IO α) : IO (Except Failure α) := do
  try return .ok (← act)
  catch e => return .error (failureOfCode (codeOf e))

/-! ### Requests for files -/

/-- The node at a path. -/
def look (p : Path) : IO (Except Failure Node) := do
  match ← attempt (IO.FS.readBinFile p.display) with
  | .ok bytes => return .ok (.file bytes.toList)
  | .error .isADirectory => return .ok .directory
  | .error e => return .error e

/-- The names in a directory. -/
def names (p : Path) : IO (List Bytes) := do
  let entries ← (← IO.FS.realPath p.display).readDir
  return entries.toList.map fun e => Utf8.encode e.fileName

/-- Creates an empty file under a fresh name, in so many tries. -/
def createFresh (dir : Path) (stem : String) : (tries : Nat) → IO (Except Failure Path)
  | 0 => return .error .alreadyExists
  | tries + 1 => do
    let p := dir.child (stem ++ FileSystem.freshTail (← IO.rand 0 999999))
    match ← attempt (IO.FS.Handle.mk p.display .writeNew) with
    | .ok _ => return .ok p
    | .error .alreadyExists => createFresh dir stem tries
    | .error e => return .error e

/-- How often a fresh name is tried. -/
def freshTries : Nat := 1000

/-- Carries out a request, with the notes of lock directories for its state. -/
def perform : (a : Action) → StateT (SortedMap Path Unit) IO a.Reply
  | .look p => look p
  | .read p => attempt do return (← IO.FS.readBinFile p.display).toList
  | .names p => attempt (names p)
  | .makeDirectory p => attempt (IO.FS.createDir p.display)
  | .removeDirectory p => attempt (IO.FS.removeDir p.display)
  | .createFresh dir stem => createFresh dir stem freshTries
  | .write p contents => attempt (IO.FS.writeBinFile p.display ⟨contents.toArray⟩)
  | .removeFile p => attempt (IO.FS.removeFile p.display)
  | .move source target => attempt (IO.FS.rename source.display target.display)
  | .now => IO.monoNanosNow
  | .sleep duration =>
    -- the primitive sleeps whole milliseconds, and a sleep may be longer than asked for
    IO.sleep ((duration + Duration.millisecond - 1) / Duration.millisecond).toUInt32
  | .hold lock => modify fun notes => notes.insert lock ()
  | .letGo lock => modify fun notes => notes.erase lock
  | .held => return (← get).keys

/-- Carries out a program. -/
def carryOut {A : Type} {R : A → Type} {σ α : Type} (handle : (a : A) → StateT σ IO (R a)) :
    Program A R α → StateT σ IO (Option α)
  | .done a => return some a
  | .ask action next => do
    let r ← handle action
    carryOut handle (next r)
  | .stalled => return none

/-! ### Requests of a build -/

/-- Carries out a request of a build on a device. -/
def performBuild (d : Device) : (a : BuildAction) → StateT (SortedMap Path Unit) IO a.Reply
  | .file a => perform a
  | .translate r => return KernelCache.translate r
  | .compile source output =>
    return .error (.spawn (CompileCommand.make d.identity source output).line .permissionDenied)
  | .load binary _ => return .error (.load binary "")

/-! ### Command lines -/

/-- The variables that matter, as far as they are set. -/
def environment : IO Environment := do
  let values ← Environment.names.filterMapM fun name => do
    return (← IO.getEnv name).map fun value => (name, value)
  return SortedMap.ofList values

/-- How often a lock is looked at before a run counts as stalled. -/
def patience : Nat := 0x1000000000000000

/-- The report of a run that waits for ever. -/
def stalled : CommandLine.Report := ⟨1, "", "error: waited too long\n"⟩

/-- What is left of a command after its work with files. -/
def finish : CommandLine.Plan → IO CommandLine.Report
  | .report r => return r
  | .build b => do
    let d := Device.open 0 b.context.device
    let task := b.task ⟨d.id, d.identity, d.isOpen⟩
    let (r, _) ← (carryOut (performBuild d) task.run).run .empty
    return (r.map CommandLine.Report.ofBuild).getD stalled

/-- Runs a command. -/
def invoke (i : CommandLine.Invocation) : IO CommandLine.Report := do
  let (r, _) ← (carryOut perform (i.plan (← environment) patience).run).run .empty
  match r with
  | none => return stalled
  | some (.error e) => return e.report
  | some (.ok plan) => finish plan

end KernelCache.Disk

/-- Runs the command line that the words make up. -/
def main (words : List String) : IO UInt32 := do
  let report ← match KernelCache.CommandLine.Invocation.ofWords words with
    | .ok i => KernelCache.Disk.invoke i
    | .error refusal => pure (KernelCache.CommandLine.Report.ofRefusal refusal)
  (← IO.getStdout).putStr report.out
  (← IO.getStderr).putStr report.err
  return report.status.toUInt32
