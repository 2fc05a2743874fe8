/-
**What a process may ask of the machine.**

The actions are the atomic file operations, the clock, and the notes that a process keeps of the
lock directories it has made.  A machine is the state that all processes share; a process adds its
own notes to it.

Main definitions:

* `Action`, `Action.Reply` — the actions and the types of their answers;
* `Machine`, `Process` — the shared state and one process's view of it;
* `Process.perform` — the effect of an action;
* `Process.runTask`, `Machine.runAs` — the effect of a task;
* `FileProgram`, `FileTask`, `Ask` — programs and tasks over these actions, and the smallest ones.
-/

import KernelCache.Files.Tree
import KernelCache.Program

set_option relaxedAutoImplicit false
set_option autoImplicit false

namespace KernelCache

/-- An atomic request of a process. -/
inductive Action where
  | look (p : Path)
  | read (p : Path)
  | names (p : Path)
  | makeDirectory (p : Path)
  | removeDirectory (p : Path)
  | createFresh (dir : Path) (stem : String)
  | write (p : Path) (contents : Bytes)
  | removeFile (p : Path)
  | move (source target : Path)
  | now
  | sleep (duration : Nat)
  | hold (lock : Path)
  | letGo (lock : Path)
  | held
  deriving DecidableEq, Repr

/-- The type of the answer to an action. -/
def Action.Reply : Action → Type
  | .look _ => Except Failure Node
  | .read _ => Except Failure Bytes
  | .names _ => Except Failure (List Bytes)
  | .makeDirectory _ => Except Failure Unit
  | .removeDirectory _ => Except Failure Unit
  | .createFresh .. => Except Failure Path
  | .write .. => Except Failure Unit
  | .removeFile _ => Except Failure Unit
  | .move .. => Except Failure Unit
  | .now => Nat
  | .sleep _ => Unit
  | .hold _ => Unit
  | .letGo _ => Unit
  | .held => List Path

/-- The state that processes share: the files, a counter for fresh names, the time in nanoseconds,
and directories that someone else will remove at a given time. -/
structure Machine where
  files : FileSystem
  fresh : Nat
  clock : Nat
  due : List (Nat × Path)
  deriving DecidableEq, Inhabited

/-- A machine without files. -/
def Machine.empty : Machine := ⟨.empty, 0, 0, []⟩

/-- Removes the directories whose time has come. -/
def Machine.settle (m : Machine) : Machine :=
  let (ripe, later) := m.due.partition fun e => decide (e.1 ≤ m.clock)
  { m with
    due := later
    files := ripe.foldl (fun fs e => match fs.removeDirectory e.2 with
      | .ok fs => fs
      | .error _ => fs) m.files }

/-- One process's view of the machine, with the lock directories that it has made. -/
structure Process where
  machine : Machine
  held : SortedMap Path Unit
  deriving DecidableEq

/-- A process on a machine that has made no lock directory. -/
def Process.fresh (m : Machine) : Process := ⟨m, .empty⟩

/-- Keeps the files that a change gives, if it succeeds. -/
def Process.change (s : Process) (r : Except Failure FileSystem) :
    Except Failure Unit × Process :=
  match r with
  | .ok fs => (.ok (), { s with machine := { s.machine with files := fs } })
  | .error e => (.error e, s)

/-- The effect of an action. -/
def Process.perform : (a : Action) → Process → a.Reply × Process
  | .look p, s => ((s.machine.files.lookup p).map (·.2), s)
  | .read p, s => (s.machine.files.readFile p, s)
  | .names p, s => (s.machine.files.names p, s)
  | .makeDirectory p, s => s.change (s.machine.files.makeDirectory p)
  | .removeDirectory p, s => s.change (s.machine.files.removeDirectory p)
  | .createFresh dir stem, s =>
    match s.machine.files.createFresh dir stem s.machine.fresh with
    | .ok (p, fs) =>
      (.ok p, { s with machine := { s.machine with files := fs, fresh := s.machine.fresh + 1 } })
    | .error e => (.error e, s)
  | .write p contents, s => s.change (s.machine.files.writeFile p contents)
  | .removeFile p, s => s.change (s.machine.files.removeFile p)
  | .move source target, s => s.change (s.machine.files.moveFile source target)
  | .now, s => (s.machine.clock, s)
  | .sleep d, s =>
    ((), { s with machine := Machine.settle { s.machine with clock := s.machine.clock + d } })
  | .hold lock, s => ((), { s with held := s.held.insert lock () })
  | .letGo lock, s => ((), { s with held := s.held.erase lock })
  | .held, s => (s.held.keys, s)

/-- Tasks over these actions. -/
abbrev FileTask (ε α : Type) := Task Action Action.Reply ε α

/-- Programs over these actions. -/
abbrev FileProgram (α : Type) := Program Action Action.Reply α

/-! ### Asking for one action -/

namespace Ask

/-- The node at a path. -/
def look (p : Path) : FileProgram (Except Failure Node) := Program.act (Action.look p)

/-- The contents of a file. -/
def read (p : Path) : FileProgram (Except Failure Bytes) := Program.act (Action.read p)

/-- The names in a directory. -/
def names (p : Path) : FileProgram (Except Failure (List Bytes)) := Program.act (Action.names p)

/-- Makes a directory where nothing is. -/
def makeDirectory (p : Path) : FileProgram (Except Failure Unit) :=
  Program.act (Action.makeDirectory p)

/-- Removes an empty directory. -/
def removeDirectory (p : Path) : FileProgram (Except Failure Unit) :=
  Program.act (Action.removeDirectory p)

/-- Creates an empty file under a name that was not in use. -/
def createFresh (dir : Path) (stem : String) : FileProgram (Except Failure Path) :=
  Program.act (Action.createFresh dir stem)

/-- Writes a file. -/
def write (p : Path) (contents : Bytes) : FileProgram (Except Failure Unit) :=
  Program.act (Action.write p contents)

/-- Removes a file. -/
def removeFile (p : Path) : FileProgram (Except Failure Unit) := Program.act (Action.removeFile p)

/-- Moves a file, over a file that is at its new place. -/
def move (source target : Path) : FileProgram (Except Failure Unit) :=
  Program.act (Action.move source target)

/-- The time in nanoseconds. -/
def now : FileProgram Nat := Program.act Action.now

/-- Lets some time pass. -/
def sleep (duration : Nat) : FileProgram Unit := Program.act (Action.sleep duration)

/-- Notes a lock directory as made by this process. -/
def hold (lock : Path) : FileProgram Unit := Program.act (Action.hold lock)

/-- Strikes a lock directory from the notes. -/
def letGo (lock : Path) : FileProgram Unit := Program.act (Action.letGo lock)

/-- The lock directories in the notes. -/
def held : FileProgram (List Path) := Program.act Action.held

end Ask

/-- Runs a task in a process. -/
def Process.runTask {ε α : Type} (s : Process) (t : FileTask ε α) :
    Option (Except ε α) × Process :=
  Program.run Process.perform t.run s

/-- Runs a task on a machine, in a process with given notes of its lock directories. -/
def Machine.runAs {ε α : Type} (m : Machine) (notes : SortedMap Path Unit) (t : FileTask ε α) :
    Option (Except ε α) × Machine × SortedMap Path Unit :=
  let (r, s) := Process.runTask ⟨m, notes⟩ t
  (r, s.machine, s.held)

end KernelCache
