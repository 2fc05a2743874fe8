/-
**Where builds run.**

A workplace is one process on a machine, with a device and its way of compiling.  It answers the
requests of a build and counts the calls of the translator and of simulated compilers.

Main definitions:

* `Workplace`, `Workplace.perform` — workplaces and the effect of a request;
* `Workplace.runTask` — running a build.
-/

import KernelCache.Build.Pipeline
import KernelCache.Device.Engine

set_option relaxedAutoImplicit false
set_option autoImplicit false

namespace KernelCache

/-- A process with a device, and the calls of translator and simulated compilers so far. -/
structure Workplace where
  process : Process
  device : Device
  engine : Engine
  translations : Nat
  compiles : Nat

namespace Workplace

/-- The files of the machine. -/
def files (w : Workplace) : FileSystem := w.process.machine.files

/-- The workplace with other files. -/
def withFiles (w : Workplace) (files : FileSystem) : Workplace :=
  { w with process := { w.process with machine := { w.process.machine with files := files } } }

/-- The effect of a request. -/
def perform : (a : BuildAction) → Workplace → a.Reply × Workplace
  | .file a, w =>
    let (r, process) := w.process.perform a
    (r, { w with process := process })
  | .translate r, w => (KernelCache.translate r, { w with translations := w.translations + 1 })
  | .compile source output, w =>
    let (r, files) := w.engine.compile w.device source output w.files
    let called := if w.engine.countsCompile w.device then 1 else 0
    (r, { w.withFiles files with compiles := w.compiles + called })
  | .load binary l, w => (w.engine.load w.device binary l w.files, w)

/-- Runs a build. -/
def runTask {α : Type} (w : Workplace) (t : BuildTask α) :
    Option (Except BuildError α) × Workplace :=
  Program.run perform t.run w

/-- What a build has to know of the device. -/
def view (w : Workplace) : DeviceView := ⟨w.device.id, w.device.identity, w.device.isOpen⟩

end Workplace

end KernelCache
