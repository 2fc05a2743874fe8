/-
**Compiling and loading.**

A device compiles and loads in one of two ways.  The native way runs the compiler of the device's
toolchain; what it loads must be a shared library, and in this world of files nothing is one.  The
simulated way marks the source and calls that a binary, and can be told to fail.

Main definitions:

* `CompileCommand.run` — running a compiler;
* `Engine`, `Engine.compile`, `Engine.load` — the two ways;
* `Engine.compileAndLoad` — one after the other.
-/

import KernelCache.Device.Basic
import KernelCache.Shell.Run

set_option relaxedAutoImplicit false
set_option autoImplicit false

namespace KernelCache

namespace CompileCommand

/-- What a compiler that failed has to say: its messages, and its output if it is not blank. -/
def diagnostics (r : Shell.Outcome) : String :=
  let out := Utf8.display r.out
  Utf8.display r.err ++ (if Text.isBlankText out then "" else out)

/-- Starts the command, in a shell if there is a script. -/
def start (c : CompileCommand) (files : FileSystem) : Except Failure Shell.Outcome :=
  if c.hasScript then .ok (Shell.sh Shell.nesting (.ofFiles files) ["-c", c.shellText])
  else Shell.spawn files c.compiler c.arguments

/-- Runs the command on a source. -/
def run (c : CompileCommand) (source : Path) (files : FileSystem) :
    Except DeviceError Unit × FileSystem :=
  match c.start files with
  | .error e => (.error (.spawn c.line e), files)
  | .ok r =>
    (if r.status = 0 then .ok () else .error (.compile source c.line (diagnostics r)), r.files)

end CompileCommand

/-- How a simulated compiler fails: with diagnostics, for want of a compiler, or as if the device
were freed. -/
inductive SimulatedFault where
  | diagnostics
  | noCompiler
  | freed
  deriving DecidableEq, Repr

/-- How a device compiles and loads. -/
inductive Engine where
  | native
  | simulated (fault : Option SimulatedFault)
  deriving DecidableEq, Repr

namespace Engine

/-- What a simulated binary starts with. -/
def mark : Bytes := Utf8.encode "FAKEBIN\x00"

/-- Marks a source and writes it to the output. -/
def markSource (source output : Path) (files : FileSystem) :
    Except DeviceError Unit × FileSystem :=
  match files.readFile source >>= fun bytes => files.writeFile output (mark ++ bytes) with
  | .ok files => (.ok (), files)
  | .error e => (.error (.load source ("fake compiler: " ++ e.message)), files)

/-- The effect of a simulated compiler. -/
def simulate (fault : Option SimulatedFault) (source output : Path) (files : FileSystem) :
    Except DeviceError Unit × FileSystem :=
  match fault with
  | some .diagnostics =>
    (.error (.compile source "fake-cc" "source.c:1:1: error: fake failure"), files)
  | some .noCompiler => (.error (.config .noCompiler), files)
  | some .freed => (.error .freed, files)
  | none => markSource source output files

/-- Compiles a source to a binary. -/
def compile (e : Engine) (d : Device) (source output : Path) (files : FileSystem) :
    Except DeviceError Unit × FileSystem :=
  match d.ensureOpen with
  | .error err => (.error err, files)
  | .ok () =>
    match e with
    | .native => (CompileCommand.make d.identity source output).run source files
    | .simulated fault => simulate fault source output files

/-- Whether compiling calls a simulated compiler. -/
def countsCompile (e : Engine) (d : Device) : Bool :=
  match e with
  | .native => false
  | .simulated _ => d.isOpen

/-- Loads a kernel from a binary.  A simulated device loads even when it is freed. -/
def load (e : Engine) (d : Device) (binary : Path) (l : Launch) (files : FileSystem) :
    Except DeviceError Loaded :=
  match e with
  | .native => do
    d.ensureOpen
    throw (.load binary "")
  | .simulated _ =>
    match files.readFile binary with
    | .error err => .error (.load binary ("fake loader: " ++ err.message))
    | .ok bytes =>
      if mark.isPrefixOf bytes then .ok (Loaded.ofLaunch l)
      else .error (.load binary "fake loader: bad magic")

/-- Compiles a source and loads a kernel from the binary. -/
def compileAndLoad (e : Engine) (d : Device) (source output : Path) (l : Launch)
    (files : FileSystem) : Except DeviceError Loaded × FileSystem :=
  match e.compile d source output files with
  | (.ok (), files) => (e.load d output l files, files)
  | (.error err, files) => (.error err, files)

end Engine

end KernelCache
