/-
**Running a command line.**

A command first reads settings and, but for builds, does all its work with files.  A build goes on
with the device that the settings describe.

Main definitions:

* `Report` — what the program prints and with which status it ends;
* `CommandError` — why a command failed;
* `Invocation.settings`, `BuildOptions.override` — settings, and what the command line changes;
* `Plan`, `Invocation.plan`, `BuildPlan.task` — the two parts of a command;
* `run` — a whole run on a machine.
-/

import KernelCache.Build.Context
import KernelCache.Build.Workplace
import KernelCache.CommandLine.Options

set_option relaxedAutoImplicit false
set_option autoImplicit false

namespace KernelCache.CommandLine

/-! ### Reports -/

/-- What the program prints and with which status it ends. -/
structure Report where
  status : Nat
  out : String
  err : String
  deriving DecidableEq, Repr

/-- The name and the version of the program. -/
def programName : String := "kiln 0.1.0"

/-- How the program is used. -/
def usage : String :=
  "Usage: kiln [-q] [-v] [--config FILE] [--cache-dir DIR] COMMAND\n\n" ++
  "Commands:\n" ++
  "  build SOURCE FUNCTION [-b BACKEND] [--compiler C] [--flags F] [-D NAME[=VALUE]]... " ++
    "[--timeout SECONDS]\n" ++
  "  hash FILE [--salt SALT]\n" ++
  "  locks\n" ++
  "  config\n"

namespace Report

/-- The report of success. -/
def success (out : String) : Report := ⟨0, out, ""⟩

/-- The report of a refusal. -/
def ofRefusal : Refusal → Report
  | .help => ⟨0, usage, ""⟩
  | .version => ⟨0, programName ++ "\n", ""⟩
  | .misuse => ⟨2, "", usage⟩

end Report

/-- Why a command failed. -/
inductive CommandError where
  | config (cause : ConfigError)
  | cache (cause : CacheError)
  | build (cause : BuildError)
  deriving DecidableEq, Repr

namespace CommandError

/-- The text of a failure. -/
def message : CommandError → String
  | .config cause => cause.message
  | .cache cause => cause.message
  | .build cause => cause.message

/-- The status of a failure.  A source that the translator cannot cut between characters ends the
program abnormally. -/
def status : CommandError → Nat
  | .build (.translation _ _ (.insideCharacter _)) => 101
  | _ => 1

/-- The report of a failure. -/
def report (e : CommandError) : Report := ⟨e.status, "", "error: " ++ e.message ++ "\n"⟩

end CommandError

/-! ### Settings -/

/-- The settings of the file that is named, or of the working directory.  A cache root on the command
line comes before one in the settings. -/
def Invocation.settings (i : Invocation) : FileTask CommandError Settings := do
  let s ← Task.mapError CommandError.config (match i.configuration with
    | some file => Settings.load (Path.ofString file)
    | none => Settings.discover (Path.ofString "."))
  return { s with cacheRoot := (i.cacheRoot.map Path.ofString).or s.cacheRoot }

/-- The settings with what a build is told on the command line. -/
def BuildOptions.override (o : BuildOptions) (s : Settings) : Settings :=
  let device := { s.device with
    backend := o.backend.getD s.device.backend
    compiler := o.compiler.or s.device.compiler
    compilerFlags := o.compilerFlags.or s.device.compilerFlags }
  { s with device := device }

/-- The context that settings give. -/
def contextOf (s : Settings) (env : Environment) : FileTask CommandError BuildContext :=
  ExceptT.mk (pure ((BuildContext.ofSettings s env).mapError CommandError.build))

/-! ### Definitions of a build -/

/-- Text without the blanks around it. -/
def trimmed (cs : List Char) : String := String.ofList (Text.trim cs)

/-- Adds a definition, `NAME=VALUE` or `NAME`, to flags. -/
def addDefinition (f : Flags) (text : String) : Flags :=
  let name := text.toList.takeWhile (· ≠ '=')
  f.define (trimmed name) (trimmed (text.toList.drop (name.length + 1)))

/-- The flags that definitions make. -/
def definitions (texts : List String) : Flags := texts.foldl addDefinition Flags.none

/-! ### Commands that only need files -/

/-- The digest of a file and its name. -/
def hashFile (file salt : String) : FileTask CommandError Report := do
  let bytes ← Task.mapError CommandError.cache (readBytes (Path.ofString file))
  return .success ((Digest.salted bytes (Utf8.encode salt)).toText ++ "  " ++ file ++ "\n")

/-- The line of a lock that is taken. -/
def lockLine (e : LockTable.Entry) : String :=
  LockTable.name e.digest e.depth ++ "  " ++ e.path.display ++ "\n"

/-- The locks that are taken, and how many. -/
def listLocks (i : Invocation) (root : Path) : FileTask CommandError Report := do
  let locks ← Task.mapError CommandError.cache (LockTable.atRoot root).entries
  let summary := Decimal.text locks.length ++ " lock(s) under " ++ root.display ++ "\n"
  return ⟨0, String.join (locks.map lockLine), if i.quiet then "" else summary⟩

/-- A number of threads, if one is set. -/
def threadsJson : Option Nat → Json
  | some n => .number (Utf8.encode (Decimal.text n))
  | none => .null

/-- The document of resolved settings, with its keys in order. -/
def contextJson (c : BuildContext) : Json :=
  let device : Json := .object
    [(Json.escape "backend", Json.ofString c.device.backend.tag),
      (Json.escape "compiler", Json.ofString c.device.compiler),
      (Json.escape "compiler_env_script", Json.ofString c.device.environmentScript),
      (Json.escape "compiler_flags", Json.ofString c.device.compilerFlags),
      (Json.escape "threads", threadsJson c.device.threads),
      (Json.escape "vendor_hint", Json.ofString c.device.vendorHint)]
  .object
    [(Json.escape "cache_root", Json.ofString c.cacheRoot.display), (Json.escape "device", device)]

/-- The resolved settings. -/
def showContext (c : BuildContext) : Report :=
  .success (Utf8.display (contextJson c).pretty ++ "\n")

/-! ### Builds -/

/-- A build that only needs its device. -/
structure BuildPlan where
  context : BuildContext
  pipeline : Pipeline
  job : Job
  quiet : Bool

/-- The plan of a build. -/
def BuildOptions.plan (o : BuildOptions) (c : BuildContext) (quiet : Bool) (patience : Nat) :
    BuildPlan where
  context := c
  pipeline := Pipeline.atRoot c.cacheRoot Translation.version "c" (o.timeout.map (· * Duration.second))
    patience
  job := ⟨Path.ofString o.source, o.function, definitions o.defines⟩
  quiet := quiet

/-- What is said of a kernel that was built. -/
def describeKernel (i : Identity) (d : Digest) (root : Path) (k : Kernel) : String :=
  i.describe ++ "\n" ++
  "digest  " ++ d.toText ++ "\n" ++
  "binary  " ++ k.binary.shorten root ++ "\n" ++
  "entry   " ++ k.loaded.entry ++ " (" ++ Decimal.text k.loaded.arguments.length ++ " args)\n"

/-- The build itself. -/
def BuildPlan.task (b : BuildPlan) (view : DeviceView) : BuildTask Report := do
  let d ← b.pipeline.digestFor view.identity b.job.flags b.job.path
  let k ← b.pipeline.build view b.job
  return .success (if b.quiet then "" else describeKernel view.identity d b.context.cacheRoot k)

/-! ### Whole runs -/

/-- What is left of a command after its work with files. -/
inductive Plan where
  | report (r : Report)
  | build (b : BuildPlan)

/-- The part of a command that only needs files. -/
def Invocation.plan (i : Invocation) (env : Environment) (patience : Nat) :
    FileTask CommandError Plan := do
  match i.command with
  | .hash file salt => return .report (← hashFile file salt)
  | .locks =>
    let c ← contextOf (← i.settings) env
    return .report (← listLocks i c.cacheRoot)
  | .config => return .report (showContext (← contextOf (← i.settings) env))
  | .build o =>
    let c ← contextOf (o.override (← i.settings)) env
    return .build (o.plan c i.quiet patience)

/-- The report of a build. -/
def Report.ofBuild : Except BuildError Report → Report
  | .ok r => r
  | .error e => (CommandError.build e).report

/-- Runs a build on a device of its own. -/
def BuildPlan.run (b : BuildPlan) (m : Machine) : Option Report × Machine :=
  let w : Workplace := ⟨Process.fresh m, Device.open 0 b.context.device, .native, 0, 0⟩
  let (r, w) := w.runTask (b.task w.view)
  (r.map Report.ofBuild, w.process.machine)

/-- Runs a command line on a machine.  A run that waits for ever has no report. -/
def run (words : List String) (env : Environment) (patience : Nat) (m : Machine) :
    Option Report × Machine :=
  match Invocation.ofWords words with
  | .error refusal => (some (Report.ofRefusal refusal), m)
  | .ok i =>
    match m.runAs .empty (i.plan env patience) with
    | (none, m, _) => (none, m)
    | (some (.error e), m, _) => (some e.report, m)
    | (some (.ok (.report r)), m, _) => (some r, m)
    | (some (.ok (.build b)), m, _) => b.run m

end KernelCache.CommandLine
