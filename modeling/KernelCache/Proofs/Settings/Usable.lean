/-
**Which settings a build can use.**

A setting comes from the configuration, from the command line, from a variable of the environment
or from a default, and each way has a check of its own.  A configuration is refused for an empty
cache root; one that the command line gives is taken as it is.  A compiler that is set must not be
blank; one that the environment names need only not be empty.  All the rest is checked where the
settings are resolved, wherever they come from.

Main definition:

* `CommandLine.Invocation.rooted` — settings with the cache root of the command line.

Main results:

* `Settings.validate_eq_ok_iff` — what a configuration is checked for;
* `Settings.resolveRoot_eq_nil_iff`, `DeviceSettings.blank_of_resolveCompiler_iff` — where an empty
  root and a blank compiler come from;
* `CommandLine.usable_unless` — **which of the settings that are accepted cannot be used**.
-/

import Mathlib
import KernelCache.CommandLine.Run
import KernelCache.Proofs.Device.Identity
import KernelCache.Proofs.Files.Place

set_option relaxedAutoImplicit false
set_option autoImplicit false

namespace KernelCache

/-! ### The environment -/

/-- A variable counts only if it is not empty. -/
theorem Environment.ne_empty_of_firstOf {env : Environment} {names : List String} {v : String}
    (h : env.firstOf names = some v) : v ≠ "" := by
  have hv := List.find?_some h
  exact of_decide_eq_true hv

/-! ### Configurations -/

namespace Settings

/-- A configuration is checked for an empty cache root and for no threads. -/
theorem validate_eq_ok_iff {s t : Settings} :
    s.validate = .ok t ↔ t = s ∧ s.cacheRoot ≠ some ⟨[]⟩ ∧ s.device.threads ≠ some 0 := by
  rw [validate]
  split
  · next hroot => simp [hroot]
  · next hroot =>
      split
      · next hthreads => simp [hthreads]
      · next hthreads =>
          constructor
          · intro h
            exact ⟨(Except.ok.inj h).symm, hroot, hthreads⟩
          · rintro ⟨rfl, -, -⟩
            rfl

/-- Settings that are read from a text have passed the checks. -/
theorem checked_of_parse {text : String} {s : Settings} (h : parse text = .ok s) :
    s.cacheRoot ≠ some ⟨[]⟩ ∧ s.device.threads ≠ some 0 := by
  rw [parse] at h
  split at h
  · obtain ⟨rfl, hchecked⟩ := validate_eq_ok_iff.1 h
    exact hchecked
  · cases h

/-- A root is empty only if it is set and empty: neither a variable nor the default under the user's
directory is. -/
theorem resolveRoot_eq_nil_iff {root : Option Path} {env : Environment} {p : Path}
    (h : resolveRoot root env = .ok p) : p = ⟨[]⟩ ↔ root = some ⟨[]⟩ := by
  cases root with
  | some r =>
      obtain rfl := Except.ok.inj h
      rw [Option.some.injEq]
  | none =>
      have hne : p ≠ ⟨[]⟩ := by
        rw [resolveRoot] at h
        split at h
        · next dir hdir =>
            obtain rfl := Except.ok.inj h
            intro hp
            have hbytes := congrArg Path.bytes hp
            exact Environment.ne_empty_of_firstOf hdir (Utf8.encode_injective (t := "") hbytes)
        · split at h
          · have hplain : Plain (Utf8.encode "kiln") :=
              ⟨by decide, by decide, by decide, by decide⟩
            obtain rfl := Except.ok.inj h
            exact fun hp => Path.bytes_child_ne_nil hplain (congrArg Path.bytes hp)
          · cases h
      simp [hne]

end Settings

/-- A compiler is blank only if none is set and the environment names a blank one. -/
theorem DeviceSettings.blank_of_resolveCompiler_iff {s : DeviceSettings} {env : Environment}
    {compiler : String} (h : s.resolveCompiler env = .ok compiler) :
    Text.isBlankText compiler = true ↔ s.compiler = none ∧
      ∃ v, env.firstOf Environment.compilerNames = some v ∧ Text.isBlankText v = true := by
  rw [resolveCompiler] at h
  cases hset : s.compiler with
  | some c =>
      rw [hset] at h
      dsimp only at h
      split at h
      · cases h
      · next hblank =>
          obtain rfl := Except.ok.inj h
          simp [hblank]
  | none =>
      rw [hset] at h
      obtain rfl := Except.ok.inj h
      cases env.firstOf Environment.compilerNames with
      | some v => simp
      | none =>
          have hdefault : Text.isBlankText defaultCompiler = false := by decide
          simp [hdefault]

/-- A context has the root and the device to which the settings resolve. -/
theorem BuildContext.ofSettings_eq_ok_iff {s : Settings} {env : Environment} {c : BuildContext} :
    ofSettings s env = .ok c ↔
      Settings.resolveRoot s.cacheRoot env = .ok c.cacheRoot ∧ s.device.resolve env = .ok c.device
    := by
  rw [ofSettings]
  cases Settings.resolveRoot s.cacheRoot env with
  | error e => simp [Except.mapError, bind, Except.bind]
  | ok root =>
      cases s.device.resolve env with
      | error e => simp [Except.mapError, bind, Except.bind]
      | ok device =>
          cases c
          simp [Except.mapError, bind, Except.bind, pure, Except.pure]

/-! ### The command line -/

namespace CommandLine

/-- Settings with the cache root of the command line, if it gives one. -/
def Invocation.rooted (i : Invocation) (s : Settings) : Settings :=
  { s with cacheRoot := (i.cacheRoot.map Path.ofString).or s.cacheRoot }

/-- A run takes the settings that it reads with the cache root of its command line. -/
theorem Invocation.settings_eq (i : Invocation) : i.settings = (do
    let s ← Task.mapError CommandError.config (match i.configuration with
      | some file => Settings.load (Path.ofString file)
      | none => Settings.discover (Path.ofString "."))
    return i.rooted s) := rfl

theorem Invocation.rooted_eq_nil_iff {i : Invocation} {s : Settings}
    (h : s.cacheRoot ≠ some ⟨[]⟩) : (i.rooted s).cacheRoot = some ⟨[]⟩ ↔ i.cacheRoot = some "" := by
  have hempty (dir : String) : Path.ofString dir = ⟨[]⟩ ↔ dir = "" := by
    constructor
    · intro hdir
      exact Utf8.encode_injective (t := "") (congrArg Path.bytes hdir)
    · rintro rfl
      rfl
  rw [rooted]
  cases i.cacheRoot with
  | none => simpa using h
  | some dir => simp [hempty]

/-- **Which of the settings that are accepted cannot be used.**  A configuration is read, the
command line may give the cache root, the compiler and its flags, and the rest comes from the
environment or is the default.  If that is accepted, the number of threads is not zero and nothing
that goes into a key has a bar.  The cache root is empty exactly if the command line gives an empty
one, and the compiler is blank exactly if neither the command line nor the configuration sets it and
the first variable for it that is not empty is blank. -/
theorem usable_unless {text : String} {s : Settings} (hs : Settings.parse text = .ok s)
    (i : Invocation) (o : BuildOptions) (env : Environment) {c : BuildContext}
    (hc : BuildContext.ofSettings (o.override (i.rooted s)) env = .ok c) :
    (c.cacheRoot = ⟨[]⟩ ↔ i.cacheRoot = some "") ∧
    (Text.isBlankText c.device.compiler = true ↔
      o.compiler = none ∧ s.device.compiler = none ∧
        ∃ v, env.firstOf Environment.compilerNames = some v ∧ Text.isBlankText v = true) ∧
    c.device.threads ≠ some 0 ∧
    Text.Unbarred c.device.compiler ∧ Text.Unbarred c.device.compilerFlags ∧
    Text.Unbarred c.device.environmentScript ∧ Text.Unbarred c.device.vendorHint := by
  obtain ⟨hroot, hdevice⟩ := BuildContext.ofSettings_eq_ok_iff.1 hc
  obtain ⟨hcompiler, hthreads, hunbarred, hflags, hscript, hhint, hspec⟩ :=
    DeviceSettings.resolve_eq_ok_iff.1 hdevice
  obtain ⟨hnonempty, -⟩ := Settings.checked_of_parse hs
  refine ⟨?_, ?_, ?_, hunbarred, hflags, hscript, hhint⟩
  · rw [Settings.resolveRoot_eq_nil_iff hroot]
    exact Invocation.rooted_eq_nil_iff hnonempty
  · have hset : (o.override (i.rooted s)).device.compiler = o.compiler.or s.device.compiler := rfl
    rw [DeviceSettings.blank_of_resolveCompiler_iff hcompiler, hset, Option.or_eq_none_iff,
      and_assoc]
  · rw [hspec]
    exact hthreads

namespace Careless

/-- A configuration that leaves the compiler open. -/
def configuration : String := "[device]\nthreads = 4\n"

/-- What it says. -/
def settings : Settings := ⟨none, { DeviceSettings.unset with threads := some 4 }⟩

theorem parse_configuration : Settings.parse configuration = .ok settings := by
  cbv

/-- A command line with an empty cache root. -/
def emptyRoot : Invocation := ⟨false, none, some "", .config⟩

/-- A command line without a cache root. -/
def noRoot : Invocation := ⟨false, none, none, .config⟩

/-- A build that says nothing about its compiler. -/
def plainBuild : BuildOptions := ⟨"k.c", "f", none, none, none, [], none⟩

/-- An environment with a user's directory. -/
def home : Environment := SortedMap.ofList [("HOME", "/h")]

/-- The same with a blank compiler. -/
def blankCompiler : Environment := SortedMap.ofList [("CXX", " "), ("HOME", "/h")]

/-- The context with a cache root and a compiler, and defaults for the rest. -/
def context (root : Path) (compiler : String) : BuildContext :=
  ⟨root, ⟨.serial, compiler, "-g", "", "", some 4⟩⟩

theorem accepted_emptyRoot :
    BuildContext.ofSettings (plainBuild.override (emptyRoot.rooted settings)) home =
      .ok (context ⟨[]⟩ "g++") := by
  cbv

theorem accepted_blankCompiler :
    BuildContext.ofSettings (plainBuild.override (noRoot.rooted settings)) blankCompiler =
      .ok (context (.ofString "/h/.cache/kiln") " ") := by
  cbv

/-- With a blank compiler in the environment the cache root can be used and the compiler cannot. -/
theorem blank_compiler_unusable :
    Settings.parse configuration = .ok settings ∧
    (context (.ofString "/h/.cache/kiln") " ").cacheRoot ≠ ⟨[]⟩ ∧
    Text.isBlankText (context (.ofString "/h/.cache/kiln") " ").device.compiler = true := by
  obtain ⟨hroot, hcompiler, -⟩ :=
    usable_unless parse_configuration noRoot plainBuild blankCompiler accepted_blankCompiler
  refine ⟨parse_configuration, fun hempty => ?_, hcompiler.2 ⟨rfl, rfl, " ", by cbv, by decide⟩⟩
  exact absurd (hroot.1 hempty) (by decide)

/-- An empty cache root of the command line is accepted, and so is a blank compiler of the
environment. -/
theorem unusable_accepted :
    Settings.parse configuration = .ok settings ∧
    (∃ c, BuildContext.ofSettings (plainBuild.override (emptyRoot.rooted settings)) home = .ok c ∧
      c.cacheRoot = ⟨[]⟩) ∧
    ∃ c, BuildContext.ofSettings (plainBuild.override (noRoot.rooted settings)) blankCompiler =
      .ok c ∧ Text.isBlankText c.device.compiler = true :=
  ⟨parse_configuration, ⟨_, accepted_emptyRoot, rfl⟩, ⟨_, accepted_blankCompiler, by decide⟩⟩

end Careless

end CommandLine

end KernelCache
