/-
**Compilers and loaders that do the same every time.**

A toolkit is how devices compile and load.  It is deterministic if what becomes of a source depends
on the device's identity and on the source alone, and what is loaded on the binary and the launch.

Main definitions:

* `Toolkit`, `Toolkit.Deterministic` — toolkits;
* `Toolkit.perform`, `Toolkit.build` — what a process does that builds with a toolkit;
* `Toolkit.ofEngine` — the toolkit of an engine.

Main results:

* `solo_compile_ok`, `solo_compile_error` — compiling in an entry;
* `Engine.deterministic_simulated` — simulated compilers are deterministic;
* `Workplace.run_eq` — **a workplace does what a process does that uses its engine**.
-/

import KernelCache.Build.Workplace
import KernelCache.Proofs.Build.Request
import KernelCache.Proofs.Solo.Store

set_option relaxedAutoImplicit false
set_option autoImplicit false

namespace KernelCache

/-- How devices compile and load: the answers, and the files afterwards. -/
structure Toolkit where
  compile : Identity → (source output : Path) → FileSystem → Except DeviceError Unit × FileSystem
  load : Identity → (binary : Path) → Launch → FileSystem → Except DeviceError Loaded

namespace Toolkit

/-- What becomes of a source depends on the identity of the device and the source, and the compiler
writes its output only.  What is loaded depends on the binary and the launch. -/
structure Deterministic (T : Toolkit) (binary? : Identity → Path → Bytes → Option Bytes) :
    Prop where
  compiles : ∀ {i source output fs text old b}, fs.readFile source = .ok text →
    fs.readFile output = .ok old → binary? i source text = some b →
      (T.compile i source output fs).1 = .ok () ∧
        (T.compile i source output fs).2.node? =
          Function.update fs.node? output.place (some (.file b))
  refuses : ∀ {i source output fs text old}, fs.readFile source = .ok text →
    fs.readFile output = .ok old → binary? i source text = none →
      (∃ e, (T.compile i source output fs).1 = .error e) ∧
        ∃ v : Option Bytes, (T.compile i source output fs).2.node? =
          Function.update fs.node? output.place (v.map .file)
  loads : ∀ {i binary l fs fs'}, fs.readFile binary = fs'.readFile binary →
    T.load i binary l fs = T.load i binary l fs'

/-- The effect of a request of a build for a device of given identity. -/
def perform (T : Toolkit) (i : Identity) : (a : BuildAction) → Process → a.Reply × Process
  | .file a, s => s.perform a
  | .translate r, s => (translate r, s)
  | .compile source output, s =>
    let (r, files) := T.compile i source output s.machine.files
    (r, { s with machine := { s.machine with files := files } })
  | .load binary l, s => (T.load i binary l s.machine.files, s)

/-- What a request needs that a process performs alone. -/
abbrev needs (T : Toolkit) (i : Identity) :
    (a : BuildAction) → (a.Reply → Process → Prop) → Process → Prop :=
  Program.Does (T.perform i)

/-- Serves a request in a process. -/
def build (T : Toolkit) (S : Site) (r : Request) (s : Process) :
    Option (Except BuildError Kernel) × Process :=
  Program.run (T.perform r.view.identity) ((r.pipeline S).build r.view r.job).run s

/-- The toolkit of an engine, for devices that are open. -/
def ofEngine (e : Engine) : Toolkit where
  compile := fun i source output files =>
    e.compile ⟨0, i, true, 0, StreamTable.start 0 false⟩ source output files
  load := fun i binary l files =>
    e.load ⟨0, i, true, 0, StreamTable.start 0 false⟩ binary l files

end Toolkit

/-! ### Compiling and loading in an entry -/

section

variable {T : Toolkit} {binary? : Identity → Path → Bytes → Option Bytes} {i : Identity} {S : Site}
  {held : Option (Digest × Nat)} {f : Files} {s : Process} {d : Digest} {name : String}

theorem solo_request (a : BuildAction) {post : a.Reply → Process → Prop}
    (h : post (T.perform i a s).1 (T.perform i a s).2) :
    Program.Needs False (T.needs i) post (Program.act a) s := by
  rw [Program.needs_act]
  exact h

theorem solo_compile_ok (hT : T.Deterministic binary?) (h : Shows S held f s.machine.files)
    {text old b : Bytes} (htext : f d (Utf8.encode S.sourceName) = some text)
    (hname : Plain (Utf8.encode name)) (hold : f d (Utf8.encode name) = some old)
    (hb : binary? i (S.store.path d .source) text = some b)
    {post : Except DeviceError Unit → Process → Prop}
    (hpost : ∀ s' : Process, Shows S held (f.set d name (some b)) s'.machine.files →
      post (.ok ()) s') :
    Program.Needs False (T.needs i) post
      (BuildTask.compile (S.store.path d .source) ((S.store.entryDir d).child name)) s := by
  have hsource : s.machine.files.readFile (S.store.path d .source) = .ok text :=
    h.readFile_some S.plain_sourceName htext
  obtain ⟨hok, hfiles⟩ := hT.compiles hsource (h.readFile_some hname hold) hb
  have hopen := h.isOpen d _ (hold ▸ Option.some_ne_none old)
  refine solo_request (.compile _ _) ?_
  simp only [Toolkit.perform, hok]
  exact hpost _ (h.set hname hopen hfiles)

theorem solo_compile_error (hT : T.Deterministic binary?) (h : Shows S held f s.machine.files)
    {text old : Bytes} (htext : f d (Utf8.encode S.sourceName) = some text)
    (hname : Plain (Utf8.encode name)) (hold : f d (Utf8.encode name) = some old)
    (hnone : binary? i (S.store.path d .source) text = none)
    {post : Except DeviceError Unit → Process → Prop}
    (hpost : ∀ (e : DeviceError) (v : Option Bytes) (s' : Process),
      Shows S held (f.set d name v) s'.machine.files → post (.error e) s') :
    Program.Needs False (T.needs i) post
      (BuildTask.compile (S.store.path d .source) ((S.store.entryDir d).child name)) s := by
  have hsource : s.machine.files.readFile (S.store.path d .source) = .ok text :=
    h.readFile_some S.plain_sourceName htext
  obtain ⟨⟨e, he⟩, v, hfiles⟩ := hT.refuses hsource (h.readFile_some hname hold) hnone
  have hopen := h.isOpen d _ (hold ▸ Option.some_ne_none old)
  refine solo_request (.compile _ _) ?_
  simp only [Toolkit.perform, he]
  exact hpost e v _ (h.set hname hopen hfiles)

/-! ### Cache tasks in a build -/

theorem solo_files {α : Type} {ok : α → Process → Prop} {err : BuildError → Process → Prop}
    (t : FileTask CacheError α) : Task.Needs False (T.needs i) ok err (BuildTask.files t) =
      Task.Needs False soloNeeds ok (fun e => err (.ofCache e)) t :=
  BuildTask.needs_files (fun _ => rfl) t

theorem solo_quietly {post : Unit → Process → Prop} (p : FileProgram Unit) :
    Program.Needs False (T.needs i) post (BuildTask.quietly p) =
      Program.Needs False soloNeeds post p :=
  BuildTask.needs_quietly (fun _ => rfl) p

end

/-! ### Engines -/

theorem Engine.compile_open (fault : Option SimulatedFault) (i : Identity) (source output : Path)
    (fs : FileSystem) : (Toolkit.ofEngine (.simulated fault)).compile i source output fs =
      Engine.simulate fault source output fs := rfl

/-- What becomes of a source in the hands of a simulated compiler. -/
def Engine.marked (fault : Option SimulatedFault) (text : Bytes) : Option Bytes :=
  match fault with
  | none => some (mark ++ text)
  | some _ => none

/-- Simulated compilers are deterministic. -/
theorem Engine.deterministic_simulated (fault : Option SimulatedFault) :
    (Toolkit.ofEngine (.simulated fault)).Deterministic fun _ _ => Engine.marked fault where
  compiles := by
    intro i source output fs text old b hsource houtput hb
    rw [compile_open]
    cases fault with
    | some fault => cases hb
    | none =>
        obtain rfl : mark ++ text = b := Option.some.inj hb
        obtain ⟨fs', hfs'⟩ := FileSystem.writeFile_of_readFile houtput (mark ++ text)
        have hmark : simulate none source output fs = (.ok (), fs') := by
          simp only [simulate, markSource, hsource, bind, Except.bind, hfs']
        rw [hmark]
        exact ⟨rfl, (FileSystem.writeFile_ok hfs').2⟩
  refuses := by
    intro i source output fs text old hsource houtput hnone
    rw [compile_open]
    cases fault with
    | none => cases hnone
    | some fault =>
        have hsame : fs.node? = Function.update fs.node? output.place
            ((some old).map Node.file) := by
          rw [Option.map_some, ← FileSystem.readFile_ok houtput, Function.update_eq_self]
        cases fault with
        | diagnostics => exact ⟨⟨_, rfl⟩, some old, hsame⟩
        | noCompiler => exact ⟨⟨_, rfl⟩, some old, hsame⟩
        | freed => exact ⟨⟨_, rfl⟩, some old, hsame⟩
  loads := by
    intro i binary l fs fs' h
    simp only [Toolkit.ofEngine, load, h]

/-- Of a device that is open only the identity counts. -/
theorem Engine.compile_eq (e : Engine) {d : Device} (hopen : d.isOpen = true) (source output : Path)
    (fs : FileSystem) : e.compile d source output fs =
      (Toolkit.ofEngine e).compile d.identity source output fs := by
  simp only [Toolkit.ofEngine, compile, Device.ensureOpen, hopen, if_true]

theorem Engine.load_eq (e : Engine) {d : Device} (hopen : d.isOpen = true) (binary : Path)
    (l : Launch) (fs : FileSystem) :
    e.load d binary l fs = (Toolkit.ofEngine e).load d.identity binary l fs := by
  simp only [Toolkit.ofEngine, load, Device.ensureOpen, hopen, if_true]

/-- What one request does to a workplace. -/
theorem Workplace.perform_eq (a : BuildAction) (w : Workplace) (hopen : w.device.isOpen = true) :
    (w.perform a).1 = ((Toolkit.ofEngine w.engine).perform w.device.identity a w.process).1 ∧
      (w.perform a).2.process =
        ((Toolkit.ofEngine w.engine).perform w.device.identity a w.process).2 ∧
      (w.perform a).2.device = w.device ∧ (w.perform a).2.engine = w.engine := by
  cases a with
  | file a => exact ⟨rfl, rfl, rfl, rfl⟩
  | translate r => exact ⟨rfl, rfl, rfl, rfl⟩
  | compile source output =>
      have hcompile := w.engine.compile_eq hopen source output w.files
      exact ⟨congrArg Prod.fst hcompile,
        congrArg (fun files => (w.withFiles files).process) (congrArg Prod.snd hcompile), rfl, rfl⟩
  | load binary l =>
      exact ⟨w.engine.load_eq hopen binary l w.files, rfl, rfl, rfl⟩

/-- **A workplace does what a process does that uses its engine**, while its device is open. -/
theorem Workplace.run_eq {α : Type} (p : Program BuildAction BuildAction.Reply α) (w : Workplace)
    (hopen : w.device.isOpen = true) :
    (Program.run perform p w).1 =
        (Program.run ((Toolkit.ofEngine w.engine).perform w.device.identity) p w.process).1 ∧
      (Program.run perform p w).2.process =
        (Program.run ((Toolkit.ofEngine w.engine).perform w.device.identity) p w.process).2 := by
  induction p generalizing w with
  | done a => exact ⟨rfl, rfl⟩
  | stalled => exact ⟨rfl, rfl⟩
  | ask a next ih =>
      obtain ⟨hreply, hprocess, hdevice, hengine⟩ := w.perform_eq a hopen
      have hrest := ih (w.perform a).1 (w.perform a).2 (hdevice ▸ hopen)
      rw [hdevice, hengine, hprocess, hreply] at hrest
      simp only [Program.run, hreply]
      exact hrest

end KernelCache
