/-
**Builders at work, step by step.**

A world is the machine with all builders, each somewhere in its build.  In one step one builder has
one action performed: a file operation, or an answer of the translator, the compiler or the loader.
A call of the translator or of the compiler lasts from the moment its builder asks for it until it
is answered.  Meanwhile a compiler may write its output.  A builder may die at any moment.  Locks
that were left behind may be removed while no builder is active, and files away from the cache may
change at any time.

Main definitions:

* `World`, `World.Starts` — worlds, and those in which no build has begun;
* `Step`, `Run` — **one step, and any number of them in any order**;
* `World.Translating`, `World.Compiling` — being in the middle of a call.

Main results:

* `Run.source_eq_some` — a builder reads its source once.
-/

import Mathlib.Logic.Relation
import KernelCache.Proofs.Crew.Build

set_option relaxedAutoImplicit false
set_option autoImplicit false

namespace KernelCache

/-! ### Worlds -/

/-- The whole build of a builder. -/
def Crew.program {ι : Type} (C : Crew ι) (i : ι) : BuildProgram :=
  ((C.pipeline i).build (C.request i).view (C.request i).job).run

/-- The build of a builder after it has read its source, or has failed to. -/
def Crew.afterReading {ι : Type} (C : Crew ι) (i : ι) : Except Failure Bytes → BuildProgram
  | .ok b => ((C.pipeline i).buildFrom (C.request i).view (C.request i).job b).run
  | .error e => .done (.error (.cache (.io (C.request i).job.path e)))

/-- A build starts by reading the source, if the device is open. -/
theorem Crew.program_eq {ι : Type} (C : Crew ι) (i : ι) : C.program i =
    if (C.request i).view.isOpen then
      .ask (.file (.read (C.request i).job.path)) (C.afterReading i)
    else .done (.error (.device .freed)) := by
  rw [Crew.program, Pipeline.build]
  cases (C.request i).view.isOpen with
  | false => rfl
  | true =>
      refine congrArg (Program.ask (BuildAction.file (.read (C.request i).job.path))) ?_
      funext r
      cases r <;> rfl

/-- The contents that an action has read. -/
def Action.heard? : (a : Action) → a.Reply → Option Bytes
  | .read _, r => Except.toOption (r : Except Failure Bytes)
  | _, _ => none

/-- The place to which an action has moved a file. -/
def Action.movedTo : (a : Action) → a.Reply → List Place
  | .move _ target, r =>
    ((Except.toOption (r : Except Failure Unit)).map fun _ => target.place).toList
  | _, _ => []

/-- The machine, and for each builder its notes of the locks it has made, the source it has read,
and what is left of its build.  Successful calls of the translator, and the places to which files
were moved, are on record. -/
structure World (ι : Type) where
  machine : Machine
  notes : ι → SortedMap Path Unit
  source : ι → Option Bytes
  rest : ι → BuildProgram
  calls : List (Call ι)
  moved : List Place

section

variable {ι : Type}

namespace World

/-- Whether a file with certain contents is at a place. -/
def Has (w : World ι) (x : Place) (b : Bytes) : Prop := w.machine.files.node? x = some (.file b)

/-- A world in which no builder has done anything, and the entries of vacant digests have no
files. -/
structure Starts (C : Crew ι) (w : World ι) : Prop where
  due : w.machine.due = []
  source : ∀ i, w.source i = none
  rest : ∀ i, w.rest i = C.program i
  calls : w.calls = []
  moved : w.moved = []
  entry : ∀ d, C.vacant d → ∀ name b, ¬w.Has (C.site.entryPlace d ++ [name]) b

/-- Whether a builder has read a source and is not yet at the end of its build. -/
def Active (w : World ι) (i : ι) : Prop :=
  w.source i ≠ none ∧ ∃ a next, w.rest i = .ask a next

/-- Whether a builder has read a source with a certain digest. -/
def Builds (C : Crew ι) (d : Digest) (w : World ι) (i : ι) : Prop :=
  ∃ b, w.source i = some b ∧ C.key i b = d

/-- Whether a builder of a digest has called the translator and waits for the answer. -/
def Translating (C : Crew ι) (d : Digest) (w : World ι) (i : ι) : Prop :=
  w.Builds C d i ∧ ∃ r next, w.rest i = .ask (.translate r) next

/-- Whether a builder of a digest has called the compiler and waits for the answer. -/
def Compiling (C : Crew ι) (d : Digest) (w : World ι) (i : ι) : Prop :=
  w.Builds C d i ∧ ∃ src out next, w.rest i = .ask (.compile src out) next

variable [DecidableEq ι]

/-- The world after a builder's file operation. -/
def act (w : World ι) (i : ι) (a : Action) (next : a.Reply → BuildProgram) : World ι :=
  let out := Process.perform a ⟨w.machine, w.notes i⟩
  { machine := out.2.machine
    notes := Function.update w.notes i out.2.held
    source := Function.update w.source i (w.source i <|> a.heard? out.1)
    rest := Function.update w.rest i (next out.1)
    calls := w.calls
    moved := w.moved ++ a.movedTo out.1 }

/-- The world after a builder has its answer. -/
def go (w : World ι) (i : ι) (p : BuildProgram) : World ι :=
  { w with rest := Function.update w.rest i p }

/-- The world in which a successful call of the translator is on record. -/
def record (w : World ι) (c : Call ι) : World ι := { w with calls := w.calls ++ [c] }

/-- The world with another machine. -/
def withMachine (w : World ι) (m : Machine) : World ι := { w with machine := m }

end World

/-! ### Steps -/

/-- One step of one builder, or of the world around the builders. -/
inductive Step [DecidableEq ι] (C : Crew ι) : World ι → World ι → Prop
  | file {w : World ι} {i : ι} {a : Action} {next : a.Reply → BuildProgram}
      (hi : w.rest i = .ask (.file a) next) : Step C w (w.act i a next)
  | refuse {w : World ι} {i : ι} {r : TranslationRequest} {e : TranslateError}
      {next : Except TranslateError Translation → BuildProgram}
      (hi : w.rest i = .ask (.translate r) next) (hr : C.translates r (.error e)) :
      Step C w (w.go i (next (.error e)))
  | translate {w : World ι} {i : ι} {r : TranslationRequest} {t : Translation} {source : Bytes}
      {next : Except TranslateError Translation → BuildProgram}
      (hi : w.rest i = .ask (.translate r) next) (hsource : w.source i = some source)
      (hr : C.translates r (.ok t)) :
      Step C w ((w.go i (next (.ok t))).record ⟨i, source, t⟩)
  | scribble {w : World ι} {i : ι} {src out : Path} {m : Machine}
      {next : Except DeviceError Unit → BuildProgram}
      (hi : w.rest i = .ask (.compile src out) next) (hdue : m.due = w.machine.due)
      (hdir : w.machine.files.node? out.place ≠ some .directory)
      (hm : ∀ x, x ≠ out.place → m.files.node? x = w.machine.files.node? x) :
      Step C w (w.withMachine m)
  | compile {w : World ι} {i : ι} {src out : Path} {r : Except DeviceError Unit}
      {next : Except DeviceError Unit → BuildProgram}
      (hi : w.rest i = .ask (.compile src out) next) : Step C w (w.go i (next r))
  | load {w : World ι} {i : ι} {binary : Path} {l : Launch} {r : Except DeviceError Loaded}
      {next : Except DeviceError Loaded → BuildProgram}
      (hi : w.rest i = .ask (.load binary l) next)
      (hr : ∀ x, r = .ok x → x = Loaded.ofLaunch l) : Step C w (w.go i (next r))
  | die {w : World ι} {i : ι} : Step C w (w.go i .stalled)
  | sweep {w : World ι} {d : Digest} {depth : Nat} {fs : FileSystem}
      (hidle : ∀ i, ¬w.Active i) (haside : C.site.lockPlace d depth ∉ C.site.root.visits)
      (hfs : w.machine.files.removeDirectory (C.site.locks.path d depth) = .ok fs) :
      Step C w (w.withMachine { w.machine with files := fs })
  | elsewhere {w : World ι} {m : Machine} (hdue : m.due = w.machine.due)
      (hm : ∀ x, C.site.Near x → m.files.node? x = w.machine.files.node? x) :
      Step C w (w.withMachine m)

/-- Any number of steps, of any builders in any order. -/
def Run [DecidableEq ι] (C : Crew ι) : World ι → World ι → Prop :=
  Relation.ReflTransGen (Step C)

section

variable [DecidableEq ι] {C : Crew ι} {w w' : World ι} {i : ι} {b : Bytes}

/-- A builder reads its source once. -/
theorem Step.source_eq_some (hstep : Step C w w') (hb : w.source i = some b) :
    w'.source i = some b := by
  cases hstep with
  | @file j a next hj =>
      by_cases hij : i = j
      · subst hij
        simp [World.act, hb]
      · simpa [World.act, Function.update_of_ne hij] using hb
  | _ => exact hb

theorem Run.source_eq_some (hrun : Run C w w') (hb : w.source i = some b) :
    w'.source i = some b := by
  induction hrun with
  | refl => exact hb
  | tail _ hstep ih => exact hstep.source_eq_some ih

end

end

end KernelCache
