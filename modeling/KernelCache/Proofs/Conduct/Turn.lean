/-
**What one step of a build does.**

Any operation may fail without doing anything, and writing may fail halfway; what is asked for its
node or its contents is never said to be missing when it is not.  A translator and a loader answer
as they like, and a compiler may leave at its output what it likes as long as it is no directory.
Whatever happens, a step that the rule allows is one of a few: it changes nothing in the files, it
makes a directory on the way, it makes or removes the directory of the lock in hands, it creates,
changes, removes or publishes a fresh file in the entry of that lock, or it lets time pass.

Main definitions:

* `Process.Fares`, `Process.Comes` — what may come of a file operation, and of any action;
* `Hand.Knows` — whether what is known is so;
* `Turn` — **what a step does to the files, the notes and the hands**;
* `Turns` — a step after which the hands are as they should be.

Main results:

* `turns_of_conduct` — **every step that the rule allows is a turn**;
* `Program.Runs.of_workplace` — what a workplace runs is a run of such steps.
-/

import KernelCache.Build.Workplace
import KernelCache.Proofs.Conduct.Hand
import KernelCache.Proofs.Device.Engine
import KernelCache.Proofs.Locks.Soundness

set_option relaxedAutoImplicit false
set_option autoImplicit false

namespace KernelCache

/-! ### What may come of an action -/

/-- Whether an answer is that of an action which has failed. -/
def Action.Fails : (a : Action) → a.Reply → Prop
  | .look _, r => ∃ e, e ≠ .notFound ∧ r = .error e
  | .read _, r => ∃ e, e ≠ .notFound ∧ r = .error e
  | .names _, r => ∃ e, r = .error e
  | .makeDirectory _, r => ∃ e, r = .error e
  | .removeDirectory _, r => ∃ e, r = .error e
  | .createFresh .., r => ∃ e, r = .error e
  | .write .., r => ∃ e, r = .error e
  | .removeFile _, r => ∃ e, r = .error e
  | .move .., r => ∃ e, r = .error e
  | .now, _ | .sleep _, _ | .hold _, _ | .letGo _, _ | .held, _ => False

namespace Process

/-- What stands at a place. -/
def node? (s : Process) (x : Place) : Option Node := s.machine.files.node? x

/-- A process on the same machine with other files. -/
def withFiles (s : Process) (fs : FileSystem) : Process :=
  { s with machine := { s.machine with files := fs } }

/-- What may come of a file operation, if those in `fails` may fail. -/
inductive Fares (fails : Action → Prop) : (a : Action) → Process → a.Reply → Process → Prop
  | works (a : Action) (s : Process) : Fares fails a s (s.perform a).1 (s.perform a).2
  | fails {a : Action} {s : Process} {r : a.Reply} (ha : fails a) (hr : a.Fails r) :
      Fares fails a s r s
  | tears {p : Path} {b b' : Bytes} {s : Process} {fs : FileSystem} {e : Failure}
      (ha : fails (.write p b)) (hfs : s.machine.files.writeFile p b' = .ok fs) :
      Fares fails (.write p b) s (.error e) (s.withFiles fs)

/-- What a compiler may do that was given an output. -/
structure Scribbles (output : Path) (s s' : Process) : Prop where
  held : s'.held = s.held
  due : s'.machine.due = s.machine.due
  nodes : ∀ x, s'.node? x = s.node? x ∨
    x = output.place ∧ s.node? x ≠ some .directory ∧ s'.node? x ≠ some .directory

/-- What may come of an action of a build, if the file operations in `fails` may fail. -/
inductive Comes (fails : Action → Prop) :
    (a : BuildAction) → Process → a.Reply → Process → Prop
  | file {a : Action} {s s' : Process} {r : a.Reply} (h : Fares fails a s r s') :
      Comes fails (.file a) s r s'
  | translate (t : TranslationRequest) (s : Process) (r : Except TranslateError Translation) :
      Comes fails (.translate t) s r s
  | compile {source output : Path} {s s' : Process} (h : Scribbles output s s')
      (r : Except DeviceError Unit) : Comes fails (.compile source output) s r s'
  | load (binary : Path) (l : Launch) (s : Process) (r : Except DeviceError Loaded) :
      Comes fails (.load binary l) s r s

@[simp] theorem withFiles_held (s : Process) (fs : FileSystem) :
    (s.withFiles fs).held = s.held := rfl

@[simp] theorem withFiles_due (s : Process) (fs : FileSystem) :
    (s.withFiles fs).machine.due = s.machine.due := rfl

@[simp] theorem withFiles_node? (s : Process) (fs : FileSystem) :
    (s.withFiles fs).node? = fs.node? := rfl

theorem change_cases (s : Process) (x : Except Failure FileSystem) :
    (∃ e, x = .error e ∧ s.change x = (.error e, s)) ∨
      ∃ fs, x = .ok fs ∧ s.change x = (.ok (), s.withFiles fs) := by
  cases x with
  | ok fs => exact Or.inr ⟨fs, rfl, rfl⟩
  | error e => exact Or.inl ⟨e, rfl, rfl⟩

end Process

/-! ### Workplaces -/

/-- What a workplace does with a simulated compiler may come of any action. -/
theorem Workplace.comes {fails : Action → Prop} {fault : Option SimulatedFault} {w : Workplace}
    (hengine : w.engine = .simulated fault) (a : BuildAction) :
    w.process.Comes fails a (w.perform a).1 (w.perform a).2.process := by
  cases a with
  | file a => exact .file (.works a w.process)
  | translate t => exact .translate t w.process _
  | load binary l => exact .load binary l w.process _
  | compile source output =>
      obtain ⟨answer, files, hcompile⟩ : ∃ answer files,
          w.engine.compile w.device source output w.files = (answer, files) := ⟨_, _, rfl⟩
      have hscribbles : w.process.Scribbles output (w.process.withFiles files) := by
        refine ⟨rfl, rfl, fun x => ?_⟩
        rw [Process.withFiles_node?]
        rw [hengine] at hcompile
        rcases Engine.compile_simulated hcompile with hsame | ⟨hdir, b, hnodes⟩
        · exact Or.inl (congrArg (fun fs => fs.node? x) hsame)
        · rw [hnodes]
          by_cases hx : x = output.place
          · rw [hx, Function.update_self]
            exact Or.inr ⟨rfl, hdir, by simp⟩
          · rw [Function.update_of_ne hx]
            exact Or.inl rfl
      simp only [perform, hcompile]
      exact .compile hscribbles answer

/-- **What a workplace runs is a run.** -/
theorem Program.Runs.of_workplace (fails : Action → Prop) {fault : Option SimulatedFault}
    {α : Type} (p : Program BuildAction BuildAction.Reply α) {w : Workplace}
    (hengine : w.engine = .simulated fault) {a : α}
    (ha : (Program.run Workplace.perform p w).1 = some a) :
    ∃ calls, Program.Runs (Process.Comes fails) p w.process calls (.done a)
      (Program.run Workplace.perform p w).2.process := by
  induction p generalizing w with
  | done b =>
      cases ha
      exact ⟨[], .here _ _⟩
  | ask action next ih =>
      have hkept : (w.perform action).2.engine = .simulated fault := by
        cases action <;> exact hengine
      obtain ⟨calls, hrest⟩ := ih _ hkept ha
      exact ⟨_, .ask (Workplace.comes hengine action) hrest⟩
  | stalled => cases ha

/-! ### Time -/

/-- What is gone when the time of some directories has come. -/
theorem Machine.foldl_gone (l : List (Nat × Path)) (fs : FileSystem) (x : Place) :
    let fs' := l.foldl (fun fs e => match fs.removeDirectory e.2 with
      | .ok fs => fs
      | .error _ => fs) fs
    fs'.node? x = fs.node? x ∨ (∃ e ∈ l, e.2.place = x) ∧ fs.node? x = some .directory ∧
      fs'.node? x = none ∧ ∀ name, fs'.node? (x ++ [name]) = none := by
  induction l generalizing fs x with
  | nil => exact Or.inl rfl
  | cons e rest ih =>
      have hmore (h : ∃ e ∈ rest, e.2.place = x) : ∃ e' ∈ e :: rest, e'.2.place = x :=
        h.imp fun _ he => ⟨List.mem_cons_of_mem e he.1, he.2⟩
      simp only [List.foldl_cons]
      cases hfs : fs.removeDirectory e.2 with
      | error _ =>
          rcases ih fs x with hsame | ⟨hdue, hgone⟩
          · exact Or.inl hsame
          · exact Or.inr ⟨hmore hdue, hgone⟩
      | ok fs₁ =>
          dsimp only
          rcases FileSystem.removeDirectory_gone hfs x with hsame | ⟨hx, hthere, hnone, hbelow⟩
          · rw [← hsame]
            rcases ih fs₁ x with hsame' | ⟨hdue, hgone⟩
            · exact Or.inl hsame'
            · exact Or.inr ⟨hmore hdue, hgone⟩
          · -- what is gone stays gone, and so does what was not below it
            have hstays (y : Place) (hy : fs₁.node? y = none) := (ih fs₁ y).elim
              (fun hsame => hsame.trans hy) fun hgone => hgone.2.2.1
            exact Or.inr ⟨⟨e, List.mem_cons_self, hx.symm⟩, hthere, hstays x hnone, fun name =>
              hstays _ (hbelow name)⟩

/-- Directories are all that goes when their time has come, and nothing is below them. -/
theorem Machine.settle_gone (m : Machine) (x : Place) :
    m.settle.files.node? x = m.files.node? x ∨
      (∃ e ∈ m.due, e.2.place = x) ∧ m.files.node? x = some .directory ∧
        m.settle.files.node? x = none ∧ ∀ name, m.settle.files.node? (x ++ [name]) = none := by
  rcases foldl_gone (m.due.partition fun e => decide (e.1 ≤ m.clock)).1 m.files x with
    hsame | ⟨⟨e, he, hx⟩, hgone⟩
  · exact Or.inl hsame
  · rw [List.partition_eq_filter_filter, List.mem_filter] at he
    exact Or.inr ⟨⟨e, he.1, hx⟩, hgone⟩

theorem Machine.mem_due_settle {m : Machine} {e : Nat × Path} (h : e ∈ m.settle.due) :
    e ∈ m.due := by
  rw [settle, List.partition_eq_filter_filter] at h
  exact (List.mem_filter.1 h).1

/-! ### Knowledge -/

namespace Hand

variable {S : Site} {may : Digest → Nat → Prop} {h h' : Hand} {s s' : Process} {x : Place}
  {b : Bytes}

/-- Whether what is known is so. -/
def Knows (h : Hand) (s : Process) : Prop :=
  ∀ x b, h.known x = some b → s.node? x = some (.file b)

/-- Where no file changes, what is known stays so. -/
theorem Knows.mono (hk : h.Knows s)
    (hfiles : ∀ x b, s.node? x = some (.file b) → s'.node? x = some (.file b)) : h.Knows s' :=
  fun x b hx => hfiles x b (hk x b hx)

/-- Where one file changes, the rest of what is known stays so. -/
theorem Knows.forget (hk : h.Knows s) (hother : ∀ y, y ≠ x → s'.node? y = s.node? y) :
    (h.forget x).Knows s' := by
  intro y b hy
  by_cases heq : y = x
  · rw [heq, Hand.forget_known_self] at hy
    cases hy
  · rw [Hand.forget_known_of_ne heq] at hy
    rw [hother y heq]
    exact hk y b hy

theorem Knows.learn (hk : (h.forget x).Knows s) (hx : s.node? x = some (.file b)) :
    (h.learn x b).Knows s := by
  intro y c hy
  by_cases heq : y = x
  · subst heq
    rw [Hand.learn_known_self] at hy
    exact Option.some.inj hy ▸ hx
  · rw [Hand.learn_known_of_ne heq] at hy
    exact hk y c ((Hand.forget_known_of_ne heq).trans hy)

theorem Knows.publish {p q : Path} (hk : h.Knows s) (hp : s.node? p.place = some (.file b))
    (hnodes : s'.node? = Function.update (Function.update s.node? p.place none) q.place
      (some (.file b))) : (h.publish p q).Knows s' := by
  intro y c hy
  rw [hnodes]
  by_cases hq : y = q.place
  · subst hq
    rw [Hand.publish_known_self] at hy
    rw [Function.update_self, ← hp]
    exact hk _ _ hy
  · by_cases hpy : y = p.place
    · subst hpy
      have hnone : (h.publish p q).known p.place = none :=
        (Function.update_of_ne hq ..).trans (Function.update_self ..)
      cases hnone.symm.trans hy
    · rw [Hand.publish_known_of_ne hpy hq] at hy
      rw [Function.update_of_ne hq, Function.update_of_ne hpy]
      exact hk y c hy

theorem Like.proper (hlike : h.Like h') (hp : h.Proper S may) : h'.Proper S may where
  lock := fun d depth hlock => hp.lock d depth (hlike.grasp ▸ hlock)
  temps := fun p hmem => by
    rw [hlike.temps] at hmem
    rw [hlike.grasp]
    exact hp.temps p hmem

/-- Fresh files may be given up. -/
theorem Proper.of_subset (hp : h.Proper S may) (hgrasp : h'.grasp = h.grasp)
    (htemps : h'.temps ⊆ h.temps) : h'.Proper S may where
  lock := fun d depth hlock => hp.lock d depth (hgrasp ▸ hlock)
  temps := fun p hmem => hgrasp ▸ hp.temps p (htemps hmem)

/-- The next step with the lock in hands. -/
theorem proper_grasping {g : Grasp} (htemps : h.temps = ∅)
    (hg : ∀ d depth, g.lock? = some (d, depth) → may d depth ∧ depth ≤ maxLockDepth) :
    (h.grasping g).Proper S may where
  lock := hg
  temps := fun p hmem => by simp [htemps] at hmem

/-- Only with a lock that is noted there are fresh files. -/
theorem Proper.temps_eq_empty (hp : h.Proper S may)
    (hgrasp : ∀ d depth, h.grasp ≠ .noted d depth) : h.temps = ∅ := by
  refine Set.eq_empty_iff_forall_notMem.2 fun p hmem => ?_
  obtain ⟨d, depth, -, hnoted, -⟩ := hp.temps p hmem
  exact hgrasp d depth hnoted

end Hand

/-! ### Turns -/

/-- What a step of a build does to the files, the notes and the hands. -/
inductive Turn (S : Site) (fails : Action → Prop) (h : Hand) (s : Process) (h' : Hand)
    (s' : Process) : Prop
  | still (hlike : h.Like h') (hheld : s'.held = s.held) (hnodes : s'.node? = s.node?)
  | pass (hempty : h.Empty) (hlike : h.Like h') (hheld : s'.held = s.held)
      (hgone : ∀ x, s'.node? x = s.node? x ∨
        (∃ e ∈ s.machine.due, e.2.place = x) ∧ s.node? x = some .directory ∧
          s'.node? x = none ∧ ∀ name, s'.node? (x ++ [name]) = none)
  | way {p : Path} (hway : S.OnWay h.grasp p) (hnone : s.node? p.place = none)
      (hlike : h.Like h') (hheld : s'.held = s.held)
      (hnodes : s'.node? = Function.update s.node? p.place (some .directory))
  | take {d : Digest} {depth : Nat} (hempty : h.Empty) (hlock : S.Takeable (S.locks.path d depth))
      (hway : s.machine.files.Walkable S.locks.directory)
      (hnone : s.node? (S.lockPlace d depth) = none) (hmade : h'.Only (.made d depth))
      (hheld : s'.held = s.held)
      (hnodes : s'.node? = Function.update s.node? (S.lockPlace d depth) (some .directory))
  | note {d : Digest} {depth : Nat} (hmade : h.Only (.made d depth))
      (hnoted : h'.Only (.noted d depth))
      (hheld : s'.held = s.held.insert (S.locks.path d depth) ()) (hnodes : s'.node? = s.node?)
  | strike {d : Digest} {depth : Nat} (hnoted : h.Only (.noted d depth))
      (hstruck : h'.Only (.struck d depth))
      (hheld : s'.held = s.held.erase (S.locks.path d depth)) (hnodes : s'.node? = s.node?)
  | give {d : Digest} {depth : Nat} (hstruck : h.Only (.struck d depth)) (hempty : h'.Empty)
      (hheld : s'.held = s.held)
      (hnodes : s'.node? = Function.update s.node? (S.lockPlace d depth) none)
  | lose {d : Digest} {depth : Nat} (hstruck : h.Only (.struck d depth)) (hempty : h'.Empty)
      (hheld : s'.held = s.held) (hnodes : s'.node? = s.node?)
      (hfail : fails (.removeDirectory (S.locks.path d depth)) ∨
        ∃ e, s.machine.files.removeDirectory (S.locks.path d depth) = .error e)
  | create {d : Digest} {depth : Nat} {name : String} {p : Path}
      (hnoted : h.grasp = .noted d depth) (hp : p = (S.store.entryDir d).child name)
      (hname : Site.Scratch depth name) (hway : s.machine.files.Walkable (S.store.entryDir d))
      (hnone : s.node? p.place = none) (hgrasp : h'.grasp = h.grasp)
      (htemps : h'.temps = insert p h.temps) (hheld : s'.held = s.held)
      (hnodes : s'.node? = Function.update s.node? p.place (some (.file [])))
  | edit {p : Path} {v : Option Node} (hp : p ∈ h.temps) (hfile : s.node? p.place ≠ some .directory)
      (hv : v ≠ some .directory) (hlike : h.Like h') (hheld : s'.held = s.held)
      (hnodes : s'.node? = Function.update s.node? p.place v)
  | drop {p : Path} (hp : p ∈ h.temps) (hfile : s.node? p.place ≠ some .directory)
      (hgrasp : h'.grasp = h.grasp) (htemps : h'.temps = h.temps \ {p}) (hheld : s'.held = s.held)
      (hnodes : s'.node? = Function.update s.node? p.place none)
  | spill {p : Path} (hp : p ∈ h.temps) (hgrasp : h'.grasp = h.grasp)
      (htemps : h'.temps = h.temps \ {p}) (hheld : s'.held = s.held) (hnodes : s'.node? = s.node?)
      (hfail : fails (.removeFile p) ∨ ∃ e, s.machine.files.removeFile p = .error e)
  | publish {d : Digest} {depth : Nat} {name : String} {p : Path} {b : Bytes} (hp : p ∈ h.temps)
      (hnoted : h.grasp = .noted d depth) (hname : S.IsProduct depth name)
      (hfile : s.node? p.place = some (.file b))
      (htarget : s.node? (S.filePlace d name) ≠ some .directory) (hgrasp : h'.grasp = h.grasp)
      (htemps : h'.temps = h.temps \ {p}) (hheld : s'.held = s.held)
      (hnodes : s'.node? = Function.update (Function.update s.node? p.place none)
        (S.filePlace d name) (some (.file b)))

/-- Whether a step is a turn after which `post` holds of hands that are as they should be. -/
def Turns (S : Site) (may : Digest → Nat → Prop) (fails : Action → Prop) (h : Hand)
    (s s' : Process) (post : Hand → Prop) : Prop :=
  ∃ h', post h' ∧ h'.Proper S may ∧ (h.Knows s → h'.Knows s') ∧ (h.failed → h'.failed) ∧
    s'.machine.due ⊆ s.machine.due ∧ Turn S fails h s h' s'

section

variable {S : Site} {may : Digest → Nat → Prop} {fails : Action → Prop} {h h' : Hand}
  {s s' : Process}

/-- A step that leaves the process as it is. -/
theorem turns_still {post : Hand → Prop} (hproper : h.Proper S may) (hlike : h.Like h')
    (hfailed : h.failed → h'.failed) (hpost : post h') (hknows : h.Knows s → h'.Knows s) :
    Turns S may fails h s s post :=
  ⟨h', hpost, hlike.proper hproper, hknows, hfailed, fun _ => id, .still hlike rfl rfl⟩

/-! ### Operations that may fail -/

namespace Process.Fares

theorem makeDirectory {p : Path} {r : Except Failure Unit}
    (hstep : s.Fares fails (.makeDirectory p) r s') :
    (∃ e, r = .error e ∧ s' = s) ∨
      ∃ fs, s.machine.files.makeDirectory p = .ok fs ∧ r = .ok () ∧ s' = s.withFiles fs := by
  cases hstep with
  | works =>
      rw [perform]
      rcases s.change_cases (s.machine.files.makeDirectory p) with ⟨e, -, h⟩ | ⟨fs, hfs, h⟩
      · exact Or.inl ⟨e, by rw [h], by rw [h]⟩
      · exact Or.inr ⟨fs, hfs, by rw [h], by rw [h]⟩
  | fails ha hr =>
      obtain ⟨e, rfl⟩ := hr
      exact Or.inl ⟨e, rfl, rfl⟩

theorem removeDirectory {p : Path} {r : Except Failure Unit}
    (hstep : s.Fares fails (.removeDirectory p) r s') :
    (s' = s ∧ (fails (.removeDirectory p) ∨ ∃ e, s.machine.files.removeDirectory p = .error e)) ∨
      ∃ fs, s.machine.files.removeDirectory p = .ok fs ∧ s' = s.withFiles fs := by
  cases hstep with
  | works =>
      rw [perform]
      rcases s.change_cases (s.machine.files.removeDirectory p) with ⟨e, he, h⟩ | ⟨fs, hfs, h⟩
      · exact Or.inl ⟨by rw [h], Or.inr ⟨e, he⟩⟩
      · exact Or.inr ⟨fs, hfs, by rw [h]⟩
  | fails ha hr => exact Or.inl ⟨rfl, Or.inl ha⟩

theorem removeFile {p : Path} {r : Except Failure Unit}
    (hstep : s.Fares fails (.removeFile p) r s') :
    (s' = s ∧ (fails (.removeFile p) ∨ ∃ e, s.machine.files.removeFile p = .error e)) ∨
      ∃ fs, s.machine.files.removeFile p = .ok fs ∧ s' = s.withFiles fs := by
  cases hstep with
  | works =>
      rw [perform]
      rcases s.change_cases (s.machine.files.removeFile p) with ⟨e, he, h⟩ | ⟨fs, hfs, h⟩
      · exact Or.inl ⟨by rw [h], Or.inr ⟨e, he⟩⟩
      · exact Or.inr ⟨fs, hfs, by rw [h]⟩
  | fails ha hr => exact Or.inl ⟨rfl, Or.inl ha⟩

theorem move {p q : Path} {r : Except Failure Unit} (hstep : s.Fares fails (.move p q) r s') :
    (∃ e, r = .error e ∧ s' = s) ∨
      ∃ fs, s.machine.files.moveFile p q = .ok fs ∧ r = .ok () ∧ s' = s.withFiles fs := by
  cases hstep with
  | works =>
      rw [perform]
      rcases s.change_cases (s.machine.files.moveFile p q) with ⟨e, -, h⟩ | ⟨fs, hfs, h⟩
      · exact Or.inl ⟨e, by rw [h], by rw [h]⟩
      · exact Or.inr ⟨fs, hfs, by rw [h], by rw [h]⟩
  | fails ha hr =>
      obtain ⟨e, rfl⟩ := hr
      exact Or.inl ⟨e, rfl, rfl⟩

/-- Writing may fail when some of it is done. -/
theorem write {p : Path} {b : Bytes} {r : Except Failure Unit}
    (hstep : s.Fares fails (.write p b) r s') :
    (∃ e, r = .error e ∧ s' = s) ∨
      ∃ b' fs, s.machine.files.writeFile p b' = .ok fs ∧ s' = s.withFiles fs ∧
        ((∃ e, r = .error e) ∨ r = .ok () ∧ b' = b) := by
  cases hstep with
  | works =>
      rw [perform]
      rcases s.change_cases (s.machine.files.writeFile p b) with ⟨e, -, h⟩ | ⟨fs, hfs, h⟩
      · exact Or.inl ⟨e, by rw [h], by rw [h]⟩
      · exact Or.inr ⟨b, fs, hfs, by rw [h], Or.inr ⟨by rw [h], rfl⟩⟩
  | fails ha hr =>
      obtain ⟨e, rfl⟩ := hr
      exact Or.inl ⟨e, rfl, rfl⟩
  | tears ha hfs => exact Or.inr ⟨_, _, hfs, rfl, Or.inl ⟨_, rfl⟩⟩

theorem createFresh {dir : Path} {stem : String} {r : Except Failure Path}
    (hstep : s.Fares fails (.createFresh dir stem) r s') :
    (∃ e, r = .error e ∧ s' = s) ∨
      ∃ p fs, s.machine.files.createFresh dir stem s.machine.fresh = .ok (p, fs) ∧ r = .ok p ∧
        s'.node? = fs.node? ∧ s'.held = s.held ∧ s'.machine.due = s.machine.due := by
  cases hstep with
  | works =>
      rw [perform]
      cases hfs : s.machine.files.createFresh dir stem s.machine.fresh with
      | error e => exact Or.inl ⟨e, rfl, rfl⟩
      | ok found => exact Or.inr ⟨found.1, found.2, rfl, rfl, rfl, rfl, rfl⟩
  | fails ha hr =>
      obtain ⟨e, rfl⟩ := hr
      exact Or.inl ⟨e, rfl, rfl⟩

end Process.Fares

/-! ### Every step is a turn -/

/-- The fresh files of a build are files of the entry whose lock it has noted. -/
theorem Hand.Proper.place_eq (hproper : h.Proper S may) {p : Path} (hp : p ∈ h.temps) :
    ∃ d depth name, h.grasp = .noted d depth ∧ Site.Scratch depth name ∧
      p.place = S.filePlace d name := by
  obtain ⟨d, depth, name, hnoted, rfl, hname⟩ := hproper.temps p hp
  exact ⟨d, depth, name, hnoted, hname, Path.place_child hname.plain⟩

/-- A step that makes a directory where nothing is. -/
theorem turns_makeDirectory {p : Path} {r : Except Failure Unit}
    {post : Except Failure Unit → Hand → Prop} (hproper : h.Proper S may)
    (hact : fileConduct S may (.makeDirectory p) post h)
    (hstep : s.Fares fails (.makeDirectory p) r s') : Turns S may fails h s s' (post r) := by
  have hlike := Hand.Like.refl h
  rcases hstep.makeDirectory with ⟨e, rfl, rfl⟩ | ⟨fs, hfs, rfl, rfl⟩
  · refine turns_still hproper hlike id ?_ id
    rcases hact with ⟨-, -, hpost⟩ | ⟨d, depth, -, -, -, -, herr, -⟩
    · exact hpost _
    · exact herr e
  · obtain ⟨hnone, hnodes⟩ := FileSystem.makeDirectory_ok hfs
    have hknows (h' : Hand) (hknown : h'.known = h.known) (hk : h.Knows s) :
        h'.Knows (s.withFiles fs) := by
      refine Hand.Knows.mono (fun x b hx => hk x b (hknown ▸ hx)) fun x b hx => ?_
      rw [Process.withFiles_node?, hnodes, Function.update_of_ne ?_]
      · exact hx
      · rintro rfl
        cases hnone.symm.trans hx
    rcases hact with ⟨-, hway, hpost⟩ | ⟨d, depth, hp, hdepth, hmay, hempty, -, hok⟩
    · exact ⟨h, hpost _, hproper, hknows h rfl, id, fun _ => id,
        .way hway hnone hlike rfl hnodes⟩
    · rw [hp] at hfs hnone hnodes
      have hlock : S.IsLock (S.locks.path d depth) := ⟨d, depth, hdepth, rfl⟩
      obtain ⟨htake, hwalk⟩ := LockHistory.takeable_of_makeDirectory hlock hfs
      refine ⟨_, hok, Hand.proper_grasping hempty.temps fun e k heq => ?_, hknows _ rfl,
        id, fun _ => id, .take hempty htake hwalk hnone (hempty.grasping _) rfl hnodes⟩
      cases heq
      exact ⟨hmay, hdepth⟩

/-- Removing the directory of the lock that was struck. -/
theorem turns_removeDirectory {p : Path} {r : Except Failure Unit}
    {post : Except Failure Unit → Hand → Prop} (hproper : h.Proper S may)
    (hact : fileConduct S may (.removeDirectory p) post h)
    (hstep : s.Fares fails (.removeDirectory p) r s') : Turns S may fails h s s' (post r) := by
  obtain ⟨d, depth, hp, hgrasp, hpost⟩ := hact
  rw [hp] at hstep
  have hstruck : h.Only (.struck d depth) :=
    ⟨hgrasp, hproper.temps_eq_empty fun e k => by simp [hgrasp]⟩
  have hempty := hstruck.grasping .free
  rcases hstep.removeDirectory with ⟨rfl, hfail⟩ | ⟨fs, hfs, rfl⟩
  · exact ⟨_, hpost r, hempty.proper, id, id, fun _ => id, .lose hstruck hempty rfl rfl hfail⟩
  · obtain ⟨hthere, hnodes⟩ := FileSystem.removeDirectory_ok hfs
    have hnodes := hnodes (S.not_isBase_lockPlace d depth)
    refine ⟨_, hpost r, hempty.proper, fun hk => ?_, id, fun _ => id,
      .give hstruck hempty rfl hnodes⟩
    refine Hand.Knows.mono (h := h.grasping .free) hk fun x b hx => ?_
    rw [Process.withFiles_node?, hnodes, Function.update_of_ne ?_]
    · exact hx
    · rintro rfl
      cases hthere.symm.trans hx

/-- Creating a fresh file in the entry. -/
theorem turns_createFresh {dir : Path} {stem : String} {r : Except Failure Path}
    {post : Except Failure Path → Hand → Prop} (hproper : h.Proper S may)
    (hact : fileConduct S may (.createFresh dir stem) post h)
    (hstep : s.Fares fails (.createFresh dir stem) r s') :
    Turns S may fails h s s' (post r) := by
  obtain ⟨d, depth, hnoted, hdir, hstem, herr, hok⟩ := hact
  rcases hstep.createFresh with ⟨e, rfl, rfl⟩ | ⟨p, fs, hfs, rfl, hnode, hheld, hdue⟩
  · exact turns_still hproper (Hand.Like.refl h) id (herr e) id
  · obtain ⟨⟨n, hp⟩, hlookup, hwrite⟩ := FileSystem.createFresh_ok hfs
    have hname := hstem n
    rw [hdir] at hp hok
    rw [hp] at hlookup hwrite
    have hwalk := FileSystem.walkable_of_writeFile hname.plain hwrite
    obtain ⟨-, hnodes⟩ := FileSystem.writeFile_ok hwrite
    rw [← hp] at hnodes
    have hnone : s.node? p.place = none := by
      rw [FileSystem.lookup_child hname.plain hwalk, ← hp] at hlookup
      cases hn : s.machine.files.node? p.place with
      | none => exact hn
      | some node => simp [hn] at hlookup
    have hnodes' : s'.node? = Function.update s.node? p.place (some (.file [])) :=
      hnode.trans hnodes
    refine ⟨h.take p, hp ▸ hok n, ⟨hproper.lock, fun q hq => ?_⟩, fun hk => ?_, id,
      hdue ▸ fun _ => id, .create hnoted hp hname hwalk hnone rfl rfl hheld hnodes'⟩
    · rcases Set.mem_insert_iff.1 hq with rfl | hq
      · exact ⟨d, depth, _, hnoted, hp, hname⟩
      · exact hproper.temps q hq
    · refine Hand.Knows.mono (h := h.take p) hk fun x b hx => ?_
      rw [hnodes', Function.update_of_ne ?_]
      · exact hx
      · rintro rfl
        cases hnone.symm.trans hx

/-- Writing to a fresh file. -/
theorem turns_write {p : Path} {b : Bytes} {r : Except Failure Unit}
    {post : Except Failure Unit → Hand → Prop} (hproper : h.Proper S may)
    (hact : fileConduct S may (.write p b) post h)
    (hstep : s.Fares fails (.write p b) r s') : Turns S may fails h s s' (post r) := by
  obtain ⟨hp, herr, hok⟩ := hact
  have hforget : h.Like (h.forget p.place) := ⟨rfl, rfl⟩
  rcases hstep.write with ⟨e, rfl, rfl⟩ | ⟨b', fs, hfs, rfl, hr⟩
  · exact turns_still hproper hforget id (herr e) fun hk => hk.forget fun _ _ => rfl
  · obtain ⟨hfile, hnodes⟩ := FileSystem.writeFile_ok hfs
    have hknows (hk : h.Knows s) : (h.forget p.place).Knows (s.withFiles fs) := by
      refine hk.forget fun y hy => ?_
      rw [Process.withFiles_node?, hnodes, Function.update_of_ne hy]
      rfl
    have hturn {h' : Hand} (hlike : h.Like h') : Turn S fails h s h' (s.withFiles fs) :=
      .edit hp hfile (by simp) hlike rfl hnodes
    have hlearn := (h.same_learn p.place b).toLike
    rcases hr with ⟨e, rfl⟩ | ⟨rfl, rfl⟩
    · exact ⟨_, herr e, hforget.proper hproper, hknows, id, fun _ => id, hturn hforget⟩
    · refine ⟨_, hok, hlearn.proper hproper, fun hk => (hknows hk).learn ?_, id, fun _ => id,
        hturn hlearn⟩
      rw [Process.withFiles_node?, hnodes, Function.update_self]

/-- Removing a fresh file, or giving it up. -/
theorem turns_removeFile {p : Path} {r : Except Failure Unit}
    {post : Except Failure Unit → Hand → Prop} (hproper : h.Proper S may)
    (hact : fileConduct S may (.removeFile p) post h)
    (hstep : s.Fares fails (.removeFile p) r s') : Turns S may fails h s s' (post r) := by
  obtain ⟨hp, hpost⟩ := hact
  have hproper' : (h.drop p).Proper S may := hproper.of_subset rfl Set.sdiff_subset
  rcases hstep.removeFile with ⟨rfl, hfail⟩ | ⟨fs, hfs, rfl⟩
  · exact ⟨_, hpost r, hproper', fun hk => hk.forget fun _ _ => rfl, id, fun _ => id,
      .spill hp rfl rfl rfl rfl hfail⟩
  · obtain ⟨b, hfile, hnodes⟩ := FileSystem.removeFile_ok hfs
    have hfile' : s.node? p.place ≠ some .directory := by
      rw [Process.node?, hfile]
      simp
    refine ⟨_, hpost r, hproper', fun hk => hk.forget fun y hy => ?_, id, fun _ => id,
      .drop hp hfile' rfl rfl rfl hnodes⟩
    rw [Process.withFiles_node?, hnodes, Function.update_of_ne hy]
    rfl

/-- Publishing a fresh file. -/
theorem turns_move {p q : Path} {r : Except Failure Unit}
    {post : Except Failure Unit → Hand → Prop} (hproper : h.Proper S may)
    (hact : fileConduct S may (.move p q) post h)
    (hstep : s.Fares fails (.move p q) r s') : Turns S may fails h s s' (post r) := by
  obtain ⟨hp, ⟨d, depth, name, hnoted, hq, hname⟩, herr, hok⟩ := hact
  rcases hstep.move with ⟨e, rfl, rfl⟩ | ⟨fs, hfs, rfl, rfl⟩
  · exact turns_still hproper (Hand.Like.refl h) id (herr e) id
  · obtain ⟨b, hfile, htarget, hnodes⟩ := FileSystem.moveFile_ok hfs
    have hplace : q.place = S.filePlace d name := by rw [hq, Path.place_child hname.plain]; rfl
    refine ⟨_, hok, hproper.of_subset rfl Set.sdiff_subset, fun hk => hk.publish hfile hnodes,
      id, fun _ => id, ?_⟩
    rw [hplace] at htarget hnodes
    exact .publish hp hnoted hname hfile htarget rfl rfl rfl hnodes

/-- Looking at what stands at a path. -/
theorem turns_look {p : Path} {r : Except Failure Node} {post : Except Failure Node → Hand → Prop}
    (hproper : h.Proper S may) (hact : fileConduct S may (.look p) post h)
    (hstep : s.Fares fails (.look p) r s') : Turns S may fails h s s' (post r) := by
  have hlike := Hand.Like.refl h
  obtain rfl : s' = s := by cases hstep <;> rfl
  obtain ⟨-, -, hok, hnone, herr⟩ := hact
  cases r with
  | ok n => exact turns_still hproper hlike id (hok n) id
  | error e =>
      by_cases he : e = .notFound
      · exact turns_still hproper hlike id (he ▸ hnone) id
      · exact turns_still hproper h.like_fail (fun _ => trivial) (herr e he) id

/-- Reading a file, from which on its contents are known. -/
theorem turns_read {p : Path} {r : Except Failure Bytes} {post : Except Failure Bytes → Hand → Prop}
    (hproper : h.Proper S may) (hact : fileConduct S may (.read p) post h)
    (hstep : s.Fares fails (.read p) r s') : Turns S may fails h s s' (post r) := by
  obtain ⟨-, hok, hnone, herr⟩ := hact
  have hfails (e : Failure) : Turns S may fails h s s (post (.error e)) := by
    by_cases he : e = .notFound
    · exact turns_still hproper (Hand.Like.refl h) id (he ▸ hnone) id
    · exact turns_still hproper h.like_fail (fun _ => trivial) (herr e he) id
  cases hstep with
  | works =>
      cases hread : s.machine.files.readFile p with
      | error e =>
          have hr : (s.perform (.read p)).1 = .error e := hread
          rw [hr]
          exact hfails e
      | ok b =>
          have hr : (s.perform (.read p)).1 = .ok b := hread
          rw [hr]
          refine turns_still hproper (h.same_learn _ b).toLike id (hok b) fun hk => ?_
          exact (hk.forget fun _ _ => rfl).learn (FileSystem.readFile_ok hread)
  | fails ha hr =>
      obtain ⟨e, -, rfl⟩ := hr
      exact hfails e

/-- Sleeping, while locks that are due are given back by others. -/
theorem turns_sleep {t : Nat} {r : Unit} {post : Unit → Hand → Prop} (hproper : h.Proper S may)
    (hact : fileConduct S may (.sleep t) post h) (hstep : s.Fares fails (.sleep t) r s') :
    Turns S may fails h s s' (post r) := by
  obtain ⟨hempty, hpost⟩ := hact
  cases hstep with
  | works =>
      have hgone := Machine.settle_gone { s.machine with clock := s.machine.clock + t }
      refine ⟨h, hpost, hproper, fun hk => hk.mono fun x b hx => ?_, id,
        fun e => Machine.mem_due_settle (m := { s.machine with clock := s.machine.clock + t }),
        .pass hempty (Hand.Like.refl h) rfl hgone⟩
      rcases hgone x with hsame | ⟨-, hthere, -⟩
      · exact hsame.trans hx
      · cases hthere.symm.trans hx
  | fails _ hr => exact hr.elim

/-- Noting a lock that has just been made. -/
theorem turns_hold {p : Path} {r : Unit} {post : Unit → Hand → Prop} (hproper : h.Proper S may)
    (hact : fileConduct S may (.hold p) post h) (hstep : s.Fares fails (.hold p) r s') :
    Turns S may fails h s s' (post r) := by
  obtain ⟨d, depth, hp, hgrasp, hpost⟩ := hact
  have hmade : h.Only (.made d depth) :=
    ⟨hgrasp, hproper.temps_eq_empty fun e k => by simp [hgrasp]⟩
  have hlock := hproper.lock d depth (by rw [hgrasp]; rfl)
  cases hstep with
  | works =>
      refine ⟨_, hpost, Hand.proper_grasping hmade.temps fun e k heq => ?_, id, id, fun _ => id,
        .note hmade (hmade.grasping _) (by rw [hp]; rfl) rfl⟩
      cases heq
      exact hlock
  | fails _ hr => exact hr.elim

/-- Striking a lock off the notes, before it is given back. -/
theorem turns_letGo {p : Path} {r : Unit} {post : Unit → Hand → Prop} (hproper : h.Proper S may)
    (hact : fileConduct S may (.letGo p) post h) (hstep : s.Fares fails (.letGo p) r s') :
    Turns S may fails h s s' (post r) := by
  obtain ⟨d, depth, hp, hgrasp, htemps, hpost⟩ := hact
  have hlock := hproper.lock d depth (by rw [hgrasp]; rfl)
  cases hstep with
  | works =>
      refine ⟨_, hpost, Hand.proper_grasping htemps fun e k heq => ?_, id, id, fun _ => id,
        .strike ⟨hgrasp, htemps⟩ ⟨rfl, htemps⟩ (by rw [hp]; rfl) rfl⟩
      cases heq
      exact hlock
  | fails _ hr => exact hr.elim

/-- **Every file operation that the rule allows is a turn.** -/
theorem turns_of_fileConduct {a : Action} {r : a.Reply} {post : a.Reply → Hand → Prop}
    (hproper : h.Proper S may) (hact : fileConduct S may a post h)
    (hstep : s.Fares fails a r s') : Turns S may fails h s s' (post r) := by
  cases a with
  | look p => exact turns_look hproper hact hstep
  | read p => exact turns_read hproper hact hstep
  | makeDirectory p => exact turns_makeDirectory hproper hact hstep
  | removeDirectory p => exact turns_removeDirectory hproper hact hstep
  | createFresh dir stem => exact turns_createFresh hproper hact hstep
  | write p b => exact turns_write hproper hact hstep
  | removeFile p => exact turns_removeFile hproper hact hstep
  | move p q => exact turns_move hproper hact hstep
  | now =>
      obtain rfl : s' = s := by
        cases hstep with
        | works => rfl
        | fails _ hr => exact hr.elim
      exact turns_still hproper (Hand.Like.refl h) id (hact.2 r) id
  | sleep t => exact turns_sleep hproper hact hstep
  | hold p => exact turns_hold hproper hact hstep
  | letGo p => exact turns_letGo hproper hact hstep
  | names p => exact hact.elim
  | held => exact hact.elim

/-- **Every step that the rule allows is a turn.** -/
theorem turns_of_conduct {a : BuildAction} {r : a.Reply} {post : a.Reply → Hand → Prop}
    (hproper : h.Proper S may) (hact : (conduct S may).act a post h)
    (hstep : s.Comes fails a r s') : Turns S may fails h s s' (post r) := by
  cases hstep with
  | file hfares => exact turns_of_fileConduct hproper hact hfares
  | translate t s r => exact turns_still hproper (Hand.Like.refl h) id (hact.2.2 r) id
  | load binary l s r => exact turns_still hproper (Hand.Like.refl h) id (hact.2 r) id
  | @compile source output s s' hscribbles r =>
      obtain ⟨-, hp, -, hpost⟩ := hact
      have hforget : h.Like (h.forget output.place) := ⟨rfl, rfl⟩
      have hother : ∀ y, y ≠ output.place → s'.node? y = s.node? y := fun y hy =>
        (hscribbles.nodes y).resolve_right fun hout => hy hout.1
      refine ⟨_, hpost r, hforget.proper hproper, fun hk => hk.forget hother, id,
        hscribbles.due ▸ fun _ => id, ?_⟩
      rcases hscribbles.nodes output.place with heq | ⟨-, hbefore, hafter⟩
      · refine .still hforget hscribbles.held (funext fun y => ?_)
        by_cases hy : y = output.place
        · rw [hy, heq]
        · exact hother y hy
      · refine .edit hp hbefore hafter hforget hscribbles.held (funext fun y => ?_)
        by_cases hy : y = output.place
        · rw [hy, Function.update_self]
        · rw [Function.update_of_ne hy, hother y hy]

end

end KernelCache
