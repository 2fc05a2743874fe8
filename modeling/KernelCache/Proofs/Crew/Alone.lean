/-
**Builds that run alone.**

A builder that does all its steps in one go, at a workplace with a simulated compiler, takes part in
a run like any other.  So what is shown of runs holds of the builds that workplaces run.

Main definitions:

* `World.start` — the world in which builders start with given files.

Main results:

* `Alone.of_workplace` — **a build at a workplace is a run**;
* `World.starts_start` — builders start well where there is nothing below the root of the cache.
-/

import KernelCache.Build.Workplace
import KernelCache.Proofs.Crew.Coherence
import KernelCache.Proofs.Device.Engine

set_option relaxedAutoImplicit false
set_option autoImplicit false

namespace KernelCache

/-! ### Runs -/

section

variable {ι : Type} [DecidableEq ι]

/-- What is left of a build is run at a workplace, and meanwhile the world goes to another in which
only the builder has done anything. -/
structure Alone (C : Crew ι) (i : ι) (p : BuildProgram) (here : Workplace) (w w' : World ι) :
    Prop where
  run : Run C w w'
  process : (Program.run Workplace.perform p here).2.process = ⟨w'.machine, w'.notes i⟩
  result : ∀ r, (Program.run Workplace.perform p here).1 = some r → w'.rest i = .done r
  others : ∀ j, j ≠ i → w'.rest j = w.rest j ∧ w'.source j = w.source j

variable {C : Crew ι} {w w₁ w' : World ι} {i : ι} {owner : Digest → Nat → Option ι}

/-- One request, and then the rest. -/
theorem Alone.ask {a : BuildAction} {next : a.Reply → BuildProgram} {here : Workplace}
    (hrun : Run C w w₁) (hothers : ∀ j, j ≠ i → w₁.rest j = w.rest j ∧ w₁.source j = w.source j)
    (h : Alone C i (next (here.perform a).1) (here.perform a).2 w₁ w') :
    Alone C i (.ask a next) here w w' where
  run := hrun.trans h.run
  process := h.process
  result := h.result
  others := fun j hj =>
    ⟨(h.others j hj).1.trans (hothers j hj).1, (h.others j hj).2.trans (hothers j hj).2⟩

theorem World.others_go (w : World ι) (p : BuildProgram) (j : ι) (hj : j ≠ i) :
    (w.go i p).rest j = w.rest j ∧ (w.go i p).source j = w.source j :=
  ⟨Function.update_of_ne hj _ _, rfl⟩

/-- A workplace keeps its engine. -/
theorem Workplace.engine_perform (here : Workplace) (a : BuildAction) :
    (here.perform a).2.engine = here.engine := by
  cases a <;> rfl

/-- **A build at a workplace is a run** in which only its builder does anything. -/
theorem Alone.of_workplace (h : Coherent C w owner)
    (htranslates : ∀ r, C.translates r (translate r)) (p : BuildProgram) (hp : w.rest i = p)
    {here : Workplace} {fault : Option SimulatedFault} (hengine : here.engine = .simulated fault)
    (hprocess : here.process = ⟨w.machine, w.notes i⟩) : ∃ w', Alone C i p here w w' := by
  induction p generalizing w here owner with
  | done r =>
      refine ⟨w, .refl, hprocess, fun r' hr => ?_, fun _ _ => ⟨rfl, rfl⟩⟩
      rw [hp, Option.some.inj hr]
  | stalled => exact ⟨w, .refl, hprocess, fun r hr => (by cases hr), fun _ _ => ⟨rfl, rfl⟩⟩
  | ask a next ih =>
      -- a run in which the builder gets the answer of the workplace, and then the rest
      have hgoes : ∀ w₁, Run C w w₁ → w₁.rest i = next (here.perform a).1 →
          (here.perform a).2.process = ⟨w₁.machine, w₁.notes i⟩ →
          (∀ j, j ≠ i → w₁.rest j = w.rest j ∧ w₁.source j = w.source j) →
          ∃ w', Alone C i (.ask a next) here w w' := by
        intro w₁ hrun hrest hprocess₁ hothers
        obtain ⟨_, h₁, -⟩ := hrun.coherent h
        obtain ⟨w', hw'⟩ := ih _ h₁ hrest ((here.engine_perform a).trans hengine) hprocess₁
        exact ⟨w', Alone.ask hrun hothers hw'⟩
      cases a with
      | file a =>
          have hstep : Step C w (w.act i a next) := .file hp
          refine hgoes _ (.single hstep) ?_ ?_ fun j hj => ?_
          · simp [Workplace.perform, World.act, hprocess]
          · simp [Workplace.perform, World.act, hprocess]
          · exact ⟨Function.update_of_ne hj _ _, Function.update_of_ne hj _ _⟩
      | translate r =>
          -- the builder has read the source that the call is for
          have hcourse := h.course i
          rw [hp] at hcourse
          obtain ⟨b, hb, -⟩ := OnCourse.needs (a := .translate r) hcourse fun _ => by simp
          cases ht : translate r with
          | error e =>
              have hstep : Step C w (w.go i (next (.error e))) := .refuse hp (ht ▸ htranslates r)
              refine hgoes _ (.single hstep) ?_ hprocess (w.others_go _)
              simp [Workplace.perform, World.go, ht]
          | ok t =>
              have hstep : Step C w ((w.go i (next (.ok t))).record ⟨i, b, t⟩) :=
                .translate hp hb (ht ▸ htranslates r)
              refine hgoes _ (.single hstep) ?_ hprocess (w.others_go _)
              simp [Workplace.perform, World.record, World.go, ht]
      | compile source output =>
          obtain ⟨r, files, hcompile⟩ : ∃ r files,
              here.engine.compile here.device source output here.files = (r, files) := ⟨_, _, rfl⟩
          have hfiles : here.files = w.machine.files := by rw [Workplace.files, hprocess]
          -- the compiler writes before it answers
          have hscribble : Run C w (w.withMachine { w.machine with files := files }) := by
            rw [hengine, hfiles] at hcompile
            rcases Engine.compile_simulated hcompile with heq | ⟨hdir, b, hm⟩
            · rw [heq]
              exact .refl
            · exact .single (.scribble hp rfl hdir fun x hx =>
                (congrFun hm x).trans (Function.update_of_ne hx ..))
          have hstep : Step C (w.withMachine { w.machine with files := files })
              ((w.withMachine { w.machine with files := files }).go i (next r)) :=
            .compile hp
          have hprocess₁ : (here.perform (.compile source output)).2.process =
              ⟨{ w.machine with files := files }, w.notes i⟩ := by
            simp [Workplace.perform, hcompile, Workplace.withFiles, hprocess]
          refine hgoes _ (hscribble.tail hstep) ?_ hprocess₁ (World.others_go _ _)
          simp [Workplace.perform, hcompile, World.go]
      | load binary l =>
          have hstep : Step C w (w.go i (next (here.perform (.load binary l)).1)) :=
            .load hp fun x hx => Engine.load_ok hx
          exact hgoes _ (.single hstep) (Function.update_self _ _ _) hprocess (w.others_go _)

end

/-! ### Starting from files -/

/-- The world in which builders start with given files. -/
def World.start {ι : Type} (C : Crew ι) (files : FileSystem) : World ι where
  machine := ⟨files, 0, 0, []⟩
  notes := fun _ => .empty
  source := fun _ => none
  rest := C.program
  calls := []
  moved := []

/-- Builders start well if there are no files below the root of the cache. -/
theorem World.starts_start {ι : Type} {C : Crew ι} {files : FileSystem}
    (h : ∀ x b, C.site.root.place <+: x → files.node? x ≠ some (.file b)) :
    (World.start C files).Starts C where
  due := rfl
  source := fun _ => rfl
  rest := fun _ => rfl
  calls := rfl
  moved := rfl
  entry := fun d _ name b => by
    refine h _ b ?_
    rw [Site.entryPlace_eq, List.append_assoc]
    exact List.prefix_append _ _

/-! ### Two builders -/

/-- Two builders of one kernel, with one cache. -/
def Crew.pair : Crew Bool where
  site := ⟨Path.ofString "/cache", "c", by decide⟩
  request := fun _ =>
    { version := Translation.version
      timeout := none
      patience := 3
      view := ⟨0, ⟨.serial, "cc", "-O2", "", ""⟩, true⟩
      job := ⟨Path.ofString "/k.c", "f", Flags.none⟩ }
  translates := fun r t => translate r = t
  vacant := fun _ => True

namespace Crew.Pair

/-- The source that both builders read. -/
def source : Bytes := Utf8.encode "@kernel void f(int n) { }"

/-- The place of the source. -/
def jobPlace : Place := [[Path.slash], Utf8.encode "k.c"]

/-- The files with which the two start. -/
def files : FileSystem := FileSystem.empty.put jobPlace (.file source)

theorem node?_files : files.node? =
    Function.update FileSystem.empty.node? jobPlace (some (.file source)) := by
  refine FileSystem.node?_put ?_ _
  rw [FileSystem.IsBase]
  decide

theorem node?_empty {x : Place} (hx : ¬FileSystem.IsBase x) : FileSystem.empty.node? x = none :=
  if_neg hx

theorem readFile_files : files.readFile (Path.ofString "/k.c") = .ok source :=
  eq_ok_of_toOption (by decide +kernel)

/-- Nothing is far below the root. -/
theorem files_eq_none {x : Place} (hx : 3 ≤ x.length) : files.node? x = none := by
  have hne : x ≠ jobPlace := fun heq => by simp [heq, jobPlace] at hx
  rw [node?_files, Function.update_of_ne hne, node?_empty]
  rintro (heq | heq) <;> simp [heq, FileSystem.rootPlace] at hx

/-- The digest of the kernel. -/
def digest : Digest := pair.key true source

/-- A workplace for one of the two. -/
def workplace : Workplace where
  process := ⟨⟨files, 0, 0, []⟩, .empty⟩
  device := ⟨0, ⟨.serial, "cc", "-O2", "", ""⟩, true, 0, StreamTable.start 0 false⟩
  engine := .simulated none
  translations := 0
  compiles := 0

/-- The place of the root of the cache. -/
theorem root_place : pair.site.root.place = [[Path.slash], Utf8.encode "cache"] := by
  decide +kernel

/-- On the way to it there is nothing else. -/
theorem root_visits : pair.site.root.visits = [[[Path.slash], Utf8.encode "cache"]] := by decide

theorem starts : (World.start pair files).Starts pair := by
  refine World.starts_start fun x b hx hnode => ?_
  rw [node?_files] at hnode
  by_cases hxj : x = jobPlace
  · have hroot : ¬pair.site.root.place <+: jobPlace := by
      rw [root_place]
      decide
    exact hroot (hxj ▸ hx)
  · rw [Function.update_of_ne hxj, FileSystem.node?] at hnode
    split at hnode
    · cases hnode
    · cases hnode

/-- What the build of one of the two comes to, and the workplace afterwards. -/
def outcome : Option (Except BuildError Kernel) × Workplace :=
  Program.run Workplace.perform (pair.program true) workplace

theorem outcome_succeeds : (outcome.1.bind Except.toOption).isSome ∧
    (outcome.2.files.readFile (pair.site.store.path digest .source)).toOption.isSome ∧
    (outcome.2.files.readFile (pair.site.store.path digest .binary)).toOption.isSome := by
  decide +kernel

/-- An artifact that can be read after the build is there. -/
theorem has_of_outcome {w₀ w : World Bool} (hw : Alone pair true (pair.program true) workplace w₀ w)
    {k : Artifact}
    (hk : (outcome.2.files.readFile (pair.site.store.path digest k)).toOption.isSome) :
    ∃ b, w.Has (pair.site.filePlace digest (pair.site.store.fileName k)) b := by
  have hout : Program.run Workplace.perform (pair.program true) workplace = outcome := rfl
  have hprocess := hw.process
  rw [hout] at hprocess
  rw [Workplace.files, hprocess] at hk
  rw [← pair.site.place_path]
  obtain ⟨b, hb⟩ := Option.isSome_iff_exists.1 hk
  exact ⟨b, FileSystem.readFile_ok (eq_ok_of_toOption hb)⟩

/-- In some run one of the two has published a source and a binary and has its kernel, and the other
has not begun. -/
theorem exists_run : ∃ w, Run pair (World.start pair files) w ∧
    (∃ b, w.Has (pair.sourcePlace digest) b) ∧ (∃ b, w.Has (pair.binaryPlace digest) b) ∧
    (∃ k, w.rest true = .done (.ok k)) ∧ w.source false = none := by
  have hprocess : workplace.process =
      ⟨(World.start pair files).machine, (World.start pair files).notes true⟩ := rfl
  have hengine : workplace.engine = .simulated none := rfl
  obtain ⟨w, hw⟩ :=
    Alone.of_workplace starts.coherent (fun _ => rfl) (pair.program true) rfl hengine hprocess
  obtain ⟨hkernel, hsource, hbinary⟩ := outcome_succeeds
  have hhasSource := has_of_outcome hw hsource
  have hhasBinary := has_of_outcome hw hbinary
  obtain ⟨k, hk⟩ := exists_ok_of_isSome hkernel
  exact ⟨w, hw.run, hhasSource, hhasBinary, ⟨k, hw.result (.ok k) hk⟩,
    (hw.others false (by decide)).2⟩

end Crew.Pair

end KernelCache
