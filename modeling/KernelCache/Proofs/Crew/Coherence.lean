/-
**What runs preserve.**

In a world that is reached from the start, the scene is sound, with a suitable account of who holds
which lock, and every builder is on course: what is left of its build needs nothing but what is
there.  Each kind of step preserves this, and leaves everything published where it is.

Main definitions:

* `OnCourse` — what holds of a builder, wherever it is in its build;
* `Coherent` — what all runs preserve;
* `Advances` — what a step leads to.

Main results:

* `World.Starts.coherent` — it holds at the start;
* `Step.coherent`, `Run.coherent` — **one step, and a whole run, preserve it**.
-/

import KernelCache.Proofs.Crew.World

set_option relaxedAutoImplicit false
set_option autoImplicit false

namespace KernelCache

/-! ### What runs preserve -/

section

variable {ι : Type} (C : Crew ι)

/-- A builder is on course: it has not yet read its source, or what is left of its build needs
nothing but what is there. -/
def OnCourse (i : ι) : Option Bytes → BuildProgram → Scene ι → Prop
  | none, p, _ => p = C.program i ∨ p = .stalled ∨
      ∃ e : BuildError, p = .done (.error e) ∧ ¬e.IsChecksumFailure
  | some b, p, s => Program.Needs True (buildNeeds C i b) (Settles C i b) p s

/-- The scene of a world, with an account of its locks. -/
def World.scene (w : World ι) (owner : Digest → Nat → Option ι) : Scene ι :=
  ⟨w.machine, owner, w.calls⟩

/-- A place has been moved to at most once, and then there is a file. -/
def World.MovedOnce (w : World ι) (x : Place) : Prop :=
  w.moved.count x = 0 ∨ w.moved.count x = 1 ∧ ∃ b, w.Has x b

/-- The scene is sound, all builders are on course, and the records are right. -/
structure Coherent (w : World ι) (owner : Digest → Nat → Option ι) : Prop where
  sound : Sound C (w.scene owner)
  course : ∀ i, OnCourse C i (w.source i) (w.rest i) (w.scene owner)
  source : ∀ c ∈ w.calls, w.source c.builder = some c.source
  moved : ∀ d, C.vacant d → w.MovedOnce (C.sourcePlace d) ∧ w.MovedOnce (C.binaryPlace d)

end

section

variable {ι : Type} {C : Crew ι} {w w' : World ι} {s s' : Scene ι} {i : ι}
  {owner owner' : Digest → Nat → Option ι}

theorem Genuine.mono {b : Bytes} {k : Kernel} (h : Grows C s s') (hk : Genuine C i b k s) :
    Genuine C i b k s' where
  device := hk.device
  function := hk.function
  binary := hk.binary
  call := fun hd => by
    obtain ⟨c, hc, hrest⟩ := hk.call hd
    exact ⟨c, h.calls hc, hrest⟩
  complete := fun hd => (hk.complete hd).grows hd h

/-- A builder stays on course while others work. -/
theorem OnCourse.later {src : Option Bytes} {p : BuildProgram} (h : OnCourse C i src p s)
    (hlater : Later C i s s') : OnCourse C i src p s' := by
  cases src with
  | none => exact h
  | some b =>
      rw [OnCourse] at h ⊢
      cases p with
      | done r =>
          rw [Program.needs_done] at h ⊢
          cases r with
          | ok k => exact Genuine.mono hlater.relies.grows h
          | error e => exact h
      | ask a next =>
          rw [Program.needs_ask] at h ⊢
          exact buildNeeds_later hlater h
      | stalled => exact Program.needs_stalled s'

theorem onCourse_ask_iff {b : Bytes} {a : BuildAction} {next : a.Reply → BuildProgram} :
    OnCourse C i (some b) (.ask a next) s ↔
      buildNeeds C i b a
        (fun r => Program.Needs True (buildNeeds C i b) (Settles C i b) (next r)) s := by
  rw [OnCourse, Program.needs_ask]

/-- A builder's first request is to read its source. -/
theorem OnCourse.first {a : BuildAction} {next : a.Reply → BuildProgram}
    (h : OnCourse C i none (.ask a next) s) :
    (C.request i).view.isOpen ∧ Program.ask a next = C.program i := by
  rcases h with h | h | ⟨e, h, -⟩
  · refine ⟨?_, h⟩
    rw [Crew.program_eq] at h
    by_contra hopen
    rw [if_neg hopen] at h
    cases h
  · cases h
  · cases h

/-- A builder that asks for more than a file has read its source. -/
theorem OnCourse.needs {src : Option Bytes} {a : BuildAction} {next : a.Reply → BuildProgram}
    (h : OnCourse C i src (.ask a next) s) (ha : ∀ f, a ≠ .file f) :
    ∃ b, src = some b ∧
      buildNeeds C i b a
        (fun r => Program.Needs True (buildNeeds C i b) (Settles C i b) (next r)) s := by
  cases src with
  | some b => exact ⟨b, rfl, onCourse_ask_iff.1 h⟩
  | none =>
      obtain ⟨hopen, hfirst⟩ := h.first
      rw [Crew.program_eq, if_pos hopen] at hfirst
      cases hfirst
      exact absurd rfl (ha _)

/-- A builder is on course right after reading. -/
theorem onCourse_afterReading (hs : Sound C s) (r : Except Failure Bytes) :
    OnCourse C i (Except.toOption r) (C.afterReading i r) s := by
  cases r with
  | ok b => exact needs_buildFrom hs
  | error e => exact Or.inr (Or.inr ⟨_, rfl, id⟩)

theorem World.MovedOnce.of_eq {x : Place} (h : w.MovedOnce x) (hmoved : w'.moved = w.moved)
    (hgrow : ∀ b, w.Has x b → w'.Has x b) : w'.MovedOnce x := by
  rw [World.MovedOnce, hmoved]
  exact h.imp id fun ⟨hcount, b, hb⟩ => ⟨hcount, b, hgrow b hb⟩

theorem Coherent.moved_of_eq (h : Coherent C w owner)
    (hgrows : Grows C (w.scene owner) (w'.scene owner')) (hmoved : w'.moved = w.moved) (d : Digest)
    (hd : C.vacant d) : w'.MovedOnce (C.sourcePlace d) ∧ w'.MovedOnce (C.binaryPlace d) :=
  ⟨(h.moved d hd).1.of_eq hmoved (hgrows.source d hd),
    (h.moved d hd).2.of_eq hmoved (hgrows.binary d hd)⟩

/-- A world in which no builder has done anything is coherent, and nobody holds a lock. -/
theorem World.Starts.coherent (h : w.Starts C) : Coherent C w fun _ _ => none where
  sound :=
    { due := h.due
      calls := fun c hc => by
        have hcalls : c ∈ w.calls := hc
        rw [h.calls] at hcalls
        cases hcalls
      lock := fun _ _ _ hi => by cases hi
      aside := fun _ _ _ hi => by cases hi
      entry := fun d hd =>
        ⟨fun b hb => hb.elim (fun hb => absurd hb (h.entry d hd _ b))
            fun hb => absurd hb (h.entry d hd _ b),
          fun b hb => absurd hb (h.entry d hd _ b), fun b hb => absurd hb (h.entry d hd _ b),
          fun b hb => absurd hb (h.entry d hd _ b)⟩ }
  course := fun i => by
    rw [h.source i]
    exact Or.inl (h.rest i)
  source := fun c hc => by
    rw [h.calls] at hc
    cases hc
  moved := fun d _ => by
    constructor <;> exact Or.inl (by simp [h.moved])

/-! ### Changes around the builders -/

/-- What a step leads to: again a coherent world, in which everything published is still there. -/
def Advances (C : Crew ι) (w : World ι) (owner : Digest → Nat → Option ι) (w' : World ι) : Prop :=
  ∃ owner', Coherent C w' owner' ∧ Grows C (w.scene owner) (w'.scene owner')

/-- A change away from the cache. -/
theorem Coherent.elsewhere (h : Coherent C w owner) {m : Machine} (hdue : m.due = w.machine.due)
    (hm : ∀ x, C.site.Near x → m.files.node? x = w.machine.files.node? x) :
    Advances C w owner (w.withMachine m) := by
  have hdrift : Drift C nowhere (w.scene owner) ((w.withMachine m).scene owner) := by
    refine drift_of_directories hdue (fun d name b _ => ?_) fun x hx hdir => (hm x hx).trans hdir
    have hnode : m.files.node? (C.site.entryPlace d ++ [name]) =
        w.machine.files.node? (C.site.entryPlace d ++ [name]) := hm _ (C.site.near_entry d name)
    exact ⟨fun hb => hnode.symm.trans hb, fun hb => hnode.trans hb⟩
  obtain ⟨hsound, hgrows, hrelies⟩ := hdrift.quiet h.sound
  exact ⟨owner, ⟨hsound, fun i => (h.course i).later ⟨hsound, hrelies i⟩, h.source,
    h.moved_of_eq hgrows rfl⟩, hgrows⟩

/-- A builder that is not active needs nothing but what is published. -/
theorem OnCourse.of_not_active {m : Machine}
    (h : OnCourse C i (w.source i) (w.rest i) (w.scene owner)) (hidle : ¬w.Active i)
    (hgrows : Grows C (w.scene owner) ((w.withMachine m).scene owner')) :
    OnCourse C i (w.source i) (w.rest i) ((w.withMachine m).scene owner') := by
  cases hb : w.source i with
  | none =>
      rw [hb] at h
      exact h
  | some b =>
      rw [hb, OnCourse] at h
      rw [OnCourse]
      cases hrest : w.rest i with
      | done r =>
          rw [hrest, Program.needs_done] at h
          rw [Program.needs_done]
          cases r with
          | ok k => exact Genuine.mono hgrows h
          | error e => exact h
      | ask a next => exact absurd ⟨by simp [hb], a, next, hrest⟩ hidle
      | stalled => exact Program.needs_stalled _

/-- A lock that was left behind is removed. -/
theorem Coherent.sweep (h : Coherent C w owner) {d : Digest} {depth : Nat} {fs : FileSystem}
    (hidle : ∀ i, ¬w.Active i) (haside : C.site.lockPlace d depth ∉ C.site.root.visits)
    (hfs : w.machine.files.removeDirectory (C.site.locks.path d depth) = .ok fs) :
    Advances C w owner (w.withMachine { w.machine with files := fs }) := by
  -- nobody is at work, so nobody needs a lock
  have hsound : Sound C (w.scene fun _ _ => none) :=
    { due := h.sound.due
      calls := h.sound.calls
      lock := fun _ _ _ hi => by cases hi
      aside := fun _ _ _ hi => by cases hi
      entry := fun e he =>
        have hes := h.sound.entry e he
        ⟨hes.isOpen, hes.source, hes.manifest, hes.binary⟩ }
  obtain ⟨-, hnode⟩ := FileSystem.removeDirectory_ok hfs
  have hdrift : Drift C nowhere (w.scene fun _ _ => none)
      ((w.withMachine { w.machine with files := fs }).scene fun _ _ => none) :=
    drift_unlock rfl rfl haside (hnode (C.site.not_isBase_lockPlace d depth))
  obtain ⟨hsound', hgrows, -⟩ := hdrift.quiet hsound
  have hgrows' : Grows C (w.scene owner)
      ((w.withMachine { w.machine with files := fs }).scene fun _ _ => none) :=
    ⟨hgrows.source, hgrows.manifest, hgrows.binary, hgrows.calls, hgrows.isOpen, hgrows.directory⟩
  exact ⟨_, ⟨hsound', fun i => (h.course i).of_not_active (hidle i) hgrows', h.source,
    h.moved_of_eq hgrows' rfl⟩, hgrows'⟩

/-! ### Steps of builders -/

section

variable [DecidableEq ι]

/-- After a fair change only the builder that has made it needs a look. -/
theorem course_update (h : ∀ j, OnCourse C j (w.source j) (w.rest j) s) (hfair : Fair C i s s')
    {src : Option Bytes} {p : BuildProgram} (hi : OnCourse C i src p s') (j : ι) :
    OnCourse C j (Function.update w.source i src j) (Function.update w.rest i p j) s' := by
  by_cases hj : j = i
  · subst hj
    rwa [Function.update_self, Function.update_self]
  · rw [Function.update_of_ne hj, Function.update_of_ne hj]
    exact (h j).later ⟨hfair.sound, hfair.relies j hj⟩

theorem course_go (h : ∀ j, OnCourse C j (w.source j) (w.rest j) s) (hfair : Fair C i s s')
    {p : BuildProgram} (hi : OnCourse C i (w.source i) p s') (j : ι) :
    OnCourse C j (w.source j) (Function.update w.rest i p j) s' := by
  have hgo := course_update h hfair hi j
  rwa [Function.update_eq_self] at hgo

/-- A careful action moves a file only to where none is. -/
theorem World.MovedOnce.act {x : Place} {a : Action} {next : a.Reply → BuildProgram}
    (h : w.MovedOnce x) (hgrow : ∀ b, w.Has x b → (w.act i a next).Has x b)
    (hcareful : ∀ src target, a = .move src target → target.place = x → ∀ b, ¬w.Has x b) :
    (w.act i a next).MovedOnce x := by
  cases a with
  | move src target =>
      cases hm : w.machine.files.moveFile src target with
      | error e =>
          refine h.of_eq ?_ hgrow
          simp [World.act, Process.perform, hm, Process.change, Action.movedTo, Except.toOption]
      | ok fs =>
          have hmoved : (w.act i (.move src target) next).moved = w.moved ++ [target.place] := by
            simp [World.act, Process.perform, hm, Process.change, Action.movedTo, Except.toOption]
          by_cases hx : target.place = x
          · -- nothing was there, so nothing was moved there before
            have hnone := hcareful src target rfl hx
            obtain ⟨b, -, -, hfs⟩ := FileSystem.moveFile_ok hm
            have hcount : w.moved.count x = 0 := h.resolve_right fun hone => by
              obtain ⟨-, b, hb⟩ := hone
              exact hnone b hb
            refine Or.inr ⟨by simp [hmoved, hcount, hx], b, ?_⟩
            simp [World.Has, World.act, Process.perform, hm, Process.change, hfs, hx]
          · have hcount : (w.moved ++ [target.place]).count x = w.moved.count x := by
              simp [hx]
            rw [World.MovedOnce, hmoved, hcount]
            exact h.imp id fun hone => hone.imp id fun hb => hb.imp hgrow
  | _ =>
      refine h.of_eq ?_ hgrow
      simp [World.act, Action.movedTo]

/-- An answer to a builder that leaves the machine as it is. -/
theorem Coherent.go (h : Coherent C w owner) {p : BuildProgram}
    (hp : OnCourse C i (w.source i) p (w.scene owner)) : Advances C w owner (w.go i p) :=
  ⟨owner, ⟨h.sound, course_go h.course (Fair.refl h.sound) hp, h.source,
    h.moved_of_eq (Grows.refl _) rfl⟩, Grows.refl _⟩

/-- A file operation of a builder that has read its source. -/
theorem Coherent.act (h : Coherent C w owner) {a : Action} {next : a.Reply → BuildProgram}
    {b : Bytes} (hi : w.rest i = .ask (.file a) next) (hb : w.source i = some b) :
    Advances C w owner (w.act i a next) := by
  have hcourse := h.course i
  rw [hi, hb] at hcourse
  obtain ⟨hcareful, hperform⟩ := (onCourse_ask_iff (a := .file a)).1 hcourse _ (Later.refl h.sound)
  obtain ⟨owner', hfair, hpost⟩ := hperform (w.notes i)
  refine ⟨owner', ⟨hfair.sound, course_update h.course hfair ?_, fun c hc => ?_, fun d hd => ?_⟩,
    hfair.grows⟩
  · rw [hb]
    exact hpost
  · have hsource := h.source c hc
    by_cases hci : c.builder = i
    · rw [hci] at hsource ⊢
      simp [World.act, hsource]
    · simpa [World.act, Function.update_of_ne hci] using hsource
  · refine ⟨(h.moved d hd).1.act (hfair.grows.source d hd) ?_,
      (h.moved d hd).2.act (hfair.grows.binary d hd) ?_⟩
    · rintro src target rfl hx
      exact fun b => (hcareful d hd b).1 hx
    · rintro src target rfl hx
      exact fun b => (hcareful d hd b).2 hx

/-- The first step of a builder. -/
theorem Coherent.begin (h : Coherent C w owner) {a : Action} {next : a.Reply → BuildProgram}
    (hi : w.rest i = .ask (.file a) next) (hb : w.source i = none) :
    Advances C w owner (w.act i a next) := by
  have hcourse := h.course i
  rw [hi, hb] at hcourse
  obtain ⟨hopen, hfirst⟩ := OnCourse.first (a := .file a) hcourse
  rw [Crew.program_eq, if_pos hopen] at hfirst
  cases hfirst
  refine ⟨owner, ⟨h.sound, course_update h.course (Fair.refl h.sound) ?_, fun c hc => ?_,
    fun d hd => ?_⟩, Grows.refl _⟩
  · rw [hb]
    exact onCourse_afterReading h.sound _
  · have hsource := h.source c hc
    have hci : c.builder ≠ i := fun heq => by
      rw [heq, hb] at hsource
      cases hsource
    simpa [World.act, Function.update_of_ne hci] using hsource
  · refine ⟨(h.moved d hd).1.act (fun b hb => hb) ?_, (h.moved d hd).2.act (fun b hb => hb) ?_⟩
    · rintro src target heq
      cases heq
    · rintro src target heq
      cases heq

/-- A successful call of the translator. -/
theorem Coherent.translate (h : Coherent C w owner) {r : TranslationRequest} {t : Translation}
    {b : Bytes} {next : Except TranslateError Translation → BuildProgram}
    (hi : w.rest i = .ask (.translate r) next) (hb : w.source i = some b)
    (hr : C.translates r (.ok t)) :
    Advances C w owner ((w.go i (next (.ok t))).record ⟨i, b, t⟩) := by
  have hcourse := h.course i
  rw [hi, hb] at hcourse
  obtain ⟨-, ⟨text, htext, rfl⟩, -, hok⟩ :=
    (onCourse_ask_iff (a := .translate r)).1 hcourse _ (Later.refl h.sound)
  have hfair : Fair C i (w.scene owner) ((w.scene owner).record ⟨i, b, t⟩) :=
    fair_record h.sound ⟨text, htext, hr⟩ i
  refine ⟨owner, ⟨hfair.sound, course_go h.course hfair ?_, fun c hc => ?_,
    h.moved_of_eq hfair.grows rfl⟩, hfair.grows⟩
  · rw [hb]
    exact hok t hr
  · rcases List.mem_append.1 hc with hc | hc
    · exact h.source c hc
    · rw [List.mem_singleton.1 hc]
      exact hb

/-- A change of the machine that its maker may make, and after which it is still on course. -/
theorem Coherent.withMachine (h : Coherent C w owner) {m : Machine}
    (hfair : Fair C i (w.scene owner) ((w.withMachine m).scene owner))
    (hi : OnCourse C i (w.source i) (w.rest i) ((w.withMachine m).scene owner)) :
    Advances C w owner (w.withMachine m) := by
  refine ⟨owner, ⟨hfair.sound, fun j => ?_, h.source, h.moved_of_eq hfair.grows rfl⟩, hfair.grows⟩
  have hj := course_go h.course hfair hi j
  rwa [Function.update_eq_self] at hj

/-- A compiler writes to its output, of which its builder knows nothing. -/
theorem Coherent.scribble (h : Coherent C w owner) {src out : Path} {m : Machine}
    {next : Except DeviceError Unit → BuildProgram} (hi : w.rest i = .ask (.compile src out) next)
    (hdue : m.due = w.machine.due) (hdir : w.machine.files.node? out.place ≠ some .directory)
    (hm : ∀ x, x ≠ out.place → m.files.node? x = w.machine.files.node? x) :
    Advances C w owner (w.withMachine m) := by
  have hcourse := h.course i
  rw [hi] at hcourse
  obtain ⟨b, hb, hneeds⟩ := OnCourse.needs (a := .compile src out) hcourse fun _ => by simp
  obtain ⟨⟨hown, -, n, hplace⟩, -⟩ := hneeds _ h.sound (Relies.refl _ i _)
  have hscratch := Site.scratch_reserved n
  have hupdate : m.files.node? =
      Function.update w.machine.files.node? out.place (m.files.node? out.place) := by
    funext x
    by_cases hx : x = out.place
    · rw [hx, Function.update_self]
    · rw [Function.update_of_ne hx, hm x hx]
  have hdrift : Drift C (· = out.place) (w.scene owner) ((w.withMachine m).scene owner) :=
    drift_update hdue hdir hupdate
  have hfair : Fair C i (w.scene owner) ((w.withMachine m).scene owner) := by
    have hfile := hdrift
    rw [hplace] at hfile
    exact fair_scratch h.sound (hscratch.guard.symm ▸ hown) hscratch.isScratch hfile
  refine h.withMachine hfair ?_
  have hrelies : Relies C (· = out.place) i (w.scene owner) ((w.withMachine m).scene owner) :=
    hdrift.relies hfair.grows fun d name hch => Or.inl hch
  rw [hb, hi]
  exact (onCourse_ask_iff (a := .compile src out)).2 fun s₁ hs₁ h₁ =>
    hneeds s₁ hs₁ (hrelies.trans h₁)

/-! ### Runs -/

/-- **Every step leads from a coherent world to a coherent world.** -/
theorem Step.coherent (hstep : Step C w w') (h : Coherent C w owner) : Advances C w owner w' := by
  cases hstep with
  | file hi =>
      rename_i i a next
      cases hb : w.source i with
      | none => exact h.begin hi hb
      | some b => exact h.act hi hb
  | refuse hi hr =>
      rename_i i r e next
      have hcourse := h.course i
      rw [hi] at hcourse
      obtain ⟨b, hb, hneeds⟩ := OnCourse.needs (a := .translate r) hcourse fun _ => by simp
      refine h.go ?_
      rw [hb]
      exact (hneeds _ (Later.refl h.sound)).2.2.1 e
  | translate hi hsource hr => exact h.translate hi hsource hr
  | scribble hi hdue hdir hm => exact h.scribble hi hdue hdir hm
  | compile hi =>
      rename_i i src out r next
      have hcourse := h.course i
      rw [hi] at hcourse
      obtain ⟨b, hb, hneeds⟩ := OnCourse.needs (a := .compile src out) hcourse fun _ => by simp
      refine h.go ?_
      rw [hb]
      exact (hneeds _ h.sound (Relies.refl _ i _)).2 r
  | load hi hr =>
      rename_i i binary l r next
      have hcourse := h.course i
      rw [hi] at hcourse
      obtain ⟨b, hb, hneeds⟩ := OnCourse.needs (a := .load binary l) hcourse fun _ => by simp
      refine h.go ?_
      rw [hb]
      exact hneeds _ (Later.refl h.sound) r hr
  | die =>
      rename_i i
      refine h.go ?_
      cases w.source i with
      | none => exact Or.inr (Or.inl rfl)
      | some b => exact Program.needs_stalled _
  | sweep hidle haside hfs => exact h.sweep hidle haside hfs
  | elsewhere hdue hm => exact h.elsewhere hdue hm

/-- **So does every run.** -/
theorem Run.coherent (hrun : Run C w w') (h : Coherent C w owner) : Advances C w owner w' := by
  induction hrun with
  | refl => exact ⟨owner, h, Grows.refl _⟩
  | tail _ hstep ih =>
      obtain ⟨owner₁, h₁, hgrows₁⟩ := ih
      obtain ⟨owner₂, h₂, hgrows₂⟩ := hstep.coherent h₁
      exact ⟨owner₂, h₂, hgrows₁.trans hgrows₂⟩

end

end

end KernelCache
