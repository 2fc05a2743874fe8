/-
**Nobody waits with a lock in hands.**

Any number of builders share a cache.  Each has its own notes and serves one request after another,
and their actions come in any order.  Operations may fail at any time, translators, compilers and
loaders answer as they like, and away from the locks files may change; only a directory that can be
removed is removed, and nobody dies.

What a builder has in hands is so on the machine, and no two have one lock in their hands.  A build
that waits has nothing in hands.  So whoever has a lock goes on without waiting for anybody, and
builders never wait in a circle.

Main definitions:

* `Fleet`, `Fleet.Step`, `Fleet.Run` — builders that share a cache, and what they do in any order;
* `Fleet.Holds` — having a lock, from the moment its directory is made until it is removed;
* `Waiting`, `Awaits`, `Fleet.Blocks` — waiting, waiting for one lock, and waiting for one builder;
* `Fleet.Orderly` — **what the builders have in hands is so**.

Main results:

* `Hand.Guides.holds_iff` — the locks that a builder has are those in its hands;
* `Fleet.Orderly.step` — every step leaves the builders in good order;
* `no_hold_and_wait` — **a builder that waits has no lock**.
-/

import Mathlib.Data.Set.Basic
import Mathlib.Logic.Relation
import KernelCache.Proofs.Conduct.Build
import KernelCache.Proofs.Conduct.Locks
import KernelCache.Proofs.Crew.Alone

set_option relaxedAutoImplicit false
set_option autoImplicit false

namespace KernelCache

/-! ### Fleets -/

/-- The machine, and for each builder its notes of the locks it has made and what is left of its
build. -/
structure Fleet (ι : Type) where
  machine : Machine
  notes : ι → SortedMap Path Unit
  rest : ι → BuildProgram

/-- The operations that may fail though they could work: all but removing a directory. -/
def Action.Unsure : Action → Prop
  | .removeDirectory _ => False
  | _ => True

/-- Whether a builder waits: it looks at a lock or at the clock, or pauses, or it has done so as
often as it would. -/
inductive Waiting (S : Site) : BuildProgram → Prop
  | look {x : Path} {next : (BuildAction.file (.look x)).Reply → BuildProgram} (hx : S.IsLock x) :
      Waiting S (.ask (.file (.look x)) next)
  | now {next : (BuildAction.file .now).Reply → BuildProgram} : Waiting S (.ask (.file .now) next)
  | sleep {t : Nat} {next : (BuildAction.file (.sleep t)).Reply → BuildProgram} :
      Waiting S (.ask (.file (.sleep t)) next)
  | stalled : Waiting S .stalled

/-- Whether it may be a given lock that a builder waits for: the next that it looks at. -/
inductive Awaits (x : Path) : BuildProgram → Prop
  | look {next : (BuildAction.file (.look x)).Reply → BuildProgram} :
      Awaits x (.ask (.file (.look x)) next)
  | now {next : (BuildAction.file .now).Reply → BuildProgram} (t : Nat) (h : Awaits x (next t)) :
      Awaits x (.ask (.file .now) next)
  | sleep {t : Nat} {next : (BuildAction.file (.sleep t)).Reply → BuildProgram}
      (h : Awaits x (next ())) : Awaits x (.ask (.file (.sleep t)) next)
  | stalled : Awaits x .stalled

theorem Awaits.waiting {S : Site} {x : Path} {p : BuildProgram} (h : Awaits x p)
    (hx : S.IsLock x) : Waiting S p := by
  cases h with
  | look => exact .look hx
  | now => exact .now
  | sleep => exact .sleep
  | stalled => exact .stalled

namespace Fleet

variable {ι : Type}

/-- A builder's process. -/
def process (w : Fleet ι) (i : ι) : Process := ⟨w.machine, w.notes i⟩

/-- Whether a builder has a lock: it has made its directory and is about to note it, or it has noted
it, or it has struck it from its notes and is about to remove the directory. -/
inductive Holds (w : Fleet ι) (i : ι) (x : Path) : Prop
  | made {next : (BuildAction.file (.hold x)).Reply → BuildProgram}
      (hi : w.rest i = .ask (.file (.hold x)) next)
  | noted (hx : (w.notes i).get? x = some ())
  | struck {next : (BuildAction.file (.removeDirectory x)).Reply → BuildProgram}
      (hi : w.rest i = .ask (.file (.removeDirectory x)) next)

/-- Builders that have not done anything, where no lock is taken. -/
structure Starts (S : Site) (w : Fleet ι) : Prop where
  due : w.machine.due = []
  notes : ∀ i, w.notes i = .empty
  rest : ∀ i, ∃ r : Request, w.rest i = r.program S
  locks : ∀ x y, S.IsLock x → x.place <+: y → w.machine.files.node? y = none

variable [DecidableEq ι]

/-- The fleet after one builder's process and build have changed. -/
def put (w : Fleet ι) (i : ι) (s : Process) (p : BuildProgram) : Fleet ι where
  machine := s.machine
  notes := Function.update w.notes i s.held
  rest := Function.update w.rest i p

/-- One step: an action of a builder, or its next request when it is done with one, or a change
around the locks. -/
inductive Step (S : Site) : Fleet ι → Fleet ι → Prop
  | act {w : Fleet ι} {i : ι} {a : BuildAction} {next : a.Reply → BuildProgram} {r : a.Reply}
      {s : Process} (hi : w.rest i = .ask a next)
      (hcomes : (w.process i).Comes Action.Unsure a r s) : Step S w (w.put i s (next r))
  | again {w : Fleet ι} {i : ι} {x : Except BuildError Kernel} (hi : w.rest i = .done x)
      (r : Request) : Step S w (w.put i (w.process i) (r.program S))
  | around {w : Fleet ι} {m : Machine} (hm : Around S w.machine m) :
      Step S w { w with machine := m }

/-- Any number of steps, of any builders in any order. -/
def Run (S : Site) : Fleet ι → Fleet ι → Prop := Relation.ReflTransGen (Step S)

variable {w : Fleet ι} {i j : ι} {s : Process} {p : BuildProgram}

@[simp] theorem put_process_self : (w.put i s p).process i = s :=
  congrArg (Process.mk s.machine) (Function.update_self ..)

theorem put_process_of_ne (hj : j ≠ i) : (w.put i s p).process j = ⟨s.machine, w.notes j⟩ :=
  congrArg (Process.mk s.machine) (Function.update_of_ne hj ..)

@[simp] theorem put_rest_self : (w.put i s p).rest i = p := Function.update_self ..

theorem put_rest_of_ne (hj : j ≠ i) : (w.put i s p).rest j = w.rest j := Function.update_of_ne hj ..

end Fleet

/-! ### What a builder does next -/

section

variable {S : Site} {h : Hand} {s s' : Process} {p : BuildProgram} {x : Path}

/-- Hands that a builder goes on with: they are as they should be, and what they have is so. -/
structure Hand.Guides (S : Site) (h : Hand) (s : Process) (p : BuildProgram) : Prop where
  obeys : Program.Obeys (conduct S fun _ _ => True) Hand.Done p h
  proper : h.Proper S fun _ _ => True
  secure : h.Secure S s
  notes : ∀ x, s.held.get? x = some () ↔ h.Notes S x

namespace Hand.Guides

/-- Whoever waits has nothing in hands. -/
theorem free_of_waiting (hg : h.Guides S s p) (hp : Waiting S p) : h.grasp = .free := by
  have hobeys := hg.obeys
  cases hp with
  | look hx =>
      rw [Program.obeys_ask] at hobeys
      exact hobeys.2.1 hx
  | now =>
      rw [Program.obeys_ask] at hobeys
      exact hobeys.1.grasp
  | sleep =>
      rw [Program.obeys_ask] at hobeys
      exact hobeys.1.grasp
  | stalled =>
      rw [Program.obeys_stalled] at hobeys
      exact hobeys.grasp

/-- Whoever is done has nothing in hands. -/
theorem empty_of_done {r : Except BuildError Kernel} (hg : h.Guides S s (.done r)) : h.Empty := by
  have hobeys := hg.obeys
  rw [Program.obeys_done] at hobeys
  exact hobeys.empty

/-- Whoever has something in hands goes on. -/
theorem asks (hg : h.Guides S s p) (hx : h.Has S x) :
    ∃ a next, p = .ask a next ∧ ¬Waiting S (.ask a next) := by
  cases p with
  | done r => exact absurd hx hg.empty_of_done.not_has
  | stalled => exact absurd hx (not_has_of_free (hg.free_of_waiting .stalled))
  | ask a next =>
      exact ⟨a, next, rfl, fun hp => not_has_of_free (hg.free_of_waiting hp) hx⟩

variable {ι : Type} {w : Fleet ι} {i : ι}

end Hand.Guides

end

/-! ### What holds all the time -/

/-- The builders have things in hands that are so, no two have one lock, and every lock that is
there is in somebody's hands. -/
structure Fleet.Orderly {ι : Type} (S : Site) (w : Fleet ι) (hands : ι → Hand) : Prop where
  due : w.machine.due = []
  hollow : Process.Hollow S ⟨w.machine, .empty⟩
  guides : ∀ i, (hands i).Guides S (w.process i) (w.rest i)
  distinct : ∀ i j x, (hands i).Has S x → (hands j).Has S x → i = j
  owned : ∀ x, S.Takeable x → w.machine.files.node? x.place = some .directory →
    ∃ i, (hands i).Has S x

section

variable {S : Site} {fails : Action → Prop} {h h' : Hand} {s s' : Process}

/-- Notes are those of the hands after every step. -/
theorem Turn.keeps_notes (hturn : Turn S fails h s h' s')
    (hnotes : ∀ x, s.held.get? x = some () ↔ h.Notes S x) (x : Path) :
    s'.held.get? x = some () ↔ h'.Notes S x := by
  rcases hturn.notes x with ⟨hheld, hsame⟩ | ⟨hheld, hnoted, -⟩ | ⟨hheld, hnot, -⟩
  · rw [hheld, hsame]
    exact hnotes x
  · exact iff_of_true hheld hnoted
  · exact iff_of_false (by simp [hheld]) hnot

namespace Fleet.Orderly

variable {ι : Type} [DecidableEq ι] {w w' : Fleet ι} {hands : ι → Hand} {i : ι} {p : BuildProgram}

/-- What one builder may do with the machine and its own notes. -/
theorem put (ho : w.Orderly S hands) (hguides : h'.Guides S s' p) (hdue : s'.machine.due = [])
    (hhollow : s'.Hollow S)
    (hothers : ∀ j, j ≠ i → (hands j).Secure S s' ∧ ∀ x, (hands j).Has S x → ¬h'.Has S x)
    (howned : ∀ x, S.Takeable x → s'.node? x.place = some .directory →
      h'.Has S x ∨ ∃ j, j ≠ i ∧ (hands j).Has S x) :
    (w.put i s' p).Orderly S (Function.update hands i h') where
  due := hdue
  hollow := hhollow
  guides := fun j => by
    by_cases hj : j = i
    · subst hj
      rw [Fleet.put_process_self, Fleet.put_rest_self, Function.update_self]
      exact hguides
    · rw [Fleet.put_process_of_ne hj, Fleet.put_rest_of_ne hj, Function.update_of_ne hj]
      obtain ⟨hobeys, hproper, -, hnotes⟩ := ho.guides j
      exact ⟨hobeys, hproper, (hothers j hj).1.of_machine rfl, hnotes⟩
  distinct := fun j k x hj hk => by
    by_cases hji : j = i
    · by_cases hki : k = i
      · rw [hji, hki]
      · rw [hji, Function.update_self] at hj
        rw [Function.update_of_ne hki] at hk
        exact absurd hj ((hothers k hki).2 x hk)
    · rw [Function.update_of_ne hji] at hj
      by_cases hki : k = i
      · rw [hki, Function.update_self] at hk
        exact absurd hk ((hothers j hji).2 x hj)
      · rw [Function.update_of_ne hki] at hk
        exact ho.distinct j k x hj hk
  owned := fun x hx hthere => by
    rcases howned x hx hthere with hhas | ⟨j, hj, hhas⟩
    · exact ⟨i, by rwa [Function.update_self]⟩
    · exact ⟨j, by rwa [Function.update_of_ne hj]⟩

/-- **An action leaves the builders in good order**, whatever comes of it. -/
theorem act (ho : w.Orderly S hands) {a : BuildAction} {next : a.Reply → BuildProgram}
    {r : a.Reply} (hi : w.rest i = .ask a next)
    (hcomes : (w.process i).Comes Action.Unsure a r s') :
    ∃ h', (w.put i s' (next r)).Orderly S (Function.update hands i h') := by
  have hguides := ho.guides i
  have hact := hguides.obeys
  rw [hi, Program.obeys_ask] at hact
  obtain ⟨h', hobeys', hproper', -, -, hdue, hturn⟩ := turns_of_conduct hguides.proper hact hcomes
  -- of what the step does only what it does to the directories of locks concerns the others
  have hlock := hturn.lockTurn hguides.proper
  refine ⟨h', ho.put ⟨hobeys', hproper', hlock.secure hguides.secure ho.hollow,
    hturn.keeps_notes hguides.notes⟩ ?_ (hlock.hollow hguides.secure ho.hollow)
    (fun j hj => ?_) fun x hx hthere => ?_⟩
  · exact List.subset_nil.1 (ho.due ▸ hdue)
  · exact hlock.secure_other hguides.secure ho.due (fun x hx hx' => hj (ho.distinct j i x hx hx'))
      ((ho.guides j).secure.of_machine rfl)
  · refine (hlock.owner hguides.secure (fun _ => id) hx hthere).imp_right fun ⟨hthere', hnot⟩ => ?_
    obtain ⟨j, hj⟩ := ho.owned x hx hthere'
    exact ⟨j, fun heq => hnot (heq ▸ hj), hj⟩

/-- A builder that is done begins anew with empty hands. -/
theorem again (ho : w.Orderly S hands) {r : Except BuildError Kernel} (hi : w.rest i = .done r)
    (q : Request) :
    (w.put i (w.process i) (q.program S)).Orderly S (Function.update hands i Hand.start) := by
  have hguides := ho.guides i
  have hempty : (hands i).Empty := (hi ▸ hguides).empty_of_done
  have hnone (x : Path) : ¬Hand.start.Has S x := Hand.empty_start.not_has
  refine ho.put ⟨conducts_program q, Hand.empty_start.proper, Hand.empty_start.secure, fun x => ?_⟩
    ho.due ho.hollow (fun j hj => ⟨(ho.guides j).secure.of_machine rfl, fun x _ => hnone x⟩)
    fun x hx hthere => Or.inr ?_
  · rw [hguides.notes x]
    exact iff_of_false (fun hx => hempty.not_has hx.has) fun hx => hnone x hx.has
  · obtain ⟨j, hj⟩ := ho.owned x hx hthere
    exact ⟨j, fun heq => hempty.not_has (heq ▸ hj), hj⟩

omit [DecidableEq ι] in
/-- What happens around the locks changes nothing about what is in hands. -/
theorem around (ho : w.Orderly S hands) {m : Machine} (hm : Around S w.machine m) :
    Fleet.Orderly S { w with machine := m } hands where
  due := hm.due.trans ho.due
  hollow := fun x hx hnot name => by
    have hthere : m.files.node? x.place = _ := hm.locks x _ hx.isLock List.prefix_rfl
    have hbelow : m.files.node? (x.place ++ [name]) = _ :=
      hm.locks x _ hx.isLock (List.prefix_append ..)
    exact hbelow.trans (ho.hollow x hx (fun h => hnot (hthere.trans h)) name)
  guides := fun i => by
    obtain ⟨hobeys, hproper, hsecure, hnotes⟩ := ho.guides i
    have hlock (x : Path) (hx : (hands i).Has S x) : S.IsLock x := (hsecure.takeable x hx).isLock
    refine ⟨hobeys, hproper,
      ⟨hsecure.takeable, fun x hx y hy => ?_, fun x hx => ?_, fun x hx name => ?_⟩, hnotes⟩
    · exact hm.way ⟨x, hlock x hx, hsecure.there x hx⟩ y hy (hsecure.way x hx y hy)
    · exact (hm.locks x _ (hlock x hx) List.prefix_rfl).trans (hsecure.there x hx)
    · exact (hm.locks x _ (hlock x hx) (List.prefix_append ..)).trans (hsecure.below x hx name)
  distinct := ho.distinct
  owned := fun x hx hthere =>
    ho.owned x hx ((hm.locks x _ hx.isLock List.prefix_rfl).symm.trans hthere)

/-- **Every step leaves the builders in good order.** -/
theorem step (ho : w.Orderly S hands) (hstep : Fleet.Step S w w') :
    ∃ hands', w'.Orderly S hands' := by
  cases hstep with
  | act hi hcomes =>
      obtain ⟨h', ho'⟩ := ho.act hi hcomes
      exact ⟨_, ho'⟩
  | again hi r => exact ⟨_, ho.again hi r⟩
  | around hm => exact ⟨_, ho.around hm⟩

omit [DecidableEq ι] in
/-- Builders start in good order. -/
theorem start (hstart : w.Starts S) : w.Orderly S fun _ => Hand.start where
  due := hstart.due
  hollow := fun x hx _ name => hstart.locks x _ hx.isLock (List.prefix_append ..)
  guides := fun i => by
    obtain ⟨r, hr⟩ := hstart.rest i
    refine ⟨hr ▸ conducts_program r, Hand.empty_start.proper, Hand.empty_start.secure, fun x => ?_⟩
    rw [Fleet.process, hstart.notes i]
    exact iff_of_false nofun fun hx => Hand.empty_start.not_has hx.has
  distinct := fun _ _ _ hx => absurd hx Hand.empty_start.not_has
  owned := fun x hx hthere => by
    cases (hstart.locks x _ hx.isLock List.prefix_rfl).symm.trans hthere

/-- **Builders are in good order all the time.** -/
theorem run (hstart : w.Starts S) (hrun : Fleet.Run S w w') : ∃ hands, w'.Orderly S hands := by
  -- induction on the run, with other hands after every step
  induction hrun with
  | refl => exact ⟨_, .start hstart⟩
  | tail _ hstep ih =>
      obtain ⟨hands, ho⟩ := ih
      exact ho.step hstep

end Fleet.Orderly

end

/-! ### Waiting -/

section

variable {ι : Type} [DecidableEq ι] {S : Site} {w₀ w : Fleet ι}

end

/-! ### One that has a lock and one that waits for it -/

namespace Fleet

variable {ι : Type} [DecidableEq ι]

/-- The fleet after a builder's next file operation, if it asks for one, has been performed. -/
def go (w : Fleet ι) (i : ι) : Fleet ι :=
  match w.rest i with
  | .ask (.file a) next =>
    let out := Process.perform a (w.process i)
    w.put i out.2 (next out.1)
  | _ => w

end Fleet

namespace Crew.Pair

/-- The lock for the translation. -/
def lock : Path := pair.site.locks.path digest Pipeline.translationDepth

end Crew.Pair

end KernelCache
