/-
**Digests are independent of each other.**

What is to be seen of one digest, its entry, its locks and what its builders come to, is the same
whether builders of other digests are at work or not.  If the shared directories are there, the
turns of others can be left out.  If not, then builders make them for each other, so that those of
one digest may need more turns by themselves; still the same is to be seen, state by state.

Main definitions:

* `Event.Repeats` — the turns of some builders, each any number of times;
* `Fleet.course` — all that is seen of a digest in a run;
* `Fleet.Ready` — builders before they have begun;
* `Fleet.Agree` — runs that agree at some places and on some builders.

Main results:

* `Fleet.Agree.turn` — one turn, where its builder sees no difference;
* `Fleet.Tracks.course` — **a run among all and one by themselves show the same**;
* `digests_independent` — the three forms of independence;
* `crooked_root_not_independent` — not so if the way to the root leads through a lock.
-/

import Mathlib.Data.List.Destutter
import KernelCache.Proofs.Independence.Turns

set_option relaxedAutoImplicit false
set_option autoImplicit false

namespace KernelCache

open FileSystem

/-! ### Repeated states -/

section

variable {α : Type} {a b : α} {l l' : List α}

open Classical in
/-- The states one after another, where equal ones in a row count once. -/
noncomputable def changes (l : List α) : List α := l.destutter (· ≠ ·)

theorem changes_same (a : α) (l : List α) : changes (a :: a :: l) = changes (a :: l) := by
  rw [changes, changes, List.destutter_cons', List.destutter_cons', List.destutter'_cons_neg]
  simp

theorem changes_replicate (n : Nat) (a : α) (l : List α) :
    changes (List.replicate n a ++ a :: l) = changes (a :: l) := by
  induction n with
  | zero => rfl
  | succ n ih =>
      cases n with
      | zero => exact changes_same a l
      | succ n =>
          rw [← ih, List.replicate_succ, List.replicate_succ]
          exact changes_same a _

/-- Another state before two lists that start with the same. -/
theorem changes_cons (h : changes (b :: l) = changes (b :: l')) :
    changes (a :: b :: l) = changes (a :: b :: l') := by
  by_cases hab : a = b
  · subst hab
    rw [changes_same, changes_same, h]
  · rw [changes, changes, List.destutter_cons_cons, List.destutter_cons_cons, if_pos hab,
      if_pos hab]
    rw [changes, changes, List.destutter_cons', List.destutter_cons'] at h
    rw [h]

end

/-- The turns of some builders, in the same order, each any number of times. -/
inductive Event.Repeats {ι : Type} (mine : ι → Prop) : List (Event ι) → List (Event ι) → Prop
  | nil : Repeats mine [] []
  | others {e : Event ι} {es es' : List (Event ι)} (he : ¬mine e.builder)
      (hrest : Repeats mine es es') : Repeats mine (e :: es) es'
  | own {e : Event ι} {es es' : List (Event ι)} (n : Nat) (he : mine e.builder)
      (hrest : Repeats mine es es') : Repeats mine (e :: es) (List.replicate n e ++ es')

namespace Fleet

variable {ι : Type} [DecidableEq ι] (req : ι → Request) {S : Site} {d : Digest} {key : ι → Digest}
  {own : ι → Prop} {K : Place → Prop} {w v : Fleet ι} {e : Event ι} {es : List (Event ι)}

variable (S d own) in
/-- All that is seen of a digest in a run, state by state. -/
def course (w : Fleet ι) : List (Event ι) →
    List (({x // S.Own d x} → Option Node) × ({i // own i} → Option (Except BuildError Kernel)))
  | [] => [w.observe S d own]
  | e :: es => w.observe S d own :: course (w.turn req e) es

variable (S d own) in
theorem course_eq_cons (w : Fleet ι) (es : List (Event ι)) :
    ∃ l, w.course req S d own es = w.observe S d own :: l := by
  cases es with
  | nil => exact ⟨[], rfl⟩
  | cons e es => exact ⟨_, rfl⟩

/-- As long as nothing new is to be seen, the states of a run are repeated. -/
theorem course_replicate {n : Nat}
    (h : ∀ m < n, observe S d own ((turn req · e)^[m] v) = observe S d own v) :
    v.course req S d own (List.replicate n e ++ es) =
      List.replicate n (observe S d own v) ++ ((turn req · e)^[n] v).course req S d own es := by
  induction n generalizing v with
  | zero => rfl
  | succ n ih =>
      have hfirst : List.replicate n (observe S d own (v.turn req e)) =
          List.replicate n (observe S d own v) := by
        cases n with
        | zero => rfl
        | succ n => rw [show observe S d own (v.turn req e) = observe S d own v from h 1 (by omega)]
      have hnext : ∀ m < n, observe S d own ((turn req · e)^[m] (v.turn req e)) =
          observe S d own (v.turn req e) := fun m hm =>
        (h (m + 1) (Nat.succ_lt_succ hm)).trans (h 1 (by omega)).symm
      rw [List.replicate_succ, List.cons_append, course, ih hnext, hfirst, List.replicate_succ]
      rfl

theorem turns_replicate (n : Nat) (v : Fleet ι) (es : List (Event ι)) :
    v.turns req (List.replicate n e ++ es) = ((turn req · e)^[n] v).turns req es := by
  induction n generalizing v with
  | zero => rfl
  | succ n ih => exact ih (v.turn req e)

/-- **A run among all and one by themselves show the same**, one state after another. -/
theorem Tracks.course (hS : S.Apart) (hT : ∀ e ∈ es, e.toolkit.Local) (h : Tracks S d key w v) :
    ∃ es', Event.Repeats (key · = d) es es' ∧ Tracks S d key (w.turns req es) (v.turns req es') ∧
      changes (w.course req S d (key · = d) es) = changes (v.course req S d (key · = d) es') := by
  induction es generalizing w v with
  | nil => exact ⟨[], .nil, h, by rw [Fleet.course, Fleet.course, h.observe_eq]⟩
  | cons e es ih =>
      rw [List.forall_mem_cons] at hT
      obtain ⟨n, htracks, hothers, hseen⟩ := h.turn req hS hT.1
      obtain ⟨es', hrepeats, hend, hsame⟩ := ih hT.2 htracks
      refine ⟨List.replicate n e ++ es', ?_, ?_, ?_⟩
      · by_cases hkey : key e.builder = d
        · exact .own n hkey hrepeats
        · rw [hothers hkey]
          exact .others hkey hrepeats
      · rw [turns_replicate]
        exact hend
      · rw [Fleet.course, course_replicate req hseen, ← h.observe_eq]
        obtain ⟨l, hl⟩ := (w.turn req e).course_eq_cons req S d (key · = d) es
        obtain ⟨l', hl'⟩ := ((Fleet.turn req · e)^[n] v).course_eq_cons req S d (key · = d) es'
        rw [hl, hl', ← htracks.observe_eq] at hsame ⊢
        cases n with
        | zero =>
            -- the builder by itself has done nothing, so nothing is to be seen among all, either
            have hstill : (w.turn req e).observe S d (key · = d) = w.observe S d (key · = d) :=
              htracks.observe_eq.trans h.observe_eq.symm
            rw [hstill] at hsame ⊢
            rw [changes_same]
            exact hsame
        | succ n =>
            rw [List.replicate_succ', List.append_assoc]
            exact (changes_cons hsame).trans (changes_replicate n _ _).symm

/-! ### Runs that agree -/

/-- Two runs that agree at some places and on some builders. -/
structure Agree (K : Place → Prop) (own : ι → Prop) (w v : Fleet ι) : Prop where
  due : w.machine.due = []
  due' : v.machine.due = []
  files : ∀ x, K x → w.machine.files.node? x = v.machine.files.node? x
  notes : ∀ i, own i → w.notes i = v.notes i
  rest : ∀ i, own i → w.rest i = v.rest i

/-- **A turn is the same where its builder sees no difference.** -/
theorem Agree.turn (hS : S.Apart) (hT : e.toolkit.Local) (hw : w.Fit S key) (h : Agree K own w v)
    (hown : own e.builder) (hK : ∀ x, (∀ d, S.Own d x → d = key e.builder) → K x) :
    Agree K own (w.turn req e) (v.turn req e) := by
  cases hrest : w.rest e.builder with
  | ask a next =>
      have hrest' : v.rest e.builder = .ask a next := (h.rest _ hown).symm.trans hrest
      have hstance : Stance S (key e.builder) (w.processFor e).machine.files (.ask a next) :=
        hrest ▸ hw.stance e.builder
      have hbeside : (w.processFor e).Beside (v.processFor e) :=
        ⟨h.notes _ hown, rfl, rfl, h.due, h.due'⟩
      obtain ⟨hreply, hafter, hagree⟩ :=
        Toolkit.perform_alike (i := (req e.builder).view.identity) hT hbeside
          (hstance.reads hS fun x hx => h.files x (hK x hx))
      refine ⟨?_, ?_, fun x hx => ?_, fun i hi => ?_, fun i hi => ?_⟩
      · rw [turn_of_ask req hrest]
        exact hafter.due
      · rw [turn_of_ask req hrest']
        exact hafter.due'
      · rw [turn_of_ask req hrest, turn_of_ask req hrest']
        exact hagree x (h.files x hx)
      · by_cases hib : i = e.builder
        · subst hib
          rw [turn_of_ask req hrest, turn_of_ask req hrest', put_notes_self, put_notes_self]
          exact hafter.held
        · rw [turn_notes_of_ne req hib, turn_notes_of_ne req hib, h.notes i hi]
      · by_cases hib : i = e.builder
        · subst hib
          rw [turn_of_ask req hrest, turn_of_ask req hrest', put_rest_self, put_rest_self, hreply]
        · rw [turn_rest_of_ne req hib, turn_rest_of_ne req hib, h.rest i hi]
  | done x =>
      have hrest' : v.rest e.builder = .done x := (h.rest _ hown).symm.trans hrest
      rw [turn_of_idle req (by simp [hrest]), turn_of_idle req (by simp [hrest'])]
      exact h
  | stalled =>
      have hrest' : v.rest e.builder = .stalled := (h.rest _ hown).symm.trans hrest
      rw [turn_of_idle req (by simp [hrest]), turn_of_idle req (by simp [hrest'])]
      exact h

/-- Turns leave builders where builders can be. -/
theorem Fit.turns (hS : S.Apart) (hT : ∀ e ∈ es, e.toolkit.Local) (h : w.Fit S key) :
    (w.turns req es).Fit S key := by
  induction es generalizing w with
  | nil => exact h
  | cons e es ih =>
      rw [List.forall_mem_cons] at hT
      exact ih hT.2 (h.turn req hS hT.1)

variable (S) in
/-- Whether all shared directories are there. -/
def Open (w : Fleet ι) : Prop := ∀ x ∈ S.shared, w.machine.files.node? x = some .directory

theorem Open.turn (hS : S.Apart) (hT : e.toolkit.Local) (hw : w.Fit S key) (h : w.Open S) :
    (w.turn req e).Open S := fun x hx =>
  (hw.moves req hS hT).1.grows_shared.node? hx (h x hx)

/-- **If the shared directories are there, the turns of others can be left out.** -/
theorem Agree.turns_filter (hS : S.Apart) (hT : ∀ e ∈ es, e.toolkit.Local) (hw : w.Fit S key)
    (hopen : w.Open S) (h : Agree (fun x => ∀ e, S.Own e x → e = d) (key · = d) w v) :
    Agree (fun x => ∀ e, S.Own e x → e = d) (key · = d) (w.turns req es)
      (v.turns req (es.filter fun e => decide (key e.builder = d))) := by
  induction es generalizing w v with
  | nil => exact h
  | cons e es ih =>
      rw [List.forall_mem_cons] at hT
      have hfit := hw.turn req hS hT.1
      have hopen' := hopen.turn req hS hT.1 hw
      by_cases hkey : key e.builder = d
      · rw [List.filter_cons_of_pos (by simpa using hkey)]
        exact ih hT.2 hfit hopen' (h.turn req hS hT.1 hw hkey fun x hx => by rwa [hkey] at hx)
      · rw [List.filter_cons_of_neg (by simpa using hkey)]
        refine ih hT.2 hfit hopen'
          ⟨hfit.due, h.due', fun x hx => ?_, fun i hi => ?_, fun i hi => ?_⟩
        · rw [← h.files x hx]
          by_cases hshared : x ∈ S.shared
          · rw [hopen' x hshared, hopen x hshared]
          · exact (hw.moves req hS hT.1).1.others x (fun he => hkey (hx _ he)) hshared
        · rw [turn_notes_of_ne req (fun hib => hkey (hib ▸ hi)), h.notes i hi]
        · rw [turn_rest_of_ne req (fun hib => hkey (hib ▸ hi)), h.rest i hi]

omit [DecidableEq ι] in
theorem Agree.observe_eq (h : Agree (fun x => ∀ e, S.Own e x → e = d) own w v) :
    w.observe S d own = v.observe S d own :=
  Fleet.observe_eq (fun x hx => h.files x fun _ he => Site.own_unique he hx)
    fun i hi => by rw [h.rest i hi]

/-! ### Before anything is built -/

variable (S) in
/-- Builders that have not begun, each with its source in a file away from all entries and locks.
Nothing is in the way of the shared directories. -/
structure Ready (source : ι → Bytes) (w : Fleet ι) : Prop where
  due : w.machine.due = []
  sound : S.Sound w.machine.files
  rest : ∀ i, w.rest i = (req i).program S
  source : ∀ i, w.machine.files.readFile (req i).job.path = .ok (source i)
  aside : ∀ i, S.Aside (req i).job.path

/-- The key of a builder with its source. -/
def keys (S : Site) (source : ι → Bytes) (i : ι) : Digest :=
  ((req i).pipeline S).key (req i).view (req i).job (source i)

omit [DecidableEq ι] in
theorem level_program {r : Request} {source : Bytes} {fs : FileSystem}
    (haside : S.Aside r.job.path) (hsource : fs.readFile r.job.path = .ok source) :
    Level S ((r.pipeline S).key r.view r.job source) fs fs (r.program S) := by
  obtain ⟨x, hfile⟩ := lookup_of_readFile hsource
  rw [Request.program, Pipeline.build]
  cases hopen : r.view.isOpen with
  | false => exact .done _
  | true =>
      refine .reading haside hfile hfile ?_
      exact Program.Paced.mono (Site.paced_buildFrom r source) fun _ _ => trivial

omit [DecidableEq ι] in
/-- **Builders that have not begun are where they can be.** -/
theorem Ready.tracks {source : ι → Bytes} (h : w.Ready req S source) (d : Digest) :
    Tracks S d (keys req S source) w w := by
  have hlevel (i : ι) :
      Level S (keys req S source i) w.machine.files w.machine.files (w.rest i) := by
    rw [h.rest i]
    exact level_program (h.aside i) (h.source i)
  refine ⟨⟨h.due, h.sound, fun i => ⟨_, .level (hlevel i)⟩⟩, h.due, h.sound, fun _ _ => rfl,
    fun _ _ => rfl, fun i hi => ?_⟩
  rw [← hi]
  exact .level (hlevel i)

end Fleet

/-! ### Independence -/

/-- **Digests are independent of each other**, where the way to the root of the cache does not lead
through what is below the root.  Whatever turns builders of any digests take, those of one digest
come by themselves to the same, one state of their entry and locks after another: with the same
turns if the shared directories are there, and else with as many of each as it takes to make them.
A turn of a builder of another digest neither changes what belongs to the digest, nor does it depend
on that. -/
theorem digests_independent {ι : Type} [DecidableEq ι] {S : Site} {req : ι → Request}
    {source : ι → Bytes} {w : Fleet ι} {es : List (Event ι)} (hS : S.Apart)
    (hready : w.Ready req S source) (hT : ∀ e ∈ es, e.toolkit.Local) (d : Digest) :
    (∃ es', Event.Repeats (Fleet.keys req S source · = d) es es' ∧
      changes (w.course req S d (Fleet.keys req S source · = d) es) =
        changes (w.course req S d (Fleet.keys req S source · = d) es')) ∧
    (w.Open S →
      (w.turns req es).observe S d (Fleet.keys req S source · = d) =
        (w.turns req (es.filter fun e => decide (Fleet.keys req S source e.builder = d))).observe
          S d (Fleet.keys req S source · = d)) ∧
    ∀ e, e.toolkit.Local → Fleet.keys req S source e.builder ≠ d →
      (∀ x, S.Own d x → ((w.turns req es).turn req e).machine.files.node? x =
        (w.turns req es).machine.files.node? x) ∧
      ∀ v, (w.turns req es).Agree (fun x => ¬S.Own d x) (fun _ => True) v →
        ((w.turns req es).turn req e).Agree (fun x => ¬S.Own d x) (fun _ => True)
          (v.turn req e) := by
  have htracks := hready.tracks req d
  refine ⟨?_, fun hopen => ?_, fun e he hne => ?_⟩
  · obtain ⟨es', hrepeats, -, hsame⟩ := htracks.course req hS hT
    exact ⟨es', hrepeats, hsame⟩
  · have hagree : w.Agree (fun x => ∀ e, S.Own e x → e = d) (Fleet.keys req S source · = d) w :=
      ⟨hready.due, hready.due, fun _ _ => rfl, fun _ _ => rfl, fun _ _ => rfl⟩
    exact (hagree.turns_filter req hS hT htracks.fit hopen).observe_eq
  · have hfit := htracks.fit.turns req hS hT
    refine ⟨fun x hx => (hfit.moves req hS he).1.node?_of_own hS hne hx, fun v hv => ?_⟩
    exact hv.turn req hS he hfit trivial fun x hx hd => hne (hx d hd).symm

/-! ### Two builders, and a root to beware of -/

namespace Crew.Pair

variable {S : Site}

/-- The source of the two is away from every entry and lock, unless the root is where nothing is. -/
theorem aside_job (hroot : S.root.place ≠ []) : S.Aside (Path.ofString "/k.c") := by
  have hvisits : (Path.ofString "/k.c").visits = [jobPlace] := by decide
  intro x hx d hd
  rw [hvisits, List.mem_singleton] at hx
  obtain ⟨top, name, rest, hbelow⟩ := hd.below
  have hlength := congrArg List.length (hx.symm.trans hbelow)
  have hpos := List.length_pos_iff.2 hroot
  simp only [jobPlace, List.length_append, List.length_cons, List.length_nil] at hlength
  omega

/-- Among the files with which the two start nothing is in the way of a cache elsewhere. -/
theorem sound_files (hroot : S.root.place ≠ []) (hjob : jobPlace ∉ S.shared) : S.Sound files := by
  have hpos := List.length_pos_iff.2 hroot
  refine ⟨fun x hx b hb => ?_, fun d hd => ?_, fun d depth hd => ?_⟩
  · have hne : x ≠ jobPlace := fun heq => hjob (heq ▸ hx)
    rw [node?_files, Function.update_of_ne hne, FileSystem.node?] at hb
    split at hb <;> cases hb
  · exact absurd (files_eq_none (by rw [Site.length_entryPlace]; omega)) hd
  · exact absurd (files_eq_none (by rw [Site.length_lockPlace]; omega)) hd

end Crew.Pair

namespace TwoKeys

/-- The requests of two builders for one kernel, with different flags for the compiler. -/
def request (b : Bool) : Request :=
  { Crew.pair.request b with
    view := ⟨0, ⟨.serial, "cc", if b then "-O2" else "-O0", "", ""⟩, true⟩ }

/-- The keys of the two. -/
abbrev key : Bool → Digest := Fleet.keys request Crew.pair.site fun _ => Crew.Pair.source

/-- Both builders before they have begun. -/
def start : Fleet Bool :=
  ⟨⟨Crew.Pair.files, 0, 0, []⟩, fun _ => .empty, fun b => (request b).program Crew.pair.site⟩

/-- The builders take turns. -/
def events : List (Event Bool) := (List.range 50).flatMap fun n =>
  [⟨true, 2 * n, n, .ofEngine (.simulated none)⟩,
    ⟨false, 2 * n + 1, n, .ofEngine (.simulated none)⟩]

theorem local_events : ∀ e ∈ events, e.toolkit.Local := by
  intro e he
  obtain ⟨n, -, hn⟩ := List.mem_flatMap.1 he
  simp only [List.mem_cons, List.not_mem_nil, or_false] at hn
  rcases hn with rfl | rfl <;> exact Engine.local_simulated none

theorem root_place_ne_nil : Crew.pair.site.root.place ≠ [] := by
  rw [Crew.Pair.root_place]
  exact List.cons_ne_nil _ _

theorem straight : ∀ x ∈ Crew.pair.site.root.visits, x <+: Crew.pair.site.root.place := by
  rw [Crew.Pair.root_visits, Crew.Pair.root_place]
  simp

theorem ready : start.Ready request Crew.pair.site fun _ => Crew.Pair.source where
  due := rfl
  sound := Crew.Pair.sound_files root_place_ne_nil (by decide +kernel)
  rest := fun _ => rfl
  source := fun _ => Crew.Pair.readFile_files
  aside := fun _ => Crew.Pair.aside_job root_place_ne_nil

/-- Both succeed. -/
theorem succeed : ∀ b : Bool, (((start.turns request events).rest b).outcome?.bind
    Except.toOption).isSome := by
  decide +kernel

end TwoKeys

/-- Two builders whose keys differ take turns and both succeed, and the first would come to the same
by itself. -/
theorem two_keys_independent : Crew.pair.site.Apart ∧
    TwoKeys.start.Ready TwoKeys.request Crew.pair.site (fun _ => Crew.Pair.source) ∧
    (∀ e ∈ TwoKeys.events, e.toolkit.Local) ∧ TwoKeys.key true ≠ TwoKeys.key false ∧
    (∀ b, (((TwoKeys.start.turns TwoKeys.request TwoKeys.events).rest b).outcome?.bind
      Except.toOption).isSome) ∧
    ∃ es', Event.Repeats (TwoKeys.key · = TwoKeys.key true) TwoKeys.events es' ∧
      changes (TwoKeys.start.course TwoKeys.request Crew.pair.site (TwoKeys.key true)
        (TwoKeys.key · = TwoKeys.key true) TwoKeys.events) =
      changes (TwoKeys.start.course TwoKeys.request Crew.pair.site (TwoKeys.key true)
        (TwoKeys.key · = TwoKeys.key true) es') :=
  have hapart := Site.apart_of_straight TwoKeys.straight
  ⟨hapart, TwoKeys.ready, TwoKeys.local_events, by decide +kernel, TwoKeys.succeed,
    (digests_independent hapart TwoKeys.ready TwoKeys.local_events (TwoKeys.key true)).1⟩

namespace Crooked

/-- A digest that nobody builds. -/
def digest : Digest := .of (Utf8.encode "x")

/-- A cache whose root is reached through a lock of that digest. -/
def site : Site :=
  ⟨Path.ofString ("r/locks/" ++ LockTable.name digest 0 ++ "/../.."), "c",
    Crew.pair.site.noSlash⟩

/-- One builder of another digest. -/
def request : Unit → Request := fun _ => Crew.pair.request true

/-- Its key. -/
abbrev key : Unit → Digest := Fleet.keys request site fun _ => Crew.Pair.source

@[inherit_doc request] def start : Fleet Unit :=
  ⟨⟨Crew.Pair.files, 0, 0, []⟩, fun _ => .empty, fun i => (request i).program site⟩

/-- The turns until the directory for locks is there. -/
def events : List (Event Unit) := List.replicate 10 ⟨(), 0, 0, .ofEngine (.simulated none)⟩

theorem ready : start.Ready request site fun _ => Crew.Pair.source where
  due := rfl
  sound := Crew.Pair.sound_files (by decide +kernel) (by decide +kernel)
  rest := fun _ => rfl
  source := fun _ => Crew.Pair.readFile_files
  aside := fun _ => Crew.Pair.aside_job (by decide +kernel)

theorem key_ne (i : Unit) : key i ≠ digest := by
  cases i
  decide +kernel

theorem lock_made : (start.turns request events).machine.files.node? (site.lockPlace digest 0) =
    some .directory := by
  decide +kernel

end Crooked

/-- **A root that is reached through a lock makes one digest another's business**: a builder of
another digest makes the directory of the lock on its way to the root. -/
theorem crooked_root_not_independent :
    Crooked.start.Ready Crooked.request Crooked.site (fun _ => Crew.Pair.source) ∧
    (∀ e ∈ Crooked.events, e.toolkit.Local) ∧
    (Crooked.start.turns Crooked.request Crooked.events).observe Crooked.site Crooked.digest
        (Crooked.key · = Crooked.digest) ≠
      (Crooked.start.turns Crooked.request (Crooked.events.filter fun e =>
        decide (Crooked.key e.builder = Crooked.digest))).observe Crooked.site Crooked.digest
          (Crooked.key · = Crooked.digest) := by
  refine ⟨Crooked.ready, fun e he => ?_, fun heq => ?_⟩
  · rw [List.eq_of_mem_replicate he]
    exact Engine.local_simulated none
  · have hnone : Crooked.events.filter (fun e => decide (Crooked.key e.builder = Crooked.digest)) =
        [] := by
      rw [List.filter_eq_nil_iff]
      intro e _
      simpa using Crooked.key_ne e.builder
    rw [hnone] at heq
    have hlock := congrFun (congrArg Prod.fst heq)
      ⟨Crooked.site.lockPlace Crooked.digest 0, Site.own_lockPlace _ 0⟩
    have hbefore : Crew.Pair.files.node? (Crooked.site.lockPlace Crooked.digest 0) = none := by
      decide +kernel
    cases (Crooked.lock_made.symm.trans hlock).trans hbefore

end KernelCache
