/-
**Builders that take turns.**

Any number of builders of any digests share a cache.  Each turn is one action of one of them.  When
it is, where the search for a fresh name starts, and how the device compiles, is up to the turn.

The builders of one digest are followed in two runs, one among all and one by themselves.  For each
turn among all the builder takes so many turns by itself that both come to the same: none if it is
another's builder or on the way to a shared directory, all that it needs if the directory is there,
and otherwise one.

Main definitions:

* `Event`, `Fleet.turn`, `Fleet.turns` — turns;
* `Fleet.Fit` — builders that are where builders can be;
* `Fleet.observe` — what is seen of one digest;
* `Fleet.Tracks` — **two runs that come to the same for one digest**.

Main results:

* `Fleet.Fit.turn`, `Fleet.Fit.moves` — what one turn preserves, and what it changes;
* `Fleet.making_alone` — **a builder by itself makes its directory**;
* `Fleet.Tracks.turn` — **one turn among all and some by itself come to the same**.
-/

import KernelCache.Proofs.Conduct.Waiting
import KernelCache.Proofs.Independence.Abreast

set_option relaxedAutoImplicit false
set_option autoImplicit false

namespace KernelCache

open FileSystem

/-! ### Turns -/

/-- A turn: whose it is, where the search for a fresh name starts, what time it is, and how the
device of the builder compiles and loads. -/
structure Event (ι : Type) where
  builder : ι
  fresh : Nat
  clock : Nat
  toolkit : Toolkit

/-- What a program has come to. -/
def Program.outcome? {A : Type} {R : A → Type} {α : Type} : Program A R α → Option α
  | .done a => some a
  | _ => none

namespace Fleet

variable {ι : Type}

/-- The process of the builder whose turn it is. -/
def processFor (w : Fleet ι) (e : Event ι) : Process :=
  ⟨{ w.machine with fresh := e.fresh, clock := e.clock }, w.notes e.builder⟩

/-- What is seen of a digest: what belongs to it, and what its builders have come to. -/
def observe (S : Site) (d : Digest) (own : ι → Prop) (w : Fleet ι) :
    ({x // S.Own d x} → Option Node) × ({i // own i} → Option (Except BuildError Kernel)) :=
  (fun x => w.machine.files.node? x, fun i => (w.rest i).outcome?)

variable [DecidableEq ι] (req : ι → Request)

/-- One turn. -/
def turn (w : Fleet ι) (e : Event ι) : Fleet ι :=
  match w.rest e.builder with
  | .ask a next =>
    let (r, s) := e.toolkit.perform (req e.builder).view.identity a (w.processFor e)
    w.put e.builder s (next r)
  | _ => w

/-- Turns, one after another. -/
def turns (w : Fleet ι) (es : List (Event ι)) : Fleet ι := es.foldl (turn req) w

variable {S : Site} {d : Digest} {key : ι → Digest} {own : ι → Prop} {w v : Fleet ι}
  {e : Event ι} {i : ι}

theorem turn_of_ask {a : BuildAction} {next : a.Reply → BuildProgram}
    (h : w.rest e.builder = .ask a next) : w.turn req e =
      w.put e.builder (e.toolkit.perform (req e.builder).view.identity a (w.processFor e)).2
        (next (e.toolkit.perform (req e.builder).view.identity a (w.processFor e)).1) := by
  rw [turn, h]

theorem turn_of_idle (h : ∀ a next, w.rest e.builder ≠ .ask a next) : w.turn req e = w := by
  rw [turn]
  split
  · next heq => exact absurd heq (h _ _)
  · rfl

@[simp] theorem put_machine {s : Process} {p : BuildProgram} : (w.put i s p).machine = s.machine :=
  rfl

@[simp] theorem put_notes_self {s : Process} {p : BuildProgram} : (w.put i s p).notes i = s.held :=
  Function.update_self ..

theorem put_notes_of_ne {s : Process} {p : BuildProgram} {j : ι} (hj : j ≠ i) :
    (w.put i s p).notes j = w.notes j := Function.update_of_ne hj ..

theorem turn_rest_of_ne (hi : i ≠ e.builder) : (w.turn req e).rest i = w.rest i := by
  rw [turn]
  split
  · exact put_rest_of_ne hi
  · rfl

theorem turn_notes_of_ne (hi : i ≠ e.builder) : (w.turn req e).notes i = w.notes i := by
  rw [turn]
  split
  · exact put_notes_of_ne hi
  · rfl

omit [DecidableEq ι] in
theorem observe_eq (hfiles : ∀ x, S.Own d x → w.machine.files.node? x = v.machine.files.node? x)
    (hrest : ∀ i, own i → (w.rest i).outcome? = (v.rest i).outcome?) :
    observe S d own w = observe S d own v :=
  Prod.ext (funext fun x => hfiles x x.2) (funext fun i => hrest i i.2)

/-! ### One run -/

variable (S key) in
/-- Builders that are where builders of their digests can be. -/
structure Fit (w : Fleet ι) : Prop where
  due : w.machine.due = []
  sound : S.Sound w.machine.files
  stance : ∀ i, Stance S (key i) w.machine.files (w.rest i)

/-- **What one turn changes** belongs to the digest of the builder, or is missing and shared. -/
theorem Fit.moves (hS : S.Apart) (h : w.Fit S key) (hT : e.toolkit.Local) :
    S.Moves (key e.builder) w.machine.files (w.turn req e).machine.files ∧
      (w.turn req e).machine.due = [] := by
  cases hrest : w.rest e.builder with
  | ask a next =>
      rw [turn_of_ask req hrest]
      have hstance : Stance S (key e.builder) (w.processFor e).machine.files (.ask a next) :=
        hrest ▸ h.stance e.builder
      exact hstance.moves hS hT h.due
  | done x =>
      rw [turn_of_idle req (by simp [hrest])]
      exact ⟨.refl _ _, h.due⟩
  | stalled =>
      rw [turn_of_idle req (by simp [hrest])]
      exact ⟨.refl _ _, h.due⟩

/-- **One turn leaves builders where builders can be.** -/
theorem Fit.turn (hS : S.Apart) (h : w.Fit S key) (hT : e.toolkit.Local) :
    (w.turn req e).Fit S key := by
  obtain ⟨hmoves, hdue⟩ := h.moves req hS hT
  have hsound := hmoves.sound h.sound
  refine ⟨hdue, hsound, fun i => ?_⟩
  by_cases hi : i = e.builder
  · subst hi
    cases hrest : w.rest e.builder with
    | ask a next =>
        rw [turn_of_ask req hrest] at hsound ⊢
        have hstance : Stance S (key e.builder) (w.processFor e).machine.files (.ask a next) :=
          hrest ▸ h.stance e.builder
        rw [put_rest_self]
        exact hstance.perform hS hsound
    | done x =>
        rw [turn_of_idle req (by simp [hrest])]
        exact h.stance _
    | stalled =>
        rw [turn_of_idle req (by simp [hrest])]
        exact h.stance _
  · rw [turn_rest_of_ne req hi]
    exact (h.stance i).mono hS hmoves

/-! ### A builder by itself -/

variable {q : Path} {k : Except Failure Unit → BuildProgram} {u : Fleet ι}

variable (S d i q) in
/-- What making a directory leaves as it was. -/
structure Passes (v u : Fleet ι) : Prop where
  due : u.machine.due = []
  moves : S.Moves d v.machine.files u.machine.files
  keeps : ∀ x, S.Own d x → x ≠ q.place → u.machine.files.node? x = v.machine.files.node? x
  notes : u.notes = v.notes
  rest : ∀ j, j ≠ i → u.rest j = v.rest j

omit [DecidableEq ι] in
theorem Passes.trans (h : Passes S d i q w v) (h' : Passes S d i q v u) : Passes S d i q w u where
  due := h'.due
  moves := h.moves.trans h'.moves
  keeps := fun x hx hne => (h'.keeps x hx hne).trans (h.keeps x hx hne)
  notes := h'.notes.trans h.notes
  rest := fun j hj => (h'.rest j hj).trans (h.rest j hj)

theorem passes_turn (hS : S.Apart) (hdue : v.machine.due = [])
    (h : Making S d v.machine.files q k (v.rest e.builder)) :
    Passes S d e.builder q v (v.turn req e) := by
  cases hrest : v.rest e.builder with
  | ask a next =>
      have hmaking : Making S d (v.processFor e).machine.files q k (.ask a next) := hrest ▸ h
      obtain ⟨hway, hq⟩ := hmaking.asks
      have hheld : (e.toolkit.perform (req e.builder).view.identity a (v.processFor e)).2.held =
          v.notes e.builder := hway.held
      have hkeeps : ∀ x, S.Own d x → x ≠ q.place →
          (e.toolkit.perform (req e.builder).view.identity a
            (v.processFor e)).2.machine.files.node? x = v.machine.files.node? x := by
        cases hmaking with
        | ask => exact fun x hx hne => hway.keeps hS hq hx (Or.inl hne)
      obtain ⟨hmoves, hdue'⟩ := Site.moves_makesWay (T := e.toolkit)
        (i := (req e.builder).view.identity) (s := v.processFor e) hS hq hway hdue
      rw [turn_of_ask req hrest]
      refine ⟨hdue', hmoves, hkeeps, ?_, fun j hj => put_rest_of_ne hj⟩
      rw [put, hheld, Function.update_eq_self]
  | done x =>
      rw [hrest] at h
      cases h
  | stalled =>
      rw [hrest] at h
      cases h

/-- **A builder by itself makes its directory**, and until then nothing is to be seen of it. -/
theorem making_alone (hS : S.Apart) (own : ι → Prop) {p : BuildProgram} (hp : v.rest e.builder = p)
    (hdue : v.machine.due = []) (h : Making S d v.machine.files q k p) :
    ∃ n r, ((turn req · e)^[n] v).rest e.builder = k r ∧
      Made q r ((turn req · e)^[n] v).machine.files ∧
      Passes S d e.builder q v ((turn req · e)^[n] v) ∧
      ∀ m < n, observe S d own ((turn req · e)^[m] v) = observe S d own v := by
  induction p generalizing v with
  | ask a next ih =>
      have hpasses := passes_turn req hS hdue (hp ▸ h)
      have hmaking : Making S d (v.processFor e).machine.files q k (.ask a next) := h
      have hturn := turn_of_ask req hp
      rcases hmaking.perform (T := e.toolkit) (i := (req e.builder).view.identity) hS with
        ⟨h₁, hown⟩ | ⟨r, hr, hmade⟩
      · -- there is more to do
        have hrest₁ : (v.turn req e).rest e.builder = next
            (e.toolkit.perform (req e.builder).view.identity a (v.processFor e)).1 := by
          rw [hturn, put_rest_self]
        have hmaking₁ : Making S d (v.turn req e).machine.files q k (next
            (e.toolkit.perform (req e.builder).view.identity a (v.processFor e)).1) := by
          rw [hturn]
          exact h₁
        have hsame : observe S d own (v.turn req e) = observe S d own v := by
          refine observe_eq (fun x hx => ?_) fun i _ => ?_
          · rw [hturn]
            exact hown x hx
          · by_cases hi : i = e.builder
            · subst hi
              obtain ⟨b, m, hask⟩ := hmaking₁.exists_ask
              rw [hrest₁, hp, hask]
              rfl
            · rw [turn_rest_of_ne req hi]
        obtain ⟨n, r, hrest, hmade, hpasses', hseen⟩ := ih _ hrest₁ hpasses.due hmaking₁
        refine ⟨n + 1, r, hrest, hmade, hpasses.trans hpasses', fun m hm => ?_⟩
        cases m with
        | zero => rfl
        | succ m => exact (hseen m (Nat.lt_of_succ_lt_succ hm)).trans hsame
      · refine ⟨1, r, ?_, ?_, hpasses, fun m hm => ?_⟩
        · rw [Function.iterate_one, hturn, put_rest_self, hr]
        · rw [Function.iterate_one, hturn]
          exact hmade
        · obtain rfl : m = 0 := Nat.lt_one_iff.1 hm
          rfl
  | done x => cases h
  | stalled => cases h

/-! ### Two runs -/

variable (S key d) in
/-- Two runs that come to the same for a digest: what belongs to it is the same in both, and its
builders are where they are in both. -/
structure Tracks (w v : Fleet ι) : Prop where
  fit : w.Fit S key
  due : v.machine.due = []
  sound : S.Sound v.machine.files
  own : ∀ x, S.Own d x → w.machine.files.node? x = v.machine.files.node? x
  notes : ∀ i, key i = d → w.notes i = v.notes i
  abreast : ∀ i, key i = d → Abreast S d w.machine.files v.machine.files (w.rest i) (v.rest i)

omit [DecidableEq ι] in
/-- **The same is to be seen in both.** -/
theorem Tracks.observe_eq (h : Tracks S d key w v) :
    observe S d (key · = d) w = observe S d (key · = d) v := by
  refine Fleet.observe_eq h.own fun i hi => ?_
  have habreast := h.abreast i hi
  generalize w.rest i = p at habreast
  generalize v.rest i = p' at habreast
  cases habreast with
  | level => rfl
  | making hmaking =>
      obtain ⟨a, next, rfl⟩ := hmaking.exists_ask
      obtain ⟨a', next', heq⟩ := (hmaking.before h.sound).exists_ask
      rw [heq]
      rfl

/-- A turn among all and what the builder does by itself meanwhile. -/
theorem Tracks.step (hS : S.Apart) (hT : e.toolkit.Local) (h : Tracks S d key w v)
    (hdue : u.machine.due = []) (hmoves : S.Moves d v.machine.files u.machine.files)
    (hnotes : ∀ j, j ≠ e.builder → u.notes j = v.notes j)
    (hrest : ∀ j, j ≠ e.builder → u.rest j = v.rest j)
    (hown : ∀ x, S.Own d x → (w.turn req e).machine.files.node? x = u.machine.files.node? x)
    (hbuilder : key e.builder = d → (w.turn req e).notes e.builder = u.notes e.builder ∧
      Abreast S d (w.turn req e).machine.files u.machine.files ((w.turn req e).rest e.builder)
        (u.rest e.builder)) : Tracks S d key (w.turn req e) u where
  fit := h.fit.turn req hS hT
  due := hdue
  sound := hmoves.sound h.sound
  own := hown
  notes := fun i hi => by
    by_cases hib : i = e.builder
    · subst hib
      exact (hbuilder hi).1
    · rw [turn_notes_of_ne req hib, hnotes i hib, h.notes i hi]
  abreast := fun i hi => by
    by_cases hib : i = e.builder
    · subst hib
      exact (hbuilder hi).2
    · rw [turn_rest_of_ne req hib, hrest i hib]
      exact (h.abreast i hi).mono hS (h.fit.moves req hS hT).1 hmoves

/-- A turn of a builder that is at the same point in both runs. -/
theorem Tracks.turn_level (hS : S.Apart) (hT : e.toolkit.Local) (h : Tracks S d key w v)
    (hkey : key e.builder = d) {a : BuildAction} {next : a.Reply → BuildProgram}
    (hrest : w.rest e.builder = .ask a next) (hrest' : v.rest e.builder = .ask a next)
    (hlevel : Level S d w.machine.files v.machine.files (.ask a next)) :
    Tracks S d key (w.turn req e) (v.turn req e) := by
  have hbeside : (w.processFor e).Beside (v.processFor e) :=
    ⟨h.notes _ hkey, rfl, rfl, h.fit.due, h.due⟩
  obtain ⟨hreply, hafter, hagree⟩ := Toolkit.perform_alike (i := (req e.builder).view.identity) hT
    hbeside (hlevel.reads h.fit.sound h.sound h.own)
  have hstance : Stance S d (v.processFor e).machine.files (.ask a next) :=
    ⟨_, .level hlevel.symm.left⟩
  obtain ⟨hmoves, hdue⟩ := hstance.moves (i := (req e.builder).view.identity) hS hT h.due
  have hgoes : S.Goes d (next
      (e.toolkit.perform (req e.builder).view.identity a (w.processFor e)).1) :=
    Level.goes (s := w.processFor e) hlevel
  have hsound := (h.fit.turn req hS hT).sound
  rw [turn_of_ask req hrest] at hsound
  refine h.step req hS hT ?_ ?_ (fun j hj => turn_notes_of_ne req hj)
    (fun j hj => turn_rest_of_ne req hj) (fun x hx => ?_) fun _ => ?_
  · rw [turn_of_ask req hrest']
    exact hdue
  · rw [turn_of_ask req hrest']
    exact hmoves
  · rw [turn_of_ask req hrest, turn_of_ask req hrest']
    exact hagree x (h.own x hx)
  · rw [turn_of_ask req hrest, turn_of_ask req hrest', put_rest_self, put_rest_self, ← hreply,
      put_notes_self, put_notes_self]
    exact ⟨hafter.held, .of_goes hsound hgoes⟩

/-- A turn of a builder that is on the way to a directory. -/
theorem Tracks.turn_making (hS : S.Apart) (hT : e.toolkit.Local) (h : Tracks S d key w v)
    (hkey : key e.builder = d) {p : BuildProgram} (hrest : w.rest e.builder = p)
    (hrest' : v.rest e.builder = Site.before q k) (hmaking : Making S d w.machine.files q k p) :
    ∃ n, Tracks S d key (w.turn req e) ((turn req · e)^[n] v) ∧
      ∀ m < n, observe S d (key · = d) ((turn req · e)^[m] v) =
        observe S d (key · = d) v := by
  obtain ⟨a, next, rfl⟩ := hmaking.exists_ask
  have hpasses : Passes S d e.builder q w (w.turn req e) :=
    passes_turn req hS h.fit.due (hrest ▸ hmaking)
  have hheld : (w.turn req e).notes e.builder = v.notes e.builder := by
    rw [hpasses.notes, h.notes _ hkey]
  rcases hmaking.perform (T := e.toolkit) (i := (req e.builder).view.identity)
    (s := w.processFor e) hS with ⟨h₁, hsame⟩ | ⟨r, hr, hmade⟩
  · -- by itself the builder has not begun
    refine ⟨0, h.step req hS hT h.due (.refl _ _) (fun _ _ => rfl) (fun _ _ => rfl) (fun x hx => ?_)
      (fun _ => ⟨hheld, ?_⟩), fun m hm => absurd hm (Nat.not_lt_zero m)⟩
    · rw [turn_of_ask req hrest]
      exact (hsame x hx).trans (h.own x hx)
    · rw [turn_of_ask req hrest, put_rest_self, Function.iterate_zero, id, hrest']
      exact .making h₁
  · have hstart : Making S d v.machine.files q k (Site.before q k) :=
      hmaking.before h.sound
    obtain ⟨n, r', hr', hmade', hpasses', hseen⟩ :=
      making_alone req hS (key · = d) hrest' h.due hstart
    have hmade₁ : Made q r (w.turn req e).machine.files := by
      rw [turn_of_ask req hrest]
      exact hmade
    obtain ⟨rfl, hown⟩ := Made.same hmaking.asks.2 (h.fit.turn req hS hT).sound
      (hpasses'.moves.sound h.sound) h.own hpasses.moves hpasses'.moves hpasses.keeps
      hpasses'.keeps hmade₁ hmade'
    refine ⟨n, h.step req hS hT hpasses'.due hpasses'.moves (fun j _ => congrFun hpasses'.notes j)
      hpasses'.rest hown (fun _ => ⟨?_, ?_⟩), hseen⟩
    · rw [hheld, hpasses'.notes]
    · rw [hr']
      have hrest₁ : (w.turn req e).rest e.builder = k r := by
        rw [turn_of_ask req hrest, put_rest_self, hr]
      rw [hrest₁]
      exact hmaking.finish (h.fit.turn req hS hT).sound hmade₁ hmade'

/-- **One turn among all and some by itself come to the same.** -/
theorem Tracks.turn (hS : S.Apart) (hT : e.toolkit.Local) (h : Tracks S d key w v) :
    ∃ n, Tracks S d key (w.turn req e) ((Fleet.turn req · e)^[n] v) ∧
      (key e.builder ≠ d → n = 0) ∧
      ∀ m < n, observe S d (key · = d) ((Fleet.turn req · e)^[m] v) =
        observe S d (key · = d) v := by
  have hidle (w' : Fleet ι) : ∀ m < 0, observe S d (key · = d) ((Fleet.turn req · e)^[m] w') =
      observe S d (key · = d) w' := fun m hm => absurd hm (Nat.not_lt_zero m)
  by_cases hkey : key e.builder = d
  · have habreast := h.abreast _ hkey
    generalize hp : w.rest e.builder = p at habreast
    generalize hp' : v.rest e.builder = p' at habreast
    cases habreast with
    | level hlevel =>
        cases p with
        | ask a next =>
            refine ⟨1, h.turn_level req hS hT hkey hp hp' hlevel, fun hne => absurd hkey hne,
              fun m hm => ?_⟩
            obtain rfl : m = 0 := Nat.lt_one_iff.1 hm
            rfl
        | done x =>
            rw [turn_of_idle req (by simp [hp])]
            exact ⟨0, h, fun _ => rfl, hidle v⟩
        | stalled =>
            rw [turn_of_idle req (by simp [hp])]
            exact ⟨0, h, fun _ => rfl, hidle v⟩
    | making hmaking =>
        obtain ⟨n, htracks, hseen⟩ := h.turn_making req hS hT hkey hp hp' hmaking
        exact ⟨n, htracks, fun hne => absurd hkey hne, hseen⟩
  · refine ⟨0, h.step req hS hT h.due (.refl d _) (fun _ _ => rfl) (fun _ _ => rfl)
      (fun x hx => ?_) (fun heq => absurd heq hkey), fun _ => rfl, hidle v⟩
    rw [(h.fit.moves req hS hT).1.node?_of_own hS hkey hx]
    exact h.own x hx

end Fleet

end KernelCache
