/-
**Rules for programs.**

A rule says what an action asks of a state, for what is to hold of its answer and the state after
it, and what a program asks that is stalled for ever.  Going through a program from its end, this
gives what the whole program asks.  The state may be the machine itself, or no more than what the
one who runs the program keeps in mind of it; then what is kept in mind has to fit what the machine
does.

Main definitions:

* `Rule`, `Rule.via` — rules, and rules for the actions that others stand for;
* `Program.Obeys`, `Task.Obeys` — programs and tasks that obey a rule;
* `Program.Runs` — **a program from its start to any point**, where an action may have several
  outcomes;
* `Rule.watch` — the rule that something holds at all times, and that only some actions are asked
  for.

Main results:

* `Program.obeys_bind`, `Program.obeys_embed`, `Task.obeys_bind`, `Task.obeys_onFailure` — programs
  and tasks one after another;
* `Program.Obeys.mono` — **a program that obeys a rule for one purpose does so for every weaker
  one**;
* `Program.Runs.of_watch` — what is watched holds at every point of every run;
* `Program.Runs.of_run` — what is performed is a run;
* `Program.Runs.obeys`, `Program.Obeys.watched` — **from what is kept in mind to the machine**.
-/

import KernelCache.Build.Action
import KernelCache.Store

set_option relaxedAutoImplicit false
set_option autoImplicit false

namespace KernelCache

/-- What actions ask of a state, and what a stalled program asks of it. -/
structure Rule (A : Type) (R : A → Type) (σ : Type) where
  act : (a : A) → (R a → σ → Prop) → σ → Prop
  wait : σ → Prop

namespace Rule

variable {A B : Type} {R : A → Type} {R' : B → Type} {σ : Type}

/-- The rule for actions that stand for actions of a richer type. -/
def via (rule : Rule B R' σ) (f : A → B) (g : (a : A) → R' (f a) → R a) : Rule A R σ where
  act := fun a post => rule.act (f a) fun r => post (g a r)
  wait := rule.wait

/-- Whether an action asks less where less is to hold after it. -/
def Mono (rule : Rule A R σ) : Prop :=
  ∀ a (post post' : R a → σ → Prop) s, (∀ r s, post r s → post' r s) →
    rule.act a post s → rule.act a post' s

/-- The rule that something holds at all times and only some actions are asked for. -/
def watch (step : (a : A) → σ → R a → σ → Prop) (good : σ → Prop) (allowed : A → Prop) :
    Rule A R σ where
  act := fun a post s => good s ∧ allowed a ∧ ∀ r s', step a s r s' → post r s'
  wait := good

theorem mono_watch (step : (a : A) → σ → R a → σ → Prop) (good : σ → Prop) (allowed : A → Prop) :
    (watch step good allowed).Mono :=
  fun _ _ _ _ hpost h => ⟨h.1, h.2.1, fun r s' hs => hpost r s' (h.2.2 r s' hs)⟩

end Rule

namespace Program

variable {A B : Type} {R : A → Type} {R' : B → Type} {α β σ η : Type}

/-- Whether a program obeys a rule, so that `post` holds of its result and the state at its end. -/
def Obeys (rule : Rule A R σ) (post : α → σ → Prop) : Program A R α → σ → Prop
  | .done a => post a
  | .ask a next => rule.act a fun r => Obeys rule post (next r)
  | .stalled => rule.wait

variable {rule : Rule A R σ} {post : α → σ → Prop}

@[simp] theorem obeys_done (a : α) : Obeys rule post (.done a) = post a := rfl

@[simp] theorem obeys_pure (a : α) : Obeys rule post (pure a : Program A R α) = post a := rfl

@[simp] theorem obeys_ask (a : A) (next : R a → Program A R α) :
    Obeys rule post (.ask a next) = rule.act a fun r => Obeys rule post (next r) := rfl

@[simp] theorem obeys_stalled : Obeys rule post .stalled = rule.wait := rfl

theorem obeys_pure_of {a : α} {s : σ} (h : post a s) :
    Obeys rule post (pure a : Program A R α) s := h

@[simp] theorem obeys_act (a : A) (post : R a → σ → Prop) :
    Obeys rule post (Program.act a) = rule.act a post := rfl

theorem obeys_act_of {a : A} {post : R a → σ → Prop} {s : σ} (h : rule.act a post s) :
    Obeys rule post (Program.act a) s := h

theorem obeys_bind (p : Program A R α) (f : α → Program A R β) (post : β → σ → Prop) :
    Obeys rule post (p >>= f) = Obeys rule (fun a => Obeys rule post (f a)) p := by
  change Obeys rule post (p.bind f) = _
  induction p with
  | done a => rfl
  | ask a next ih =>
      rw [bind, Obeys, Obeys]
      congr 1
      funext r
      exact ih r
  | stalled => rfl

/-- A program over a richer type of actions obeys the rule for what its actions stand for. -/
theorem obeys_embed (rule : Rule B R' σ) (f : A → B) (g : (a : A) → R' (f a) → R a)
    (p : Program A R α) : Obeys rule post (embed f g p) = Obeys (rule.via f g) post p := by
  induction p with
  | done a => rfl
  | ask a next ih =>
      rw [embed, Obeys, Obeys]
      simp only [Rule.via]
      congr 1
      funext r
      exact ih (g a r)
  | stalled => rfl

/-- **A program that obeys a rule for one purpose does so for every weaker one.** -/
theorem Obeys.mono {post' : α → σ → Prop} (hrule : rule.Mono)
    (hpost : ∀ a s, post a s → post' a s) {p : Program A R α} {s : σ}
    (h : Obeys rule post p s) : Obeys rule post' p s := by
  induction p generalizing s with
  | done a => exact hpost a s h
  | ask a next ih => exact hrule a _ _ s (fun r _ => ih r) h
  | stalled => exact h

/-! ### Runs -/

/-- A program from its start to any point: what it has asked for, what is left of it, and the state
there.  An action may have several outcomes. -/
inductive Runs (step : (a : A) → σ → R a → σ → Prop) :
    Program A R α → σ → List A → Program A R α → σ → Prop
  | here (p : Program A R α) (s : σ) : Runs step p s [] p s
  | ask {a : A} {next : R a → Program A R α} {s s₁ s₂ : σ} {r : R a} {calls : List A}
      {q : Program A R α} (hstep : step a s r s₁) (hrest : Runs step (next r) s₁ calls q s₂) :
      Runs step (.ask a next) s (a :: calls) q s₂

variable {step : (a : A) → σ → R a → σ → Prop} {good : σ → Prop} {allowed : A → Prop}
  {p q : Program A R α} {s s' : σ} {calls : List A}

/-- A program that is watched is watched at every point, and has asked for what it was allowed. -/
theorem Runs.of_watch (hrun : Runs step p s calls q s')
    (h : Obeys (Rule.watch step good allowed) post p s) :
    Obeys (Rule.watch step good allowed) post q s' ∧ ∀ a ∈ calls, allowed a := by
  induction hrun with
  | here => exact ⟨h, by simp⟩
  | ask hstep _ ih =>
      obtain ⟨-, hallowed, hnext⟩ := h
      obtain ⟨hend, hcalls⟩ := ih (hnext _ _ hstep)
      exact ⟨hend, List.forall_mem_cons.2 ⟨hallowed, hcalls⟩⟩

/-- **A program that obeys a rule on what it keeps in mind does so at every point**, where what it
keeps in mind fits what the machine does. -/
theorem Runs.obeys {rule : Rule A R η} {post : α → η → Prop} (fits : η → σ → Prop)
    (hact : ∀ a post h s r s', rule.act a post h → fits h s → step a s r s' →
      ∃ h', post r h' ∧ fits h' s')
    (hrun : Runs step p s calls q s') {h : η} (hobeys : Obeys rule post p h) (hfits : fits h s) :
    ∃ h', Obeys rule post q h' ∧ fits h' s' := by
  induction hrun generalizing h with
  | here => exact ⟨h, hobeys, hfits⟩
  | ask hstep _ ih =>
      obtain ⟨h', hobeys', hfits'⟩ := hact _ _ h _ _ _ hobeys hfits hstep
      exact ih hobeys' hfits'

/-- What is performed is a run, if every step may come of its action. -/
theorem Runs.of_run {perform : (a : A) → σ → R a × σ}
    (hstep : ∀ a s, step a s (perform a s).1 (perform a s).2) (p : Program A R α) {s : σ} {a : α}
    (ha : (run perform p s).1 = some a) :
    ∃ calls, Runs step p s calls (.done a) (run perform p s).2 := by
  induction p generalizing s with
  | done b =>
      cases ha
      exact ⟨[], .here _ _⟩
  | ask action next ih =>
      obtain ⟨calls, hrest⟩ := ih _ ha
      exact ⟨_, .ask (hstep action s) hrest⟩
  | stalled => cases ha

/-- What is watched holds wherever a program is. -/
theorem Obeys.here (hpost : ∀ a s, post a s → good s)
    (h : Obeys (Rule.watch step good allowed) post p s) : good s := by
  cases p with
  | done a => exact hpost a s h
  | ask a next => exact h.1
  | stalled => exact h

/-- **From what is kept in mind to the machine.**  A program obeys a rule on what it keeps in mind,
and whatever the machine does, what is kept in mind afterwards fits it. -/
theorem Obeys.watched {rule : Rule A R η} {post : α → η → Prop} (fits : η → σ → Prop)
    (hgood : ∀ h s, fits h s → good s)
    (hact : ∀ a post h s, rule.act a post h → fits h s →
      allowed a ∧ ∀ r s', step a s r s' → ∃ h', post r h' ∧ fits h' s')
    {h : η} (hobeys : Obeys rule post p h) (hfits : fits h s) :
    Obeys (Rule.watch step good allowed) (fun a s => ∃ h, post a h ∧ fits h s) p s := by
  induction p generalizing h s with
  | done a => exact ⟨h, hobeys, hfits⟩
  | ask a next ih =>
      obtain ⟨hallowed, hnext⟩ := hact a _ h s hobeys hfits
      refine ⟨hgood h s hfits, hallowed, fun r s' hs => ?_⟩
      obtain ⟨h', hobeys', hfits'⟩ := hnext r s' hs
      exact ih r hobeys' hfits'
  | stalled => exact hgood h s hfits

end Program

namespace Task

variable {A : Type} {R : A → Type} {α β ε σ : Type}

/-- The condition on the outcome of a task. -/
def Outcome (ok : α → σ → Prop) (err : ε → σ → Prop) : Except ε α → σ → Prop
  | .ok a => ok a
  | .error e => err e

/-- Whether a task obeys a rule, so that `ok` holds if it gives a result, and `err` if it fails. -/
def Obeys (rule : Rule A R σ) (ok : α → σ → Prop) (err : ε → σ → Prop) (t : Task A R ε α) :
    σ → Prop :=
  Program.Obeys rule (Outcome ok err) t.run

variable {rule : Rule A R σ} {ok : α → σ → Prop} {err : ε → σ → Prop}

/-- A task that is run as a program hands its outcome on. -/
theorem obeys_run (t : Task A R ε α) (post : Except ε α → σ → Prop) :
    Program.Obeys rule post t.run =
      Obeys rule (fun a => post (.ok a)) (fun e => post (.error e)) t := by
  rw [Obeys]
  congr 1
  funext r
  cases r <;> rfl

@[simp] theorem obeys_pure (a : α) : Obeys rule ok err (pure a : Task A R ε α) = ok a := rfl

@[simp] theorem obeys_throw (e : ε) : Obeys rule ok err (throw e : Task A R ε α) = err e := rfl

@[simp] theorem obeys_stalled : Obeys rule ok err (stalled : Task A R ε α) = rule.wait := rfl

theorem obeys_pure_of {a : α} {s : σ} (h : ok a s) :
    Obeys rule ok err (pure a : Task A R ε α) s := h

theorem obeys_throw_of {e : ε} {s : σ} (h : err e s) :
    Obeys rule ok err (throw e : Task A R ε α) s := h

theorem obeys_stalled_of {s : σ} (h : rule.wait s) :
    Obeys rule ok err (stalled : Task A R ε α) s := h

theorem obeys_mk (p : Program A R (Except ε α)) :
    Obeys rule ok err (ExceptT.mk p) = Program.Obeys rule (Outcome ok err) p := rfl

theorem obeys_bind (t : Task A R ε α) (f : α → Task A R ε β) (ok : β → σ → Prop) :
    Obeys rule ok err (t >>= f) = Obeys rule (fun a => Obeys rule ok err (f a)) err t := by
  change Program.Obeys rule _ (t.run >>= ExceptT.bindCont f) = _
  rw [Program.obeys_bind, Obeys]
  congr 1
  funext r
  cases r <;> rfl

theorem Obeys.mono {ok' : α → σ → Prop} {err' : ε → σ → Prop} (hrule : rule.Mono)
    (hok : ∀ a s, ok a s → ok' a s) (herr : ∀ e s, err e s → err' e s) {t : Task A R ε α} {s : σ}
    (h : Obeys rule ok err t s) : Obeys rule ok' err' t s :=
  Program.Obeys.mono hrule
    (fun r s hr => by
      cases r with
      | ok a => exact hok a s hr
      | error e => exact herr e s hr) h

/-- A program as a part of a task does not fail. -/
theorem obeys_lift (p : Program A R α) :
    Obeys rule ok err (liftM p : Task A R ε α) = Program.Obeys rule ok p := by
  change Program.Obeys rule _ (p >>= fun a => pure (Except.ok a)) = _
  rw [Program.obeys_bind]
  rfl

theorem obeys_onFailure (t : Task A R ε α) (cleanUp : Program A R Unit) :
    Obeys rule ok err (t.onFailure cleanUp) =
      Obeys rule ok (fun e => Program.Obeys rule (fun _ => err e) cleanUp) t := by
  rw [onFailure, obeys_mk, Program.obeys_bind, Obeys]
  congr 1
  funext r
  cases r with
  | ok a => rfl
  | error e =>
      simp only [Program.obeys_bind]
      rfl

end Task

/-! ### Attempts, and parts of builds -/

/-- An attempt obeys what its program obeys; a failure is one of the path. -/
theorem obeys_attempt {α σ : Type} {rule : Rule Action Action.Reply σ} {ok : α → σ → Prop}
    {err : CacheError → σ → Prop} (p : Path) (program : FileProgram (Except Failure α)) :
    Task.Obeys rule ok err (Store.attempt p program) =
      Program.Obeys rule (Task.Outcome ok fun e => err (.io p e)) program := by
  rw [Store.attempt, Task.obeys_mk, Program.obeys_bind]
  congr 1
  funext r
  cases r <;> exact Program.obeys_pure _

/-- The rule for the file operations of builds. -/
def Rule.files {σ : Type} (rule : Rule BuildAction BuildAction.Reply σ) :
    Rule Action Action.Reply σ :=
  rule.via BuildAction.file fun _ r => r

namespace BuildTask

variable {α σ : Type} {rule : Rule BuildAction BuildAction.Reply σ}

theorem obeys_quietly {post : α → σ → Prop} (p : FileProgram α) :
    Program.Obeys rule post (p.embed BuildAction.file fun _ r => r) =
      Program.Obeys rule.files post p :=
  Program.obeys_embed rule BuildAction.file (fun _ r => r) p

/-- A task of the cache obeys as a part of a build what it obeys for itself. -/
theorem obeys_files {ok : α → σ → Prop} {err : BuildError → σ → Prop} (t : FileTask CacheError α) :
    Task.Obeys rule ok err (files t) =
      Task.Obeys rule.files ok (fun e => err (.ofCache e)) t := by
  rw [files, Task.obeys_mk, Program.obeys_bind, obeys_quietly, Task.Obeys]
  congr 1
  funext r
  cases r <;> rfl

end BuildTask

-- Whether programs obey a rule is found with the lemmas above, never by running them.
attribute [irreducible] Program.Obeys

end KernelCache
