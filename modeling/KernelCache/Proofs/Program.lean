/-
**What a program needs in order to end well.**

Each action is given by what it needs: a map from what should hold after it, of its answer and the
state, to what has to hold before.  Going through a program from its end, this gives what the whole
program needs.  A stalled program never ends; whether that is well is up to the purpose.

Main definitions:

* `Program.Needs` — what a program needs;
* `Task.Needs` — the same for tasks, with one condition for results and one for failures;
* `Program.observe`, `Program.Sees` — programs that only look, at a state that others change;
* `Program.Does` — programs that run alone.

Main results:

* `Program.needs_bind`, `Program.needs_embed` — programs one after another, and over other actions;
* `Program.Needs.mono` — **a program that ends well for one purpose does so for every weaker one**;
* `Task.needs_bind`, `Task.needs_lift`, `Task.needs_onFailure` — tasks;
* `Program.observe_of_needs`, `Program.run_of_needs` — what programs come to that only look, or that
  run alone;
* `needs_attempt`, `BuildTask.needs_files` — attempts, and tasks of the cache as parts of a build.
-/

import KernelCache.Proofs.Rule

set_option relaxedAutoImplicit false
set_option autoImplicit false

namespace KernelCache

namespace Program

variable {A B : Type} {R : A → Type} {R' : B → Type} {α β σ : Type}

/-- What a program needs so that `post` holds of its result and the state at its end, where `idle`
says whether it may be stalled. -/
def Needs (idle : Prop) (act : (a : A) → (R a → σ → Prop) → σ → Prop) (post : α → σ → Prop) :
    Program A R α → σ → Prop
  | .done a => post a
  | .ask a next => act a fun r => Needs idle act post (next r)
  | .stalled => fun _ => idle

variable {idle : Prop} {act : (a : A) → (R a → σ → Prop) → σ → Prop} {post : α → σ → Prop}

@[simp] theorem needs_done (a : α) : Needs idle act post (.done a) = post a := rfl

@[simp] theorem needs_pure (a : α) : Needs idle act post (pure a : Program A R α) = post a := rfl

@[simp] theorem needs_ask (a : A) (next : R a → Program A R α) :
    Needs idle act post (.ask a next) = act a fun r => Needs idle act post (next r) := rfl

@[simp] theorem needs_stalled (s : σ) : Needs True act post .stalled s := trivial

theorem needs_pure_of {a : α} {s : σ} (h : post a s) :
    Needs idle act post (pure a : Program A R α) s := h

@[simp] theorem needs_act (a : A) (post : R a → σ → Prop) :
    Needs idle act post (Program.act a) = act a post := rfl

/-- What programs need is a rule that does not look at the state where a program is stalled. -/
theorem needs_eq (p : Program A R α) :
    Needs idle act post p = Obeys ⟨act, fun _ => idle⟩ post p := by
  induction p with
  | done a => rw [Needs, obeys_done]
  | ask a next ih =>
      rw [Needs, obeys_ask]
      congr 1
      funext r
      exact ih r
  | stalled => rw [Needs, obeys_stalled]

theorem needs_bind (p : Program A R α) (f : α → Program A R β) (post : β → σ → Prop) :
    Needs idle act post (p >>= f) = Needs idle act (fun a => Needs idle act post (f a)) p := by
  simp only [needs_eq, obeys_bind]

/-- A program over a richer type of actions needs what its actions need there. -/
theorem needs_embed (act : (b : B) → (R' b → σ → Prop) → σ → Prop) (f : A → B)
    (g : (a : A) → R' (f a) → R a) (p : Program A R α) :
    Needs idle act post (embed f g p) =
      Needs idle (fun a k => act (f a) fun r => k (g a r)) post p := by
  rw [needs_eq, needs_eq, obeys_embed]
  rfl

/-- **A program that ends well for one purpose does so for every weaker one.** -/
theorem Needs.mono {post' : α → σ → Prop}
    (hact : ∀ a (k k' : R a → σ → Prop) s, (∀ r s, k r s → k' r s) → act a k s → act a k' s)
    (hpost : ∀ a s, post a s → post' a s) {p : Program A R α} {s : σ}
    (h : Needs idle act post p s) : Needs idle act post' p s := by
  have hrule : (Rule.mk act fun _ => idle).Mono := hact
  rw [needs_eq] at h ⊢
  exact h.mono hrule hpost

/-- What a program comes to that changes nothing and asks one thing at each of the times from a
given one on. -/
def observe (see : Nat → (a : A) → R a) : Program A R α → Nat → Option α
  | .done a, _ => some a
  | .ask a next, n => observe see (next (see n a)) (n + 1)
  | .stalled, _ => none

/-- What an action of such a program needs. -/
def Sees (see : Nat → (a : A) → R a) (a : A) (post : R a → Nat → Prop) (n : Nat) : Prop :=
  post (see n a) (n + 1)

/-- Observers come to what they need. -/
theorem observe_of_needs {see : Nat → (a : A) → R a} {good : α → Prop} {p : Program A R α} {n : Nat}
    (h : Needs idle (Sees see) (fun a _ => good a) p n) {a : α} (ha : observe see p n = some a) :
    good a := by
  induction p generalizing n with
  | done b =>
      rw [observe] at ha
      exact Option.some.inj ha ▸ h
  | ask b next ih => exact ih _ h ha
  | stalled => cases ha

/-- What an action needs that is performed at once, with nobody else at work. -/
def Does (perform : (a : A) → σ → R a × σ) (a : A) (post : R a → σ → Prop) (s : σ) : Prop :=
  post (perform a s).1 (perform a s).2

/-- **A program that runs alone comes to an end, and ends well.** -/
theorem run_of_needs {perform : (a : A) → σ → R a × σ} {p : Program A R α} {s : σ}
    (h : Needs False (Does perform) post p s) :
    ∃ a s', run perform p s = (some a, s') ∧ post a s' := by
  induction p generalizing s with
  | done a => exact ⟨a, s, rfl, h⟩
  | ask a next ih => exact ih _ h
  | stalled => exact h.elim

end Program

namespace Task

variable {A : Type} {R : A → Type} {α β ε ε' σ : Type}

/-- What a task needs so that `ok` holds if it gives a result, and `err` if it fails. -/
def Needs (idle : Prop) (act : (a : A) → (R a → σ → Prop) → σ → Prop) (ok : α → σ → Prop)
    (err : ε → σ → Prop) (t : Task A R ε α) : σ → Prop :=
  Program.Needs idle act (Outcome ok err) t.run

variable {idle : Prop} {act : (a : A) → (R a → σ → Prop) → σ → Prop} {ok : α → σ → Prop}
  {err : ε → σ → Prop}

/-- What tasks need is a rule, too. -/
theorem needs_eq (t : Task A R ε α) :
    Needs idle act ok err t = Obeys ⟨act, fun _ => idle⟩ ok err t :=
  Program.needs_eq t.run

/-- A task that is run as a program hands its outcome on. -/
theorem needs_run (t : Task A R ε α) (post : Except ε α → σ → Prop) :
    Program.Needs idle act post t.run =
      Needs idle act (fun a => post (.ok a)) (fun e => post (.error e)) t := by
  rw [needs_eq, Program.needs_eq, obeys_run]

@[simp] theorem needs_pure (a : α) : Needs idle act ok err (pure a : Task A R ε α) = ok a := rfl

@[simp] theorem needs_throw (e : ε) : Needs idle act ok err (throw e : Task A R ε α) = err e := rfl

@[simp] theorem needs_stalled (s : σ) : Needs True act ok err (stalled : Task A R ε α) s := trivial

theorem needs_pure_of {a : α} {s : σ} (h : ok a s) :
    Needs idle act ok err (pure a : Task A R ε α) s := h

theorem needs_throw_of {e : ε} {s : σ} (h : err e s) :
    Needs idle act ok err (throw e : Task A R ε α) s := h

theorem needs_mk (p : Program A R (Except ε α)) :
    Needs idle act ok err (ExceptT.mk p) = Program.Needs idle act (Outcome ok err) p := rfl

theorem needs_bind (t : Task A R ε α) (f : α → Task A R ε β) (ok : β → σ → Prop) :
    Needs idle act ok err (t >>= f) =
      Needs idle act (fun a => Needs idle act ok err (f a)) err t := by
  simp only [needs_eq, obeys_bind]

theorem Needs.mono {ok' : α → σ → Prop} {err' : ε → σ → Prop}
    (hact : ∀ a (k k' : R a → σ → Prop) s, (∀ r s, k r s → k' r s) → act a k s → act a k' s)
    (hok : ∀ a s, ok a s → ok' a s) (herr : ∀ e s, err e s → err' e s) {t : Task A R ε α} {s : σ}
    (h : Needs idle act ok err t s) : Needs idle act ok' err' t s := by
  have hrule : (Rule.mk act fun _ => idle).Mono := hact
  rw [needs_eq] at h ⊢
  exact h.mono hrule hok herr

/-- A program as a part of a task does not fail. -/
theorem needs_lift (p : Program A R α) :
    Needs idle act ok err (liftM p : Task A R ε α) = Program.Needs idle act ok p := by
  rw [needs_eq, obeys_lift, Program.needs_eq]

theorem needs_onFailure (t : Task A R ε α) (cleanUp : Program A R Unit) :
    Needs idle act ok err (t.onFailure cleanUp) =
      Needs idle act ok (fun e => Program.Needs idle act (fun _ => err e) cleanUp) t := by
  simp only [needs_eq, Program.needs_eq, obeys_onFailure]

theorem observe_of_needs {see : Nat → (a : A) → R a} {good : ε → Prop} {t : Task A R ε α} {n : Nat}
    (h : Needs idle (Program.Sees see) (fun _ _ => True) (fun e _ => good e) t n) {e : ε}
    (he : Program.observe see t.run n = some (.error e)) : good e := by
  have hgood : Program.Needs idle (Program.Sees see) (fun r _ => ∀ e, r = .error e → good e)
      t.run n := by
    refine Program.Needs.mono (fun a _ _ m hk hs => hk (see m a) (m + 1) hs)
      (fun r _ hr e he => ?_) h
    subst he
    exact hr
  exact Program.observe_of_needs hgood he e rfl

end Task

/-! ### Attempts, and parts of builds -/

/-- An attempt needs what its program needs; a failure is one of the path. -/
theorem needs_attempt {α σ : Type} {idle : Prop}
    {act : (a : Action) → (a.Reply → σ → Prop) → σ → Prop} {ok : α → σ → Prop}
    {err : CacheError → σ → Prop} (p : Path) (program : FileProgram (Except Failure α)) :
    Task.Needs idle act ok err (Store.attempt p program) =
      Program.Needs idle act (Task.Outcome ok fun e => err (.io p e)) program := by
  rw [Task.needs_eq, obeys_attempt, Program.needs_eq]

namespace BuildTask

variable {α σ : Type} {idle : Prop} {act : (a : BuildAction) → (a.Reply → σ → Prop) → σ → Prop}
  {fileAct : (a : Action) → (a.Reply → σ → Prop) → σ → Prop}

theorem needs_quietly {post : α → σ → Prop} (hact : ∀ a, act (.file a) = fileAct a)
    (p : FileProgram α) :
    Program.Needs idle act post (p.embed BuildAction.file fun _ r => r) =
      Program.Needs idle fileAct post p := by
  obtain rfl : (fun a => act (.file a)) = fileAct := funext hact
  exact Program.needs_embed act BuildAction.file (fun _ r => r) p

/-- A task of the cache needs as a part of a build what it needs for itself. -/
theorem needs_files {ok : α → σ → Prop} {err : BuildError → σ → Prop}
    (hact : ∀ a, act (.file a) = fileAct a) (t : FileTask CacheError α) :
    Task.Needs idle act ok err (files t) =
      Task.Needs idle fileAct ok (fun e => err (.ofCache e)) t := by
  have hrule : (Rule.mk act fun _ : σ => idle).files = ⟨fileAct, fun _ => idle⟩ := by
    obtain rfl : (fun a => act (.file a)) = fileAct := funext hact
    rfl
  rw [Task.needs_eq, obeys_files, hrule, Task.needs_eq]

end BuildTask

-- What programs need is found with the lemmas above, never by running them.
attribute [irreducible] Program.Needs

end KernelCache
