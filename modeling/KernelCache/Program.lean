/-
**Programs that ask for one action at a time.**

What the cache does to the files that it shares with other processes is written as programs that ask
for atomic actions and go on with the answer.  A program is data, so the same text is run from start
to end by one process here, and cut into steps where several processes are interleaved.

A program may also wait for something that never happens.  Its retries are counted by an explicit
number, and when that is used up the program is `stalled`: neither a result nor a failure.

Main definitions:

* `Program`, `Program.bind`, `Program.act` — programs over a type of actions with typed answers;
* `Program.run` — running a program with a handler for its actions;
* `Program.embed` — a program as one over a richer type of actions;
* `Task` — programs that may fail.
-/

set_option relaxedAutoImplicit false
set_option autoImplicit false

namespace KernelCache

/-- A program over the actions `A`, whose answers have the types `R`. -/
inductive Program (A : Type) (R : A → Type) (α : Type) where
  | done (a : α)
  | ask (action : A) (next : R action → Program A R α)
  | stalled

namespace Program

variable {A : Type} {R : A → Type} {α β σ : Type}

/-- Runs a second program with the result of a first. -/
def bind (p : Program A R α) (f : α → Program A R β) : Program A R β :=
  match p with
  | .done a => f a
  | .ask action next => .ask action fun r => (next r).bind f
  | .stalled => .stalled

instance : Monad (Program A R) where
  pure := .done
  bind := .bind

/-- The program that asks for one action. -/
def act (action : A) : Program A R (R action) := .ask action .done

/-- Runs a program from start to end.  A stalled program has no result. -/
def run (handle : (a : A) → σ → R a × σ) : Program A R α → σ → Option α × σ
  | .done a, s => (some a, s)
  | .ask action next, s =>
    let (r, s) := handle action s
    run handle (next r) s
  | .stalled, s => (none, s)

/-- The same program over a richer type of actions. -/
def embed {B : Type} {S : B → Type} (f : A → B) (g : (a : A) → S (f a) → R a) :
    Program A R α → Program B S α
  | .done a => .done a
  | .ask action next => .ask (f action) fun r => embed f g (next (g action r))
  | .stalled => .stalled

end Program

/-- A program that ends with a result or a failure. -/
abbrev Task (A : Type) (R : A → Type) (ε α : Type) := ExceptT ε (Program A R) α

namespace Task

variable {A : Type} {R : A → Type} {ε ε' α β : Type}

/-- The task that waits for ever. -/
def stalled : Task A R ε α := ExceptT.mk .stalled

/-- Runs a task and, however it ends, a second program after it. -/
def andFinally (t : Task A R ε α) (after : Program A R Unit) : Task A R ε α :=
  ExceptT.mk do
    let r ← t.run
    after
    return r

/-- Runs a task and, if it fails, a program to clean up. -/
def onFailure (t : Task A R ε α) (cleanUp : Program A R Unit) : Task A R ε α :=
  ExceptT.mk do
    match ← t.run with
    | .ok a => return .ok a
    | .error e =>
      cleanUp
      return .error e

/-- The task with its failures renamed. -/
def mapError (f : ε → ε') (t : Task A R ε α) : Task A R ε' α := t.adapt f

end Task

end KernelCache
