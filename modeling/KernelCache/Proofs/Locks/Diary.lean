/-
**The diary of a process among others.**

Between two actions of a process the others may do to the machine whatever they like, and time may
pass; only the notes of the process are its own.  Each of its own actions may fail.  What it has
asked for, what it found there, what it was answered and what it left is its diary.

Main definitions:

* `Moment`, `Diary` — one action, and all of them, the latest first;
* `Process.Meanwhile` — what may happen between two actions;
* `Diary.Writes` — **one more action of a process among others**;
* `Diary.amid` — the next moment where it is given what the others do, and nothing fails.

Main results:

* `Process.Fares.held`, `Process.Fares.look`, `Process.Fares.of_steady` — what becomes of the notes,
  the answer to a look, and actions that do not fail;
* `Diary.writes_amid` — what is played is a diary.
-/

import KernelCache.Proofs.Conduct.Turn
import KernelCache.Proofs.Files.Alike
import KernelCache.Proofs.Locks.History

set_option relaxedAutoImplicit false
set_option autoImplicit false

namespace KernelCache

/-! ### Single actions -/

/-- What an action makes of the notes. -/
def Action.noted : Action → SortedMap Path Unit → SortedMap Path Unit
  | .hold x, notes => notes.insert x ()
  | .letGo x, notes => notes.erase x
  | _, notes => notes

namespace Process.Fares

variable {fails : Action → Prop} {s s' : Process} {p : Path}

/-- An action makes of the notes the same whether or not it fails. -/
theorem held {a : Action} {r : a.Reply} (h : s.Fares fails a r s') :
    s'.held = a.noted s.held := by
  cases h with
  | works =>
      cases a with
      | makeDirectory p => exact s.change_held _
      | removeDirectory p => exact s.change_held _
      | write p b => exact s.change_held _
      | removeFile p => exact s.change_held _
      | move p q => exact s.change_held _
      | createFresh dir stem =>
          simp only [perform]
          split <;> rfl
      | look p | read p | names p | now | sleep d | hold x | letGo x | held => rfl
  | fails ha hr =>
      cases a with
      | hold x | letGo x => exact hr.elim
      | _ => rfl
  | tears ha hfs => rfl

/-- A look leaves everything as it is.  What is said to be there or to be missing is so. -/
theorem look {r : Except Failure Node} (h : s.Fares fails (.look p) r s') :
    s' = s ∧ ((∃ x n, s.machine.files.lookup p = .ok (x, n) ∧ r = .ok n) ∨
      s.machine.files.lookup p = .error .notFound ∧ r = .error .notFound ∨
      ∃ e, e ≠ .notFound ∧ r = .error e) := by
  cases h with
  | works =>
      refine ⟨rfl, ?_⟩
      simp only [perform]
      cases hl : s.machine.files.lookup p with
      | ok found => exact Or.inl ⟨found.1, found.2, rfl, rfl⟩
      | error e =>
          by_cases he : e = .notFound
          · exact Or.inr (Or.inl ⟨he ▸ rfl, he ▸ rfl⟩)
          · exact Or.inr (Or.inr ⟨e, he, rfl⟩)
  | fails ha hr => exact ⟨rfl, Or.inr (Or.inr hr)⟩

/-- An action that has no way to fail does what it is meant to do. -/
theorem of_steady {a : Action} {r : a.Reply} (h : s.Fares fails a r s')
    (hsteady : ∀ r, ¬a.Fails r) (hwrite : ∀ p b, a ≠ .write p b) :
    r = (s.perform a).1 ∧ s' = (s.perform a).2 := by
  cases h with
  | works => exact ⟨rfl, rfl⟩
  | fails ha hr => exact absurd hr (hsteady r)
  | tears ha hfs => exact absurd rfl (hwrite _ _)

end Process.Fares

/-! ### Diaries -/

/-- An action of a process: what it found, what it was answered and what it left. -/
structure Moment where
  action : Action
  found : Process
  reply : action.Reply
  left : Process

/-- What a process has done, the latest first. -/
abbrev Diary := List Moment

/-- What may happen between two actions of a process.  Others may do anything, but they leave the
notes of the process alone, the clock does not go back, and whatever they do they do now. -/
structure Process.Meanwhile (s s' : Process) : Prop where
  held : s'.held = s.held
  clock : s.machine.clock ≤ s'.machine.clock
  due : s'.machine.due = []

namespace Diary

/-- The state that was left last. -/
def latest (start : Process) : Diary → Process
  | [] => start
  | m :: _ => m.left

@[simp] theorem latest_nil (start : Process) : latest start [] = start := rfl

@[simp] theorem latest_cons (start : Process) (m : Moment) (δ : Diary) :
    latest start (m :: δ) = m.left := rfl

/-- **One more action of a process among others.** -/
inductive Writes (start : Process) : (a : Action) → Diary → a.Reply → Diary → Prop
  | action {a : Action} {δ : Diary} {found left : Process} {r : a.Reply}
      (hmeanwhile : (latest start δ).Meanwhile found)
      (hfares : found.Fares (fun _ => True) a r left) :
      Writes start a δ r (⟨a, found, r, left⟩ :: δ)

/-- The next moment, where it is given what others have done to the files before it. -/
def amid (others : Diary → FileSystem → FileSystem) (start : Process) (a : Action) (δ : Diary) :
    a.Reply × Diary :=
  let s := latest start δ
  let found : Process :=
    ⟨{ s.machine with files := others δ s.machine.files, due := [] }, s.held⟩
  let out := found.perform a
  (out.1, ⟨a, found, out.1, out.2⟩ :: δ)

theorem writes_amid (others : Diary → FileSystem → FileSystem) (start : Process) (a : Action)
    (δ : Diary) : Writes start a δ (amid others start a δ).1 (amid others start a δ).2 :=
  .action ⟨rfl, Nat.le_refl _, rfl⟩ (.works a _)

end Diary

end KernelCache
