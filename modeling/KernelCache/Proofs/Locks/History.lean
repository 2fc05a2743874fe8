/-
**Lock tables at work.**

Any number of tables keep their locks below one root.  What a table is asked to do is a call, and
each call is a program whose actions are atomic: between any two of them other tables may act.  A
table has one call at a time, and gives back single locks only that it has noted as its own.  Around
the tables everything may change except what is at the places of locks and below them, and the
directories on the way there while there is a lock.

A history has a world for each time and the event that leads from one to the next, so that one can
say of a call what happened between its start and its end.

Main definitions:

* `LockCall`, `LockCall.program` — what tables are asked to do, and how they do it;
* `LockWorld`, `LockWorld.Holds` — the machine and the tables, and what a table has noted;
* `LockStep`, `LockHistory` — **one event, and all of them in their order**;
* `LockHistory.Returns` — a call from its start to its end;
* `LockHistory.play` — the history of given moves.
-/

import Mathlib.Logic.Function.Basic
import KernelCache.Proofs.Build.Layout

set_option relaxedAutoImplicit false
set_option autoImplicit false

namespace KernelCache

/-! ### Calls -/

/-- What a table is asked to do.  Trying for a lock with a guard is `acquire`, and when the table is
dropped it does `releaseAll`. -/
inductive LockCall where
  | acquire (d : Digest) (depth : Nat)
  | release (d : Digest) (depth : Nat)
  | dropGuard (d : Digest) (depth : Nat)
  | releaseAll
  | isLocked (d : Digest) (depth : Nat)
  | wait (d : Digest) (depth polls : Nat)
  | waitAtMost (d : Digest) (depth timeout polls : Nat)

namespace LockCall

/-- The type of what a call returns. -/
@[reducible]
def Answer : LockCall → Type
  | acquire .. | isLocked .. => Except CacheError Bool
  | release .. | wait .. | waitAtMost .. => Except CacheError Unit
  | dropGuard .. => Unit
  | releaseAll => Nat

/-- How a table does what it is asked to do. -/
def program (t : LockTable) : (c : LockCall) → FileProgram c.Answer
  | acquire d depth => (t.acquire d depth).run
  | release d depth => (t.release d depth).run
  | dropGuard d depth => t.releaseQuietly d depth
  | releaseAll => LockTable.releaseAll
  | isLocked d depth => (t.isLocked d depth).run
  | wait d depth polls => (t.wait d depth polls).run
  | waitAtMost d depth timeout polls => (t.waitAtMost d depth timeout polls).run

/-- A single lock is given back only by the table that has noted it. -/
def Allowed (t : LockTable) (notes : SortedMap Path Unit) : LockCall → Prop
  | release d depth | dropGuard d depth => notes.get? (t.path d depth) = some ()
  | _ => True

instance (t : LockTable) (notes : SortedMap Path Unit) :
    (c : LockCall) → Decidable (c.Allowed t notes)
  | release d depth | dropGuard d depth =>
    inferInstanceAs (Decidable (notes.get? (t.path d depth) = some ()))
  | acquire .. | releaseAll | isLocked .. | wait .. | waitAtMost .. => isTrue trivial

end LockCall

/-- A call that has begun, with what is left of its program. -/
structure Ongoing where
  call : LockCall
  rest : FileProgram call.Answer

/-! ### Worlds -/

/-- A change of the files leaves the notes as they are. -/
theorem Process.change_held (s : Process) (r : Except Failure FileSystem) :
    (s.change r).2.held = s.held := by
  cases r <;> rfl

/-- Whether a path is that of a lock, of a depth that locks have. -/
def Site.IsLock (S : Site) (x : Path) : Prop :=
  ∃ d depth, depth ≤ maxLockDepth ∧ x = S.locks.path d depth

/-- The machine, and for each table its notes and the call that it is busy with. -/
structure LockWorld (ι : Type) where
  machine : Machine
  notes : ι → SortedMap Path Unit
  ongoing : ι → Option Ongoing

/-- What happens in one step: a table begins a call, performs an action of it, or returns from it;
or the world around the tables changes. -/
inductive LockEvent (ι : Type) where
  | start (i : ι) (c : LockCall)
  | act (i : ι) (a : Action)
  | finish (i : ι) (c : LockCall) (r : c.Answer)
  | around

/-- What may change around the tables. -/
structure Around (S : Site) (m m' : Machine) : Prop where
  due : m'.due = m.due
  locks : ∀ x y, S.IsLock x → x.place <+: y → m'.files.node? y = m.files.node? y
  way : (∃ x, S.IsLock x ∧ m.files.node? x.place = some .directory) →
    ∀ y ∈ S.locks.directory.visits, m.files.node? y = some .directory →
      m'.files.node? y = some .directory

theorem Around.refl (S : Site) (m : Machine) : Around S m m :=
  ⟨rfl, fun _ _ _ _ => rfl, fun _ _ _ => id⟩

section

variable {ι : Type}

/-- The table that returns from a call. -/
def LockEvent.returner? : LockEvent ι → Option ι
  | .finish i _ _ => some i
  | _ => none

namespace LockWorld

/-- Whether a table has noted a path as that of a lock of its own. -/
def Holds (w : LockWorld ι) (i : ι) (x : Path) : Prop := (w.notes i).get? x = some ()

instance (w : LockWorld ι) (i : ι) (x : Path) : Decidable (w.Holds i x) :=
  inferInstanceAs (Decidable ((w.notes i).get? x = some ()))

/-- What stands at a place. -/
def node? (w : LockWorld ι) (y : Place) : Option Node := w.machine.files.node? y

/-- A world in which no table has done anything and there are no locks. -/
structure Starts (S : Site) (w : LockWorld ι) : Prop where
  due : w.machine.due = []
  notes : ∀ i, w.notes i = .empty
  ongoing : ∀ i, w.ongoing i = none
  locks : ∀ x y, S.IsLock x → x.place <+: y → w.node? y = none

variable [DecidableEq ι]

/-- The world after a table begins a call, or returns from one. -/
def busy (w : LockWorld ι) (i : ι) (o : Option Ongoing) : LockWorld ι :=
  { w with ongoing := Function.update w.ongoing i o }

/-- The world after an action of a table, with what the action answers for the rest of the call. -/
def act (w : LockWorld ι) (i : ι) (c : LockCall) (a : Action)
    (next : a.Reply → FileProgram c.Answer) : LockWorld ι :=
  let out := Process.perform a ⟨w.machine, w.notes i⟩
  { machine := out.2.machine
    notes := Function.update w.notes i out.2.held
    ongoing := Function.update w.ongoing i (some ⟨c, next out.1⟩) }

variable {w : LockWorld ι} {i j : ι} {c : LockCall} {a : Action}
  {next : a.Reply → FileProgram c.Answer}

@[simp] theorem busy_machine (o : Option Ongoing) : (w.busy i o).machine = w.machine := rfl

@[simp] theorem busy_notes (o : Option Ongoing) : (w.busy i o).notes = w.notes := rfl

@[simp] theorem busy_ongoing_self (o : Option Ongoing) : (w.busy i o).ongoing i = o :=
  Function.update_self i _ w.ongoing

theorem busy_ongoing_of_ne (h : j ≠ i) (o : Option Ongoing) :
    (w.busy i o).ongoing j = w.ongoing j :=
  Function.update_of_ne h _ w.ongoing

@[simp] theorem act_machine : (w.act i c a next).machine =
    (Process.perform a ⟨w.machine, w.notes i⟩).2.machine := rfl

@[simp] theorem act_notes_self : (w.act i c a next).notes i =
    (Process.perform a ⟨w.machine, w.notes i⟩).2.held :=
  Function.update_self i _ w.notes

theorem act_notes_of_ne (h : j ≠ i) : (w.act i c a next).notes j = w.notes j :=
  Function.update_of_ne h _ w.notes

@[simp] theorem act_ongoing_self : (w.act i c a next).ongoing i =
    some ⟨c, next (Process.perform a ⟨w.machine, w.notes i⟩).1⟩ :=
  Function.update_self i _ w.ongoing

theorem act_ongoing_of_ne (h : j ≠ i) : (w.act i c a next).ongoing j = w.ongoing j :=
  Function.update_of_ne h _ w.ongoing

end LockWorld

/-! ### Histories -/

/-- One event. -/
inductive LockStep [DecidableEq ι] (S : Site) : LockWorld ι → LockEvent ι → LockWorld ι → Prop
  | start {w : LockWorld ι} {i : ι} {c : LockCall} (hidle : w.ongoing i = none)
      (hc : c.Allowed S.locks (w.notes i)) :
      LockStep S w (.start i c) (w.busy i (some ⟨c, c.program S.locks⟩))
  | act {w : LockWorld ι} {i : ι} {c : LockCall} {a : Action}
      {next : a.Reply → FileProgram c.Answer} (hi : w.ongoing i = some ⟨c, .ask a next⟩) :
      LockStep S w (.act i a) (w.act i c a next)
  | finish {w : LockWorld ι} {i : ι} {c : LockCall} {r : c.Answer}
      (hi : w.ongoing i = some ⟨c, .done r⟩) : LockStep S w (.finish i c r) (w.busy i none)
  | around {w : LockWorld ι} {m : Machine} (hm : Around S w.machine m) :
      LockStep S w .around { w with machine := m }

/-- The worlds at all times, and the events between them. -/
structure LockHistory (S : Site) (ι : Type) [DecidableEq ι] where
  world : Nat → LockWorld ι
  event : Nat → LockEvent ι
  step : ∀ n, LockStep S (world n) (event n) (world (n + 1))

namespace LockHistory

variable [DecidableEq ι] {S : Site}

/-- A table begins a call at one time and has not returned from it before another. -/
structure Began (H : LockHistory S ι) (i : ι) (c : LockCall) (m n : Nat) : Prop where
  start : H.event m = .start i c
  lt : m < n
  during : ∀ t, m < t → t < n → ∀ c r, H.event t ≠ .finish i c r

/-- A table begins a call at one time and returns from it at another. -/
structure Returns (H : LockHistory S ι) (i : ι) (c : LockCall) (m n : Nat) (r : c.Answer) : Prop
    extends H.Began i c m n where
  finish : H.event n = .finish i c r

theorem Returns.of_events {H : LockHistory S ι} {i : ι} {c : LockCall} {m n : Nat}
    {r : c.Answer} (hstart : H.event m = .start i c) (hfinish : H.event n = .finish i c r)
    (hlt : m < n) (hbetween : ∀ t < n, m < t → (H.event t).returner? ≠ some i) :
    H.Returns i c m n r where
  start := hstart
  lt := hlt
  during := fun t hmt htn _ _ he => hbetween t htn hmt (congrArg LockEvent.returner? he)
  finish := hfinish

end LockHistory

/-! ### Playing moves -/

variable [DecidableEq ι]

/-- Who does something next: a table begins a call, or goes on with one, or nobody does anything. -/
inductive LockMove (ι : Type) where
  | call (i : ι) (c : LockCall)
  | go (i : ι)
  | rest

/-- The event that a move leads to and the world after it.  A move that is not possible is a
rest. -/
def LockWorld.turn (S : Site) (w : LockWorld ι) : LockMove ι → LockEvent ι × LockWorld ι
  | .call i c =>
    match w.ongoing i with
    | none =>
      if c.Allowed S.locks (w.notes i) then (.start i c, w.busy i (some ⟨c, c.program S.locks⟩))
      else (.around, w)
    | some _ => (.around, w)
  | .go i =>
    match w.ongoing i with
    | some ⟨c, .ask a next⟩ => (.act i a, w.act i c a next)
    | some ⟨c, .done r⟩ => (.finish i c r, w.busy i none)
    | _ => (.around, w)
  | .rest => (.around, w)

theorem LockWorld.step_turn {S : Site} (w : LockWorld ι) (m : LockMove ι) :
    LockStep S w (w.turn S m).1 (w.turn S m).2 := by
  have hrest : LockStep S w .around w := .around (Around.refl S w.machine)
  cases m with
  | call i c =>
      rw [turn]
      split
      · next hidle =>
          split
          · next hc => exact .start hidle hc
          · exact hrest
      · exact hrest
  | go i =>
      rw [turn]
      split
      · next hi => exact .act hi
      · next hi => exact .finish hi
      · exact hrest
  | rest => exact hrest

/-- The worlds of a history in which moves are made one after the other. -/
def LockWorld.after (S : Site) (w : LockWorld ι) (moves : List (LockMove ι)) : Nat → LockWorld ι
  | 0 => w
  | n + 1 => ((after S w moves n).turn S (moves.getD n .rest)).2

/-- The history in which moves are made one after the other. -/
def LockHistory.play (S : Site) (w : LockWorld ι) (moves : List (LockMove ι)) :
    LockHistory S ι where
  world := w.after S moves
  event := fun n => ((w.after S moves n).turn S (moves.getD n .rest)).1
  step := fun n => (w.after S moves n).step_turn (moves.getD n .rest)

end

end KernelCache
