/-
**Programs that leave a state as it is.**

Much of what programs do makes no difference to what a rule keeps in mind: directories on the way
are made, and locks are watched.  Where each action may leave the state as it is, whatever it
answers, so may the program.

Main definition:

* `Rule.Still` — an action may leave a state as it is.

Main results:

* `still_makeAll` — making directories with those above them;
* `still_present`, `still_waitLoop`, `still_waitAtMostLoop` — watching a lock.
-/

import KernelCache.Lock
import KernelCache.Proofs.Rule

set_option relaxedAutoImplicit false
set_option autoImplicit false

namespace KernelCache

/-- Whether an action may leave a state as it is, whatever it answers. -/
def Rule.Still {A : Type} {R : A → Type} {σ : Type} (rule : Rule A R σ) (s : σ) (a : A) : Prop :=
  ∀ post : R a → σ → Prop, (∀ r, post r s) → rule.act a post s

section

variable {σ : Type} {rule : Rule Action Action.Reply σ} {s : σ}

theorem still_act {a : Action} (ha : rule.Still s a) {post : a.Reply → σ → Prop}
    (hpost : ∀ r, post r s) : Program.Obeys rule post (Program.act a) s :=
  Program.obeys_act_of (ha post hpost)

/-! ### Making directories -/

theorem still_unlessThere {p : Path} (hlook : rule.Still s (.look p)) {e : Failure}
    {post : Except Failure Unit → σ → Prop} (hpost : ∀ r, post r s) :
    Program.Obeys rule post (unlessThere p e) s := by
  rw [unlessThere, isDirectory, Program.obeys_bind, Program.obeys_bind]
  refine still_act hlook fun (r : Except Failure Node) => ?_
  split
  · exact Program.obeys_pure_of (Program.obeys_pure_of (hpost _))
  · exact Program.obeys_pure_of (Program.obeys_pure_of (hpost _))

/-- Making directories where each of them may be made without a change. -/
theorem still_makeAll {l : List Path}
    (hl : ∀ p ∈ l, rule.Still s (.makeDirectory p) ∧ rule.Still s (.look p))
    {post : Except Failure Unit → σ → Prop} (hpost : ∀ r, post r s) :
    Program.Obeys rule post (makeAll l) s := by
  induction l generalizing post with
  | nil => exact Program.obeys_pure_of (hpost _)
  | cons p up ih =>
      obtain ⟨⟨hmake, hlook⟩, hup⟩ := List.forall_mem_cons.1 hl
      rw [makeAll]
      split
      · exact Program.obeys_pure_of (hpost _)
      · rw [Program.obeys_bind]
        refine still_act hmake fun r => ?_
        split
        · exact Program.obeys_pure_of (hpost _)
        · -- the directories above are made, and then this one is tried again
          rw [Program.obeys_bind]
          refine ih hup fun r => ?_
          split
          · exact Program.obeys_pure_of (hpost _)
          · rw [Program.obeys_bind]
            refine still_act hmake fun r => ?_
            split
            · exact Program.obeys_pure_of (hpost _)
            · exact still_unlessThere hlook hpost
        · exact still_unlessThere hlook hpost

/-! ### Watching a lock -/

variable {err : CacheError → σ → Prop} {x : Path}

theorem still_checkDepth {depth : Nat} {ok : Unit → σ → Prop} (hok : ok () s)
    (herr : ∀ e, err e s) : Task.Obeys rule ok err (LockTable.checkDepth depth) s := by
  rw [LockTable.checkDepth]
  split
  · exact Task.obeys_pure_of hok
  · exact Task.obeys_throw_of (herr _)

theorem still_present (hlook : rule.Still s (.look x)) {ok : Bool → σ → Prop} (hok : ∀ b, ok b s)
    (herr : ∀ e, err e s) : Task.Obeys rule ok err (LockTable.present x) s := by
  rw [LockTable.present, Task.obeys_bind, Task.obeys_lift]
  refine still_act hlook fun (r : Except Failure Node) => ?_
  split
  · exact Task.obeys_pure_of (hok _)
  · exact Task.obeys_pure_of (hok _)
  · exact Task.obeys_throw_of (herr _)

theorem still_waitLoop (hlook : rule.Still s (.look x)) (hsleep : ∀ d, rule.Still s (.sleep d))
    (hwait : rule.wait s) (pause polls : Nat) {ok : Unit → σ → Prop} (hok : ok () s)
    (herr : ∀ e, err e s) : Task.Obeys rule ok err (LockTable.waitLoop x pause polls) s := by
  induction polls generalizing pause with
  | zero => exact Task.obeys_stalled_of hwait
  | succ polls ih =>
      rw [LockTable.waitLoop, Task.obeys_bind]
      refine still_present hlook (fun b => ?_) herr
      cases b with
      | false => exact Task.obeys_pure_of hok
      | true =>
          simp only [if_true, Task.obeys_bind, Task.obeys_lift]
          exact still_act (hsleep pause) fun _ => ih (LockTable.nextPause pause)

theorem still_waitAtMostLoop (hlook : rule.Still s (.look x)) (hsleep : ∀ d, rule.Still s (.sleep d))
    (hnow : rule.Still s .now) (hwait : rule.wait s) (start timeout pause polls : Nat)
    {ok : Unit → σ → Prop} (hok : ok () s) (herr : ∀ e, err e s) :
    Task.Obeys rule ok err (LockTable.waitAtMostLoop x start timeout pause polls) s := by
  induction polls generalizing pause with
  | zero => exact Task.obeys_stalled_of hwait
  | succ polls ih =>
      rw [LockTable.waitAtMostLoop, Task.obeys_bind]
      refine still_present hlook (fun b => ?_) herr
      cases b with
      | false => exact Task.obeys_pure_of hok
      | true =>
          simp only [if_true, Task.obeys_bind, Task.obeys_lift]
          refine still_act hnow fun (now : Nat) => ?_
          split
          · exact Task.obeys_throw_of (herr _)
          · simp only [Task.obeys_bind, Task.obeys_lift]
            exact still_act (hsleep _) fun _ => ih (LockTable.nextPause pause)

end

end KernelCache
