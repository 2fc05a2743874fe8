/-
**Taking locks and giving them back.**

Any number of tables take locks below one root and give them back, and they may give back locks that
others have taken.  Meanwhile everything else may change but what has a name in the directory of the
locks that can be read as that of a lock, and the way to that directory while a lock is taken.  A
ledger keeps what is taken: an entry is made when somebody makes the directory of a lock, and struck
when somebody removes it.

Main definitions:

* `LockTraffic` — the tables and the ledger;
* `LockTraffic.Step`, `LockTraffic.Run` — **one step, and any number of them**;
* `Site.Allows`, `Site.Told` — what calls ask for, and what they are told;
* `LockTraffic.Orderly` — what holds of tables and ledger at all times.

Main results:

* `LockTraffic.beside_of_created` — creating something that is no lock;
* `LockCall.heeds` — **what calls ask for**;
* `LockTraffic.Orderly.step`, `LockTraffic.Run.orderly` — order is kept by a step, and by a run.
-/

import KernelCache.Proofs.Locks.Makers
import Mathlib.Logic.Relation

set_option relaxedAutoImplicit false
set_option autoImplicit false

namespace KernelCache

/-! ### Traffic -/

/-- Tables at work below one root, and the ledger of the locks that are taken. -/
structure LockTraffic (ι : Type) where
  world : LockWorld ι
  taken : Digest → Nat → Prop

/-- The ledger after an action.  A lock is taken by making its directory, and given back by removing
it, whoever does so. -/
def LockTable.ledger (t : LockTable) (taken : Digest → Nat → Prop) :
    (a : Action) → a.Reply → Digest → Nat → Prop
  | .makeDirectory x, .ok () => fun d depth => x = t.path d depth ∨ taken d depth
  | .removeDirectory x, .ok () => fun d depth => x ≠ t.path d depth ∧ taken d depth
  | _, _ => taken

/-- What may change beside the locks. -/
structure LockTraffic.Beside {ι : Type} (S : Site) (t : LockTraffic ι) (m : Machine) : Prop where
  due : m.due = t.world.machine.due
  names : ∀ a, LockTable.readName? a ≠ none →
    m.files.node? (S.locksPlace ++ [a]) = t.world.node? (S.locksPlace ++ [a])
  way : (∃ d depth, t.taken d depth) → ∀ y ∈ S.locks.directory.visits,
    t.world.node? y = some .directory → m.files.node? y = some .directory

namespace LockTraffic

variable {ι : Type} {S : Site}

/-- Something may be created in the directory of the locks under a name that cannot be read. -/
theorem beside_of_created {t : LockTraffic ι} {a : Bytes} (ha : LockTable.readName? a = none)
    (hnone : t.world.node? (S.locksPlace ++ [a]) = none) (n : Node) :
    t.Beside S { t.world.machine with
      files := t.world.machine.files.put (S.locksPlace ++ [a]) n } := by
  have hbase : ¬FileSystem.IsBase (S.locksPlace ++ [a]) :=
    FileSystem.not_isBase_of_node? (ne_of_eq_of_ne hnone nofun)
  have hother {y : Place} (hy : y ≠ S.locksPlace ++ [a]) :
      (t.world.machine.files.put (S.locksPlace ++ [a]) n).node? y = t.world.node? y := by
    rw [FileSystem.node?_put hbase, Function.update_of_ne hy]
    rfl
  refine ⟨rfl, fun b hb => hother fun heq => hb ?_, fun _ y _ hy => (hother ?_).trans hy⟩
  · obtain rfl : b = a := by simpa using heq
    exact ha
  · rintro rfl
    cases hnone.symm.trans hy

/-- No table has done anything, no lock is taken, and there is no directory of locks. -/
structure Starts (S : Site) (t : LockTraffic ι) : Prop where
  due : t.world.machine.due = []
  notes : ∀ i, t.world.notes i = .empty
  ongoing : ∀ i, t.world.ongoing i = none
  taken : ∀ d depth, ¬t.taken d depth
  absent : t.world.node? S.locksPlace ≠ some .directory
  below : ∀ a, t.world.node? (S.locksPlace ++ [a]) = none

variable [DecidableEq ι]

/-- The traffic after a table begins a call, or returns from one. -/
def busy (t : LockTraffic ι) (i : ι) (o : Option Ongoing) : LockTraffic ι :=
  { t with world := t.world.busy i o }

/-- The traffic after an action of a table, with what the action answers for the rest of the call. -/
def act (S : Site) (t : LockTraffic ι) (i : ι) (c : LockCall) (a : Action)
    (next : a.Reply → FileProgram c.Answer) : LockTraffic ι where
  world := t.world.act i c a next
  taken := S.locks.ledger t.taken a (Process.perform a ⟨t.world.machine, t.world.notes i⟩).1

/-- The traffic after something else has changed. -/
def changed (t : LockTraffic ι) (m : Machine) : LockTraffic ι :=
  { t with world := { t.world with machine := m } }

/-- A table begins a call, performs an action of it, or returns from it; or something else
changes. -/
inductive Step (S : Site) : LockTraffic ι → LockTraffic ι → Prop
  | start {t : LockTraffic ι} {i : ι} (c : LockCall) (hidle : t.world.ongoing i = none) :
      Step S t (t.busy i (some ⟨c, c.program S.locks⟩))
  | act {t : LockTraffic ι} {i : ι} {c : LockCall} {a : Action}
      {next : a.Reply → FileProgram c.Answer} (hi : t.world.ongoing i = some ⟨c, .ask a next⟩) :
      Step S t (t.act S i c a next)
  | finish {t : LockTraffic ι} {i : ι} {c : LockCall} {r : c.Answer}
      (hi : t.world.ongoing i = some ⟨c, .done r⟩) : Step S t (t.busy i none)
  | beside {t : LockTraffic ι} {m : Machine} (hm : t.Beside S m) : Step S t (t.changed m)

/-- Any number of steps. -/
def Run (S : Site) : LockTraffic ι → LockTraffic ι → Prop := Relation.ReflTransGen (Step S)

/-! ### Playing moves -/

/-- The traffic after a move.  A move that is not possible changes nothing. -/
def turn (S : Site) (t : LockTraffic ι) : LockMove ι → LockTraffic ι
  | .call i c =>
    match t.world.ongoing i with
    | none => t.busy i (some ⟨c, c.program S.locks⟩)
    | some _ => t
  | .go i =>
    match t.world.ongoing i with
    | some ⟨c, .ask a next⟩ => t.act S i c a next
    | some ⟨_, .done _⟩ => t.busy i none
    | _ => t
  | .rest => t

/-- The traffic after moves, one after the other. -/
def play (S : Site) (t : LockTraffic ι) (moves : List (LockMove ι)) : LockTraffic ι :=
  moves.foldl (turn S) t

theorem run_turn (t : LockTraffic ι) (m : LockMove ι) : Run S t (t.turn S m) := by
  cases m with
  | call i c =>
      rw [turn]
      split
      · next hidle => exact .single (.start c hidle)
      · exact .refl
  | go i =>
      rw [turn]
      split
      · next hi => exact .single (.act hi)
      · next hi => exact .single (.finish hi)
      · exact .refl
  | rest => exact .refl

theorem run_play (t : LockTraffic ι) (moves : List (LockMove ι)) : Run S t (t.play S moves) := by
  induction moves generalizing t with
  | nil => exact .refl
  | cons m rest ih => exact (run_turn t m).trans (ih (t.turn S m))

end LockTraffic

/-! ### What calls ask for -/

section

variable {S : Site} {c : LockCall}

/-- What a call asks for: directories are made on the way to the locks and where a lock is tried for,
and only locks are noted and removed. -/
def Site.Allows (S : Site) (c : LockCall) : Action → Prop
  | .look _ | .now | .sleep _ | .letGo _ | .held => True
  | .hold x | .removeDirectory x => S.IsLock x
  | .makeDirectory x => x ∈ S.locks.directory.lineage ∨
      ∃ d depth, c = .acquire d depth ∧ depth ≤ maxLockDepth ∧ x = S.locks.path d depth
  | _ => False

/-- Whether there are only locks among some paths. -/
def Site.OnlyLocks (S : Site) (l : List Path) : Prop := ∀ x ∈ l, S.IsLock x

/-- What a call is told: its notes hold nothing but locks. -/
def Site.Told (S : Site) : (a : Action) → a.Reply → Prop
  | .held, l => S.OnlyLocks l
  | _, _ => True

/-- The rule that a call asks for nothing else as long as it is told nothing else. -/
abbrev heeding (S : Site) (c : LockCall) : Rule Action Action.Reply Unit :=
  .watch (fun a _ r _ => S.Told a r) (fun _ => True) (S.Allows c)

theorem heeding_still {a : Action} (ha : S.Allows c a) : (heeding S c).Still () a :=
  fun _ hpost => ⟨trivial, ha, fun r _ _ => hpost r⟩

theorem heeds_releasePath {x : Path} (hx : S.IsLock x) {ok : Unit → Unit → Prop}
    {err : CacheError → Unit → Prop} (hok : ok () ()) (herr : ∀ e, err e ()) :
    Task.Obeys (heeding S c) ok err (LockTable.releasePath x) () := by
  rw [LockTable.releasePath, Task.obeys_bind, Task.obeys_lift]
  refine still_act (heeding_still (a := .letGo x) trivial) fun _ => ?_
  rw [Task.obeys_bind, Task.obeys_lift]
  refine still_act (heeding_still (a := .removeDirectory x) hx) fun (r : Except Failure Unit) => ?_
  split
  · exact Task.obeys_pure_of hok
  · exact Task.obeys_pure_of hok
  · exact Task.obeys_throw_of (herr _)

theorem heeds_release (d : Digest) (depth : Nat) {ok : Unit → Unit → Prop}
    {err : CacheError → Unit → Prop} (hok : ok () ()) (herr : ∀ e, err e ()) :
    Task.Obeys (heeding S c) ok err (S.locks.release d depth) () := by
  rw [LockTable.release, LockTable.checkDepth, Task.obeys_bind]
  split
  · next hdepth =>
      exact Task.obeys_pure_of (heeds_releasePath ⟨d, depth, hdepth, rfl⟩ hok herr)
  · exact Task.obeys_throw_of (herr _)

theorem heeds_forget (l : List Path) {post : Unit → Unit → Prop} (hpost : post () ()) :
    Program.Obeys (heeding S c) post (LockTable.forget l) () := by
  induction l with
  | nil => exact Program.obeys_pure_of hpost
  | cons x rest ih =>
      rw [LockTable.forget, Program.obeys_bind]
      exact still_act (heeding_still (a := .letGo x) trivial) fun _ => ih

theorem heeds_releaseEach {l : List Path} (hl : S.OnlyLocks l) {post : Nat → Unit → Prop}
    (hpost : ∀ n, post n ()) : Program.Obeys (heeding S c) post (LockTable.releaseEach l) () := by
  induction l generalizing post with
  | nil => exact Program.obeys_pure_of (hpost _)
  | cons x rest ih =>
      obtain ⟨hx, hrest⟩ := List.forall_mem_cons.1 hl
      rw [LockTable.releaseEach, Program.obeys_bind, Task.obeys_run]
      refine heeds_releasePath hx ?_ fun e => ih hrest hpost
      rw [Program.obeys_bind]
      exact ih hrest fun n => Program.obeys_pure_of (hpost _)

/-- What is in the notes may be struck and removed, as these are locks. -/
theorem heeds_giveBack {l : List Path} (hl : S.OnlyLocks l) :
    Program.Obeys (heeding S c) (fun _ _ => True)
      (LockTable.forget l >>= fun _ => LockTable.releaseEach l) () := by
  rw [Program.obeys_bind]
  exact heeds_forget l (heeds_releaseEach hl fun _ => trivial)

/-- Directories are made on the way to the locks, and then that of the lock, which is noted if it was
made. -/
theorem heeds_acquire (d : Digest) (depth : Nat) :
    Task.Obeys (heeding S (.acquire d depth)) (fun _ _ => True) (fun _ _ => True)
      (S.locks.acquire d depth) () := by
  rw [LockTable.acquire, LockTable.checkDepth, Task.obeys_bind]
  split
  · next hdepth =>
      refine Task.obeys_pure_of ?_
      rw [Task.obeys_bind, obeys_attempt]
      refine still_makeAll (fun p hp => ⟨heeding_still (Or.inl hp), heeding_still trivial⟩)
        fun r => ?_
      cases r with
      | error e => trivial
      | ok _ =>
          simp only [Task.Outcome, Task.obeys_bind, Task.obeys_lift]
          refine still_act (heeding_still (a := .makeDirectory _)
            (Or.inr ⟨d, depth, rfl, hdepth, rfl⟩)) fun (r : Except Failure Unit) => ?_
          split
          · rw [Task.obeys_bind, Task.obeys_lift]
            exact still_act (heeding_still (a := .hold _) ⟨d, depth, hdepth, rfl⟩) fun _ =>
              Task.obeys_pure_of trivial
          · exact Task.obeys_pure_of trivial
          · exact Task.obeys_throw_of trivial
  · exact Task.obeys_throw_of trivial

/-- **What calls ask for.** -/
theorem LockCall.heeds (c : LockCall) :
    Program.Obeys (heeding S c) (fun _ _ => True) (c.program S.locks) () := by
  have hlook (x : Path) : (heeding S c).Still () (.look x) := heeding_still trivial
  have hsleep (d : Nat) : (heeding S c).Still () (.sleep d) := heeding_still trivial
  have hnow : (heeding S c).Still () .now := heeding_still trivial
  cases c with
  | acquire d depth =>
      rw [program, Task.obeys_run]
      exact heeds_acquire d depth
  | release d depth =>
      rw [program, Task.obeys_run]
      exact heeds_release d depth trivial fun _ => trivial
  | dropGuard d depth =>
      rw [program, LockTable.releaseQuietly, Program.obeys_bind, Task.obeys_run]
      exact heeds_release d depth (Program.obeys_pure_of trivial) fun _ =>
        Program.obeys_pure_of trivial
  | releaseAll =>
      rw [program, LockTable.releaseAll, Program.obeys_bind]
      have hheld : (heeding S .releaseAll).act .held (fun l => Program.Obeys (heeding S .releaseAll)
          (fun _ _ => True) (LockTable.forget l >>= fun _ => LockTable.releaseEach l)) () :=
        ⟨trivial, trivial, fun _ _ => heeds_giveBack⟩
      exact Program.obeys_act_of hheld
  | isLocked d depth =>
      rw [program, LockTable.isLocked, Task.obeys_run, Task.obeys_bind]
      exact still_checkDepth (still_present (hlook _) (fun _ => trivial) fun _ => trivial) fun _ =>
        trivial
  | wait d depth polls =>
      rw [program, LockTable.wait, Task.obeys_run, Task.obeys_bind]
      exact still_checkDepth (still_waitLoop (hlook _) hsleep trivial _ polls trivial
        fun _ => trivial) fun _ => trivial
  | waitAtMost d depth timeout polls =>
      rw [program, LockTable.waitAtMost, Task.obeys_run, Task.obeys_bind]
      refine still_checkDepth ?_ fun _ => trivial
      rw [Task.obeys_bind, Task.obeys_lift]
      exact still_act hnow fun now => still_waitAtMostLoop (hlook _) hsleep hnow trivial now timeout
        _ polls trivial fun _ => trivial

end

/-! ### Order -/

/-- Where nobody else will remove anything, nobody will after any action. -/
theorem Process.perform_due {s : Process} (h : s.machine.due = []) (a : Action) :
    (s.perform a).2.machine.due = [] := by
  have hchange (r : Except Failure FileSystem) : (s.change r).2.machine.due = [] := by
    cases r <;> exact h
  cases a with
  | sleep duration =>
      simp only [Process.perform, Machine.settle, h]
      rfl
  | createFresh dir stem =>
      rw [Process.perform]
      split <;> exact h
  | makeDirectory x => exact hchange _
  | removeDirectory x => exact hchange _
  | write p contents => exact hchange _
  | removeFile p => exact hchange _
  | move source target => exact hchange _
  | _ => exact h

/-- The path of a lock is not on the way to the directory of the locks. -/
theorem Site.path_notMem_lineage (S : Site) (d : Digest) (depth : Nat) :
    S.locks.path d depth ∉ S.locks.directory.lineage := by
  intro hmem
  have hlength := (Path.steps_of_mem_lineage hmem).1.length_le
  have hsteps : (S.locks.path d depth).steps = _ := Path.steps_child (plain_lockName d depth)
  rw [hsteps, List.length_append, List.length_singleton] at hlength
  omega

theorem Site.path_inj {S : Site} {d e : Digest} {k l : Nat}
    (h : S.locks.path d k = S.locks.path e l) : d = e ∧ k = l :=
  S.lockPlace_inj (congrArg Path.place h)

namespace LockTraffic

variable {ι : Type} {S : Site} {t t' : LockTraffic ι}

/-- What holds of tables and ledger at all times: calls go on as they should, only locks are noted,
and only locks of depths that locks have are taken. -/
structure Orderly (S : Site) (t : LockTraffic ι) : Prop where
  due : t.world.machine.due = []
  notes : ∀ i x, (t.world.notes i).get? x = some () → S.IsLock x
  heeds : ∀ i o, t.world.ongoing i = some o →
    Program.Obeys (heeding S o.call) (fun _ _ => True) o.rest ()
  depth : ∀ d depth, t.taken d depth → depth ≤ maxLockDepth

theorem Starts.orderly (h : t.Starts S) : t.Orderly S where
  due := h.due
  notes := fun i x hx => by
    rw [h.notes i] at hx
    cases hx
  heeds := fun i o ho => by
    rw [h.ongoing i] at ho
    cases ho
  depth := fun d depth hd => absurd hd (h.taken d depth)

variable [DecidableEq ι]

theorem Orderly.busy (h : t.Orderly S) {i : ι} {o : Option Ongoing}
    (ho : ∀ o' ∈ o, Program.Obeys (heeding S o'.call) (fun _ _ => True) o'.rest ()) :
    (t.busy i o).Orderly S where
  due := h.due
  notes := h.notes
  heeds := fun j o' ho' => by
    by_cases hj : j = i
    · obtain rfl := hj
      exact ho o' ((LockWorld.busy_ongoing_self o).symm.trans ho')
    · exact h.heeds j o' ((LockWorld.busy_ongoing_of_ne hj o).symm.trans ho')
  depth := h.depth

/-- What an action does to the ledger. -/
theorem depth_of_ledger {c : LockCall} {a : Action} {r : a.Reply} {taken : Digest → Nat → Prop}
    (hallows : S.Allows c a) (htaken : ∀ d depth, taken d depth → depth ≤ maxLockDepth) {d : Digest}
    {depth : Nat} (h : S.locks.ledger taken a r d depth) : depth ≤ maxLockDepth := by
  rw [LockTable.ledger.eq_def] at h
  split at h
  · rcases h with heq | h
    · rcases hallows with hway | ⟨e, k, -, hk, hpath⟩
      · exact absurd (heq ▸ hway) (S.path_notMem_lineage d depth)
      · exact (Site.path_inj (heq.symm.trans hpath)).2 ▸ hk
    · exact htaken d depth h
  · exact htaken d depth h.2
  · exact htaken d depth h

/-- What an action does to the notes. -/
theorem notes_of_perform {c : LockCall} {a : Action} {s : Process} (hallows : S.Allows c a)
    (hnotes : ∀ x, s.held.get? x = some () → S.IsLock x) {x : Path}
    (hx : (s.perform a).2.held.get? x = some ()) : S.IsLock x := by
  cases a with
  | hold y =>
      rw [Process.perform, SortedMap.get?_insert] at hx
      split at hx
      · next heq => exact heq ▸ hallows
      · exact hnotes x hx
  | letGo y =>
      rw [Process.perform, SortedMap.get?_erase] at hx
      split at hx
      · cases hx
      · exact hnotes x hx
  | makeDirectory y =>
      rw [Process.perform, Process.change_held] at hx
      exact hnotes x hx
  | removeDirectory y =>
      rw [Process.perform, Process.change_held] at hx
      exact hnotes x hx
  | look p => exact hnotes x hx
  | now => exact hnotes x hx
  | sleep duration => exact hnotes x hx
  | held => exact hnotes x hx
  | _ => exact hallows.elim

/-- What an action tells. -/
theorem told_of_perform {s : Process} (hnotes : ∀ x, s.held.get? x = some () → S.IsLock x)
    (a : Action) : S.Told a (s.perform a).1 := by
  cases a with
  | held =>
      intro x hx
      obtain ⟨u, hu⟩ := SortedMap.mem_keys_iff.1 hx
      exact hnotes x hu
  | _ => trivial

/-- **An action keeps order.** -/
theorem Orderly.act (h : t.Orderly S) {i : ι} {c : LockCall} {a : Action}
    {next : a.Reply → FileProgram c.Answer} (hi : t.world.ongoing i = some ⟨c, .ask a next⟩) :
    (t.act S i c a next).Orderly S := by
  have hheeds := h.heeds i _ hi
  rw [Program.obeys_ask] at hheeds
  obtain ⟨-, hallows, hnext⟩ := hheeds
  refine ⟨Process.perform_due h.due a, fun j x hx => ?_, fun j o ho => ?_,
    fun d depth => depth_of_ledger hallows h.depth⟩
  · by_cases hj : j = i
    · obtain rfl := hj
      have hself : (t.act S j c a next).world.notes j =
          (Process.perform a ⟨t.world.machine, t.world.notes j⟩).2.held := LockWorld.act_notes_self
      rw [hself] at hx
      exact notes_of_perform hallows (h.notes j) hx
    · have hother : (t.act S i c a next).world.notes j = t.world.notes j :=
        LockWorld.act_notes_of_ne hj
      exact h.notes j x (hother ▸ hx)
  · by_cases hj : j = i
    · obtain rfl := hj
      obtain rfl := Option.some.inj (LockWorld.act_ongoing_self.symm.trans ho)
      exact hnext _ () (told_of_perform (h.notes j) a)
    · exact h.heeds j o ((LockWorld.act_ongoing_of_ne hj).symm.trans ho)

/-- **Order is kept by a step.** -/
theorem Orderly.step (h : t.Orderly S) (hstep : Step S t t') : t'.Orderly S := by
  cases hstep with
  | start c hidle =>
      refine h.busy fun o ho => ?_
      obtain rfl := Option.some.inj ho
      exact c.heeds
  | act hi => exact h.act hi
  | finish hi => exact h.busy fun o ho => nomatch ho
  | beside hm =>
      exact {
        due := hm.due.trans h.due
        notes := h.notes
        heeds := h.heeds
        depth := h.depth }

/-- **Order is kept by a run.** -/
theorem Run.orderly (hrun : Run S t t') (h : t.Orderly S) : t'.Orderly S := by
  induction hrun with
  | refl => exact h
  | tail _ hstep ih => exact ih.step hstep

end LockTraffic

end KernelCache
