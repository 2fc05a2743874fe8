/-
**What a table has in its grip.**

Of everything that tables share, a table relies on one thing only: the directories of locks that it
has made stay until it removes them.  So a call can be followed on its own, with two things in mind:
which locks the table has noted, and which lock directories are of its making.  Between its making
and its noting a lock is in the second and not in the first, and so it is between its striking and
its removal; outside of calls the two are the same.

Main definitions:

* `Grip`, `Grip.of` — the notes of a table and the lock directories of its making;
* `gripNeeds` — what an action needs of a table's grip, and what it may do to it;
* `LockCall.May` — the directories that a call makes and removes;
* `LockCall.Ends` — **what a call has done to the notes when it returns**.

Main result:

* `LockCall.needs_program` — **every call does what it should**, whatever others do meanwhile.
-/

import KernelCache.Proofs.Locks.History
import KernelCache.Proofs.Program
import KernelCache.Proofs.SortedMap
import KernelCache.Proofs.Still

set_option relaxedAutoImplicit false
set_option autoImplicit false

namespace KernelCache

/-- The notes of a table, and the locks whose directories are of its making. -/
structure Grip where
  notes : SortedMap Path Unit
  made : Path → Prop

namespace Grip

variable {x : Path}

/-- The grip of a table outside of calls: it has noted what it has made. -/
def of (notes : SortedMap Path Unit) : Grip := ⟨notes, fun x => notes.get? x = some ()⟩

/-- One more directory is of the table's making. -/
def make (g : Grip) (x : Path) : Grip := { g with made := fun y => y = x ∨ g.made y }

/-- A directory of the table's making is removed. -/
def unmake (g : Grip) (x : Path) : Grip := { g with made := fun y => y ≠ x ∧ g.made y }

/-- A lock is noted. -/
def note (g : Grip) (x : Path) : Grip := { g with notes := g.notes.insert x () }

/-- A lock is struck from the notes. -/
def strike (g : Grip) (x : Path) : Grip := { g with notes := g.notes.erase x }

/-- Whether everything that the table has noted is of its making. -/
def Noted (g : Grip) : Prop := ∀ x, g.notes.get? x = some () → g.made x

theorem Noted.make {g : Grip} (h : g.Noted) (x : Path) : (g.make x).Noted := fun y hy =>
  Or.inr (h y hy)

theorem Noted.unmake {g : Grip} (h : g.Noted) (hx : g.notes.get? x = none) :
    (g.unmake x).Noted := by
  intro y hy
  refine ⟨?_, h y hy⟩
  rintro rfl
  cases hx.symm.trans hy

theorem Noted.note {g : Grip} (h : g.Noted) (hx : g.made x) : (g.note x).Noted := by
  intro y hy
  rw [Grip.note, SortedMap.get?_insert] at hy
  split at hy
  · next heq => exact heq ▸ hx
  · exact h y hy

theorem Noted.strike {g : Grip} (h : g.Noted) (x : Path) : (g.strike x).Noted := by
  intro y hy
  rw [Grip.strike, SortedMap.get?_erase] at hy
  split at hy
  · cases hy
  · exact h y hy

theorem make_note (notes : SortedMap Path Unit) (x : Path) :
    ((of notes).make x).note x = of (notes.insert x ()) := by
  simp only [of, make, note, mk.injEq, true_and]
  funext y
  by_cases hy : x = y
  · simp [hy]
  · simp [hy, Ne.symm hy]

theorem strike_unmake (notes : SortedMap Path Unit) (x : Path) :
    ((of notes).strike x).unmake x = of (notes.erase x) := by
  simp only [of, unmake, strike, mk.injEq, true_and]
  funext y
  by_cases hy : x = y
  · simp [hy]
  · simp [hy, Ne.symm hy]

end Grip

/-! ### What actions need -/

/-- What an action needs of a table's grip.  A directory on the way to the locks belongs to nobody;
that of a lock is of the making of the table that makes it, and a table removes only what is of its
own making and no longer in its notes.  Of all other answers nothing is known. -/
def gripNeeds (S : Site) (may : Action → Prop) :
    (a : Action) → (a.Reply → Grip → Prop) → Grip → Prop
  | .look _, post, g => ∀ r, post r g
  | .now, post, g => ∀ r, post r g
  | .sleep _, post, g => post () g
  | .hold x, post, g => g.made x ∧ post () (g.note x)
  | .letGo x, post, g => post () (g.strike x)
  | .held, post, g => post g.notes.keys g
  | .makeDirectory x, post, g => may (.makeDirectory x) ∧ (∀ e, post (.error e) g) ∧
      (x ∈ S.locks.directory.lineage ∧ post (.ok ()) g ∨
        S.IsLock x ∧ (¬g.made x → post (.ok ()) (g.make x)))
  | .removeDirectory x, post, g => may (.removeDirectory x) ∧ g.made x ∧
      g.notes.get? x = none ∧ post (.ok ()) (g.unmake x)
  | _, _, _ => False

namespace LockCall

/-- The directories that a call may make or remove, where `before` are the notes at its start. -/
def May (t : LockTable) (before : SortedMap Path Unit) : LockCall → Action → Prop
  | acquire d depth, .makeDirectory x => x ∈ t.directory.lineage ∨ x = t.path d depth
  | release d depth, .removeDirectory x => x = t.path d depth
  | dropGuard d depth, .removeDirectory x => x = t.path d depth
  | releaseAll, .removeDirectory x => before.get? x = some ()
  | _, _ => False

/-- What a call has done to the notes when it returns. -/
def Ends (t : LockTable) (before : SortedMap Path Unit) : (c : LockCall) → c.Answer → Grip → Prop
  | acquire d depth, r, g =>
    r = .ok true ∧ before.get? (t.path d depth) = none ∧
        g = Grip.of (before.insert (t.path d depth) ()) ∨
      r ≠ .ok true ∧ g = Grip.of before
  | release d depth, _, g => g = Grip.of (before.erase (t.path d depth))
  | dropGuard d depth, _, g => g = Grip.of (before.erase (t.path d depth))
  | releaseAll, r, g => r = before.keys.length ∧ g = Grip.of .empty
  | isLocked .., _, g => g = Grip.of before
  | wait .., _, g => g = Grip.of before
  | waitAtMost .., _, g => g = Grip.of before

/-- When a call returns, the table has noted what it has made. -/
theorem Ends.grip_eq {t : LockTable} {before : SortedMap Path Unit} {c : LockCall} {r : c.Answer}
    {g : Grip} (h : c.Ends t before r g) : g = Grip.of g.notes := by
  cases c with
  | acquire d depth =>
      rcases h with ⟨-, -, rfl⟩ | ⟨-, rfl⟩
      · rfl
      · rfl
  | releaseAll => exact h.2 ▸ rfl
  | _ => exact h ▸ rfl

end LockCall

section

variable {S : Site} {may : Action → Prop} {g : Grip} {α : Type}

theorem grip_act {a : Action} {post : a.Reply → Grip → Prop} (h : gripNeeds S may a post g) :
    Program.Needs True (gripNeeds S may) post (Program.act a) g := by
  rw [Program.needs_act]
  exact h

/-! ### What leaves a grip as it is -/

/-- The rule that grips follow. -/
abbrev gripRule (S : Site) (may : Action → Prop) : Rule Action Action.Reply Grip :=
  ⟨gripNeeds S may, fun _ => True⟩

theorem grip_look (p : Path) : (gripRule S may).Still g (.look p) := fun _ h => h

theorem grip_now : (gripRule S may).Still g .now := fun _ h => h

theorem grip_sleep (d : Nat) : (gripRule S may).Still g (.sleep d) := fun _ h => h ()

/-- Making the directories on the way to the locks leaves a grip as it is. -/
theorem grip_makeDirectories (hmay : ∀ p ∈ S.locks.directory.lineage, may (.makeDirectory p))
    {post : Except Failure Unit → Grip → Prop} (h : ∀ r, post r g) :
    Program.Needs True (gripNeeds S may) post (makeDirectories S.locks.directory) g := by
  have hmake : ∀ p ∈ S.locks.directory.lineage,
      (gripRule S may).Still g (.makeDirectory p) := fun p hp post hpost =>
    ⟨hmay p hp, fun e => hpost _, Or.inl ⟨hp, hpost _⟩⟩
  rw [Program.needs_eq]
  exact still_makeAll (fun p hp => ⟨hmake p hp, grip_look p⟩) h

/-! ### Taking a lock and giving it back -/

variable {before : SortedMap Path Unit} {d : Digest} {depth : Nat} {ok : α → Grip → Prop}
  {err : CacheError → Grip → Prop}

theorem grip_acquire (hmay : ∀ p ∈ S.locks.directory.lineage, may (.makeDirectory p))
    (hlock : may (.makeDirectory (S.locks.path d depth))) {ok : Bool → Grip → Prop}
    (htrue : before.get? (S.locks.path d depth) = none →
      ok true (Grip.of (before.insert (S.locks.path d depth) ())))
    (hfalse : ok false (Grip.of before)) (herr : ∀ e, err e (Grip.of before)) :
    Task.Needs True (gripNeeds S may) ok err (S.locks.acquire d depth) (Grip.of before) := by
  rw [LockTable.acquire, LockTable.checkDepth, Task.needs_bind]
  split
  · next hdepth =>
      refine Task.needs_pure_of ?_
      rw [Task.needs_bind, needs_attempt]
      refine grip_makeDirectories hmay fun r => ?_
      cases r with
      | error e => exact herr _
      | ok _ =>
          simp only [Task.Outcome, Task.needs_bind, Task.needs_lift]
          refine grip_act (a := .makeDirectory _) ⟨hlock, fun e => ?_, Or.inr
            ⟨⟨d, depth, hdepth, rfl⟩, fun hmade => ?_⟩⟩
          · cases e with
            | alreadyExists => exact Task.needs_pure_of hfalse
            | _ => exact Task.needs_throw_of (herr _)
          · -- the directory is of the table's making now, and so it may be noted
            simp only [Task.needs_bind, Task.needs_lift]
            refine grip_act (a := .hold _) ⟨Or.inl rfl, Task.needs_pure_of ?_⟩
            rw [Grip.make_note]
            refine htrue ?_
            cases hget : before.get? (S.locks.path d depth) with
            | none => rfl
            | some u => exact absurd hget hmade
  · exact Task.needs_throw_of (herr _)

/-- A lock that was struck and removed. -/
theorem grip_releasePath {x : Path} (hmay : may (.removeDirectory x)) (hmade : g.made x)
    {ok : Unit → Grip → Prop} (hok : ok () ((g.strike x).unmake x)) :
    Task.Needs True (gripNeeds S may) ok err (LockTable.releasePath x) g := by
  rw [LockTable.releasePath, Task.needs_bind, Task.needs_lift]
  refine grip_act (a := .letGo x) ?_
  rw [Task.needs_bind, Task.needs_lift]
  refine grip_act (a := .removeDirectory x) ⟨hmay, hmade, ?_, Task.needs_pure_of hok⟩
  simp [Grip.strike]

theorem grip_release (hdepth : depth ≤ maxLockDepth)
    (hmay : may (.removeDirectory (S.locks.path d depth)))
    (hheld : before.get? (S.locks.path d depth) = some ()) {ok : Unit → Grip → Prop}
    (hok : ok () (Grip.of (before.erase (S.locks.path d depth)))) :
    Task.Needs True (gripNeeds S may) ok err (S.locks.release d depth) (Grip.of before) := by
  rw [LockTable.release, LockTable.checkDepth, if_pos hdepth, Task.needs_bind]
  refine Task.needs_pure_of (grip_releasePath hmay hheld ?_)
  rw [Grip.strike_unmake]
  exact hok

/-! ### Giving all locks back -/

/-- Striking locks one by one. -/
theorem grip_forget (l : List Path) {post : Unit → Grip → Prop}
    (h : post () { g with notes := l.foldl (fun m x => m.erase x) g.notes }) :
    Program.Needs True (gripNeeds S may) post (LockTable.forget l) g := by
  induction l generalizing g with
  | nil => exact Program.needs_pure_of h
  | cons x rest ih =>
      rw [LockTable.forget, Program.needs_bind]
      refine grip_act (a := .letGo x) (ih ?_)
      exact h

/-- Removing the directories of locks that are no longer in the notes, one by one. -/
theorem grip_releaseEach {l : List Path} (hl : l.Nodup) (hmay : ∀ x ∈ l, may (.removeDirectory x))
    {post : Nat → Grip → Prop} (h : post l.length (Grip.of .empty)) :
    Program.Needs True (gripNeeds S may) post (LockTable.releaseEach l)
      ⟨.empty, fun x => x ∈ l⟩ := by
  induction l generalizing post with
  | nil =>
      have hnone : (fun x : Path => x ∈ []) = fun x => SortedMap.empty.get? x = some () := by
        funext x
        simp
      rw [hnone]
      exact Program.needs_pure_of h
  | cons x rest ih =>
      rw [List.nodup_cons] at hl
      rw [List.forall_mem_cons] at hmay
      -- when the first is removed, the others are left
      have hleft : ((Grip.mk .empty fun y => y ∈ x :: rest).strike x).unmake x =
          ⟨.empty, fun y => y ∈ rest⟩ := by
        simp only [Grip.strike, Grip.unmake, Grip.mk.injEq]
        refine ⟨rfl, ?_⟩
        funext y
        simp only [List.mem_cons, eq_iff_iff]
        constructor
        · rintro ⟨hne, rfl | hy⟩
          · exact absurd rfl hne
          · exact hy
        · intro hy
          exact ⟨fun heq => hl.1 (heq ▸ hy), Or.inr hy⟩
      rw [LockTable.releaseEach, Program.needs_bind, Task.needs_run]
      refine grip_releasePath hmay.1 (by simp) ?_
      rw [hleft, Program.needs_bind]
      exact ih hl.2 hmay.2 (Program.needs_pure_of h)

/-- Giving all locks back gives back those in the notes. -/
theorem grip_releaseAll (hmay : ∀ x, before.get? x = some () → may (.removeDirectory x))
    {post : Nat → Grip → Prop} (h : post before.keys.length (Grip.of .empty)) :
    Program.Needs True (gripNeeds S may) post LockTable.releaseAll (Grip.of before) := by
  have mem_keys {x : Path} : x ∈ before.keys ↔ before.get? x = some () := by
    rw [SortedMap.mem_keys_iff]
    exact ⟨fun ⟨_, h⟩ => h, fun h => ⟨_, h⟩⟩
  have heach : Program.Needs True (gripNeeds S may) post (LockTable.releaseEach before.keys)
      ⟨.empty, fun x => x ∈ before.keys⟩ :=
    grip_releaseEach before.nodup_keys (fun x hx => hmay x (mem_keys.1 hx)) h
  have hmade : (fun x => x ∈ before.keys) = (Grip.of before).made := by
    funext x
    exact propext mem_keys
  have hnotes := before.foldl_erase_keys
  rw [LockTable.releaseAll, Program.needs_bind]
  refine grip_act (a := .held) ?_
  change Program.Needs True (gripNeeds S may) post
    (LockTable.forget before.keys >>= fun _ => LockTable.releaseEach before.keys) (Grip.of before)
  rw [Program.needs_bind]
  refine grip_forget _ ?_
  rw [hmade, ← hnotes] at heach
  exact heach

/-! ### Calls -/

/-- **Every call does what it should**, whatever others do meanwhile: it needs no more of the files
than that the directories of its making stay. -/
theorem LockCall.needs_program {c : LockCall} (hc : c.Allowed S.locks before)
    (hlocks : ∀ x, before.get? x = some () → S.IsLock x) :
    Program.Needs True (gripNeeds S (c.May S.locks before)) (c.Ends S.locks before)
      (c.program S.locks) (Grip.of before) := by
  -- a lock that was noted is one of a depth that locks have
  have hdepth {d : Digest} {depth : Nat}
      (hheld : before.get? (S.locks.path d depth) = some ()) : depth ≤ maxLockDepth := by
    obtain ⟨e, k, hk, hpath⟩ := hlocks _ hheld
    exact (S.lockPlace_inj (congrArg Path.place hpath)).2 ▸ hk
  cases c with
  | acquire d depth =>
      rw [program, Task.needs_run]
      refine grip_acquire (fun p => Or.inl) (Or.inr rfl) (fun hfree => Or.inl ⟨rfl, hfree, rfl⟩)
        (Or.inr ⟨by simp, rfl⟩) fun e => Or.inr ⟨by simp, rfl⟩
  | release d depth =>
      rw [program, Task.needs_run]
      refine grip_release (hdepth hc) ?_ hc ?_
      · rfl
      · rfl
  | dropGuard d depth =>
      rw [program, LockTable.releaseQuietly, Program.needs_bind, Task.needs_run]
      refine grip_release (hdepth hc) ?_ hc ?_
      · rfl
      · exact Program.needs_pure_of rfl
  | releaseAll => exact grip_releaseAll (fun x => id) ⟨rfl, rfl⟩
  | isLocked d depth =>
      rw [program, LockTable.isLocked, Program.needs_eq, Task.obeys_run, Task.obeys_bind]
      exact still_checkDepth (still_present (grip_look _) (fun b => rfl) fun e => rfl) fun e => rfl
  | wait d depth polls =>
      rw [program, LockTable.wait, Program.needs_eq, Task.obeys_run, Task.obeys_bind]
      exact still_checkDepth (still_waitLoop (grip_look _) grip_sleep trivial _ polls rfl
        fun e => rfl) fun e => rfl
  | waitAtMost d depth timeout polls =>
      rw [program, LockTable.waitAtMost, Program.needs_eq, Task.obeys_run, Task.obeys_bind]
      refine still_checkDepth ?_ fun e => rfl
      rw [Task.obeys_bind, Task.obeys_lift]
      exact still_act grip_now fun now => still_waitAtMostLoop (grip_look _) grip_sleep grip_now
        trivial now timeout _ polls rfl fun e => rfl

end

end KernelCache
