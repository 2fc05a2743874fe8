/-
**What becomes of locks that cannot be given back.**

The notes of a table are meant to be the locks that it has taken and not yet given back, so that
what is left of them is given back in the end.  A table strikes a lock from its notes before it
tries to remove the lock's directory.  Where the directory cannot be removed, because something is
in it for example, the lock is neither given back nor noted: nobody will try again.

What has become of a lock is told by the diary of the table.  It was never taken or it was removed;
or it was taken and nobody has tried to remove it; or all that was tried since has failed, and then
it is stuck.

Main definitions:

* `LockFate`, `Diary.fate` — **what has become of a lock**;
* `Diary.Holds`, `Diary.Life` — what is noted, and a table's work up to the end of a call;
* `LockBook`, `keeping` — notes and fates together, and the rule for what actions make of them;
* `LockCall.Books` — what calls make of them.

Main results:

* `keeping_call` — **every call makes of notes and fates what it should**;
* `LockBook.Balanced.books` — what is noted is what nobody has tried to remove;
* `notes_exact_iff` — **the notes are the locks that are not given back, unless one is stuck**;
* `jammed_lock_forgotten` — where one is.
-/

import KernelCache.Proofs.Locks.Diary
import KernelCache.Proofs.SortedMap
import KernelCache.Proofs.Still

set_option relaxedAutoImplicit false
set_option autoImplicit false

namespace KernelCache

/-! ### Fates -/

/-- What has become of a lock: it is not there any more or was never taken, or it is there and
nobody has tried to remove it, or it is there although this was tried. -/
inductive LockFate where
  | gone
  | kept
  | stuck
  deriving DecidableEq

/-- What a removal that fails makes of a lock. -/
def LockFate.failed : LockFate → LockFate
  | .gone => .gone
  | .kept | .stuck => .stuck

/-- What a removal makes of a lock. -/
def LockFate.tried (f : LockFate) : Except Failure Unit → LockFate
  | .ok () | .error .notFound => .gone
  | .error _ => f.failed

theorem LockFate.tried_ne_kept (f : LockFate) (r : Except Failure Unit) : f.tried r ≠ .kept := by
  unfold tried
  split
  · simp
  · simp
  · cases f <;> simp [failed]

theorem LockFate.tried_error (f : LockFate) {e : Failure} (he : e ≠ .notFound) :
    f.tried (.error e) = f.failed := by
  cases e with
  | notFound => exact absurd rfl he
  | _ => rfl

/-- What an action makes of a lock. -/
def Moment.fate (x : Path) : Moment → LockFate → LockFate
  | ⟨.hold p, _, _, _⟩, f => if p = x then .kept else f
  | ⟨.removeDirectory p, _, r, _⟩, f => if p = x then f.tried r else f
  | _, f => f

namespace Diary

/-- **What has become of a lock.** -/
def fate (x : Path) : Diary → LockFate
  | [] => .gone
  | m :: δ => m.fate x (fate x δ)

/-- Whether a lock is noted. -/
def Holds (start : Process) (δ : Diary) (x : Path) : Prop :=
  (latest start δ).held.get? x = some ()

instance (start : Process) (δ : Diary) (x : Path) : Decidable (Holds start δ x) :=
  inferInstanceAs (Decidable ((latest start δ).held.get? x = some ()))

/-- A table's work up to the end of one of its calls, or up to its start. -/
inductive Life (t : LockTable) (start : Process) : Diary → Prop
  | fresh : Life t start []
  | call {δ δ' : Diary} (c : LockCall) {r : c.Answer} {calls : List Action} (h : Life t start δ)
      (hrun : Program.Runs (Writes start) (c.program t) δ calls (.done r) δ') : Life t start δ'

end Diary

/-! ### Notes and fates -/

/-- The notes of a table and what has become of locks. -/
structure LockBook where
  notes : SortedMap Path Unit
  fates : Path → LockFate

/-- The book that a diary amounts to. -/
def Diary.book (start : Process) (δ : Diary) : LockBook :=
  ⟨(Diary.latest start δ).held, fun x => Diary.fate x δ⟩

namespace LockBook

/-- The book after a lock is noted. -/
def hold (h : LockBook) (x : Path) : LockBook :=
  ⟨h.notes.insert x (), Function.update h.fates x .kept⟩

/-- The book after a lock is struck from the notes. -/
def strike (h : LockBook) (x : Path) : LockBook := { h with notes := h.notes.erase x }

/-- The book after a lock was to be removed. -/
def tried (h : LockBook) (x : Path) (r : Except Failure Unit) : LockBook :=
  { h with fates := Function.update h.fates x ((h.fates x).tried r) }

/-- Whether a lock is noted exactly as long as nobody has tried to remove it. -/
def Balanced (h : LockBook) : Prop := ∀ x, h.notes.get? x = some () ↔ h.fates x = .kept

/-- What it makes of a book to give some locks back, whether or not this works. -/
structure GivesBack (h : LockBook) (l : List Path) (h' : LockBook) : Prop where
  notes : ∀ x, h'.notes.get? x = if x ∈ l then none else h.notes.get? x
  given : ∀ x ∈ l, h'.fates x ≠ .kept
  other : ∀ x, x ∉ l → h'.fates x = h.fates x

variable {h h' : LockBook} {x : Path} {l : List Path}

theorem givesBack_single (h : LockBook) (x : Path) (r : Except Failure Unit) :
    h.GivesBack [x] ((h.strike x).tried x r) where
  notes := fun y => by
    simp only [tried, strike, SortedMap.get?_erase, List.mem_singleton]
    exact if_congr eq_comm rfl rfl
  given := by
    intro y hy
    obtain rfl := List.mem_singleton.1 hy
    simp only [tried, Function.update_self]
    exact LockFate.tried_ne_kept _ r
  other := by
    intro y hy
    exact Function.update_of_ne (fun h => hy (List.mem_singleton.2 h)) _ _

theorem GivesBack.refl (h : LockBook) : h.GivesBack [] h where
  notes := fun _ => rfl
  given := by simp
  other := fun _ _ => rfl

/-- Giving a lock back, and then some more. -/
theorem GivesBack.cons {h₁ h₂ : LockBook} (hfirst : h.GivesBack [x] h₁)
    (hrest : h₁.GivesBack l h₂) : h.GivesBack (x :: l) h₂ where
  notes := fun y => by
    rw [hrest.notes, hfirst.notes]
    by_cases hy : y = x <;> simp [hy]
  given := by
    intro y hy
    by_cases hmem : y ∈ l
    · exact hrest.given y hmem
    · rw [hrest.other y hmem]
      exact hfirst.given y (List.mem_singleton.2 ((List.mem_cons.1 hy).resolve_right hmem))
  other := by
    intro y hy
    obtain ⟨hne, hmem⟩ := not_or.1 (fun h => hy (List.mem_cons.2 h))
    rw [hrest.other y hmem]
    exact hfirst.other y (fun h => hne (List.mem_singleton.1 h))

/-- What is given back may be struck from the notes before. -/
theorem GivesBack.of_forget (hgives : LockBook.GivesBack
    { h with notes := l.foldl (fun notes x => notes.erase x) h.notes } l h') :
    h.GivesBack l h' where
  notes := fun y => by
    rw [hgives.notes, SortedMap.get?_foldl_erase]
    by_cases hy : y ∈ l <;> simp [hy]
  given := hgives.given
  other := hgives.other

/-- What is noted after locks are given back. -/
theorem GivesBack.noted_iff (hgives : h.GivesBack l h') :
    h'.notes.get? x = some () ↔ h.notes.get? x = some () ∧ x ∉ l := by
  rw [hgives.notes]
  by_cases hx : x ∈ l <;> simp [hx]

/-- **Giving locks back keeps the balance**, even where it fails: what is tried is not noted. -/
theorem Balanced.givesBack (hb : h.Balanced) (hgives : h.GivesBack l h') : h'.Balanced := by
  intro y
  rw [hgives.noted_iff]
  by_cases hy : y ∈ l
  · simp [hy, hgives.given y hy]
  · rw [hgives.other y hy, and_iff_left hy]
    exact hb y

theorem Balanced.hold (hb : h.Balanced) (x : Path) : (h.hold x).Balanced := by
  intro y
  simp only [LockBook.hold, SortedMap.get?_insert]
  by_cases hy : x = y
  · subst hy
    simp
  · rw [if_neg hy, Function.update_of_ne (Ne.symm hy)]
    exact hb y

end LockBook

/-- The rule for what actions make of a book. -/
def keeping : Rule Action Action.Reply LockBook where
  act
    | .hold x, post, h => post () (h.hold x)
    | .letGo x, post, h => post () (h.strike x)
    | .removeDirectory x, post, h => ∀ r, post r (h.tried x r)
    | .held, post, h => post h.notes.keys h
    | .look _, post, h => ∀ r, post r h
    | .makeDirectory _, post, h => ∀ r, post r h
    | .now, post, h => ∀ t, post t h
    | .sleep _, post, h => post () h
    | .read _, _, _ | .names _, _, _ | .createFresh .., _, _ | .write .., _, _ => False
    | .removeFile _, _, _ | .move .., _, _ => False
  wait := fun _ => True

/-- **The book that a diary amounts to changes by the rule.** -/
theorem keeping_writes {start : Process} (a : Action) (post : a.Reply → LockBook → Prop)
    {δ δ' : Diary} {r : a.Reply} (hact : keeping.act a post (Diary.book start δ))
    (hwrites : Diary.Writes start a δ r δ') : post r (Diary.book start δ') := by
  obtain ⟨hmeanwhile, hfares⟩ := hwrites
  rename_i found left
  have hheld : left.held = a.noted (Diary.latest start δ).held :=
    hfares.held.trans (congrArg a.noted hmeanwhile.held)
  have hbook : Diary.book start (⟨a, found, r, left⟩ :: δ) = ⟨a.noted (Diary.book start δ).notes,
      fun x => Moment.fate x ⟨a, found, r, left⟩ ((Diary.book start δ).fates x)⟩ :=
    congrArg (LockBook.mk · _) hheld
  rw [hbook]
  cases a with
  | hold x =>
      have hhold : (Diary.book start δ).hold x = ⟨(Diary.book start δ).notes.insert x (),
          fun y => if x = y then .kept else (Diary.book start δ).fates y⟩ :=
        congrArg (LockBook.mk _) (funext fun y => by simp only [Function.update_apply, eq_comm])
      exact hhold ▸ hact
  | removeDirectory x =>
      have htried : (Diary.book start δ).tried x r = ⟨(Diary.book start δ).notes,
          fun y => if x = y then ((Diary.book start δ).fates y).tried r
            else (Diary.book start δ).fates y⟩ := by
        refine congrArg (LockBook.mk _) (funext fun y => ?_)
        by_cases hy : y = x
        · subst hy
          simp
        · simp [hy, Ne.symm hy]
      exact htried ▸ hact r
  | held =>
      obtain ⟨rfl, -⟩ := hfares.of_steady (fun _ h => h) (by simp)
      have hkeys : (Diary.book start δ).notes.keys = found.held.keys :=
        congrArg SortedMap.keys hmeanwhile.held.symm
      have hpost : post (Diary.book start δ).notes.keys (Diary.book start δ) := hact
      rw [hkeys] at hpost
      exact hpost
  | letGo x => exact hact
  | look p => exact hact r
  | makeDirectory p => exact hact r
  | now => exact hact r
  | sleep d => exact hact
  | read p | names p | createFresh dir stem | write p b | removeFile p | move p q =>
      exact hact.elim

/-! ### Calls -/

/-- **What a call makes of a book.**  A lock that is taken is noted.  A lock that is to be given
back is struck and tried, and that it cannot be removed is said.  In the end this is done for all
that is noted.  Nothing else changes anything. -/
def LockCall.Books (t : LockTable) (h : LockBook) :
    (c : LockCall) → c.Answer → LockBook → Prop
  | .acquire d depth, _, h' => h' = h ∨ h' = h.hold (t.path d depth)
  | .release d depth, r, h' => maxLockDepth < depth ∧ h' = h ∨
      h.GivesBack [t.path d depth] h' ∧
        ∀ e, r = .error e → h'.fates (t.path d depth) = (h.fates (t.path d depth)).failed
  | .dropGuard d depth, _, h' => maxLockDepth < depth ∧ h' = h ∨
      h.GivesBack [t.path d depth] h'
  | .releaseAll, _, h' => h.GivesBack h.notes.keys h'
  | .isLocked .., _, h' | .wait .., _, h' | .waitAtMost .., _, h' => h' = h

section

variable {h : LockBook} {t : LockTable} {d : Digest} {depth : Nat}

theorem keeping_act (a : Action) {post : a.Reply → LockBook → Prop}
    (hact : keeping.act a post h) : Program.Obeys keeping post (Program.act a) h :=
  Program.obeys_act_of hact

theorem keeping_still_look (x : Path) : keeping.Still h (.look x) := fun _ hpost => hpost

theorem keeping_still_makeDirectory (x : Path) : keeping.Still h (.makeDirectory x) :=
  fun _ hpost => hpost

theorem keeping_still_now : keeping.Still h .now := fun _ hpost => hpost

theorem keeping_still_sleep (duration : Nat) : keeping.Still h (.sleep duration) :=
  fun _ hpost => hpost ()

theorem keeping_releasePath {x : Path} {ok : Unit → LockBook → Prop}
    {err : CacheError → LockBook → Prop} (hok : ∀ r, ok () ((h.strike x).tried x r))
    (herr : ∀ e, e ≠ .notFound → err (.io x e) ((h.strike x).tried x (.error e))) :
    Task.Obeys keeping ok err (LockTable.releasePath x) h := by
  rw [LockTable.releasePath, Task.obeys_bind, Task.obeys_lift]
  refine keeping_act (.letGo x) ?_
  rw [Task.obeys_bind, Task.obeys_lift]
  refine keeping_act (.removeDirectory x) fun r => ?_
  cases r with
  | ok u => exact Task.obeys_pure_of (hok _)
  | error e =>
      cases e with
      | notFound => exact Task.obeys_pure_of (hok _)
      | _ => exact Task.obeys_throw_of (herr _ (by simp))

/-- Giving one lock back. -/
theorem keeping_release {ok : Unit → LockBook → Prop} {err : CacheError → LockBook → Prop}
    (hdeep : maxLockDepth < depth → err (.lockDepth depth) h)
    (hok : ∀ h', h.GivesBack [t.path d depth] h' → ok () h')
    (herr : ∀ e h', h.GivesBack [t.path d depth] h' →
      h'.fates (t.path d depth) = (h.fates (t.path d depth)).failed → err e h') :
    Task.Obeys keeping ok err (t.release d depth) h := by
  rw [LockTable.release, Task.obeys_bind, LockTable.checkDepth]
  split
  · refine Task.obeys_pure_of (keeping_releasePath (fun r => hok _ (h.givesBack_single _ r))
      fun e he => herr _ _ (h.givesBack_single _ _) ?_)
    simp only [LockBook.tried, Function.update_self, LockFate.tried_error _ he]
    rfl
  · next hdepth => exact Task.obeys_throw_of (hdeep (Nat.lt_of_not_le hdepth))

/-- Taking a lock. -/
theorem keeping_acquire {ok : Bool → LockBook → Prop} {err : CacheError → LockBook → Prop}
    (hok : ok true (h.hold (t.path d depth))) (hnot : ok false h) (herr : ∀ e, err e h) :
    Task.Obeys keeping ok err (t.acquire d depth) h := by
  rw [LockTable.acquire, Task.obeys_bind]
  refine still_checkDepth ?_ herr
  rw [Task.obeys_bind, obeys_attempt]
  refine still_makeAll (fun p _ => ⟨keeping_still_makeDirectory p, keeping_still_look p⟩)
    fun r => ?_
  cases r with
  | error e => exact herr _
  | ok _ =>
      simp only [Task.Outcome, Task.obeys_bind, Task.obeys_lift]
      refine keeping_act (.makeDirectory _) fun (r : Except Failure Unit) => ?_
      split
      · simp only [Task.obeys_bind, Task.obeys_lift]
        exact keeping_act (.hold _) (Task.obeys_pure_of hok)
      · exact Task.obeys_pure_of hnot
      · exact Task.obeys_throw_of (herr _)

/-- Locks that are struck are not noted any more. -/
theorem keeping_forget (l : List Path) {post : Unit → LockBook → Prop}
    (hpost : post () { h with notes := l.foldl (fun notes x => notes.erase x) h.notes }) :
    Program.Obeys keeping post (LockTable.forget l) h := by
  induction l generalizing h with
  | nil => exact Program.obeys_pure_of hpost
  | cons x rest ih =>
      rw [LockTable.forget, Program.obeys_bind]
      exact keeping_act (.letGo x) (ih hpost)

/-- Giving locks back one by one.  The induction is on the locks that are left. -/
theorem keeping_releaseEach (l : List Path) {post : Nat → LockBook → Prop}
    (hpost : ∀ n h', h.GivesBack l h' → post n h') :
    Program.Obeys keeping post (LockTable.releaseEach l) h := by
  induction l generalizing h post with
  | nil => exact Program.obeys_pure_of (hpost _ _ (.refl h))
  | cons x rest ih =>
      rw [LockTable.releaseEach, Program.obeys_bind, Task.obeys_run]
      have hfirst (r : Except Failure Unit) := h.givesBack_single x r
      refine keeping_releasePath (fun r => ?_) fun e _ => ?_
      · rw [Program.obeys_bind]
        exact ih fun n h' hgives => Program.obeys_pure_of (hpost _ _ ((hfirst r).cons hgives))
      · exact ih fun n h' hgives => hpost _ _ ((hfirst _).cons hgives)

/-- Giving back all that is noted. -/
theorem keeping_releaseAll {post : Nat → LockBook → Prop}
    (hpost : ∀ n h', h.GivesBack h.notes.keys h' → post n h') :
    Program.Obeys keeping post LockTable.releaseAll h := by
  rw [LockTable.releaseAll, Program.obeys_bind]
  have hgive : Program.Obeys keeping post
      (LockTable.forget h.notes.keys >>= fun _ => LockTable.releaseEach h.notes.keys) h := by
    rw [Program.obeys_bind]
    -- all are struck before the first is tried
    exact keeping_forget _ (keeping_releaseEach _ fun n h' hgives => hpost n h' hgives.of_forget)
  exact keeping_act .held hgive

/-- **Every call makes of notes and fates what it should.** -/
theorem keeping_call (t : LockTable) (c : LockCall) (h : LockBook) :
    Program.Obeys keeping (fun r h' => c.Books t h r h') (c.program t) h := by
  cases c with
  | acquire d depth =>
      rw [LockCall.program, Task.obeys_run]
      exact keeping_acquire (Or.inr rfl) (Or.inl rfl) fun e => Or.inl rfl
  | release d depth =>
      rw [LockCall.program, Task.obeys_run]
      exact keeping_release (fun hdeep => Or.inl ⟨hdeep, rfl⟩)
        (fun h' hgives => Or.inr ⟨hgives, fun e he => by cases he⟩)
        fun e h' hgives hfailed => Or.inr ⟨hgives, fun _ _ => hfailed⟩
  | dropGuard d depth =>
      rw [LockCall.program, LockTable.releaseQuietly, Program.obeys_bind, Task.obeys_run]
      exact keeping_release (fun hdeep => Program.obeys_pure_of (Or.inl ⟨hdeep, rfl⟩))
        (fun h' hgives => Program.obeys_pure_of (Or.inr hgives))
        fun e h' hgives _ => Program.obeys_pure_of (Or.inr hgives)
  | releaseAll => exact keeping_releaseAll fun n h' hgives => hgives
  | isLocked d depth =>
      rw [LockCall.program, LockTable.isLocked, Task.obeys_run, Task.obeys_bind]
      exact still_checkDepth (still_present (keeping_still_look _) (fun _ => rfl) fun _ => rfl)
        fun _ => rfl
  | wait d depth polls =>
      rw [LockCall.program, LockTable.wait, Task.obeys_run, Task.obeys_bind]
      exact still_checkDepth (still_waitLoop (keeping_still_look _) keeping_still_sleep trivial _
        polls rfl fun _ => rfl) fun _ => rfl
  | waitAtMost d depth timeout polls =>
      rw [LockCall.program, LockTable.waitAtMost, Task.obeys_run, Task.obeys_bind]
      refine still_checkDepth ?_ fun _ => rfl
      rw [Task.obeys_bind, Task.obeys_lift]
      exact still_act keeping_still_now fun now => still_waitAtMostLoop (keeping_still_look _)
        keeping_still_sleep keeping_still_now trivial now timeout _ polls rfl fun _ => rfl

end

/-! ### What is noted -/

section

variable {t : LockTable} {start : Process} {δ δ' : Diary} {h h' : LockBook} {c : LockCall}
  {r : c.Answer} {calls : List Action}

/-- A call makes of the book that a diary amounts to what it should. -/
theorem Diary.books_of_runs
    (hrun : Program.Runs (Diary.Writes start) (c.program t) δ calls (.done r) δ') :
    c.Books t (Diary.book start δ) r (Diary.book start δ') := by
  obtain ⟨h', hdone, rfl⟩ := hrun.obeys (fun h δ => h = Diary.book start δ)
    (fun a post h δ r δ' hact hfits hstep => by
      subst hfits
      exact ⟨_, keeping_writes a post hact hstep, rfl⟩)
    (keeping_call t c _) rfl
  rwa [Program.obeys_done] at hdone

/-- Calls keep the balance. -/
theorem LockBook.Balanced.books (hb : h.Balanced) (hbooks : c.Books t h r h') : h'.Balanced := by
  cases c with
  | acquire d depth =>
      rcases hbooks with rfl | rfl
      · exact hb
      · exact hb.hold _
  | release d depth =>
      rcases hbooks with ⟨-, rfl⟩ | ⟨hgives, -⟩
      · exact hb
      · exact hb.givesBack hgives
  | dropGuard d depth =>
      rcases hbooks with ⟨-, rfl⟩ | hgives
      · exact hb
      · exact hb.givesBack hgives
  | releaseAll => exact hb.givesBack hbooks
  | isLocked d depth | wait d depth polls | waitAtMost d depth timeout polls =>
      obtain rfl := hbooks
      exact hb

/-- **What is noted is what nobody has tried to remove.**  The induction is on the calls. -/
theorem Diary.Life.balanced (hstart : start.held = .empty) (hlife : Diary.Life t start δ) :
    (Diary.book start δ).Balanced := by
  induction hlife with
  | fresh =>
      intro x
      simp [Diary.book, Diary.fate, hstart]
  | call c _ hrun ih => exact ih.books (Diary.books_of_runs hrun)

end

/-- **The notes are the locks that were taken and not given back, unless one of them is stuck.**
When a lock cannot be given back, it is struck from the notes all the same, and so are all the locks
of a table that is dropped. -/
theorem notes_exact_iff {t : LockTable} {start : Process} {δ : Diary}
    (hstart : start.held = .empty) (hlife : Diary.Life t start δ) :
    (∀ x, Diary.Holds start δ x ↔ Diary.fate x δ = .kept) ∧
    ((∀ x, Diary.Holds start δ x ↔ Diary.fate x δ ≠ .gone) ↔ ∀ x, Diary.fate x δ ≠ .stuck) ∧
    (∀ d depth e calls δ', depth ≤ maxLockDepth →
      Program.Runs (Diary.Writes start) ((LockCall.release d depth).program t) δ calls
        (.done (.error e)) δ' →
      (∀ x, Diary.Holds start δ' x ↔ Diary.Holds start δ x ∧ x ≠ t.path d depth) ∧
        (Diary.Holds start δ (t.path d depth) → Diary.fate (t.path d depth) δ' = .stuck)) ∧
    ∀ n calls δ', Program.Runs (Diary.Writes start) (LockCall.releaseAll.program t) δ calls
      (.done n) δ' → ∀ x, ¬Diary.Holds start δ' x := by
  have hbalanced : ∀ x, Diary.Holds start δ x ↔ Diary.fate x δ = .kept := hlife.balanced hstart
  refine ⟨hbalanced, ?_, ?_, ?_⟩
  · refine forall_congr' fun x => ?_
    rw [hbalanced x]
    cases Diary.fate x δ <;> simp
  · intro d depth e calls δ' hdepth hrun
    obtain ⟨hdeep, -⟩ | ⟨hgives, hfailed⟩ := Diary.books_of_runs (c := .release d depth) hrun
    · exact absurd hdepth (Nat.not_le_of_lt hdeep)
    · refine ⟨fun x => ?_, fun hheld => ?_⟩
      · exact hgives.noted_iff.trans (and_congr_right' (not_congr List.mem_singleton))
      · have hkept := (hbalanced _).1 hheld
        calc Diary.fate (t.path d depth) δ'
            = (Diary.fate (t.path d depth) δ).failed := hfailed e rfl
          _ = .stuck := by rw [hkept, LockFate.failed]
  · intro n calls δ' hrun x hx
    have hgives := Diary.books_of_runs (c := .releaseAll) hrun
    obtain ⟨hnoted, hmem⟩ := hgives.noted_iff.1 hx
    exact hmem (SortedMap.mem_keys_iff.2 ⟨(), hnoted⟩)

/-! ### A lock that cannot be given back -/

namespace Jammed

/-- The locks of a cache in the working directory. -/
def table : LockTable := .atRoot (Path.ofString ".")

/-- One of the locks. -/
def lock : Path := table.path .empty 0

/-- A process that has done nothing. -/
def start : Process := .fresh .empty

/-- Someone puts a file into the directory of the lock as soon as it is there. -/
def others (_ : Diary) (fs : FileSystem) : FileSystem :=
  match fs.writeFile (lock.child "f") [] with
  | .ok fs => fs
  | .error _ => fs

/-- What a call of the table comes to, among the others. -/
def outcome (c : LockCall) (δ : Diary) : Option c.Answer × Diary :=
  Program.run (Diary.amid others start) (c.program table) δ

/-- The diary after the lock is taken. -/
def taken : Diary := (outcome (.acquire .empty 0) []).2

/-- The diary after the lock was to be given back. -/
def released : Diary := (outcome (.release .empty 0) taken).2

theorem taken_answer : (outcome (.acquire .empty 0) []).1 = some (.ok true) := by decide +kernel

theorem released_answer :
    (outcome (.release .empty 0) taken).1 = some (.error (.io lock .notEmpty)) := by
  decide +kernel

theorem life_taken : Diary.Life table start taken := by
  obtain ⟨calls, hrun⟩ := Program.Runs.of_run (Diary.writes_amid others start) _ taken_answer
  exact .call (.acquire .empty 0) .fresh hrun

theorem life_released : Diary.Life table start released := by
  obtain ⟨calls, hrun⟩ := Program.Runs.of_run (Diary.writes_amid others start) _ released_answer
  exact .call (.release .empty 0) life_taken hrun

end Jammed

/-- A lock with a file in its directory is stuck, and the notes are not exact. -/
theorem jammed_notes_not_exact : Jammed.start.held = .empty ∧
    Diary.Life Jammed.table Jammed.start Jammed.released ∧
    Diary.fate Jammed.lock Jammed.released = .stuck ∧
    ¬∀ x, Diary.Holds Jammed.start Jammed.released x ↔ Diary.fate x Jammed.released ≠ .gone := by
  have hstuck : Diary.fate Jammed.lock Jammed.released = .stuck := by decide +kernel
  obtain ⟨-, hexact, -⟩ := notes_exact_iff rfl Jammed.life_released
  exact ⟨rfl, Jammed.life_released, hstuck, fun h => hexact.1 h _ hstuck⟩

/-- **A lock that cannot be given back is forgotten.**  It was noted before, giving it back fails,
it is not removed, and it is not noted any more. -/
theorem jammed_lock_forgotten : Jammed.start.held = .empty ∧
    Diary.Life Jammed.table Jammed.start Jammed.taken ∧
    Diary.Holds Jammed.start Jammed.taken Jammed.lock ∧
    (Jammed.outcome (.release .empty 0) Jammed.taken).1 =
      some (.error (.io Jammed.lock .notEmpty)) ∧
    Diary.Life Jammed.table Jammed.start Jammed.released ∧
    ¬(Diary.Holds Jammed.start Jammed.released Jammed.lock ↔
      Diary.fate Jammed.lock Jammed.released ≠ .gone) := by
  refine ⟨rfl, Jammed.life_taken, ?_, Jammed.released_answer, Jammed.life_released, ?_⟩
  · decide +kernel
  · decide +kernel

end KernelCache
