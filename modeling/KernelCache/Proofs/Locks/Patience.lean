/-
**Bounded waiting.**

A wait for a lock looks at it, reads the clock and sleeps, again and again, each time for longer up
to a longest pause.  Others may take the lock and give it back at any time, and a sleep may take
longer than it was asked to.  Whatever they do, the wait comes to its end: the pauses grow, so only
so many of them fit in the time that it has.

Main definitions:

* `LockTable.pauseAt`, `LockTable.pausesBefore` — the pauses of a wait, one by one and together;
* `LockTable.mostPolls` — how often a wait looks at its lock at most;
* `Diary.MayAsk`, `Diary.Ends` — **what a wait asks for after what it has seen**, and how it ends;
* `Diary.Watches` — a diary in which nothing else is asked for and nothing is changed.

Main results:

* `LockTable.succ_lt_mostPolls` — as long as the time is not up there are looks left;
* `Diary.Resting.sleep` — **a sleep moves the clock on by the next pause**, or to the end;
* `waiting_waitAtMostLoop` — the loop, for any number of looks so far;
* `wait_bounded` — **a wait is bounded, changes nothing and ends for a reason**.
-/

import KernelCache.Proofs.Locks.Diary

set_option relaxedAutoImplicit false
set_option autoImplicit false

namespace KernelCache

/-! ### Pauses -/

namespace LockTable

/-- The pause after so many pauses. -/
def pauseAt : Nat → Nat
  | 0 => firstPause
  | k + 1 => nextPause (pauseAt k)

/-- So many pauses together. -/
def pausesBefore : Nat → Nat
  | 0 => 0
  | k + 1 => pausesBefore k + pauseAt k

/-- How often a wait looks at its lock at most: once for each of the longest pauses that fit in its
time, and a few times more because the first pauses are shorter. -/
def mostPolls (timeout : Nat) : Nat := timeout / longestPause + 7

theorem pauseAt_pos (k : Nat) : 0 < pauseAt k := by
  induction k with
  | zero => decide
  | succ k ih =>
      have hlongest : 0 < longestPause := by decide
      rw [pauseAt, nextPause]
      omega

theorem pauseAt_le (k : Nat) : pauseAt k ≤ longestPause := by
  cases k with
  | zero => decide
  | succ k => exact Nat.min_le_right _ _

/-- After five pauses the longest is reached. -/
theorem pauseAt_add_five (k : Nat) : pauseAt (k + 5) = longestPause := by
  induction k with
  | zero => decide
  | succ k ih =>
      calc pauseAt (k + 1 + 5) = nextPause (pauseAt (k + 5)) := rfl
        _ = nextPause longestPause := by rw [ih]
        _ = longestPause := by decide

theorem longestPause_mul_le (k : Nat) : longestPause * k ≤ pausesBefore (k + 5) := by
  induction k with
  | zero => simp
  | succ k ih =>
      calc longestPause * (k + 1) = longestPause * k + longestPause := Nat.mul_succ _ _
        _ ≤ pausesBefore (k + 5) + longestPause := Nat.add_le_add_right ih _
        _ = pausesBefore (k + 5) + pauseAt (k + 5) := by rw [pauseAt_add_five]

/-- **As long as the time is not up there are looks left.** -/
theorem succ_lt_mostPolls {k timeout : Nat} (h : pausesBefore k < timeout) :
    k + 1 < mostPolls timeout := by
  rw [mostPolls]
  rcases Nat.lt_or_ge k 5 with hk | hk
  · exact Nat.lt_add_left _ (by omega)
  · obtain ⟨j, rfl⟩ := Nat.exists_eq_add_of_le' hk
    have hmul : j * longestPause ≤ timeout := by
      rw [Nat.mul_comm]
      exact (longestPause_mul_le j).trans h.le
    have hdiv := (Nat.le_div_iff_mul_le (by decide)).2 hmul
    omega

end LockTable

open LockTable (pauseAt pausesBefore mostPolls longestPause)

/-! ### What a wait does -/

/-- Whether an action has left the files and the notes as they were. -/
structure Moment.Untouched (m : Moment) : Prop where
  files : m.left.machine.files = m.found.machine.files
  held : m.left.held = m.found.held

namespace Diary

/-- How often something was looked at. -/
def looks : Diary → Nat
  | [] => 0
  | ⟨.look _, _, _, _⟩ :: δ => looks δ + 1
  | _ :: δ => looks δ

/-- When the first action was performed. -/
def begun : Diary → Nat
  | [] => 0
  | [m] => m.found.machine.clock
  | _ :: m :: δ => begun (m :: δ)

/-- **What a wait may ask for after what it has seen.**  It reads the clock at its start and after a
look that has found the lock.  It sleeps after a reading of the clock that leaves it some time, and
not for longer than that. -/
inductive MayAsk (lock : Path) (timeout : Nat) : Diary → Action → Prop
  | start : MayAsk lock timeout [] .now
  | look {m : Moment} {δ : Diary} (hfew : looks (m :: δ) < mostPolls timeout) :
      MayAsk lock timeout (m :: δ) (.look lock)
  | now {found left : Process} {n : Node} {δ : Diary} :
      MayAsk lock timeout (⟨.look lock, found, .ok n, left⟩ :: δ) .now
  | sleep {found left found' left' : Process} {n : Node} {δ : Diary} {pause : Nat}
      (hearly : found'.machine.clock - begun δ < timeout) (hpos : 0 < pause)
      (hlongest : pause ≤ longestPause)
      (hleft : pause ≤ timeout - (found'.machine.clock - begun δ)) :
      MayAsk lock timeout
        (⟨.now, found', found'.machine.clock, left'⟩ :: ⟨.look lock, found, .ok n, left⟩ :: δ)
        (.sleep pause)

/-- **How a wait ends.**  The last look has found no lock; or the last look has found it, and the
clock that was read next shows that the time is up; or the last look has failed; or there is no such
lock, and nothing was done. -/
inductive Ends (lock : Path) (depth timeout : Nat) : Diary → Except CacheError Unit → Prop
  | gone {found left : Process} {δ : Diary}
      (habsent : found.machine.files.lookup lock = .error .notFound) :
      Ends lock depth timeout (⟨.look lock, found, .error .notFound, left⟩ :: δ) (.ok ())
  | late {found left found' left' : Process} {x : Place} {n : Node} {δ : Diary}
      (hpresent : found.machine.files.lookup lock = .ok (x, n))
      (hlate : timeout ≤ found'.machine.clock - begun δ) :
      Ends lock depth timeout
        (⟨.now, found', found'.machine.clock, left'⟩ :: ⟨.look lock, found, .ok n, left⟩ :: δ)
        (.error (.lockTimeout lock (found'.machine.clock - begun δ)))
  | fault {found left : Process} {e : Failure} {δ : Diary} (he : e ≠ .notFound) :
      Ends lock depth timeout (⟨.look lock, found, .error e, left⟩ :: δ) (.error (.io lock e))
  | depth (hdepth : maxLockDepth < depth) : Ends lock depth timeout [] (.error (.lockDepth depth))

/-- A diary in which a wait has asked only for what it may, and has changed nothing. -/
structure Watches (start : Process) (lock : Path) (timeout : Nat) (δ : Diary) : Prop where
  asked : ∀ m older, m :: older <:+ δ → MayAsk lock timeout older m.action
  untouched : ∀ m ∈ δ, m.Untouched
  held : (latest start δ).held = start.held

variable {start : Process} {lock : Path} {timeout : Nat} {δ δ' : Diary} {a : Action}
  {r : a.Reply}

theorem watches_nil (start : Process) (lock : Path) (timeout : Nat) :
    Watches start lock timeout [] where
  asked := fun m older h => by simp at h
  untouched := by simp
  held := rfl

theorem MayAsk.untouched {found left : Process} (h : MayAsk lock timeout δ a)
    (hdue : found.machine.due = []) (hfares : found.Fares (fun _ => True) a r left) :
    Moment.Untouched ⟨a, found, r, left⟩ := by
  cases h with
  | start | now =>
      obtain ⟨-, rfl⟩ := hfares.of_steady (fun _ h => h) (by simp)
      exact ⟨rfl, rfl⟩
  | look =>
      obtain ⟨rfl, -⟩ := hfares.look
      exact ⟨rfl, rfl⟩
  | sleep =>
      obtain ⟨-, rfl⟩ := hfares.of_steady (fun _ h => h) (by simp)
      rw [Process.perform_sleep hdue]
      exact ⟨rfl, rfl⟩

/-- One more action that a wait may ask for. -/
theorem Watches.writes (h : Watches start lock timeout δ) (hmay : MayAsk lock timeout δ a)
    (hwrites : Writes start a δ r δ') : Watches start lock timeout δ' := by
  cases hwrites with
  | action hmeanwhile hfares =>
      have huntouched := hmay.untouched hmeanwhile.due hfares
      refine ⟨fun m older hsuffix => ?_, List.forall_mem_cons.2 ⟨huntouched, h.untouched⟩, ?_⟩
      · rcases List.suffix_cons_iff.1 hsuffix with heq | hsuffix
        · obtain ⟨rfl, rfl⟩ := List.cons.inj heq
          exact hmay
        · exact h.asked m older hsuffix
      · exact huntouched.held.trans (hmeanwhile.held.trans h.held)

/-- **A wait looks at its lock so many times and not more.** -/
theorem Watches.looks_le (h : Watches start lock timeout δ) : looks δ ≤ mostPolls timeout := by
  have hasked := h.asked
  clear h
  induction δ with
  | nil => exact Nat.zero_le _
  | cons m δ ih =>
      have hmay := hasked m δ (List.suffix_refl _)
      have hδ := ih fun m older hsuffix => hasked m older (hsuffix.trans (List.suffix_cons _ _))
      obtain ⟨a, found, r, left⟩ := m
      cases hmay with
      | look hfew => exact hfew
      | start | now | sleep => exact hδ

end Diary

/-! ### The loop -/

/-- The rule for what a wait asks for.  It never goes on for ever. -/
def waiting (start : Process) (lock : Path) (timeout : Nat) : Rule Action Action.Reply Diary where
  act := fun a post δ =>
    Diary.MayAsk lock timeout δ a ∧ ∀ r δ', Diary.Writes start a δ r δ' → post r δ'
  wait := fun _ => False

namespace Diary

/-- A wait after so many looks, of which each has found the lock and was followed by a pause: the
pauses have passed, or the time is up. -/
structure Resting (start : Process) (timeout k : Nat) (δ : Diary) : Prop where
  ne_nil : δ ≠ []
  looks : looks δ = k
  few : k < mostPolls timeout
  clock : begun δ + min timeout (pausesBefore k) ≤ (latest start δ).machine.clock

variable {start found left found' left' found'' left'' : Process} {lock : Path} {timeout k : Nat}
  {δ : Diary} {n : Node}

theorem begun_cons (m : Moment) (h : δ ≠ []) : begun (m :: δ) = begun δ := by
  cases δ with
  | nil => exact absurd rfl h
  | cons m' δ => rfl

theorem Resting.mayLook (h : Resting start timeout k δ) : MayAsk lock timeout δ (.look lock) := by
  cases δ with
  | nil => exact absurd rfl h.ne_nil
  | cons m δ => exact .look (h.looks ▸ h.few)

/-- What the clock shows after the next look. -/
theorem Resting.clock_le (h : Resting start timeout k δ)
    (hlook : (latest start δ).Meanwhile found) (hnow : found.Meanwhile found') :
    begun δ + min timeout (pausesBefore k) ≤ found'.machine.clock :=
  h.clock.trans (hlook.clock.trans hnow.clock)

/-- **A sleep moves the clock on by the next pause**, or to the end of the time. -/
theorem Resting.sleep (h : Resting start timeout k δ) (hlook : (latest start δ).Meanwhile found)
    (hnow : found.Meanwhile found') (hsleep : found'.Meanwhile found'')
    (hearly : found'.machine.clock - begun δ < timeout) {pause : Nat}
    (hpause : pause = min (pauseAt k) (timeout - (found'.machine.clock - begun δ)))
    (hleft : left''.machine.clock = found''.machine.clock + pause) :
    Resting start timeout (k + 1) (⟨.sleep pause, found'', (), left''⟩ ::
      ⟨.now, found', found'.machine.clock, found'⟩ :: ⟨.look lock, found, .ok n, found⟩ :: δ) where
  ne_nil := List.cons_ne_nil _ _
  looks := congrArg (· + 1) h.looks
  few := by
    -- the time is not up, so the pauses have not filled it
    have hclock := h.clock_le hlook hnow
    exact LockTable.succ_lt_mostPolls (by omega)
  clock := by
    have hclock := h.clock_le hlook hnow
    have hwoken := hsleep.clock
    rw [begun_cons _ (List.cons_ne_nil _ _), begun_cons _ (List.cons_ne_nil _ _),
      begun_cons _ h.ne_nil, latest_cons, hleft, pausesBefore]
    -- either the pause was a whole one, or it was cut to what was left of the time
    omega

end Diary

section

variable {start : Process} {lock : Path} {timeout : Nat} {δ : Diary}

theorem waiting_act {a : Action} (hmay : Diary.MayAsk lock timeout δ a)
    {post : a.Reply → Diary → Prop}
    (hpost : ∀ r δ', Diary.Writes start a δ r δ' → post r δ') :
    Program.Obeys (waiting start lock timeout) post (Program.act a) δ :=
  Program.obeys_act_of ⟨hmay, hpost⟩

theorem waiting_present (hmay : Diary.MayAsk lock timeout δ (.look lock))
    {ok : Bool → Diary → Prop} {err : CacheError → Diary → Prop}
    (hthere : ∀ found x n, (Diary.latest start δ).Meanwhile found →
      found.machine.files.lookup lock = .ok (x, n) →
      ok true (⟨.look lock, found, .ok n, found⟩ :: δ))
    (hgone : ∀ found, found.machine.files.lookup lock = .error .notFound →
      ok false (⟨.look lock, found, .error .notFound, found⟩ :: δ))
    (herr : ∀ found e, e ≠ .notFound →
      err (.io lock e) (⟨.look lock, found, .error e, found⟩ :: δ)) :
    Task.Obeys (waiting start lock timeout) ok err (LockTable.present lock) δ := by
  rw [LockTable.present, Task.obeys_bind, Task.obeys_lift]
  refine waiting_act hmay fun r δ' hwrites => ?_
  cases hwrites with
  | action hmeanwhile hfares =>
      obtain ⟨rfl, ⟨x, n, hl, rfl⟩ | ⟨hl, rfl⟩ | ⟨e, he, rfl⟩⟩ := hfares.look
      · exact Task.obeys_pure_of (hthere _ x n hmeanwhile hl)
      · exact Task.obeys_pure_of (hgone _ hl)
      · cases e with
        | notFound => exact absurd rfl he
        | _ => exact Task.obeys_throw_of (herr _ _ he)

theorem waiting_now (hmay : Diary.MayAsk lock timeout δ .now) {post : Nat → Diary → Prop}
    (hpost : ∀ found, (Diary.latest start δ).Meanwhile found →
      post found.machine.clock (⟨.now, found, found.machine.clock, found⟩ :: δ)) :
    Program.Obeys (waiting start lock timeout) post Ask.now δ := by
  refine waiting_act hmay fun r δ' hwrites => ?_
  cases hwrites with
  | action hmeanwhile hfares =>
      obtain ⟨rfl, rfl⟩ := hfares.of_steady (fun _ h => h) (by simp)
      exact hpost _ hmeanwhile

theorem waiting_sleep {pause : Nat} (hmay : Diary.MayAsk lock timeout δ (.sleep pause))
    {post : Unit → Diary → Prop}
    (hpost : ∀ found left, (Diary.latest start δ).Meanwhile found →
      left.machine.clock = found.machine.clock + pause →
      post () (⟨.sleep pause, found, (), left⟩ :: δ)) :
    Program.Obeys (waiting start lock timeout) post (Ask.sleep pause) δ := by
  refine waiting_act hmay fun r δ' hwrites => ?_
  cases hwrites with
  | action hmeanwhile hfares =>
      obtain ⟨rfl, rfl⟩ := hfares.of_steady (fun _ h => h) (by simp)
      refine hpost _ _ hmeanwhile ?_
      rw [Process.perform_sleep hmeanwhile.due]

/-- The loop of a wait, for any number of looks so far.  The induction is on the looks that it may
still have; `Diary.Resting` says what the clock shows after those that it has had. -/
theorem waiting_waitAtMostLoop {depth begun : Nat} (polls : Nat) {k : Nat}
    (hresting : Diary.Resting start timeout k δ) (hbegun : Diary.begun δ = begun)
    (hpolls : mostPolls timeout ≤ k + polls) :
    Task.Obeys (waiting start lock timeout)
      (fun _ δ => Diary.Ends lock depth timeout δ (.ok ()))
      (fun e δ => Diary.Ends lock depth timeout δ (.error e))
      (LockTable.waitAtMostLoop lock begun timeout (pauseAt k) polls) δ := by
  induction polls generalizing k δ with
  | zero => exact absurd hresting.few (by omega)
  | succ polls ih =>
      rw [LockTable.waitAtMostLoop, Task.obeys_bind]
      refine waiting_present hresting.mayLook (fun found x n hlook hl => ?_)
        (fun found hl => Task.obeys_pure_of (.gone hl)) fun found e he => .fault he
      simp only [if_true, Task.obeys_bind, Task.obeys_lift]
      refine waiting_now .now fun found' hnow => ?_
      subst hbegun
      split
      · next hlate => exact Task.obeys_throw_of (.late hl hlate)
      · next hlate =>
          have hearly := Nat.lt_of_not_le hlate
          simp only [Task.obeys_bind, Task.obeys_lift]
          have hpos := LockTable.pauseAt_pos k
          have hlongest := LockTable.pauseAt_le k
          refine waiting_sleep (.sleep hearly (by omega) (by omega) (by omega))
            fun found'' left'' hsleep hleft => ?_
          refine ih (hresting.sleep hlook hnow hsleep hearly rfl hleft) ?_ (by omega)
          simp only [Diary.begun_cons _ (List.cons_ne_nil _ _), Diary.begun_cons _ hresting.ne_nil]

/-- A wait asks only for what it may, and ends for a reason. -/
theorem waiting_waitAtMost (t : LockTable) (d : Digest) {depth polls : Nat}
    (hpolls : mostPolls timeout ≤ polls) :
    Task.Obeys (waiting start (t.path d depth) timeout)
      (fun _ δ => Diary.Ends (t.path d depth) depth timeout δ (.ok ()))
      (fun e δ => Diary.Ends (t.path d depth) depth timeout δ (.error e))
      (t.waitAtMost d depth timeout polls) [] := by
  rw [LockTable.waitAtMost, Task.obeys_bind, LockTable.checkDepth]
  split
  · rw [Task.obeys_pure, Task.obeys_bind, Task.obeys_lift]
    refine waiting_now .start fun found _ => ?_
    have hresting : Diary.Resting start timeout 0
        [⟨.now, found, found.machine.clock, found⟩] :=
      { ne_nil := List.cons_ne_nil _ _
        looks := rfl
        few := Nat.succ_pos _
        clock := by simp [Diary.begun, pausesBefore] }
    exact waiting_waitAtMostLoop polls hresting rfl (by omega)
  · next hdepth => exact Task.obeys_throw_of (.depth (Nat.lt_of_not_le hdepth))

end

/-- **A wait is bounded, changes nothing and ends for a reason.**  Whatever others do to the lock,
and however long the sleeps take, a wait looks at its lock a bounded number of times and does not go
on for ever.  It asks for sleeps that fit in the time that is left, touches neither files nor notes,
and says that the lock is gone only after a look that has not found it, and that the time is up only
after a look that has found it, when the time was up. -/
theorem wait_bounded (t : LockTable) (d : Digest) (depth timeout polls : Nat)
    (hpolls : mostPolls timeout ≤ polls) {start : Process} {calls : List Action}
    {q : FileProgram (Except CacheError Unit)} {δ : Diary}
    (hrun : Program.Runs (Diary.Writes start) (t.waitAtMost d depth timeout polls).run [] calls
      q δ) :
    Diary.Watches start (t.path d depth) timeout δ ∧ Diary.looks δ ≤ mostPolls timeout ∧
      q ≠ .stalled ∧ ∀ r, q = .done r → Diary.Ends (t.path d depth) depth timeout δ r := by
  obtain ⟨δ', hq, rfl, hwatches⟩ := hrun.obeys
    (fun δ' δ => δ' = δ ∧ Diary.Watches start (t.path d depth) timeout δ)
    (fun a post δ s r s' hact hfits hstep => by
      obtain ⟨rfl, hwatches⟩ := hfits
      exact ⟨s', hact.2 r s' hstep, rfl, hwatches.writes hact.1 hstep⟩)
    (waiting_waitAtMost t d hpolls) ⟨rfl, Diary.watches_nil start _ timeout⟩
  refine ⟨hwatches, hwatches.looks_le, ?_, ?_⟩
  · rintro rfl
    rw [Program.obeys_stalled] at hq
    exact hq
  · rintro r rfl
    rw [Program.obeys_done] at hq
    cases r with
    | ok u => exact hq
    | error e => exact hq

/-! ### A lock that stays -/

namespace Stubborn

/-- The locks of a cache in the working directory. -/
def table : LockTable := .atRoot (Path.ofString ".")

/-- A process that comes when another one has a lock. -/
def start : Process :=
  .fresh ((Process.fresh .empty).runTask (table.acquire .empty 0)).2.machine

/-- Twenty milliseconds. -/
def timeout : Nat := 20 * Duration.millisecond

/-- The wait for the lock, which nobody gives back. -/
def outcome : Option (Except CacheError Unit) × Diary :=
  Program.run (Diary.amid (fun _ fs => fs) start) (table.waitAtMost .empty 0 timeout 7).run []

theorem timed_out :
    outcome.1 = some (.error (.lockTimeout (table.path .empty 0) timeout)) := by
  decide +kernel

end Stubborn

/-- A lock that nobody gives back is waited for until the time is up. -/
theorem stubborn_wait_bounded : mostPolls Stubborn.timeout ≤ 7 ∧
    Stubborn.outcome.1 =
      some (.error (.lockTimeout (Stubborn.table.path .empty 0) Stubborn.timeout)) ∧
    Diary.Watches Stubborn.start (Stubborn.table.path .empty 0) Stubborn.timeout
      Stubborn.outcome.2 ∧
    Diary.looks Stubborn.outcome.2 ≤ mostPolls Stubborn.timeout ∧
    Diary.Ends (Stubborn.table.path .empty 0) 0 Stubborn.timeout Stubborn.outcome.2
      (.error (.lockTimeout (Stubborn.table.path .empty 0) Stubborn.timeout)) := by
  have hpolls : mostPolls Stubborn.timeout ≤ 7 := by decide
  obtain ⟨calls, hrun⟩ := Program.Runs.of_run
    (Diary.writes_amid (fun _ fs => fs) Stubborn.start) _ Stubborn.timed_out
  obtain ⟨hwatches, hlooks, -, hends⟩ := wait_bounded _ _ _ _ _ hpolls hrun
  exact ⟨hpolls, Stubborn.timed_out, hwatches, hlooks, hends _ rfl⟩

end KernelCache
