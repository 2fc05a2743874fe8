/-
**What holds at all times.**

A history is sound at a time if every table's notes are in its grip, a table outside of calls has
nothing else in its grip, and what is left of a call still does what the whole call should.  One
event after another keeps this, because an action changes no grip but that of its table.

Main definitions:

* `LockHistory.Sound` — what holds at all times.

Main results:

* `LockHistory.step_cases` — what an event does to a world;
* `LockHistory.Sound.act` — **an action does to the files and to the grip what it may**;
* `LockHistory.sound` — every history is sound at all times.
-/

import KernelCache.Proofs.Locks.Makers

set_option relaxedAutoImplicit false
set_option autoImplicit false

namespace KernelCache

namespace LockHistory

variable {ι : Type} [DecidableEq ι] {S : Site} {H : LockHistory S ι} {n : Nat} {i j : ι}

/-! ### Events -/

/-- What an event does to a world. -/
theorem step_cases (H : LockHistory S ι) (n : Nat) :
    (∃ i c, H.event n = .start i c ∧ (H.world n).ongoing i = none ∧
        c.Allowed S.locks ((H.world n).notes i) ∧
        H.world (n + 1) = (H.world n).busy i (some ⟨c, c.program S.locks⟩)) ∨
      (∃ i c a next, H.event n = .act i a ∧ (H.world n).ongoing i = some ⟨c, .ask a next⟩ ∧
        H.world (n + 1) = (H.world n).act i c a next) ∨
      (∃ i c r, H.event n = .finish i c r ∧ (H.world n).ongoing i = some ⟨c, .done r⟩ ∧
        H.world (n + 1) = (H.world n).busy i none) ∨
      ∃ m, H.event n = .around ∧ Around S (H.world n).machine m ∧
        H.world (n + 1) = { H.world n with machine := m } := by
  have hstep := H.step n
  generalize H.world n = w, H.event n = e, H.world (n + 1) = w' at hstep
  cases hstep with
  | start hidle hc => exact Or.inl ⟨_, _, rfl, hidle, hc, rfl⟩
  | act hi => exact Or.inr (Or.inl ⟨_, _, _, _, rfl, hi, rfl⟩)
  | finish hi => exact Or.inr (Or.inr (Or.inl ⟨_, _, _, rfl, hi, rfl⟩))
  | around hm => exact Or.inr (Or.inr (Or.inr ⟨_, rfl, hm, rfl⟩))

theorem of_start {c : LockCall} (h : H.event n = .start i c) :
    (H.world n).ongoing i = none ∧
      H.world (n + 1) = (H.world n).busy i (some ⟨c, c.program S.locks⟩) := by
  rcases H.step_cases n with ⟨k, c', he, hidle, -, hw⟩ | ⟨k, c', a, next, he, -⟩ |
    ⟨k, c', r, he, -⟩ | ⟨m, he, -⟩
  all_goals cases h.symm.trans he
  exact ⟨hidle, hw⟩

theorem of_act {a : Action} (h : H.event n = .act i a) :
    ∃ (c : LockCall) (next : a.Reply → FileProgram c.Answer),
      (H.world n).ongoing i = some ⟨c, .ask a next⟩ ∧
        H.world (n + 1) = (H.world n).act i c a next := by
  rcases H.step_cases n with ⟨k, c, he, -⟩ | ⟨k, c, a', next, he, hi, hw⟩ | ⟨k, c, r, he, -⟩ |
    ⟨m, he, -⟩
  all_goals cases h.symm.trans he
  exact ⟨c, next, hi, hw⟩

theorem of_finish {c : LockCall} {r : c.Answer} (h : H.event n = .finish i c r) :
    (H.world n).ongoing i = some ⟨c, .done r⟩ ∧ H.world (n + 1) = (H.world n).busy i none := by
  rcases H.step_cases n with ⟨k, c', he, -⟩ | ⟨k, c', a, next, he, -⟩ | ⟨k, c', r', he, hi, hw⟩ |
    ⟨m, he, -⟩
  all_goals cases h.symm.trans he
  exact ⟨hi, hw⟩

/-- What holds of a table at all times. -/
structure Steady (H : LockHistory S ι) (n : Nat) (i : ι) : Prop where
  noted : (H.grip n i).Noted
  idle : (H.world n).ongoing i = none → H.grip n i = Grip.of ((H.world n).notes i)
  busy : ∀ o, (H.world n).ongoing i = some o → ∃ m, H.Began i o.call m n ∧
    H.grip m i = Grip.of ((H.world m).notes i) ∧
    Program.Needs True (gripNeeds S (o.call.May S.locks ((H.world m).notes i)))
      (o.call.Ends S.locks ((H.world m).notes i)) o.rest (H.grip n i)

/-- What holds at all times. -/
structure Sound (H : LockHistory S ι) (n : Nat) : Prop where
  due : (H.world n).machine.due = []
  walkable : ∀ i x, (H.grip n i).made x → (H.world n).machine.files.Walkable S.locks.directory
  below : ∀ x name, S.Takeable x → (H.world n).node? (x.place ++ [name]) = none
  steady : ∀ i, H.Steady n i

theorem sound_zero (h : (H.world 0).Starts S) : H.Sound 0 where
  due := h.due
  walkable := fun i x hx => by simp [grip, maker] at hx
  below := fun x name hx => h.locks x _ hx.isLock (List.prefix_append _ _)
  steady := fun i =>
    { noted := fun x hx => by simp [grip, h.notes] at hx
      idle := fun _ => by simp [grip, maker, Grip.of, h.notes]
      busy := fun o ho => by simp [h.ongoing] at ho }

/-! ### Actions -/

theorem grip_succ {g : Grip} (hnotes : (H.world (n + 1)).notes i = g.notes)
    (hmade : (H.grip (n + 1) i).made = g.made) : H.grip (n + 1) i = g := by
  obtain ⟨notes, made⟩ := g
  exact congrArg₂ Grip.mk hnotes hmade

/-- Where no file changes, nobody's directories do. -/
theorem moves_of_files (hfiles : (H.world (n + 1)).machine.files = (H.world n).machine.files) :
    H.Moves n ∧ ∀ i, (H.grip (n + 1) i).made = (H.grip n i).made := by
  have hnode : (H.world (n + 1)).node? = (H.world n).node? := congrArg FileSystem.node? hfiles
  refine ⟨.still (fun x y _ _ => by rw [hnode]) fun x _ _ hw => ?_, fun i =>
    made_of_same fun x _ => by rw [hnode]⟩
  rw [hfiles]
  exact hw

/-- An action that changes no file has its effect on the notes only. -/
theorem Sound.of_files (h : H.Sound n)
    (hfiles : (H.world (n + 1)).machine.files = (H.world n).machine.files)
    (hdue : (H.world (n + 1)).machine.due = (H.world n).machine.due) {g : Grip}
    (hnotes : (H.world (n + 1)).notes i = g.notes) (hmade : g.made = (H.grip n i).made)
    (hg : g.Noted) {post : Grip → Prop} (hpost : post g) :
    H.Moves n ∧ (H.world (n + 1)).machine.due = [] ∧ (H.grip (n + 1) i).Noted ∧
      post (H.grip (n + 1) i) := by
  obtain ⟨hmoves, hsame⟩ := moves_of_files hfiles
  have hgrip : H.grip (n + 1) i = g := grip_succ hnotes ((hsame i).trans hmade.symm)
  exact ⟨hmoves, hdue.trans h.due, hgrip ▸ hg, hgrip ▸ hpost⟩

/-- Making a directory on the way to the locks. -/
theorem moves_of_lineage {p : Path} (hp : p ∈ S.locks.directory.lineage)
    (hnodes : (H.world (n + 1)).node? =
      Function.update (H.world n).node? p.place (some .directory)) :
    H.Moves n ∧ ∀ i, (H.grip (n + 1) i).made = (H.grip n i).made := by
  have hlocks : ∀ x y, S.Takeable x → x.place <+: y →
      (H.world (n + 1)).node? y = (H.world n).node? y := by
    intro x y hx hy
    have hne : y ≠ p.place := fun heq => hx.not_above hp (heq ▸ hy)
    rw [hnodes, Function.update_of_ne hne]
  refine ⟨.still hlocks fun x _ _ hw y hy => ?_, fun i =>
    made_of_same fun x hx => hlocks x _ hx List.prefix_rfl⟩
  have hnode := congrFun hnodes y
  by_cases hyp : y = p.place
  · rw [hyp, Function.update_self] at hnode
    exact hyp ▸ hnode
  · rw [Function.update_of_ne hyp] at hnode
    exact hnode.trans (hw y hy)

/-- A lock whose directory could be made can be taken: the way to it does not lead through it. -/
theorem takeable_of_makeDirectory {x : Path} {fs fs' : FileSystem} (hx : S.IsLock x)
    (hm : fs.makeDirectory x = .ok fs') : S.Takeable x ∧ fs.Walkable S.locks.directory := by
  obtain ⟨name, hname, hchild⟩ := hx.place_eq
  obtain ⟨hnone, -⟩ := FileSystem.makeDirectory_ok hm
  have hwalk : fs.Walkable S.locks.directory := by
    rw [hchild] at hm
    exact FileSystem.walkable_of_makeDirectory hname hm
  refine ⟨⟨hx, fun hmem => ?_⟩, hwalk⟩
  have hthere := hwalk x.place (by rw [S.visits_locks]; exact List.mem_append_left _ hmem)
  cases hnone.symm.trans hthere

/-- A directory of the table's making can be removed. -/
theorem Sound.removeDirectory (h : H.Sound n) {x : Path} (hx : (H.grip n i).made x) :
    ∃ fs, (H.world n).machine.files.removeDirectory x = .ok fs ∧
      fs.node? = Function.update (H.world n).node? x.place none := by
  obtain ⟨htake, hmaker⟩ := hx
  obtain ⟨name, hname, hchild⟩ := htake.isLock.place_eq
  have hthere := directory_of_maker hmaker
  have hempty := fun other => h.below x other htake
  have hwalk := h.walkable i x ⟨htake, hmaker⟩
  rw [hchild] at hthere hempty
  obtain ⟨fs, hfs⟩ := FileSystem.removeDirectory_child hname hwalk hthere hempty
  rw [← hchild] at hfs
  exact ⟨fs, hfs, (FileSystem.removeDirectory_ok hfs).2 htake.isLock.not_isBase⟩

/-- **An action does to the files and to the grip of its table what it may**, and what its program
needs afterwards is there. -/
theorem Sound.act (h : H.Sound n) {c : LockCall} {a : Action}
    {next : a.Reply → FileProgram c.Answer}
    (he : H.event n = .act i a) (hw : H.world (n + 1) = (H.world n).act i c a next)
    {may : Action → Prop} {post : a.Reply → Grip → Prop}
    (hneeds : gripNeeds S may a post (H.grip n i)) :
    H.Moves n ∧ (H.world (n + 1)).machine.due = [] ∧ (H.grip (n + 1) i).Noted ∧
      post (Process.perform a ⟨(H.world n).machine, (H.world n).notes i⟩).1
        (H.grip (n + 1) i) := by
  have hmachine : (H.world (n + 1)).machine =
      (Process.perform a ⟨(H.world n).machine, (H.world n).notes i⟩).2.machine := by
    rw [hw, LockWorld.act_machine]
  have hnotes : (H.world (n + 1)).notes i =
      (Process.perform a ⟨(H.world n).machine, (H.world n).notes i⟩).2.held := by
    rw [hw, LockWorld.act_notes_self]
  have hnoted := (h.steady i).noted
  have hfiles := congrArg Machine.files hmachine
  have hdue := congrArg Machine.due hmachine
  cases a with
  | look p => exact h.of_files hfiles hdue hnotes rfl hnoted (hneeds _)
  | now => exact h.of_files hfiles hdue hnotes rfl hnoted (hneeds _)
  | held => exact h.of_files hfiles hdue hnotes rfl hnoted hneeds
  | hold x =>
      exact h.of_files (g := (H.grip n i).note x) hfiles hdue hnotes rfl (hnoted.note hneeds.1)
        hneeds.2
  | letGo x =>
      exact h.of_files (g := (H.grip n i).strike x) hfiles hdue hnotes rfl (hnoted.strike x) hneeds
  | sleep duration =>
      -- nobody else will remove anything, so only the clock goes on
      simp only [Process.perform, Machine.settle, h.due] at hfiles hdue hnotes
      exact h.of_files hfiles (hdue.trans h.due.symm) hnotes rfl hnoted hneeds
  | makeDirectory x =>
      obtain ⟨-, herror, hok⟩ := hneeds
      rw [Process.perform] at hfiles hdue hnotes ⊢
      cases hm : (H.world n).machine.files.makeDirectory x with
      | error e =>
          rw [hm] at hfiles hdue hnotes
          exact h.of_files hfiles hdue hnotes rfl hnoted (herror e)
      | ok fs =>
          rw [hm] at hfiles hdue hnotes
          obtain ⟨hnone, hupdate⟩ := FileSystem.makeDirectory_ok hm
          have hnodes : (H.world (n + 1)).node? =
              Function.update (H.world n).node? x.place (some .directory) :=
            (congrArg FileSystem.node? hfiles).trans hupdate
          rcases hok with ⟨hp, hpost⟩ | ⟨hlock, hpost⟩
          · -- a directory on the way to the locks
            obtain ⟨hmoves, hmade⟩ := moves_of_lineage hp hnodes
            have hgrip : H.grip (n + 1) i = H.grip n i := grip_succ hnotes (hmade i)
            exact ⟨hmoves, hdue.trans h.due, hgrip ▸ hnoted, hgrip ▸ hpost⟩
          · -- the directory of a lock, which nobody has made so far
            obtain ⟨htake, hwalk⟩ := takeable_of_makeDirectory hlock hm
            have hnot : ¬(H.grip n i).made x := by
              rintro ⟨-, hmaker⟩
              cases hnone.symm.trans (directory_of_maker hmaker)
            have hgrip : H.grip (n + 1) i = (H.grip n i).make x :=
              grip_succ hnotes (made_of_take he htake hnone hnodes).1
            exact ⟨.take he htake hwalk hnone hnodes, hdue.trans h.due, hgrip ▸ hnoted.make x,
              hgrip ▸ hpost hnot⟩
  | removeDirectory x =>
      obtain ⟨-, hmade, hstruck, hpost⟩ := hneeds
      obtain ⟨fs, hfs, hupdate⟩ := h.removeDirectory hmade
      rw [Process.perform] at hfiles hdue hnotes ⊢
      rw [hfs] at hfiles hdue hnotes ⊢
      have hnodes : (H.world (n + 1)).node? = Function.update (H.world n).node? x.place none :=
        (congrArg FileSystem.node? hfiles).trans hupdate
      have hgrip : H.grip (n + 1) i = (H.grip n i).unmake x :=
        grip_succ hnotes (made_of_give hmade hnodes).1
      exact ⟨.give he hmade hnodes, hdue.trans h.due, hgrip ▸ hnoted.unmake hstruck, hgrip ▸ hpost⟩
  | read p => exact hneeds.elim
  | names p => exact hneeds.elim
  | createFresh dir stem => exact hneeds.elim
  | write p contents => exact hneeds.elim
  | removeFile p => exact hneeds.elim
  | move source target => exact hneeds.elim

/-! ### One event after another -/

/-- The table that begins a call, performs an action or returns. -/
def subject? : LockEvent ι → Option ι
  | .start i _ | .act i _ | .finish i _ _ => some i
  | .around => none

/-- An event leaves the notes and the calls of other tables alone. -/
theorem untouched (hi : subject? (H.event n) ≠ some i) :
    (H.world (n + 1)).notes i = (H.world n).notes i ∧
      (H.world (n + 1)).ongoing i = (H.world n).ongoing i ∧ (H.event n).actor? ≠ some i ∧
      ∀ c r, H.event n ≠ .finish i c r := by
  rcases H.step_cases n with ⟨k, c, he, -, -, hw⟩ | ⟨k, c, a, next, he, -, hw⟩ |
    ⟨k, c, r, he, -, hw⟩ | ⟨m, he, -, hw⟩
  all_goals rw [he] at hi ⊢; rw [hw]
  · have hne : i ≠ k := fun heq => hi (congrArg some heq.symm)
    exact ⟨rfl, LockWorld.busy_ongoing_of_ne hne _, by simp [LockEvent.actor?], by simp⟩
  · have hne : i ≠ k := fun heq => hi (congrArg some heq.symm)
    exact ⟨LockWorld.act_notes_of_ne hne, LockWorld.act_ongoing_of_ne hne, hi, by simp⟩
  · have hne : i ≠ k := fun heq => hi (congrArg some heq.symm)
    refine ⟨rfl, LockWorld.busy_ongoing_of_ne hne _, by simp [LockEvent.actor?], ?_⟩
    intro c' r' heq
    cases heq
    exact hne rfl
  · exact ⟨rfl, rfl, by simp [LockEvent.actor?], by simp⟩

theorem Began.succ {c : LockCall} {m : Nat} (h : H.Began i c m n)
    (hn : ∀ c r, H.event n ≠ .finish i c r) : H.Began i c m (n + 1) where
  start := h.start
  lt := Nat.lt_succ_of_lt h.lt
  during := fun t hmt htn => by
    rcases Nat.lt_succ_iff_lt_or_eq.1 htn with hlt | rfl
    · exact h.during t hmt hlt
    · exact hn

/-- **What holds of a table is still there after others have done something.** -/
theorem Steady.other (h : H.Steady n i) (hmoves : H.Moves n)
    (hi : subject? (H.event n) ≠ some i) : H.Steady (n + 1) i := by
  obtain ⟨hnotes, hongoing, hactor, hfinish⟩ := untouched hi
  have hgrip : H.grip (n + 1) i = H.grip n i :=
    grip_succ hnotes (hmoves.made_of_ne hactor)
  refine ⟨hgrip ▸ h.noted, fun hidle => ?_, fun o ho => ?_⟩
  · rw [hgrip, hnotes]
    exact h.idle (hongoing ▸ hidle)
  · obtain ⟨m, hbegan, hbefore, hneeds⟩ := h.busy o (hongoing ▸ ho)
    exact ⟨m, hbegan.succ hfinish, hbefore, hgrip ▸ hneeds⟩

/-- **What an event does to the directories of locks.** -/
theorem Sound.moves (h : H.Sound n) : H.Moves n := by
  rcases H.step_cases n with ⟨i, c, -, -, -, hw⟩ | ⟨i, c, a, next, he, hi, hw⟩ |
    ⟨i, c, r, -, -, hw⟩ | ⟨m, -, hm, hw⟩
  · exact (moves_of_files (by rw [hw, LockWorld.busy_machine])).1
  · obtain ⟨m, -, -, hneeds⟩ := (h.steady i).busy _ hi
    rw [Program.needs_ask] at hneeds
    exact (h.act he hw hneeds).1
  · exact (moves_of_files (by rw [hw, LockWorld.busy_machine])).1
  · have hmachine : (H.world (n + 1)).machine = m := by rw [hw]
    refine .still (fun x y hx hy => ?_) fun x hx hthere hwalk y hy => ?_
    · rw [LockWorld.node?, hmachine]
      exact hm.locks x y hx.isLock hy
    · rw [hmachine]
      exact hm.way ⟨x, hx.isLock, hthere⟩ y hy (hwalk y hy)

/-- The way to the locks and what is below them are as they should be after an event. -/
theorem Sound.way (h : H.Sound n) :
    (∀ i x, (H.grip (n + 1) i).made x →
      (H.world (n + 1)).machine.files.Walkable S.locks.directory) ∧
    ∀ x name, S.Takeable x → (H.world (n + 1)).node? (x.place ++ [name]) = none := by
  have hupdate {x : Path} {v : Option Node} (hx : S.Takeable x)
      (hnodes : (H.world (n + 1)).node? = Function.update (H.world n).node? x.place v) :
      ((H.world n).machine.files.Walkable S.locks.directory →
        (H.world (n + 1)).machine.files.Walkable S.locks.directory) ∧
      ∀ y name, S.Takeable y → (H.world (n + 1)).node? (y.place ++ [name]) = none := by
    refine ⟨fun hw z hz => ?_, fun y name hy => ?_⟩
    · have hne : z ≠ x.place := fun heq => hx.notMem_visits (heq ▸ hz)
      have hnode := congrFun hnodes z
      rw [Function.update_of_ne hne] at hnode
      exact hnode.trans (hw z hz)
    · rw [hnodes, Function.update_of_ne (hy.isLock.below_ne hx.isLock name)]
      exact h.below y name hy
  cases h.moves with
  | still hlocks hway =>
      refine ⟨fun i x hx => ?_, fun x name hx => ?_⟩
      · rw [made_of_same fun x hx => hlocks x _ hx List.prefix_rfl] at hx
        exact hway x hx.1 (directory_of_maker hx.2) (h.walkable i x hx)
      · rw [hlocks x _ hx (List.prefix_append _ _)]
        exact h.below x name hx
  | take he hx hwalk hnone hnodes =>
      obtain ⟨hway, hbelow⟩ := hupdate hx hnodes
      exact ⟨fun i y hy => hway hwalk, hbelow⟩
  | give he hmade hnodes =>
      obtain ⟨hway, hbelow⟩ := hupdate hmade.1 hnodes
      exact ⟨fun i y hy => hway (h.walkable _ _ hmade), hbelow⟩

/-- If an event leaves its own table as it should be, it leaves everything so. -/
theorem Sound.of_steady (h : H.Sound n) (hdue : (H.world (n + 1)).machine.due = [])
    (hself : ∀ i, subject? (H.event n) = some i → H.Steady (n + 1) i) : H.Sound (n + 1) where
  due := hdue
  walkable := h.way.1
  below := h.way.2
  steady := fun i => by
    by_cases hi : subject? (H.event n) = some i
    · exact hself i hi
    · exact (h.steady i).other h.moves hi

theorem Sound.start (h : H.Sound n) {c : LockCall} (he : H.event n = .start i c)
    (hidle : (H.world n).ongoing i = none) (hc : c.Allowed S.locks ((H.world n).notes i))
    (hw : H.world (n + 1) = (H.world n).busy i (some ⟨c, c.program S.locks⟩)) :
    H.Sound (n + 1) := by
  have hmachine : (H.world (n + 1)).machine = (H.world n).machine := by
    rw [hw, LockWorld.busy_machine]
  have hfiles := congrArg Machine.files hmachine
  have hnotes : (H.world (n + 1)).notes i = (H.world n).notes i := by rw [hw, LockWorld.busy_notes]
  have hgrip : H.grip (n + 1) i = H.grip n i :=
    grip_succ hnotes ((moves_of_files hfiles).2 i)
  have hbefore := (h.steady i).idle hidle
  refine h.of_steady (by rw [hmachine, h.due]) fun k hk => ?_
  rw [he] at hk
  obtain rfl := Option.some.inj hk
  refine ⟨hgrip ▸ (h.steady i).noted, fun hnone => ?_, fun o ho => ?_⟩
  · rw [hw, LockWorld.busy_ongoing_self] at hnone
    cases hnone
  · rw [hw, LockWorld.busy_ongoing_self] at ho
    obtain rfl := Option.some.inj ho
    refine ⟨n, ⟨he, Nat.lt_succ_self n, fun t hlt hle => by omega⟩, hbefore, ?_⟩
    rw [hgrip, hbefore]
    exact LockCall.needs_program hc fun x hx => ((h.steady i).noted x hx).1.isLock

theorem Sound.finish (h : H.Sound n) {c : LockCall} {r : c.Answer}
    (he : H.event n = .finish i c r) (hi : (H.world n).ongoing i = some ⟨c, .done r⟩)
    (hw : H.world (n + 1) = (H.world n).busy i none) : H.Sound (n + 1) := by
  have hmachine : (H.world (n + 1)).machine = (H.world n).machine := by
    rw [hw, LockWorld.busy_machine]
  have hfiles := congrArg Machine.files hmachine
  have hnotes : (H.world (n + 1)).notes i = (H.world n).notes i := by rw [hw, LockWorld.busy_notes]
  have hgrip : H.grip (n + 1) i = H.grip n i :=
    grip_succ hnotes ((moves_of_files hfiles).2 i)
  refine h.of_steady (by rw [hmachine, h.due]) fun k hk => ?_
  rw [he] at hk
  obtain rfl := Option.some.inj hk
  refine ⟨hgrip ▸ (h.steady i).noted, fun _ => ?_, fun o ho => ?_⟩
  · obtain ⟨m, -, -, hends⟩ := (h.steady i).busy _ hi
    rw [Program.needs_done] at hends
    rw [hgrip, hnotes]
    exact hends.grip_eq
  · rw [hw, LockWorld.busy_ongoing_self] at ho
    cases ho

/-- The program of a call goes on with the answer of its action. -/
theorem Sound.step (h : H.Sound n) {c : LockCall} {a : Action}
    {next : a.Reply → FileProgram c.Answer} (he : H.event n = .act i a)
    (hi : (H.world n).ongoing i = some ⟨c, .ask a next⟩)
    (hw : H.world (n + 1) = (H.world n).act i c a next) : H.Sound (n + 1) := by
  obtain ⟨m, hbegan, hbefore, hneeds⟩ := (h.steady i).busy _ hi
  rw [Program.needs_ask] at hneeds
  obtain ⟨-, hdue, hnoted, hnext⟩ := h.act he hw hneeds
  refine h.of_steady hdue fun k hk => ?_
  rw [he] at hk
  obtain rfl := Option.some.inj hk
  refine ⟨hnoted, fun hnone => ?_, fun o ho => ?_⟩
  · rw [hw, LockWorld.act_ongoing_self] at hnone
    cases hnone
  · rw [hw, LockWorld.act_ongoing_self] at ho
    obtain rfl := Option.some.inj ho
    exact ⟨m, hbegan.succ fun c r => by simp [he], hbefore, hnext⟩

theorem Sound.around (h : H.Sound n) {m : Machine} (he : H.event n = .around)
    (hm : Around S (H.world n).machine m) (hw : H.world (n + 1) = { H.world n with machine := m }) :
    H.Sound (n + 1) := by
  refine h.of_steady (by rw [hw, hm.due, h.due]) fun k hk => ?_
  rw [he] at hk
  cases hk

theorem Sound.succ (h : H.Sound n) : H.Sound (n + 1) := by
  rcases H.step_cases n with ⟨i, c, he, hidle, hc, hw⟩ | ⟨i, c, a, next, he, hi, hw⟩ |
    ⟨i, c, r, he, hi, hw⟩ | ⟨m, he, hm, hw⟩
  · exact h.start he hidle hc hw
  · exact h.step he hi hw
  · exact h.finish he hi hw
  · exact h.around he hm hw

/-- **Every history is sound at all times.** -/
theorem sound (h : (H.world 0).Starts S) (n : Nat) : H.Sound n := by
  induction n with
  | zero => exact sound_zero h
  | succ n ih => exact ih.succ

end LockHistory

end KernelCache
