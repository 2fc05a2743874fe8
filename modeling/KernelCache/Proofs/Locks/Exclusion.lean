/-
**Locks exclude each other.**

Where a table has noted a lock, the lock's directory is of the table's making; and a directory has
one maker.  So no lock is noted by two tables at once, and while one has noted it nobody takes it.
What a table removes is of its own making, and giving all locks back leaves nothing of it.

Main results:

* `LockHistory.Began.busy` — what is left of a call that has begun;
* `LockHistory.Returns.ends` — what has happened when it returns;
* `LockHistory.exists_take`, `LockHistory.exists_give` — when a directory came into a grip, and when
  it left it;
* `LockHistory.Began.changes` — what the actions of a call change;
* `locks_exclusive` — **mutual exclusion, in every history**.
-/

import KernelCache.Proofs.Locks.Soundness
import Mathlib.Data.Nat.Init

set_option relaxedAutoImplicit false
set_option autoImplicit false

namespace KernelCache

/-- What holds at one time and not at a later one stops to hold at some time between. -/
theorem exists_last {P : Nat → Prop} {m n : Nat} (hle : m ≤ n) (hm : P m) (hn : ¬P n) :
    ∃ t, m ≤ t ∧ t < n ∧ P t ∧ ¬P (t + 1) := by
  induction n, hle using Nat.le_induction with
  | base => exact absurd hm hn
  | succ n hle ih =>
      by_cases h : P n
      · exact ⟨n, hle, Nat.lt_succ_self n, h, hn⟩
      · obtain ⟨t, hmt, htn, ht⟩ := ih h
        exact ⟨t, hmt, Nat.lt_succ_of_lt htn, ht⟩

namespace LockHistory

variable {ι : Type} [DecidableEq ι] {S : Site} {H : LockHistory S ι} {m n t : Nat} {i j : ι}
  {x : Path} {c c' : LockCall}

/-! ### Calls -/

theorem Began.of_le (h : H.Began i c m n) (hmt : m < t) (htn : t ≤ n) : H.Began i c m t where
  start := h.start
  lt := hmt
  during := fun s hms hst => h.during s hms (Nat.lt_of_lt_of_le hst htn)

/-- A table is busy with a call until it returns. -/
theorem Began.ongoing (h : H.Began i c m n) : ∃ rest, (H.world n).ongoing i = some ⟨c, rest⟩ := by
  have hlt := h.lt
  -- induction on the time since the call began
  induction n, hlt using Nat.le_induction with
  | base =>
      rw [(of_start h.start).2, LockWorld.busy_ongoing_self]
      exact ⟨_, rfl⟩
  | succ n hle ih =>
      have hmn : m < n := hle
      obtain ⟨rest, hrest⟩ := ih (h.of_le hmn (Nat.le_succ n))
      by_cases hi : subject? (H.event n) = some i
      · -- what a busy table does next is an action of its call, as it has not returned
        rcases H.step_cases n with ⟨k, c', he, hidle, -⟩ | ⟨k, c', a, next, he, hk, hw⟩ |
          ⟨k, c', r, he, -⟩ | ⟨m', he, -⟩
        all_goals rw [he] at hi
        · obtain rfl := Option.some.inj hi
          cases hidle.symm.trans hrest
        · obtain rfl := Option.some.inj hi
          cases hk.symm.trans hrest
          rw [hw, LockWorld.act_ongoing_self]
          exact ⟨_, rfl⟩
        · obtain rfl := Option.some.inj hi
          exact absurd he (h.during n hmn (Nat.lt_succ_self n) c' r)
        · cases hi
      · obtain ⟨-, hongoing, -⟩ := untouched hi
        exact ⟨rest, hongoing.trans hrest⟩

/-- A table is busy with one call at a time. -/
theorem Began.unique (h : H.Began i c m n) (h' : H.Began i c' t n) : m = t := by
  have hnot {m t : Nat} {c c' : LockCall} (h : H.Began i c m n) (h' : H.Began i c' t n) :
      ¬m < t := by
    intro hlt
    obtain ⟨rest, hrest⟩ := (h.of_le hlt (Nat.le_of_lt h'.lt)).ongoing
    cases (of_start h'.start).1.symm.trans hrest
  have := hnot h h'
  have := hnot h' h
  omega

/-- **What is left of a call that has begun** does what the whole call should. -/
theorem Began.busy (h : H.Began i c m n) (hs : H.Sound n) :
    ∃ rest, (H.world n).ongoing i = some ⟨c, rest⟩ ∧
      H.grip m i = Grip.of ((H.world m).notes i) ∧
      Program.Needs True (gripNeeds S (c.May S.locks ((H.world m).notes i)))
        (c.Ends S.locks ((H.world m).notes i)) rest (H.grip n i) := by
  obtain ⟨rest, hrest⟩ := h.ongoing
  obtain ⟨m', hbegan, hbefore, hneeds⟩ := (hs.steady i).busy _ hrest
  obtain rfl := h.unique hbegan
  exact ⟨rest, hrest, hbefore, hneeds⟩

/-- **What has happened when a call returns.** -/
theorem Returns.ends {r : c.Answer} (h : H.Returns i c m n r) (hs : H.Sound n) :
    H.grip m i = Grip.of ((H.world m).notes i) ∧
      c.Ends S.locks ((H.world m).notes i) r (H.grip n i) := by
  obtain ⟨rest, hrest, hbefore, hneeds⟩ := h.toBegan.busy hs
  cases (of_finish h.finish).1.symm.trans hrest
  rw [Program.needs_done] at hneeds
  exact ⟨hbefore, hneeds⟩

/-! ### Coming into a grip and leaving it -/

/-- What a table has made since a time it has made where nobody had. -/
theorem exists_take (hle : m ≤ n) (hm : ¬(H.grip m i).made x) (hn : (H.grip n i).made x) :
    ∃ t, m ≤ t ∧ t < n ∧ (H.event t).actor? = some i ∧ ∀ j, ¬(H.grip t j).made x := by
  obtain ⟨t, hmt, htn, hbefore, hafter⟩ :=
    exists_last (P := fun t => ¬(H.grip t i).made x) hle hm (not_not.2 hn)
  rw [not_not] at hafter
  have hnot : H.maker t x ≠ some i := fun hmaker => hbefore ⟨hafter.1, hmaker⟩
  obtain ⟨hnone, hactor⟩ := maker_succ_eq_some hafter.2 hnot
  exact ⟨t, hmt, htn, hactor, fun j hj => hnone (directory_of_maker hj.2)⟩

/-- What a table no longer has in its grip it has removed. -/
theorem exists_give (hs : ∀ t, H.Sound t) (hle : m ≤ n) (hm : (H.grip m i).made x)
    (hn : ¬(H.grip n i).made x) :
    ∃ t, m ≤ t ∧ t < n ∧ H.event t = .act i (.removeDirectory x) ∧
      (H.world t).node? x.place = some .directory ∧ (H.world (t + 1)).node? x.place = none := by
  obtain ⟨t, hmt, htn, hbefore, hafter⟩ :=
    exists_last (P := fun t => (H.grip t i).made x) hle hm hn
  refine ⟨t, hmt, htn, ?_⟩
  cases (hs t).moves with
  | still hlocks hway =>
      rw [made_of_same fun x hx => hlocks x _ hx List.prefix_rfl] at hafter
      exact absurd hbefore hafter
  | @take k y he hy hwalk hnone hnodes =>
      obtain ⟨hself, hother⟩ := made_of_take he hy hnone hnodes
      by_cases hik : i = k
      · obtain rfl := hik
        rw [hself] at hafter
        exact absurd (Or.inr hbefore) hafter
      · rw [hother i hik] at hafter
        exact absurd hbefore hafter
  | @give k y he hmade hnodes =>
      obtain ⟨hself, hother⟩ := made_of_give hmade hnodes
      by_cases hik : i = k
      · obtain rfl := hik
        obtain rfl : x = y := by
          by_contra hne
          rw [hself] at hafter
          exact hafter ⟨hne, hbefore⟩
        exact ⟨he, directory_of_maker hbefore.2, by rw [hnodes, Function.update_self]⟩
      · rw [hother i hik] at hafter
        exact absurd hbefore hafter

/-- **What an action changes** is at the place of a directory that its call may make or remove. -/
theorem Began.changes (h : H.Began i c m n) (hs : H.Sound n) {a : Action}
    (he : H.event n = .act i a) {y : Place}
    (hy : (H.world (n + 1)).node? y ≠ (H.world n).node? y) :
    c.May S.locks ((H.world m).notes i) a ∧
      ∃ x, y = x.place ∧ (a = .makeDirectory x ∨ a = .removeDirectory x) := by
  obtain ⟨rest, hrest, -, hneeds⟩ := h.busy hs
  obtain ⟨c', next, hi, hw⟩ := of_act he
  cases hi.symm.trans hrest
  rw [Program.needs_ask] at hneeds
  rw [LockWorld.node?, LockWorld.node?, hw, LockWorld.act_machine] at hy
  cases a with
  | look p => exact absurd rfl hy
  | now => exact absurd rfl hy
  | held => exact absurd rfl hy
  | hold x => exact absurd rfl hy
  | letGo x => exact absurd rfl hy
  | sleep duration =>
      simp only [Process.perform, Machine.settle, hs.due] at hy
      exact absurd rfl hy
  | makeDirectory x =>
      obtain ⟨hmay, -⟩ := hneeds
      rw [Process.perform] at hy
      cases hm : (H.world n).machine.files.makeDirectory x with
      | error e =>
          rw [hm] at hy
          exact absurd rfl hy
      | ok fs =>
          rw [hm] at hy
          refine ⟨hmay, x, ?_, Or.inl rfl⟩
          by_contra hne
          refine hy ?_
          change fs.node? y = _
          rw [(FileSystem.makeDirectory_ok hm).2, Function.update_of_ne hne]
  | removeDirectory x =>
      obtain ⟨hmay, hmade, -⟩ := hneeds
      obtain ⟨fs, hfs, hupdate⟩ := hs.removeDirectory hmade
      rw [Process.perform, hfs] at hy
      refine ⟨hmay, x, ?_, Or.inr rfl⟩
      by_contra hne
      refine hy ?_
      change fs.node? y = _
      rw [hupdate, Function.update_of_ne hne]
      rfl
  | read p => exact hneeds.elim
  | names p => exact hneeds.elim
  | createFresh dir stem => exact hneeds.elim
  | write p contents => exact hneeds.elim
  | removeFile p => exact hneeds.elim
  | move source target => exact hneeds.elim

/-! ### Exclusion -/

/-- A lock that a table has noted is a directory where its path leads. -/
theorem Sound.lookup_of_holds (hs : H.Sound n) (hx : (H.world n).Holds i x) :
    (H.world n).machine.files.lookup x = .ok (x.place, .directory) := by
  have hmade := (hs.steady i).noted x hx
  obtain ⟨name, hname, hchild⟩ := hmade.1.isLock.place_eq
  have hthere : (H.world n).machine.files.node? x.place = some .directory :=
    directory_of_maker hmade.2
  rw [hchild] at hthere ⊢
  rw [FileSystem.lookup_child hname (hs.walkable i x hmade), hthere]

/-- No two tables have noted one lock. -/
theorem Sound.holder_unique (hs : H.Sound n) (hi : (H.world n).Holds i x)
    (hj : (H.world n).Holds j x) : i = j := by
  have hmade := (hs.steady i).noted x hi
  have hmade' := (hs.steady j).noted x hj
  exact Option.some.inj (hmade.2.symm.trans hmade'.2)

/-- Who takes a lock takes it at a time when nobody has noted it, and has noted it when the call
returns. -/
theorem Returns.free_of_acquire {d : Digest} {depth : Nat} (hs : ∀ t, H.Sound t)
    (h : H.Returns i (.acquire d depth) m n (.ok true)) :
    (H.world n).Holds i (S.locks.path d depth) ∧
      ∃ t, m < t ∧ t < n ∧ ∀ j, ¬(H.world t).Holds j (S.locks.path d depth) := by
  obtain ⟨hbefore, hends⟩ := h.ends (hs n)
  rcases hends with ⟨-, hfree, hgrip⟩ | ⟨hne, -⟩
  · have hnotes : (H.world n).notes i =
        ((H.world m).notes i).insert (S.locks.path d depth) () := congrArg Grip.notes hgrip
    have hholds : (H.world n).Holds i (S.locks.path d depth) := by
      rw [LockWorld.Holds, hnotes, SortedMap.get?_insert, if_pos rfl]
    have hnot : ¬(H.grip m i).made (S.locks.path d depth) := by
      rw [hbefore]
      intro hmade
      cases hfree.symm.trans hmade
    obtain ⟨t, hmt, htn, hactor, hnobody⟩ :=
      exists_take (Nat.le_of_lt h.lt) hnot (((hs n).steady i).noted _ hholds)
    -- the call begins with no action
    have hne : m ≠ t := by
      rintro rfl
      rw [h.start] at hactor
      cases hactor
    exact ⟨hholds, t, by omega, htn, fun j hj => hnobody j (((hs t).steady j).noted _ hj)⟩
  · exact absurd rfl hne

/-- What an action removes is at the time noted by nobody: who removes a lock has struck it. -/
theorem not_holds_of_removed (hs : ∀ t, H.Sound t) (he : H.event n = .act i (.removeDirectory x))
    (hx : (H.world (n + 1)).node? x.place ≠ (H.world n).node? x.place) (j : ι) :
    ¬(H.world n).Holds j x := by
  intro hj
  have hthere {t : Nat} (ht : (H.world t).Holds j x) :
      (H.world t).node? x.place = some .directory :=
    directory_of_maker (((hs t).steady j).noted x ht).2
  have hnotes : (H.world (n + 1)).notes j = (H.world n).notes j := by
    obtain ⟨c', next, -, hw⟩ := of_act he
    rw [hw]
    by_cases hji : j = i
    · obtain rfl := hji
      rw [LockWorld.act_notes_self, Process.perform]
      exact Process.change_held _ _
    · exact LockWorld.act_notes_of_ne hji
  have hj' : (H.world (n + 1)).Holds j x := by
    rw [LockWorld.Holds, hnotes]
    exact hj
  exact hx ((hthere hj').trans (hthere hj).symm)

/-- Giving all locks back removes the directory of each lock that the table had noted, and changes
nothing else. -/
theorem Returns.all_removed {count : Nat} (hs : ∀ t, H.Sound t)
    (h : H.Returns i .releaseAll m n count) :
    (H.world n).notes i = .empty ∧ count = ((H.world m).notes i).keys.length ∧
      (∀ x, (H.world m).Holds i x → ∃ t, m < t ∧ t < n ∧
        H.event t = .act i (.removeDirectory x) ∧
        (H.world t).node? x.place = some .directory ∧ (H.world (t + 1)).node? x.place = none) ∧
      ∀ t a y, m < t → t < n → H.event t = .act i a →
        (H.world (t + 1)).node? y ≠ (H.world t).node? y →
          ∃ x, (H.world m).Holds i x ∧ (∀ j, ¬(H.world t).Holds j x) ∧
            a = .removeDirectory x ∧ y = x.place := by
  obtain ⟨hbefore, hcount, hgrip⟩ := h.ends (hs n)
  refine ⟨congrArg Grip.notes hgrip, hcount, fun x hx => ?_, fun t a y hmt htn he hy => ?_⟩
  · have hgone : ¬(H.grip n i).made x := by
      rw [hgrip]
      intro hmade
      cases hmade
    obtain ⟨t, hmt, htn, he, hthere⟩ :=
      exists_give hs (Nat.le_of_lt h.lt) (((hs m).steady i).noted x hx) hgone
    have hne : m ≠ t := by
      rintro rfl
      cases h.start.symm.trans he
    exact ⟨t, by omega, htn, he, hthere⟩
  · have hbegan : H.Began i .releaseAll m t := h.of_le hmt (Nat.le_of_lt htn)
    obtain ⟨hmay, x, rfl, rfl | rfl⟩ := hbegan.changes (hs t) he hy
    · exact hmay.elim
    · exact ⟨x, hmay, not_holds_of_removed hs he hy, rfl, rfl⟩

end LockHistory

section

variable {ι : Type} [DecidableEq ι] {S : Site}

/-- **Mutual exclusion of locks.**  However the actions of any number of tables below one root
interleave, from a world without locks: at all times no two tables have noted one lock, and every
lock that one has noted is there as a directory.  A call of `acquire` that returns `true` has met a
moment at which nobody had noted the lock, and its table has noted it then.  A call of `releaseAll`
removes the directories of those locks that its table had noted, each of them, and changes nothing
else; nobody has noted a lock when it is removed.  Different locks have different places. -/
theorem locks_exclusive (H : LockHistory S ι) (hstart : (H.world 0).Starts S) :
    (∀ n i j x, (H.world n).Holds i x → (H.world n).Holds j x → i = j) ∧
      (∀ n i x, (H.world n).Holds i x →
        (H.world n).machine.files.lookup x = .ok (x.place, .directory)) ∧
      (∀ i d depth m n, H.Returns i (.acquire d depth) m n (.ok true) →
        (H.world n).Holds i (S.locks.path d depth) ∧
          ∃ t, m < t ∧ t < n ∧ ∀ j, ¬(H.world t).Holds j (S.locks.path d depth)) ∧
      (∀ i m n count, H.Returns i .releaseAll m n count →
        (H.world n).notes i = .empty ∧ count = ((H.world m).notes i).keys.length ∧
          (∀ x, (H.world m).Holds i x → ∃ t, m < t ∧ t < n ∧
            H.event t = .act i (.removeDirectory x) ∧
            (H.world t).node? x.place = some .directory ∧
            (H.world (t + 1)).node? x.place = none) ∧
          ∀ t a y, m < t → t < n → H.event t = .act i a →
            (H.world (t + 1)).node? y ≠ (H.world t).node? y →
              ∃ x, (H.world m).Holds i x ∧ (∀ j, ¬(H.world t).Holds j x) ∧
                a = .removeDirectory x ∧ y = x.place) ∧
      ∀ d e depth k, (S.locks.path d depth).place = (S.locks.path e k).place →
        d = e ∧ depth = k := by
  have hs := LockHistory.sound hstart
  exact ⟨fun n i j x => (hs n).holder_unique, fun n i x => (hs n).lookup_of_holds,
    fun i d depth m n h => h.free_of_acquire hs, fun i m n count h => h.all_removed hs,
    fun d e depth k => S.lockPlace_inj⟩

end

/-! ### A race for a lock -/

namespace Race

/-- The cache in the working directory. -/
def site : Site := ⟨Path.ofString ".", "cpp", by decide⟩

/-- Two tables try for a lock.  The second is refused between the making of the lock's directory and
the first table's note of it; it takes another lock, and the first gives back all it has. -/
def history : LockHistory site Bool :=
  .play site ⟨.empty, fun _ => .empty, fun _ => none⟩
    [.call true (.acquire .empty 0), .call false (.acquire .empty 0), .go true, .go false,
      .go false, .go true, .go false, .go false, .go true, .go true,
      .call false (.acquire .empty 1), .go false, .go false, .go false, .go false, .go false,
      .call true .releaseAll, .go true, .go true, .go true, .go true, .go true]

theorem starts : (history.world 0).Starts site where
  due := rfl
  notes := fun _ => rfl
  ongoing := fun _ => rfl
  locks := fun x y hx hxy => by
    have hlength := hxy.length_le
    rw [hx.length_place] at hlength
    refine if_neg (not_or.2 ⟨?_, ?_⟩)
    · rintro rfl
      simp at hlength
    · rintro rfl
      simp [FileSystem.rootPlace] at hlength

theorem taken : history.Returns true (.acquire .empty 0) 0 9 (.ok true) :=
  .of_events rfl rfl (by decide) (by decide +kernel)

theorem refused : history.Returns false (.acquire .empty 0) 1 7 (.ok false) :=
  .of_events rfl rfl (by decide) (by decide +kernel)

theorem other_taken : history.Returns false (.acquire .empty 1) 10 15 (.ok true) :=
  .of_events rfl rfl (by decide) (by decide +kernel)

theorem given_back : history.Returns true .releaseAll 16 21 (1 : Nat) :=
  .of_events rfl rfl (by decide) (by decide +kernel)

theorem noted : (history.world 16).Holds true (site.locks.path .empty 0) := by decide +kernel

theorem kept : (history.world 21).Holds false (site.locks.path .empty 1) := by decide +kernel

end Race

/-- In the race the second table has noted nothing while the first has its lock, and it keeps the
other lock when the first gives back what it has. -/
theorem race_exclusive : (Race.history.world 0).Starts Race.site ∧
    Race.history.Returns true (.acquire .empty 0) 0 9 (.ok true) ∧
    Race.history.Returns false (.acquire .empty 0) 1 7 (.ok false) ∧
    Race.history.Returns false (.acquire .empty 1) 10 15 (.ok true) ∧
    Race.history.Returns true .releaseAll 16 21 (1 : Nat) ∧
    ¬(Race.history.world 9).Holds false (Race.site.locks.path .empty 0) ∧
    (∃ t, 16 < t ∧ t < 21 ∧
      Race.history.event t = .act true (.removeDirectory (Race.site.locks.path .empty 0))) ∧
    (Race.history.world 21).machine.files.lookup (Race.site.locks.path .empty 1) =
      .ok ((Race.site.locks.path .empty 1).place, .directory) := by
  obtain ⟨hone, hthere, htake, hgive, -⟩ := locks_exclusive Race.history Race.starts
  obtain ⟨hholds, -⟩ := htake _ _ _ _ _ Race.taken
  obtain ⟨-, -, heach, -⟩ := hgive _ _ _ _ Race.given_back
  refine ⟨Race.starts, Race.taken, Race.refused, Race.other_taken, Race.given_back, fun h => ?_, ?_,
    hthere _ _ _ Race.kept⟩
  · cases hone _ _ _ _ hholds h
  · obtain ⟨t, hlt, htn, he, -⟩ := heach _ Race.noted
    exact ⟨t, hlt, htn, he⟩

end KernelCache
