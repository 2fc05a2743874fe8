/-
**What a step does to the directories of locks.**

Of what a build does only two things concern the directories of locks that can be taken: it makes
the one of the lock that it then has in hands, and it removes that one.  Everything else leaves
them alone, what is below them, and the way there.  So a lock in hands stays as it is until the
build that has it gives it back, whatever that build does, and whatever others do that have other
locks.

Main definitions:

* `Hand.Has`, `Hand.Notes` — having a lock in hands, and having it noted;
* `Process.Hollow` — nothing is below a lock that is not taken;
* `Hand.Secure` — the lock in hands is there, with nothing in it, and can be reached;
* `LockTurn` — **what a step does to the directories of locks**.

Main results:

* `Turn.lockTurn`, `Turn.notes` — every turn is one of these, and it notes what is in hands;
* `Hand.Secure.removable` — a lock in hands can be given back;
* `LockTurn.hollow`, `LockTurn.secure`, `LockTurn.secure_other` — what a step leaves as it should
  be;
* `LockTurn.owner` — **every lock that is there is in somebody's hands**.
-/

import KernelCache.Proofs.Conduct.Turn

set_option relaxedAutoImplicit false
set_option autoImplicit false

namespace KernelCache

/-! ### Locks in hands -/

/-- Whether a lock is in hands. -/
def Hand.Has (S : Site) (h : Hand) (x : Path) : Prop :=
  ∃ d depth, h.grasp.lock? = some (d, depth) ∧ x = S.locks.path d depth

/-- Whether a lock is in hands and noted. -/
def Hand.Notes (S : Site) (h : Hand) (x : Path) : Prop :=
  ∃ d depth, h.grasp = .noted d depth ∧ x = S.locks.path d depth

/-- Whether files form a tree: what is below a place is in a directory. -/
def FileSystem.IsTree (fs : FileSystem) : Prop :=
  ∀ x name, fs.node? x ≠ some .directory → fs.node? (x ++ [name]) = none

/-- Nothing is below a lock that is not taken. -/
def Process.Hollow (S : Site) (s : Process) : Prop :=
  ∀ x, S.Takeable x → s.node? x.place ≠ some .directory → ∀ name, s.node? (x.place ++ [name]) = none

/-- The lock in hands can be reached, and it is a directory with nothing in it. -/
structure Hand.Secure (S : Site) (h : Hand) (s : Process) : Prop where
  takeable : ∀ x, h.Has S x → S.Takeable x
  way : ∀ x, h.Has S x → s.machine.files.Walkable S.locks.directory
  there : ∀ x, h.Has S x → s.node? x.place = some .directory
  below : ∀ x, h.Has S x → ∀ name, s.node? (x.place ++ [name]) = none

/-- What a step does to the directories of locks, and to the lock in hands. -/
inductive LockTurn (S : Site) (fails : Action → Prop) (h : Hand) (s : Process) (h' : Hand)
    (s' : Process) : Prop
  | still (hlock : h'.grasp.lock? = h.grasp.lock?)
      (hnodes : ∀ x y, S.Takeable x → x.place <+: y → s'.node? y = s.node? y)
      (hstays : ∀ y, s.node? y = some .directory → s'.node? y = some .directory)
  | pass (hempty : h.Empty) (hempty' : h'.Empty)
      (hgone : ∀ x, s'.node? x = s.node? x ∨
        (∃ e ∈ s.machine.due, e.2.place = x) ∧ s.node? x = some .directory ∧
          s'.node? x = none ∧ ∀ name, s'.node? (x ++ [name]) = none)
  | take {d : Digest} {depth : Nat} (hempty : h.Empty) (hlock : S.Takeable (S.locks.path d depth))
      (hway : s.machine.files.Walkable S.locks.directory)
      (hnone : s.node? (S.lockPlace d depth) = none) (hmade : h'.Only (.made d depth))
      (hnodes : s'.node? = Function.update s.node? (S.lockPlace d depth) (some .directory))
  | give {d : Digest} {depth : Nat} (hstruck : h.Only (.struck d depth)) (hempty : h'.Empty)
      (hnodes : s'.node? = Function.update s.node? (S.lockPlace d depth) none)
  | lose {d : Digest} {depth : Nat} (hstruck : h.Only (.struck d depth)) (hempty : h'.Empty)
      (hnodes : s'.node? = s.node?)
      (hfail : fails (.removeDirectory (S.locks.path d depth)) ∨
        ∃ e, s.machine.files.removeDirectory (S.locks.path d depth) = .error e)

namespace Hand

variable {S : Site} {h h' : Hand} {s s' : Process} {x y : Path} {d : Digest} {depth : Nat}

theorem has_congr (hlock : h'.grasp.lock? = h.grasp.lock?) : h'.Has S x ↔ h.Has S x := by
  rw [Has, Has, hlock]

theorem not_has_of_free (hfree : h.grasp = .free) : ¬h.Has S x := by
  rintro ⟨d, depth, hlock, -⟩
  rw [hfree] at hlock
  cases hlock

theorem Only.not_has (hempty : h.Empty) : ¬h.Has S x := not_has_of_free hempty.grasp

theorem has_of_lock (hlock : h.grasp.lock? = some (d, depth)) :
    h.Has S x ↔ x = S.locks.path d depth := by
  rw [Has, hlock]
  constructor
  · rintro ⟨e, k, heq, hx⟩
    cases heq
    exact hx
  · exact fun hx => ⟨d, depth, rfl, hx⟩

/-- There is one lock in hands at most. -/
theorem Has.unique (hx : h.Has S x) (hy : h.Has S y) : x = y := by
  obtain ⟨d, depth, hlock, hpath⟩ := hx
  rw [hpath, (has_of_lock hlock).1 hy]

theorem Only.has_made (hmade : h.Only (.made d depth)) :
    h.Has S x ↔ x = S.locks.path d depth := has_of_lock (by rw [hmade.grasp]; rfl)

theorem Only.has_struck (hstruck : h.Only (.struck d depth)) :
    h.Has S x ↔ x = S.locks.path d depth := has_of_lock (by rw [hstruck.grasp]; rfl)

theorem Only.secure (hempty : h.Empty) : h.Secure S s where
  takeable := fun _ hx => absurd hx hempty.not_has
  way := fun _ hx => absurd hx hempty.not_has
  there := fun _ hx => absurd hx hempty.not_has
  below := fun _ hx => absurd hx hempty.not_has

/-- Whether a lock is as it should be does not depend on notes. -/
theorem Secure.of_machine (hs : h.Secure S s) (hmachine : s'.machine = s.machine) :
    h.Secure S s' := by
  have hnode (y : Place) : s'.node? y = s.node? y := by
    rw [Process.node?, hmachine]
    rfl
  exact {
    takeable := hs.takeable
    way := fun x hx => hmachine ▸ hs.way x hx
    there := fun x hx => (hnode _).trans (hs.there x hx)
    below := fun x hx name => (hnode _).trans (hs.below x hx name) }

theorem Notes.has (hx : h.Notes S x) : h.Has S x := by
  obtain ⟨d, depth, hgrasp, hpath⟩ := hx
  exact ⟨d, depth, by rw [hgrasp]; rfl, hpath⟩

theorem not_notes (hgrasp : ∀ d depth, h.grasp ≠ .noted d depth) : ¬h.Notes S x := by
  rintro ⟨d, depth, hnoted, -⟩
  exact hgrasp d depth hnoted

theorem notes_congr (hgrasp : h'.grasp = h.grasp) : h'.Notes S x ↔ h.Notes S x := by
  rw [Notes, Notes, hgrasp]

theorem Only.notes (hnoted : h.Only (.noted d depth)) :
    h.Notes S x ↔ x = S.locks.path d depth := by
  rw [Notes, hnoted.grasp]
  constructor
  · rintro ⟨e, k, heq, hx⟩
    cases heq
    exact hx
  · exact fun hx => ⟨d, depth, rfl, hx⟩

/-- **A lock in hands can be given back.** -/
theorem Secure.removable (hs : h.Secure S s) (hx : h.Has S x) :
    ∃ fs, s.machine.files.removeDirectory x = .ok fs := by
  obtain ⟨name, hname, hchild⟩ := (hs.takeable x hx).isLock.place_eq
  have hthere := hs.there x hx
  have hbelow := hs.below x hx
  rw [hchild] at hthere hbelow ⊢
  exact FileSystem.removeDirectory_child hname (hs.way x hx) hthere hbelow

end Hand

theorem FileSystem.IsTree.hollow {S : Site} {s : Process} (h : s.machine.files.IsTree) :
    s.Hollow S :=
  fun _ _ hnot name => h _ name hnot

/-! ### Places that are not those of locks -/

namespace Site

variable {S : Site} {x : Path}

/-- The files of entries are not below locks. -/
theorem Takeable.not_above_file (hx : S.Takeable x) (d : Digest) (name : Bytes) :
    ¬x.place <+: S.entryPlace d ++ [name] := by
  obtain ⟨e, depth, -, hpath⟩ := hx.isLock
  have hplace : x.place = _ := (congrArg Path.place hpath).trans (S.lockPlace_eq e depth)
  rw [hplace, entryPlace_eq, List.append_assoc, List.prefix_append_right_inj]
  intro hprefix
  have hname : "locks" = "kernels" := Utf8.encode_injective (List.cons_prefix_cons.1 hprefix).1
  exact absurd hname (by decide)

theorem ne_of_below {x y z : Place} (hy : x <+: y) (hz : ¬x <+: z) : y ≠ z :=
  fun heq => hz (heq ▸ hy)

/-- The way to a lock does not lead through a lock. -/
theorem Takeable.ne_of_visited {d : Digest} {depth : Nat}
    (hlock : S.Takeable (S.locks.path d depth)) {y : Place}
    (hy : y ∈ S.locks.directory.visits) : y ≠ S.lockPlace d depth :=
  ne_of_mem_of_not_mem hy hlock.notMem_visits

/-- Places of locks are different, and nothing is at one of them that is directly below another. -/
theorem Takeable.below_ne_lock (hx : S.Takeable x) {d : Digest} {depth : Nat}
    (hlock : S.Takeable (S.locks.path d depth)) (name : Bytes) :
    x.place ++ [name] ≠ S.lockPlace d depth :=
  hx.isLock.below_ne hlock.isLock name

end Site

/-! ### Every turn is one for the locks -/

section

variable {S : Site} {fails : Action → Prop} {may : Digest → Nat → Prop} {h h' g : Hand}
  {s s' : Process} {x : Path}

/-- A change at one place that is not below a lock, and takes no directory away. -/
theorem lockTurn_of_update {z : Place} {v : Option Node} (hlock : h'.grasp.lock? = h.grasp.lock?)
    (hz : ∀ x, S.Takeable x → ¬x.place <+: z)
    (hdir : v = some .directory ∨ s.node? z ≠ some .directory)
    (hnodes : s'.node? = Function.update s.node? z v) : LockTurn S fails h s h' s' := by
  refine .still hlock (fun x y hx hy => ?_) fun y hy => ?_
  · rw [hnodes, Function.update_of_ne (Site.ne_of_below hy (hz x hx))]
  · rw [hnodes]
    by_cases hyz : y = z
    · rw [hyz, Function.update_self]
      exact hdir.elim id fun hnot => absurd (hyz ▸ hy) hnot
    · rw [Function.update_of_ne hyz, hy]

theorem lockTurn_of_nodes (hlock : h'.grasp.lock? = h.grasp.lock?) (hnodes : s'.node? = s.node?) :
    LockTurn S fails h s h' s' :=
  .still hlock (fun _ _ _ _ => by rw [hnodes]) fun _ hy => by rw [hnodes, hy]

/-- **Every turn is one for the locks.** -/
theorem Turn.lockTurn (hproper : h.Proper S may) (hturn : Turn S fails h s h' s') :
    LockTurn S fails h s h' s' := by
  have hfile {p : Path} (hp : p ∈ h.temps) (x : Path) (hx : S.Takeable x) :
      ¬x.place <+: p.place := by
    obtain ⟨d, depth, name, -, -, hplace⟩ := hproper.place_eq hp
    rw [hplace]
    exact hx.not_above_file d _
  cases hturn with
  | still hsame _ hnodes => exact lockTurn_of_nodes (congrArg Grasp.lock? hsame.grasp) hnodes
  | pass hempty hsame _ hgone => exact .pass hempty (hsame.only hempty) hgone
  | way hway _ hsame _ hnodes =>
      exact lockTurn_of_update (congrArg Grasp.lock? hsame.grasp)
        (fun x hx => hx.not_above_way hway) (Or.inl rfl) hnodes
  | take hempty hlock hway hnone hmade _ hnodes => exact .take hempty hlock hway hnone hmade hnodes
  | note hmade hnoted _ hnodes =>
      exact lockTurn_of_nodes (by rw [hmade.grasp, hnoted.grasp]; rfl) hnodes
  | strike hnoted hstruck _ hnodes =>
      exact lockTurn_of_nodes (by rw [hnoted.grasp, hstruck.grasp]; rfl) hnodes
  | give hstruck hempty _ hnodes => exact .give hstruck hempty hnodes
  | lose hstruck hempty _ hnodes hfail => exact .lose hstruck hempty hnodes hfail
  | create hnoted hp hname _ hnone hgrasp _ _ hnodes =>
      refine lockTurn_of_update (congrArg Grasp.lock? hgrasp) (fun x hx => ?_)
        (Or.inr (by simp [hnone])) hnodes
      rw [hp, Path.place_child hname.plain]
      exact hx.not_above_file _ _
  | edit hp hbefore _ hsame _ hnodes =>
      exact lockTurn_of_update (congrArg Grasp.lock? hsame.grasp) (hfile hp) (Or.inr hbefore) hnodes
  | drop hp hbefore hgrasp _ _ hnodes =>
      exact lockTurn_of_update (congrArg Grasp.lock? hgrasp) (hfile hp) (Or.inr hbefore) hnodes
  | spill _ hgrasp _ _ hnodes _ => exact lockTurn_of_nodes (congrArg Grasp.lock? hgrasp) hnodes
  | @publish d depth name p b hp _ _ hsource htarget hgrasp _ _ hnodes =>
      refine .still (congrArg Grasp.lock? hgrasp) (fun x y hx hy => ?_) fun y hy => ?_
      · have htarget' : y ≠ S.filePlace d name := Site.ne_of_below hy (hx.not_above_file d _)
        rw [hnodes, Function.update_of_ne htarget',
          Function.update_of_ne (Site.ne_of_below hy (hfile hp x hx))]
      · -- neither the fresh file nor what it replaces is a directory
        have htarget' : y ≠ S.filePlace d name := fun heq => htarget (by rw [← heq, hy])
        have hsource' : y ≠ p.place := fun heq => by simp [← heq, hy] at hsource
        rw [hnodes, Function.update_of_ne htarget', Function.update_of_ne hsource', hy]

/-- **What a step notes and strikes from the notes** is the lock that it notes in hands. -/
theorem Turn.notes (hturn : Turn S fails h s h' s') (x : Path) :
    s'.held.get? x = s.held.get? x ∧ (h'.Notes S x ↔ h.Notes S x) ∨
      s'.held.get? x = some () ∧ h'.Notes S x ∧ h.Has S x ∨
      s'.held.get? x = none ∧ ¬h'.Notes S x ∧ h.Notes S x := by
  have hsame (hgrasp : h'.grasp = h.grasp) (hheld : s'.held = s.held) :
      s'.held.get? x = s.held.get? x ∧ (h'.Notes S x ↔ h.Notes S x) :=
    ⟨by rw [hheld], Hand.notes_congr hgrasp⟩
  have hfree (hheld : s'.held = s.held) (hg : ∀ d depth, h.grasp ≠ .noted d depth)
      (hg' : ∀ d depth, h'.grasp ≠ .noted d depth) :
      s'.held.get? x = s.held.get? x ∧ (h'.Notes S x ↔ h.Notes S x) :=
    ⟨by rw [hheld], iff_of_false (Hand.not_notes hg') (Hand.not_notes hg)⟩
  cases hturn with
  | still h hheld _ => exact Or.inl (hsame h.grasp hheld)
  | pass _ h hheld _ => exact Or.inl (hsame h.grasp hheld)
  | way _ _ h hheld _ => exact Or.inl (hsame h.grasp hheld)
  | edit _ _ _ h hheld _ => exact Or.inl (hsame h.grasp hheld)
  | create _ _ _ _ _ hgrasp _ hheld _ => exact Or.inl (hsame hgrasp hheld)
  | drop _ _ hgrasp _ hheld _ => exact Or.inl (hsame hgrasp hheld)
  | spill _ hgrasp _ hheld _ _ => exact Or.inl (hsame hgrasp hheld)
  | publish _ _ _ _ _ hgrasp _ hheld _ => exact Or.inl (hsame hgrasp hheld)
  | take hempty _ _ _ hmade hheld _ =>
      exact Or.inl (hfree hheld (by simp [hempty.grasp]) (by simp [hmade.grasp]))
  | give hstruck hempty hheld _ =>
      exact Or.inl (hfree hheld (by simp [hstruck.grasp]) (by simp [hempty.grasp]))
  | lose hstruck hempty hheld _ _ =>
      exact Or.inl (hfree hheld (by simp [hstruck.grasp]) (by simp [hempty.grasp]))
  | @note d depth hmade hnoted hheld _ =>
      by_cases hx : x = S.locks.path d depth
      · refine Or.inr (Or.inl ⟨?_, hnoted.notes.2 hx, hmade.has_made.2 hx⟩)
        rw [hheld, SortedMap.get?_insert, if_pos hx.symm]
      · refine Or.inl ⟨?_, iff_of_false (fun h => hx (hnoted.notes.1 h)) ?_⟩
        · rw [hheld, SortedMap.get?_insert, if_neg (Ne.symm hx)]
        · exact Hand.not_notes (by simp [hmade.grasp])
  | @strike d depth hnoted hstruck hheld _ =>
      by_cases hx : x = S.locks.path d depth
      · refine Or.inr (Or.inr ⟨?_, Hand.not_notes (by simp [hstruck.grasp]), hnoted.notes.2 hx⟩)
        rw [hheld, SortedMap.get?_erase, if_pos hx.symm]
      · refine Or.inl ⟨?_, iff_of_false ?_ fun h => hx (hnoted.notes.1 h)⟩
        · rw [hheld, SortedMap.get?_erase, if_neg (Ne.symm hx)]
        · exact Hand.not_notes (by simp [hstruck.grasp])

/-! ### What a step leaves as it should be -/

/-- Nothing comes to be below a lock. -/
theorem LockTurn.below (hturn : LockTurn S fails h s h' s') (hs : h.Secure S s)
    (hx : S.Takeable x) {name : Bytes} (hnone : s.node? (x.place ++ [name]) = none) :
    s'.node? (x.place ++ [name]) = none := by
  cases hturn with
  | still _ hnodes _ => rw [hnodes x _ hx (List.prefix_append ..), hnone]
  | pass _ _ hgone => exact (hgone _).elim (fun hsame => hsame.trans hnone) fun hgone => hgone.2.2.1
  | take _ hlock _ _ _ hnodes =>
      rw [hnodes, Function.update_of_ne (hx.below_ne_lock hlock name), hnone]
  | give hstruck _ hnodes =>
      have hlock := hs.takeable _ (hstruck.has_struck.2 rfl)
      rw [hnodes, Function.update_of_ne (hx.below_ne_lock hlock name), hnone]
  | lose _ _ hnodes _ => rw [hnodes, hnone]

/-- Nothing is below a lock that is given back. -/
theorem LockTurn.hollow (hturn : LockTurn S fails h s h' s') (hs : h.Secure S s)
    (hhollow : s.Hollow S) : s'.Hollow S := by
  intro x hx hnot name
  by_cases hthere : s.node? x.place = some .directory
  · cases hturn with
    | still _ _ hstays => exact absurd (hstays _ hthere) hnot
    | pass _ _ hgone =>
        rcases hgone x.place with hsame | ⟨-, -, -, hbelow⟩
        · exact absurd (hsame.trans hthere) hnot
        · exact hbelow name
    | @take d depth _ _ _ hnone _ hnodes =>
        refine absurd ?_ hnot
        rw [hnodes]
        by_cases heq : x.place = S.lockPlace d depth
        · rw [heq, Function.update_self]
        · rw [Function.update_of_ne heq, hthere]
    | @give d depth hstruck _ hnodes =>
        have hlock := hs.takeable _ (hstruck.has_struck.2 rfl)
        by_cases heq : x.place = S.lockPlace d depth
        · have hpath : x = S.locks.path d depth := hx.isLock.place_inj hlock.isLock heq
          rw [hnodes, Function.update_of_ne (hx.below_ne_lock hlock name)]
          exact hs.below x (hstruck.has_struck.2 hpath) name
        · rw [hnodes, Function.update_of_ne heq] at hnot
          exact absurd hthere hnot
    | lose _ _ hnodes _ => exact absurd (hnodes ▸ hthere) hnot
  · exact hturn.below hs hx (hhollow x hx hthere name)

/-- Where directories stay, a way that can be walked can be walked afterwards. -/
theorem Process.walkable_of_stays {p : Path}
    (hstays : ∀ y ∈ p.visits, s.node? y = some .directory → s'.node? y = some .directory)
    (hway : s.machine.files.Walkable p) : s'.machine.files.Walkable p :=
  fun y hy => hstays y hy (hway y hy)

/-- Where nothing is removed in time, a way stays that does not lead through locks. -/
theorem LockTurn.walkable (hturn : LockTurn S fails h s h' s')
    (ht : ∀ x, h.Has S x → S.Takeable x) (hdue : s.machine.due = []) {p : Path}
    (hp : ∀ x, S.Takeable x → x.place ∉ p.visits) (hway : s.machine.files.Walkable p) :
    s'.machine.files.Walkable p := by
  refine Process.walkable_of_stays (fun y hy hthere => ?_) hway
  have hne {d : Digest} {depth : Nat} (hlock : S.Takeable (S.locks.path d depth)) :
      y ≠ S.lockPlace d depth := ne_of_mem_of_not_mem hy (hp _ hlock)
  cases hturn with
  | still _ _ hstays => exact hstays y hthere
  | pass _ _ hgone =>
      rcases hgone y with hsame | ⟨⟨e, he, -⟩, -⟩
      · exact hsame.trans hthere
      · rw [hdue] at he
        cases he
  | take _ hlock _ _ _ hnodes => rw [hnodes, Function.update_of_ne (hne hlock), hthere]
  | give hstruck _ hnodes =>
      rw [hnodes, Function.update_of_ne (hne (ht _ (hstruck.has_struck.2 rfl))), hthere]
  | lose _ _ hnodes _ => rw [hnodes, hthere]

/-- The lock in hands is one that can be taken. -/
theorem LockTurn.takeable (hturn : LockTurn S fails h s h' s')
    (ht : ∀ x, h.Has S x → S.Takeable x) (hx : h'.Has S x) : S.Takeable x := by
  cases hturn with
  | still hlock _ _ => exact ht x ((Hand.has_congr hlock).1 hx)
  | take _ hlock _ _ hmade _ => exact hmade.has_made.1 hx ▸ hlock
  | pass _ hempty _ => exact absurd hx hempty.not_has
  | give _ hempty _ => exact absurd hx hempty.not_has
  | lose _ hempty _ _ => exact absurd hx hempty.not_has

/-- **The lock in hands stays as it should be.** -/
theorem LockTurn.secure (hturn : LockTurn S fails h s h' s') (hs : h.Secure S s)
    (hhollow : s.Hollow S) : h'.Secure S s' := by
  have hbelow {x : Path} (hx : S.Takeable x) {name : Bytes}
      (hnone : s.node? (x.place ++ [name]) = none) := hturn.below hs hx hnone
  cases hturn with
  | still hlock _ hstays =>
      have hhas {x : Path} (hx : h'.Has S x) : h.Has S x := (Hand.has_congr hlock).1 hx
      exact {
        takeable := fun x hx => hs.takeable x (hhas hx)
        way := fun x hx => Process.walkable_of_stays (fun y _ => hstays y) (hs.way x (hhas hx))
        there := fun x hx => hstays _ (hs.there x (hhas hx))
        below := fun x hx name => hbelow (hs.takeable x (hhas hx)) (hs.below x (hhas hx) name) }
  | pass _ hempty' _ => exact hempty'.secure
  | @take d depth _ hlock hway hnone hmade hnodes =>
      have hx {x : Path} (hx : h'.Has S x) : x = S.locks.path d depth := hmade.has_made.1 hx
      refine ⟨fun x h => hx h ▸ hlock, fun x h => ?_, fun x h => ?_, fun x h name => ?_⟩
      · refine Process.walkable_of_stays (fun y hy hthere => ?_) hway
        rw [hnodes, Function.update_of_ne (hlock.ne_of_visited hy), hthere]
      · rw [hnodes, hx h]
        exact Function.update_self ..
      · rw [hx h]
        exact hbelow hlock (hhollow _ hlock (fun hthere => by cases hnone.symm.trans hthere) name)
  | give _ hempty _ => exact hempty.secure
  | lose _ hempty _ _ => exact hempty.secure

/-- A lock that somebody else has stays, unless it is removed in time. -/
theorem LockTurn.other_stays (hturn : LockTurn S fails h s h' s') (hs : h.Secure S s)
    (hx : S.Takeable x) (hdue : ∀ e ∈ s.machine.due, e.2.place ≠ x.place)
    (hthere : s.node? x.place = some .directory) (hnot : ¬h.Has S x) :
    s'.node? x.place = some .directory ∧ ¬h'.Has S x := by
  cases hturn with
  | still hlock _ hstays =>
      exact ⟨hstays _ hthere, fun hhas => hnot ((Hand.has_congr hlock).1 hhas)⟩
  | pass _ hempty' hgone =>
      rcases hgone x.place with hsame | ⟨⟨e, he, hplace⟩, -⟩
      · exact ⟨hsame.trans hthere, hempty'.not_has⟩
      · exact absurd hplace (hdue e he)
  | @take d depth _ hlock _ hnone hmade hnodes =>
      -- a lock that can be made is in nobody's hands
      have hne : x.place ≠ S.lockPlace d depth := fun heq => by simp [heq, hnone] at hthere
      rw [hnodes, Function.update_of_ne hne]
      refine ⟨hthere, fun hhas => hne ?_⟩
      rw [hmade.has_made.1 hhas]
      rfl
  | @give d depth hstruck hempty hnodes =>
      have hlock := hs.takeable _ (hstruck.has_struck.2 rfl)
      have hne : x.place ≠ S.lockPlace d depth := fun heq =>
        hnot (hstruck.has_struck.2 (hx.isLock.place_inj hlock.isLock heq))
      rw [hnodes, Function.update_of_ne hne]
      exact ⟨hthere, hempty.not_has⟩
  | lose _ hempty hnodes _ => exact ⟨hnodes ▸ hthere, hempty.not_has⟩

/-- **Another's lock stays as it should be**, where nothing is removed in time. -/
theorem LockTurn.secure_other (hturn : LockTurn S fails h s h' s') (hs : h.Secure S s)
    (hdue : s.machine.due = []) (hother : ∀ x, g.Has S x → ¬h.Has S x) (hg : g.Secure S s) :
    g.Secure S s' ∧ ∀ x, g.Has S x → ¬h'.Has S x := by
  have hstays (x : Path) (hx : g.Has S x) := hturn.other_stays hs (hg.takeable x hx)
    (by simp [hdue]) (hg.there x hx) (hother x hx)
  exact ⟨⟨hg.takeable, fun x hx => hturn.walkable hs.takeable hdue
    (fun _ hy => hy.notMem_visits) (hg.way x hx), fun x hx => (hstays x hx).1,
    fun x hx name => hturn.below hs (hg.takeable x hx) (hg.below x hx name)⟩,
    fun x hx => (hstays x hx).2⟩

/-- **A lock that is there is in the hands of the one who made the step, or was there before and in
the hands of somebody else**, if a lock in hands can always be given back. -/
theorem LockTurn.owner (hturn : LockTurn S fails h s h' s') (hs : h.Secure S s)
    (hgives : ∀ p, ¬fails (.removeDirectory p)) (hx : S.Takeable x)
    (hthere : s'.node? x.place = some .directory) :
    h'.Has S x ∨ s.node? x.place = some .directory ∧ ¬h.Has S x := by
  cases hturn with
  | still hlock hnodes _ =>
      by_cases hhas : h.Has S x
      · exact Or.inl ((Hand.has_congr hlock).2 hhas)
      · exact Or.inr ⟨hnodes x _ hx List.prefix_rfl ▸ hthere, hhas⟩
  | pass hempty _ hgone =>
      rcases hgone x.place with hsame | ⟨-, -, hnone, -⟩
      · exact Or.inr ⟨hsame ▸ hthere, hempty.not_has⟩
      · cases hnone.symm.trans hthere
  | @take d depth hempty hlock _ _ hmade hnodes =>
      by_cases heq : x.place = S.lockPlace d depth
      · exact Or.inl (hmade.has_made.2 (hx.isLock.place_inj hlock.isLock heq))
      · rw [hnodes, Function.update_of_ne heq] at hthere
        exact Or.inr ⟨hthere, hempty.not_has⟩
  | @give d depth hstruck _ hnodes =>
      have hne : x.place ≠ S.lockPlace d depth := fun heq => by
        rw [hnodes, heq, Function.update_self] at hthere
        cases hthere
      rw [hnodes, Function.update_of_ne hne] at hthere
      refine Or.inr ⟨hthere, fun hhas => hne ?_⟩
      rw [hstruck.has_struck.1 hhas]
      rfl
  | lose hstruck _ _ hfail =>
      rcases hfail with hfail | ⟨e, herr⟩
      · exact absurd hfail (hgives _)
      · obtain ⟨fs, hok⟩ := hs.removable (hstruck.has_struck.2 rfl)
        cases herr.symm.trans hok

end

end KernelCache
