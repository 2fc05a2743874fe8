/-
**A builder in two runs.**

A builder may be followed in two runs, one among others and one with those of its digest only.  Most
of the time it is at the same point in both.  Only while it makes a shared directory this is
different: how many steps that takes depends on what others have made.  Then it is somewhere on the
way in the first run, and still before it in the second.

Main definitions:

* `Site.Aside` — paths that lead through nothing that belongs to a digest;
* `Level`, `Making` — a builder that is at the same point in both, and one that makes a directory;
* `Abreast`, `Stance` — **where a builder is in two runs**, and where it is in one.

Main results:

* `Abreast.mono`, `Stance.mono` — what others do changes nothing about it;
* `Level.perform`, `Making.perform` — what comes of one step;
* `Making.finish`, `Made.same` — **both come to the same**, however long it takes;
* `Stance.reads`, `Stance.perform` — what a builder reads and changes, wherever it is.
-/

import KernelCache.Proofs.Independence.Pace

set_option relaxedAutoImplicit false
set_option autoImplicit false

namespace KernelCache

open FileSystem

/-- Paths that lead through nothing that belongs to a digest. -/
def Site.Aside (S : Site) (p : Path) : Prop := ∀ x ∈ p.visits, ∀ d, ¬S.Own d x

/-- What is left of a builder of a digest that is not making a directory. -/
abbrev Site.Goes (S : Site) (d : Digest) (p : BuildProgram) : Prop :=
  Program.Paced (S.buildPace d) (fun _ => True) p

/-- The builder that makes a directory, as it is before it has begun. -/
def Site.before (q : Path) (k : Except Failure Unit → BuildProgram) : BuildProgram :=
  ((makeDirectories q).embed BuildAction.file fun _ r => r).bind k

/-- A builder of a digest that is at the same point in two runs, in given states of the files.  It
reads its source, or it goes on, or it goes on where a directory has just been made. -/
inductive Level (S : Site) (d : Digest) (fs fs' : FileSystem) : BuildProgram → Prop
  | reading {path : Path} {x : Place} {source : Bytes}
      {next : (BuildAction.file (.read path)).Reply → BuildProgram} (haside : S.Aside path)
      (hfile : fs.lookup path = .ok (x, .file source))
      (hfile' : fs'.lookup path = .ok (x, .file source)) (hnext : S.Goes d (next (.ok source))) :
      Level S d fs fs' (.ask (.file (.read path)) next)
  | done (x : Except BuildError Kernel) : Level S d fs fs' (.done x)
  | stalled : Level S d fs fs' .stalled
  | calm {a : BuildAction} {next : a.Reply → BuildProgram} (ha : S.Calm d a)
      (hnext : ∀ r, a.Likely r → S.Goes d (next r)) : Level S d fs fs' (.ask a next)
  | poised {q : Path} {a : BuildAction} {next : a.Reply → BuildProgram} (ha : S.Follows d q a)
      (hopen : fs.Walkable q) (hopen' : fs'.Walkable q)
      (hnext : ∀ r, a.Likely r → S.Goes d (next r)) : Level S d fs fs' (.ask a next)

/-- A builder of a digest that makes a directory, and goes on with what comes of it. -/
inductive Making (S : Site) (d : Digest) (fs : FileSystem) (q : Path)
    (k : Except Failure Unit → BuildProgram) : BuildProgram → Prop
  | ask {b : Action} {m : b.Reply → FileProgram (Except Failure Unit)}
      (hq : q = S.store.entryDir d ∨ q = S.locks.directory)
      (hgrowing : Program.Obeys (growing q) (Made q) (.ask b m) fs)
      (hceasing : Program.Obeys (ceasing q) (fun _ _ => True) (.ask b m) False)
      (hok : Program.Poised (S.buildPace d) q (fun _ => True) (k (.ok ())))
      (herr : S.Goes d (k (.error .alreadyExists))) :
      Making S d fs q k (.ask (.file b) fun r =>
        ((m r).embed BuildAction.file fun _ r => r).bind k)

/-- Where a builder of a digest is in two runs: at the same point, or in the first on the way to a
directory and in the second still before it. -/
inductive Abreast (S : Site) (d : Digest) (fs fs' : FileSystem) : BuildProgram → BuildProgram → Prop
  | level {p : BuildProgram} (h : Level S d fs fs' p) : Abreast S d fs fs' p p
  | making {q : Path} {k : Except Failure Unit → BuildProgram} {p : BuildProgram}
      (h : Making S d fs q k p) : Abreast S d fs fs' p (Site.before q k)

/-- Where a builder of a digest is. -/
def Stance (S : Site) (d : Digest) (fs : FileSystem) (p : BuildProgram) : Prop :=
  ∃ p', Abreast S d fs fs p p'

section

variable {S : Site} {d e e' : Digest} {fs fs' fs₁ fs₁' : FileSystem} {p p' : BuildProgram}
  {q : Path} {k : Except Failure Unit → BuildProgram} {a : BuildAction}
  {next : a.Reply → BuildProgram}

theorem Making.exists_ask (h : Making S d fs q k p) :
    ∃ (a : BuildAction) (next : a.Reply → BuildProgram), p = .ask a next := by
  cases h with
  | ask => exact ⟨_, _, rfl⟩

theorem Level.left (h : Level S d fs fs' p) : Level S d fs fs p := by
  cases h with
  | reading haside hfile _ hnext => exact .reading haside hfile hfile hnext
  | done x => exact .done x
  | stalled => exact .stalled
  | calm ha hnext => exact .calm ha hnext
  | poised ha hopen _ hnext => exact .poised ha hopen hopen hnext

theorem Level.symm (h : Level S d fs fs' p) : Level S d fs' fs p := by
  cases h with
  | reading haside hfile hfile' hnext => exact .reading haside hfile' hfile hnext
  | done x => exact .done x
  | stalled => exact .stalled
  | calm ha hnext => exact .calm ha hnext
  | poised ha hopen hopen' hnext => exact .poised ha hopen' hopen hnext

theorem Abreast.stance (h : Abreast S d fs fs' p p') : Stance S d fs p := by
  cases h with
  | level h => exact ⟨p, .level h.left⟩
  | making h => exact ⟨_, .making h⟩

/-! ### The directories -/

theorem Site.visits_directory (hq : q = S.store.entryDir d ∨ q = S.locks.directory) :
    q.visits ⊆ S.entryPlace d :: S.shared := by
  rcases hq with heq | heq
  · rw [heq]
    exact visits_entryDir_subset
  · rw [heq]
    exact fun x hx => List.mem_cons_of_mem _ (visits_locks_subset hx)

theorem Site.Follows.directory (h : S.Follows d q a) :
    q = S.store.entryDir d ∨ q = S.locks.directory := by
  cases h with
  | createFresh => exact Or.inl rfl
  | take => exact Or.inr rfl

/-- Both directories are below another, and no file is on the way to that. -/
theorem Site.Sound.directory (hs : S.Sound fs)
    (hq : q = S.store.entryDir d ∨ q = S.locks.directory) :
    ∃ (up : Path) (name : String), Plain (Utf8.encode name) ∧ q = up.child name ∧
      ∀ x ∈ up.visits, ∀ b, fs.node? x ≠ some (.file b) := by
  rcases hq with heq | heq
  · exact ⟨_, _, plain_toText d, heq, fun x hx => hs.free x (visits_kernels_subset hx)⟩
  · exact ⟨_, _, plain_locks, heq, fun x hx => hs.free x (mem_shared.2 (Or.inl hx))⟩

theorem makeDirectories_child (up : Path) {name : String} (hname : Plain (Utf8.encode name)) :
    ∃ m, makeDirectories (up.child name) = .ask (.makeDirectory (up.child name)) m := by
  have hsteps := Path.steps_child (p := up) hname
  have hbytes : (up.child name).bytes.isEmpty = false := by
    rw [Bool.eq_false_iff]
    intro hempty
    obtain heq : up.child name = ⟨[]⟩ := congrArg Path.mk (List.isEmpty_iff.1 hempty)
    rw [heq] at hsteps
    exact absurd hsteps.symm (by simp [Path.steps, Path.pieces, Path.counts])
  rw [makeDirectories, Path.lineage, Path.lineageFrom, makeAll, hbytes]
  exact ⟨_, rfl⟩

/-- A builder that begins to make a directory. -/
theorem Making.start (hs : S.Sound fs) (hq : q = S.store.entryDir d ∨ q = S.locks.directory)
    (hok : Program.Poised (S.buildPace d) q (fun _ => True) (k (.ok ())))
    (herr : S.Goes d (k (.error .alreadyExists))) : Making S d fs q k (Site.before q k) := by
  obtain ⟨up, name, hname, rfl, hfree⟩ := hs.directory hq
  have hgrowing := growing_makeDirectories hname hfree
  have hceasing := ceasing_makeDirectories (p := up) hname
  obtain ⟨m, hm⟩ := makeDirectories_child up hname
  rw [Site.before, hm]
  rw [hm] at hgrowing hceasing
  exact .ask hq (hgrowing.mono (mono_growing _) fun _ _ h => h.2) hceasing hok herr

/-- A builder that has not begun to make its directory in one run where it makes it in another. -/
theorem Making.before (h : Making S d fs q k p) (hs' : S.Sound fs') :
    Making S d fs' q k (Site.before q k) := by
  cases h with
  | ask hq _ _ hok herr => exact .start hs' hq hok herr

/-- Whoever goes on is at the same point in both runs; it may be about to make a directory. -/
theorem Abreast.of_goes (hs : S.Sound fs) (h : S.Goes d p) :
    Abreast S d fs fs' p p := by
  cases h with
  | done => exact .level (.done _)
  | stalled => exact .level .stalled
  | ask ha hnext => exact .level (.calm ha hnext)
  | @make q k a next _ hp hk ha hnext herr =>
      obtain rfl : p = Site.before q k := hp
      exact .making (.start hs ha.directory (hk ▸ .ask ha hnext) herr)

/-- **What comes of making a directory is the same in both runs.** -/
theorem Making.finish (hs : S.Sound fs) (h : Making S d fs₁ q k p)
    {r : Except Failure Unit} (hr : Made q r fs) (hr' : Made q r fs') :
    Abreast S d fs fs' (k r) (k r) := by
  cases h with
  | ask hq _ _ hok herr =>
      rcases hr with ⟨rfl, hopen⟩ | ⟨rfl, -⟩
      · have hopen' : fs'.Walkable q := by
          rcases hr' with ⟨-, hopen'⟩ | ⟨h, -⟩
          · exact hopen'
          · cases h
        generalize k (.ok ()) = p' at hok
        cases hok with
        | ask ha hnext => exact .level (.poised ha hopen hopen' hnext)
      · exact .of_goes hs herr

/-! ### What others do -/

/-- What is beside the cache is not lost. -/
theorem Site.Moves.lookup_aside (h : S.Moves e fs fs₁) {path : Path} (haside : S.Aside path)
    {x : Place} {n : Node} (hn : fs.lookup path = .ok (x, n)) : fs₁.lookup path = .ok (x, n) := by
  refine lookup_of_visits hn fun y hy hsome => ?_
  by_cases hshared : y ∈ S.shared
  · exact (h.grows_shared y hshared).resolve_right fun hnone => hsome hnone.1
  · exact h.others y (haside y hy e) hshared

theorem Site.Moves.walkable (hS : S.Apart) (h : S.Moves e fs fs₁)
    (hq : q = S.store.entryDir d ∨ q = S.locks.directory) (hopen : fs.Walkable q) :
    fs₁.Walkable q := (h.grows_entry hS d).walkable (visits_directory hq) hopen

theorem Level.mono (hS : S.Apart) (h : Level S d fs fs' p) (hm : S.Moves e fs fs₁)
    (hm' : S.Moves e' fs' fs₁') : Level S d fs₁ fs₁' p := by
  cases h with
  | reading haside hfile hfile' hnext =>
      exact .reading haside (hm.lookup_aside haside hfile) (hm'.lookup_aside haside hfile') hnext
  | done x => exact .done x
  | stalled => exact .stalled
  | calm ha hnext => exact .calm ha hnext
  | poised ha hopen hopen' hnext =>
      exact .poised ha (hm.walkable hS ha.directory hopen) (hm'.walkable hS ha.directory hopen')
        hnext

theorem Making.mono (hS : S.Apart) (h : Making S d fs q k p) (hm : S.Moves e fs fs₁) :
    Making S d fs₁ q k p := by
  cases h with
  | ask hq hgrowing hceasing hok herr =>
      refine .ask hq ?_ hceasing hok herr
      rw [Program.obeys_ask] at hgrowing ⊢
      exact growing_act_of_grows hgrowing ((hm.grows_entry hS d).mono (Site.visits_directory hq))

/-- **What others do changes nothing** about where a builder is. -/
theorem Abreast.mono (hS : S.Apart) (h : Abreast S d fs fs' p p') (hm : S.Moves e fs fs₁)
    (hm' : S.Moves e' fs' fs₁') : Abreast S d fs₁ fs₁' p p' := by
  cases h with
  | level h => exact .level (h.mono hS hm hm')
  | making h => exact .making (h.mono hS hm)

theorem Stance.mono (hS : S.Apart) (h : Stance S d fs p) (hm : S.Moves e fs fs₁) :
    Stance S d fs₁ p := by
  obtain ⟨p', h⟩ := h
  exact (h.mono hS hm hm).stance

/-! ### One step -/

variable {T : Toolkit} {i : Identity} {s : Process}

/-- After every step a builder goes on. -/
theorem Level.goes (h : Level S d s.machine.files fs' (.ask a next)) :
    S.Goes d (next (T.perform i a s).1) := by
  cases h with
  | reading haside hfile _ hnext =>
      have hread : (T.perform i (.file (.read _)) s).1 = .ok _ := readFile_of_ok hfile
      rw [hread]
      exact hnext
  | calm ha hnext => exact hnext _ (T.likely_perform i a s)
  | poised ha _ _ hnext => exact hnext _ (T.likely_perform i a s)

/-- **What a builder reads that is at the same point in both runs** belongs to its digest. -/
theorem Level.reads (hs : S.Sound fs) (hs' : S.Sound fs') (h : Level S d fs fs' (.ask a next))
    (hown : ∀ x, S.Own d x → fs.node? x = fs'.node? x) : a.Reads fs fs' := by
  cases h with
  | reading _ hfile hfile' _ => exact hfile.trans hfile'.symm
  | calm ha _ => exact ha.reads hs hs' hown
  | poised ha hopen hopen' _ => exact ha.reads hopen hopen' hown

/-- A step on the way to a directory changes nothing that belongs to the digest, but for the
directory itself. -/
theorem Site.MakesWay.keeps (hS : S.Apart) (hq : q = S.store.entryDir d ∨ q = S.locks.directory)
    {b : Action} (hb : Site.MakesWay q (.file b)) {x : Place} (hx : S.Own d x)
    (hne : x ≠ q.place ∨ ¬b.Makes q (s.perform b).1) :
    (s.perform b).2.machine.files.node? x = s.machine.files.node? x := by
  cases hb with
  | look hp => rfl
  | @makeDirectory p hp =>
      rw [Process.perform] at hne ⊢
      cases hmade : s.machine.files.makeDirectory p with
      | error e => rfl
      | ok fs₁ =>
          rw [hmade] at hne
          obtain ⟨hnone, hupdate⟩ := makeDirectory_ok hmade
          refine (congrFun hupdate x).trans (Function.update_of_ne ?_ ..)
          have hdir : s.machine.files.node? p.place ≠ some .directory := by simp [hnone]
          have hcases : p = q ∨ p.place ∈ S.shared := by
            rcases hq with heq | heq
            · rw [heq] at hp ⊢
              exact (Site.mem_lineage_entryDir hp).imp_right fun hvisits =>
                hvisits (place_mem_visits hdir)
            · rw [heq] at hp
              exact Or.inr (Site.visits_locks_subset
                (Path.visits_subset_of_mem_lineage hp (place_mem_visits hdir)))
          rintro rfl
          rcases hcases with hpq | hshared
          · rcases hne with hne | hne
            · exact hne (congrArg Path.place hpq)
            · exact hne ⟨hpq, rfl⟩
          · exact Site.own_notMem_shared hS hx hshared

theorem Making.asks (h : Making S d fs q k (.ask a next)) :
    Site.MakesWay q a ∧ (q = S.store.entryDir d ∨ q = S.locks.directory) := by
  cases h with
  | @ask b m hq hgrowing _ _ _ =>
      refine ⟨?_, hq⟩
      rw [Program.obeys_ask] at hgrowing
      cases b with
      | look p => exact .look hgrowing.1
      | makeDirectory p => exact .makeDirectory hgrowing.1
      | _ => exact hgrowing.elim

/-- After a step on the way to a directory there is more to do and nothing that belongs to the
digest has changed, or it is known what comes of it. -/
theorem Making.perform (hS : S.Apart) (h : Making S d s.machine.files q k (.ask a next)) :
    (Making S d (T.perform i a s).2.machine.files q k (next (T.perform i a s).1) ∧
      ∀ x, S.Own d x → (T.perform i a s).2.machine.files.node? x = s.machine.files.node? x) ∨
    ∃ r, next (T.perform i a s).1 = k r ∧ Made q r (T.perform i a s).2.machine.files := by
  obtain ⟨hway, hq⟩ := h.asks
  cases h with
  | @ask b m _ hgrowing hceasing hok herr =>
      have hnext : (fun r : b.Reply => ((m r).embed BuildAction.file fun _ r => r).bind k)
          (s.perform b).1 = ((m (s.perform b).1).embed BuildAction.file fun _ r => r).bind k := rfl
      rw [Toolkit.perform_file, hnext]
      rcases making_next hgrowing hceasing with
        ⟨r, hr, hmade⟩ | ⟨b', m', hr, hnot, hgrowing₁, hceasing₁⟩
      · rw [hr]
        exact Or.inr ⟨r, rfl, hmade⟩
      · rw [hr]
        exact Or.inl ⟨.ask hq hgrowing₁ hceasing₁ hok herr, fun x hx =>
          hway.keeps hS hq hx (Or.inr hnot)⟩

/-- Steps on the way to a directory touch neither notes nor clocks. -/
theorem Site.MakesWay.held (h : Site.MakesWay q a) : (T.perform i a s).2.held = s.held := by
  cases h with
  | look => rfl
  | @makeDirectory p hp =>
      rw [Toolkit.perform_file, Process.perform]
      cases s.machine.files.makeDirectory p <;> rfl

/-- **Two ways to a directory come to the same**, if what belongs to the digest was the same when
they began. -/
theorem Made.same (hq : q = S.store.entryDir d ∨ q = S.locks.directory)
    (hs₁ : S.Sound fs₁) (hs₁' : S.Sound fs₁') (hown : ∀ x, S.Own d x → fs.node? x = fs'.node? x)
    (hm : S.Moves d fs fs₁) (hm' : S.Moves d fs' fs₁')
    (hkeeps : ∀ x, S.Own d x → x ≠ q.place → fs₁.node? x = fs.node? x)
    (hkeeps' : ∀ x, S.Own d x → x ≠ q.place → fs₁'.node? x = fs'.node? x)
    {r r' : Except Failure Unit} (hr : Made q r fs₁) (hr' : Made q r' fs₁') :
    r = r' ∧ ∀ x, S.Own d x → fs₁.node? x = fs₁'.node? x := by
  have helse : ∀ x, S.Own d x → x ≠ q.place → fs₁.node? x = fs₁'.node? x := fun x hx hne =>
    (hkeeps x hx hne).trans ((hown x hx).trans (hkeeps' x hx hne).symm)
  have hfile {fs : FileSystem} (hs : S.Sound fs) {b : Bytes}
      (hb : fs.node? q.place = some (.file b)) : q = S.store.entryDir d := by
    refine hq.resolve_right fun heq => ?_
    rw [heq] at hb
    exact hs.free _ (Site.mem_shared.2 (Or.inr (Or.inr rfl))) b hb
  -- a file in the place of the directory has been there in both cases from the beginning
  have hstays {fs fs' fs₁ fs₁' : FileSystem} (hs₁ : S.Sound fs₁)
      (hown : ∀ x, S.Own d x → fs.node? x = fs'.node? x) (hm : S.Moves d fs fs₁)
      (hm' : S.Moves d fs' fs₁') {b : Bytes} (hb : fs₁.node? q.place = some (.file b)) :
      fs₁'.node? q.place = some (.file b) := by
    have hplace : q.place = S.entryPlace d := congrArg Path.place (hfile hs₁ hb)
    rw [hplace] at hb ⊢
    have hgrows := hm.grows _ List.mem_cons_self
    have hgrows' : Gains (S.entryPlace d :: S.shared) fs' fs₁' := hm'.grows
    refine hgrows'.node? List.mem_cons_self ?_
    rw [← hown _ (Site.own_entryPlace d)]
    rcases hgrows with heq | ⟨-, hdir⟩
    · rw [← heq, hb]
    · cases hb.symm.trans hdir
  rcases hr with ⟨rfl, hopen⟩ | ⟨rfl, b, hb⟩
  · rcases hr' with ⟨rfl, hopen'⟩ | ⟨-, b, hb⟩
    · refine ⟨rfl, fun x hx => ?_⟩
      by_cases hne : x = q.place
      · rw [hne, node?_place_of_walkable hopen, node?_place_of_walkable hopen']
      · exact helse x hx hne
    · have hb' := hstays hs₁' (fun x hx => (hown x hx).symm) hm' hm hb
      cases hb'.symm.trans (node?_place_of_walkable hopen)
  · have hb' := hstays hs₁ hown hm hm' hb
    rcases hr' with ⟨-, hopen'⟩ | ⟨rfl, -⟩
    · cases hb'.symm.trans (node?_place_of_walkable hopen')
    · refine ⟨rfl, fun x hx => ?_⟩
      by_cases hne : x = q.place
      · rw [hne, hb, hb']
      · exact helse x hx hne

/-! ### Wherever a builder is -/

theorem Stance.moves (hS : S.Apart) (hT : T.Local)
    (h : Stance S d s.machine.files (.ask a next)) (hdue : s.machine.due = []) :
    S.Moves d s.machine.files (T.perform i a s).2.machine.files ∧
      (T.perform i a s).2.machine.due = [] := by
  obtain ⟨p', h⟩ := h
  cases h with
  | level h =>
      cases h with
      | reading => exact ⟨.refl _ _, hdue⟩
      | calm ha _ => exact ha.moves hS hT hdue
      | poised ha _ _ _ => exact ha.moves hS hdue
  | making h =>
      obtain ⟨hway, hq⟩ := h.asks
      exact Site.moves_makesWay hS hq hway hdue

/-- **What a builder reads belongs to its digest or to none.** -/
theorem Stance.reads (hS : S.Apart) (h : Stance S d fs (.ask a next))
    (hsame : ∀ x, (∀ e, S.Own e x → e = d) → fs.node? x = fs'.node? x) : a.Reads fs fs' := by
  have hnear : ∀ x, S.Own d x ∨ x ∈ S.shared → fs.node? x = fs'.node? x := by
    rintro x (hx | hx)
    · exact hsame x fun e he => Site.own_unique he hx
    · exact hsame x fun e he => absurd hx (Site.own_notMem_shared hS he)
  obtain ⟨p', h⟩ := h
  cases h with
  | level h =>
      cases h with
      | reading haside =>
          exact (agrees_of_visits fun x hx => hsame x fun e he => absurd he (haside x hx e)).lookup
      | calm ha _ => exact Site.Asks.reads (.calm ha) hnear
      | poised ha _ _ _ => exact Site.Asks.reads (.follows ha) hnear
  | making h =>
      obtain ⟨hway, hq⟩ := h.asks
      rcases hq with heq | heq
      · rw [heq] at hway
        exact Site.Asks.reads (.makesEntry hway) hnear
      · rw [heq] at hway
        exact Site.Asks.reads (S := S) (d := d) (.makesLocks hway) hnear

theorem Stance.perform (hS : S.Apart) (h : Stance S d s.machine.files (.ask a next))
    (hs : S.Sound (T.perform i a s).2.machine.files) :
    Stance S d (T.perform i a s).2.machine.files (next (T.perform i a s).1) := by
  obtain ⟨p', h⟩ := h
  cases h with
  | level h => exact ⟨_, .of_goes hs h.goes⟩
  | making h =>
      rcases h.perform hS with ⟨h₁, -⟩ | ⟨r, hr, hmade⟩
      · exact ⟨_, .making h₁⟩
      · rw [hr]
        exact (h.finish hs hmade hmade).stance

end

end KernelCache
