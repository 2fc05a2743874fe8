/-
**The bench of a store.**

A store writes every file under a fresh name first and then moves it to its place.  The fresh files
that it has at hand lie on its bench: they are made there, filled, and in the end moved away or
thrown away.  Operations may fail at any time, and writing may fail halfway; only what is to be
removed can be removed.

What an action does is said once, in `Bench.Change`, and every invariant is derived from that.

Main definitions:

* `Bench` — the fresh files at hand, and where files were moved to;
* `benching` — **the rule for what actions make of a bench**, where `may` says which files may be
  moved to which places;
* `Bench.Fits` — the files at hand are there;
* `Bench.Change` — what an action does to bench and files.

Main results:

* `Bench.Change.directory`, `Bench.Change.fits` — directories stay, and what is at hand is there;
* `benching_change` — **every action is such a change**.
-/

import KernelCache.Proofs.Conduct.Cleanup
import KernelCache.Proofs.Solo.Catalog

set_option relaxedAutoImplicit false
set_option autoImplicit false

namespace KernelCache

/-! ### Files of entries -/

namespace Site

variable {S : Site} {p q : Path}

/-- The paths of fresh files in entries. -/
def IsTemp (S : Site) (p : Path) : Prop :=
  ∃ d name, p = (S.store.entryDir d).child name ∧ Plain (Utf8.encode name) ∧
    IsScratch (Utf8.encode name)

/-- The paths of the other files in entries. -/
def IsTarget (S : Site) (q : Path) : Prop :=
  ∃ d name, q = (S.store.entryDir d).child name ∧ Plain (Utf8.encode name) ∧
    ¬IsScratch (Utf8.encode name)

theorem isTarget_path (d : Digest) (k : Artifact) : S.IsTarget (S.store.path d k) :=
  ⟨d, _, rfl, S.plain_fileName k, S.not_isScratch_fileName k⟩

theorem isTarget_sidecar (d : Digest) : S.IsTarget (S.store.sidecar d) :=
  ⟨d, _, rfl, plain_sidecar, not_isScratch_sidecar⟩

/-- Different fresh files have different places. -/
theorem IsTemp.place_inj (hp : S.IsTemp p) (hq : S.IsTemp q) (h : p.place = q.place) : p = q := by
  obtain ⟨d, name, rfl, hname, -⟩ := hp
  obtain ⟨e, other, rfl, hother, -⟩ := hq
  rw [Path.place_child hname, Path.place_child hother] at h
  obtain ⟨rfl, rfl⟩ := S.filePlace_inj h
  rfl

theorem IsTarget.place_ne (hq : S.IsTarget q) (d : Digest) {name : Bytes}
    (hname : IsScratch name) : S.entryPlace d ++ [name] ≠ q.place := by
  obtain ⟨e, other, rfl, hother, hnot⟩ := hq
  intro h
  rw [Path.place_child hother] at h
  obtain ⟨-, rfl⟩ := S.entry_append_inj h
  exact hnot hname

theorem IsTemp.place_ne (hp : S.IsTemp p) (hq : S.IsTarget q) : p.place ≠ q.place := by
  obtain ⟨d, name, rfl, hname, hscratch⟩ := hp
  rw [Path.place_child hname]
  exact hq.place_ne d hscratch

end Site

/-! ### Benches -/

/-- The fresh files that a store has at hand, each with its contents if they are known, and the
paths where files were moved to, the latest first. -/
structure Bench where
  temps : Path → Option (Option Bytes)
  moved : List Path

namespace Bench

/-- The bench with nothing on it. -/
def empty : Bench := ⟨fun _ => none, []⟩

/-- The bench with a file changed. -/
def set (h : Bench) (p : Path) (v : Option (Option Bytes)) : Bench :=
  { h with temps := Function.update h.temps p v }

/-- The bench after a file is moved away. -/
def move (h : Bench) (p q : Path) : Bench := ⟨Function.update h.temps p none, q :: h.moved⟩

variable {h : Bench} {p q : Path} {v w : Option (Option Bytes)}

@[simp] theorem set_temps_self : (h.set p v).temps p = v := Function.update_self ..

theorem set_temps_of_ne (hne : q ≠ p) : (h.set p v).temps q = h.temps q :=
  Function.update_of_ne hne ..

@[simp] theorem set_moved : (h.set p v).moved = h.moved := rfl

@[simp] theorem set_set : (h.set p v).set p w = h.set p w := by
  rw [set, set, set, Function.update_idem]

theorem set_eq_self (hv : h.temps p = v) : h.set p v = h := by
  rw [set, ← hv, Function.update_eq_self]

@[simp] theorem move_moved : (h.move p q).moved = q :: h.moved := rfl

theorem move_temps_of_ne {r : Path} (hne : r ≠ p) : (h.move p q).temps r = h.temps r :=
  Function.update_of_ne hne ..

@[simp] theorem move_temps_self : (h.move p q).temps p = none := Function.update_self ..

end Bench

/-- What an action makes of a bench, and what it asks of it: `may` says of a file with given
contents whether it may be moved to a path. -/
def benchAct (S : Site) (may : Bench → Path → Option Bytes → Prop) :
    (a : Action) → (a.Reply → Bench → Prop) → Bench → Prop
  | .look _, post, h => ∀ r, post r h
  | .read p, post, h => (∀ e, post (.error e) h) ∧
      ∀ b, (∀ c, h.temps p = some (some c) → b = c) → post (.ok b) h
  | .makeDirectory _, post, h => ∀ r, post r h
  | .createFresh dir stem, post, h => (∃ d, S.store.entryDir d = dir) ∧ '/' ∉ stem.toList ∧
      (∀ n, Site.IsScratch (Utf8.encode (stem ++ FileSystem.freshTail n))) ∧
      (∀ e, post (.error e) h) ∧
      ∀ p, S.IsTemp p → h.temps p = none → post (.ok p) (h.set p (some (some [])))
  | .write p b, post, h => h.temps p ≠ none ∧ post (.ok ()) (h.set p (some (some b))) ∧
      ∀ e, post (.error e) (h.set p (some none))
  | .removeFile p, post, h => h.temps p ≠ none ∧ ∀ r, post r (h.set p none)
  | .move p q, post, h => (∃ v, h.temps p = some v ∧ may h q v) ∧ S.IsTarget q ∧
      (∀ e, post (.error e) h) ∧ post (.ok ()) (h.move p q)
  | .names _, _, _ | .removeDirectory _, _, _ | .now, _, _ | .sleep _, _, _ => False
  | .hold _, _, _ | .letGo _, _, _ | .held, _, _ => False

/-- **The rule for what actions make of a bench.** -/
def benching (S : Site) (may : Bench → Path → Option Bytes → Prop) :
    Rule Action Action.Reply Bench := ⟨benchAct S may, fun _ => True⟩

/-! ### From benches to files -/

/-- A path is that of a fresh file in an entry, and the way there is open. -/
def Process.Reaches (S : Site) (s : Process) (p : Path) : Prop :=
  ∃ d name, p = (S.store.entryDir d).child name ∧ Plain (Utf8.encode name) ∧
    Site.IsScratch (Utf8.encode name) ∧ s.machine.files.Walkable (S.store.entryDir d)

/-- A file at hand is there, with its contents if they are known. -/
structure Process.Offers (S : Site) (s : Process) (p : Path) (v : Option Bytes) : Prop where
  way : s.Reaches S p
  file : ∃ b, s.node? p.place = some (.file b) ∧ ∀ c, v = some c → b = c

theorem Process.Reaches.isTemp {S : Site} {s : Process} {p : Path} (h : s.Reaches S p) :
    S.IsTemp p := by
  obtain ⟨d, name, hp, hname, hscratch, -⟩ := h
  exact ⟨d, name, hp, hname, hscratch⟩

namespace Bench

/-- Whether the files at hand are there. -/
def Fits (S : Site) (h : Bench) (s : Process) : Prop :=
  ∀ p v, h.temps p = some v → s.Offers S p v

/-- **What an action does to bench and files.** -/
inductive Change (S : Site) (may : Bench → Path → Option Bytes → Prop) (h : Bench) (s : Process)
    (h' : Bench) (s' : Process) : Prop
  | still (hh : h' = h) (hnodes : s'.node? = s.node?)
  | way {x : Place} (hnone : s.node? x = none) (hh : h' = h)
      (hnodes : s'.node? = Function.update s.node? x (some .directory))
  | create {p : Path} (hway : s.Reaches S p) (hfree : h.temps p = none)
      (hnone : s.node? p.place = none) (hh : h' = h.set p (some (some [])))
      (hnodes : s'.node? = Function.update s.node? p.place (some (.file [])))
  | edit {p : Path} {v w : Option Bytes} {b : Bytes} (hp : h.temps p = some v)
      (hb : ∀ c, w = some c → b = c) (hh : h' = h.set p (some w))
      (hnodes : s'.node? = Function.update s.node? p.place (some (.file b)))
  | drop {p : Path} {v : Option Bytes} (hp : h.temps p = some v) (hh : h' = h.set p none)
      (hnodes : s'.node? = Function.update s.node? p.place none)
  | move {p q : Path} {v : Option Bytes} {b : Bytes} (hp : h.temps p = some v) (hmay : may h q v)
      (hq : S.IsTarget q) (hb : ∀ c, v = some c → b = c)
      (htarget : s.node? q.place ≠ some .directory) (hh : h' = h.move p q)
      (hnodes : s'.node? =
        Function.update (Function.update s.node? p.place none) q.place (some (.file b)))

variable {S : Site} {may : Bench → Path → Option Bytes → Prop} {h h' : Bench} {s s' : Process}
  {p : Path} {v : Option Bytes} {x : Place}

theorem Fits.not_directory (hfits : h.Fits S s) (hp : h.temps p = some v)
    (hx : s.node? x = some .directory) : x ≠ p.place := by
  rintro rfl
  obtain ⟨b, hb, -⟩ := (hfits p v hp).file
  cases hb.symm.trans hx

theorem Fits.ne_of_none (hfits : h.Fits S s) (hp : h.temps p = some v) (hx : s.node? x = none) :
    p.place ≠ x := by
  rintro rfl
  obtain ⟨b, hb, -⟩ := (hfits p v hp).file
  cases hb.symm.trans hx

/-- What happens at the place of one fresh file does not concern the others. -/
theorem Fits.place_ne (hfits : h.Fits S s) (hp : h.temps p = some v) {q : Path} {w : Option Bytes}
    (hq : h.temps q = some w) (hne : q ≠ p) : q.place ≠ p.place := fun heq =>
  hne ((hfits q w hq).way.isTemp.place_inj (hfits p v hp).way.isTemp heq)

/-- **Directories stay.** -/
theorem Change.directory (hchange : Change S may h s h' s') (hfits : h.Fits S s)
    (hx : s.node? x = some .directory) : s'.node? x = some .directory := by
  have hne {y : Place} (hy : s.node? y ≠ some .directory) : x ≠ y := fun heq => hy (heq ▸ hx)
  cases hchange with
  | still _ hnodes => rw [hnodes, hx]
  | way hnone _ hnodes => rw [hnodes, Function.update_of_ne (hne (by simp [hnone])), hx]
  | create _ _ hnone _ hnodes => rw [hnodes, Function.update_of_ne (hne (by simp [hnone])), hx]
  | edit hp _ _ hnodes => rw [hnodes, Function.update_of_ne (hfits.not_directory hp hx), hx]
  | drop hp _ hnodes => rw [hnodes, Function.update_of_ne (hfits.not_directory hp hx), hx]
  | move hp _ _ _ htarget _ hnodes =>
      rw [hnodes, Function.update_of_ne (hne htarget),
        Function.update_of_ne (hfits.not_directory hp hx), hx]

/-- A way stays open. -/
theorem Change.walkable (hchange : Change S may h s h' s') (hfits : h.Fits S s) {q : Path}
    (hway : s.machine.files.Walkable q) : s'.machine.files.Walkable q :=
  Process.walkable_of_stays (fun _ _ => hchange.directory hfits) hway

theorem Change.reaches (hchange : Change S may h s h' s') (hfits : h.Fits S s)
    (hway : s.Reaches S p) : s'.Reaches S p := by
  obtain ⟨d, name, hp, hname, hscratch, hopen⟩ := hway
  exact ⟨d, name, hp, hname, hscratch, hchange.walkable hfits hopen⟩

/-- A file at hand is still there when nothing happens at its place. -/
theorem Change.offers (hchange : Change S may h s h' s') (hfits : h.Fits S s)
    (hp : h.temps p = some v) (hsame : s'.node? p.place = s.node? p.place) :
    s'.Offers S p v where
  way := hchange.reaches hfits (hfits p v hp).way
  file := by
    rw [hsame]
    exact (hfits p v hp).file

/-- **What is at hand is there.** -/
theorem Change.fits (hchange : Change S may h s h' s') (hfits : h.Fits S s) : h'.Fits S s' := by
  have hkept := hchange
  intro q w hq
  cases hchange with
  | still hh hnodes =>
      subst hh
      exact hkept.offers hfits hq (by rw [hnodes])
  | way hnone hh hnodes =>
      subst hh
      have hne := hfits.ne_of_none hq hnone
      exact hkept.offers hfits hq (by rw [hnodes, Function.update_of_ne hne])
  | @create p hway hfree hnone hh hnodes =>
      subst hh
      by_cases hqp : q = p
      · -- the new file is there, and there is nothing in it
        subst hqp
        obtain rfl := Option.some.inj (set_temps_self.symm.trans hq)
        refine ⟨hkept.reaches hfits hway, [], ?_, fun c => Option.some.inj⟩
        rw [hnodes, Function.update_self]
      · rw [set_temps_of_ne hqp] at hq
        have hne := hfits.ne_of_none hq hnone
        exact hkept.offers hfits hq (by rw [hnodes, Function.update_of_ne hne])
  | @edit p v w' b hp hb hh hnodes =>
      subst hh
      by_cases hqp : q = p
      · subst hqp
        obtain rfl := Option.some.inj (set_temps_self.symm.trans hq)
        refine ⟨hkept.reaches hfits (hfits q v hp).way, b, ?_, hb⟩
        rw [hnodes, Function.update_self]
      · rw [set_temps_of_ne hqp] at hq
        have hne := hfits.place_ne hp hq hqp
        exact hkept.offers hfits hq (by rw [hnodes, Function.update_of_ne hne])
  | @drop p v hp hh hnodes =>
      subst hh
      by_cases hqp : q = p
      · subst hqp
        cases set_temps_self.symm.trans hq
      · rw [set_temps_of_ne hqp] at hq
        have hne := hfits.place_ne hp hq hqp
        exact hkept.offers hfits hq (by rw [hnodes, Function.update_of_ne hne])
  | @move p target v b hp hmay htarget hb hdir hh hnodes =>
      subst hh
      by_cases hqp : q = p
      · subst hqp
        cases move_temps_self.symm.trans hq
      · rw [move_temps_of_ne hqp] at hq
        have hne := hfits.place_ne hp hq hqp
        -- nothing is moved to the place of a fresh file
        have hne' := (hfits q w hq).way.isTemp.place_ne htarget
        refine hkept.offers hfits hq ?_
        rw [hnodes, Function.update_of_ne hne', Function.update_of_ne hne]

/-! ### Every action is a change -/

theorem Fits.contents (hfits : h.Fits S s) {b c : Bytes} (hp : h.temps p = some (some c))
    (hb : s.node? p.place = some (.file b)) : b = c := by
  obtain ⟨b', hb', hc⟩ := (hfits p _ hp).file
  obtain rfl : b = b' := by simpa using hb.symm.trans hb'
  exact hc c rfl

section

variable {r : Except Failure Unit} {post : Except Failure Unit → Bench → Prop}

theorem Fits.read {r : Except Failure Bytes} {post : Except Failure Bytes → Bench → Prop}
    (hfits : h.Fits S s) (hact : benchAct S may (.read p) post h)
    (hstep : s.Fares (fun a => ¬a.Removes) (.read p) r s') :
    ∃ h', post r h' ∧ Change S may h s h' s' := by
  obtain ⟨herr, hok⟩ := hact
  cases hstep with
  | works =>
      refine ⟨h, ?_, .still rfl rfl⟩
      simp only [Process.perform]
      cases hb : s.machine.files.readFile p with
      | error e => exact herr e
      | ok b => exact hok b fun c hc => hfits.contents hc (FileSystem.readFile_ok hb)
  | fails ha hr =>
      obtain ⟨e, -, rfl⟩ := hr
      exact ⟨h, herr e, .still rfl rfl⟩

theorem Change.makeDirectory (hact : benchAct S may (.makeDirectory p) post h)
    (hstep : s.Fares (fun a => ¬a.Removes) (.makeDirectory p) r s') :
    ∃ h', post r h' ∧ Change S may h s h' s' := by
  refine ⟨h, hact r, ?_⟩
  rcases hstep.makeDirectory with ⟨e, -, rfl⟩ | ⟨fs, hfs, -, rfl⟩
  · exact .still rfl rfl
  · obtain ⟨hnone, hnodes⟩ := FileSystem.makeDirectory_ok hfs
    exact .way hnone rfl hnodes

theorem Fits.createFresh {dir : Path} {stem : String} {r : Except Failure Path}
    {post : Except Failure Path → Bench → Prop} (hfits : h.Fits S s)
    (hact : benchAct S may (.createFresh dir stem) post h)
    (hstep : s.Fares (fun a => ¬a.Removes) (.createFresh dir stem) r s') :
    ∃ h', post r h' ∧ Change S may h s h' s' := by
  obtain ⟨⟨d, rfl⟩, hslash, hscratch, herr, hok⟩ := hact
  rcases hstep.createFresh with ⟨e, rfl, rfl⟩ | ⟨p, fs, hfs, rfl, hnodes, -, -⟩
  · exact ⟨h, herr e, .still rfl rfl⟩
  · obtain ⟨⟨n, rfl⟩, hlookup, hwrite⟩ := FileSystem.createFresh_ok hfs
    have hname := plain_temp hslash n
    have hopen := FileSystem.walkable_of_writeFile hname hwrite
    have hway : s.Reaches S _ := ⟨d, _, rfl, hname, hscratch n, hopen⟩
    have hnone : s.node? ((S.store.entryDir d).child (stem ++ FileSystem.freshTail n)).place =
        none := by
      rw [FileSystem.lookup_child hname hopen] at hlookup
      rw [Process.node?]
      split at hlookup
      · assumption
      · cases hlookup
    have hfree : h.temps ((S.store.entryDir d).child (stem ++ FileSystem.freshTail n)) = none := by
      cases ht : h.temps ((S.store.entryDir d).child (stem ++ FileSystem.freshTail n)) with
      | none => rfl
      | some v => exact absurd rfl (hfits.ne_of_none ht hnone)
    exact ⟨_, hok _ hway.isTemp hfree, .create hway hfree hnone rfl
      (hnodes.trans (FileSystem.writeFile_ok hwrite).2)⟩

theorem Fits.write {b : Bytes} (hfits : h.Fits S s) (hact : benchAct S may (.write p b) post h)
    (hstep : s.Fares (fun a => ¬a.Removes) (.write p b) r s') :
    ∃ h', post r h' ∧ Change S may h s h' s' := by
  obtain ⟨hp, hok, herr⟩ := hact
  obtain ⟨v, hp⟩ := Option.ne_none_iff_exists'.1 hp
  rcases hstep.write with ⟨e, rfl, rfl⟩ | ⟨b', fs, hfs, rfl, ⟨e, rfl⟩ | ⟨rfl, rfl⟩⟩
  · obtain ⟨c, hc, -⟩ := (hfits p v hp).file
    refine ⟨_, herr e, .edit hp (b := c) (by simp) rfl ?_⟩
    rw [← hc, Function.update_eq_self]
  · exact ⟨_, herr e, .edit hp (by simp) rfl (FileSystem.writeFile_ok hfs).2⟩
  · exact ⟨_, hok, .edit hp (fun c => Option.some.inj) rfl (FileSystem.writeFile_ok hfs).2⟩

theorem Fits.removeFile (hfits : h.Fits S s) (hact : benchAct S may (.removeFile p) post h)
    (hstep : s.Fares (fun a => ¬a.Removes) (.removeFile p) r s') :
    ∃ h', post r h' ∧ Change S may h s h' s' := by
  obtain ⟨hp, hpost⟩ := hact
  obtain ⟨v, hp⟩ := Option.ne_none_iff_exists'.1 hp
  refine ⟨_, hpost r, ?_⟩
  rcases hstep.removeFile with ⟨rfl, ha | ⟨e, he⟩⟩ | ⟨fs, hfs, rfl⟩
  · exact absurd trivial ha
  · -- what is at hand can be removed
    obtain ⟨d, name, rfl, hname, -, hopen⟩ := (hfits p v hp).way
    obtain ⟨b, hb, -⟩ := (hfits _ v hp).file
    obtain ⟨fs, hfs⟩ := FileSystem.removeFile_child hname hopen hb
    cases he.symm.trans hfs
  · obtain ⟨b, -, hnodes⟩ := FileSystem.removeFile_ok hfs
    exact .drop hp rfl hnodes

theorem Fits.move {q : Path} (hfits : h.Fits S s) (hact : benchAct S may (.move p q) post h)
    (hstep : s.Fares (fun a => ¬a.Removes) (.move p q) r s') :
    ∃ h', post r h' ∧ Change S may h s h' s' := by
  obtain ⟨⟨v, hp, hmay⟩, hq, herr, hok⟩ := hact
  rcases hstep.move with ⟨e, rfl, rfl⟩ | ⟨fs, hfs, rfl, rfl⟩
  · exact ⟨h, herr e, .still rfl rfl⟩
  · obtain ⟨b, hb, htarget, hnodes⟩ := FileSystem.moveFile_ok hfs
    refine ⟨_, hok, .move hp hmay hq (fun c hc => ?_) htarget rfl hnodes⟩
    exact hfits.contents (hc ▸ hp) hb

end

end Bench

/-- **Every action is such a change.** -/
theorem benching_change {S : Site} {may : Bench → Path → Option Bytes → Prop} {h : Bench}
    {s s' : Process} (a : Action) (post : a.Reply → Bench → Prop) {r : a.Reply}
    (hact : benchAct S may a post h) (hfits : h.Fits S s)
    (hstep : s.Fares (fun a => ¬a.Removes) a r s') :
    ∃ h', post r h' ∧ Bench.Change S may h s h' s' := by
  cases a with
  | look p =>
      refine ⟨h, hact r, .still rfl ?_⟩
      cases hstep <;> rfl
  | read p => exact hfits.read hact hstep
  | makeDirectory p => exact Bench.Change.makeDirectory hact hstep
  | createFresh dir stem => exact hfits.createFresh hact hstep
  | write p b => exact hfits.write hact hstep
  | removeFile p => exact hfits.removeFile hact hstep
  | move p q => exact hfits.move hact hstep
  | names p | removeDirectory p | now | sleep d | hold x | letGo x | held => exact hact.elim

end KernelCache
