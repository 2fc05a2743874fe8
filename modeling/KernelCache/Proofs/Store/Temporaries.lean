/-
**Fresh files are never left behind.**

A store is used in any order: artifacts are put, files are reserved, filled, published and given up.
Any of its steps may fail, except that what is to be removed can be removed.  After each use the
fresh files in the directories of entries are those that are still reserved, and no others, but for
those that were there before the store was used.

Main definitions:

* `StoreUse`, `StoreUse.program` — what a store is used for, and what is reserved afterwards;
* `StoreUse.History` — **uses of a store one after another**;
* `Bench.Tidy` — the fresh files in entries are those at hand.

Main results:

* `Bench.Change.tidy` — **every action keeps the entries tidy**;
* `bench_use` — what is reserved is what is at hand;
* `temporaries_exact` — **the fresh files are those that are reserved**.
-/

import KernelCache.Proofs.Locks.Listing
import KernelCache.Proofs.Store.Writing

set_option relaxedAutoImplicit false
set_option autoImplicit false

namespace KernelCache

/-! ### Uses of a store -/

/-- What a store is used for.  Files that are reserved are named by their paths. -/
inductive StoreUse where
  | put (d : Digest) (k : Artifact) (b : Bytes)
  | reserve (d : Digest) (k : Artifact)
  | fill (p : Path) (b : Bytes)
  | publish (d : Digest) (k : Artifact) (p : Path)
  | drop (p : Path)

namespace StoreUse

/-- What is done, and which files are reserved afterwards.  A file that was to be published is not
reserved any more, whatever has become of it. -/
def program (st : Store) (reserved : List Path) : StoreUse → FileProgram (List Path)
  | .put d k b => do
    let _ ← (st.put d k b).run
    return reserved
  | .reserve d k => do
    match ← (st.reserve d k).run with
    | .ok p => return p :: reserved
    | .error _ => return reserved
  | .fill p b => do
    let _ ← Ask.write p b
    return reserved
  | .publish d k p => do
    let _ ← (st.publish d k p).run
    return reserved.erase p
  | .drop p => do
    Store.discard p
    return reserved.erase p

/-- Only a file that is reserved can be filled, published or given up. -/
def Allowed (reserved : List Path) : StoreUse → Prop
  | .fill p _ | .publish _ _ p | .drop p => p ∈ reserved
  | .put .. | .reserve .. => True

/-- **Uses of a store one after another**, with the files that are reserved after them.  Any action
may fail except one that is to remove something. -/
inductive History (S : Site) (start : Process) : Process → List Path → Prop
  | start : History S start start []
  | use {s s' : Process} {reserved reserved' : List Path} {calls : List Action} (u : StoreUse)
      (h : History S start s reserved) (hu : u.Allowed reserved)
      (hrun : Program.Runs (Process.Fares fun a => ¬a.Removes) (u.program S.store reserved) s calls
        (.done reserved') s') : History S start s' reserved'

end StoreUse

/-! ### Tidy entries -/

/-- Whether a file stands at a place. -/
def Process.HasFile (s : Process) (x : Place) : Prop := ∃ b, s.node? x = some (.file b)

theorem Process.hasFile_update {s s' : Process} {x y : Place} {v : Option Node}
    (hnodes : s'.node? = Function.update s.node? x v) (hne : y ≠ x) :
    s'.HasFile y ↔ s.HasFile y := by
  rw [HasFile, HasFile, hnodes, Function.update_of_ne hne]

theorem Process.not_hasFile {s : Process} {x : Place} (hx : s.node? x = none) : ¬s.HasFile x := by
  rintro ⟨b, hb⟩
  cases hx.symm.trans hb

namespace Bench

/-- Whether one of the files at hand has a place. -/
def Has (h : Bench) (x : Place) : Prop := ∃ p v, h.temps p = some v ∧ p.place = x

/-- **The fresh files in entries are those at hand**, and those that were there at the start. -/
structure Tidy (S : Site) (start : Process) (h : Bench) (s : Process) : Prop where
  exact : ∀ d name, Site.IsScratch name → (s.HasFile (S.entryPlace d ++ [name]) ↔
    h.Has (S.entryPlace d ++ [name]) ∨ start.HasFile (S.entryPlace d ++ [name]))
  fresh : ∀ p v, h.temps p = some v → ¬start.HasFile p.place

variable {S : Site} {may : Bench → Path → Option Bytes → Prop} {h h' : Bench}
  {start s s' : Process} {p q : Path} {v w : Option Bytes} {x : Place}

theorem has_congr (htemps : h'.temps = h.temps) : h'.Has x ↔ h.Has x := by
  rw [Has, Has, htemps]

theorem has_set_some : (h.set p (some v)).Has x ↔ p.place = x ∨ h.Has x := by
  constructor
  · rintro ⟨q, w, hq, rfl⟩
    by_cases hqp : q = p
    · exact Or.inl (congrArg Path.place hqp.symm)
    · exact Or.inr ⟨q, w, (set_temps_of_ne hqp).symm.trans hq, rfl⟩
  · rintro (rfl | ⟨q, w, hq, rfl⟩)
    · exact ⟨p, v, set_temps_self, rfl⟩
    · by_cases hqp : q = p
      · subst hqp
        exact ⟨q, v, set_temps_self, rfl⟩
      · exact ⟨q, w, (set_temps_of_ne hqp).trans hq, rfl⟩

/-- The places of the other files at hand are different ones. -/
theorem has_set_none (hfits : h.Fits S s) (hp : h.temps p = some v) :
    (h.set p none).Has x ↔ x ≠ p.place ∧ h.Has x := by
  constructor
  · rintro ⟨q, w, hq, rfl⟩
    have hqp : q ≠ p := by
      rintro rfl
      cases set_temps_self.symm.trans hq
    rw [set_temps_of_ne hqp] at hq
    exact ⟨hfits.place_ne hp hq hqp, q, w, hq, rfl⟩
  · rintro ⟨hne, q, w, hq, rfl⟩
    have hqp : q ≠ p := by
      rintro rfl
      exact hne rfl
    exact ⟨q, w, (set_temps_of_ne hqp).trans hq, rfl⟩

/-- Where the same files are at hand and the same fresh files are there. -/
theorem Tidy.congr (htidy : h.Tidy S start s) (hhas : ∀ x, h'.Has x ↔ h.Has x)
    (hfiles : ∀ x, s'.HasFile x ↔ s.HasFile x) : h'.Tidy S start s' where
  exact := fun d name hname => by rw [hfiles, hhas, htidy.exact d name hname]
  fresh := by
    intro p v hp
    obtain ⟨q, w, hq, hplace⟩ := (hhas p.place).1 ⟨p, v, hp, rfl⟩
    exact hplace ▸ htidy.fresh q w hq

/-- A fresh file that was made is at hand. -/
theorem Tidy.create (htidy : h.Tidy S start s) (hp : S.IsTemp p) (hnone : s.node? p.place = none)
    (hfile : s'.HasFile p.place) (hother : ∀ x, x ≠ p.place → (s'.HasFile x ↔ s.HasFile x)) :
    (h.set p (some v)).Tidy S start s' where
  exact := by
    intro d name hname
    rw [has_set_some]
    by_cases hx : S.entryPlace d ++ [name] = p.place
    · simp [hx, hfile]
    · rw [hother _ hx, htidy.exact d name hname, or_iff_right (Ne.symm hx)]
  fresh := by
    intro q w hq
    by_cases hqp : q = p
    · -- what was there at the start is still there, and no place for a fresh file
      subst hqp
      obtain ⟨d, name, rfl, hname, hscratch⟩ := hp
      have hplace : ((S.store.entryDir d).child name).place =
          S.entryPlace d ++ [Utf8.encode name] := Path.place_child hname
      rw [hplace] at hnone ⊢
      exact fun hstart => Process.not_hasFile hnone
        ((htidy.exact d _ hscratch).2 (Or.inr hstart))
    · exact htidy.fresh q w ((set_temps_of_ne hqp).symm.trans hq)

/-- A fresh file that is gone is not at hand. -/
theorem Tidy.drop (htidy : h.Tidy S start s) (hfits : h.Fits S s) (hp : h.temps p = some v)
    (htemps : h'.temps = (h.set p none).temps) (hgone : ¬s'.HasFile p.place)
    (hother : ∀ d name, Site.IsScratch name → S.entryPlace d ++ [name] ≠ p.place →
      (s'.HasFile (S.entryPlace d ++ [name]) ↔ s.HasFile (S.entryPlace d ++ [name]))) :
    h'.Tidy S start s' where
  exact := by
    intro d name hname
    rw [has_congr htemps, has_set_none hfits hp]
    by_cases hx : S.entryPlace d ++ [name] = p.place
    · simp [hx, hgone, htidy.fresh p v hp]
    · rw [hother d name hname hx, htidy.exact d name hname, and_iff_right hx]
  fresh := by
    intro q w hq
    rw [htemps] at hq
    by_cases hqp : q = p
    · subst hqp
      cases set_temps_self.symm.trans hq
    · exact htidy.fresh q w ((set_temps_of_ne hqp).symm.trans hq)

/-- **Every action keeps the entries tidy.** -/
theorem Change.tidy (hchange : Change S may h s h' s') (hfits : h.Fits S s)
    (htidy : h.Tidy S start s) : h'.Tidy S start s' := by
  cases hchange with
  | still hh hnodes =>
      subst hh
      exact htidy.congr (fun x => Iff.rfl) fun x => by rw [Process.HasFile, hnodes]; rfl
  | @way x hnone hh hnodes =>
      subst hh
      refine htidy.congr (fun x => Iff.rfl) fun y => ?_
      by_cases hy : y = x
      · -- a directory is no file
        subst hy
        refine iff_of_false ?_ (Process.not_hasFile hnone)
        rintro ⟨b, hb⟩
        simp [hnodes] at hb
      · exact Process.hasFile_update hnodes hy
  | @create p hway hfree hnone hh hnodes =>
      subst hh
      exact htidy.create hway.isTemp hnone ⟨[], by rw [hnodes, Function.update_self]⟩
        fun x hx => Process.hasFile_update hnodes hx
  | @edit p v w b hp hb hh hnodes =>
      subst hh
      refine htidy.congr (fun x => ?_) fun y => ?_
      · rw [has_set_some]
        refine or_iff_right_of_imp ?_
        rintro rfl
        exact ⟨p, v, hp, rfl⟩
      · by_cases hy : y = p.place
        · subst hy
          obtain ⟨c, hc, -⟩ := (hfits p v hp).file
          exact iff_of_true ⟨b, by rw [hnodes, Function.update_self]⟩ ⟨c, hc⟩
        · exact Process.hasFile_update hnodes hy
  | @drop p v hp hh hnodes =>
      subst hh
      exact htidy.drop hfits hp rfl
        (Process.not_hasFile (by rw [hnodes, Function.update_self]))
        fun d name _ hx => Process.hasFile_update hnodes hx
  | @move p q v b hp hmay hq hb htarget hh hnodes =>
      subst hh
      have hpq := (hfits p v hp).way.isTemp.place_ne hq
      refine htidy.drop hfits hp rfl (Process.not_hasFile ?_) fun d name hname hx => ?_
      · rw [hnodes, Function.update_of_ne hpq, Function.update_self]
      · have hxq := hq.place_ne d hname
        rw [Process.HasFile, Process.HasFile, hnodes, Function.update_of_ne hxq,
          Function.update_of_ne hx]

/-- The files at hand are those of a list. -/
structure Lists (h : Bench) (l : List Path) : Prop where
  nodup : l.Nodup
  mem_iff : ∀ p, p ∈ l ↔ h.temps p ≠ none

end Bench

/-! ### Every use -/

section

variable {S : Site} {h h' : Bench} {p : Path} {l : List Path}

theorem Bench.Lists.congr (hl : h.Lists l) (htemps : h'.temps = h.temps) : h'.Lists l :=
  ⟨hl.nodup, fun p => by rw [htemps, hl.mem_iff]⟩

theorem Bench.Lists.cons (hl : h.Lists l) (hfree : h.temps p = none) (v : Option Bytes) :
    (h.set p (some v)).Lists (p :: l) where
  nodup := List.nodup_cons.2 ⟨fun hmem => (hl.mem_iff p).1 hmem hfree, hl.nodup⟩
  mem_iff := by
    intro q
    by_cases hqp : q = p
    · simp [hqp]
    · simp [hqp, hl.mem_iff, Bench.set_temps_of_ne hqp]

theorem Bench.Lists.erase (hl : h.Lists l) (htemps : h'.temps = (h.set p none).temps) :
    h'.Lists (l.erase p) where
  nodup := hl.nodup.erase p
  mem_iff := by
    intro q
    rw [htemps, hl.nodup.mem_erase_iff, hl.mem_iff]
    by_cases hqp : q = p
    · simp [hqp]
    · simp [hqp, Bench.set_temps_of_ne hqp]

/-- **What is reserved is what is at hand**, whether a use succeeds or fails. -/
theorem bench_use (u : StoreUse) (hl : h.Lists l) (hu : u.Allowed l) :
    Program.Obeys (benching S fun _ _ _ => True) (fun l' h' => h'.Lists l')
      (u.program S.store l) h := by
  cases u with
  | put d k b =>
      rw [StoreUse.program, Program.obeys_bind, Task.obeys_run]
      refine bench_put b (fun _ _ _ => trivial) (fun _ _ _ => trivial) (fun e h' htemps => ?_)
        fun h' htemps => ?_
      · exact Program.obeys_pure_of (hl.congr htemps)
      · exact Program.obeys_pure_of (hl.congr htemps)
  | reserve d k =>
      rw [StoreUse.program, Program.obeys_bind, Task.obeys_run]
      exact bench_reserve (fun e => Program.obeys_pure_of hl)
        fun p _ hfree => Program.obeys_pure_of (hl.cons hfree _)
  | fill p b =>
      have hp := (hl.mem_iff p).1 hu
      obtain ⟨v, hv⟩ := Option.ne_none_iff_exists'.1 hp
      have hfill (w : Option Bytes) : (h.set p (some w)).Lists l := by
        refine ⟨hl.nodup, fun q => ?_⟩
        by_cases hqp : q = p
        · simp [hqp, hl.mem_iff, hp]
        · rw [Bench.set_temps_of_ne hqp, hl.mem_iff]
      rw [StoreUse.program, Program.obeys_bind]
      exact bench_act (.write p b) ⟨hp, Program.obeys_pure_of (hfill _),
        fun e => Program.obeys_pure_of (hfill _)⟩
  | publish d k p =>
      obtain ⟨v, hv⟩ := Option.ne_none_iff_exists'.1 ((hl.mem_iff p).1 hu)
      rw [StoreUse.program, Program.obeys_bind, Task.obeys_run]
      refine bench_publish hv (fun _ _ _ _ _ => trivial) (fun _ _ _ => trivial)
        (fun e h' htemps => ?_) fun h' htemps => ?_
      · exact Program.obeys_pure_of (hl.erase htemps)
      · exact Program.obeys_pure_of (hl.erase htemps)
  | drop p =>
      rw [StoreUse.program, Program.obeys_bind]
      exact bench_discard ((hl.mem_iff p).1 hu) (Program.obeys_pure_of (hl.erase rfl))

/-- After every use the entries are tidy.  The induction is on the uses. -/
theorem StoreUse.History.tidy {start s : Process} (hhistory : StoreUse.History S start s l) :
    ∃ h : Bench, h.Lists l ∧ h.Fits S s ∧ h.Tidy S start s := by
  induction hhistory with
  | start =>
      refine ⟨.empty, ⟨List.nodup_nil, fun p => by simp [Bench.empty]⟩, ?_, ?_, ?_⟩
      · intro p v hp
        cases hp
      · intro d name _
        have hhas : ¬Bench.empty.Has (S.entryPlace d ++ [name]) := by
          rintro ⟨p, v, hp, -⟩
          cases hp
        rw [or_iff_right hhas]
      · intro p v hp
        cases hp
  | use u _ hu hrun ih =>
      obtain ⟨h, hl, hfits, htidy⟩ := ih
      obtain ⟨h', hl', hfits', htidy'⟩ := hrun.obeys
        (fun h s => h.Fits S s ∧ h.Tidy S start s)
        (fun a post h s r s' hact hfits hstep => by
          obtain ⟨h', hpost, hchange⟩ := benching_change a post hact hfits.1 hstep
          exact ⟨h', hpost, hchange.fits hfits.1, hchange.tidy hfits.1 hfits.2⟩)
        (bench_use u hl hu) ⟨hfits, htidy⟩
      rw [Program.obeys_done] at hl'
      exact ⟨h', hl', hfits', htidy'⟩

end

/-- **The fresh files in the directories of entries are those that are reserved**, and those that
were there before, whatever a store was used for and whatever has failed. -/
theorem temporaries_exact {S : Site} {start s : Process} {reserved : List Path}
    (hhistory : StoreUse.History S start s reserved) (d : Digest) {name : Bytes}
    (hname : Site.IsScratch name) :
    s.HasFile (S.entryPlace d ++ [name]) ↔
      (∃ p ∈ reserved, p.place = S.entryPlace d ++ [name]) ∨
        start.HasFile (S.entryPlace d ++ [name]) := by
  obtain ⟨h, hl, -, htidy⟩ := hhistory.tidy
  rw [htidy.exact d name hname]
  refine or_congr_left ⟨?_, ?_⟩
  · rintro ⟨p, v, hp, hplace⟩
    exact ⟨p, (hl.mem_iff p).2 (by simp [hp]), hplace⟩
  · rintro ⟨p, hmem, hplace⟩
    obtain ⟨v, hv⟩ := Option.ne_none_iff_exists'.1 ((hl.mem_iff p).1 hmem)
    exact ⟨p, v, hv, hplace⟩

/-! ### A file that stays reserved -/

namespace Workshop

/-- A process on a machine without files. -/
def start : Process := .fresh .empty

/-- What a use of the store comes to. -/
def outcome (u : StoreUse) (reserved : List Path) (s : Process) : Option (List Path) × Process :=
  Program.run Process.perform (u.program Site.here.store reserved) s

/-- A file that is reserved for a binary. -/
def temp : Path := (Site.here.store.entryDir .empty).child (".binary" ++ FileSystem.freshTail 0)

/-- The process after it has reserved the file. -/
def reserved : Process := (outcome (.reserve .empty .binary) [] start).2

/-- The process after it has put a source, too. -/
def stored : Process := (outcome (.put .empty .source [0x78]) [temp] reserved).2

theorem reserved_answer : (outcome (.reserve .empty .binary) [] start).1 = some [temp] := by
  decide +kernel

theorem stored_answer : (outcome (.put .empty .source [0x78]) [temp] reserved).1 = some [temp] := by
  decide +kernel

theorem history : StoreUse.History Site.here start stored [temp] := by
  obtain ⟨calls, hreserve⟩ := Program.Runs.of_run Process.Fares.works _ reserved_answer
  obtain ⟨calls', hput⟩ := Program.Runs.of_run Process.Fares.works _ stored_answer
  exact .use (.put .empty .source [0x78]) (.use (.reserve .empty .binary) .start trivial hreserve)
    trivial hput

end Workshop

/-- After a file is reserved and an artifact is put, the only fresh file is the one reserved. -/
theorem workshop_temporaries : StoreUse.History Site.here Workshop.start Workshop.stored
      [Workshop.temp] ∧
    ∀ name, Site.IsScratch name →
      (Workshop.stored.HasFile (Site.here.entryPlace .empty ++ [name]) ↔
        Workshop.temp.place = Site.here.entryPlace .empty ++ [name]) := by
  refine ⟨Workshop.history, fun name hname => ?_⟩
  rw [temporaries_exact Workshop.history .empty hname]
  have hstart (x : Place) : ¬Workshop.start.HasFile x := by
    rintro ⟨b, hb⟩
    rw [Process.node?, FileSystem.node?] at hb
    split at hb <;> cases hb
  simp [hstart]

end KernelCache
