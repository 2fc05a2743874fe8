/-
**What one process keeps in mind of a cache while things go wrong.**

A process has the cache for itself, but any operation may fail, and writing may fail halfway.  The
translator and the loader may fail, and the compiler may leave at its output what it likes.  Only
what is to be removed can be removed.  Whatever happens, the process knows which lock it holds, what
the files of the entries are, and whether an artifact could not be produced: this is its sketch of
the cache.

Main definitions:

* `Toolkit.Falters` — what may come of an action when things go wrong;
* `Sketch` — what is kept in mind;
* `sketching` — **the rule for what an action does to a sketch**.

Main results:

* `Shows.makeWay` — making the directories on the way shows nothing new;
* `sketching_fits` — **a sketch that fits the cache still does after every action**.
-/

import KernelCache.Proofs.Conduct.Cleanup
import KernelCache.Proofs.Files.Lineage
import KernelCache.Proofs.Solo.Transparency

set_option relaxedAutoImplicit false
set_option autoImplicit false

namespace KernelCache

/-! ### What may go wrong -/

/-- What may come of an action of a build with a toolkit: what it is meant to do, or a failure.  The
operations in `fails` may fail, and the translator, the compiler and the loader may, too. -/
inductive Toolkit.Falters (T : Toolkit) (i : Identity) (fails : Action → Prop) :
    (a : BuildAction) → Process → a.Reply → Process → Prop
  | works (a : BuildAction) (s : Process) :
      Falters T i fails a s (T.perform i a s).1 (T.perform i a s).2
  | file {a : Action} {s s' : Process} {r : a.Reply} (h : s.Fares fails a r s') :
      Falters T i fails (.file a) s r s'
  | translate (t : TranslationRequest) (s : Process) (e : TranslateError) :
      Falters T i fails (.translate t) s (.error e) s
  | compile {source output : Path} {s s' : Process} (h : s.Scribbles output s')
      (e : DeviceError) : Falters T i fails (.compile source output) s (.error e) s'
  | load (binary : Path) (l : Launch) (s : Process) (e : DeviceError) :
      Falters T i fails (.load binary l) s (.error e) s

/-- What may come of an action where everything can be removed that is to be removed. -/
abbrev Toolkit.Stumbles (T : Toolkit) (i : Identity) :
    (a : BuildAction) → Process → a.Reply → Process → Prop :=
  T.Falters i fun a => ¬a.Removes

/-! ### Sketches -/

/-- What a process keeps in mind: the lock that it holds, the files of the entries, and the artifact
that could not be produced. -/
structure Sketch where
  held : Option (Digest × Nat)
  files : Files
  lost : Option Artifact

namespace Sketch

/-- The sketch with a file of an entry changed. -/
def set (h : Sketch) (d : Digest) (name : String) (v : Option Bytes) : Sketch :=
  { h with files := h.files.set d name v }

/-- The sketch after an artifact could not be produced. -/
def lose (h : Sketch) (k : Artifact) : Sketch := { h with lost := some k }

/-- Whether a sketch is one of the cache. -/
def Fits (S : Site) (h : Sketch) (s : Process) : Prop := Shows S h.held h.files s.machine.files

variable {S : Site} {h : Sketch} {d : Digest} {name : String} {v w : Option Bytes}

@[simp] theorem set_files : (h.set d name v).files = h.files.set d name v := rfl

@[simp] theorem set_held : (h.set d name v).held = h.held := rfl

@[simp] theorem set_lost : (h.set d name v).lost = h.lost := rfl

@[simp] theorem lose_files (k : Artifact) : (h.lose k).files = h.files := rfl

@[simp] theorem lose_held (k : Artifact) : (h.lose k).held = h.held := rfl

@[simp] theorem set_set : (h.set d name v).set d name w = h.set d name w := by
  rw [set, set, set, Files.set_set]

theorem set_eq_self (hv : h.files d (Utf8.encode name) = v) : h.set d name v = h := by
  rw [set, Files.set_eq_self hv]

/-- Whether a look at a path can give an answer: files of entries are seen if they are there, and
the lock that a process has no part in is not. -/
structure Seen (S : Site) (h : Sketch) (p : Path) (r : Except Failure Node) : Prop where
  missing : ∀ d name, Plain (Utf8.encode name) → (S.store.entryDir d).child name = p →
    r = .error .notFound → h.files d (Utf8.encode name) = none
  there : ∀ d name n, Plain (Utf8.encode name) → (S.store.entryDir d).child name = p →
    r = .ok n → h.files d (Utf8.encode name) ≠ none
  free : h.held = none → ∀ d depth n, S.locks.path d depth = p → r ≠ .ok n

/-- Whether reading a path can give an answer. -/
structure Told (S : Site) (h : Sketch) (p : Path) (r : Except Failure Bytes) : Prop where
  missing : ∀ d name, Plain (Utf8.encode name) → (S.store.entryDir d).child name = p →
    r = .error .notFound → h.files d (Utf8.encode name) = none
  there : ∀ d name b, Plain (Utf8.encode name) → (S.store.entryDir d).child name = p →
    r = .ok b → h.files d (Utf8.encode name) = some b

/-- Whether a path is one on the way to an entry or to the locks. -/
def OnWay (S : Site) (p : Path) : Prop :=
  (∃ d, p ∈ (S.store.entryDir d).lineage) ∨ p ∈ S.locks.directory.lineage

end Sketch

/-- What a file operation does to a sketch, and what it asks of it: `post` holds of every answer
that may come of it, and of the sketch afterwards. -/
def sketchAct (S : Site) : (a : Action) → (a.Reply → Sketch → Prop) → Sketch → Prop
  | .look p, post, h => ∀ r, h.Seen S p r → post r h
  | .read p, post, h => ∀ r, h.Told S p r → post r h
  | .makeDirectory p, post, h => (Sketch.OnWay S p ∧ ∀ r, post r h) ∨
      ∃ d depth, S.locks.path d depth = p ∧ h.held = none ∧ (∀ e, post (.error e) h) ∧
        post (.ok ()) { h with held := some (d, depth) }
  | .removeDirectory p, post, h => ∃ d depth, S.locks.path d depth = p ∧
      h.held = some (d, depth) ∧ post (.ok ()) { h with held := none }
  | .createFresh dir stem, post, h => ∃ d, S.store.entryDir d = dir ∧ '/' ∉ stem.toList ∧
      (∀ e, post (.error e) h) ∧
      ∀ n, h.files d (Utf8.encode (stem ++ FileSystem.freshTail n)) = none →
        post (.ok (dir.child (stem ++ FileSystem.freshTail n)))
          (h.set d (stem ++ FileSystem.freshTail n) (some []))
  | .write p b, post, h => ∃ d name, (S.store.entryDir d).child name = p ∧
      Plain (Utf8.encode name) ∧ post (.ok ()) (h.set d name (some b)) ∧
      (∀ e, post (.error e) h) ∧ ∀ e b', post (.error e) (h.set d name (some b'))
  | .removeFile p, post, h => ∃ d name, (S.store.entryDir d).child name = p ∧
      Plain (Utf8.encode name) ∧ ∀ r, post r (h.set d name none)
  | .move p q, post, h => ∃ d name other b, (S.store.entryDir d).child name = p ∧
      (S.store.entryDir d).child other = q ∧ Plain (Utf8.encode name) ∧
      Plain (Utf8.encode other) ∧ h.files d (Utf8.encode name) = some b ∧
      (∀ e, post (.error e) h) ∧ post (.ok ()) ((h.set d name none).set d other (some b))
  | .now, post, h => ∀ t, post t h
  | .hold _, post, h => post () h
  | .letGo _, post, h => post () h
  | .names _, _, _ | .sleep _, _, _ | .held, _, _ => False

/-- **The rule for what an action of a build does to a sketch.**  Nothing is translated or compiled
after an artifact could not be produced. -/
def sketching (S : Site) (binary? : Identity → Path → Bytes → Option Bytes) (i : Identity) :
    Rule BuildAction BuildAction.Reply Sketch where
  act
    | .file a, post, h => sketchAct S a post h
    | .translate t, post, h => h.lost = none ∧ (∀ e, post (.error e) (h.lose .source)) ∧
        ∀ t', KernelCache.translate t = .ok t' → post (.ok t') h
    | .compile source output, post, h => h.lost = none ∧ ∃ d name text old,
        S.store.path d .source = source ∧ (S.store.entryDir d).child name = output ∧
        Plain (Utf8.encode name) ∧ h.files d (Utf8.encode S.sourceName) = some text ∧
        h.files d (Utf8.encode name) = some old ∧
        (∀ e v, post (.error e) ((h.set d name v).lose .binary)) ∧
        ∀ b, binary? i source text = some b → post (.ok ()) (h.set d name (some b))
    | .load _ _, post, h => ∀ r, post r h
  wait := fun _ => True

/-! ### What a cache shows -/

namespace Shows

variable {S : Site} {held : Option (Digest × Nat)} {f : Files} {fs fs' : FileSystem} {d : Digest}
  {name : String}

/-- **Making the directories on the way shows nothing new.** -/
theorem makeWay (h : Shows S held f fs) {p : Path} (hp : Sketch.OnWay S p)
    (hfs : fs.makeDirectory p = .ok fs') : Shows S held f fs' := by
  obtain ⟨hnone, hupdate⟩ := FileSystem.makeDirectory_ok hfs
  have hstart : ∀ q : Path, ¬p.place <+: FileSystem.startOf q := fun q hprefix => by
    have hbase := FileSystem.isBase_of_prefix_startOf hprefix
    cases hnone.symm.trans (FileSystem.node?_of_isBase hbase)
  have hroot : p.place ∉ S.root.visits := by
    intro hmem
    cases hnone.symm.trans (h.root _ hmem)
  have hplace : p.place = S.kernelsPlace ∨ (∃ d, p.place = S.entryPlace d) ∨
      p.place = S.locksPlace := by
    rcases hp with ⟨d, hp⟩ | hp
    · have hvisits := (Path.passed_of_mem_lineage hp).resolve_right (hstart _)
      rw [S.visits_entryDir, List.mem_append] at hvisits
      have hlast := hvisits.resolve_left hroot
      simp only [List.mem_cons, List.not_mem_nil, or_false] at hlast
      exact hlast.imp_right fun he => Or.inl ⟨d, he⟩
    · have hvisits := (Path.passed_of_mem_lineage hp).resolve_right (hstart _)
      rw [S.visits_locks, List.mem_append, List.mem_singleton] at hvisits
      exact Or.inr (Or.inr (hvisits.resolve_left hroot))
  rcases hplace with hk | ⟨d, he⟩ | hl
  · rw [hk, S.kernelsPlace_eq] at hupdate
    exact h.mkdir (Or.inl rfl) hupdate
  · rw [he, S.entryPlace_eq] at hupdate
    exact h.mkdir (Or.inr (Or.inl ⟨d, rfl⟩)) hupdate
  · rw [hl, S.locksPlace_eq] at hupdate
    exact h.mkdir (Or.inr (Or.inr rfl)) hupdate

/-- Writing a file of an entry. -/
theorem writeFile (h : Shows S held f fs) (hname : Plain (Utf8.encode name)) {b : Bytes}
    (hfs : fs.writeFile ((S.store.entryDir d).child name) b = .ok fs') :
    Shows S held (f.set d name (some b)) fs' :=
  h.set hname (FileSystem.walkable_of_writeFile hname hfs) (FileSystem.writeFile_ok hfs).2

/-- A lock that nobody holds is not seen. -/
theorem lookup_lock (h : Shows S none f fs) (d : Digest) (depth : Nat) (found : Place × Node) :
    fs.lookup (S.locks.path d depth) ≠ .ok found := by
  intro hfound
  have hw := FileSystem.walkable_of_lookup (plain_lockName d depth) hfound
  have hnode : fs.node? (S.lockPlace d depth) = none := by
    have hlock := h.lock d depth
    rwa [if_neg (by simp), Site.inside, ← S.lockPlace_eq] at hlock
  obtain ⟨n, hn⟩ : ∃ n, fs.node? (S.locks.path d depth).place = some n :=
    ⟨found.2, (FileSystem.lookup_ok (x := found.1) (n := found.2) hfound).2⟩
  cases hnode.symm.trans hn

end Shows

/-! ### From sketches to the machine -/

section

variable {S : Site} {h : Sketch} {s s' : Process}

theorem Sketch.seen_error (S : Site) (h : Sketch) (p : Path) {e : Failure} (he : e ≠ .notFound) :
    h.Seen S p (.error e) where
  missing := by
    intro d name hname hp heq
    exact absurd (Except.error.inj heq) he
  there := by
    intro d name n hname hp heq
    cases heq
  free := by
    intro hheld d depth n hp heq
    cases heq

theorem Sketch.told_error (S : Site) (h : Sketch) (p : Path) {e : Failure} (he : e ≠ .notFound) :
    h.Told S p (.error e) where
  missing := by
    intro d name hname hp heq
    exact absurd (Except.error.inj heq) he
  there := by
    intro d name b hname hp heq
    cases heq

/-- What a process sees. -/
theorem Sketch.Fits.seen (hfits : h.Fits S s) (p : Path) :
    h.Seen S p ((s.machine.files.lookup p).map (·.2)) where
  missing := by
    rintro d name hname rfl heq
    rw [Shows.lookup hfits hname] at heq
    cases hf : h.files d (Utf8.encode name) with
    | none => rfl
    | some b => simp [hf, Except.map] at heq
  there := by
    rintro d name n hname rfl heq hf
    rw [Shows.lookup hfits hname, hf] at heq
    cases heq
  free := by
    rintro hheld d depth n rfl heq
    have hshows : Shows S none h.files s.machine.files := hheld ▸ hfits
    cases hl : s.machine.files.lookup (S.locks.path d depth) with
    | error e => simp [hl, Except.map] at heq
    | ok found => exact hshows.lookup_lock d depth found hl

/-- What a process reads. -/
theorem Sketch.Fits.told (hfits : h.Fits S s) (p : Path) :
    h.Told S p (s.machine.files.readFile p) where
  missing := by
    rintro d name hname rfl heq
    rw [Shows.readFile hfits hname] at heq
    cases hf : h.files d (Utf8.encode name) with
    | none => rfl
    | some b => simp [hf] at heq
  there := by
    rintro d name b hname rfl heq
    rw [Shows.readFile hfits hname] at heq
    cases hf : h.files d (Utf8.encode name) with
    | none => simp [hf] at heq
    | some c => simpa [hf] using heq

/-- Whether an answer allows a sketch that fits the cache afterwards, with the same artifact
lost. -/
def Sketch.GoesOn (S : Site) (h : Sketch) {α : Type} (post : α → Sketch → Prop) (r : α)
    (s' : Process) : Prop :=
  ∃ h', post r h' ∧ h'.Fits S s' ∧ h'.lost = h.lost

namespace Sketch.Fits

section

variable {fails : Action → Prop} {p q : Path}

theorem looks {post : Except Failure Node → Sketch → Prop} {r : Except Failure Node}
    (hfits : h.Fits S s) (hact : ∀ r, h.Seen S p r → post r h)
    (hstep : s.Fares fails (.look p) r s') : h.GoesOn S post r s' := by
  cases hstep with
  | works => exact ⟨h, hact _ (hfits.seen p), hfits, rfl⟩
  | fails ha hr =>
      obtain ⟨e, he, rfl⟩ := hr
      exact ⟨h, hact _ (seen_error S h p he), hfits, rfl⟩

theorem reads {post : Except Failure Bytes → Sketch → Prop} {r : Except Failure Bytes}
    (hfits : h.Fits S s) (hact : ∀ r, h.Told S p r → post r h)
    (hstep : s.Fares fails (.read p) r s') : h.GoesOn S post r s' := by
  cases hstep with
  | works => exact ⟨h, hact _ (hfits.told p), hfits, rfl⟩
  | fails ha hr =>
      obtain ⟨e, he, rfl⟩ := hr
      exact ⟨h, hact _ (told_error S h p he), hfits, rfl⟩

variable {post : Except Failure Unit → Sketch → Prop} {r : Except Failure Unit}

theorem makesDirectory (hfits : h.Fits S s) (hact : sketchAct S (.makeDirectory p) post h)
    (hstep : s.Fares fails (.makeDirectory p) r s') : h.GoesOn S post r s' := by
  rcases hact with ⟨hway, hpost⟩ | ⟨d, depth, rfl, hheld, herror, hok⟩
  · rcases hstep.makeDirectory with ⟨e, rfl, rfl⟩ | ⟨fs, hfs, rfl, rfl⟩
    · exact ⟨h, hpost _, hfits, rfl⟩
    · exact ⟨h, hpost _, Shows.makeWay hfits hway hfs, rfl⟩
  · rcases hstep.makeDirectory with ⟨e, rfl, rfl⟩ | ⟨fs, hfs, rfl, rfl⟩
    · exact ⟨h, herror e, hfits, rfl⟩
    · have hshows : Shows S none h.files s.machine.files := hheld ▸ hfits
      have hw := FileSystem.walkable_of_makeDirectory (plain_lockName d depth) hfs
      exact ⟨_, hok, hshows.take (Site.walkable_locks_iff.1 hw).2
        (FileSystem.makeDirectory_ok hfs).2, rfl⟩

/-- A lock that is held can be given back. -/
theorem removesDirectory (hfits : h.Fits S s) (hact : sketchAct S (.removeDirectory p) post h)
    (hstep : s.Fares (fun a => ¬a.Removes) (.removeDirectory p) r s') :
    h.GoesOn S post r s' := by
  obtain ⟨d, depth, rfl, hheld, hok⟩ := hact
  cases hstep with
  | works =>
      have hshows : Shows S (some (d, depth)) h.files s.machine.files := hheld ▸ hfits
      obtain ⟨fs, hfs, hgone⟩ := hshows.removeDirectory
      simp only [Process.perform, hfs, Process.change]
      exact ⟨_, hok, hgone, rfl⟩
  | fails ha hr => exact absurd trivial ha

theorem createsFresh {dir : Path} {stem : String} {post : Except Failure Path → Sketch → Prop}
    {r : Except Failure Path} (hfits : h.Fits S s)
    (hact : sketchAct S (.createFresh dir stem) post h)
    (hstep : s.Fares fails (.createFresh dir stem) r s') : h.GoesOn S post r s' := by
  obtain ⟨d, rfl, hstem, herror, hok⟩ := hact
  cases hstep with
  | works =>
      cases hfs : s.machine.files.createFresh (S.store.entryDir d) stem s.machine.fresh with
      | error e =>
          simp only [Process.perform, hfs]
          exact ⟨h, herror e, hfits, rfl⟩
      | ok made =>
          obtain ⟨p, fs⟩ := made
          obtain ⟨⟨n, hp⟩, hlookup, hwrite⟩ := FileSystem.createFresh_ok hfs
          have hname := plain_temp hstem n
          rw [hp] at hlookup hwrite hfs
          simp only [Process.perform, hfs]
          refine ⟨_, hok n ?_, Shows.writeFile hfits hname hwrite, rfl⟩
          cases hf : h.files d (Utf8.encode (stem ++ FileSystem.freshTail n)) with
          | none => rfl
          | some b =>
              rw [Shows.lookup hfits hname, hf] at hlookup
              cases hlookup
  | fails ha hr =>
      obtain ⟨e, rfl⟩ := hr
      exact ⟨h, herror e, hfits, rfl⟩

theorem writes {b : Bytes} (hfits : h.Fits S s) (hact : sketchAct S (.write p b) post h)
    (hstep : s.Fares fails (.write p b) r s') : h.GoesOn S post r s' := by
  obtain ⟨d, name, rfl, hname, hok, herror, htorn⟩ := hact
  rcases hstep.write with ⟨e, rfl, rfl⟩ | ⟨b', fs, hfs, rfl, ⟨e, rfl⟩ | ⟨rfl, rfl⟩⟩
  · exact ⟨h, herror e, hfits, rfl⟩
  · exact ⟨_, htorn e b', Shows.writeFile hfits hname hfs, rfl⟩
  · exact ⟨_, hok, Shows.writeFile hfits hname hfs, rfl⟩

/-- A file that cannot be removed is not there. -/
theorem missing_of_removeFile {d : Digest} {name : String} {e : Failure} (hfits : h.Fits S s)
    (hname : Plain (Utf8.encode name))
    (he : s.machine.files.removeFile ((S.store.entryDir d).child name) = .error e) :
    h.files d (Utf8.encode name) = none := by
  cases hf : h.files d (Utf8.encode name) with
  | none => rfl
  | some b =>
      have hopen := Shows.isOpen hfits d _ (hf ▸ Option.some_ne_none b)
      have hnode := Shows.node_file (d := d) hfits hname
      rw [hf] at hnode
      obtain ⟨fs, hfs⟩ := FileSystem.removeFile_child hname hopen hnode
      cases he.symm.trans hfs

theorem removesFile (hfits : h.Fits S s) (hact : sketchAct S (.removeFile p) post h)
    (hstep : s.Fares (fun a => ¬a.Removes) (.removeFile p) r s') : h.GoesOn S post r s' := by
  obtain ⟨d, name, rfl, hname, hpost⟩ := hact
  refine ⟨_, hpost r, ?_, rfl⟩
  rcases hstep.removeFile with ⟨rfl, ha | ⟨e, he⟩⟩ | ⟨fs, hfs, rfl⟩
  · exact absurd trivial ha
  · rw [set_eq_self (missing_of_removeFile hfits hname he)]
    exact hfits
  · obtain ⟨b, hb, hupdate⟩ := FileSystem.removeFile_ok hfs
    have hthere : h.files d (Utf8.encode name) ≠ none := by
      intro hf
      rw [Shows.node_file hfits hname, hf] at hb
      cases hb
    exact Shows.set hfits hname (Shows.isOpen hfits d _ hthere) hupdate

theorem moves (hfits : h.Fits S s) (hact : sketchAct S (.move p q) post h)
    (hstep : s.Fares fails (.move p q) r s') : h.GoesOn S post r s' := by
  obtain ⟨d, name, other, b, rfl, rfl, hname, hother, hb, herror, hok⟩ := hact
  rcases hstep.move with ⟨e, rfl, rfl⟩ | ⟨fs, hfs, rfl, rfl⟩
  · exact ⟨h, herror e, hfits, rfl⟩
  · exact ⟨_, hok, Shows.move hfits hname hother hb hfs, rfl⟩

end

end Sketch.Fits

/-- **A sketch that fits the cache still does after every file operation.** -/
theorem sketchAct_fits (a : Action) (post : a.Reply → Sketch → Prop) {r : a.Reply}
    (hact : sketchAct S a post h) (hfits : h.Fits S s)
    (hstep : s.Fares (fun a => ¬a.Removes) a r s') : h.GoesOn S post r s' := by
  cases a with
  | look p => exact hfits.looks hact hstep
  | read p => exact hfits.reads hact hstep
  | makeDirectory p => exact hfits.makesDirectory hact hstep
  | removeDirectory p => exact hfits.removesDirectory hact hstep
  | createFresh dir stem => exact hfits.createsFresh hact hstep
  | write p b => exact hfits.writes hact hstep
  | removeFile p => exact hfits.removesFile hact hstep
  | move p q => exact hfits.moves hact hstep
  | now =>
      cases hstep with
      | works => exact ⟨h, hact _, hfits, rfl⟩
      | fails ha hr => exact hr.elim
  | hold lock =>
      cases hstep with
      | works => exact ⟨h, hact, hfits, rfl⟩
      | fails ha hr => exact hr.elim
  | letGo lock =>
      cases hstep with
      | works => exact ⟨h, hact, hfits, rfl⟩
      | fails ha hr => exact hr.elim
  | names p => exact hact.elim
  | sleep duration => exact hact.elim
  | held => exact hact.elim

/-- A compiler that was given a file of an entry has left a file of whatever contents there, or
none. -/
theorem Sketch.Fits.scribbled {d : Digest} {name : String} {old : Bytes} (hfits : h.Fits S s)
    (hname : Plain (Utf8.encode name)) (hold : h.files d (Utf8.encode name) = some old)
    (hscribbles : s.Scribbles ((S.store.entryDir d).child name) s') :
    ∃ v, (h.set d name v).Fits S s' := by
  have hopen := Shows.isOpen hfits d _ (hold ▸ Option.some_ne_none old)
  obtain ⟨v, hv⟩ : ∃ v : Option Bytes,
      s'.node? ((S.store.entryDir d).child name).place = v.map .file := by
    rcases hscribbles.nodes ((S.store.entryDir d).child name).place with hsame | ⟨-, -, hnot⟩
    · refine ⟨some old, hsame.trans ?_⟩
      have hnode := Shows.node_file (d := d) hfits hname
      rwa [hold] at hnode
    · cases hn : s'.node? ((S.store.entryDir d).child name).place with
      | none => exact ⟨none, rfl⟩
      | some n =>
          cases n with
          | directory => exact absurd hn hnot
          | file b => exact ⟨some b, rfl⟩
  refine ⟨v, Shows.set hfits hname hopen ?_⟩
  funext x
  by_cases hx : x = ((S.store.entryDir d).child name).place
  · rw [hx, Function.update_self]
    exact hv
  · rw [Function.update_of_ne hx]
    exact (hscribbles.nodes x).resolve_right fun hother => hx hother.1

/-- Compiling gives the binary, or fails with whatever left at the output. -/
theorem Sketch.Fits.compiles {T : Toolkit} {binary? : Identity → Path → Bytes → Option Bytes}
    (hT : T.Deterministic binary?) {i : Identity} {source output : Path}
    {post : Except DeviceError Unit → Sketch → Prop} {r : Except DeviceError Unit}
    (hfits : h.Fits S s) (hact : (sketching S binary? i).act (.compile source output) post h)
    (hstep : T.Stumbles i (.compile source output) s r s') :
    ∃ h', post r h' ∧ h'.Fits S s' := by
  obtain ⟨-, d, name, text, old, rfl, rfl, hname, htext, hold, herror, hok⟩ := hact
  cases hstep with
  | works =>
      have hopen := Shows.isOpen hfits d _ (hold ▸ Option.some_ne_none old)
      have hsource : s.machine.files.readFile (S.store.path d .source) = .ok text :=
        Shows.readFile_some hfits S.plain_sourceName htext
      have houtput := Shows.readFile_some hfits hname hold
      simp only [Toolkit.perform]
      cases hb : binary? i (S.store.path d .source) text with
      | some b =>
          obtain ⟨hanswer, hfiles⟩ := hT.compiles hsource houtput hb
          rw [hanswer]
          exact ⟨_, hok b hb, Shows.set hfits hname hopen hfiles⟩
      | none =>
          obtain ⟨⟨e, hanswer⟩, v, hfiles⟩ := hT.refuses hsource houtput hb
          rw [hanswer]
          exact ⟨_, herror e v, Shows.set hfits hname hopen hfiles⟩
  | compile hscribbles e =>
      obtain ⟨v, hv⟩ := hfits.scribbled hname hold hscribbles
      exact ⟨_, herror e v, hv⟩

/-- **A sketch that fits the cache still does after every action of a build**, and what could not be
produced stays so. -/
theorem sketching_fits {T : Toolkit} {binary? : Identity → Path → Bytes → Option Bytes}
    (hT : T.Deterministic binary?) {i : Identity} (a : BuildAction)
    (post : a.Reply → Sketch → Prop) {r : a.Reply}
    (hact : (sketching S binary? i).act a post h) (hfits : h.Fits S s)
    (hstep : T.Stumbles i a s r s') :
    ∃ h', post r h' ∧ h'.Fits S s' ∧ ∀ k, h.lost = some k → h'.lost = some k := by
  -- translator and compiler are called only while nothing is lost
  have hkept (hlost : h.lost = none) (h' : Sketch) (k : Artifact) (hk : h.lost = some k) :
      h'.lost = some k := by
    cases hlost.symm.trans hk
  cases a with
  | file a =>
      have hgoesOn : h.GoesOn S post r s' := by
        cases hstep with
        | works => exact sketchAct_fits a post hact hfits (.works a s)
        | file hfares => exact sketchAct_fits a post hact hfits hfares
      obtain ⟨h', hpost, hfits', hlost⟩ := hgoesOn
      exact ⟨h', hpost, hfits', fun k hk => hlost.trans hk⟩
  | translate t =>
      obtain ⟨hlost, herror, hok⟩ := hact
      cases hstep with
      | works =>
          simp only [Toolkit.perform]
          cases ht : translate t with
          | error e => exact ⟨_, herror e, hfits, hkept hlost _⟩
          | ok t' => exact ⟨h, hok t' ht, hfits, hkept hlost _⟩
      | translate t s e => exact ⟨_, herror e, hfits, hkept hlost _⟩
  | compile source output =>
      obtain ⟨h', hpost, hfits'⟩ := hfits.compiles hT hact hstep
      exact ⟨h', hpost, hfits', hkept hact.1 h'⟩
  | load binary l =>
      cases hstep with
      | works => exact ⟨h, hact _, hfits, fun _ hk => hk⟩
      | load => exact ⟨h, hact _, hfits, fun _ hk => hk⟩

end

end KernelCache
