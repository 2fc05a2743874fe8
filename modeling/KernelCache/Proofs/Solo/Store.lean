/-
**Store and locks in the hands of one process.**

A process that has the cache for itself gets what it asks for: what it looks for is found if it is
there, what it writes is there afterwards, and the locks are free.  For each operation of the store
and of the locks: what its state shows at the end, given what it shows at the start.

Main definitions:

* `soloNeeds` — what an action needs that is performed alone;
* `Files.stored` — the files with an artifact stored.

Main results:

* `solo_contains`, `solo_get`, `solo_verified_some` — reading entries;
* `solo_reserve`, `solo_publish`, `solo_put` — **writing entries**;
* `solo_acquire`, `solo_release` — locks.
-/

import KernelCache.Proofs.Files.Fresh
import KernelCache.Proofs.Program
import KernelCache.Proofs.Solo.State

set_option relaxedAutoImplicit false
set_option autoImplicit false

namespace KernelCache

/-- What a file action needs that a process performs alone. -/
abbrev soloNeeds : (a : Action) → (a.Reply → Process → Prop) → Process → Prop :=
  Program.Does Process.perform

section

variable {S : Site} {held : Option (Digest × Nat)} {f : Files} {s : Process} {d : Digest}
  {name other : String} {err : CacheError → Process → Prop}

theorem solo_act (a : Action) {post : a.Reply → Process → Prop}
    (h : post (s.perform a).1 (s.perform a).2) :
    Program.Needs False soloNeeds post (Program.act a) s := by
  rw [Program.needs_act]
  exact h

/-! ### Reading -/

theorem solo_contains (h : Shows S held f s.machine.files) (k : Artifact)
    {ok : Bool → Process → Prop}
    (hok : ok (f d (Utf8.encode (S.store.fileName k))).isSome s) :
    Task.Needs False soloNeeds ok err (S.store.contains d k) s := by
  rw [Store.contains, Task.needs_bind, Task.needs_lift]
  refine solo_act (.look (S.store.path d k)) ?_
  have hlookup := h.lookup (d := d) (S.plain_fileName k)
  simp only [Process.perform, Store.path, hlookup]
  cases hf : f d (Utf8.encode (S.store.fileName k)) with
  | none =>
      rw [hf] at hok
      exact Task.needs_pure_of hok
  | some b =>
      rw [hf] at hok
      exact Task.needs_pure_of hok

theorem solo_get (h : Shows S held f s.machine.files) (k : Artifact)
    {ok : Option Bytes → Process → Prop} (hok : ok (f d (Utf8.encode (S.store.fileName k))) s) :
    Task.Needs False soloNeeds ok err (S.store.get d k) s := by
  rw [Store.get, Task.needs_bind, Task.needs_lift]
  refine solo_act (.read (S.store.path d k)) ?_
  have hread := h.readFile (d := d) (S.plain_fileName k)
  simp only [Process.perform, Store.path, hread]
  cases hf : f d (Utf8.encode (S.store.fileName k)) with
  | none =>
      rw [hf] at hok
      exact Task.needs_pure_of hok
  | some b =>
      rw [hf] at hok
      exact Task.needs_pure_of hok

theorem solo_recordedChecksum (h : Shows S held f s.machine.files) {c : Checksum}
    (hc : f d (Utf8.encode "binary.xxh3") = some (Utf8.encode c.toText))
    {ok : String → Process → Prop} (hok : ok c.toText s) :
    Task.Needs False soloNeeds ok err (S.store.recordedChecksum d) s := by
  rw [Store.recordedChecksum, Task.needs_bind, Task.needs_lift]
  refine solo_act (.read (S.store.sidecar d)) ?_
  simp only [Process.perform, Store.sidecar, h.readFile_some Site.plain_sidecar hc,
    Utf8.decode?_encode, Checksum.trim_toText, String.ofList_toList]
  exact Task.needs_pure_of hok

theorem solo_verified_none (h : Shows S held f s.machine.files)
    (hnone : f d (Utf8.encode "binary") = none) {ok : Option Path → Process → Prop}
    (hok : ok none s) : Task.Needs False soloNeeds ok err (S.store.verified d) s := by
  rw [Store.verified, Task.needs_bind]
  refine solo_get h .binary ?_
  have hbinary : f d (Utf8.encode (S.store.fileName .binary)) = none := hnone
  rw [hbinary]
  exact Task.needs_pure_of hok

/-- A binary with its own checksum beside it passes the check. -/
theorem solo_verified_some (h : Shows S held f s.machine.files) {b : Bytes}
    (hb : f d (Utf8.encode "binary") = some b)
    (hc : f d (Utf8.encode "binary.xxh3") = some (Utf8.encode (Checksum.of b).toText))
    {ok : Option Path → Process → Prop} (hok : ok (some (S.store.path d .binary)) s) :
    Task.Needs False soloNeeds ok err (S.store.verified d) s := by
  rw [Store.verified, Task.needs_bind]
  refine solo_get h .binary ?_
  have hbinary : f d (Utf8.encode (S.store.fileName .binary)) = some b := hb
  rw [hbinary]
  simp only [Task.needs_bind]
  refine solo_recordedChecksum h hc ?_
  rw [if_pos rfl]
  exact Task.needs_pure_of hok

/-! ### Directories -/

/-- A directory that is there is no obstacle to being made. -/
theorem solo_unlessThere {p : Path} (hname : Plain (Utf8.encode name))
    (hw : s.machine.files.Walkable p)
    (hthere : s.machine.files.node? (p.child name).place = some .directory) {e : Failure}
    {post : Except Failure Unit → Process → Prop}
    (hmade : ∀ s' : Process, s'.machine.files.node? =
        Function.update s.machine.files.node? (p.child name).place (some .directory) →
      post (.ok ()) s') :
    Program.Needs False soloNeeds post (unlessThere (p.child name) e) s := by
  rw [unlessThere, isDirectory, Program.needs_bind, Program.needs_bind]
  refine solo_act (.look (p.child name)) ?_
  simp only [Process.perform, FileSystem.lookup_child hname hw, hthere, Except.map,
    Program.needs_pure, if_true]
  exact hmade s (by rw [← hthere, Function.update_eq_self])

/-- Making a directory in one that is there. -/
theorem solo_makeDirectory {p : Path} (hname : Plain (Utf8.encode name))
    (hw : s.machine.files.Walkable p)
    (hnode : ∀ b, s.machine.files.node? (p.child name).place ≠ some (.file b))
    {post : Except Failure Unit → Process → Prop}
    (hmade : ∀ s' : Process, s.machine.files.node? (p.child name).place = none →
      s'.machine.files.node? =
        Function.update s.machine.files.node? (p.child name).place (some .directory) →
      post (.ok ()) s')
    (hthere : s.machine.files.node? (p.child name).place = some .directory →
      post (.error .alreadyExists) s) :
    Program.Needs False soloNeeds post (Ask.makeDirectory (p.child name)) s := by
  refine solo_act (.makeDirectory (p.child name)) ?_
  cases hn : s.machine.files.node? (p.child name).place with
  | none =>
      obtain ⟨fs', hfs'⟩ := FileSystem.makeDirectory_child hname hw hn
      simp only [Process.perform, hfs', Process.change]
      exact hmade _ hn (FileSystem.makeDirectory_ok hfs').2
  | some n =>
      cases n with
      | file b => exact absurd hn (hnode b)
      | directory =>
          simp only [Process.perform, FileSystem.makeDirectory_there hname hw hn, Process.change]
          exact hthere hn

/-- A directory one name below a directory is there after it was made, whether it is new or not. -/
theorem solo_makeAll_child {p : Path} {up : List Path} (hname : Plain (Utf8.encode name))
    (hw : s.machine.files.Walkable p)
    (hnode : ∀ b, s.machine.files.node? (p.child name).place ≠ some (.file b))
    {post : Except Failure Unit → Process → Prop}
    (hmade : ∀ s' : Process, s'.machine.files.node? =
        Function.update s.machine.files.node? (p.child name).place (some .directory) →
      post (.ok ()) s') :
    Program.Needs False soloNeeds post (makeAll (p.child name :: up)) s := by
  have hbytes : (p.child name).bytes.isEmpty = false := by
    simpa using Path.bytes_child_ne_nil hname (p := p)
  rw [makeAll, hbytes, if_neg Bool.false_ne_true, Program.needs_bind]
  refine solo_makeDirectory hname hw hnode (fun s' _ hs' => ?_) fun hthere => ?_
  · exact Program.needs_pure_of (hmade s' hs')
  · exact solo_unlessThere hname hw hthere hmade

/-- A directory two names below a directory is there after it was made, and so is the one between
them, which was missing. -/
theorem solo_makeAll_grandchild {p : Path} {up : List Path} {other : String}
    (hname : Plain (Utf8.encode name)) (hother : Plain (Utf8.encode other))
    (hw : s.machine.files.Walkable p) (hnone : s.machine.files.node? (p.child name).place = none)
    (hnode : ∀ b, s.machine.files.node? ((p.child name).child other).place ≠ some (.file b))
    {post : Except Failure Unit → Process → Prop}
    (hmade : ∀ s₁ s₂ : Process, s₁.machine.files.node? =
        Function.update s.machine.files.node? (p.child name).place (some .directory) →
      s₂.machine.files.node? = Function.update s₁.machine.files.node?
        ((p.child name).child other).place (some .directory) →
      post (.ok ()) s₂) :
    Program.Needs False soloNeeds post
      (makeAll ((p.child name).child other :: p.child name :: up)) s := by
  have hmissing := FileSystem.makeDirectory_missing hother
    (FileSystem.walk_child_missing hname hw hnone)
  have hbytes : ((p.child name).child other).bytes.isEmpty = false := by
    simpa using Path.bytes_child_ne_nil hother (p := p.child name)
  rw [makeAll, hbytes, if_neg Bool.false_ne_true, Program.needs_bind]
  -- the first attempt finds no parent
  refine solo_act (.makeDirectory _) ?_
  simp only [Process.perform, hmissing, Process.change, Program.needs_bind]
  refine solo_makeAll_child hname hw (fun b hb => ?_) fun s₁ h₁ => ?_
  · cases hnone.symm.trans hb
  -- the second one finds the parent that was made
  · have hwalk : s₁.machine.files.Walkable (p.child name) := by
      refine (FileSystem.walkable_child_iff hname).2 ⟨fun x hx => ?_, ?_⟩
      · rw [h₁, Function.update_of_ne, hw x hx]
        intro heq
        cases hnone.symm.trans (heq ▸ hw x hx)
      · rw [h₁, Function.update_self]
    have hnode₁ : ∀ b, s₁.machine.files.node? ((p.child name).child other).place ≠
        some (.file b) := by
      intro b hb
      rw [h₁] at hb
      by_cases heq : ((p.child name).child other).place = (p.child name).place
      · rw [heq, Function.update_self] at hb
        cases hb
      · rw [Function.update_of_ne heq] at hb
        exact hnode b hb
    simp only [Program.needs_bind]
    refine solo_makeDirectory hother hwalk hnode₁ (fun s₂ _ h₂ => ?_) fun hthere => ?_
    · exact Program.needs_pure_of (hmade s₁ s₂ h₁ h₂)
    · exact solo_unlessThere hother hwalk hthere fun s₂ => hmade s₁ s₂ h₁

/-- What a state shows when the directory of an entry was made. -/
theorem Shows.makeEntry {fs fs' : FileSystem} (h : Shows S held f fs)
    (hk : S.inside fs [Utf8.encode "kernels"] = some .directory)
    (hfs : fs'.node? = Function.update fs.node? (S.entryPlace d) (some .directory)) :
    Shows S held f fs' ∧ fs'.Walkable (S.store.entryDir d) := by
  rw [S.entryPlace_eq] at hfs
  have hshows := h.mkdir (Or.inr (Or.inl ⟨d, rfl⟩)) hfs
  refine ⟨hshows, Site.walkable_entryDir_iff.2 ⟨hshows.root, ?_, ?_⟩⟩
  · rw [Site.inside_update hfs, if_neg (by simp), hk]
  · rw [Site.inside_update hfs, if_pos rfl]

theorem solo_ensureEntryDir (h : Shows S held f s.machine.files) {ok : Path → Process → Prop}
    (hok : ∀ s' : Process, Shows S held f s'.machine.files →
      s'.machine.files.Walkable (S.store.entryDir d) → ok (S.store.entryDir d) s') :
    Task.Needs False soloNeeds ok err (S.store.ensureEntryDir d) s := by
  have hkernelsPlace : (S.root.child "kernels").place = S.root.place ++ [Utf8.encode "kernels"] :=
    S.kernelsPlace_eq
  have hnode : ∀ b, s.machine.files.node? ((S.root.child "kernels").child d.toText).place ≠
      some (.file b) := by
    have hentryPlace : ((S.root.child "kernels").child d.toText).place =
        S.root.place ++ [Utf8.encode "kernels", Utf8.encode d.toText] := S.entryPlace_eq d
    rw [hentryPlace]
    exact h.entry d
  obtain ⟨up, hup⟩ :=
    Path.lineage_child_child (q := S.root) Site.plain_kernels (plain_toText d)
  have hlineage : (S.store.entryDir d).lineage =
      (S.root.child "kernels").child d.toText :: S.root.child "kernels" :: up := hup
  rw [Store.ensureEntryDir, Task.needs_bind, needs_attempt, makeDirectories, hlineage]
  cases hk : S.inside s.machine.files [Utf8.encode "kernels"] with
  | none =>
      refine solo_makeAll_grandchild Site.plain_kernels (plain_toText d) h.root
        (hkernelsPlace ▸ hk) hnode fun s₁ s₂ h₁ h₂ => Task.needs_pure_of ?_
      rw [hkernelsPlace] at h₁
      obtain ⟨hshows, hopen⟩ := (h.mkdir (Or.inl rfl) h₁).makeEntry
        (by rw [Site.inside_update h₁, if_pos rfl]) h₂
      exact hok s₂ hshows hopen
  | some n =>
      cases n with
      | file b => exact absurd hk (h.kernels b)
      | directory =>
          have hw : s.machine.files.Walkable (S.root.child "kernels") :=
            (FileSystem.walkable_child_iff Site.plain_kernels).2
              ⟨h.root, hkernelsPlace ▸ hk⟩
          refine solo_makeAll_child (plain_toText d) hw hnode fun s₁ h₁ => Task.needs_pure_of ?_
          obtain ⟨hshows, hopen⟩ := h.makeEntry hk h₁
          exact hok s₁ hshows hopen

/-! ### Files -/

/-- A fresh file has a name that was free, if there is one. -/
theorem solo_createFresh (h : Shows S held f s.machine.files)
    (hopen : s.machine.files.Walkable (S.store.entryDir d)) {stem : String}
    (hstem : '/' ∉ stem.toList)
    (hfree : ∃ n, f d (Utf8.encode (stem ++ FileSystem.freshTail n)) = none)
    {ok : Path → Process → Prop}
    (hok : ∀ n (s' : Process), f d (Utf8.encode (stem ++ FileSystem.freshTail n)) = none →
      Shows S held (f.set d (stem ++ FileSystem.freshTail n) (some [])) s'.machine.files →
      ok ((S.store.entryDir d).child (stem ++ FileSystem.freshTail n)) s') :
    Task.Needs False soloNeeds ok err (Store.createFresh (S.store.entryDir d) stem) s := by
  have hnode (n : Nat) := h.node_file (d := d) (plain_temp hstem n)
  obtain ⟨k, hk⟩ := hfree
  obtain ⟨n, fs', hnone, hfs'⟩ := FileSystem.createFresh_of_free (plain_temp hstem) hopen
    ⟨k, by rw [hnode, hk]; rfl⟩ s.machine.fresh
  rw [Store.createFresh, needs_attempt]
  refine solo_act (.createFresh _ _) ?_
  simp only [Process.perform, hfs']
  obtain ⟨-, -, hwrite⟩ := FileSystem.createFresh_ok hfs'
  rw [hnode, Option.map_eq_none_iff] at hnone
  exact hok n _ hnone (h.set (plain_temp hstem n) hopen (FileSystem.writeFile_ok hwrite).2)

theorem solo_write (h : Shows S held f s.machine.files) (hname : Plain (Utf8.encode name))
    {old : Bytes} (hold : f d (Utf8.encode name) = some old) (contents : Bytes)
    {post : Except Failure Unit → Process → Prop}
    (hpost : ∀ s' : Process, Shows S held (f.set d name (some contents)) s'.machine.files →
      post (.ok ()) s') :
    Program.Needs False soloNeeds post
      (Ask.write ((S.store.entryDir d).child name) contents) s := by
  have hopen := h.isOpen d _ (hold ▸ Option.some_ne_none old)
  have hnode := h.node_file (d := d) hname
  rw [hold] at hnode
  obtain ⟨fs', hfs'⟩ := FileSystem.writeFile_child hname hopen (by rw [hnode]; simp) contents
  refine solo_act (.write _ _) ?_
  simp only [Process.perform, hfs', Process.change]
  exact hpost _ (h.set hname hopen (FileSystem.writeFile_ok hfs').2)

theorem solo_read (h : Shows S held f s.machine.files) (hname : Plain (Utf8.encode name))
    {b : Bytes} (hb : f d (Utf8.encode name) = some b)
    {post : Except Failure Bytes → Process → Prop}
    (hpost : post (.ok b) s) :
    Program.Needs False soloNeeds post (Ask.read ((S.store.entryDir d).child name)) s := by
  refine solo_act (.read _) ?_
  simp only [Process.perform, h.readFile_some hname hb]
  exact hpost

/-- A fresh file that is given up is gone, and it does no harm if it was gone before. -/
theorem solo_discard (h : Shows S held f s.machine.files) (hname : Plain (Utf8.encode name))
    {post : Unit → Process → Prop}
    (hpost : ∀ s' : Process, Shows S held (f.set d name none) s'.machine.files → post () s') :
    Program.Needs False soloNeeds post (Store.discard ((S.store.entryDir d).child name)) s := by
  rw [Store.discard, Program.needs_bind]
  refine solo_act (.removeFile _) (Program.needs_pure_of (hpost _ ?_))
  cases hf : f d (Utf8.encode name) with
  | none =>
      have hmissing : s.machine.files.removeFile ((S.store.entryDir d).child name) =
          .error .notFound := by
        rw [FileSystem.removeFile, h.lookup hname, hf]
        rfl
      simp only [Process.perform, hmissing, Process.change]
      rwa [Files.set_eq_self hf]
  | some old =>
      have hopen := h.isOpen d _ (hf ▸ Option.some_ne_none old)
      have hnode := h.node_file (d := d) hname
      rw [hf] at hnode
      obtain ⟨fs', hfs'⟩ := FileSystem.removeFile_child hname hopen hnode
      obtain ⟨-, -, hupdate⟩ := FileSystem.removeFile_ok hfs'
      simp only [Process.perform, hfs', Process.change]
      exact h.set hname hopen hupdate

/-- A file that is moved leaves its old place and is at its new one. -/
theorem solo_settle (h : Shows S held f s.machine.files) (hname : Plain (Utf8.encode name))
    (hother : Plain (Utf8.encode other)) {b : Bytes} (hb : f d (Utf8.encode name) = some b)
    {ok : Unit → Process → Prop}
    (hok : ∀ s' : Process,
      Shows S held ((f.set d name none).set d other (some b)) s'.machine.files → ok () s') :
    Task.Needs False soloNeeds ok err
      (Store.settle ((S.store.entryDir d).child name) ((S.store.entryDir d).child other)) s := by
  have hopen := h.isOpen d _ (hb ▸ Option.some_ne_none b)
  have hnode := h.node_file (d := d) hname
  rw [hb] at hnode
  have htarget : s.machine.files.node? ((S.store.entryDir d).child other).place ≠
      some .directory := by
    rw [h.node_file hother]
    cases f d (Utf8.encode other) <;> simp
  obtain ⟨fs', hfs'⟩ := FileSystem.moveFile_child hname hother hopen hopen hnode htarget
  rw [Store.settle, Task.needs_onFailure, needs_attempt]
  refine solo_act (.move _ _) ?_
  simp only [Process.perform, hfs', Process.change]
  exact hok _ (h.move hname hother hb hfs')

theorem solo_writeFresh (h : Shows S held f s.machine.files)
    (hopen : s.machine.files.Walkable (S.store.entryDir d)) {stem : String}
    (hstem : '/' ∉ stem.toList)
    (hfree : ∃ n, f d (Utf8.encode (stem ++ FileSystem.freshTail n)) = none) (bytes : Bytes)
    {ok : Path → Process → Prop}
    (hok : ∀ (n : Nat) (s' : Process), f d (Utf8.encode (stem ++ FileSystem.freshTail n)) = none →
      Shows S held (f.set d (stem ++ FileSystem.freshTail n) (some bytes)) s'.machine.files →
      ok ((S.store.entryDir d).child (stem ++ FileSystem.freshTail n)) s') :
    Task.Needs False soloNeeds ok err (Store.writeFresh (S.store.entryDir d) stem bytes) s := by
  rw [Store.writeFresh, Task.needs_bind]
  refine solo_createFresh h hopen hstem hfree fun n s₁ hnone h₁ => ?_
  rw [Task.needs_bind, Task.needs_onFailure, needs_attempt]
  refine solo_write h₁ (plain_temp hstem _) Files.set_self bytes fun s₂ h₂ => ?_
  rw [Files.set_set] at h₂
  exact Task.needs_pure_of (hok n s₂ hnone h₂)

/-! ### Writing entries -/

/-- The files with an artifact stored; a binary is stored with its checksum. -/
def Files.stored (f : Files) (S : Site) (d : Digest) (b : Bytes) : Artifact → Files
  | .binary => (f.set d "binary.xxh3" (some (Utf8.encode (Checksum.of b).toText))).set d "binary"
      (some b)
  | .source => f.set d S.sourceName (some b)
  | .manifest => f.set d "manifest.json" (some b)

theorem solo_reserve (h : Shows S held f s.machine.files) (k : Artifact)
    (hfree : ∃ n, f d (Utf8.encode (Store.stem k ++ FileSystem.freshTail n)) = none)
    {ok : Path → Process → Prop}
    (hok : ∀ n (s' : Process),
      f d (Utf8.encode (Store.stem k ++ FileSystem.freshTail n)) = none →
      Shows S held (f.set d (Store.stem k ++ FileSystem.freshTail n) (some [])) s'.machine.files →
      ok ((S.store.entryDir d).child (Store.stem k ++ FileSystem.freshTail n)) s') :
    Task.Needs False soloNeeds ok err (S.store.reserve d k) s := by
  have hstem : '/' ∉ (Store.stem k).toList := by cases k <;> decide
  rw [Store.reserve, Task.needs_bind]
  refine solo_ensureEntryDir h fun s₁ h₁ hopen => ?_
  exact solo_createFresh h₁ hopen hstem hfree hok

theorem solo_recordChecksum (h : Shows S held f s.machine.files)
    (hname : Plain (Utf8.encode name)) {b : Bytes} (hb : f d (Utf8.encode name) = some b)
    (hfree : ∀ n, f d (Utf8.encode (".checksum" ++ FileSystem.freshTail n)) = none)
    {ok : Unit → Process → Prop}
    (hok : ∀ s' : Process,
      Shows S held (f.set d "binary.xxh3" (some (Utf8.encode (Checksum.of b).toText)))
        s'.machine.files →
      ok () s') :
    Task.Needs False soloNeeds ok err
      (S.store.recordChecksum d ((S.store.entryDir d).child name)) s := by
  rw [Store.recordChecksum, Task.needs_bind, needs_attempt]
  refine solo_read h hname hb ?_
  rw [Task.Outcome, Task.needs_bind]
  refine solo_ensureEntryDir h fun s₁ h₁ hopen => ?_
  rw [Task.needs_bind]
  refine solo_writeFresh h₁ hopen (by decide) ⟨0, hfree 0⟩ _ fun n s₂ _ h₂ => ?_
  refine solo_settle h₂ (plain_temp (by decide) n) Site.plain_sidecar Files.set_self
    fun s₃ h₃ => ?_
  rw [Files.set_set, Files.set_eq_self (hfree n)] at h₃
  exact hok s₃ h₃

/-- A fresh file that is published as a binary is there with its checksum, and the fresh file is
gone. -/
theorem solo_publish_binary (h : Shows S held f s.machine.files)
    (hname : Plain (Utf8.encode name)) (hside : name ≠ "binary.xxh3") {b : Bytes}
    (hb : f d (Utf8.encode name) = some b)
    (hfree : ∀ n, f d (Utf8.encode (".checksum" ++ FileSystem.freshTail n)) = none)
    {ok : Path → Process → Prop}
    (hok : ∀ s' : Process,
      Shows S held (((f.set d "binary.xxh3" (some (Utf8.encode (Checksum.of b).toText))).set d name
        none).set d "binary" (some b)) s'.machine.files →
      ok (S.store.path d .binary) s') :
    Task.Needs False soloNeeds ok err
      (S.store.publish d .binary ((S.store.entryDir d).child name)) s := by
  rw [Store.publish, if_pos rfl, Task.needs_bind, Task.needs_onFailure]
  refine solo_recordChecksum h hname hb hfree fun s₁ h₁ => ?_
  rw [Task.needs_bind]
  have hb₁ : (f.set d "binary.xxh3" (some (Utf8.encode (Checksum.of b).toText))) d
      (Utf8.encode name) = some b := by rw [Files.set_of_name_ne hside, hb]
  refine solo_settle h₁ hname Site.plain_binary hb₁ fun s₂ h₂ => ?_
  exact Task.needs_pure_of (hok s₂ h₂)

/-- A fresh file that is published is there as an artifact, and the fresh file is gone. -/
theorem solo_publish (h : Shows S held f s.machine.files) (k : Artifact)
    (hname : Plain (Utf8.encode name)) (hscratch : Site.IsScratch (Utf8.encode name)) {b : Bytes}
    (hb : f d (Utf8.encode name) = some b)
    (hfree : ∀ n, f d (Utf8.encode (".checksum" ++ FileSystem.freshTail n)) = none)
    {ok : Path → Process → Prop}
    (hok : ∀ s' : Process,
      Shows S held ((f.set d name none).stored S d b k) s'.machine.files →
        ok (S.store.path d k) s') :
    Task.Needs False soloNeeds ok err
      (S.store.publish d k ((S.store.entryDir d).child name)) s := by
  have hplain (hk : k ≠ .binary) (hshown : ∀ s' : Process, Shows S held
      ((f.set d name none).set d (S.store.fileName k) (some b)) s'.machine.files →
        ok (S.store.path d k) s') : Task.Needs False soloNeeds ok err
          (S.store.publish d k ((S.store.entryDir d).child name)) s := by
    rw [Store.publish, if_neg hk]
    dsimp only
    rw [Task.needs_bind]
    refine solo_settle h hname (S.plain_fileName k) hb fun s₁ h₁ => ?_
    exact Task.needs_pure_of (hshown s₁ h₁)
  cases k with
  | source => exact hplain (by decide) hok
  | manifest => exact hplain (by decide) hok
  | binary =>
      have hside : name ≠ "binary.xxh3" := by
        intro heq
        exact Site.not_isScratch_sidecar (heq ▸ hscratch)
      refine solo_publish_binary h hname hside hb hfree fun s₁ h₁ => hok s₁ ?_
      rwa [Files.set_comm hside.symm] at h₁

/-- An artifact that is put is there, and nothing else has changed. -/
theorem solo_put (h : Shows S held f s.machine.files) (k : Artifact)
    (hfree : ∀ n, f d (Utf8.encode (".put" ++ FileSystem.freshTail n)) = none)
    (hside : ∀ n, f d (Utf8.encode (".checksum" ++ FileSystem.freshTail n)) = none)
    (bytes : Bytes) {ok : Path → Process → Prop}
    (hok : ∀ s' : Process, Shows S held (f.stored S d bytes k) s'.machine.files →
      ok (S.store.path d k) s') :
    Task.Needs False soloNeeds ok err (S.store.put d k bytes) s := by
  rw [Store.put, Task.needs_bind]
  refine solo_ensureEntryDir h fun s₁ h₁ hopen => ?_
  rw [Task.needs_bind]
  refine solo_writeFresh h₁ hopen (by decide) ⟨0, hfree 0⟩ bytes fun n s₂ _ h₂ => ?_
  refine solo_publish h₂ k (Site.scratch_put n).plain (Site.scratch_put n).isScratch Files.set_self
    (fun l => ?_) fun s₃ h₃ => hok s₃ ?_
  · refine (Files.set_of_ne fun heq => ?_).trans (hside l)
    exact not_isFresh (by decide) (by decide) (by decide) ⟨n, heq⟩
  · rwa [Files.set_set, Files.set_eq_self (hfree n)] at h₃

/-! ### Locks -/

theorem solo_acquire (h : Shows S none f s.machine.files) {depth : Nat}
    (hdepth : depth ≤ maxLockDepth) {ok : Bool → Process → Prop}
    (hok : ∀ s' : Process, Shows S (some (d, depth)) f s'.machine.files → ok true s') :
    Task.Needs False soloNeeds ok err (S.locks.acquire d depth) s := by
  have hlocksPlace : (S.root.child "locks").place = S.root.place ++ [Utf8.encode "locks"] :=
    S.locksPlace_eq
  have hlineage : ∃ up, S.locks.directory.lineage = S.root.child "locks" :: up := ⟨_, rfl⟩
  obtain ⟨up, hup⟩ := hlineage
  rw [LockTable.acquire, LockTable.checkDepth, if_pos hdepth, Task.needs_bind]
  refine Task.needs_pure_of ?_
  rw [Task.needs_bind, needs_attempt, makeDirectories, hup]
  refine solo_makeAll_child Site.plain_locks h.root ?_ fun s₁ hs₁ => ?_
  · rw [hlocksPlace]
    exact h.locks
  · rw [hlocksPlace] at hs₁
    have h₁ := h.mkdir (Or.inr (Or.inr rfl)) hs₁
    have hopen : S.inside s₁.machine.files [Utf8.encode "locks"] = some .directory := by
      rw [Site.inside_update hs₁, if_pos rfl]
    have hw := Site.walkable_locks_iff.2 ⟨h₁.root, hopen⟩
    have hfree : s₁.machine.files.node? (S.locks.path d depth).place = none := by
      have hlock := h₁.lock d depth
      rwa [if_neg (by simp), Site.inside, ← S.lockPlace_eq] at hlock
    rw [Task.Outcome, Task.needs_bind, Task.needs_lift]
    refine solo_makeDirectory (plain_lockName d depth) hw ?_ (fun s₂ _ hs₂ => ?_) fun hthere => ?_
    · intro b hb
      cases hfree.symm.trans hb
    · rw [Task.needs_bind, Task.needs_lift]
      exact solo_act (.hold _) (Task.needs_pure_of (hok _ (h₁.take hopen hs₂)))
    · cases hfree.symm.trans hthere

theorem solo_release {depth : Nat} (h : Shows S (some (d, depth)) f s.machine.files)
    (hdepth : depth ≤ maxLockDepth) {ok : Unit → Process → Prop}
    (hok : ∀ s' : Process, Shows S none f s'.machine.files → ok () s') :
    Task.Needs False soloNeeds ok err (S.locks.release d depth) s := by
  obtain ⟨fs', hfs', hshows⟩ := h.removeDirectory
  rw [LockTable.release, LockTable.checkDepth, if_pos hdepth, Task.needs_bind]
  refine Task.needs_pure_of ?_
  rw [LockTable.releasePath, Task.needs_bind, Task.needs_lift]
  refine solo_act (.letGo _) ?_
  rw [Task.needs_bind, Task.needs_lift]
  refine solo_act (.removeDirectory (S.locks.path d depth)) ?_
  simp only [Process.perform, hfs', Process.change]
  exact Task.needs_pure_of (hok _ hshows)

/-- Giving a lock back works whether or not anyone asks. -/
theorem solo_releaseQuietly {depth : Nat} (h : Shows S (some (d, depth)) f s.machine.files)
    (hdepth : depth ≤ maxLockDepth) {post : Unit → Process → Prop}
    (hpost : ∀ s' : Process, Shows S none f s'.machine.files → post () s') :
    Program.Needs False soloNeeds post (S.locks.releaseQuietly d depth) s := by
  rw [LockTable.releaseQuietly, Program.needs_bind, Task.needs_run]
  simp only [Program.needs_pure]
  exact solo_release h hdepth hpost

end

end KernelCache
