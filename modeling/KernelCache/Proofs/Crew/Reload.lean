/-
**Loading again what was built.**

A kernel that was built can be had again in two ways: from the cache, by the same build, and from
its binary alone.  The one finds its entry by the key and checks what is there, the other looks for
a manifest beside the binary.  Both come to the same manifest, so they agree on every function, and
neither makes anything.

Main definitions:

* `BuildAction.Looks` — looking at files, and loading;
* `Toolkit.Recalls` — **what comes of a build that does nothing else**;
* `Site.Furnished` — entries from which kernels can be loaded;
* `Manifest.kernelOf` — what comes of loading a function.

Main results:

* `Program.run_of_looks` — a program that only looks comes to an end, and nothing has changed;
* `Site.Furnished.recalls_build`, `Site.Furnished.recalls_fromBinary` — the two ways;
* `Coherent.furnished` — the entries of kernels stay as they should be;
* `loads_agree` — **the two ways agree on every function**.
-/

import KernelCache.Proofs.Conduct.Rebuild
import KernelCache.Proofs.Crew.Alone
import KernelCache.Proofs.Solo.Toolkit

set_option relaxedAutoImplicit false
set_option autoImplicit false

namespace KernelCache

/-! ### Builds that only look -/

/-- Whether a request only looks at files, or loads. -/
def BuildAction.Looks : BuildAction → Prop
  | .file a => a.Asks
  | .load .. => True
  | .translate _ | .compile .. => False

namespace Toolkit

variable (T : Toolkit) (i : Identity)

/-- One request of a build, with nobody else at work. -/
def Answers (a : BuildAction) (s : Process) (r : a.Reply) (s' : Process) : Prop :=
  T.perform i a s = (r, s')

/-- What a request needs that only looks. -/
def looks (a : BuildAction) (post : a.Reply → Process → Prop) (s : Process) : Prop :=
  a.Looks ∧ post (T.perform i a s).1 s

/-- A build comes to a result and leaves everything as it is, and at no point has it asked for more
than a look at files, or for loading: neither for the translator nor for the compiler. -/
structure Recalls {α : Type} (t : BuildTask α) (s : Process) (x : Except BuildError α) : Prop where
  run : Program.run (T.perform i) t.run s = (some x, s)
  looks : ∀ calls q s', Program.Runs (T.Answers i) t.run s calls q s' → ∀ a ∈ calls, a.Looks

end Toolkit

section

variable {T : Toolkit} {i : Identity} {s : Process}

theorem BuildAction.Looks.perform {a : BuildAction} (ha : a.Looks) (s : Process) :
    (T.perform i a s).2 = s := by
  cases a with
  | file a => exact Action.Asks.perform ha s
  | load binary l => rfl
  | translate r => exact ha.elim
  | compile source output => exact ha.elim

/-- **A program that only looks comes to an end, and nothing has changed.** -/
theorem Program.run_of_looks {α : Type} {post : α → Process → Prop}
    {p : Program BuildAction BuildAction.Reply α} (h : Program.Needs False (T.looks i) post p s) :
    ∃ x, Program.run (T.perform i) p s = (some x, s) ∧ post x s ∧
      ∀ calls q s', Program.Runs (T.Answers i) p s calls q s' → ∀ a ∈ calls, a.Looks := by
  induction p with
  | done x =>
      rw [Program.needs_done] at h
      refine ⟨x, rfl, h, fun calls q s' hruns => ?_⟩
      cases hruns
      simp
  | ask a next ih =>
      rw [Program.needs_ask] at h
      obtain ⟨ha, hnext⟩ := h
      obtain ⟨x, hrun, hpost, hlooks⟩ := ih _ hnext
      have hperform : T.perform i a s = ((T.perform i a s).1, s) :=
        Prod.ext rfl (ha.perform s)
      refine ⟨x, ?_, hpost, fun calls q s' hruns => ?_⟩
      · rw [Program.run, hperform]
        exact hrun
      · cases hruns with
        | here => simp
        | ask hstep hrest =>
            obtain ⟨rfl, rfl⟩ := Prod.mk.inj (hperform.symm.trans hstep)
            exact List.forall_mem_cons.2 ⟨ha, hlooks _ _ _ hrest⟩
  | stalled =>
      rw [Program.Needs] at h
      exact h.elim

theorem Toolkit.recalls_of_needs {α : Type} {t : BuildTask α} {x : Except BuildError α}
    (h : Task.Needs False (T.looks i) (fun a _ => x = .ok a) (fun e _ => x = .error e) t s) :
    T.Recalls i t s x := by
  obtain ⟨y, hrun, hy, hlooks⟩ := Program.run_of_looks h
  obtain rfl : x = y := by
    cases y with
    | ok a => exact hy
    | error e => exact hy
  exact ⟨hrun, hlooks⟩

/-- What a file operation needs that only looks. -/
abbrev looksAt (a : Action) (post : a.Reply → Process → Prop) (s : Process) : Prop :=
  a.Asks ∧ post (s.perform a).1 s

theorem looks_files {α : Type} {ok : α → Process → Prop} {err : BuildError → Process → Prop}
    (t : FileTask CacheError α) :
    Task.Needs False (T.looks i) ok err (BuildTask.files t) =
      Task.Needs False looksAt ok (fun e => err (.ofCache e)) t :=
  BuildTask.needs_files (fun _ => rfl) t

theorem looks_request {a : BuildAction} (ha : a.Looks) {post : a.Reply → Process → Prop}
    (h : post (T.perform i a s).1 s) :
    Program.Needs False (T.looks i) post (Program.act a) s := by
  rw [Program.needs_act]
  exact ⟨ha, h⟩

theorem looks_act {a : Action} (ha : a.Asks) {post : a.Reply → Process → Prop}
    (h : post (s.perform a).1 s) : Program.Needs False looksAt post (Program.act a) s := by
  rw [Program.needs_act]
  exact ⟨ha, h⟩

/-! ### Entries from which kernels can be loaded -/

/-- An entry has a source, a binary with its checksum, and a manifest. -/
structure Site.Furnished (S : Site) (d : Digest) (m : Manifest) (fs : FileSystem) : Prop where
  source : ∃ found, fs.lookup (S.store.path d .source) = .ok found
  binary : ∃ b, fs.readFile (S.store.path d .binary) = .ok b ∧
    fs.readFile (S.store.sidecar d) = .ok (Utf8.encode (Checksum.of b).toText)
  manifest : ∃ b, fs.readFile (S.store.path d .manifest) = .ok b ∧ Manifest.ofBytes? b = some m

/-- What comes of loading a function from a binary, given what the manifest knows.  If it knows
nothing of the function the failure names a path. -/
def Manifest.kernelOf (m : Manifest) (load : Launch → Except DeviceError Loaded) (device : Nat)
    (function : String) (binary shown : Path) : Except BuildError Kernel :=
  match m.kernels.get? function with
  | none => .error (.notFound function shown)
  | some l =>
    match load l with
    | .ok loaded => .ok ⟨device, function, binary, loaded⟩
    | .error e => .error (.ofDevice e)

/-- Whether a kernel could not be had because its function is not known. -/
def BuildError.IsNotFound : BuildError → Prop
  | .notFound .. => True
  | _ => False

theorem BuildError.not_isNotFound_ofDevice (e : DeviceError) :
    ¬(BuildError.ofDevice e).IsNotFound := by
  cases e <;> exact id

namespace Manifest

variable {m : Manifest} {load : Launch → Except DeviceError Loaded} {device : Nat}
  {function : String} {binary shown : Path}

theorem kernelOf_loaded_iff {loaded : Loaded} :
    (∃ k, m.kernelOf load device function binary shown = .ok k ∧ k.loaded = loaded) ↔
      ∃ l, m.kernels.get? function = some l ∧ load l = .ok loaded := by
  rw [kernelOf]
  cases m.kernels.get? function with
  | none => simp
  | some l => cases hload : load l <;> simp [hload]

/-- A function is not found exactly if the manifest does not have it. -/
theorem kernelOf_isNotFound_iff :
    (∃ e, m.kernelOf load device function binary shown = .error e ∧ e.IsNotFound) ↔
      m.kernels.get? function = none := by
  rw [kernelOf]
  cases m.kernels.get? function with
  | none => simp [BuildError.IsNotFound]
  | some l => cases hload : load l <;> simp [hload, BuildError.not_isNotFound_ofDevice]

end Manifest

section

variable {S : Site} {d : Digest} {m : Manifest} {r : Request} {source : Bytes}

theorem looks_contains (h : S.Furnished d m s.machine.files) {ok : Bool → Process → Prop}
    {err : CacheError → Process → Prop} (hok : ok true s) :
    Task.Needs False looksAt ok err (S.store.contains d .source) s := by
  obtain ⟨found, hfound⟩ := h.source
  rw [Store.contains, Task.needs_bind, Task.needs_lift]
  refine looks_act (a := .look _) trivial ?_
  simp only [Process.perform, hfound]
  exact Task.needs_pure_of hok

theorem looks_get {k : Artifact} {b : Bytes}
    (hb : s.machine.files.readFile (S.store.path d k) = .ok b) {ok : Option Bytes → Process → Prop}
    {err : CacheError → Process → Prop} (hok : ok (some b) s) :
    Task.Needs False looksAt ok err (S.store.get d k) s := by
  rw [Store.get, Task.needs_bind, Task.needs_lift]
  refine looks_act (a := .read _) trivial ?_
  simp only [Process.perform, hb]
  exact Task.needs_pure_of hok

theorem looks_verified (h : S.Furnished d m s.machine.files) {ok : Option Path → Process → Prop}
    {err : CacheError → Process → Prop} (hok : ok (some (S.store.path d .binary)) s) :
    Task.Needs False looksAt ok err (S.store.verified d) s := by
  obtain ⟨b, hb, hrecord⟩ := h.binary
  rw [Store.verified, Task.needs_bind]
  refine looks_get hb ?_
  simp only [Task.needs_bind]
  rw [Store.recordedChecksum, Task.needs_bind, Task.needs_lift]
  refine looks_act (a := .read _) trivial ?_
  simp only [Process.perform, hrecord, Utf8.decode?_encode]
  refine Task.needs_pure_of ?_
  rw [Checksum.trim_toText, String.ofList_toList, if_pos rfl]
  exact Task.needs_pure_of hok

/-- The last steps of both ways. -/
theorem looks_load {view : DeviceView} {function : String} {binary shown : Path}
    {ok : Kernel → Process → Prop} {err : BuildError → Process → Prop}
    (h : Task.Outcome ok err (m.kernelOf (fun l => T.load i binary l s.machine.files) view.id
      function binary shown) s) :
    Task.Needs False (T.looks i) ok err
      (ExceptT.mk (pure (Pipeline.findKernel m function shown)) >>= fun l =>
        Pipeline.loadWith view binary function l) s := by
  rw [Task.needs_bind, Task.needs_mk, Pipeline.findKernel]
  rw [Manifest.kernelOf] at h
  cases hl : m.kernels.get? function with
  | none =>
      rw [hl] at h
      exact Program.needs_pure_of h
  | some l =>
      simp only [hl] at h
      refine Program.needs_pure_of ?_
      simp only [Task.Outcome, Pipeline.loadWith, Task.needs_bind, Task.needs_lift]
      refine looks_request (a := .load binary l) trivial ?_
      simp only [Toolkit.perform]
      cases hloaded : T.load i binary l s.machine.files with
      | ok loaded =>
          simp only [hloaded] at h
          exact Task.needs_pure_of h
      | error e =>
          simp only [hloaded] at h
          exact Task.needs_throw_of h

/-! ### The two ways -/

/-- What a manifest is read from. -/
theorem looks_parse {bytes : Bytes} {path : Path} (hm : Manifest.ofBytes? bytes = some m)
    {ok : Manifest → Process → Prop} {err : BuildError → Process → Prop} (hok : ok m s) :
    Task.Needs False (T.looks i) ok err
      (ExceptT.mk (pure (Pipeline.parseManifest path bytes))) s := by
  rw [Task.needs_mk, Pipeline.parseManifest, hm]
  exact Program.needs_pure_of hok

/-- A build finds all that it needs, and loads its function. -/
theorem Site.Furnished.recalls_build
    (h : S.Furnished ((r.pipeline S).key r.view r.job source) m s.machine.files)
    (hopen : r.view.isOpen = true) (hpatience : 0 < r.patience)
    (hsource : s.machine.files.readFile r.job.path = .ok source) :
    T.Recalls i ((r.pipeline S).build r.view r.job) s
      (m.kernelOf (fun l => T.load i
        (S.store.path ((r.pipeline S).key r.view r.job source) .binary) l s.machine.files)
        r.view.id r.job.function
        (S.store.path ((r.pipeline S).key r.view r.job source) .binary) r.job.path) := by
  obtain ⟨n, hn⟩ := Nat.exists_eq_add_of_le' hpatience
  have hrounds : (r.pipeline S).patience = n + 1 := hn
  obtain ⟨bytes, hbytes, hm⟩ := h.manifest
  refine Toolkit.recalls_of_needs ?_
  rw [Pipeline.build, hopen, if_neg (by simp)]
  simp only [Task.needs_bind, looks_files, readBytes, needs_attempt]
  refine looks_act (a := .read _) trivial ?_
  simp only [Process.perform, hsource, Task.Outcome]
  -- The source and the binary are there, so no lock is taken.
  rw [Pipeline.buildFrom, hrounds, Pipeline.ensureTranslated, Pipeline.ensureCompiled]
  simp only [Task.needs_bind, looks_files]
  refine looks_contains h ?_
  rw [if_pos rfl]
  refine Task.needs_pure_of ?_
  refine looks_verified h (Task.needs_pure_of ?_)
  rw [Pipeline.readManifest]
  simp only [Task.needs_bind, looks_files]
  refine looks_get hbytes ?_
  refine looks_parse hm ?_
  rw [← Task.needs_bind]
  refine looks_load ?_
  cases Manifest.kernelOf _ _ _ _ _ _ <;> rfl

/-- Whoever has the binary finds the manifest beside it, and loads the function. -/
theorem Site.Furnished.recalls_fromBinary (h : S.Furnished d m s.machine.files)
    (view : DeviceView) (function : String) :
    T.Recalls i (Pipeline.fromBinary view (S.store.path d .binary) function) s
      (m.kernelOf (fun l => T.load i (S.store.path d .binary) l s.machine.files) view.id function
        (S.store.path d .binary) (S.store.path d .binary)) := by
  obtain ⟨bytes, hbytes, hm⟩ := h.manifest
  have hpath : ((S.store.path d .binary).parent?.getD (Path.ofString ".")).child "manifest.json" =
      S.store.path d .manifest := by
    simp only [Store.path, Store.fileName, Store.entryDir,
      Path.parent?_child_child (plain_toText d) Site.plain_binary, Option.getD_some]
  refine Toolkit.recalls_of_needs ?_
  rw [Pipeline.fromBinary]
  simp only [hpath, Task.needs_bind, looks_files, readBytes, needs_attempt]
  refine looks_act (a := .read _) trivial ?_
  simp only [Process.perform, hbytes, Task.Outcome]
  refine looks_parse hm ?_
  rw [← Task.needs_bind]
  refine looks_load ?_
  cases Manifest.kernelOf _ _ _ _ _ _ <;> rfl

end

end

/-! ### Kernels that were built -/

/-- The request for another function of the same file, with the same flags and for the same
device. -/
def Request.asking (r : Request) (function : String) : Request :=
  { r with job := { r.job with function := function } }

section

variable {ι : Type} {C : Crew ι} {w w₀ w₁ : World ι} {i : ι} {d : Digest} {source : Bytes}
  {k : Kernel} {owner : Digest → Nat → Option ι}

theorem Coherent.genuine (h : Coherent C w owner) (hi : w.source i = some source)
    (hk : w.rest i = .done (.ok k)) : Genuine C i source k (w.scene owner) := by
  have hcourse := h.course i
  rw [hk, hi, OnCourse, Program.needs_done] at hcourse
  exact hcourse

/-- **From a complete entry kernels can be loaded.** -/
theorem Coherent.furnished (h : Coherent C w owner) (hd : C.vacant d)
    (hc : Complete C (w.scene owner) d) : ∃ m, C.site.Furnished d m w.machine.files := by
  have hes := h.sound.entry d hd
  have hopen : w.machine.files.Walkable (C.site.store.entryDir d) := hc.translated.isOpen
  obtain ⟨n, hn⟩ := Option.ne_none_iff_exists'.1 hc.translated.source
  obtain ⟨b, hb⟩ := hc.binary
  obtain ⟨bytes, hbytes⟩ := hc.manifest
  obtain ⟨c, -, -, rfl⟩ := hes.manifest bytes hbytes
  refine ⟨C.manifest c, ?_, ⟨b, ?_, ?_⟩, _, ?_, Manifest.ofBytes?_toBytes _⟩
  · have hnode : w.machine.files.node? ((C.site.store.entryDir d).child C.site.sourceName).place =
        some n := (congrArg _ (place_child C.site.plain_sourceName d)).trans hn
    have hlookup := FileSystem.lookup_child C.site.plain_sourceName hopen
    rw [hnode] at hlookup
    exact ⟨_, hlookup⟩
  · exact readFile_of_has (s := w.scene owner) hopen Site.plain_binary hb
  · exact readFile_of_has (s := w.scene owner) hopen Site.plain_sidecar (hes.binary b hb)
  · exact readFile_of_has (s := w.scene owner) hopen Site.plain_manifest hbytes

/-- **The two ways to load agree.**  Let a builder have got a kernel, for a source in a file, in a
cache that had nothing for its key at the start; and let any builders go on from there, in any
order, as long as the file still has that source.  For every function, loading it from the binary
of the kernel and building it with the builder's request, on devices that are open and with a loader
to which the device does not matter, both come to an end without a call of the translator or the
compiler and leave everything as it is.  They succeed together, with the same entry symbol and the
same arguments, and they fail together for want of the function. -/
theorem loads_agree [DecidableEq ι] {T : Toolkit}
    (hload : ∀ i j binary l fs, T.load i binary l fs = T.load j binary l fs)
    (hstart : w₀.Starts C) (hbuilt : Run C w₀ w₁) (hk : w₁.rest i = .done (.ok k))
    (hi : w₁.source i = some source) (hd : C.vacant (C.key i source)) (hrun : Run C w₁ w)
    (hsource : w.machine.files.readFile (C.request i).job.path = .ok source)
    (hopen : (C.request i).view.isOpen = true) (hpatience : 0 < (C.request i).patience)
    (function : String) (view : DeviceView) (notes notes' : SortedMap Path Unit) :
    ∃ x y,
      T.Recalls view.identity (Pipeline.fromBinary view k.binary function) ⟨w.machine, notes⟩ x ∧
      T.Recalls (C.request i).view.identity ((C.pipeline i).build (C.request i).view
        ((C.request i).asking function).job) ⟨w.machine, notes'⟩ y ∧
      (∀ loaded, (∃ k', y = .ok k' ∧ k'.loaded = loaded) ↔ ∃ k', x = .ok k' ∧ k'.loaded = loaded) ∧
      ((∃ e, y = .error e ∧ e.IsNotFound) ↔ ∃ e, x = .error e ∧ e.IsNotFound) := by
  -- The entry was complete when the kernel was had, and a complete entry stays as it is.
  obtain ⟨owner₁, h₁, -⟩ := hbuilt.coherent hstart.coherent
  obtain ⟨owner, h, hgrows⟩ := hrun.coherent h₁
  have hgenuine := h₁.genuine hi hk
  obtain ⟨m, hm⟩ := h.furnished hd ((hgenuine.complete hd).grows hd hgrows)
  have hx := hm.recalls_fromBinary (T := T) (i := view.identity) (s := ⟨w.machine, notes⟩) view
    function
  have hy := Site.Furnished.recalls_build (T := T) (i := (C.request i).view.identity)
    (s := ⟨w.machine, notes'⟩) (r := (C.request i).asking function) hm hopen hpatience hsource
  rw [hgenuine.binary]
  -- Both have come to the same manifest, and only the loader is given different devices.
  refine ⟨_, _, hx, hy, fun loaded => ?_, ?_⟩
  · rw [Manifest.kernelOf_loaded_iff, Manifest.kernelOf_loaded_iff]
    refine exists_congr fun l => ?_
    rw [hload (C.request i).view.identity view.identity]
    rfl
  · rw [Manifest.kernelOf_isNotFound_iff, Manifest.kernelOf_isNotFound_iff]
    rfl

end

/-! ### The kernel of one of two builders -/

namespace Crew.Pair

/-- The build of one of the two goes on from its source as from its start. -/
theorem run_afterReading :
    Program.run Workplace.perform (pair.afterReading true (.ok source)) workplace = outcome := by
  have hprogram : pair.program true =
      .ask (.file (.read (Path.ofString "/k.c"))) (pair.afterReading true) := pair.program_eq true
  have hread (p : Path) (next : Except Failure Bytes → BuildProgram) :
      Program.run Workplace.perform (.ask (.file (.read p)) next) workplace =
        Program.run Workplace.perform (next (files.readFile p)) workplace := rfl
  rw [outcome, hprogram, hread, readFile_files]

/-- In some run one of the two has its kernel, and its file has the source that it has read. -/
theorem exists_kernel : ∃ w k, Run pair (World.start pair files) w ∧
    w.rest true = .done (.ok k) ∧ w.source true = some source ∧
    w.machine.files.readFile (Path.ofString "/k.c") = .ok source := by
  let w₀ := World.start pair files
  let w₁ := w₀.act true (.read (Path.ofString "/k.c")) (pair.afterReading true)
  have hfirst : w₀.rest true =
      .ask (.file (.read (Path.ofString "/k.c"))) (pair.afterReading true) := pair.program_eq true
  have hread : Run pair w₀ w₁ := .single (.file hfirst)
  have hsource : w₁.source true = some source := by
    simp [w₁, w₀, World.act, Process.perform, World.start, readFile_files, Action.heard?,
      Except.toOption]
  have hrest : w₁.rest true = pair.afterReading true (.ok source) := by
    simp [w₁, w₀, World.act, Process.perform, World.start, readFile_files]
  have hprocess : workplace.process = ⟨w₁.machine, w₁.notes true⟩ := by
    simp [w₁, w₀, World.act, Process.perform, workplace, World.start]
  have hengine : workplace.engine = .simulated none := rfl
  obtain ⟨owner, h₁, -⟩ := hread.coherent starts.coherent
  obtain ⟨w, hw⟩ := Alone.of_workplace h₁ (fun _ => rfl) _ hrest hengine hprocess
  have hfiles := hw.process
  have hresult := hw.result
  rw [run_afterReading] at hfiles hresult
  have hkept : outcome.2.files.readFile (Path.ofString "/k.c") = .ok source :=
    eq_ok_of_toOption (by decide +kernel)
  rw [Workplace.files, hfiles] at hkept
  obtain ⟨hkernel, -⟩ := outcome_succeeds
  obtain ⟨k, hk⟩ := exists_ok_of_isSome hkernel
  exact ⟨w, k, hread.trans hw.run, hresult _ hk, hw.run.source_eq_some hsource, hkept⟩

end Crew.Pair

/-- What one of two builders has built, the simulated loader gives for each of the two ways. -/
theorem pair_loads_agree : ∃ w k x y, Run Crew.pair (World.start Crew.pair Crew.Pair.files) w ∧
    w.rest true = .done (.ok k) ∧
    (Toolkit.ofEngine (.simulated none)).Recalls (Crew.pair.request false).view.identity
      (Pipeline.fromBinary (Crew.pair.request false).view k.binary "f") ⟨w.machine, .empty⟩ x ∧
    (Toolkit.ofEngine (.simulated none)).Recalls (Crew.pair.request true).view.identity
      ((Crew.pair.pipeline true).build (Crew.pair.request true).view
        ((Crew.pair.request true).asking "f").job) ⟨w.machine, .empty⟩ y ∧
    (∀ loaded, (∃ k', y = .ok k' ∧ k'.loaded = loaded) ↔ ∃ k', x = .ok k' ∧ k'.loaded = loaded) ∧
    ((∃ e, y = .error e ∧ e.IsNotFound) ↔ ∃ e, x = .error e ∧ e.IsNotFound) := by
  obtain ⟨w, k, hrun, hk, hi, hsource⟩ := Crew.Pair.exists_kernel
  obtain ⟨x, y, h⟩ := loads_agree (T := .ofEngine (.simulated none)) (fun _ _ _ _ _ => rfl)
    Crew.Pair.starts hrun hk hi trivial .refl hsource rfl (by decide) "f"
    (Crew.pair.request false).view .empty .empty
  exact ⟨w, k, x, y, hrun, hk, h⟩

end KernelCache
