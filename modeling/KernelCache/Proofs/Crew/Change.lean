/-
**What a builder may do to a cache.**

A change is fair if the scene stays sound, nothing that was published is lost, and every other
builder can rely on it.  The fair changes are those of fresh files under a lock, publishing under a
lock what the entry does not have yet, taking a lock that is free, and giving a lock back.

Main definitions:

* `Fair` — changes that a builder may make;
* `Scene.withMachine`, `Scene.give` — scenes with another machine, and with another owner of a lock.

Main results:

* `Drift.fair` — **changes of files that the builder's own lock protects**;
* `fair_scratch` — fresh files;
* `fair_publishManifest`, `fair_publishSource`, `fair_publishSidecar`, `fair_publishBinary` —
  publishing;
* `fair_take`, `fair_giveBack` — locks.
-/

import KernelCache.Proofs.Crew.Scene

set_option relaxedAutoImplicit false
set_option autoImplicit false

namespace KernelCache

/-- A change that a builder may make. -/
structure Fair {ι : Type} (C : Crew ι) (me : ι) (s s' : Scene ι) : Prop where
  sound : Sound C s'
  grows : Grows C s s'
  relies : ∀ i, i ≠ me → Relies C nowhere i s s'

namespace Scene

variable {ι : Type}

/-- The scene with another machine. -/
def withMachine (s : Scene ι) (m : Machine) : Scene ι := { s with machine := m }

/-- The scene with another owner of a lock. -/
def give (s : Scene ι) (d : Digest) (depth : Nat) (o : Option ι) : Scene ι :=
  { s with owner := fun e l => if e = d ∧ l = depth then o else s.owner e l }

@[simp] theorem node?_withMachine (s : Scene ι) (m : Machine) :
    (s.withMachine m).node? = m.files.node? := rfl

@[simp] theorem owner_give_self (s : Scene ι) (d : Digest) (depth : Nat) (o : Option ι) :
    (s.give d depth o).owner d depth = o := by
  simp [give]

theorem owner_give_of_ne {s : Scene ι} {d e : Digest} {depth l : Nat} {o : Option ι}
    (h : ¬(e = d ∧ l = depth)) : (s.give d depth o).owner e l = s.owner e l := by
  simp [give, h]

end Scene

variable {ι : Type} {C : Crew ι} {me : ι} {s s' : Scene ι} {m : Machine} {d : Digest}

/-! ### Changes of nodes -/

/-- A change that removes no directory near the cache. -/
theorem drift_of_directories {changed : Place → Prop} (hdue : m.due = s.machine.due)
    (hfile : ∀ e name b, ¬changed (C.site.entryPlace e ++ [name]) →
      ((s.withMachine m).Has (C.site.entryPlace e ++ [name]) b ↔
        s.Has (C.site.entryPlace e ++ [name]) b))
    (hdirectory : ∀ x, C.site.Near x → s.node? x = some .directory →
      m.files.node? x = some .directory) : Drift C changed s (s.withMachine m) where
  due := hdue
  owner := rfl
  calls := rfl
  file := hfile
  isOpen := fun _ ho x hx => hdirectory x (C.site.near_of_mem_visits hx) (ho x hx)
  directory := fun d name hdir => hdirectory _ (C.site.near_entry d name) hdir
  lock := fun e depth _ _ hlock => hdirectory _ (C.site.near_lockPlace e depth) hlock

/-- A new directory changes no file. -/
theorem drift_makeDirectory {x : Place} (hdue : m.due = s.machine.due) (hx : s.node? x = none)
    (hm : m.files.node? = Function.update s.node? x (some .directory)) :
    Drift C nowhere s (s.withMachine m) := by
  refine drift_of_directories hdue (fun e name b _ => ?_) fun y _ hy => ?_
  · rw [Scene.Has, Scene.Has, Scene.node?_withMachine, hm]
    by_cases hxe : C.site.entryPlace e ++ [name] = x
    · simp [hxe, hx]
    · rw [Function.update_of_ne hxe]
  · rw [hm]
    by_cases hyx : y = x
    · simp [hyx]
    · rwa [Function.update_of_ne hyx]

/-- A change where no directory stands changes no other file. -/
theorem drift_update {x : Place} {n : Option Node} (hdue : m.due = s.machine.due)
    (hx : s.node? x ≠ some .directory) (hm : m.files.node? = Function.update s.node? x n) :
    Drift C (· = x) s (s.withMachine m) := by
  refine drift_of_directories hdue (fun e name b hne => ?_) fun y _ hy => ?_
  · rw [Scene.Has, Scene.Has, Scene.node?_withMachine, hm, Function.update_of_ne hne]
  · have hyx : y ≠ x := fun heq => hx (heq ▸ hy)
    rw [hm, Function.update_of_ne hyx, hy]

/-- A move of a file to a place where no directory stands. -/
theorem drift_move {x y : Place} {n : Option Node} (hdue : m.due = s.machine.due)
    (hx : s.node? x ≠ some .directory) (hy : s.node? y ≠ some .directory)
    (hm : m.files.node? = Function.update (Function.update s.node? x none) y n) :
    Drift C (fun z => z = x ∨ z = y) s (s.withMachine m) := by
  refine drift_of_directories hdue (fun e name b hne => ?_) fun z _ hz => ?_
  · rw [not_or] at hne
    rw [Scene.Has, Scene.Has, Scene.node?_withMachine, hm, Function.update_of_ne hne.2,
      Function.update_of_ne hne.1]
  · have hzx : z ≠ x := fun heq => hx (heq ▸ hz)
    have hzy : z ≠ y := fun heq => hy (heq ▸ hz)
    rw [hm, Function.update_of_ne hzy, Function.update_of_ne hzx, hz]

/-- A lock that nobody holds may go. -/
theorem drift_unlock {depth : Nat} (hdue : m.due = s.machine.due)
    (hfree : s.owner d depth = none) (haside : C.site.lockPlace d depth ∉ C.site.root.visits)
    (hm : m.files.node? = Function.update s.node? (C.site.lockPlace d depth) none) :
    Drift C nowhere s (s.withMachine m) where
  due := hdue
  owner := rfl
  calls := rfl
  file := fun e name b _ => by
    have hne := (C.site.lockPlace_ne_entry d e depth name).symm
    rw [Scene.Has, Scene.Has, Scene.node?_withMachine, hm, Function.update_of_ne hne]
  isOpen := fun e ho x hx => by
    have hne : x ≠ C.site.lockPlace d depth := by
      intro heq
      rw [heq, Site.visits_entryDir, List.mem_append] at hx
      rcases hx with hx | hx
      · exact haside hx
      · simp only [List.mem_cons, List.not_mem_nil, or_false] at hx
        rcases hx with hx | hx
        · exact C.site.lockPlace_ne_kernels d depth hx
        · exact C.site.lockPlace_ne_entryPlace d e depth hx
    have hnode : m.files.node? x = s.node? x := by rw [hm, Function.update_of_ne hne]
    exact hnode.trans (ho x hx)
  directory := fun e name hdir => by
    have hne := (C.site.lockPlace_ne_entry d e depth name).symm
    rw [Scene.node?_withMachine, hm, Function.update_of_ne hne, hdir]
  lock := fun e l i hi hlock => by
    have hne : C.site.lockPlace e l ≠ C.site.lockPlace d depth := by
      intro heq
      obtain ⟨rfl, rfl⟩ := C.site.lockPlace_inj heq
      rw [hfree] at hi
      cases hi
    rw [Scene.node?_withMachine, hm, Function.update_of_ne hne, hlock]

/-! ### Changes under a lock -/

/-- **A builder may change files that its own lock protects**, if the entry stays consistent,
nothing that is published is touched, and a manifest at most replaced. -/
theorem Drift.fair {changed : Place → Prop} {depth : Nat} (h : Drift C changed s s')
    (hs : Sound C s) (hown : s.owner d depth = some me)
    (hchanged : ∀ e name, changed (C.site.entryPlace e ++ [name]) →
      e = d ∧ Site.guard name = depth)
    (hsource : C.vacant d → ∀ b, changed (C.sourcePlace d) → ¬s.Has (C.sourcePlace d) b)
    (hmanifest : changed (C.manifestPlace d) → ∃ b, s'.Has (C.manifestPlace d) b)
    (hbinary : C.vacant d → ∀ b, changed (C.binaryPlace d) → ¬s.Has (C.binaryPlace d) b)
    (hentry : C.vacant d → EntrySound C s d → EntrySound C s' d) : Fair C me s s' := by
  have hgrows : Grows C s s' := by
    refine h.grows (fun e he b hch => ?_) (fun e hch => ?_) fun e he b hch => ?_
    · obtain ⟨rfl, -⟩ := hchanged e _ hch
      exact hsource he b hch
    · obtain ⟨rfl, -⟩ := hchanged e _ hch
      exact hmanifest hch
    · obtain ⟨rfl, -⟩ := hchanged e _ hch
      exact hbinary he b hch
  refine ⟨h.sound hs fun e he hes => ?_, hgrows, fun i hi => h.relies hgrows fun e name hch => ?_⟩
  · by_cases hed : e = d
    · subst hed
      exact hentry he hes
    · have hout : ∀ name, ¬changed (C.site.entryPlace e ++ [name]) := fun name hch =>
        hed (hchanged e name hch).1
      exact h.entrySound (hout _) (hout _) (hout _) (hout _) hes
  · obtain ⟨rfl, rfl⟩ := hchanged e name hch
    refine Or.inr fun howner => hi ?_
    rw [hown] at howner
    exact (Option.some.inj howner).symm

/-! ### Fresh files -/

/-- The published files of an entry are not fresh files. -/
theorem not_isScratch_published {e : Digest} {name : Bytes} {published : String}
    (hname : Site.IsScratch name) (hpublished : ¬Site.IsScratch (Utf8.encode published)) :
    C.site.filePlace e published ≠ C.site.entryPlace d ++ [name] := fun heq =>
  hpublished ((C.site.entry_append_inj heq).2 ▸ hname)

/-- A builder may change a fresh file that its lock protects. -/
theorem fair_scratch {name : Bytes} (hs : Sound C s)
    (hown : s.owner d (Site.guard name) = some me) (hname : Site.IsScratch name)
    (h : Drift C (· = C.site.entryPlace d ++ [name]) s s') : Fair C me s s' := by
  have hsource : C.sourcePlace d ≠ _ :=
    not_isScratch_published (d := d) hname C.site.not_isScratch_sourceName
  have hmanifest : C.manifestPlace d ≠ _ :=
    not_isScratch_published (d := d) hname Site.not_isScratch_manifest
  have hbinary : C.binaryPlace d ≠ _ :=
    not_isScratch_published (d := d) hname Site.not_isScratch_binary
  have hsidecar : C.sidecarPlace d ≠ _ :=
    not_isScratch_published (d := d) hname Site.not_isScratch_sidecar
  refine h.fair hs hown (fun e other heq => ?_) (fun _ b hch => absurd hch hsource)
    (fun hch => absurd hch hmanifest) (fun _ b hch => absurd hch hbinary)
    fun _ he => h.entrySound hsource hmanifest hbinary hsidecar he
  obtain ⟨rfl, rfl⟩ := C.site.entry_append_inj heq
  exact ⟨rfl, rfl⟩

/-! ### Publishing -/

/-- The move of a fresh file to a published name of its entry. -/
structure Publishes (C : Crew ι) (d : Digest) (name : Bytes) (published : String)
    (s s' : Scene ι) : Prop where
  scratch : Site.IsScratch name
  guard : Site.guard name = Site.guard (Utf8.encode published)
  drift : Drift C (fun z => z = C.site.entryPlace d ++ [name] ∨ z = C.site.filePlace d published)
    s s'
  there : ∃ b, s'.Has (C.site.filePlace d published) b

namespace Publishes

variable {name : Bytes} {published : String}

theorem not_changed (h : Publishes C d name published s s') {e : Digest} {other : String}
    (hscratch : ¬Site.IsScratch (Utf8.encode other)) (hother : other ≠ published) :
    ¬(C.site.filePlace e other = C.site.entryPlace d ++ [name] ∨
      C.site.filePlace e other = C.site.filePlace d published) := by
  rintro (heq | heq)
  · exact not_isScratch_published h.scratch hscratch heq
  · exact hother (C.site.filePlace_inj heq).2

/-- A builder that holds the lock may publish what leaves the entry consistent and is not there. -/
theorem fair (h : Publishes C d name published s s') (hs : Sound C s)
    (hown : s.owner d (Site.guard (Utf8.encode published)) = some me)
    (hsource : C.vacant d → published = C.site.sourceName → ∀ b, ¬s.Has (C.sourcePlace d) b)
    (hbinary : C.vacant d → published = "binary" → ∀ b, ¬s.Has (C.binaryPlace d) b)
    (hentry : C.vacant d → EntrySound C s d → EntrySound C s' d) : Fair C me s s' := by
  refine h.drift.fair hs hown (fun e other hch => ?_) (fun hd b hch => ?_) (fun hch => ?_)
    (fun hd b hch => ?_) hentry
  · rcases hch with heq | heq
    · obtain ⟨rfl, rfl⟩ := C.site.entry_append_inj heq
      exact ⟨rfl, h.guard⟩
    · obtain ⟨rfl, rfl⟩ := C.site.entry_append_inj heq
      exact ⟨rfl, rfl⟩
  · by_cases hp : C.site.sourceName = published
    · exact hsource hd hp.symm b
    · exact absurd hch (h.not_changed C.site.not_isScratch_sourceName hp)
  · by_cases hp : "manifest.json" = published
    · rw [Crew.manifestPlace, hp]
      exact h.there
    · exact absurd hch (h.not_changed Site.not_isScratch_manifest hp)
  · by_cases hp : "binary" = published
    · exact hbinary hd hp.symm b
    · exact absurd hch (h.not_changed Site.not_isScratch_binary hp)

end Publishes

theorem fair_publishManifest {name : Bytes} {c : Call ι}
    (h : Publishes C d name "manifest.json" s s') (hs : Sound C s)
    (hown : s.owner d Pipeline.translationDepth = some me)
    (habsent : C.vacant d → ∀ b, ¬s.Has (C.sourcePlace d) b) (hc : c ∈ s.calls)
    (hkey : C.callKey c = d) (hhas : s'.Has (C.manifestPlace d) (C.manifest c).toBytes) :
    Fair C me s s' := by
  have hsource := h.not_changed (e := d) C.site.not_isScratch_sourceName
    (C.site.sourceName_ne (by decide))
  have hbinary := h.not_changed (e := d) Site.not_isScratch_binary (by decide)
  have hsidecar := h.not_changed (e := d) Site.not_isScratch_sidecar (by decide)
  refine h.fair hs hown (fun _ hp => absurd hp.symm (C.site.sourceName_ne (by decide)))
    (fun _ hp => absurd hp (by decide)) fun hd he => ?_
  have hnone (b : Bytes) : ¬s'.Has (C.sourcePlace d) b := fun hb =>
    habsent hd b ((h.drift.file d _ b hsource).1 hb)
  refine ⟨fun b hb => ?_, fun b hb => absurd hb (hnone b), fun b hb => ?_, fun b hb => ?_⟩
  · refine h.drift.isOpen d (he.isOpen b (Or.inr ?_))
    exact (h.drift.file d _ b hbinary).1 (hb.resolve_left (hnone b))
  · exact ⟨c, h.drift.calls ▸ hc, hkey, hb.unique hhas⟩
  · exact (h.drift.file d _ _ hsidecar).2 (he.binary b ((h.drift.file d _ b hbinary).1 hb))

theorem fair_publishSource {name : Bytes} {c : Call ι}
    (h : Publishes C d name C.site.sourceName s s') (hs : Sound C s)
    (hown : s.owner d Pipeline.translationDepth = some me)
    (habsent : C.vacant d → ∀ b, ¬s.Has (C.sourcePlace d) b) (hopen : s.Open C.site d)
    (hc : c ∈ s.calls) (hkey : C.callKey c = d)
    (hmanifest : s.Has (C.manifestPlace d) (C.manifest c).toBytes)
    (hhas : s'.Has (C.sourcePlace d) (Utf8.encode c.result.source)) : Fair C me s s' := by
  have hman := h.not_changed (e := d) Site.not_isScratch_manifest
    (C.site.sourceName_ne (by decide)).symm
  have hbinary := h.not_changed (e := d) Site.not_isScratch_binary
    (C.site.sourceName_ne (by decide)).symm
  have hsidecar := h.not_changed (e := d) Site.not_isScratch_sidecar
    (C.site.sourceName_ne (by decide)).symm
  have hguard : s.owner d (Site.guard (Utf8.encode C.site.sourceName)) = some me :=
    C.site.guard_sourceName ▸ hown
  refine h.fair hs hguard (fun hd _ => habsent hd)
    (fun _ hp => absurd hp (C.site.sourceName_ne (by decide))) fun hd he => ?_
  have hman' := (h.drift.file d _ _ hman).2 hmanifest
  refine ⟨fun b _ => h.drift.isOpen d hopen, fun b hb => ?_, fun b hb => ?_, fun b hb => ?_⟩
  · exact ⟨c, h.drift.calls ▸ hc, hkey, hb.unique hhas, hman'⟩
  · exact ⟨c, h.drift.calls ▸ hc, hkey, hb.unique hman'⟩
  · exact (h.drift.file d _ _ hsidecar).2 (he.binary b ((h.drift.file d _ b hbinary).1 hb))

theorem fair_publishSidecar {name : Bytes} (h : Publishes C d name "binary.xxh3" s s')
    (hs : Sound C s) (hown : s.owner d Pipeline.compilationDepth = some me)
    (habsent : C.vacant d → ∀ b, ¬s.Has (C.binaryPlace d) b) : Fair C me s s' := by
  have hsource := h.not_changed (e := d) C.site.not_isScratch_sourceName
    (C.site.sourceName_ne (by decide))
  have hman := h.not_changed (e := d) Site.not_isScratch_manifest (by decide)
  have hbinary := h.not_changed (e := d) Site.not_isScratch_binary (by decide)
  refine h.fair hs hown (fun _ hp => absurd hp.symm (C.site.sourceName_ne (by decide)))
    (fun _ hp => absurd hp (by decide)) fun hd he => ?_
  have hnone (b : Bytes) : ¬s'.Has (C.binaryPlace d) b := fun hb =>
    habsent hd b ((h.drift.file d _ b hbinary).1 hb)
  refine ⟨fun b hb => ?_, fun b hb => ?_, fun b hb => ?_, fun b hb => absurd hb (hnone b)⟩
  · refine h.drift.isOpen d (he.isOpen b (Or.inl ?_))
    exact (h.drift.file d _ b hsource).1 (hb.resolve_right (hnone b))
  · obtain ⟨c, hc, hkey, hbytes, hmanifest⟩ := he.source b ((h.drift.file d _ b hsource).1 hb)
    exact ⟨c, h.drift.calls ▸ hc, hkey, hbytes, (h.drift.file d _ _ hman).2 hmanifest⟩
  · obtain ⟨c, hc, hkey, hbytes⟩ := he.manifest b ((h.drift.file d _ b hman).1 hb)
    exact ⟨c, h.drift.calls ▸ hc, hkey, hbytes⟩

theorem fair_publishBinary {name b : Bytes} (h : Publishes C d name "binary" s s')
    (hs : Sound C s) (hown : s.owner d Pipeline.compilationDepth = some me)
    (habsent : C.vacant d → ∀ b, ¬s.Has (C.binaryPlace d) b) (hopen : s.Open C.site d)
    (hsidecar : s.Has (C.sidecarPlace d) (Utf8.encode (Checksum.of b).toText))
    (hhas : s'.Has (C.binaryPlace d) b) : Fair C me s s' := by
  have hsource := h.not_changed (e := d) C.site.not_isScratch_sourceName
    (C.site.sourceName_ne (by decide))
  have hman := h.not_changed (e := d) Site.not_isScratch_manifest (by decide)
  have hside := h.not_changed (e := d) Site.not_isScratch_sidecar (by decide)
  refine h.fair hs hown (fun _ hp => absurd hp.symm (C.site.sourceName_ne (by decide)))
    (fun hd _ => habsent hd) fun hd he => ?_
  refine ⟨fun b _ => h.drift.isOpen d hopen, fun b hb => ?_, fun b hb => ?_, fun b' hb => ?_⟩
  · obtain ⟨c, hc, hkey, hbytes, hmanifest⟩ := he.source b ((h.drift.file d _ b hsource).1 hb)
    exact ⟨c, h.drift.calls ▸ hc, hkey, hbytes, (h.drift.file d _ _ hman).2 hmanifest⟩
  · obtain ⟨c, hc, hkey, hbytes⟩ := he.manifest b ((h.drift.file d _ b hman).1 hb)
    exact ⟨c, h.drift.calls ▸ hc, hkey, hbytes⟩
  · obtain rfl := hb.unique hhas
    exact (h.drift.file d _ _ hside).2 hsidecar

/-! ### Locks -/

/-- The account of locks may change for a lock that nobody else holds. -/
theorem fair_give {depth : Nat} {o : Option ι} (hs : Sound C s)
    (hbefore : ∀ i, s.owner d depth = some i → i = me) (hafter : ∀ i, o = some i → i = me)
    (hlock : o ≠ none → s.node? (C.site.lockPlace d depth) = some .directory)
    (haside : o ≠ none → C.site.lockPlace d depth ∉ C.site.root.visits) :
    Fair C me s (s.give d depth o) where
  sound :=
    { due := hs.due
      calls := hs.calls
      lock := fun e l i hi => by
        by_cases hel : e = d ∧ l = depth
        · obtain ⟨rfl, rfl⟩ := hel
          rw [Scene.owner_give_self] at hi
          exact hlock (by simp [hi])
        · exact hs.lock e l i (Scene.owner_give_of_ne hel ▸ hi)
      aside := fun e l i hi => by
        by_cases hel : e = d ∧ l = depth
        · obtain ⟨rfl, rfl⟩ := hel
          rw [Scene.owner_give_self] at hi
          exact haside (by simp [hi])
        · exact hs.aside e l i (Scene.owner_give_of_ne hel ▸ hi)
      entry := fun e he =>
        ⟨(hs.entry e he).isOpen, (hs.entry e he).source, (hs.entry e he).manifest,
          (hs.entry e he).binary⟩ }
  grows := .of_machine_eq rfl (List.Subset.refl _)
  relies := fun i hi =>
    { grows := .of_machine_eq rfl (List.Subset.refl _)
      owner := fun e l => by
        by_cases hel : e = d ∧ l = depth
        · obtain ⟨rfl, rfl⟩ := hel
          rw [Scene.owner_give_self]
          exact ⟨fun h => absurd (hafter i h) hi, fun h => absurd (hbefore i h) hi⟩
        · rw [Scene.owner_give_of_ne hel]
      guarded := fun _ _ _ _ _ _ _ => Iff.rfl }

theorem Fair.refl (hs : Sound C s) : Fair C me s s :=
  ⟨hs, Grows.refl s, fun i _ => Relies.refl nowhere i s⟩

theorem Fair.trans {s'' : Scene ι} (h : Fair C me s s') (h' : Fair C me s' s'') :
    Fair C me s s'' where
  sound := h'.sound
  grows := h.grows.trans h'.grows
  relies := fun i hi => (h.relies i hi).trans (h'.relies i hi)

theorem Drift.fair_of_nowhere (h : Drift C nowhere s s') (hs : Sound C s) : Fair C me s s' :=
  ⟨(h.quiet hs).1, (h.quiet hs).2.1, fun i _ => (h.quiet hs).2.2 i⟩

/-- A builder that makes the directory of a lock holds the lock. -/
theorem fair_take {depth : Nat} (hs : Sound C s) (hdue : m.due = s.machine.due)
    (hopen : s.machine.files.Walkable C.site.locks.directory)
    (hnone : s.node? (C.site.lockPlace d depth) = none)
    (hm : m.files.node? =
      Function.update s.node? (C.site.lockPlace d depth) (some .directory)) :
    Fair C me s ((s.withMachine m).give d depth (some me)) := by
  have hdrift := drift_makeDirectory (C := C) hdue hnone hm
  have hfree (i : ι) : s.owner d depth ≠ some i := fun hi => by
    rw [hs.lock d depth i hi] at hnone
    cases hnone
  have haside : C.site.lockPlace d depth ∉ C.site.root.visits := fun hmem => by
    have hdir := hopen (C.site.lockPlace d depth) (by simp [Site.visits_locks, hmem])
    rw [show s.machine.files.node? _ = none from hnone] at hdir
    cases hdir
  have hthere : (s.withMachine m).node? (C.site.lockPlace d depth) = some .directory := by
    rw [Scene.node?_withMachine, hm, Function.update_self]
  refine (hdrift.fair_of_nowhere hs).trans (fair_give (hdrift.quiet hs).1 ?_ ?_ ?_ ?_)
  · exact fun i hi => absurd hi (hfree i)
  · exact fun i hi => (Option.some.inj hi).symm
  · exact fun _ => hthere
  · exact fun _ => haside

/-- A builder may strike a lock of its own from the account. -/
theorem fair_strike {depth : Nat} (hs : Sound C s) (hown : s.owner d depth = some me) :
    Fair C me s (s.give d depth none) := by
  refine fair_give hs (fun i hi => ?_) (fun i hi => ?_) (fun h => absurd rfl h)
    fun h => absurd rfl h
  · rw [hown] at hi
    exact (Option.some.inj hi).symm
  · cases hi

/-- A builder may give back a lock of its own. -/
theorem fair_giveBack {depth : Nat} (hs : Sound C s) (hown : s.owner d depth = some me)
    (hdue : m.due = s.machine.due)
    (hm : m.files.node? = Function.update s.node? (C.site.lockPlace d depth) none) :
    Fair C me s ((s.withMachine m).give d depth none) := by
  have hstrike := fair_strike hs hown
  have haside := hs.aside d depth me hown
  have hdrift : Drift C nowhere (s.give d depth none) ((s.give d depth none).withMachine m) :=
    drift_unlock hdue (Scene.owner_give_self s d depth none) haside hm
  exact hstrike.trans (hdrift.fair_of_nowhere hstrike.sound)

end KernelCache
