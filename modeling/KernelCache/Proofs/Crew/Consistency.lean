/-
**Entries are consistent at every moment.**

Wherever a run is cut off, a source is there only with the manifest of the same translation, and a
binary only with its own checksum.  Neither ever changes, so a reader may take its time between the
one and the other.

Main definitions:

* `World.seen` — what a reader sees while the builders go on.

Main results:

* `Coherent.manifest_of_source`, `Coherent.sidecar_of_binary` — what an entry has;
* `Coherent.verified_of_runs` — readers of a binary find its checksum;
* `entry_consistent` — **consistency of entries, in every run with crashes**.
-/

import KernelCache.Proofs.Crew.Alone

set_option relaxedAutoImplicit false
set_option autoImplicit false

namespace KernelCache

variable {ι : Type} {C : Crew ι} {w w' w₀ : World ι} {i : ι} {d : Digest}
  {owner : Digest → Nat → Option ι}

/-! ### What an entry has -/

/-- A source has beside it the manifest from the same call of the translator. -/
theorem Coherent.manifest_of_source (h : Coherent C w owner) (hd : C.vacant d) {b : Bytes}
    (hb : w.Has (C.sourcePlace d) b) : ∃ c ∈ w.calls, C.callKey c = d ∧
      b = Utf8.encode c.result.source ∧
      ∃ m, w.Has (C.manifestPlace d) m ∧ Manifest.ofBytes? m = some (C.manifest c) := by
  obtain ⟨c, hc, hkey, hbytes, hmanifest⟩ := (h.sound.entry d hd).source b hb
  exact ⟨c, hc, hkey, hbytes, _, hmanifest, Manifest.ofBytes?_toBytes _⟩

/-- A binary has its checksum beside it. -/
theorem Coherent.sidecar_of_binary (h : Coherent C w owner) (hd : C.vacant d) {b : Bytes}
    (hb : w.Has (C.binaryPlace d) b) :
    w.Has (C.sidecarPlace d) (Utf8.encode (Checksum.of b).toText) :=
  (h.sound.entry d hd).binary b hb

/-- A builder of the entry does not fail because of a checksum. -/
theorem Coherent.not_isChecksumFailure (h : Coherent C w owner) (hd : C.vacant d) {e : BuildError}
    (hi : w.Builds C d i) (he : w.rest i = .done (.error e)) : ¬e.IsChecksumFailure := by
  obtain ⟨b, hb, rfl⟩ := hi
  have hcourse := h.course i
  rw [he, hb, OnCourse, Program.needs_done] at hcourse
  exact hcourse hd

/-! ### Readers -/

/-- What a reader sees that asks one thing in each world of a sequence. -/
def World.seen (ws : Nat → World ι) (n : Nat) (a : Action) : a.Reply :=
  (Process.perform a ⟨(ws n).machine, .empty⟩).1

theorem needs_of_sees {ws : Nat → World ι} {n : Nat} {a : Action} {post : a.Reply → Nat → Prop}
    (h : post (World.seen ws n a) (n + 1)) :
    Program.Needs True (Program.Sees (World.seen ws)) post (Program.act a) n := by
  rw [Program.needs_act]
  exact h

theorem needs_readSeen {ws : Nat → World ι} {n : Nat} {p : Path}
    {post : Except Failure Bytes → Nat → Prop}
    (h : post ((ws n).machine.files.readFile p) (n + 1)) :
    Program.Needs True (Program.Sees (World.seen ws)) post (Ask.read p) n :=
  needs_of_sees (a := .read p) h

section

variable [DecidableEq ι]

/-- A reader that has read a binary finds its checksum later. -/
theorem Coherent.sidecar_of_run (h : Coherent C w owner) (hd : C.vacant d) {b : Bytes}
    (hb : w.machine.files.readFile (C.site.store.path d .binary) = .ok b) (hrun : Run C w w') :
    w'.machine.files.readFile (C.site.store.sidecar d) =
      .ok (Utf8.encode (Checksum.of b).toText) := by
  obtain ⟨hhas, hopen⟩ := has_of_readFile (s := w.scene owner) Site.plain_binary hb
  obtain ⟨owner', h', hgrows⟩ := hrun.coherent h
  exact readFile_of_has (s := w'.scene owner') (hgrows.isOpen d hopen) Site.plain_sidecar
    (h'.sidecar_of_binary hd (hgrows.binary d hd b hhas))

/-- Readers of a binary, which look at the binary and at its checksum one after the other, never
find that the checksum is missing or does not fit. -/
theorem Coherent.verified_of_runs (h : Coherent C w owner) (hd : C.vacant d) {ws : Nat → World ι}
    (hzero : ws 0 = w) (hruns : ∀ n, Run C (ws n) (ws (n + 1))) {e : CacheError}
    (he : Program.observe (World.seen ws) (C.site.store.verified d).run 0 = some (.error e)) :
    ¬e.IsChecksumFailure := by
  have hneeds : Task.Needs True (Program.Sees (World.seen ws)) (fun _ _ => True)
      (fun e _ => ¬e.IsChecksumFailure) (C.site.store.verified d) 0 := by
    rw [Store.verified, Task.needs_bind, Store.get, Task.needs_bind, Task.needs_lift]
    refine needs_readSeen ?_
    cases hr : (ws 0).machine.files.readFile (C.site.store.path d .binary) with
    | error e =>
        cases e with
        | notFound => exact Task.needs_pure_of (Task.needs_pure_of trivial)
        | _ => exact Task.needs_throw_of id
    | ok b =>
        have hside := h.sidecar_of_run hd (hzero ▸ hr) (hzero ▸ hruns 0)
        refine Task.needs_pure_of ?_
        simp only [Task.needs_bind]
        rw [Store.recordedChecksum, Task.needs_bind, Task.needs_lift]
        refine needs_readSeen ?_
        rw [hside]
        simp only [Utf8.decode?_encode]
        refine Task.needs_pure_of ?_
        rw [Checksum.trim_toText, String.ofList_toList, if_pos rfl]
        exact Task.needs_pure_of trivial
  exact Task.observe_of_needs hneeds he

/-- **Consistency of entries.**  However the steps of any number of builders interleave, wherever
builders die, and although locks that were left behind are removed while nobody is at work: a source
is there only with a manifest that can be read and comes from the same call of the translator, and a
binary only with its checksum; and neither readers nor builders ever find that a checksum is missing
or does not fit. -/
theorem entry_consistent (hstart : w₀.Starts C) (hd : C.vacant d) (hrun : Run C w₀ w) :
    (∀ b, w.Has (C.sourcePlace d) b → ∃ c ∈ w.calls, C.callKey c = d ∧
        b = Utf8.encode c.result.source ∧
        ∃ m, w.Has (C.manifestPlace d) m ∧ Manifest.ofBytes? m = some (C.manifest c)) ∧
      (∀ b, w.Has (C.binaryPlace d) b →
        w.Has (C.sidecarPlace d) (Utf8.encode (Checksum.of b).toText)) ∧
      (∀ ws, ws 0 = w → (∀ n, Run C (ws n) (ws (n + 1))) → ∀ e,
        Program.observe (World.seen ws) (C.site.store.verified d).run 0 = some (.error e) →
          ¬e.IsChecksumFailure) ∧
      ∀ i e, w.Builds C d i → w.rest i = .done (.error e) → ¬e.IsChecksumFailure := by
  obtain ⟨owner, h, -⟩ := hrun.coherent hstart.coherent
  exact ⟨fun b => h.manifest_of_source hd, fun b => h.sidecar_of_binary hd,
    fun ws hzero hruns e => h.verified_of_runs hd hzero hruns,
    fun i e => h.not_isChecksumFailure hd⟩

end

/-- One of two builders has published everything, and the other has died: the entry is as it should
be. -/
theorem pair_consistent : ∃ w, Run Crew.pair (World.start Crew.pair Crew.Pair.files) w ∧
    w.rest false = .stalled ∧
    (∃ m c, w.Has (Crew.pair.manifestPlace Crew.Pair.digest) m ∧
      Manifest.ofBytes? m = some (Crew.pair.manifest c)) ∧
    ∃ b, w.Has (Crew.pair.binaryPlace Crew.Pair.digest) b ∧
      w.Has (Crew.pair.sidecarPlace Crew.Pair.digest) (Utf8.encode (Checksum.of b).toText) := by
  obtain ⟨w, hrun, ⟨b, hb⟩, ⟨c, hc⟩, -⟩ := Crew.Pair.exists_run
  have hdies : Run Crew.pair (World.start Crew.pair Crew.Pair.files) (w.go false .stalled) :=
    hrun.tail .die
  obtain ⟨hsource, hbinary, -⟩ :=
    entry_consistent (d := Crew.Pair.digest) Crew.Pair.starts trivial hdies
  obtain ⟨call, -, -, -, m, hm, hparse⟩ := hsource b hb
  have hdead : (w.go false .stalled).rest false = .stalled := by simp [World.go]
  exact ⟨_, hdies, hdead, ⟨m, call, hm, hparse⟩, c, hc, hbinary c hc⟩

end KernelCache
