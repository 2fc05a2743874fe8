/-
**Store and locks as builders use them.**

For each operation of the store and of the locks: what holds in the scene at its end, given what the
builder can rely on at its start.

Main definitions:

* `CacheError.IsChecksumFailure` — a checksum that is missing or does not fit.

Main results:

* `needs_contains`, `needs_get`, `needs_verified` — reading entries;
* `needs_ensureEntryDir` — making directories;
* `needs_acquire`, `needs_release`, `needs_waitLoop`, `needs_waitAtMostLoop` — locks.
-/

import KernelCache.Proofs.Crew.Logic

set_option relaxedAutoImplicit false
set_option autoImplicit false

namespace KernelCache

/-- Whether a failure says that a checksum is missing or does not fit. -/
def CacheError.IsChecksumFailure : CacheError → Prop
  | .missingChecksum _ | .checksumMismatch .. => True
  | _ => False

section

variable {ι : Type} {C : Crew ι} {me : ι} {s s' : Scene ι} {d : Digest}
  {err : CacheError → Scene ι → Prop}

/-! ### Reading -/

/-- A file of an open entry is found where it is. -/
theorem lookup_of_has (hopen : s.Open C.site d) {name : String} {b : Bytes}
    (hname : Plain (Utf8.encode name)) (hhas : s.Has (C.site.filePlace d name) b) :
    s.machine.files.lookup ((C.site.store.entryDir d).child name) =
      .ok (C.site.filePlace d name, .file b) := by
  have hnode : s.machine.files.node? (C.site.filePlace d name) = some (.file b) := hhas
  rw [FileSystem.lookup_child hname hopen, place_child hname, hnode]

theorem readFile_of_has (hopen : s.Open C.site d) {name : String} {b : Bytes}
    (hname : Plain (Utf8.encode name)) (hhas : s.Has (C.site.filePlace d name) b) :
    s.machine.files.readFile ((C.site.store.entryDir d).child name) = .ok b := by
  have hnode : s.machine.files.node? (C.site.filePlace d name) = some (.file b) := hhas
  rw [FileSystem.readFile_child hname hopen, place_child hname, hnode]

/-- Whatever is read from an entry is in it, and the entry is open. -/
theorem has_of_readFile {name : String} {b : Bytes} (hname : Plain (Utf8.encode name))
    (h : s.machine.files.readFile ((C.site.store.entryDir d).child name) = .ok b) :
    s.Has (C.site.filePlace d name) b ∧ s.Open C.site d := by
  have hfile := FileSystem.readFile_ok h
  rw [place_child hname] at hfile
  exact ⟨hfile, FileSystem.walkable_of_readFile hname h⟩

theorem needs_contains {k : Artifact} {ok : Bool → Scene ι → Prop}
    (htrue : ∀ s₁, Later C me s s₁ → s₁.Open C.site d →
      s₁.node? (C.site.filePlace d (C.site.store.fileName k)) ≠ none → ok true s₁)
    (hfalse : ∀ s₁, Later C me s s₁ →
      (s₁.Open C.site d → ∀ b, ¬s₁.Has (C.site.filePlace d (C.site.store.fileName k)) b) →
        ok false s₁)
    (herr : ∀ p e s₁, Later C me s s₁ → err (.io p e) s₁) :
    Task.Needs True (fileNeeds C me) ok err (C.site.store.contains d k) s := by
  rw [Store.contains, Task.needs_bind, Task.needs_lift]
  refine needs_look fun s₁ h₁ => ?_
  cases hl : s₁.machine.files.lookup (C.site.store.path d k) with
  | ok found =>
      have hopen : s₁.Open C.site d := FileSystem.walkable_of_lookup (C.site.plain_fileName k) hl
      obtain ⟨-, hnode⟩ := FileSystem.lookup_ok hl
      rw [C.site.place_path] at hnode
      refine Task.needs_pure_of (htrue s₁ h₁ hopen fun hnone => ?_)
      cases hnone.symm.trans hnode
  | error e =>
      cases e with
      | notFound =>
          refine Task.needs_pure_of (hfalse s₁ h₁ fun hopen b hb => ?_)
          have hfound := lookup_of_has hopen (C.site.plain_fileName k) hb
          rw [Store.path, hfound] at hl
          cases hl
      | _ => exact Task.needs_throw_of (herr _ _ s₁ h₁)

theorem needs_get {k : Artifact} {ok : Option Bytes → Scene ι → Prop}
    (hsome : ∀ b s₁, Later C me s s₁ → s₁.Open C.site d →
      s₁.Has (C.site.filePlace d (C.site.store.fileName k)) b → ok (some b) s₁)
    (hnone : ∀ s₁, Later C me s s₁ →
      (s₁.Open C.site d → ∀ b, ¬s₁.Has (C.site.filePlace d (C.site.store.fileName k)) b) →
        ok none s₁)
    (herr : ∀ p e s₁, Later C me s s₁ → err (.io p e) s₁) :
    Task.Needs True (fileNeeds C me) ok err (C.site.store.get d k) s := by
  rw [Store.get, Task.needs_bind, Task.needs_lift]
  refine needs_read fun s₁ h₁ => ?_
  cases hr : s₁.machine.files.readFile (C.site.store.path d k) with
  | ok b =>
      obtain ⟨hhas, hopen⟩ := has_of_readFile (C.site.plain_fileName k) hr
      exact Task.needs_pure_of (hsome b s₁ h₁ hopen hhas)
  | error e =>
      cases e with
      | notFound =>
          refine Task.needs_pure_of (hnone s₁ h₁ fun hopen b hb => ?_)
          have hread := readFile_of_has hopen (C.site.plain_fileName k) hb
          rw [Store.path, hread] at hr
          cases hr
      | _ => exact Task.needs_throw_of (herr _ _ s₁ h₁)

/-- What `verified` does after it has read the bytes of a binary. -/
theorem needs_check {b : Bytes} {ok : Option Path → Scene ι → Prop} (hopen : s.Open C.site d)
    (hbinary : s.Has (C.binaryPlace d) b)
    (hsome : ∀ s₁, Later C me s s₁ → ok (some (C.site.store.path d .binary)) s₁)
    (herr : ∀ e s₁, Later C me s s₁ → (C.vacant d → ¬e.IsChecksumFailure) → err e s₁) :
    Task.Needs True (fileNeeds C me) (fun expected => Task.Needs True (fileNeeds C me) ok err
      (if (Checksum.of b).toText = expected then pure (some (C.site.store.path d .binary))
      else throw (.checksumMismatch (C.site.store.path d .binary) expected
        (Checksum.of b).toText))) err (C.site.store.recordedChecksum d) s := by
  by_cases hd : C.vacant d
  · -- the binary is still there, and so is its checksum
    have hread (s₁ : Scene ι) (h₁ : Later C me s s₁) :
        s₁.machine.files.readFile (C.site.store.sidecar d) =
          .ok (Utf8.encode (Checksum.of b).toText) :=
      readFile_of_has (h₁.relies.grows.isOpen d hopen) Site.plain_sidecar
        ((h₁.sound.entry d hd).binary b (h₁.relies.grows.binary d hd b hbinary))
    rw [Store.recordedChecksum, Task.needs_bind, Task.needs_lift]
    refine needs_read fun s₁ h₁ => ?_
    rw [hread s₁ h₁]
    simp only [Utf8.decode?_encode, Task.needs_pure, Checksum.trim_toText, String.ofList_toList,
      if_true]
    exact hsome s₁ h₁
  · have hany (e : CacheError) (s₁ : Scene ι) (h₁ : Later C me s s₁) : err e s₁ :=
      herr e s₁ h₁ fun h => absurd h hd
    rw [Store.recordedChecksum, Task.needs_bind, Task.needs_lift]
    refine needs_read fun s₁ h₁ => ?_
    cases hr : s₁.machine.files.readFile (C.site.store.sidecar d) with
    | ok bytes =>
        cases hdec : Utf8.decode? bytes with
        | none =>
            simp only [hdec, Task.needs_throw]
            exact hany _ s₁ h₁
        | some text =>
            simp only [hdec, Task.needs_pure]
            split
            · exact Task.needs_pure_of (hsome s₁ h₁)
            · exact Task.needs_throw_of (hany _ s₁ h₁)
    | error e => cases e <;> exact Task.needs_throw_of (hany _ s₁ h₁)

theorem needs_verified {ok : Option Path → Scene ι → Prop}
    (hnone : ∀ s₁, Later C me s s₁ → (C.vacant d → ∀ b, ¬s₁.Has (C.binaryPlace d) b) → ok none s₁)
    (hsome : ∀ s₁, Later C me s s₁ → (C.vacant d → ∃ b, s₁.Has (C.binaryPlace d) b) →
      ok (some (C.site.store.path d .binary)) s₁)
    (herr : ∀ e s₁, Later C me s s₁ → (C.vacant d → ¬e.IsChecksumFailure) → err e s₁) :
    Task.Needs True (fileNeeds C me) ok err (C.site.store.verified d) s := by
  rw [Store.verified, Task.needs_bind]
  refine needs_get (fun b s₁ h₁ hopen hhas => ?_) (fun s₁ h₁ hnot => ?_) fun p e s₁ h₁ => ?_
  · simp only [Task.needs_bind]
    exact needs_check hopen hhas
      (fun s₂ h₂ => hsome s₂ (h₁.trans h₂) fun hd => ⟨b, h₂.relies.grows.binary d hd b hhas⟩)
      fun e s₂ h₂ => herr e s₂ (h₁.trans h₂)
  · exact Task.needs_pure_of <| hnone s₁ h₁ fun hd b hb =>
      hnot ((h₁.sound.entry d hd).isOpen b (Or.inr hb)) b hb
  · exact herr _ s₁ h₁ fun _ => id

/-! ### Directories -/

theorem needs_makeDirectory {p : Path} {post : Except Failure Unit → Scene ι → Prop}
    (h : ∀ r s₁, Later C me s s₁ → post r s₁) :
    Program.Needs True (fileNeeds C me) post (Ask.makeDirectory p) s :=
  needs_calm (a := .makeDirectory p) trivial h

theorem needs_unlessThere {p : Path} {e : Failure} {post : Except Failure Unit → Scene ι → Prop}
    (h : ∀ r s₁, Later C me s s₁ → post r s₁) :
    Program.Needs True (fileNeeds C me) post (unlessThere p e) s := by
  rw [unlessThere, isDirectory, Program.needs_bind, Program.needs_bind]
  refine needs_look fun s₁ h₁ => ?_
  split
  · exact Program.needs_pure_of (Program.needs_pure_of (h _ s₁ h₁))
  · exact Program.needs_pure_of (Program.needs_pure_of (h _ s₁ h₁))

/-- Making directories changes no file. -/
theorem needs_makeAll (hs : Sound C s) (l : List Path)
    {post : Except Failure Unit → Scene ι → Prop} (h : ∀ r s₁, Later C me s s₁ → post r s₁) :
    Program.Needs True (fileNeeds C me) post (makeAll l) s := by
  induction l generalizing s post with
  | nil => exact Program.needs_pure_of (h _ s (Later.refl hs))
  | cons p up ih =>
      rw [makeAll]
      split
      · exact Program.needs_pure_of (h _ s (Later.refl hs))
      · rw [Program.needs_bind]
        refine needs_makeDirectory fun r s₁ h₁ => ?_
        have h' (r : Except Failure Unit) (s₂ : Scene ι) (h₂ : Later C me s₁ s₂) : post r s₂ :=
          h r s₂ (h₁.trans h₂)
        split
        · exact Program.needs_pure_of (h _ s₁ h₁)
        · rw [Program.needs_bind]
          refine ih h₁.sound fun r s₂ h₂ => ?_
          split
          · exact Program.needs_pure_of (h' _ s₂ h₂)
          · rw [Program.needs_bind]
            refine needs_makeDirectory fun r s₃ h₃ => ?_
            split
            · exact Program.needs_pure_of (h' _ s₃ (h₂.trans h₃))
            · exact needs_unlessThere fun r s₄ h₄ => h' r s₄ ((h₂.trans h₃).trans h₄)
        · exact needs_unlessThere h'

theorem needs_makeDirectories (hs : Sound C s) (p : Path)
    {post : Except Failure Unit → Scene ι → Prop} (h : ∀ r s₁, Later C me s s₁ → post r s₁) :
    Program.Needs True (fileNeeds C me) post (makeDirectories p) s := by
  rw [makeDirectories]
  generalize p.lineage = l
  exact needs_makeAll hs l h

theorem needs_ensureEntryDir (hs : Sound C s) {ok : Path → Scene ι → Prop}
    (hok : ∀ s₁, Later C me s s₁ → ok (C.site.store.entryDir d) s₁)
    (herr : ∀ p e s₁, Later C me s s₁ → err (.io p e) s₁) :
    Task.Needs True (fileNeeds C me) ok err (C.site.store.ensureEntryDir d) s := by
  rw [Store.ensureEntryDir, Task.needs_bind, needs_attempt]
  refine needs_makeDirectories hs _ fun r s₁ h₁ => ?_
  cases r with
  | ok _ => exact Task.needs_pure_of (hok s₁ h₁)
  | error e => exact herr _ e s₁ h₁

/-! ### Locks -/

theorem needs_checkDepth {depth : Nat} {ok : Unit → Scene ι → Prop} (hok : ok () s)
    (herr : err (.lockDepth depth) s) :
    Task.Needs True (fileNeeds C me) ok err (LockTable.checkDepth depth) s := by
  rw [LockTable.checkDepth]
  split
  · exact Task.needs_pure_of hok
  · exact Task.needs_throw_of herr

theorem needs_acquire {depth : Nat} (hs : Sound C s) {ok : Bool → Scene ι → Prop}
    (htrue : ∀ s₁, Sound C s₁ → s₁.owner d depth = some me → ok true s₁)
    (hfalse : ∀ s₁, Later C me s s₁ → ok false s₁)
    (herr : ∀ e s₁, Later C me s s₁ → ¬e.IsChecksumFailure → err e s₁) :
    Task.Needs True (fileNeeds C me) ok err (C.site.locks.acquire d depth) s := by
  rw [LockTable.acquire, Task.needs_bind]
  refine needs_checkDepth ?_ (herr _ s (Later.refl hs) id)
  rw [Task.needs_bind, needs_attempt]
  refine needs_makeDirectories hs _ fun r s₁ h₁ => ?_
  cases r with
  | error e => exact herr _ s₁ h₁ id
  | ok _ =>
      simp only [Task.Outcome, Task.needs_bind, Task.needs_lift]
      refine needs_take (fun s₂ hs₂ hown => ?_) fun e s₂ h₂ => ?_
      · simp only [Task.needs_bind, Task.needs_lift]
        refine needs_calm (a := .hold _) trivial fun _ s₃ h₃ => ?_
        exact Task.needs_pure_of <| htrue s₃ h₃.sound ((h₃.relies.owner d depth).2 hown)
      · cases e with
        | alreadyExists => exact Task.needs_pure_of (hfalse s₂ (h₁.trans h₂))
        | _ => exact Task.needs_throw_of (herr _ s₂ (h₁.trans h₂) id)

theorem needs_release {depth : Nat} (hs : Sound C s) (hown : s.owner d depth = some me)
    {ok : Unit → Scene ι → Prop} (hok : ∀ s₁, Sound C s₁ → ok () s₁)
    (herr : ∀ e s₁, Sound C s₁ → ¬e.IsChecksumFailure → err e s₁) :
    Task.Needs True (fileNeeds C me) ok err (C.site.locks.release d depth) s := by
  rw [LockTable.release, Task.needs_bind]
  refine needs_checkDepth ?_ (herr _ s hs id)
  rw [LockTable.releasePath, Task.needs_bind, Task.needs_lift]
  refine needs_calm (a := .letGo _) trivial fun _ s₁ h₁ => ?_
  rw [Task.needs_bind, Task.needs_lift]
  refine needs_giveBack ((h₁.relies.owner d depth).2 hown) fun r s₂ hs₂ => ?_
  split
  · exact Task.needs_pure_of (hok s₂ hs₂)
  · exact Task.needs_pure_of (hok s₂ hs₂)
  · exact Task.needs_throw_of (herr _ s₂ hs₂ id)

theorem needs_releaseQuietly {depth : Nat} (hs : Sound C s) (hown : s.owner d depth = some me)
    {post : Unit → Scene ι → Prop} (h : ∀ s₁, Sound C s₁ → post () s₁) :
    Program.Needs True (fileNeeds C me) post (C.site.locks.releaseQuietly d depth) s := by
  rw [LockTable.releaseQuietly, Program.needs_bind, Task.needs_run]
  simp only [Program.needs_pure]
  exact needs_release hs hown h fun _ s₁ hs₁ _ => h s₁ hs₁

theorem needs_present {lock : Path} {ok : Bool → Scene ι → Prop}
    (hok : ∀ b s₁, Later C me s s₁ → ok b s₁)
    (herr : ∀ p e s₁, Later C me s s₁ → err (.io p e) s₁) :
    Task.Needs True (fileNeeds C me) ok err (LockTable.present lock) s := by
  rw [LockTable.present, Task.needs_bind, Task.needs_lift]
  refine needs_look fun s₁ h₁ => ?_
  split
  · exact Task.needs_pure_of (hok _ s₁ h₁)
  · exact Task.needs_pure_of (hok _ s₁ h₁)
  · exact Task.needs_throw_of (herr _ _ s₁ h₁)

theorem needs_waitLoop {lock : Path} (pause polls : Nat) {ok : Unit → Scene ι → Prop}
    (hok : ∀ s₁, Later C me s s₁ → ok () s₁)
    (herr : ∀ e s₁, Later C me s s₁ → ¬e.IsChecksumFailure → err e s₁) :
    Task.Needs True (fileNeeds C me) ok err (LockTable.waitLoop lock pause polls) s := by
  induction polls generalizing pause s with
  | zero => exact Task.needs_stalled s
  | succ polls ih =>
      rw [LockTable.waitLoop, Task.needs_bind]
      refine needs_present (fun b s₁ h₁ => ?_) fun p e s₁ h₁ => herr _ s₁ h₁ id
      cases b with
      | false => exact Task.needs_pure_of (hok s₁ h₁)
      | true =>
          simp only [if_true, Task.needs_bind, Task.needs_lift]
          refine needs_calm (a := .sleep _) trivial fun _ s₂ h₂ => ?_
          exact ih (LockTable.nextPause pause) (fun s₃ h₃ => hok s₃ ((h₁.trans h₂).trans h₃))
            fun e s₃ h₃ => herr e s₃ ((h₁.trans h₂).trans h₃)

theorem needs_waitAtMostLoop {lock : Path} (start timeout pause polls : Nat)
    {ok : Unit → Scene ι → Prop} (hok : ∀ s₁, Later C me s s₁ → ok () s₁)
    (herr : ∀ e s₁, Later C me s s₁ → ¬e.IsChecksumFailure → err e s₁) :
    Task.Needs True (fileNeeds C me) ok err
      (LockTable.waitAtMostLoop lock start timeout pause polls) s := by
  induction polls generalizing pause s with
  | zero => exact Task.needs_stalled s
  | succ polls ih =>
      rw [LockTable.waitAtMostLoop, Task.needs_bind]
      refine needs_present (fun b s₁ h₁ => ?_) fun p e s₁ h₁ => herr _ s₁ h₁ id
      cases b with
      | false => exact Task.needs_pure_of (hok s₁ h₁)
      | true =>
          simp only [if_true, Task.needs_bind, Task.needs_lift]
          refine needs_calm (a := .now) trivial fun now s₂ h₂ => ?_
          split
          · exact Task.needs_throw_of (herr _ s₂ (h₁.trans h₂) id)
          · simp only [Task.needs_bind, Task.needs_lift]
            refine needs_calm (a := .sleep _) trivial fun _ s₃ h₃ => ?_
            have h' := (h₁.trans h₂).trans h₃
            exact ih (LockTable.nextPause pause) (fun s₄ h₄ => hok s₄ (h'.trans h₄))
              fun e s₄ h₄ => herr e s₄ (h'.trans h₄)

end

end KernelCache
