/-
**Checking a binary while it is replaced.**

A binary and its checksum are two files.  Who replaces a binary moves the new checksum to its place
first and the new binary after it, and who checks a binary reads the binary first and its checksum
after it.  The one may be at work while the other is.  Each file is replaced at once, so the check
never finds one of them missing or broken.  But nothing replaces both at once: if the old binary is
read and then the new checksum, the check fails, and if the new binary never gets to its place, it
fails for ever.

Main definitions:

* `Store.verdict`, `Store.verifiedAcross` — **what a check tells, of what it reads at two times**;
* `Site.Replaces` — putting or publishing another binary;
* `Bench.Swaps` — how far the replacement has come.

Main results:

* `Store.does_verified` — a check reads the two files and tells its verdict;
* `Bench.Change.swaps`, `Bench.Change.moved_suffix` — **the checksum is replaced first**;
* `verified_while_replaced` — **what a check tells while a binary is replaced**;
* `halfway_binary_refused` — a check that fails because the new binary is not there yet.
-/

import KernelCache.Proofs.Locks.Listing
import KernelCache.Proofs.Program
import KernelCache.Proofs.Store.Writing

set_option relaxedAutoImplicit false
set_option autoImplicit false

namespace KernelCache

/-! ### Checking a binary -/

namespace Store

variable {st : Store} {d : Digest}

/-- What a check of a binary tells, if reading the binary and then its checksum gives this. -/
def verdict (st : Store) (d : Digest) :
    Except Failure Bytes → Except Failure Bytes → Except CacheError (Option Path)
  | .error .notFound, _ => .ok none
  | .error e, _ => .error (.io (st.path d .binary) e)
  | .ok _, .error .notFound => .error (.missingChecksum (st.path d .binary))
  | .ok _, .error e => .error (.io (st.sidecar d) e)
  | .ok b, .ok c =>
    match Utf8.decode? c with
    | none => .error (.io (st.sidecar d) .notText)
    | some text =>
      if (Checksum.of b).toText = String.ofList (Text.trim text) then .ok (some (st.path d .binary))
      else .error (.checksumMismatch (st.path d .binary) (String.ofList (Text.trim text))
        (Checksum.of b).toText)

/-- The verdict on a binary with a checksum that was recorded for some contents. -/
theorem verdict_recorded (b c : Bytes) :
    st.verdict d (.ok b) (.ok (Utf8.encode (Checksum.of c).toText)) =
      if (Checksum.of b).toText = (Checksum.of c).toText then .ok (some (st.path d .binary))
      else .error (.checksumMismatch (st.path d .binary) (Checksum.of c).toText
        (Checksum.of b).toText) := by
  simp only [verdict, Utf8.decode?_encode, Checksum.trim_toText, String.ofList_toList]

/-- A binary that passes the check was read, and so was its checksum. -/
theorem exists_of_verdict {x y : Except Failure Bytes} {p : Path}
    (h : st.verdict d x y = .ok (some p)) : ∃ b c, x = .ok b ∧ y = .ok c := by
  unfold verdict at h
  split at h
  · cases h
  · cases h
  · cases h
  · cases h
  · exact ⟨_, _, rfl, rfl⟩

theorem does_act {σ : Type} {perform : (a : Action) → σ → a.Reply × σ} (a : Action)
    {post : a.Reply → σ → Prop} {s : σ} (h : post (perform a s).1 (perform a s).2) :
    Program.Needs False (Program.Does perform) post (Program.act a) s := by
  rw [Program.needs_act]
  exact h

/-- **A check reads the two files and tells its verdict**, whatever else happens meanwhile. -/
theorem does_verified {σ : Type} (st : Store) (d : Digest)
    (perform : (a : Action) → σ → a.Reply × σ) (s : σ) :
    Program.Needs False (Program.Does perform)
      (fun r _ => r = st.verdict d (perform (.read (st.path d .binary)) s).1
        (perform (.read (st.sidecar d)) (perform (.read (st.path d .binary)) s).2).1)
      (st.verified d).run s := by
  rw [Task.needs_run, verified, Task.needs_bind, get, Task.needs_bind, Task.needs_lift]
  refine does_act (.read (st.path d .binary)) ?_
  generalize perform (.read (st.path d .binary)) s = first
  obtain ⟨x, s₁⟩ := first
  dsimp only
  cases x with
  | error e =>
      cases e with
      | notFound =>
          rw [Task.needs_pure]
          exact Task.needs_pure_of rfl
      | _ => exact Task.needs_throw_of rfl
  | ok b =>
      rw [Task.needs_pure, Task.needs_bind, recordedChecksum, Task.needs_bind, Task.needs_lift]
      refine does_act (.read (st.sidecar d)) ?_
      generalize perform (.read (st.sidecar d)) s₁ = second
      obtain ⟨y, s₂⟩ := second
      dsimp only
      cases y with
      | error e => cases e <;> exact Task.needs_throw_of rfl
      | ok c =>
          simp only [verdict]
          cases Utf8.decode? c with
          | none => exact Task.needs_throw_of rfl
          | some text =>
              rw [Task.needs_pure]
              dsimp only
              split
              · exact Task.needs_pure_of rfl
              · exact Task.needs_throw_of rfl

/-- What a check tells that reads the binary in one state and its checksum in another: whatever is
asked for after the first answer is asked for in the second state. -/
def verifiedAcross (st : Store) (d : Digest) (s₁ s₂ : Process) :
    Option (Except CacheError (Option Path)) :=
  (Program.run (fun a s => ((s.1.perform a).1, (s.2, s.2))) (st.verified d).run (s₁, s₂)).1

theorem verifiedAcross_eq (st : Store) (d : Digest) (s₁ s₂ : Process) :
    st.verifiedAcross d s₁ s₂ = some (st.verdict d (s₁.machine.files.readFile (st.path d .binary))
      (s₂.machine.files.readFile (st.sidecar d))) := by
  obtain ⟨r, s', hrun, hr⟩ := Program.run_of_needs
    (does_verified st d (fun a (s : Process × Process) => ((s.1.perform a).1, (s.2, s.2))) (s₁, s₂))
  rw [verifiedAcross, hrun, hr]
  rfl

theorem runTask_verified (st : Store) (d : Digest) (s : Process) :
    (s.runTask (st.verified d)).1 =
      some (st.verdict d (s.machine.files.readFile (st.path d .binary))
        (s.machine.files.readFile (st.sidecar d))) := by
  obtain ⟨r, s', hrun, hr⟩ := Program.run_of_needs (does_verified st d Process.perform s)
  rw [Process.runTask, hrun, hr]
  rfl

end Store

/-! ### Replacing a binary -/

/-- The operations that give an entry a new binary: it is put, or it is published from a file that
was reserved and filled. -/
inductive Site.Replaces (S : Site) (d : Digest) (new : Bytes) (s : Process) :
    FileProgram (Except CacheError Path) → Prop
  | put : S.Replaces d new s (S.store.put d .binary new).run
  | publish {p : Path} (hp : s.Offers S p (some new)) :
      S.Replaces d new s (S.store.publish d .binary p).run

/-- What may be moved where while a binary is replaced: its checksum first, and then the binary. -/
def Site.replacing (S : Site) (d : Digest) (new : Bytes) (h : Bench) (q : Path)
    (v : Option Bytes) : Prop :=
  (h.moved = [] ∧ q = S.store.sidecar d ∧ v = some (Utf8.encode (Checksum.of new).toText)) ∨
    (h.moved = [S.store.sidecar d] ∧ q = S.store.path d .binary ∧ v = some new)

theorem Site.path_binary_ne_sidecar (S : Site) (d : Digest) :
    S.store.path d .binary ≠ S.store.sidecar d := fun heq =>
  binary_place_ne_sidecar (S := S) d (congrArg Path.place heq)

section

variable {S : Site} {d : Digest} {new b : Bytes} {h : Bench}

theorem Site.replacing_sidecar (hmoved : h.moved = []) (hb : b = new) :
    S.replacing d new h (S.store.sidecar d) (some (Utf8.encode (Checksum.of b).toText)) := by
  rw [hb]
  exact Or.inl ⟨hmoved, rfl, rfl⟩

theorem Site.replacing_path (hmoved : h.moved = [S.store.sidecar d]) :
    S.replacing d new h (S.store.path d .binary) (some new) := Or.inr ⟨hmoved, rfl, rfl⟩

end

namespace Bench

/-- How far a replacement has come from the old binary and checksum to the new ones. -/
structure Swaps (S : Site) (d : Digest) (old new sum : Bytes) (h : Bench) (s : Process) :
    Prop where
  way : s.machine.files.Walkable (S.store.entryDir d)
  order : h.moved = [] ∨ h.moved = [S.store.sidecar d] ∨
    h.moved = [S.store.path d .binary, S.store.sidecar d]
  binary : s.node? (S.store.path d .binary).place =
    some (.file (if S.store.path d .binary ∈ h.moved then new else old))
  checksum : s.node? (S.store.sidecar d).place =
    some (.file (if S.store.sidecar d ∈ h.moved then Utf8.encode (Checksum.of new).toText else sum))

variable {S : Site} {may : Bench → Path → Option Bytes → Prop} {h h' : Bench} {s s' : Process}
  {d : Digest} {old new sum : Bytes}

/-- An action moves one file to its place and leaves the others, or it leaves all of them. -/
theorem Change.targets (hchange : Change S may h s h' s') (hfits : h.Fits S s) :
    (h'.moved = h.moved ∧
      ∀ q, S.IsTarget q → s.node? q.place ≠ none → s'.node? q.place = s.node? q.place) ∨
    ∃ p v b, may h p v ∧ (∀ c, v = some c → b = c) ∧ h'.moved = p :: h.moved ∧
      s'.node? p.place = some (.file b) ∧
      ∀ q, S.IsTarget q → q.place ≠ p.place → s'.node? q.place = s.node? q.place := by
  cases hchange with
  | still hh hnodes => exact Or.inl ⟨by rw [hh], fun q _ _ => by rw [hnodes]⟩
  | way hnone hh hnodes =>
      refine Or.inl ⟨by rw [hh], fun q _ hq => ?_⟩
      have hne := ne_of_apply_ne s.node? (hnone.symm ▸ hq)
      rw [hnodes, Function.update_of_ne hne]
  | create hway _ _ hh hnodes =>
      refine Or.inl ⟨by rw [hh, set_moved], fun q hq _ => ?_⟩
      rw [hnodes, Function.update_of_ne (hway.isTemp.place_ne hq).symm]
  | edit hp _ hh hnodes =>
      refine Or.inl ⟨by rw [hh, set_moved], fun q hq _ => ?_⟩
      rw [hnodes, Function.update_of_ne ((hfits _ _ hp).way.isTemp.place_ne hq).symm]
  | drop hp hh hnodes =>
      refine Or.inl ⟨by rw [hh, set_moved], fun q hq _ => ?_⟩
      rw [hnodes, Function.update_of_ne ((hfits _ _ hp).way.isTemp.place_ne hq).symm]
  | @move p q v b hp hmay _ hb _ hh hnodes =>
      refine Or.inr ⟨q, v, b, hmay, hb, by rw [hh, move_moved], ?_, fun r hr hne => ?_⟩
      · rw [hnodes, Function.update_self]
      · rw [hnodes, Function.update_of_ne hne,
          Function.update_of_ne ((hfits _ _ hp).way.isTemp.place_ne hr).symm]

/-- What was moved stays moved. -/
theorem Change.moved_suffix (hchange : Change S may h s h' s') (hfits : h.Fits S s) :
    h.moved <:+ h'.moved := by
  rcases hchange.targets hfits with ⟨hmoved, -⟩ | ⟨p, v, b, -, -, hmoved, -⟩
  · rw [hmoved]
  · rw [hmoved]
    exact List.suffix_cons p h.moved

/-- **The checksum is replaced first, and then the binary.** -/
theorem Change.swaps (hchange : Change S (S.replacing d new) h s h' s') (hfits : h.Fits S s)
    (hswaps : h.Swaps S d old new sum s) : h'.Swaps S d old new sum s' := by
  have hway := hchange.walkable hfits hswaps.way
  have hbinary := Site.isTarget_path (S := S) d .binary
  have hsidecar := Site.isTarget_sidecar (S := S) d
  have hplaces := binary_place_ne_sidecar (S := S) d
  have hpaths := S.path_binary_ne_sidecar d
  rcases hchange.targets hfits with ⟨hmoved, hsame⟩ | ⟨p, v, b, hmay, hb, hmoved, hp, hsame⟩
  · refine ⟨hway, hmoved ▸ hswaps.order, ?_, ?_⟩
    · rw [hmoved, hsame _ hbinary (by simp [hswaps.binary]), hswaps.binary]
    · rw [hmoved, hsame _ hsidecar (by simp [hswaps.checksum]), hswaps.checksum]
  · rcases hmay with ⟨hnone, hpath, hbytes⟩ | ⟨hone, hpath, hbytes⟩
    · -- the new checksum gets to its place
      rw [hpath, hb _ hbytes] at hp
      rw [hnone, hpath] at hmoved
      rw [hpath] at hsame
      refine ⟨hway, Or.inr (Or.inl hmoved), ?_, ?_⟩
      · rw [hsame _ hbinary hplaces, hswaps.binary]
        simp [hmoved, hnone, hpaths]
      · simp [hp, hmoved]
    · -- the new binary gets to its place
      rw [hpath, hb _ hbytes] at hp
      rw [hone, hpath] at hmoved
      rw [hpath] at hsame
      refine ⟨hway, Or.inr (Or.inr hmoved), ?_, ?_⟩
      · simp [hp, hmoved]
      · rw [hsame _ hsidecar hplaces.symm, hswaps.checksum]
        simp [hmoved, hone]

/-- When the new binary is in its place, its checksum is, too. -/
theorem Swaps.sidecar_mem (hswaps : h.Swaps S d old new sum s)
    (hmem : S.store.path d .binary ∈ h.moved) : S.store.sidecar d ∈ h.moved := by
  rcases hswaps.order with hmoved | hmoved | hmoved
  · simp [hmoved] at hmem
  · simp [hmoved, S.path_binary_ne_sidecar d] at hmem
  · simp [hmoved]

/-- What is read of the binary meanwhile. -/
theorem Swaps.readFile_path (hswaps : h.Swaps S d old new sum s) :
    s.machine.files.readFile (S.store.path d .binary) =
      .ok (if S.store.path d .binary ∈ h.moved then new else old) := by
  have hnode : s.machine.files.node? (S.store.path d .binary).place = _ := hswaps.binary
  rw [Store.path] at hnode ⊢
  rw [FileSystem.readFile_child (S.plain_fileName .binary) hswaps.way, hnode]

/-- What is read of the checksum meanwhile. -/
theorem Swaps.readFile_sidecar (hswaps : h.Swaps S d old new sum s) :
    s.machine.files.readFile (S.store.sidecar d) =
      .ok (if S.store.sidecar d ∈ h.moved then Utf8.encode (Checksum.of new).toText else sum) := by
  have hnode : s.machine.files.node? (S.store.sidecar d).place = _ := hswaps.checksum
  rw [Store.sidecar] at hnode ⊢
  rw [FileSystem.readFile_child Site.plain_sidecar hswaps.way, hnode]

end Bench

section

variable {S : Site} {d : Digest} {old new sum : Bytes} {s s' s₁ s₂ : Process}
  {w q : FileProgram (Except CacheError Path)} {calls : List Action}

/-- Who replaces a binary moves the files in order. -/
theorem Site.Replaces.obeys (hw : S.Replaces d new s w) : ∃ h : Bench, h.moved = [] ∧ h.Fits S s ∧
    Program.Obeys (benching S (S.replacing d new)) (fun _ _ => True) w h := by
  cases hw with
  | put =>
      refine ⟨.empty, rfl, ?_, ?_⟩
      · intro p v hp
        cases hp
      rw [Task.obeys_run]
      exact bench_put new (fun _ h' hmoved => Site.replacing_sidecar hmoved rfl)
        (fun h' _ hmoved => Site.replacing_path (hmoved rfl)) (fun _ _ _ => trivial)
        fun _ _ => trivial
  | @publish p hp =>
      refine ⟨Bench.empty.set p (some (some new)), rfl, fun q v hq => ?_, ?_⟩
      · by_cases hqp : q = p
        · subst hqp
          obtain rfl := Option.some.inj (Bench.set_temps_self.symm.trans hq)
          exact hp
        · rw [Bench.set_temps_of_ne hqp] at hq
          cases hq
      · rw [Task.obeys_run]
        exact bench_publish Bench.set_temps_self
          (fun _ b h' hb hmoved => Site.replacing_sidecar hmoved (hb new rfl))
          (fun h' _ hmoved => Site.replacing_path (hmoved rfl)) (fun _ _ _ => trivial)
          fun _ _ => trivial

/-- From one point of a replacement to a later one. -/
theorem Bench.Swaps.runs {h : Bench} (hswaps : h.Swaps S d old new sum s) (hfits : h.Fits S s)
    (hobeys : Program.Obeys (benching S (S.replacing d new)) (fun _ _ => True) w h)
    (hrun : Program.Runs (Process.Fares fun a => ¬a.Removes) w s calls q s') :
    ∃ h' : Bench, Program.Obeys (benching S (S.replacing d new)) (fun _ _ => True) q h' ∧
      h'.Fits S s' ∧ h'.Swaps S d old new sum s' ∧ h.moved <:+ h'.moved := by
  refine hrun.obeys
    (fun h' s => h'.Fits S s ∧ h'.Swaps S d old new sum s ∧ h.moved <:+ h'.moved)
    (fun a post h₁ s₁ r s₂ hact hall hstep => ?_) hobeys ⟨hfits, hswaps, List.suffix_rfl⟩
  obtain ⟨hfits₁, hswaps₁, hsuffix⟩ := hall
  obtain ⟨h₂, hpost, hchange⟩ := benching_change a post hact hfits₁ hstep
  exact ⟨h₂, hpost, hchange.fits hfits₁, hchange.swaps hfits₁ hswaps₁,
    hsuffix.trans (hchange.moved_suffix hfits₁)⟩

/-- A binary that passes its check has not been replaced yet. -/
theorem swaps_of_verified (new : Bytes) (hverified : (s.runTask (S.store.verified d)).1 =
      some (.ok (some (S.store.path d .binary))))
    (hold : s.machine.files.readFile (S.store.path d .binary) = .ok old) :
    ∃ sum, S.store.verdict d (.ok old) (.ok sum) = .ok (some (S.store.path d .binary)) ∧
      ∀ h : Bench, h.moved = [] → h.Swaps S d old new sum s := by
  rw [Store.runTask_verified, hold] at hverified
  have hverdict := Option.some.inj hverified
  obtain ⟨-, sum, -, hsum⟩ := Store.exists_of_verdict hverdict
  rw [hsum] at hverdict
  have hway : s.machine.files.Walkable (S.store.entryDir d) :=
    FileSystem.walkable_of_readFile Site.plain_sidecar hsum
  refine ⟨sum, hverdict, fun h hmoved => ⟨hway, Or.inl hmoved, ?_, ?_⟩⟩
  · rw [hmoved]
    exact FileSystem.readFile_ok hold
  · rw [hmoved]
    exact FileSystem.readFile_ok hsum

/-- The old binary is read, and then the checksum of the new one, which is a different one. -/
structure Site.Outdated (S : Site) (d : Digest) (old new : Bytes) (s₁ s₂ : Process) : Prop where
  binary : s₁.machine.files.readFile (S.store.path d .binary) = .ok old
  checksum : s₂.machine.files.readFile (S.store.sidecar d) =
    .ok (Utf8.encode (Checksum.of new).toText)
  differ : (Checksum.of old).toText ≠ (Checksum.of new).toText

/-- **What a check tells while a binary is replaced**: the binary is good, wherever the replacement
stands at the two times, unless the old binary was read and then the checksum of the new one. -/
theorem verified_while_replaced {calls' : List Action} {q' : FileProgram (Except CacheError Path)}
    (hverified : (s.runTask (S.store.verified d)).1 = some (.ok (some (S.store.path d .binary))))
    (hold : s.machine.files.readFile (S.store.path d .binary) = .ok old)
    (hw : S.Replaces d new s w)
    (hfirst : Program.Runs (Process.Fares fun a => ¬a.Removes) w s calls q s₁)
    (hsecond : Program.Runs (Process.Fares fun a => ¬a.Removes) q s₁ calls' q' s₂) :
    (S.Outdated d old new s₁ s₂ → S.store.verifiedAcross d s₁ s₂ =
      some (.error (.checksumMismatch (S.store.path d .binary) (Checksum.of new).toText
        (Checksum.of old).toText))) ∧
    (¬S.Outdated d old new s₁ s₂ → S.store.verifiedAcross d s₁ s₂ =
      some (.ok (some (S.store.path d .binary)))) := by
  rw [Store.verifiedAcross_eq]
  refine ⟨fun hout => ?_, fun hnot => ?_⟩
  · rw [hout.binary, hout.checksum, Store.verdict_recorded, if_neg hout.differ]
  · obtain ⟨sum, hverdict, hstart⟩ := swaps_of_verified new hverified hold
    obtain ⟨h, hnone, hfits, hobeys⟩ := hw.obeys
    obtain ⟨h₁, hobeys₁, hfits₁, hswaps₁, -⟩ := (hstart h hnone).runs hfits hobeys hfirst
    obtain ⟨h₂, -, -, hswaps₂, hsuffix⟩ := hswaps₁.runs hfits₁ hobeys₁ hsecond
    have hbinary := hswaps₁.readFile_path
    have hsidecar := hswaps₂.readFile_sidecar
    by_cases hside : S.store.sidecar d ∈ h₂.moved
    · rw [if_pos hside] at hsidecar
      by_cases hmain : S.store.path d .binary ∈ h₁.moved
      · -- both are new
        rw [hbinary, hsidecar, if_pos hmain, Store.verdict_recorded, if_pos rfl]
      · -- the old binary with the new checksum: they only agree by chance
        rw [if_neg hmain] at hbinary
        rw [hbinary, hsidecar, Store.verdict_recorded, if_pos]
        by_contra hdiffer
        exact hnot ⟨hbinary, hsidecar, hdiffer⟩
    · -- while the old checksum is there, the old binary is there
      have hmain : S.store.path d .binary ∉ h₁.moved := fun hmem =>
        hside (hsuffix.subset (hswaps₁.sidecar_mem hmem))
      rw [hbinary, hsidecar, if_neg hside, if_neg hmain, hverdict]

end

/-! ### A binary that is only half replaced -/

namespace Program

variable {A : Type} {R : A → Type} {α σ : Type}

/-- What is left of a program after some of its actions, and the state there. -/
def advance (perform : (a : A) → σ → R a × σ) : Nat → Program A R α → σ → Program A R α × σ
  | n + 1, .ask a next, s => advance perform n (next (perform a s).1) (perform a s).2
  | _, p, s => (p, s)

/-- A program can be stopped after any number of its actions. -/
theorem Runs.of_advance {step : (a : A) → σ → R a → σ → Prop} {perform : (a : A) → σ → R a × σ}
    (hstep : ∀ a s, step a s (perform a s).1 (perform a s).2) (n : Nat) (p : Program A R α)
    (s : σ) : ∃ calls, Runs step p s calls (advance perform n p s).1 (advance perform n p s).2 := by
  induction n generalizing p s with
  | zero => exact ⟨[], .here p s⟩
  | succ n ih =>
      cases p with
      | done a => exact ⟨[], .here _ s⟩
      | ask a next =>
          obtain ⟨calls, hrest⟩ := ih (next (perform a s).1) (perform a s).2
          exact ⟨a :: calls, .ask (hstep a s) hrest⟩
      | stalled => exact ⟨[], .here _ s⟩

end Program

namespace Overhaul

/-- The binary that is replaced. -/
def old : Bytes := [0x61]

/-- The binary that it is replaced by. -/
def new : Bytes := [0x62]

/-- The process after it has put the old binary. -/
def start : Process := ((Process.fresh .empty).runTask (Site.here.store.put .empty .binary old)).2

/-- What is left of putting the new binary when its checksum is in its place, and the process
there. -/
def rest : FileProgram (Except CacheError Path) × Process :=
  (Site.here.store.put .empty .binary new).run.advance Process.perform 10 start

/-- The process when the new checksum is in its place and the new binary is not. -/
def halfway : Process := rest.2

theorem runs : ∃ calls, Program.Runs (Process.Fares fun a => ¬a.Removes)
    (Site.here.store.put .empty .binary new).run start calls rest.1 halfway :=
  Program.Runs.of_advance Process.Fares.works 10 _ _

theorem replaces :
    Site.here.Replaces .empty new start (Site.here.store.put .empty .binary new).run := .put

theorem verified : (start.runTask (Site.here.store.verified .empty)).1 =
    some (.ok (some (Site.here.store.path .empty .binary))) := by decide +kernel

theorem readFile_start :
    start.machine.files.readFile (Site.here.store.path .empty .binary) = .ok old := by decide +kernel

theorem outdated : Site.here.Outdated .empty old new start halfway where
  binary := readFile_start
  checksum := by decide +kernel
  differ := by decide +kernel

end Overhaul

/-- Putting a binary may stop when only its checksum is in its place.  Then the old binary, which
was good before, fails the check. -/
theorem halfway_binary_refused : Overhaul.new ≠ Overhaul.old ∧
    (Overhaul.start.runTask (Site.here.store.verified .empty)).1 =
      some (.ok (some (Site.here.store.path .empty .binary))) ∧
    (∃ calls, Program.Runs (Process.Fares fun a => ¬a.Removes)
      (Site.here.store.put .empty .binary Overhaul.new).run Overhaul.start calls
      Overhaul.rest.1 Overhaul.halfway) ∧
    (Overhaul.halfway.runTask (Site.here.store.verified .empty)).1 =
      some (.error (.checksumMismatch (Site.here.store.path .empty .binary)
        (Checksum.of Overhaul.new).toText (Checksum.of Overhaul.old).toText)) :=
  ⟨by decide, Overhaul.verified, Overhaul.runs, by decide +kernel⟩

/-- A check that reads the binary before it is replaced, and its checksum halfway, fails; one that
reads both before does not. -/
theorem overhaul_verified_while_replaced :
    Site.here.store.verifiedAcross .empty Overhaul.start Overhaul.halfway =
      some (.error (.checksumMismatch (Site.here.store.path .empty .binary)
        (Checksum.of Overhaul.new).toText (Checksum.of Overhaul.old).toText)) ∧
    Site.here.store.verifiedAcross .empty Overhaul.start Overhaul.start =
      some (.ok (some (Site.here.store.path .empty .binary))) := by
  obtain ⟨calls, hrun⟩ := Overhaul.runs
  have hbetween := verified_while_replaced Overhaul.verified Overhaul.readFile_start
    Overhaul.replaces (.here _ _) hrun
  have hbefore := verified_while_replaced Overhaul.verified Overhaul.readFile_start
    Overhaul.replaces (.here _ _) (.here _ _)
  refine ⟨hbetween.1 Overhaul.outdated, hbefore.2 fun hout => ?_⟩
  have hdiffer : ¬Overhaul.start.machine.files.readFile (Site.here.store.sidecar .empty) =
      .ok (Utf8.encode (Checksum.of Overhaul.new).toText) := by decide +kernel
  exact hdiffer hout.checksum

end KernelCache
