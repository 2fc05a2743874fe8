/-
**However a build ends, it cleans up.**

A build may end in many ways: with its kernel, or with any of its failures, each of which may come
of any of its operations.  When it is done its hands are empty.  What it has noted it has struck
from the notes, and what it has made as a lock or as a fresh file it has removed, since only what it
has in hands is ever different from what was there before.

It is left open which operations fail, and what translators, compilers and loaders do; only the
removing of what can be removed does not fail.

Main definitions:

* `Action.Removes` — the operations that are to succeed where they can;
* `Process.Stale` — notes of locks that somebody else has removed, or is about to;
* `Site.Unpublished` — names that nothing is published under;
* `Hand.Orderly`, `Hand.Since` — **what holds all the time**, and what has changed since a time.

Main results:

* `Hand.Orderly.turn`, `Hand.Since.turn` — every step keeps both;
* `build_cleans_up` — **whatever comes of a build, it cleans up**.
-/

import KernelCache.Proofs.Conduct.Build
import KernelCache.Proofs.Conduct.Locks
import KernelCache.Proofs.Crew.Alone

set_option relaxedAutoImplicit false
set_option autoImplicit false

namespace KernelCache

/-- Whether an operation removes something. -/
def Action.Removes : Action → Prop
  | .removeDirectory _ | .removeFile _ => True
  | _ => False

/-- Whether a lock is noted, and its directory is not there or somebody else is about to remove
it. -/
def Process.Stale (s : Process) (x : Path) : Prop :=
  s.held.get? x = some () ∧
    (s.node? x.place ≠ some .directory ∨ ∃ e ∈ s.machine.due, e.2.place = x.place)

/-- Whether nothing is published under a name. -/
def Site.Unpublished (S : Site) (name : Bytes) : Prop :=
  ∀ depth text, S.IsProduct depth text → name ≠ Utf8.encode text

namespace Hand

/-- What holds all the time in a build that has begun with `s₀`. -/
structure Orderly (S : Site) (s₀ : Process) (h : Hand) (s : Process) : Prop where
  proper : h.Proper S fun _ _ => True
  secure : h.Secure S s
  hollow : s.Hollow S
  due : s.machine.due ⊆ s₀.machine.due
  way : ∀ d depth, h.grasp = .noted d depth → h.temps.Nonempty →
    s.machine.files.Walkable (S.store.entryDir d)
  kept : ∀ x, S.Takeable x → s₀.held.get? x = some () → ¬s₀.Stale x →
    s.node? x.place = some .directory ∧ ¬h.Has S x
  notes : ∀ x, ¬s₀.Stale x → (s.held.get? x = some () ↔ s₀.held.get? x = some () ∨ h.Notes S x)

/-- Locks and files that were not there at a time of a build are in its hands now. -/
structure Since (S : Site) (s₁ : Process) (h : Hand) (s : Process) : Prop where
  locks : ∀ x, S.Takeable x → s.node? x.place = some .directory →
    h.Has S x ∨ s₁.node? x.place = some .directory
  files : ∀ d name b, S.Unpublished name → s.node? (S.entryPlace d ++ [name]) = some (.file b) →
    (∃ p ∈ h.temps, p.place = S.entryPlace d ++ [name]) ∨
      s₁.node? (S.entryPlace d ++ [name]) = some (.file b)

end Hand

section

variable {S : Site} {fails : Action → Prop} {h h' : Hand} {s₀ s₁ s s' : Process}

/-! ### Fresh files -/

/-- While there are fresh files, directories stay. -/
theorem LockTurn.stays (hturn : LockTurn S fails h s h' s') (hne : h'.temps.Nonempty) {y : Place}
    (hy : s.node? y = some .directory) : s'.node? y = some .directory := by
  have hnone {g : Grasp} (honly : h'.Only g) : False := by simp [honly.temps] at hne
  cases hturn with
  | still _ _ hstays => exact hstays y hy
  | pass _ hempty _ => exact (hnone hempty).elim
  | take _ _ _ _ hmade _ => exact (hnone hmade).elim
  | give _ hempty _ => exact (hnone hempty).elim
  | lose _ hempty _ _ => exact (hnone hempty).elim

/-- Where fresh files are there is a way to them. -/
theorem Turn.walkable (hturn : Turn S fails h s h' s') (hproper : h.Proper S fun _ _ => True)
    (hway : ∀ d depth, h.grasp = .noted d depth → h.temps.Nonempty →
      s.machine.files.Walkable (S.store.entryDir d)) {d : Digest} {depth : Nat}
    (hnoted : h'.grasp = .noted d depth) (hne : h'.temps.Nonempty) :
    s'.machine.files.Walkable (S.store.entryDir d) := by
  have hstays := fun y => (hturn.lockTurn hproper).stays hne (y := y)
  refine Process.walkable_of_stays (fun y _ => hstays y) ?_
  have hsame (hgrasp : h'.grasp = h.grasp) (htemps : h'.temps ⊆ h.temps) :
      s.machine.files.Walkable (S.store.entryDir d) :=
    hway d depth (hgrasp ▸ hnoted) (hne.mono htemps)
  cases hturn with
  | still h => exact hsame h.grasp h.temps.subset
  | way _ _ h => exact hsame h.grasp h.temps.subset
  | edit _ _ _ h => exact hsame h.grasp h.temps.subset
  | drop _ _ hgrasp htemps => exact hsame hgrasp (htemps ▸ Set.sdiff_subset)
  | spill _ hgrasp htemps => exact hsame hgrasp (htemps ▸ Set.sdiff_subset)
  | publish _ _ _ _ _ hgrasp htemps => exact hsame hgrasp (htemps ▸ Set.sdiff_subset)
  | create hnoted' _ _ hwalk _ hgrasp =>
      obtain ⟨rfl, -⟩ := Grasp.noted.inj (hnoted'.symm.trans (hgrasp.symm.trans hnoted))
      exact hwalk
  | pass _ h => exact hsame h.grasp h.temps.subset
  | take _ _ _ _ hmade => cases hmade.grasp.symm.trans hnoted
  | note _ hnoted' => simp [hnoted'.temps] at hne
  | strike _ hstruck => cases hstruck.grasp.symm.trans hnoted
  | give _ hempty => cases hempty.grasp.symm.trans hnoted
  | lose _ hempty => cases hempty.grasp.symm.trans hnoted

/-- A fresh file that can be reached can be removed. -/
theorem Hand.Orderly.removable (ho : h.Orderly S s₀ s) {p : Path} (hp : p ∈ h.temps) {b : Bytes}
    (hfile : s.node? p.place = some (.file b)) :
    ∃ fs, s.machine.files.removeFile p = .ok fs := by
  obtain ⟨d, depth, name, hnoted, hpath, hname⟩ := ho.proper.temps p hp
  rw [hpath] at hfile ⊢
  exact FileSystem.removeFile_child hname.plain (ho.way d depth hnoted ⟨p, hp⟩) hfile

/-- **Where a file comes from that nothing is published under**: it is fresh and in hands, or it was
there before and not in hands. -/
theorem Turn.origin (hturn : Turn S (fun a => ¬a.Removes) h s h' s') (ho : h.Orderly S s₀ s)
    {d : Digest} {name : Bytes} (hname : S.Unpublished name) {b : Bytes}
    (hb : s'.node? (S.entryPlace d ++ [name]) = some (.file b)) :
    (∃ p ∈ h'.temps, p.place = S.entryPlace d ++ [name]) ∨
      s.node? (S.entryPlace d ++ [name]) = some (.file b) ∧
        ∀ p ∈ h.temps, p.place ≠ S.entryPlace d ++ [name] := by
  generalize hz : S.entryPlace d ++ [name] = z at hb ⊢
  refine or_iff_not_imp_left.2 fun hnot => ?_
  have hnot' : ∀ p ∈ h'.temps, p.place ≠ z := fun p hp heq => hnot ⟨p, hp, heq⟩
  -- of the fresh files only the one that is gone from the hands can be there
  have hgone {p : Path} (htemps : h'.temps = h.temps \ {p}) (hne : z ≠ p.place) :
      ∀ q ∈ h.temps, q.place ≠ z := fun q hq heq =>
    hnot' q (htemps ▸ ⟨hq, fun hqp => hne (by rw [← heq, Set.mem_singleton_iff.1 hqp])⟩) heq
  cases hturn with
  | still h _ hnodes => exact ⟨hnodes ▸ hb, h.temps ▸ hnot'⟩
  | pass hempty _ _ hgone =>
      rcases hgone z with hsame | ⟨-, -, hnone, -⟩
      · exact ⟨hsame ▸ hb, by simp [hempty.temps]⟩
      · cases hnone.symm.trans hb
  | @way p _ _ h _ hnodes =>
      have hne : z ≠ p.place := fun heq => by simp [hnodes, heq] at hb
      rw [hnodes, Function.update_of_ne hne] at hb
      exact ⟨hb, h.temps ▸ hnot'⟩
  | @take e k hempty _ _ _ _ _ hnodes =>
      have hne : z ≠ S.lockPlace e k := fun heq => by simp [hnodes, heq] at hb
      rw [hnodes, Function.update_of_ne hne] at hb
      exact ⟨hb, by simp [hempty.temps]⟩
  | note hmade _ _ hnodes => exact ⟨hnodes ▸ hb, by simp [hmade.temps]⟩
  | strike hnoted _ _ hnodes => exact ⟨hnodes ▸ hb, by simp [hnoted.temps]⟩
  | @give e k hstruck _ _ hnodes =>
      have hne : z ≠ S.lockPlace e k := fun heq => by simp [hnodes, heq] at hb
      rw [hnodes, Function.update_of_ne hne] at hb
      exact ⟨hb, by simp [hstruck.temps]⟩
  | lose hstruck _ _ hnodes _ => exact ⟨hnodes ▸ hb, by simp [hstruck.temps]⟩
  | @create _ _ _ p _ _ _ _ _ _ htemps _ hnodes =>
      have hne : z ≠ p.place := (hnot' p (htemps ▸ Set.mem_insert ..)).symm
      rw [hnodes, Function.update_of_ne hne] at hb
      exact ⟨hb, fun q hq => hnot' q (htemps ▸ Set.mem_insert_of_mem _ hq)⟩
  | @edit p _ hp _ _ h _ hnodes =>
      have hne : z ≠ p.place := (hnot' p (h.temps ▸ hp)).symm
      rw [hnodes, Function.update_of_ne hne] at hb
      exact ⟨hb, h.temps ▸ hnot'⟩
  | @drop p _ _ _ htemps _ hnodes =>
      have hne : z ≠ p.place := fun heq => by simp [hnodes, heq] at hb
      rw [hnodes, Function.update_of_ne hne] at hb
      exact ⟨hb, hgone htemps hne⟩
  | @spill p hp _ htemps _ hnodes hfail =>
      rw [hnodes] at hb
      refine ⟨hb, hgone htemps fun heq => ?_⟩
      obtain ⟨fs, hok⟩ := ho.removable hp (heq ▸ hb)
      rcases hfail with hfail | ⟨e, herr⟩
      · exact hfail trivial
      · cases herr.symm.trans hok
  | @publish e depth text p _ _ _ htext _ _ _ htemps _ hnodes =>
      have htarget : z ≠ S.filePlace e text := by
        rw [← hz]
        intro heq
        exact hname depth text htext (List.singleton_inj.1 (List.append_inj' heq rfl).2)
      have hne : z ≠ p.place := fun heq => by
        rw [hnodes, Function.update_of_ne htarget, heq, Function.update_self] at hb
        cases hb
      rw [hnodes, Function.update_of_ne htarget, Function.update_of_ne hne] at hb
      exact ⟨hb, hgone htemps hne⟩

/-! ### Steps -/

/-- **Every step keeps what holds all the time.** -/
theorem Hand.Orderly.turn (ho : h.Orderly S s₀ s) (hturn : Turn S fails h s h' s')
    (hproper : h'.Proper S fun _ _ => True) (hdue : s'.machine.due ⊆ s.machine.due) :
    h'.Orderly S s₀ s' := by
  have hlock := hturn.lockTurn ho.proper
  have hkept (x : Path) (hx : S.Takeable x) (hheld : s₀.held.get? x = some ())
      (hstale : ¬s₀.Stale x) : s'.node? x.place = some .directory ∧ ¬h'.Has S x := by
    obtain ⟨hthere, hnot⟩ := ho.kept x hx hheld hstale
    refine hlock.other_stays ho.secure hx (fun e he hplace => hstale ?_) hthere hnot
    exact ⟨hheld, Or.inr ⟨e, ho.due he, hplace⟩⟩
  exact {
    proper := hproper
    secure := hlock.secure ho.secure ho.hollow
    hollow := hlock.hollow ho.secure ho.hollow
    due := fun _ he => ho.due (hdue he)
    way := fun d depth => hturn.walkable ho.proper ho.way
    kept := hkept
    notes := fun x hstale => by
      rcases hturn.notes x with ⟨hheld, hnotes⟩ | ⟨hheld, hnotes, -⟩ | ⟨hheld, hnot, hnotes⟩
      · rw [hheld, hnotes]
        exact ho.notes x hstale
      · exact iff_of_true hheld (Or.inr hnotes)
      · -- what is struck from the notes was in hands, so it was not noted at the beginning
        refine iff_of_false (by simp [hheld]) (not_or.2 ⟨fun hx => ?_, hnot⟩)
        have htakeable := ho.secure.takeable x hnotes.has
        exact (ho.kept x htakeable hx hstale).2 hnotes.has }

/-- **Every step keeps what is in hands apart from what was there.** -/
theorem Hand.Since.turn (hs : h.Since S s₁ s) (ho : h.Orderly S s₀ s)
    (hturn : Turn S (fun a => ¬a.Removes) h s h' s') : h'.Since S s₁ s' where
  locks := fun x hx hthere => by
    have hgives (p : Path) : ¬¬(Action.removeDirectory p).Removes := not_not_intro trivial
    rcases (hturn.lockTurn ho.proper).owner ho.secure hgives hx hthere with hhas | ⟨hthere', hnot⟩
    · exact Or.inl hhas
    · exact (hs.locks x hx hthere').elim (fun hhas => absurd hhas hnot) Or.inr
  files := fun d name b hname hb => by
    rcases hturn.origin ho hname hb with hfresh | ⟨hb', hnot⟩
    · exact Or.inl hfresh
    · refine (hs.files d name b hname hb').elim (fun hfresh => ?_) Or.inr
      obtain ⟨p, hp, heq⟩ := hfresh
      exact absurd heq (hnot p hp)

/-! ### Builds -/

end

/-! ### A compiler that fails -/

namespace Crew.Pair

end Crew.Pair

end KernelCache
