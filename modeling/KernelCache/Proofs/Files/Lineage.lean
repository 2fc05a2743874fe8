/-
**The way to a path.**

A walk begins at the start of its path and passes one place after another, each one name below a
place that it has passed already, until a double dot takes it up again.  So it passes whatever is
above a place that it passes.  The paths in a lineage are earlier ends of the same walk.

Main definitions:

* `Path.Passed` — the places that a walk passes, those above its start included.

Main results:

* `Path.passed_of_above` — **a walk passes whatever is above a place that it passes**;
* `Path.steps_parent?` — the path above a path is an earlier end of the same walk;
* `Path.passed_of_mem_lineage` — **the walk to a path passes all of its lineage**.
-/

import KernelCache.Proofs.Files.Place

set_option relaxedAutoImplicit false
set_option autoImplicit false

namespace KernelCache.Path

/-! ### What a walk passes -/

/-- Whether the walk to a path passes a place, or starts below it. -/
def Passed (q : Path) (x : Place) : Prop := x ∈ q.visits ∨ x <+: FileSystem.startOf q

theorem prefix_above (x : Place) : FileSystem.above x <+: x := by
  rw [FileSystem.above]
  split
  · exact List.prefix_rfl
  · exact List.dropLast_prefix x

/-- From a place above which everything is in `P`, a walk stays in `P` and what it visits. -/
theorem prefix_visitsFrom {P : Place → Prop} {place : Place} {l : List Bytes}
    (h : ∀ y, y <+: place → P y) :
    (∀ x ∈ visitsFrom place l, ∀ y, y <+: x → P y ∨ y ∈ visitsFrom place l) ∧
      ∀ y, y <+: l.foldl onward place → P y ∨ y ∈ visitsFrom place l := by
  -- induction on the pieces; what has been visited so far goes into `P`
  induction l generalizing place P with
  | nil =>
      refine ⟨fun x hx => ?_, fun y hy => Or.inl (h y hy)⟩
      simp [visitsFrom] at hx
  | cons piece rest ih =>
      by_cases hup : piece = [dot, dot]
      · rw [visitsFrom, if_pos hup, List.foldl_cons, onward, if_pos hup]
        exact ih fun y hy => h y (hy.trans (prefix_above place))
      · rw [visitsFrom, if_neg hup, List.foldl_cons, onward, if_neg hup]
        have hnext : ∀ y, y <+: place ++ [piece] → P y ∨ y = place ++ [piece] := by
          intro y hy
          rcases List.prefix_concat_iff.1 hy with heq | hy
          · exact Or.inr heq
          · exact Or.inl (h y hy)
        obtain ⟨hvisits, hend⟩ := ih (P := fun y => P y ∨ y = place ++ [piece]) hnext
        have hmove : ∀ y, ((P y ∨ y = place ++ [piece]) ∨ y ∈ visitsFrom (place ++ [piece]) rest) →
            P y ∨ y ∈ (place ++ [piece]) :: visitsFrom (place ++ [piece]) rest := by
          intro y hy
          rw [List.mem_cons, ← or_assoc]
          exact hy
        refine ⟨fun x hx y hy => hmove y ?_, fun y hy => hmove y (hend y hy)⟩
        rcases List.mem_cons.1 hx with rfl | hx
        · exact Or.inl (hnext y hy)
        · exact hvisits x hx y hy

/-- **A walk passes whatever is above a place that it passes.** -/
theorem passed_of_above {q : Path} {x y : Place} (hx : q.Passed x) (hy : y <+: x) :
    q.Passed y := by
  obtain ⟨hvisits, -⟩ := prefix_visitsFrom (P := (· <+: FileSystem.startOf q)) (l := q.steps)
    fun y (hy : y <+: FileSystem.startOf q) => hy
  rcases hx with hx | hx
  · exact (hvisits x hx y hy).symm
  · exact Or.inr (hy.trans hx)

theorem passed_place (q : Path) : q.Passed q.place := by
  obtain ⟨-, hend⟩ := prefix_visitsFrom (P := (· <+: FileSystem.startOf q)) (l := q.steps)
    fun y (hy : y <+: FileSystem.startOf q) => hy
  rw [place]
  exact (hend _ List.prefix_rfl).symm

/-- What an earlier end of the same walk passes. -/
theorem Passed.of_prefix_steps {p q : Path} {x : Place} (hsteps : p.steps <+: q.steps)
    (hstart : FileSystem.startOf p = FileSystem.startOf q) (h : p.Passed x) : q.Passed x := by
  obtain ⟨l, hl⟩ := hsteps
  rcases h with h | h
  · refine Or.inl ?_
    rw [visits, ← hl, visitsFrom_append, List.mem_append, ← hstart]
    exact Or.inl h
  · exact Or.inr (hstart ▸ h)

/-! ### The path above a path -/

theorem prefix_trimPieces (l : List Bytes) : trimPieces l <+: l := by
  have h := List.dropWhile_suffix (l := l.reverse) (!counts ·)
  rw [trimPieces, ← List.reverse_suffix, List.reverse_reverse]
  exact h

/-- What is left after trimming ends in a piece that counts. -/
theorem counts_getLast_trimPieces {l : List Bytes} {piece : Bytes}
    (h : (trimPieces l).getLast? = some piece) : counts piece = true := by
  rw [trimPieces, List.getLast?_reverse] at h
  have hhead := List.head?_dropWhile_not (!counts ·) l.reverse
  rw [h] at hhead
  simpa using hhead

theorem filter_dropWhile_not (keep : Bytes → Bool) (l : List Bytes) :
    (l.dropWhile (!keep ·)).filter keep = l.filter keep := by
  induction l with
  | nil => rfl
  | cons piece rest ih =>
      cases hkeep : keep piece with
      | true => rw [List.dropWhile_cons_of_neg (by simp [hkeep])]
      | false =>
          rw [List.dropWhile_cons_of_pos (by simp [hkeep]), ih,
            List.filter_cons_of_neg (by simp [hkeep])]

theorem filter_trimPieces (l : List Bytes) : (trimPieces l).filter counts = l.filter counts := by
  rw [trimPieces, List.filter_reverse, filter_dropWhile_not, List.filter_reverse,
    List.reverse_reverse]

theorem head?_intercalate (piece : Bytes) (l : List Bytes) :
    ([slash].intercalate (piece :: l)).head? =
      if piece = [] then (if l = [] then none else some slash) else piece.head? := by
  cases l with
  | nil => cases piece <;> simp [List.intercalate]
  | cons next rest => cases piece <;> simp [List.intercalate]

/-- Pieces make an absolute path if the first is empty and not the only one. -/
theorem isAbsolute_ofPieces {piece : Bytes} {l : List Bytes} (h : slash ∉ piece) :
    (ofPieces (piece :: l)).isAbsolute ↔ piece = [] ∧ l ≠ [] := by
  rw [isAbsolute, ofPieces, head?_intercalate, beq_iff_eq]
  split
  · next hnil => by_cases hl : l = [] <;> simp [hl, hnil]
  · next hnil =>
      have hhead : piece.head? ≠ some slash := fun heq => h (List.mem_of_head? heq)
      simp [hnil, hhead]

theorem ofPieces_pieces (p : Path) : ofPieces p.pieces = p := by
  rw [ofPieces, pieces, List.intercalate_splitOn]

/-- Some of the first pieces of a path, of which the last one counts, make a path above it. -/
theorem steps_ofPieces {p : Path} {kept : List Bytes} (hkept : kept <+: p.pieces) (hne : kept ≠ [])
    (hlast : ∀ piece, kept.getLast? = some piece → counts piece = true) :
    (ofPieces kept).steps <+: p.steps ∧
      FileSystem.startOf (ofPieces kept) = FileSystem.startOf p := by
  have hslash : ∀ piece ∈ p.pieces, slash ∉ piece := fun piece hpiece =>
    slash_notMem_splitOn hpiece
  have hpieces : (ofPieces kept).pieces = kept :=
    List.splitOn_intercalate slash (fun piece hpiece => hslash piece (hkept.subset hpiece)) hne
  refine ⟨?_, ?_⟩
  · rw [steps, steps, hpieces]
    exact hkept.filter counts
  · obtain ⟨first, rest, rfl⟩ := List.exists_cons_of_ne_nil hne
    obtain ⟨more, hmore⟩ := hkept
    rw [List.cons_append] at hmore
    have hfirst : slash ∉ first := hslash first (by rw [← hmore]; simp)
    -- both paths have the same first piece, and if it is empty it is not the only one
    have habs : (ofPieces (first :: rest)).isAbsolute ↔ p.isAbsolute := by
      rw [← ofPieces_pieces p, ← hmore, isAbsolute_ofPieces hfirst, isAbsolute_ofPieces hfirst]
      constructor
      · rintro ⟨hnil, hrest⟩
        exact ⟨hnil, by simp [hrest]⟩
      · rintro ⟨rfl, -⟩
        refine ⟨rfl, fun hrest => ?_⟩
        have hcounts := hlast [] (by simp [hrest])
        simp [counts] at hcounts
    simp only [FileSystem.startOf, habs]

theorem ofPiece_ne_here (piece : Bytes) : Component.ofPiece piece ≠ .here := by
  rw [Component.ofPiece]
  split <;> simp

/-- **The path above a path is an earlier end of the same walk.** -/
theorem steps_parent? {p r : Path} (h : p.parent? = some r) :
    r.steps <+: p.steps ∧ FileSystem.startOf r = FileSystem.startOf p := by
  have hempty : (Path.mk []).steps = [] := by decide
  rw [parent?] at h
  split at h
  · cases h
  · cases h
  · -- only a relative path ends in the dot at its start
    next hlast =>
      obtain rfl := Option.some.inj h
      have hrel : ¬p.isAbsolute := by
        intro habs
        have hmem := List.mem_of_getLast? hlast
        rw [components, if_pos habs, List.mem_cons, List.mem_map] at hmem
        rcases hmem with hroot | ⟨piece, -, hpiece⟩
        · cases hroot
        · exact ofPiece_ne_here piece hpiece
      refine ⟨by rw [hempty]; exact List.nil_prefix, ?_⟩
      rw [FileSystem.startOf, FileSystem.startOf, if_neg hrel]
      rfl
  · split at h
    · -- nothing is left but where the path starts
      obtain rfl := Option.some.inj h
      have hroot : (Path.mk [slash]).steps = [] := by decide
      have hhere : (Path.mk [dot]).steps = [] := by decide
      refine ⟨?_, ?_⟩
      · split
        · rw [hroot]
          exact List.nil_prefix
        · split
          · rw [hhere]
            exact List.nil_prefix
          · rw [hempty]
            exact List.nil_prefix
      · by_cases habs : p.isAbsolute
        · rw [if_pos habs, FileSystem.startOf, FileSystem.startOf, if_pos habs]
          rfl
        · rw [if_neg habs, FileSystem.startOf, FileSystem.startOf, if_neg habs]
          split <;> rfl
    · next kept hkept =>
        obtain rfl := Option.some.inj h
        refine steps_ofPieces ?_ (fun hnil => hkept hnil) fun piece => counts_getLast_trimPieces
        exact (prefix_trimPieces _).trans ((List.dropLast_prefix _).trans (prefix_trimPieces _))

/-! ### Lineages -/

theorem steps_of_mem_lineageFrom {p q : Path} {n : Nat} (h : p ∈ lineageFrom n q) :
    p.steps <+: q.steps ∧ FileSystem.startOf p = FileSystem.startOf q := by
  induction n generalizing q with
  | zero =>
      rw [lineageFrom, List.mem_singleton] at h
      exact h ▸ ⟨List.prefix_rfl, rfl⟩
  | succ n ih =>
      rw [lineageFrom, List.mem_cons] at h
      rcases h with rfl | h
      · exact ⟨List.prefix_rfl, rfl⟩
      · split at h
        · next r hr =>
            obtain ⟨hsteps, hstart⟩ := ih h
            obtain ⟨hsteps', hstart'⟩ := steps_parent? hr
            exact ⟨hsteps.trans hsteps', hstart.trans hstart'⟩
        · cases h

theorem steps_of_mem_lineage {p q : Path} (h : p ∈ q.lineage) :
    p.steps <+: q.steps ∧ FileSystem.startOf p = FileSystem.startOf q :=
  steps_of_mem_lineageFrom h

/-- **The walk to a path passes all of its lineage.** -/
theorem passed_of_mem_lineage {p q : Path} (h : p ∈ q.lineage) : q.Passed p.place := by
  obtain ⟨hsteps, hstart⟩ := steps_of_mem_lineage h
  exact (passed_place p).of_prefix_steps hsteps hstart

end KernelCache.Path
