/-
**A path below a directory.**

The components of a path are those of its pieces that count, and before them the root or a dot if
it begins with one.  So the components of a directory are the first ones of a path if both begin
alike and the pieces of the directory are the first that count, and what is left of the path are the
pieces behind these.  Going down from the directory by what is left leads to the path again.

Main definitions:

* `Path.lead` — the component with which a path begins that is no piece of it;
* `Path.settled` — a path without the pieces at its ends that do not count;
* `Path.below` — what is left of a path below a directory;
* `Path.Stem` — the paths from which one goes down by a slash.

Main results:

* `Path.components_prefix_iff` — which paths begin with the components of a directory;
* `Path.components_of_begins` — **a path is its directory and what is left below it**;
* `Path.Stem.components_join`, `Path.Stem.join_join` — going down;
* `Path.Stem.components_join_below` — **going down by what is left leads to the path again**;
* `Path.Stem.below_join` — what is left after going down;
* `Path.exists_ofString_below` — what is left of a text is a text.
-/

import KernelCache.Proofs.Files.Lineage
import KernelCache.Proofs.Text.Blank
import KernelCache.Proofs.Text.Utf8

set_option relaxedAutoImplicit false
set_option autoImplicit false

namespace KernelCache.Path

variable {p q r dir : Path}

/-! ### How a path begins -/

/-- The component with which a path begins and that is no piece of it: the root, or a dot. -/
def lead (p : Path) : List Component :=
  if p.isAbsolute then [.root] else if p.startsHere then [.here] else []

theorem components_eq (p : Path) : p.components = p.lead ++ p.steps.map Component.ofPiece := by
  simp only [components, lead]
  split
  · rfl
  · split <;> rfl

theorem lead_cases (p : Path) : p.lead = [.root] ∨ p.lead = [.here] ∨ p.lead = [] := by
  rw [lead]
  split
  · exact Or.inl rfl
  · split
    · exact Or.inr (Or.inl rfl)
    · exact Or.inr (Or.inr rfl)

theorem lead_eq_nil_of (habs : p.isAbsolute = false) (hhere : p.startsHere = false) :
    p.lead = [] := by
  rw [lead, habs, hhere]
  rfl

theorem ofPiece_ne_root (piece : Bytes) : Component.ofPiece piece ≠ .root := by
  rw [Component.ofPiece]
  split <;> simp

/-- Different pieces are different components. -/
theorem ofPiece_injective {a b : Bytes} (h : Component.ofPiece a = Component.ofPiece b) :
    a = b := by
  simp only [Component.ofPiece] at h
  split at h
  · next ha =>
      split at h
      · next hb => exact ha.trans hb.symm
      · cases h
  · split at h
    · cases h
    · exact Component.name.inj h

theorem map_ofPiece_prefix_iff {l m : List Bytes} :
    l.map Component.ofPiece <+: m.map Component.ofPiece ↔ l <+: m := by
  constructor
  · intro h
    obtain ⟨first, hfirst, heq⟩ := List.prefix_map_iff.1 h
    rwa [(List.map_inj_right fun _ _ => ofPiece_injective).1 heq]
  · exact fun h => h.map _

/-- No piece is the component with which a path begins otherwise. -/
theorem lead_eq_of_begins {l m : List Bytes} (hl : l ≠ [])
    (h : dir.lead ++ l.map Component.ofPiece <+: p.lead ++ m.map Component.ofPiece) :
    dir.lead = p.lead := by
  obtain ⟨piece, rest, rfl⟩ := List.exists_cons_of_ne_nil hl
  have hroot (x : Bytes) : Component.root ≠ Component.ofPiece x := (ofPiece_ne_root x).symm
  have hhere (x : Bytes) : Component.here ≠ Component.ofPiece x := (ofPiece_ne_here x).symm
  rcases lead_cases dir with hdir | hdir | hdir <;> rcases lead_cases p with hp | hp | hp <;>
    rw [hdir, hp] at h ⊢ <;> exfalso
  all_goals
    cases m <;> simp [List.cons_prefix_cons, hroot, hhere, ofPiece_ne_root, ofPiece_ne_here] at h

/-- **Which paths begin with the components of a directory.** -/
theorem components_prefix_iff (h : dir.steps ≠ []) :
    dir.components <+: p.components ↔ dir.lead = p.lead ∧ dir.steps <+: p.steps := by
  rw [components_eq, components_eq]
  constructor
  · intro hbegins
    have hlead := lead_eq_of_begins h hbegins
    rw [hlead, List.prefix_append_right_inj] at hbegins
    exact ⟨hlead, map_ofPiece_prefix_iff.1 hbegins⟩
  · rintro ⟨hlead, hsteps⟩
    rw [hlead, List.prefix_append_right_inj]
    exact map_ofPiece_prefix_iff.2 hsteps

/-! ### Pieces that do not count -/

/-- Behind the pieces that do not count is one that does, or nothing. -/
theorem dropWhile_cases (l : List Bytes) :
    l.dropWhile (!counts ·) = [] ∨
      ∃ piece rest, l.dropWhile (!counts ·) = piece :: rest ∧ counts piece = true := by
  have hhead := List.head?_dropWhile_not (!counts ·) l
  cases hl : l.dropWhile (!counts ·) with
  | nil => exact Or.inl rfl
  | cons piece rest => exact Or.inr ⟨piece, rest, rfl, by simpa [hl] using hhead⟩

/-- Nothing that counts is skipped on the way to the next piece that counts. -/
theorem filter_dropPieces (n : Nat) (l : List Bytes) :
    (dropPieces n l).filter counts = (l.filter counts).drop n := by
  induction n generalizing l with
  | zero => rfl
  | succ n ih =>
      have hone : ((l.dropWhile (!counts ·)).drop 1).filter counts = (l.filter counts).drop 1 := by
        rw [← filter_dropWhile_not counts l]
        rcases dropWhile_cases l with hl | ⟨piece, rest, hl, hpiece⟩
        · rw [hl]
          rfl
        · rw [hl, List.filter_cons_of_pos hpiece]
          rfl
      rw [dropPieces, ih, hone, List.drop_drop, Nat.add_comm]

theorem dropPieces_suffix (n : Nat) (l : List Bytes) : dropPieces n l <:+ l := by
  induction n generalizing l with
  | zero => exact List.suffix_rfl
  | succ n ih =>
      exact (ih _).trans ((List.drop_suffix 1 _).trans (List.dropWhile_suffix _))

/-- A piece that counts is kept, and so is all that comes after it up to the next one. -/
theorem trimPieces_cons {piece : Bytes} (h : counts piece = true) (l : List Bytes) :
    trimPieces (piece :: l) = piece :: trimPieces l := by
  have hlast : [piece].dropWhile (!counts ·) = [piece] := by simp [h]
  rw [trimPieces, List.reverse_cons, List.dropWhile_append, hlast, trimPieces]
  split
  · next hnil => rw [List.isEmpty_iff.1 hnil]; rfl
  · rw [List.reverse_append]
    rfl

/-- Behind all that counts of the first pieces, the next that counts is the first of the others. -/
theorem dropWhile_dropPieces_append (l m : List Bytes) :
    (dropPieces (l.filter counts).length (l ++ m)).dropWhile (!counts ·) =
      m.dropWhile (!counts ·) := by
  -- a piece that does not count goes with the next one that does, so the induction is on the pieces
  -- and not on their number
  induction l with
  | nil => rfl
  | cons piece rest ih =>
      by_cases h : counts piece
      · have hdrop : (piece :: (rest ++ m)).dropWhile (!counts ·) = piece :: (rest ++ m) :=
          List.dropWhile_cons_of_neg (by simp [h])
        rw [List.filter_cons_of_pos h, List.length_cons, List.cons_append, dropPieces, hdrop]
        exact ih
      · have hdrop : (piece :: (rest ++ m)).dropWhile (!counts ·) =
            (rest ++ m).dropWhile (!counts ·) := List.dropWhile_cons_of_pos (by simp [h])
        rw [List.filter_cons_of_neg h, List.cons_append]
        rw [← ih]
        cases (rest.filter counts).length with
        | zero => exact hdrop
        | succ n => rw [dropPieces, dropPieces, hdrop]

/-! ### What is left -/

/-- The pieces of a path behind those of a directory, without the ones at both ends that do not
count. -/
def keptBelow (p dir : Path) : List Bytes :=
  trimPieces ((dropPieces dir.steps.length p.pieces).dropWhile (!counts ·))

/-- A path without the pieces at its ends that do not count. -/
def settled (p : Path) : Path := ofPieces (trimPieces (p.pieces.dropWhile (!counts ·)))

/-- What is left of a path below a directory. -/
def below (p dir : Path) : Path := ofPieces (p.keptBelow dir)

theorem filter_keptBelow (p dir : Path) :
    (p.keptBelow dir).filter counts = p.steps.drop dir.steps.length := by
  rw [keptBelow, filter_trimPieces, filter_dropWhile_not, filter_dropPieces]
  rfl

theorem keptBelow_subset (p dir : Path) : p.keptBelow dir ⊆ p.pieces :=
  List.Subset.trans (prefix_trimPieces _).subset
    (List.Subset.trans (List.dropWhile_sublist _).subset (dropPieces_suffix _ _).subset)

/-- What is left begins with a piece that counts, if anything is left. -/
theorem keptBelow_cases (p dir : Path) :
    p.keptBelow dir = [] ∨
      ∃ piece rest, p.keptBelow dir = piece :: rest ∧ counts piece = true := by
  rw [keptBelow]
  rcases dropWhile_cases (dropPieces dir.steps.length p.pieces) with hl | ⟨piece, rest, hl, hpiece⟩
  · rw [hl]
    exact Or.inl rfl
  · rw [hl]
    exact Or.inr ⟨piece, trimPieces rest, trimPieces_cons hpiece rest, hpiece⟩

theorem pieces_ofPieces {l : List Bytes} (hslash : ∀ piece ∈ l, slash ∉ piece) (hne : l ≠ []) :
    (ofPieces l).pieces = l :=
  List.splitOn_intercalate slash hslash hne

theorem slash_notMem_keptBelow {piece : Bytes} (h : piece ∈ p.keptBelow dir) : slash ∉ piece :=
  slash_notMem_splitOn (keptBelow_subset p dir h)

theorem steps_below (p dir : Path) : (p.below dir).steps = p.steps.drop dir.steps.length := by
  rw [← filter_keptBelow, below]
  by_cases hnil : p.keptBelow dir = []
  · rw [hnil]
    rfl
  · rw [steps, pieces_ofPieces (fun piece => slash_notMem_keptBelow) hnil]

theorem lead_below (p dir : Path) : (p.below dir).lead = [] := by
  rcases keptBelow_cases p dir with hnil | ⟨piece, rest, hkept, hpiece⟩
  · rw [below, hnil]
    rfl
  · have hslash : ∀ x ∈ piece :: rest, slash ∉ x := fun x hx => by
      rw [← hkept] at hx
      exact slash_notMem_keptBelow hx
    have hempty : piece ≠ [] ∧ piece ≠ [dot] := by simpa [counts] using hpiece
    have hpieces := pieces_ofPieces hslash (by simp)
    rw [below, hkept]
    refine lead_eq_nil_of (Bool.eq_false_iff.2 fun habs => ?_) ?_
    · exact hempty.1 ((isAbsolute_ofPieces (hslash piece (by simp))).1 habs).1
    · rw [startsHere, hpieces]
      simpa using hempty.2

theorem isAbsolute_below (p dir : Path) : (p.below dir).isAbsolute = false := by
  have hlead := lead_below p dir
  rw [lead] at hlead
  split at hlead
  · cases hlead
  · next habs => exact Bool.eq_false_iff.2 habs

/-- **A path is its directory and what is left below it.** -/
theorem components_of_begins (hdir : dir.steps ≠ []) (h : dir.components <+: p.components) :
    p.components = dir.components ++ (p.below dir).components := by
  obtain ⟨hlead, rest, hrest⟩ := (components_prefix_iff hdir).1 h
  have hdrop : p.steps.drop dir.steps.length = rest := by rw [← hrest, List.drop_left]
  rw [components_eq, components_eq dir, components_eq (p.below dir), lead_below, steps_below, hdrop,
    ← hrest, hlead, List.map_append, List.append_assoc]
  rfl

theorem components_ne_nil (h : p.steps ≠ []) : p.components ≠ [] := by
  rw [components_eq]
  simp [h]

theorem within?_of_begins (hdir : dir.steps ≠ []) (h : dir.components <+: p.components) :
    p.within? dir = some (p.below dir) := by
  rw [within?, if_pos (List.isPrefixOf_iff_prefix.2 h), if_neg (components_ne_nil hdir)]
  rfl

theorem within?_of_not_begins (h : ¬dir.components <+: p.components) : p.within? dir = none := by
  rw [within?, if_neg (mt List.isPrefixOf_iff_prefix.1 h)]

/-! ### Going down -/

/-- The paths from which one goes down by a slash and a second path. -/
structure Stem (p : Path) : Prop where
  ne_nil : p.bytes ≠ []
  getLast?_ne : p.bytes.getLast? ≠ some slash

namespace Stem

theorem child (p : Path) {name : String} (h : Plain (Utf8.encode name)) : (p.child name).Stem :=
  ⟨bytes_child_ne_nil h, getLast?_child_ne h⟩

theorem ofString {name : String} (h : Plain (Utf8.encode name)) : (ofString name).Stem :=
  ⟨h.ne_nil, h.getLast?_ne⟩

theorem bytes_join (hp : p.Stem) (hq : q.isAbsolute = false) :
    (p.join q).bytes = p.bytes ++ slash :: q.bytes := by
  rw [join, hq]
  simp [hp.ne_nil, hp.getLast?_ne]

theorem pieces_join (hp : p.Stem) (hq : q.isAbsolute = false) :
    (p.join q).pieces = p.pieces ++ q.pieces := by
  rw [pieces, hp.bytes_join hq]
  exact List.splitOnP_append_cons p.bytes q.bytes (by simp)

theorem isAbsolute_join (hp : p.Stem) (hq : q.isAbsolute = false) :
    (p.join q).isAbsolute = p.isAbsolute := by
  obtain ⟨b, rest, hcons⟩ := List.exists_cons_of_ne_nil hp.ne_nil
  rw [isAbsolute, hp.bytes_join hq, isAbsolute, hcons]
  rfl

theorem lead_join (hp : p.Stem) (hq : q.isAbsolute = false) : (p.join q).lead = p.lead := by
  have hhere : (p.join q).startsHere = p.startsHere := by
    obtain ⟨first, rest, hcons⟩ := List.exists_cons_of_ne_nil (List.splitOn_ne_nil slash p.bytes)
    have hpieces : p.pieces = first :: rest := hcons
    rw [startsHere, hp.pieces_join hq, startsHere, hpieces]
    rfl
  rw [lead, lead, hp.isAbsolute_join hq, hhere]

/-- The components after going down. -/
theorem components_join (hp : p.Stem) (hq : q.isAbsolute = false) :
    (p.join q).components = p.components ++ q.steps.map Component.ofPiece := by
  rw [components_eq, components_eq p, hp.lead_join hq, steps, hp.pieces_join hq,
    List.filter_append, List.map_append, List.append_assoc]
  rfl

/-- Going down from a directory by what is left below it. -/
theorem components_join_below (hdir : dir.Stem) (hsteps : dir.steps ≠ [])
    (h : dir.components <+: p.components) :
    (dir.join (p.below dir)).components = p.components := by
  have hbelow : (p.below dir).components = (p.below dir).steps.map Component.ofPiece := by
    rw [components_eq, lead_below, List.nil_append]
  rw [hdir.components_join (isAbsolute_below p dir), ← hbelow, ← components_of_begins hsteps h]

/-- What is left after going down begins with the first piece that counts. -/
theorem below_join (hp : p.Stem) (hq : q.isAbsolute = false) :
    (p.join q).below p = q.settled := by
  rw [below, keptBelow, hp.pieces_join hq]
  exact congrArg (ofPieces ∘ trimPieces) (dropWhile_dropPieces_append p.pieces q.pieces)

theorem join (hp : p.Stem) (hq : q.Stem) (habs : q.isAbsolute = false) : (p.join q).Stem := by
  obtain ⟨b, rest, hcons⟩ := List.exists_cons_of_ne_nil hq.ne_nil
  have hlast := hq.getLast?_ne
  have hbytes := hp.bytes_join habs
  rw [hcons] at hlast hbytes
  exact ⟨by simp [hbytes], by rw [hbytes]; simpa using hlast⟩

/-- **Going down twice is going down once.** -/
theorem join_join (hp : p.Stem) (hq : q.Stem) (hqabs : q.isAbsolute = false)
    (hr : r.isAbsolute = false) : (p.join q).join r = p.join (q.join r) := by
  have habs : (q.join r).isAbsolute = false := (hq.isAbsolute_join hr).trans hqabs
  refine congrArg Path.mk (?_ : ((p.join q).join r).bytes = (p.join (q.join r)).bytes)
  rw [(hp.join hq hqabs).bytes_join hr, hp.bytes_join hqabs, hp.bytes_join habs, hq.bytes_join hr]
  simp

end Stem

/-! ### Pieces of texts -/

/-- A text between slashes is the texts of its pieces. -/
theorem pieces_ofString (s : String) :
    (ofString s).pieces = (s.toList.splitOn '/').map fun l => Utf8.encode (String.ofList l) := by
  have hbytes (l : List (List Char)) :
      (['/'].intercalate l).flatMap String.utf8EncodeChar =
        [slash].intercalate (l.map fun m => Utf8.encode (String.ofList m)) := by
    induction l with
    | nil => rfl
    | cons m rest ih =>
        cases rest with
        | nil => simp [Utf8.encode]
        | cons n rest =>
            have hslash : String.utf8EncodeChar '/' = [slash] := by decide
            rw [List.intercalate_cons_cons, List.flatMap_append, List.flatMap_append, ih]
            simp [Utf8.encode, hslash]
  have hnoSlash : ∀ piece ∈ (s.toList.splitOn '/').map fun l => Utf8.encode (String.ofList l),
      slash ∉ piece := by
    intro piece hpiece hmem
    obtain ⟨l, hl, rfl⟩ := List.mem_map.1 hpiece
    have hchar := (Utf8.mem_encode_iff (c := '/') (by decide) (String.ofList l)).1 hmem
    rw [String.toList_ofList] at hchar
    have := Text.eq_false_of_mem_splitOnP hl '/' hchar
    simp at this
  have hs : s.toList = ['/'].intercalate (s.toList.splitOn '/') :=
    (List.intercalate_splitOn '/').symm
  rw [pieces, ofString, Utf8.encode, hs, hbytes, List.splitOn_intercalate slash hnoSlash (by simp),
    ← hs]

/-- Pieces that are texts make a text. -/
theorem exists_ofString_ofPieces {l : List Bytes} (h : ∀ piece ∈ l, ∃ s, Utf8.encode s = piece) :
    ∃ s, ofPieces l = ofString s := by
  induction l with
  | nil => exact ⟨"", rfl⟩
  | cons piece rest ih =>
      obtain ⟨s, rfl⟩ := h piece (by simp)
      obtain ⟨t, ht⟩ := ih fun x hx => h x (by simp [hx])
      cases rest with
      | nil => exact ⟨s, by simp [ofPieces, ofString]⟩
      | cons next rest =>
          have hbytes : [slash].intercalate (next :: rest) = Utf8.encode t := congrArg bytes ht
          refine ⟨s ++ "/" ++ t, ?_⟩
          rw [ofPieces, List.intercalate_cons_cons, hbytes, ofString, Utf8.encode_append,
            Utf8.encode_append]
          rfl

/-- **What is left of a text is a text.** -/
theorem exists_ofString_below (s : String) (dir : Path) :
    ∃ t, (ofString s).below dir = ofString t := by
  refine exists_ofString_ofPieces fun piece hpiece => ?_
  have hmem := keptBelow_subset (ofString s) dir hpiece
  rw [pieces_ofString] at hmem
  obtain ⟨l, -, hl⟩ := List.mem_map.1 hmem
  exact ⟨String.ofList l, hl⟩

end KernelCache.Path
