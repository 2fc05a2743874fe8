/-
**The places of paths.**

Where a path leads depends on the files only through the directories on the way: if they are there,
the place is computed from the path alone, and if one is missing there is no place.  So a path has
one place for all states of the files, and a walk to it needs certain directories.

Main definitions:

* `Path.place` — the place that a path leads to;
* `Path.visits` — the places at which a walk needs directories;
* `Plain` — the names that a directory entry can have.

Main results:

* `FileSystem.walk_eq_ok_iff` — **a walk leads to the place of its pieces, or fails**;
* `FileSystem.place_of_resolve` — whatever a path resolves to is its place;
* `FileSystem.resolve_child` — a directory entry resolves as its directory does;
* `Path.place_child`, `Path.visits_child` — places and visits of directory entries;
* `Path.slash_notMem_of_visits` — the names under which a walk passes below its end;
* `Path.lineage_child_child` — what is above directory entries.
-/

import KernelCache.Files.Tree
import KernelCache.Proofs.Except

set_option relaxedAutoImplicit false
set_option autoImplicit false

namespace KernelCache

namespace Path

/-! ### Definitions -/

/-- The place one piece further on. -/
def onward (place : Place) (piece : Bytes) : Place :=
  if piece = [dot, dot] then FileSystem.above place else place ++ [piece]

/-- The place that a path leads to, wherever it leads at all. -/
def place (p : Path) : Place := p.steps.foldl onward (FileSystem.startOf p)

/-- The places at which a walk along some pieces needs directories. -/
def visitsFrom : Place → List Bytes → List Place
  | _, [] => []
  | place, piece :: rest =>
    if piece = [dot, dot] then visitsFrom (FileSystem.above place) rest
    else (place ++ [piece]) :: visitsFrom (place ++ [piece]) rest

/-- The places at which a walk to the end of a path needs directories. -/
def visits (p : Path) : List Place := visitsFrom (FileSystem.startOf p) p.steps

theorem visitsFrom_append (place : Place) (l l' : List Bytes) :
    visitsFrom place (l ++ l') = visitsFrom place l ++ visitsFrom (l.foldl onward place) l' := by
  induction l generalizing place with
  | nil => rfl
  | cons piece rest ih =>
      by_cases h : piece = [dot, dot] <;> simp [visitsFrom, onward, h, ih]

end Path

/-- The names that a directory entry can have. -/
structure Plain (name : Bytes) : Prop where
  ne_nil : name ≠ []
  ne_here : name ≠ [Path.dot]
  ne_up : name ≠ [Path.dot, Path.dot]
  noSlash : Path.slash ∉ name

namespace Plain

variable {name : Bytes}

theorem counts (h : Plain name) : Path.counts name = true := by
  simp [Path.counts, h.ne_nil, h.ne_here]

theorem pieces (h : Plain name) : (Path.mk name).pieces = [name] := by
  refine List.splitOnP_eq_singleton fun x hx => ?_
  have : x ≠ Path.slash := fun heq => h.noSlash (heq ▸ hx)
  simpa using this

theorem getLast?_ne (h : Plain name) : name.getLast? ≠ some Path.slash := fun heq =>
  h.noSlash (List.mem_of_getLast? heq)

theorem head?_ne (h : Plain name) : name.head? ≠ some Path.slash := fun heq =>
  h.noSlash (List.mem_of_head? heq)

end Plain

namespace Path

variable {p q : Path} {name other : String}

/-! ### Directory entries -/

theorem isAbsolute_ofString (h : Plain (Utf8.encode name)) :
    (ofString name).isAbsolute = false := by
  simpa [isAbsolute, ofString] using h.head?_ne

/-- How the path of a directory entry is written. -/
theorem bytes_child (h : Plain (Utf8.encode name)) :
    (p.child name).bytes =
      if p.bytes = [] ∨ p.bytes.getLast? = some slash then p.bytes ++ Utf8.encode name
      else p.bytes ++ slash :: Utf8.encode name := by
  rw [child, join, isAbsolute_ofString h]
  by_cases hp : p.bytes = [] ∨ p.bytes.getLast? = some slash
  · simp [hp, ofString]
  · simp [hp, ofString]

theorem bytes_child_ne_nil (h : Plain (Utf8.encode name)) : (p.child name).bytes ≠ [] := by
  rw [bytes_child h]
  split <;> simp [h.ne_nil]

theorem getLast?_child_ne (h : Plain (Utf8.encode name)) :
    (p.child name).bytes.getLast? ≠ some slash := by
  obtain ⟨b, rest, hname⟩ := List.exists_cons_of_ne_nil h.ne_nil
  have hlast := h.getLast?_ne
  rw [bytes_child h]
  rw [hname] at hlast ⊢
  split <;> simpa using hlast

theorem isAbsolute_child (h : Plain (Utf8.encode name)) :
    (p.child name).isAbsolute = p.isAbsolute := by
  simp only [isAbsolute, bytes_child h]
  cases hb : p.bytes with
  | nil => simpa using h.head?_ne
  | cons b rest => by_cases hs : (b :: rest).getLast? = some slash <;> simp [hs]

theorem startOf_child (h : Plain (Utf8.encode name)) :
    FileSystem.startOf (p.child name) = FileSystem.startOf p := by
  simp [FileSystem.startOf, isAbsolute_child h]

/-- The pieces of a directory entry that are not empty. -/
theorem pieces_child (h : Plain (Utf8.encode name)) :
    (p.child name).pieces.filter (· != []) =
      p.pieces.filter (· != []) ++ [Utf8.encode name] := by
  have hname : (Utf8.encode name).splitOnP (· == slash) = [Utf8.encode name] := h.pieces
  have hne := h.ne_nil
  simp only [pieces, List.splitOn, bytes_child h]
  -- a slash is put before the name only if the path is not empty and does not end with one
  by_cases hnil : p.bytes = []
  · simp [hnil, hname, hne]
  · by_cases hlast : p.bytes.getLast? = some slash
    · obtain ⟨front, hfront⟩ := List.getLast?_eq_some_iff.1 hlast
      have hslash : (slash == slash) = true := by simp
      have happend := List.splitOnP_append_cons (p := (· == slash)) front (Utf8.encode name) hslash
      have hp := List.splitOnP_append_cons (p := (· == slash)) front [] hslash
      rw [if_pos (Or.inr hlast), hfront, List.append_assoc, List.singleton_append, happend, hp]
      simp [hname, hne]
    · rw [if_neg (by simp [hnil, hlast]), List.splitOnP_append_cons _ _ (by simp)]
      simp [hname, hne]

theorem steps_eq (p : Path) : p.steps = (p.pieces.filter (· != [])).filter (· != [dot]) := by
  rw [steps, List.filter_filter]
  refine List.filter_congr fun x _ => ?_
  simp only [counts, Bool.and_comm]

theorem steps_child (h : Plain (Utf8.encode name)) :
    (p.child name).steps = p.steps ++ [Utf8.encode name] := by
  rw [steps_eq, pieces_child h, List.filter_append, ← steps_eq]
  simp [h.ne_here]

/-- The place of a directory entry. -/
theorem place_child (h : Plain (Utf8.encode name)) :
    (p.child name).place = p.place ++ [Utf8.encode name] := by
  simp [place, steps_child h, startOf_child h, onward, h.ne_up]

theorem visits_child (h : Plain (Utf8.encode name)) :
    (p.child name).visits = p.visits ++ [(p.child name).place] := by
  rw [place_child h]
  simp [visits, steps_child h, startOf_child h, visitsFrom_append, visitsFrom, h.ne_up, place]

/-! ### Names on the way -/

/-- Whether a place is reached from another by names without slashes. -/
def Under (start x : Place) : Prop := ∃ l, x = start ++ l ∧ ∀ name ∈ l, slash ∉ name

theorem Under.above {p : Path} {x : Place} (h : Under (FileSystem.startOf p) x) :
    Under (FileSystem.startOf p) (FileSystem.above x) := by
  obtain ⟨l, rfl, hl⟩ := h
  rw [FileSystem.above]
  split
  · exact ⟨l, rfl, hl⟩
  · rename_i hroot
    by_cases hnil : l = []
    · subst hnil
      rw [List.append_nil] at hroot ⊢
      rw [FileSystem.startOf] at hroot ⊢
      split at hroot
      · exact absurd rfl hroot
      · rename_i habs
        rw [if_neg habs]
        exact ⟨[], rfl, by simp⟩
    · exact ⟨l.dropLast, List.dropLast_append_of_ne_nil hnil, fun name hname =>
        hl name (List.dropLast_subset l hname)⟩

theorem under_visitsFrom {p : Path} {place : Place} {l : List Bytes}
    (h : Under (FileSystem.startOf p) place) (hl : ∀ piece ∈ l, slash ∉ piece) :
    (∀ x ∈ visitsFrom place l, Under (FileSystem.startOf p) x) ∧
      Under (FileSystem.startOf p) (l.foldl onward place) := by
  -- induction on the pieces; going up stays under the start because the start has nothing above
  induction l generalizing place with
  | nil => exact ⟨fun x hx => absurd hx List.not_mem_nil, h⟩
  | cons piece rest ih =>
      have hrest : ∀ piece ∈ rest, slash ∉ piece := fun q hq => hl q (List.mem_cons_of_mem _ hq)
      by_cases hup : piece = [dot, dot]
      · rw [visitsFrom, if_pos hup, List.foldl_cons, onward, if_pos hup]
        exact ih h.above hrest
      · have hnext : Under (FileSystem.startOf p) (place ++ [piece]) := by
          obtain ⟨l', rfl, hl'⟩ := h
          refine ⟨l' ++ [piece], List.append_assoc _ _ _, fun name hname => ?_⟩
          rcases List.mem_append.1 hname with hname | hname
          · exact hl' name hname
          · rw [List.mem_singleton.1 hname]
            exact hl piece (by simp)
        obtain ⟨hvisits, hplace⟩ := ih hnext hrest
        rw [visitsFrom, if_neg hup, List.foldl_cons, onward, if_neg hup]
        refine ⟨fun x hx => ?_, hplace⟩
        rcases List.mem_cons.1 hx with rfl | hx
        · exact hnext
        · exact hvisits x hx

theorem slash_notMem_splitOn {l piece : Bytes} (h : piece ∈ l.splitOn slash) : slash ∉ piece := by
  induction l generalizing piece with
  | nil =>
      rw [List.splitOn_nil, List.mem_singleton] at h
      simp [h]
  | cons b rest ih =>
      -- a slash starts a new piece, and another byte goes to the front of the first one
      rw [List.splitOn_cons_eq_if_modifyHead] at h
      split at h
      · rcases List.mem_cons.1 h with rfl | h
        · simp
        · exact ih h
      · rename_i hb
        cases hsplit : rest.splitOn slash with
        | nil => exact absurd hsplit (List.splitOn_ne_nil _ _)
        | cons first others =>
            rw [hsplit] at h ih
            rw [List.modifyHead_cons, List.mem_cons] at h
            rcases h with rfl | h
            · intro hmem
              rcases List.mem_cons.1 hmem with heq | hmem
              · exact hb (by simp [heq])
              · exact ih (by simp) hmem
            · exact ih (List.mem_cons_of_mem _ h)

/-- Neither the way to a path nor the path itself leads through a name with a slash. -/
theorem under_visits (p : Path) :
    (∀ x ∈ p.visits, Under (FileSystem.startOf p) x) ∧ Under (FileSystem.startOf p) p.place := by
  rw [place]
  refine under_visitsFrom ⟨[], by simp, by simp⟩ fun piece hpiece => ?_
  exact slash_notMem_splitOn (List.mem_filter.1 hpiece).1

/-- What the way to a path passes below the path itself it passes under a name without slashes. -/
theorem slash_notMem_of_visits {p : Path} {name : Bytes} {rest : List Bytes}
    (h : p.place ++ name :: rest ∈ p.visits) : slash ∉ name := by
  obtain ⟨l, hl, -⟩ := (under_visits p).2
  obtain ⟨l', hl', hnames⟩ := (under_visits p).1 _ h
  rw [hl, List.append_assoc, List.append_cancel_left_eq] at hl'
  refine hnames name ?_
  rw [← hl']
  simp

/-! ### Lineages -/

/-- One more piece after a path that does not end in a slash. -/
theorem pieces_child_eq (h : Plain (Utf8.encode name)) (hp : p.bytes ≠ [])
    (hlast : p.bytes.getLast? ≠ some slash) :
    (p.child name).pieces = p.pieces ++ [Utf8.encode name] := by
  have hname : (Utf8.encode name).splitOnP (· == slash) = [Utf8.encode name] := h.pieces
  rw [pieces, bytes_child h, if_neg (not_or.2 ⟨hp, hlast⟩), List.splitOn,
    List.splitOnP_append_cons _ _ (by simp), hname]
  rfl

theorem getLast?_pieces_child (h : Plain (Utf8.encode name)) :
    (p.child name).pieces.getLast? = some (Utf8.encode name) := by
  have hname : (Utf8.encode name).splitOnP (· == slash) = [Utf8.encode name] := h.pieces
  by_cases hp : p.bytes = [] ∨ p.bytes.getLast? = some slash
  · rw [pieces, bytes_child h, if_pos hp, List.splitOn]
    rcases hp with hp | hp
    · rw [hp, List.nil_append, hname]
      rfl
    · obtain ⟨front, hfront⟩ := List.getLast?_eq_some_iff.1 hp
      rw [hfront, List.append_assoc, List.singleton_append,
        List.splitOnP_append_cons _ _ (by simp), hname, List.getLast?_concat]
  · rw [not_or] at hp
    rw [pieces_child_eq h hp.1 hp.2, List.getLast?_concat]

theorem getLast?_components_child (h : Plain (Utf8.encode name)) :
    (p.child name).components.getLast? = some (.name (Utf8.encode name)) := by
  have hbody : ((p.child name).steps.map Component.ofPiece).getLast? =
      some (.name (Utf8.encode name)) := by
    rw [steps_child h, List.map_append, List.map_singleton, List.getLast?_concat,
      Component.ofPiece, if_neg h.ne_up]
  simp only [components]
  split
  · rw [List.getLast?_cons, hbody]
    rfl
  · split
    · rw [List.getLast?_cons, hbody]
      rfl
    · exact hbody

theorem trimPieces_of_counts {l : List Bytes} {piece : Bytes} (hlast : l.getLast? = some piece)
    (h : counts piece = true) : trimPieces l = l := by
  obtain ⟨front, rfl⟩ := List.getLast?_eq_some_iff.1 hlast
  rw [trimPieces, List.reverse_append, List.reverse_singleton, List.singleton_append,
    List.dropWhile_cons_of_neg (by simp [h]), List.reverse_cons, List.reverse_reverse]

theorem parent?_child_child (ho : Plain (Utf8.encode other)) (h : Plain (Utf8.encode name)) :
    ((q.child other).child name).parent? = some (q.child other) := by
  have hpieces := pieces_child_eq h (bytes_child_ne_nil ho (p := q)) (getLast?_child_ne ho)
  have hlast := getLast?_pieces_child ho (p := q)
  have hne : (q.child other).pieces ≠ [] := by
    intro hnil
    rw [hnil] at hlast
    cases hlast
  -- neither name is dropped as an empty piece or as a dot
  have htrim : trimPieces (trimPieces ((q.child other).child name).pieces).dropLast =
      (q.child other).pieces := by
    rw [trimPieces_of_counts (getLast?_pieces_child h) h.counts, hpieces, List.dropLast_concat,
      trimPieces_of_counts hlast ho.counts]
  have hof : ofPieces (q.child other).pieces = q.child other := by
    rw [ofPieces, pieces, List.intercalate_splitOn]
  rw [parent?, getLast?_components_child h]
  simp only [htrim]
  rw [hof]

/-- A path two names down has the path one name down above it. -/
theorem lineage_child_child (ho : Plain (Utf8.encode other)) (h : Plain (Utf8.encode name)) :
    ∃ up, ((q.child other).child name).lineage =
      (q.child other).child name :: q.child other :: up := by
  have hlength : 1 ≤ ((q.child other).child name).components.length := by
    have hsteps : 1 ≤ ((q.child other).child name).steps.length := by
      rw [steps_child h, List.length_append, List.length_singleton]
      omega
    simp only [components]
    split
    · simp
    · split <;> simp [hsteps]
  obtain ⟨n, hn⟩ := Nat.exists_eq_add_of_le' hlength
  rw [lineage, hn, lineageFrom, parent?_child_child ho h]
  exact ⟨_, rfl⟩

end Path

namespace FileSystem

variable {fs : FileSystem}

/-! ### Walks -/

/-- **A walk leads to the place of its pieces, if all the directories that it needs are there.** -/
theorem walk_eq_ok_iff {place q : Place} {l : List Bytes} :
    fs.walk place l = .ok q ↔
      q = l.foldl Path.onward place ∧
        ∀ x ∈ Path.visitsFrom place l, fs.node? x = some .directory := by
  -- the walk and the places that it visits turn at the same pieces
  induction l generalizing place with
  | nil => simp [walk, Path.visitsFrom, eq_comm]
  | cons piece rest ih =>
      by_cases h : piece = [Path.dot, Path.dot]
      · simp [walk, h, ih, Path.visitsFrom, Path.onward]
      · rw [walk, if_neg h]
        simp only [Path.visitsFrom, if_neg h, List.foldl_cons, Path.onward, List.mem_cons,
          forall_eq_or_imp]
        cases hnode : fs.node? (place ++ [piece]) with
        | none => simp
        | some n =>
            cases n with
            | file b => simp
            | directory => simp [ih]

/-- Whether the directories on the way to the end of a path are there, the end included. -/
def Walkable (fs : FileSystem) (p : Path) : Prop := ∀ x ∈ p.visits, fs.node? x = some .directory

theorem walk_steps_eq_ok_iff {p : Path} {q : Place} :
    fs.walk (startOf p) p.steps = .ok q ↔ q = p.place ∧ fs.Walkable p := walk_eq_ok_iff

theorem walk_of_walkable {p : Path} (h : fs.Walkable p) :
    fs.walk (startOf p) p.steps = .ok p.place := walk_steps_eq_ok_iff.2 ⟨rfl, h⟩

/-! ### Resolving -/

/-- Whatever a path resolves to is its place. -/
theorem place_of_resolve {p : Path} {t : Target} (h : fs.resolve p = .ok t) :
    t.place = p.place := by
  rw [resolve] at h
  split at h
  · cases h
  · cases hlast : p.steps.getLast? with
    | none =>
        simp only [hlast] at h
        cases h
        simp [Path.place, List.getLast?_eq_none_iff.1 hlast]
    | some last =>
        obtain ⟨front, hfront⟩ := List.getLast?_eq_some_iff.1 hlast
        have hplace : p.place = Path.onward (front.foldl Path.onward (startOf p)) last := by
          simp [Path.place, hfront]
        have hfrontEq : p.steps.dropLast = front := by simp [hfront]
        simp only [hlast, hfrontEq] at h
        split at h
        · -- a dot at the end makes the walk go all the way
          obtain ⟨dir, hw, h⟩ := bind_eq_ok_iff.1 h
          rw [← Except.ok.inj h]
          exact (walk_steps_eq_ok_iff.1 hw).1
        · -- otherwise it ends one piece before
          obtain ⟨dir, hw, h⟩ := bind_eq_ok_iff.1 h
          have hdir := (walk_eq_ok_iff.1 hw).1
          split at h
          · next hup => rw [← Except.ok.inj h, hplace, Path.onward, if_pos hup, hdir]
          · next hup => rw [← Except.ok.inj h, hplace, Path.onward, if_neg hup, hdir]

/-- A directory entry resolves to its place if the directories on the way to it are there, and
fails as the walk to them does if not. -/
theorem resolve_child {p : Path} {name : String} (h : Plain (Utf8.encode name)) :
    fs.resolve (p.child name) =
      (fs.walk (startOf p) p.steps).map fun _ => ⟨(p.child name).place, false⟩ := by
  have hslash := Path.getLast?_child_ne h (p := p)
  have hhere : endsHere (p.child name) = false := by
    rw [endsHere, Path.pieces_child h]
    simp [h.ne_here]
  rw [resolve, if_neg (Path.bytes_child_ne_nil h), Path.steps_child h, Path.startOf_child h, hhere]
  simp only [List.getLast?_append, List.getLast?_singleton, Option.some_or, Bool.false_eq_true,
    if_false, List.dropLast_concat, if_neg h.ne_up]
  cases hw : fs.walk (startOf p) p.steps with
  | error e => rfl
  | ok dir =>
      have hdir := (walk_steps_eq_ok_iff.1 hw).1
      simp [Except.map, bind, Except.bind, pure, Except.pure, Path.place_child h, hdir, hslash]

theorem resolve_child_ok {p : Path} {name : String} (h : Plain (Utf8.encode name))
    (hw : fs.Walkable p) : fs.resolve (p.child name) = .ok ⟨(p.child name).place, false⟩ := by
  rw [resolve_child h, walk_of_walkable hw]
  rfl

/-- If a directory entry resolves, the directories on the way to it are there. -/
theorem walkable_of_resolve_child {p : Path} {name : String} {t : Target}
    (h : Plain (Utf8.encode name)) (ht : fs.resolve (p.child name) = .ok t) : fs.Walkable p := by
  rw [resolve_child h] at ht
  cases hw : fs.walk (startOf p) p.steps with
  | error e => simp [hw, Except.map] at ht
  | ok dir => exact (walk_steps_eq_ok_iff.1 hw).2

end FileSystem

-- Where a path leads is used through the lemmas above only.
attribute [irreducible] Path.place

end KernelCache
