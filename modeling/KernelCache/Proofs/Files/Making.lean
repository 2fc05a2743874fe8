/-
**Making directories with their ancestors while others do the same.**

Whoever makes a directory and those above it may find at every step that somebody else has made some
of them meanwhile.  As long as directories only appear and no file is in the way, this does no harm:
in the end the directory is there, whoever made it.

Main definitions:

* `Path.approach` — the places at which the walk to the last name of a path needs directories;
* `FileSystem.Gains` — nothing but new directories at some places;
* `FileSystem.Made` — what making a directory comes to;
* `growing` — **the rule for making directories on the way to a path**, with others at work;
* `Action.Makes`, `ceasing` — the rule that this is all.

Main results:

* `Path.exists_parent` — the path above a path lacks the last step;
* `FileSystem.makeDirectory_cases` — what comes of making one directory;
* `growing_makeDirectories` — **in the end the directory is there**, unless it is a file;
* `ceasing_makeDirectories` — whoever has made it does nothing more.
-/

import KernelCache.Files.Directories
import KernelCache.Proofs.Files.Lineage
import KernelCache.Proofs.Files.Success
import KernelCache.Proofs.Rule

set_option relaxedAutoImplicit false
set_option autoImplicit false

namespace KernelCache

/-! ### One step up -/

namespace Path

variable {p q r : Path}

/-- The places at which the walk to the last name of a path needs directories. -/
def approach (p : Path) : List Place := visitsFrom (FileSystem.startOf p) p.steps.dropLast

/-- A path whose last name is not a single dot. -/
def Neat (p : Path) : Prop := p.steps = [] ∨ FileSystem.endsHere p = false

theorem neat_child {name : String} (h : Plain (Utf8.encode name)) : (p.child name).Neat := by
  refine Or.inr ?_
  rw [FileSystem.endsHere, pieces_child h]
  simp [h.ne_here]

/-- Without its last piece that counts a path lacks its last step. -/
theorem filter_dropLast_trimPieces (h : p.steps ≠ []) :
    (trimPieces p.pieces).dropLast.filter counts = p.steps.dropLast := by
  have hne : trimPieces p.pieces ≠ [] := by
    intro hnil
    have hsteps := filter_trimPieces p.pieces
    rw [hnil] at hsteps
    exact h hsteps.symm
  have hcounts := counts_getLast_trimPieces (List.getLast?_eq_some_getLast hne)
  have hsteps : p.steps = (trimPieces p.pieces).dropLast.filter counts ++
      [(trimPieces p.pieces).getLast hne] :=
    calc p.steps = (trimPieces p.pieces).filter counts := (filter_trimPieces _).symm
      _ = ((trimPieces p.pieces).dropLast ++
          [(trimPieces p.pieces).getLast hne]).filter counts := by
        rw [List.dropLast_concat_getLast hne]
      _ = _ := by rw [List.filter_append, List.filter_cons_of_pos hcounts, List.filter_nil]
  rw [hsteps, List.dropLast_concat]

/-- A path whose last piece counts is neat. -/
theorem neat_of_pieces {piece : Bytes} (hlast : p.pieces.getLast? = some piece)
    (h : counts piece = true) : p.Neat := by
  obtain ⟨front, hfront⟩ := List.getLast?_eq_some_iff.1 hlast
  have hpiece : piece ≠ [] ∧ piece ≠ [dot] := by simpa [counts] using h
  refine Or.inr ?_
  rw [FileSystem.endsHere, hfront, List.filter_append]
  simp [hpiece.1, hpiece.2]

/-- **The path above a path lacks the last step.** -/
theorem exists_parent (h : p.steps ≠ []) :
    ∃ r, p.parent? = some r ∧ r.steps = p.steps.dropLast ∧ r.Neat := by
  have hlast : ∃ piece, p.components.getLast? = some (Component.ofPiece piece) := by
    refine ⟨p.steps.getLast h, ?_⟩
    have hbody : (p.steps.map Component.ofPiece).getLast? =
        some (Component.ofPiece (p.steps.getLast h)) := by
      rw [List.getLast?_map, List.getLast?_eq_some_getLast h]
      rfl
    simp only [components]
    split
    · rw [List.getLast?_cons, hbody]
      rfl
    · split
      · rw [List.getLast?_cons, hbody]
        rfl
      · exact hbody
  obtain ⟨piece, hpiece⟩ := hlast
  have hfilter := filter_dropLast_trimPieces h
  rw [← filter_trimPieces] at hfilter
  have hname : Component.ofPiece piece ≠ .root ∧ Component.ofPiece piece ≠ .here := by
    rw [Component.ofPiece]
    split <;> simp
  rw [parent?, hpiece]
  split
  · next heq => cases heq
  · next heq => exact absurd (Option.some.inj heq) hname.1
  · next heq => exact absurd (Option.some.inj heq) hname.2
  · split
    · -- nothing is left but where the path starts
      next hnil =>
        rw [hnil] at hfilter
        have hstart : (if p.isAbsolute then Path.mk [slash]
            else if p.startsHere then ⟨[dot]⟩ else ⟨[]⟩).steps = [] := by
          split
          · decide
          · split <;> decide
        exact ⟨_, rfl, hstart.trans hfilter, Or.inl hstart⟩
    · next kept hkept =>
        have hbefore : trimPieces (trimPieces p.pieces).dropLast <+: p.pieces :=
          (prefix_trimPieces _).trans ((List.dropLast_prefix _).trans (prefix_trimPieces _))
        have hpieces : (ofPieces (trimPieces (trimPieces p.pieces).dropLast)).pieces =
            trimPieces (trimPieces p.pieces).dropLast :=
          List.splitOn_intercalate slash
            (fun piece hpiece => slash_notMem_splitOn (hbefore.subset hpiece)) hkept
        refine ⟨_, rfl, ?_, ?_⟩
        · rw [steps, hpieces, hfilter]
        · have hsome := List.getLast?_eq_some_getLast hkept
          exact neat_of_pieces (by rw [hpieces]; exact hsome) (counts_getLast_trimPieces hsome)

theorem visits_of_steps (hsteps : r.steps = p.steps.dropLast)
    (hstart : FileSystem.startOf r = FileSystem.startOf p) : r.visits = p.approach := by
  rw [visits, approach, hsteps, hstart]

theorem approach_prefix_visits (p : Path) : p.approach <+: p.visits := by
  obtain ⟨l, hl⟩ := List.dropLast_prefix p.steps
  have hvisits : p.visits = visitsFrom (FileSystem.startOf p) (p.steps.dropLast ++ l) := by
    rw [hl, visits]
  rw [hvisits, visitsFrom_append]
  exact List.prefix_append _ _

theorem visits_subset_of_steps (hsteps : p.steps <+: q.steps)
    (hstart : FileSystem.startOf p = FileSystem.startOf q) : p.visits ⊆ q.visits := by
  obtain ⟨l, hl⟩ := hsteps
  rw [visits, visits, ← hl, visitsFrom_append, hstart]
  exact List.subset_append_left _ _

theorem visits_subset_of_mem_lineage (h : p ∈ q.lineage) : p.visits ⊆ q.visits :=
  visits_subset_of_steps (steps_of_mem_lineage h).1 (steps_of_mem_lineage h).2

/-- Above a path two names down the walk passes no more than to the path one name down. -/
theorem visits_of_mem_lineage_child_child {other name : String} (ho : Plain (Utf8.encode other))
    (h : Plain (Utf8.encode name)) (hp : p ∈ ((q.child other).child name).lineage) :
    p = (q.child other).child name ∨ p.visits ⊆ (q.child other).visits := by
  rw [lineage, lineageFrom, parent?_child_child ho h, List.mem_cons] at hp
  refine hp.imp_right fun hp => ?_
  obtain ⟨hsteps, hstart⟩ := steps_of_mem_lineageFrom hp
  exact visits_subset_of_steps hsteps hstart

end Path

namespace FileSystem

variable {fs fs' fs'' : FileSystem} {p q : Path} {l : List Place}

/-! ### Places on the way -/

/-- Where the walk to a path ends, there is a directory. -/
theorem node?_place_of_walkable (h : fs.Walkable p) : fs.node? p.place = some .directory := by
  rcases Path.passed_place p with hmem | hstart
  · exact h _ hmem
  · exact node?_of_isBase (isBase_of_prefix_startOf hstart)

/-- What is not a directory at the place of a path is where the walk would have to pass. -/
theorem place_mem_visits (h : fs.node? p.place ≠ some .directory) : p.place ∈ p.visits := by
  rcases Path.passed_place p with hmem | hstart
  · exact hmem
  · exact absurd (node?_of_isBase (isBase_of_prefix_startOf hstart)) h

/-- A walk fails for want of a directory, if no file is in the way. -/
theorem walk_error {place : Place} {pieces : List Bytes} {e : Failure}
    (hfree : ∀ x ∈ Path.visitsFrom place pieces, ∀ b, fs.node? x ≠ some (.file b))
    (h : fs.walk place pieces = .error e) : e = .notFound := by
  rcases walk_error_cases h with hmissing | ⟨-, x, hx, b, hfile⟩
  · exact hmissing
  · exact absurd hfile (hfree x hx b)

/-- How a path resolves that does not end in a single dot. -/
theorem resolve_neat (fs : FileSystem) (hbytes : p.bytes ≠ []) (hneat : p.Neat) {last : Bytes}
    (hlast : p.steps.getLast? = some last) : ∃ asDirectory, fs.resolve p =
      (fs.walk (startOf p) p.steps.dropLast).map fun _ => ⟨p.place, asDirectory⟩ := by
  have hhere : endsHere p = false := hneat.resolve_left fun hnil => by
    rw [hnil] at hlast
    cases hlast
  obtain ⟨front, hfront⟩ := List.getLast?_eq_some_iff.1 hlast
  have hdrop : p.steps.dropLast = front := by rw [hfront, List.dropLast_concat]
  refine ⟨decide (last = [Path.dot, Path.dot]) || p.bytes.getLast? == some Path.slash, ?_⟩
  cases hw : fs.walk (startOf p) p.steps.dropLast with
  | error e =>
      rw [resolve, if_neg hbytes]
      simp only [hlast, hhere, hw]
      rfl
  | ok dir =>
      have hplace : ∀ t, fs.resolve p = .ok t → t.place = p.place := fun t => place_of_resolve
      rw [resolve, if_neg hbytes] at hplace ⊢
      simp only [hlast, hhere, hw] at hplace ⊢
      by_cases hup : last = [Path.dot, Path.dot]
      · have habove := hplace ⟨above dir, true⟩
          (by simp [hup, bind, Except.bind, pure, Except.pure])
        simp [hup, bind, Except.bind, pure, Except.pure, Except.map, ← habove]
      · have hbelow := hplace ⟨dir ++ [last], p.bytes.getLast? == some Path.slash⟩
          (by simp [hup, bind, Except.bind, pure, Except.pure])
        simp [hup, bind, Except.bind, pure, Except.pure, Except.map, ← hbelow]

/-- A path without steps leads to where it starts. -/
theorem resolve_of_steps_eq_nil (hbytes : p.bytes ≠ []) (h : p.steps = []) :
    fs.resolve p = .ok ⟨p.place, true⟩ := by
  have hplace : ∀ t, fs.resolve p = .ok t → t.place = p.place := fun t => place_of_resolve
  have hresolve : fs.resolve p = .ok ⟨startOf p, true⟩ := by
    rw [resolve, if_neg hbytes, h]
    rfl
  rw [hresolve, ← hplace _ hresolve]

/-- A path resolves to its place if the directories on its approach are there. -/
theorem resolve_of_approach (hbytes : p.bytes ≠ []) (hneat : p.Neat)
    (h : ∀ x ∈ p.approach, fs.node? x = some .directory) :
    ∃ asDirectory, fs.resolve p = .ok ⟨p.place, asDirectory⟩ := by
  by_cases hnil : p.steps = []
  · exact ⟨true, resolve_of_steps_eq_nil hbytes hnil⟩
  · obtain ⟨asDirectory, hresolve⟩ :=
      resolve_neat fs hbytes hneat (List.getLast?_eq_some_getLast hnil)
    have hwalk : fs.walk (startOf p) p.steps.dropLast = .ok _ := walk_eq_ok_iff.2 ⟨rfl, h⟩
    refine ⟨asDirectory, ?_⟩
    rw [hresolve, hwalk]
    rfl

/-- What is passed on the way to a path is passed on its approach, or it is where the path leads. -/
theorem mem_approach_or_eq {x : Place} (h : x ∈ p.visits) : x ∈ p.approach ∨ x = p.place := by
  by_cases hnil : p.steps = []
  · rw [Path.visits, hnil] at h
    cases h
  · have hsteps := List.dropLast_concat_getLast hnil
    have hplace : p.place = Path.onward (p.steps.dropLast.foldl Path.onward (startOf p))
        (p.steps.getLast hnil) :=
      calc p.place = (p.steps.dropLast ++ [p.steps.getLast hnil]).foldl Path.onward
            (startOf p) := by rw [hsteps, Path.place]
        _ = _ := by rw [List.foldl_append, List.foldl_cons, List.foldl_nil]
    have hvisits : p.visits = p.approach ++ Path.visitsFrom
        (p.steps.dropLast.foldl Path.onward (startOf p)) [p.steps.getLast hnil] := by
      rw [Path.approach, ← Path.visitsFrom_append, hsteps, Path.visits]
    rw [hvisits, List.mem_append] at h
    refine h.imp_right fun hlast => ?_
    rw [Path.visitsFrom] at hlast
    split at hlast
    · cases hlast
    · next hup =>
        rw [hplace, Path.onward, if_neg hup]
        simpa [Path.visitsFrom] using hlast

/-! ### New directories -/

/-- Nothing but new directories at some places. -/
def Gains (l : List Place) (fs fs' : FileSystem) : Prop :=
  ∀ x ∈ l, fs'.node? x = fs.node? x ∨ fs.node? x = none ∧ fs'.node? x = some .directory

theorem Gains.refl (l : List Place) (fs : FileSystem) : Gains l fs fs := fun _ _ => Or.inl rfl

theorem Gains.trans (h : Gains l fs fs') (h' : Gains l fs' fs'') : Gains l fs fs'' := by
  intro x hx
  rcases h x hx with heq | ⟨hnone, hdir⟩
  · rw [← heq]
    exact h' x hx
  · rcases h' x hx with heq' | ⟨hnone', -⟩
    · exact Or.inr ⟨hnone, heq'.trans hdir⟩
    · cases hnone'.symm.trans hdir

theorem Gains.node? (h : Gains l fs fs') {x : Place} (hx : x ∈ l) {n : Node}
    (hn : fs.node? x = some n) : fs'.node? x = some n := by
  rcases h x hx with heq | ⟨hnone, -⟩
  · rw [heq, hn]
  · cases hnone.symm.trans hn

theorem Gains.mono {l' : List Place} (h : Gains l fs fs') (hl : l' ⊆ l) : Gains l' fs fs' :=
  fun x hx => h x (hl hx)

theorem Gains.walkable (h : Gains l fs fs') (hp : p.visits ⊆ l) (hw : fs.Walkable p) :
    fs'.Walkable p := fun x hx => h.node? (hp hx) (hw x hx)

/-- No file appears. -/
theorem Gains.free (h : Gains l fs fs') {x : Place} (hx : x ∈ l)
    (hfree : ∀ b, fs.node? x ≠ some (.file b)) (b : Bytes) : fs'.node? x ≠ some (.file b) := by
  rcases h x hx with heq | ⟨-, hdir⟩
  · rw [heq]
    exact hfree b
  · simp [hdir]

theorem Gains.of_makeDirectory (h : fs.makeDirectory p = .ok fs') : Gains l fs fs' := by
  intro x _
  obtain ⟨hnone, hupdate⟩ := makeDirectory_ok h
  rw [hupdate]
  by_cases hx : x = p.place
  · rw [hx, Function.update_self]
    exact Or.inr ⟨hnone, rfl⟩
  · exact Or.inl (Function.update_of_ne hx ..)

/-- Where the directories on the approach are there, what is made is there afterwards. -/
theorem walkable_of_approach (h : ∀ x ∈ p.approach, fs.node? x = some .directory)
    (hplace : fs.node? p.place = some .directory) : fs.Walkable p := by
  intro x hx
  rcases mem_approach_or_eq hx with happroach | rfl
  · exact h x happroach
  · exact hplace

/-- **What comes of making one directory**, if no file is on its approach. -/
theorem makeDirectory_cases (fs : FileSystem) (hbytes : p.bytes ≠ []) (hneat : p.Neat)
    (hfree : ∀ x ∈ p.approach, ∀ b, fs.node? x ≠ some (.file b)) :
    (∃ fs', fs.makeDirectory p = .ok fs' ∧ fs'.Walkable p) ∨
      fs.makeDirectory p = .error .alreadyExists ∧
        (fs.Walkable p ∨ ∃ b, fs.node? p.place = some (.file b)) ∨
      fs.makeDirectory p = .error .notFound ∧ p.steps ≠ [] ∧
        ¬∀ x ∈ p.approach, fs.node? x = some .directory := by
  by_cases hopen : ∀ x ∈ p.approach, fs.node? x = some .directory
  · obtain ⟨asDirectory, hresolve⟩ := resolve_of_approach hbytes hneat hopen
    rw [makeDirectory, hresolve]
    simp only [bind, Except.bind]
    cases hnode : fs.node? p.place with
    | none =>
        refine Or.inl ⟨_, rfl, fun x hx => ?_⟩
        have hdir : fs.node? p.place ≠ some .directory := by simp [hnode]
        rw [node?_put (not_isBase_of_node? hdir)]
        rcases mem_approach_or_eq hx with happroach | rfl
        · rw [Function.update_of_ne, hopen x happroach]
          intro heq
          cases (heq ▸ hnode).symm.trans (hopen x happroach)
        · exact Function.update_self ..
    | some n =>
        refine Or.inr (Or.inl ⟨rfl, ?_⟩)
        cases n with
        | directory => exact Or.inl (walkable_of_approach hopen hnode)
        | file b => exact Or.inr ⟨b, rfl⟩
  · have hsteps : p.steps ≠ [] := by
      intro hnil
      refine hopen fun x hx => ?_
      rw [Path.approach, hnil] at hx
      cases hx
    obtain ⟨asDirectory, hresolve⟩ :=
      resolve_neat fs hbytes hneat (List.getLast?_eq_some_getLast hsteps)
    refine Or.inr (Or.inr ⟨?_, hsteps, hopen⟩)
    rw [makeDirectory, hresolve]
    cases hw : fs.walk (startOf p) p.steps.dropLast with
    | error e =>
        obtain rfl := walk_error hfree hw
        rfl
    | ok dir => exact absurd (walk_eq_ok_iff.1 hw).2 hopen

/-- What is seen of a directory that is there. -/
theorem lookup_of_walkable (hbytes : p.bytes ≠ []) (hneat : p.Neat) (h : fs.Walkable p) :
    fs.lookup p = .ok (p.place, .directory) := by
  obtain ⟨asDirectory, hresolve⟩ := resolve_of_approach hbytes hneat fun x hx =>
    h x ((Path.approach_prefix_visits p).subset hx)
  rw [lookup, hresolve]
  simp only [bind, Except.bind, node?_place_of_walkable h]
  rfl

/-- What making a directory comes to: it is there, or there is a file in its place. -/
def Made (p : Path) (r : Except Failure Unit) (fs : FileSystem) : Prop :=
  r = .ok () ∧ fs.Walkable p ∨
    r = .error .alreadyExists ∧ ∃ b, fs.node? p.place = some (.file b)

end FileSystem

/-! ### Making directories with others at work -/

open FileSystem

/-- The rule for making directories on the way to a path, and looking for them, where others may
make some of them at any time. -/
def growing (q : Path) : Rule Action Action.Reply FileSystem where
  act
    | .makeDirectory p, post, fs => p ∈ q.lineage ∧ ∀ fs₁, Gains q.visits fs fs₁ →
        (∀ fs₂, fs₁.makeDirectory p = .ok fs₂ → post (.ok ()) fs₂) ∧
          ∀ e, fs₁.makeDirectory p = .error e → post (.error e) fs₁
    | .look p, post, fs => p ∈ q.lineage ∧ ∀ fs₁, Gains q.visits fs fs₁ →
        post ((fs₁.lookup p).map (·.2)) fs₁
    | _, _, _ => False
  wait := fun _ => False

section

variable {fs fs' : FileSystem} {p q : Path} {post : Except Failure Unit → FileSystem → Prop}

theorem growing_look (hp : p ∈ q.lineage) {post : Except Failure Node → FileSystem → Prop}
    (h : ∀ fs₁, Gains q.visits fs fs₁ → post ((fs₁.lookup p).map (·.2)) fs₁) :
    Program.Obeys (growing q) post (Ask.look p) fs := by
  have hact : (growing q).act (.look p) post fs := ⟨hp, h⟩
  exact Program.obeys_act_of hact

theorem growing_makeDirectory (hp : p ∈ q.lineage)
    (h : ∀ fs₁, Gains q.visits fs fs₁ → (∀ fs₂, fs₁.makeDirectory p = .ok fs₂ → post (.ok ()) fs₂) ∧
      ∀ e, fs₁.makeDirectory p = .error e → post (.error e) fs₁) :
    Program.Obeys (growing q) post (Ask.makeDirectory p) fs := by
  have hact : (growing q).act (.makeDirectory p) post fs := ⟨hp, h⟩
  exact Program.obeys_act_of hact

/-- After a directory could not be made because something is there, a look tells what it is. -/
theorem growing_unlessThere (hp : p ∈ q.lineage) (hbytes : p.bytes ≠ []) (hneat : p.Neat)
    (hthere : fs.Walkable p ∨ ∃ b, fs.node? p.place = some (.file b))
    (hpost : ∀ r fs', Gains q.visits fs fs' → Made p r fs' → post r fs') :
    Program.Obeys (growing q) post (unlessThere p .alreadyExists) fs := by
  rw [unlessThere, isDirectory, Program.obeys_bind, Program.obeys_bind]
  refine growing_look hp fun fs₁ hgrows => ?_
  have hvisits := Path.visits_subset_of_mem_lineage hp
  rcases hthere with hwalk | ⟨b, hfile⟩
  · have hwalk₁ : fs₁.Walkable p := hgrows.walkable hvisits hwalk
    rw [lookup_of_walkable hbytes hneat hwalk₁]
    exact Program.obeys_pure_of (Program.obeys_pure_of (hpost _ _ hgrows (Or.inl ⟨rfl, hwalk₁⟩)))
  · have hdir : fs.node? p.place ≠ some .directory := by simp [hfile]
    have hfile₁ := hgrows.node? (hvisits (place_mem_visits hdir)) hfile
    have hno : ∀ x, fs₁.lookup p ≠ .ok (x, .directory) := by
      intro x hx
      cases (lookup_ok hx).2.symm.trans hfile₁
    have hmade : Made p (.error .alreadyExists) fs₁ := Or.inr ⟨rfl, b, hfile₁⟩
    split
    · next hlook =>
        cases hl : fs₁.lookup p with
        | error e =>
            rw [hl] at hlook
            cases hlook
        | ok found =>
            obtain ⟨x, n⟩ := found
            rw [hl] at hlook
            obtain rfl : n = .directory := Except.ok.inj hlook
            exact absurd hl (hno x)
    · exact Program.obeys_pure_of (Program.obeys_pure_of (hpost _ _ hgrows hmade))

/-- Once the directories above are there, a directory can be made, or it is there. -/
theorem growing_makeLast (hp : p ∈ q.lineage) (hbytes : p.bytes ≠ []) (hneat : p.Neat)
    (hopen : ∀ x ∈ p.approach, fs.node? x = some .directory)
    (hpost : ∀ r fs', Gains q.visits fs fs' → Made p r fs' → post r fs') :
    Program.Obeys (growing q) post (Ask.makeDirectory p >>= fun r =>
      match r with
      | .ok () => return .ok ()
      | .error e => unlessThere p e) fs := by
  rw [Program.obeys_bind]
  refine growing_makeDirectory hp fun fs₁ hgrows => ?_
  have happroach := List.Subset.trans (Path.approach_prefix_visits p).subset
    (Path.visits_subset_of_mem_lineage hp)
  have hopen₁ : ∀ x ∈ p.approach, fs₁.node? x = some .directory := fun x hx =>
    hgrows.node? (happroach hx) (hopen x hx)
  have hcases := makeDirectory_cases fs₁ hbytes hneat fun x hx b => by
    rw [hopen₁ x hx]
    simp
  refine ⟨fun fs₂ hfs₂ => ?_, fun e he => ?_⟩
  · obtain ⟨fs₃, hfs₃, hwalk⟩ | ⟨heq, -⟩ | ⟨heq, -⟩ := hcases
    · obtain rfl : fs₃ = fs₂ := Except.ok.inj (hfs₃.symm.trans hfs₂)
      exact Program.obeys_pure_of
        (hpost _ _ (hgrows.trans (.of_makeDirectory hfs₂)) (Or.inl ⟨rfl, hwalk⟩))
    · cases heq.symm.trans hfs₂
    · cases heq.symm.trans hfs₂
  · obtain ⟨fs₃, hfs₃, -⟩ | ⟨heq, hthere⟩ | ⟨-, -, hclosed⟩ := hcases
    · cases hfs₃.symm.trans he
    · obtain rfl : Failure.alreadyExists = e := Except.error.inj (heq.symm.trans he)
      exact growing_unlessThere hp hbytes hneat hthere fun r fs' h => hpost r fs' (hgrows.trans h)
    · exact absurd hopen₁ hclosed

/-- Making the first directory of a lineage, where making the others does what it should. -/
theorem growing_makeAll_cons {up : List Path} (hp : p ∈ q.lineage) (hneat : p.Neat)
    (hfree : ∀ x ∈ p.approach, ∀ b, fs.node? x ≠ some (.file b))
    (hup : p.steps ≠ [] → ∀ fs₁ post', Gains q.visits fs fs₁ →
      (∀ fs₂, Gains q.visits fs₁ fs₂ → (∀ x ∈ p.approach, fs₂.node? x = some .directory) →
        post' (.ok ()) fs₂) → Program.Obeys (growing q) post' (makeAll up) fs₁)
    (hpost : ∀ r fs', Gains q.visits fs fs' → Made p r fs' → post r fs') :
    Program.Obeys (growing q) post (makeAll (p :: up)) fs := by
  rw [makeAll]
  by_cases hbytes : p.bytes = []
  · have hvisits : p.visits = [] := by
      obtain rfl : p = ⟨[]⟩ := congrArg Path.mk hbytes
      rfl
    rw [hbytes]
    refine Program.obeys_pure_of (hpost _ _ (.refl _ _) (Or.inl ⟨rfl, fun x hx => ?_⟩))
    rw [hvisits] at hx
    cases hx
  rw [if_neg (by simpa using hbytes), Program.obeys_bind]
  refine growing_makeDirectory hp fun fs₁ hgrows => ?_
  have happroach := List.Subset.trans (Path.approach_prefix_visits p).subset
    (Path.visits_subset_of_mem_lineage hp)
  have hcases := makeDirectory_cases fs₁ hbytes hneat fun x hx =>
    hgrows.free (happroach hx) (hfree x hx)
  refine ⟨fun fs₂ hfs₂ => ?_, fun e he => ?_⟩
  · obtain ⟨fs₃, hfs₃, hwalk⟩ | ⟨heq, -⟩ | ⟨heq, -⟩ := hcases
    · obtain rfl : fs₃ = fs₂ := Except.ok.inj (hfs₃.symm.trans hfs₂)
      exact Program.obeys_pure_of
        (hpost _ _ (hgrows.trans (.of_makeDirectory hfs₂)) (Or.inl ⟨rfl, hwalk⟩))
    · cases heq.symm.trans hfs₂
    · cases heq.symm.trans hfs₂
  · obtain ⟨fs₃, hfs₃, -⟩ | ⟨heq, hthere⟩ | ⟨heq, hsteps, -⟩ := hcases
    · cases hfs₃.symm.trans he
    · obtain rfl : Failure.alreadyExists = e := Except.error.inj (heq.symm.trans he)
      exact growing_unlessThere hp hbytes hneat hthere fun r fs' h => hpost r fs' (hgrows.trans h)
    · -- the directories above are made, and then this one is tried again
      obtain rfl : Failure.notFound = e := Except.error.inj (heq.symm.trans he)
      dsimp only
      rw [Program.obeys_bind]
      refine hup hsteps fs₁ _ hgrows fun fs₂ hgrows₂ hopen => ?_
      exact growing_makeLast hp hbytes hneat hopen fun r fs' h =>
        hpost r fs' ((hgrows.trans hgrows₂).trans h)

/-- Making a directory with those above it. -/
theorem growing_makeAll {n : Nat} (hlength : p.steps.length ≤ n)
    (hlineage : ∀ r ∈ Path.lineageFrom n p, r ∈ q.lineage) (hneat : p.Neat)
    (hfree : ∀ x ∈ p.approach, ∀ b, fs.node? x ≠ some (.file b))
    (hpost : ∀ r fs', Gains q.visits fs fs' → Made p r fs' → post r fs') :
    Program.Obeys (growing q) post (makeAll (Path.lineageFrom n p)) fs := by
  -- induction on the length of the lineage, which is enough for all the steps of the path
  induction n generalizing p fs post with
  | zero =>
      have hsteps : p.steps = [] := List.length_eq_zero_iff.1 (Nat.le_zero.1 hlength)
      rw [Path.lineageFrom] at hlineage ⊢
      exact growing_makeAll_cons (hlineage p (by simp)) hneat hfree
        (fun hne => absurd hsteps hne) hpost
  | succ n ih =>
      rw [Path.lineageFrom] at hlineage ⊢
      refine growing_makeAll_cons (hlineage p (by simp)) hneat hfree (fun hsteps => ?_) hpost
      obtain ⟨r, hparent, hrsteps, hrneat⟩ := Path.exists_parent hsteps
      rw [hparent] at hlineage ⊢
      have hvisits := Path.visits_of_steps hrsteps (Path.steps_parent? hparent).2
      have hfreeAbove : ∀ x ∈ r.visits, ∀ b, fs.node? x ≠ some (.file b) := hvisits ▸ hfree
      have hwithin : r.visits ⊆ q.visits := hvisits ▸ List.Subset.trans
        (Path.approach_prefix_visits p).subset
        (Path.visits_subset_of_mem_lineage (hlineage p (by simp)))
      have hrlength : r.steps.length ≤ n := by
        rw [hrsteps, List.length_dropLast]
        omega
      intro fs₁ post' hgrows hpost'
      have hfree₁ : ∀ x ∈ r.visits, ∀ b, fs₁.node? x ≠ some (.file b) := fun x hx =>
        hgrows.free (hwithin hx) (hfreeAbove x hx)
      refine ih hrlength (fun t ht => hlineage t (List.mem_cons_of_mem _ ht)) hrneat
        (fun x hx => hfree₁ x ((Path.approach_prefix_visits r).subset hx))
        fun res fs₂ hgrows₂ hmade => ?_
      rcases hmade with ⟨rfl, hwalk⟩ | ⟨-, b, hfile⟩
      · exact hpost' fs₂ hgrows₂ (hvisits ▸ hwalk)
      · -- a file in the place of a directory on the way would have been there before
        have hdir : fs₂.node? r.place ≠ some .directory := by simp [hfile]
        have hmem := place_mem_visits hdir
        exact absurd hfile (hgrows₂.free (hwithin hmem) (hfree₁ _ hmem) b)

/-- **In the end the directory is there**, whoever made it, unless there is a file in its place. -/
theorem growing_makeDirectories {name : String} (hname : Plain (Utf8.encode name))
    (hfree : ∀ x ∈ p.visits, ∀ b, fs.node? x ≠ some (.file b)) :
    Program.Obeys (growing (p.child name))
      (fun r fs' => Gains (p.child name).visits fs fs' ∧ Made (p.child name) r fs')
      (makeDirectories (p.child name)) fs := by
  have hlength : (p.child name).steps.length ≤ (p.child name).components.length + 1 := by
    simp only [Path.components]
    split
    · simp only [List.length_cons, List.length_map]
      omega
    · split <;> simp only [List.length_cons, List.length_map] <;> omega
  have happroach : (p.child name).approach = p.visits := by
    rw [Path.approach, Path.steps_child hname, Path.startOf_child hname, List.dropLast_concat,
      Path.visits]
  exact growing_makeAll hlength (fun r hr => hr) (Path.neat_child hname) (happroach ▸ hfree)
    fun r fs' hgrows hmade => ⟨hgrows, hmade⟩

theorem mono_growing (q : Path) : (growing q).Mono := by
  intro a post post' fs hpost h
  cases a with
  | look p => exact ⟨h.1, fun fs₁ h₁ => hpost _ _ (h.2 fs₁ h₁)⟩
  | makeDirectory p =>
      exact ⟨h.1, fun fs₁ h₁ => ⟨fun fs₂ h₂ => hpost _ _ ((h.2 fs₁ h₁).1 fs₂ h₂),
        fun e he => hpost _ _ ((h.2 fs₁ h₁).2 e he)⟩⟩
  | _ => exact h

/-- What a program for making directories needs is still so after others have made some. -/
theorem growing_act_of_grows {a : Action} {post : a.Reply → FileSystem → Prop}
    (h : (growing q).act a post fs) (hgrows : Gains q.visits fs fs') :
    (growing q).act a post fs' := by
  cases a with
  | look p => exact ⟨h.1, fun fs₁ h₁ => h.2 fs₁ (hgrows.trans h₁)⟩
  | makeDirectory p => exact ⟨h.1, fun fs₁ h₁ => h.2 fs₁ (hgrows.trans h₁)⟩
  | _ => exact h.elim

/-- What is performed at once does what it should. -/
theorem growing_perform {a : Action} {s : Process} {post : a.Reply → FileSystem → Prop}
    (h : (growing q).act a post s.machine.files) :
    post (s.perform a).1 (s.perform a).2.machine.files := by
  cases a with
  | look p => exact h.2 _ (.refl _ _)
  | makeDirectory p =>
      obtain ⟨hok, herr⟩ := h.2 _ (.refl _ _)
      rw [Process.perform]
      cases hmade : s.machine.files.makeDirectory p with
      | ok fs₂ => exact hok fs₂ hmade
      | error e => exact herr e hmade
  | _ => exact h.elim

/-! ### Nothing is left to do when a directory is made -/

/-- Whether an action has made a directory. -/
def Action.Makes (q : Path) : (a : Action) → a.Reply → Prop
  | .makeDirectory p, r => p = q ∧ r = .ok ()
  | _, _ => False

/-- The rule that nothing more is asked for once a directory is made. -/
def ceasing (q : Path) : Rule Action Action.Reply Prop where
  act := fun a post made => ¬made ∧ ∀ r, post r (a.Makes q r)
  wait := fun made => ¬made

variable {l : List Path} {post : Except Failure Unit → Prop → Prop}

theorem ceasing_makeDirectory (hok : post (.ok ()) (p = q)) (herr : ∀ e, post (.error e) False) :
    Program.Obeys (ceasing q) post (Ask.makeDirectory p) False := by
  have hact : (ceasing q).act (.makeDirectory p) post False := by
    refine ⟨id, fun (r : Except Failure Unit) => ?_⟩
    cases r with
    | ok u =>
        have hmakes : Action.Makes q (.makeDirectory p) (.ok u) = (p = q) :=
          propext ⟨And.left, fun heq => ⟨heq, rfl⟩⟩
        exact hmakes ▸ hok
    | error e =>
        have hmakes : Action.Makes q (.makeDirectory p) (.error e) = False :=
          eq_false fun h => nomatch h.2
        exact hmakes ▸ herr e
  exact Program.obeys_act_of hact

theorem ceasing_unlessThere {e : Failure} (hpost : ∀ r, post r False) :
    Program.Obeys (ceasing q) post (unlessThere p e) False := by
  have hlook {post : Except Failure Node → Prop → Prop} (hpost : ∀ r, post r False) :
      Program.Obeys (ceasing q) post (Ask.look p) False := by
    have hact : (ceasing q).act (.look p) post False := ⟨id, hpost⟩
    exact Program.obeys_act_of hact
  rw [unlessThere, isDirectory, Program.obeys_bind, Program.obeys_bind]
  refine hlook fun r => ?_
  split
  · exact Program.obeys_pure_of (Program.obeys_pure_of (hpost _))
  · exact Program.obeys_pure_of (Program.obeys_pure_of (hpost _))

/-- Making the first directory of a lineage is the last that is done. -/
theorem ceasing_makeAll_cons {up : List Path} (hmade : post (.ok ()) (p = q))
    (hpost : ∀ r, post r False) (hup : ∀ post' : Except Failure Unit → Prop → Prop,
      (∀ r, post' r False) → Program.Obeys (ceasing q) post' (makeAll up) False) :
    Program.Obeys (ceasing q) post (makeAll (p :: up)) False := by
  rw [makeAll]
  split
  · exact Program.obeys_pure_of (hpost _)
  · rw [Program.obeys_bind]
    refine ceasing_makeDirectory (Program.obeys_pure_of hmade) fun e => ?_
    split
    · next heq => cases heq
    · rw [Program.obeys_bind]
      refine hup _ fun r => ?_
      split
      · exact Program.obeys_pure_of (hpost _)
      · rw [Program.obeys_bind]
        exact ceasing_makeDirectory (Program.obeys_pure_of hmade) fun e =>
          ceasing_unlessThere hpost
    · exact ceasing_unlessThere hpost

/-- A directory that is not in a lineage is not made with it. -/
theorem ceasing_makeAll (hq : q ∉ l) (hpost : ∀ r, post r False) :
    Program.Obeys (ceasing q) post (makeAll l) False := by
  induction l generalizing post with
  | nil => exact Program.obeys_pure_of (hpost _)
  | cons p up ih =>
      rw [List.mem_cons, not_or] at hq
      have hne : (p = q) = False := eq_false (Ne.symm hq.1)
      exact ceasing_makeAll_cons (hne ▸ hpost _) hpost fun post' => ih hq.2

/-- **Once the directory is made, nothing more is asked for.** -/
theorem ceasing_makeDirectories {name : String} (hname : Plain (Utf8.encode name)) :
    Program.Obeys (ceasing (p.child name)) (fun _ _ => True) (makeDirectories (p.child name))
      False := by
  have hsteps := Path.steps_child (p := p) hname
  obtain ⟨r, hparent, hrsteps, -⟩ := Path.exists_parent (p := p.child name) (by simp [hsteps])
  rw [makeDirectories, Path.lineage, Path.lineageFrom, hparent]
  refine ceasing_makeAll_cons trivial (fun _ => trivial) fun post' => ceasing_makeAll fun hmem => ?_
  -- what is above has fewer steps
  have hlength := (Path.steps_of_mem_lineageFrom hmem).1.length_le
  rw [hrsteps, hsteps, List.dropLast_concat, List.length_append, List.length_singleton] at hlength
  omega

/-- After a step on the way it is known what comes of it, or the directory is not made yet and there
is more to do. -/
theorem making_next {a : Action} {m : a.Reply → FileProgram (Except Failure Unit)} {s : Process}
    (hgrowing : Program.Obeys (growing q) (Made q) (.ask a m) s.machine.files)
    (hceasing : Program.Obeys (ceasing q) (fun _ _ => True) (.ask a m) False) :
    (∃ r, m (s.perform a).1 = .done r ∧ Made q r (s.perform a).2.machine.files) ∨
      ∃ a' m', m (s.perform a).1 = .ask a' m' ∧ ¬a.Makes q (s.perform a).1 ∧
        Program.Obeys (growing q) (Made q) (.ask a' m') (s.perform a).2.machine.files ∧
        Program.Obeys (ceasing q) (fun _ _ => True) (.ask a' m') False := by
  rw [Program.obeys_ask] at hgrowing hceasing
  have hgrowing₁ := growing_perform hgrowing
  have hceasing₁ := hceasing.2 (s.perform a).1
  dsimp only at hceasing₁
  cases hm : m (s.perform a).1 with
  | done r =>
      rw [hm, Program.obeys_done] at hgrowing₁
      exact Or.inl ⟨r, rfl, hgrowing₁⟩
  | stalled =>
      rw [hm, Program.obeys_stalled] at hgrowing₁
      exact hgrowing₁.elim
  | ask a' m' =>
      rw [hm] at hgrowing₁ hceasing₁
      have hnot : ¬a.Makes q (s.perform a).1 := by
        rw [Program.obeys_ask] at hceasing₁
        exact hceasing₁.1
      rw [eq_false hnot] at hceasing₁
      exact Or.inr ⟨a', m', rfl, hnot, hgrowing₁, hceasing₁⟩

end

end KernelCache
