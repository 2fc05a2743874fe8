/-
**What operations read.**

An operation that makes something reads how its path resolves and what stands at its place, and any
other reads what is found there.  Removing a directory also reads what stands directly below, and
creating a fresh file looks at the names that it may take.  In two states that agree on this an
operation gives the same answer, and wherever the states agreed before, they agree afterwards.

Main definitions:

* `FileSystem.Agrees` — two states in which a path leads to the same;
* `FileSystem.Alike` — two changes that come to the same;
* `Action.Reads` — two states that agree on what an action reads;
* `Process.Beside` — processes on two machines that differ in their files only.

Main results:

* `FileSystem.createFresh_alike` — fresh names do not depend on how many other files there are;
* `Process.perform_alike` — **an action reads nothing else**.
-/

import Mathlib.Data.List.Find
import KernelCache.Files.Action
import KernelCache.Proofs.Files.Fresh
import KernelCache.Proofs.Files.Making

set_option relaxedAutoImplicit false
set_option autoImplicit false

namespace KernelCache

namespace FileSystem

variable {fs fs' : FileSystem} {p q : Path} {name stem : String} {r r' : Except Failure FileSystem}

/-! ### States that agree on a path -/

/-- Two states in which a path leads to the same. -/
structure Agrees (fs fs' : FileSystem) (p : Path) : Prop where
  resolve : fs.resolve p = fs'.resolve p
  node : fs.node? p.place = fs'.node? p.place

theorem walk_congr {place : Place} {pieces : List Bytes}
    (h : ∀ x ∈ Path.visitsFrom place pieces, fs.node? x = fs'.node? x) :
    fs.walk place pieces = fs'.walk place pieces := by
  induction pieces generalizing place with
  | nil => rfl
  | cons piece rest ih =>
      rw [walk, walk]
      by_cases hup : piece = [Path.dot, Path.dot]
      · rw [Path.visitsFrom, if_pos hup] at h
        rw [if_pos hup, if_pos hup, ih h]
      · rw [Path.visitsFrom, if_neg hup] at h
        rw [if_neg hup, if_neg hup, h _ (by simp), ih fun x hx => h x (by simp [hx])]

/-- States agree on a path if they agree on what the walk to it passes. -/
theorem agrees_of_visits (h : ∀ x ∈ p.visits, fs.node? x = fs'.node? x) : fs.Agrees fs' p where
  resolve := by
    have happroach := walk_congr fun x hx => h x ((Path.approach_prefix_visits p).subset hx)
    have hvisits : fs.walk (startOf p) p.steps = fs'.walk (startOf p) p.steps := walk_congr h
    rw [FileSystem.resolve, FileSystem.resolve, hvisits, happroach]
  node := by
    rcases Path.passed_place p with hmem | hstart
    · exact h _ hmem
    · have hbase := isBase_of_prefix_startOf hstart
      rw [node?_of_isBase hbase, node?_of_isBase hbase]

/-- States agree on a directory entry if the way to the directory is open in both or fails for the
same reason. -/
theorem agrees_child (h : Plain (Utf8.encode name))
    (hdir : fs.Walkable p ∧ fs'.Walkable p ∨
      ∃ e, fs.walk (startOf p) p.steps = .error e ∧ fs'.walk (startOf p) p.steps = .error e)
    (hnode : fs.node? (p.child name).place = fs'.node? (p.child name).place) :
    fs.Agrees fs' (p.child name) where
  resolve := by
    rw [resolve_child h, resolve_child h]
    rcases hdir with ⟨hw, hw'⟩ | ⟨e, he, he'⟩
    · rw [walk_of_walkable hw, walk_of_walkable hw']
    · rw [he, he']
  node := hnode

theorem Agrees.lookup (h : fs.Agrees fs' p) : fs.lookup p = fs'.lookup p := by
  rw [FileSystem.lookup, FileSystem.lookup, h.resolve]
  cases ht : fs'.resolve p with
  | error e => rfl
  | ok t =>
      have hplace := place_of_resolve ht
      simp only [bind, Except.bind, hplace, h.node]

/-- Where something is found, there is something everywhere on the way. -/
theorem node?_ne_none_of_lookup {x : Place} {n : Node} (h : fs.lookup p = .ok (x, n)) :
    ∀ y ∈ p.visits, fs.node? y ≠ none := by
  intro y hy
  obtain ⟨-, hn⟩ := lookup_ok h
  have hwalked : fs.Walkable p ∨ ∀ z ∈ p.approach, fs.node? z = some .directory := by
    rw [FileSystem.lookup, FileSystem.resolve] at h
    obtain ⟨t, ht, -⟩ := bind_eq_ok_iff.1 h
    obtain ⟨-, ht⟩ := check_eq_ok_iff.1 ht
    split at ht
    · next hnone =>
        have hnil : p.steps = [] := List.getLast?_eq_none_iff.1 hnone
        refine Or.inl fun z hz => ?_
        rw [Path.visits, hnil] at hz
        cases hz
    · split at ht
      · obtain ⟨dir, hw, -⟩ := bind_eq_ok_iff.1 ht
        exact Or.inl (walk_steps_eq_ok_iff.1 hw).2
      · obtain ⟨dir, hw, -⟩ := bind_eq_ok_iff.1 ht
        exact Or.inr (walk_eq_ok_iff.1 hw).2
  rcases hwalked with hopen | happroach
  · rw [hopen y hy]
    exact Option.some_ne_none _
  · rcases mem_approach_or_eq hy with hmem | rfl
    · rw [happroach y hmem]
      exact Option.some_ne_none _
    · rw [hn]
      exact Option.some_ne_none _

/-- What is found is still found if nothing on the way is lost. -/
theorem lookup_of_visits {x : Place} {n : Node} (h : fs.lookup p = .ok (x, n))
    (hkeep : ∀ y ∈ p.visits, fs.node? y ≠ none → fs'.node? y = fs.node? y) :
    fs'.lookup p = .ok (x, n) := by
  have hagrees : fs.Agrees fs' p := agrees_of_visits fun y hy =>
    (hkeep y hy (node?_ne_none_of_lookup h y hy)).symm
  rw [← hagrees.lookup, h]

theorem readFile_of_lookup (h : fs.lookup p = fs'.lookup p) : fs.readFile p = fs'.readFile p := by
  rw [readFile, readFile, h]

theorem lookup_of_readFile {b : Bytes} (h : fs.readFile p = .ok b) :
    ∃ x, fs.lookup p = .ok (x, .file b) := by
  rw [readFile] at h
  obtain ⟨⟨x, n⟩, hl, h⟩ := bind_eq_ok_iff.1 h
  cases n with
  | directory => cases h
  | file c =>
      obtain rfl := Except.ok.inj h
      exact ⟨x, hl⟩

theorem readFile_of_ok {x : Place} {b : Bytes} (h : fs.lookup p = .ok (x, .file b)) :
    fs.readFile p = .ok b := by
  rw [readFile, h]
  rfl

/-! ### Changes that come to the same -/

/-- Two changes that come to the same: both fail for one reason, or both succeed, and where the
states agreed before they agree afterwards. -/
inductive Alike (fs fs' : FileSystem) :
    Except Failure FileSystem → Except Failure FileSystem → Prop
  | error (e : Failure) : Alike fs fs' (.error e) (.error e)
  | ok {fs₁ fs₁' : FileSystem}
      (h : ∀ x, fs.node? x = fs'.node? x → fs₁.node? x = fs₁'.node? x) :
      Alike fs fs' (.ok fs₁) (.ok fs₁')

/-- Changes that succeed together come to the same if each is known where it succeeds. -/
theorem Alike.of_map (h : (r.map fun _ => ()) = r'.map fun _ => ())
    (hok : ∀ fs₁ fs₁', r = .ok fs₁ → r' = .ok fs₁' →
      ∀ x, fs.node? x = fs'.node? x → fs₁.node? x = fs₁'.node? x) : Alike fs fs' r r' := by
  cases r with
  | error e =>
      cases r' with
      | error e' =>
          obtain rfl : e = e' := Except.error.inj h
          exact .error e
      | ok fs₁' => cases h
  | ok fs₁ =>
      cases r' with
      | error e' => cases h
      | ok fs₁' => exact .ok (hok fs₁ fs₁' rfl rfl)

/-- The same change at one place. -/
theorem update_agree {f f' : Place → Option Node} {x y : Place} {v : Option Node}
    (h : f y = f' y) : Function.update f x v y = Function.update f' x v y := by
  rw [Function.update_apply, Function.update_apply, h]

theorem makeDirectory_alike (h : fs.Agrees fs' p) :
    Alike fs fs' (fs.makeDirectory p) (fs'.makeDirectory p) := by
  refine .of_map ?_ fun fs₁ fs₁' h₁ h₁' x hx => ?_
  · rw [makeDirectory, makeDirectory, h.resolve]
    cases ht : fs'.resolve p with
    | error e => rfl
    | ok t =>
        have hplace := place_of_resolve ht
        simp only [bind, Except.bind, hplace, h.node]
        cases fs'.node? p.place <;> rfl
  · rw [(makeDirectory_ok h₁).2, (makeDirectory_ok h₁').2]
    exact update_agree hx

theorem writeFile_alike (h : fs.Agrees fs' p) (contents : Bytes) :
    Alike fs fs' (fs.writeFile p contents) (fs'.writeFile p contents) := by
  refine .of_map ?_ fun fs₁ fs₁' h₁ h₁' x hx => ?_
  · rw [writeFile, writeFile, h.resolve]
    cases ht : fs'.resolve p with
    | error e => rfl
    | ok t =>
        have hplace := place_of_resolve ht
        simp only [bind, Except.bind, hplace, h.node]
        cases fs'.node? p.place with
        | none => cases t.asDirectory <;> rfl
        | some n => cases n <;> cases t.asDirectory <;> rfl
  · rw [(writeFile_ok h₁).2, (writeFile_ok h₁').2]
    exact update_agree hx

theorem removeFile_alike (h : fs.lookup p = fs'.lookup p) :
    Alike fs fs' (fs.removeFile p) (fs'.removeFile p) := by
  refine .of_map ?_ fun fs₁ fs₁' h₁ h₁' x hx => ?_
  · rw [removeFile, removeFile, h]
    cases fs'.lookup p with
    | error e => rfl
    | ok found =>
        obtain ⟨x, n⟩ := found
        cases n <;> rfl
  · obtain ⟨b, -, hupdate⟩ := removeFile_ok h₁
    obtain ⟨b', -, hupdate'⟩ := removeFile_ok h₁'
    rw [hupdate, hupdate']
    exact update_agree hx

theorem moveFile_alike (hp : fs.Agrees fs' p) (hq : fs.Agrees fs' q) :
    Alike fs fs' (fs.moveFile p q) (fs'.moveFile p q) := by
  refine .of_map ?_ fun fs₁ fs₁' h₁ h₁' x hx => ?_
  · rw [moveFile, moveFile, hp.resolve, hq.resolve]
    cases hs : fs'.resolve p with
    | error e => rfl
    | ok s =>
        cases ht : fs'.resolve q with
        | error e => rfl
        | ok t =>
            have hsplace := place_of_resolve hs
            have htplace := place_of_resolve ht
            simp only [bind, Except.bind, hsplace, htplace, hp.node, hq.node]
            cases fs'.node? p.place with
            | none => rfl
            | some n =>
                cases n with
                | directory => rfl
                | file b =>
                    cases fs'.node? q.place with
                    | none => cases t.asDirectory <;> rfl
                    | some n => cases n <;> cases t.asDirectory <;> rfl
  · obtain ⟨b, hb, -, hupdate⟩ := moveFile_ok h₁
    obtain ⟨b', hb', -, hupdate'⟩ := moveFile_ok h₁'
    obtain rfl : b = b' := by
      have hsame := hp.node
      rw [hb, hb'] at hsame
      simpa using hsame
    rw [hupdate, hupdate']
    exact update_agree (update_agree hx)

/-- Whether anything is named below a place does not depend on anything else. -/
theorem namesAt_eq_nil_iff (hbase : ¬IsBase p.place)
    (h : ∀ name, fs.node? (p.place ++ [name]) = fs'.node? (p.place ++ [name])) :
    fs.namesAt p.place = [] ↔ fs'.namesAt p.place = [] := by
  constructor
  · intro hnil
    refine namesAt_eq_nil fun name => ?_
    rw [← h name]
    exact node?_of_namesAt_eq_nil hbase hnil name
  · intro hnil
    refine namesAt_eq_nil fun name => ?_
    rw [h name]
    exact node?_of_namesAt_eq_nil hbase hnil name

theorem removeDirectory_alike (hbase : ¬IsBase p.place) (h : fs.lookup p = fs'.lookup p)
    (hbelow : ∀ name, fs.node? (p.place ++ [name]) = fs'.node? (p.place ++ [name])) :
    Alike fs fs' (fs.removeDirectory p) (fs'.removeDirectory p) := by
  refine .of_map ?_ fun fs₁ fs₁' h₁ h₁' x hx => ?_
  · rw [removeDirectory, removeDirectory, h]
    cases hl : fs'.lookup p with
    | error e => rfl
    | ok found =>
        obtain ⟨x, n⟩ := found
        obtain ⟨rfl, -⟩ := lookup_ok hl
        cases n with
        | file b => rfl
        | directory =>
            simp only [bind, Except.bind, namesAt_eq_nil_iff hbase hbelow]
            split <;> rfl
  · rw [(removeDirectory_ok h₁).2 hbase, (removeDirectory_ok h₁').2 hbase]
    exact update_agree hx

/-! ### Fresh files -/

/-- Looking for the first of some names goes on only until one is found. -/
theorem find?_map_range {α : Type} {f : Nat → α} {good : α → Bool} {m m' : Nat}
    (h : ∃ i < m, good (f i) = true) (h' : ∃ i < m', good (f i) = true) :
    ((List.range m).map f).find? good = ((List.range m').map f).find? good := by
  have hmore : ∀ a b, (∃ i < a, good (f i) = true) →
      ((List.range (a + b)).map f).find? good = ((List.range a).map f).find? good := by
    intro a b ⟨i, hi, hgood⟩
    have hsome : (((List.range a).map f).find? good).isSome = true :=
      List.find?_isSome.2 ⟨f i, List.mem_map.2 ⟨i, List.mem_range.2 hi, rfl⟩, hgood⟩
    obtain ⟨found, hfound⟩ := Option.isSome_iff_exists.1 hsome
    rw [List.range_add, List.map_append, List.find?_append, hfound, Option.some_or]
  rcases Nat.le_total m m' with hle | hle
  · obtain ⟨b, rfl⟩ := Nat.exists_eq_add_of_le hle
    exact (hmore m b h).symm
  · obtain ⟨b, rfl⟩ := Nat.exists_eq_add_of_le hle
    exact hmore m' b h'

/-- Whether nothing is found at a path. -/
def isFree (fs : FileSystem) (p : Path) : Bool := fs.lookup p matches .error .notFound

theorem isFree_iff : fs.isFree p = true ↔ fs.lookup p = .error .notFound := by
  rw [isFree]
  split
  · simp [*]
  · simp only [Bool.false_eq_true, false_iff]
    assumption

theorem freshPath?_eq_find? (n : Nat) : fs.freshPath? p stem n =
    ((List.range (fs.nodes.entries.length + 1)).map fun i =>
      p.child (stem ++ freshTail (n + i))).find? fs.isFree := rfl

/-- If one of the names for fresh files is free, then so is one of those that are tried. -/
theorem exists_free_lookup (hplain : ∀ k, Plain (Utf8.encode (stem ++ freshTail k))) {n : Nat}
    (h : ∃ i, fs.isFree (p.child (stem ++ freshTail (n + i))) = true) :
    ∃ i < fs.nodes.entries.length + 1,
      fs.isFree (p.child (stem ++ freshTail (n + i))) = true := by
  obtain ⟨i, hi⟩ := h
  rw [isFree_iff] at hi
  cases hw : fs.walk (startOf p) p.steps with
  | error e =>
      -- without the directory no name is found
      rw [lookup_of_walk_error (hplain _) hw] at hi
      refine ⟨0, Nat.succ_pos _, ?_⟩
      rw [isFree_iff, lookup_of_walk_error (hplain _) hw, hi]
  | ok dir =>
      have hopen := (walk_steps_eq_ok_iff.1 hw).2
      have hfree : fs.node? (p.child (stem ++ freshTail (n + i))).place = none := by
        rw [lookup_child (hplain _) hopen] at hi
        cases hn : fs.node? (p.child (stem ++ freshTail (n + i))).place with
        | none => rfl
        | some node =>
            rw [hn] at hi
            cases hi
      obtain ⟨j, hj, hnone⟩ := exists_free_candidate hplain ⟨n + i, hfree⟩ n
      refine ⟨j, hj, ?_⟩
      rw [isFree_iff, lookup_child (hplain _) hopen, hnone]

/-- The first fresh name that is free does not depend on how many other files there are. -/
theorem freshPath?_eq (hplain : ∀ k, Plain (Utf8.encode (stem ++ freshTail k)))
    (h : ∀ k, fs.Agrees fs' (p.child (stem ++ freshTail k))) (n : Nat) :
    fs.freshPath? p stem n = fs'.freshPath? p stem n := by
  have hsame (i : Nat) : fs.isFree (p.child (stem ++ freshTail (n + i))) =
      fs'.isFree (p.child (stem ++ freshTail (n + i))) := by
    rw [isFree, isFree, (h (n + i)).lookup]
  have hall (m : Nat) : ∀ q ∈ (List.range m).map fun i => p.child (stem ++ freshTail (n + i)),
      fs.isFree q = fs'.isFree q := by
    intro q hq
    obtain ⟨i, -, rfl⟩ := List.mem_map.1 hq
    exact hsame i
  rw [freshPath?_eq_find?, freshPath?_eq_find?, List.find?_congr (hall _)]
  by_cases hfree : ∃ i, fs'.isFree (p.child (stem ++ freshTail (n + i))) = true
  · obtain ⟨i, hi, hfound⟩ : ∃ i < fs.nodes.entries.length + 1,
        fs.isFree (p.child (stem ++ freshTail (n + i))) = true :=
      exists_free_lookup hplain (by simpa only [hsame] using hfree)
    exact find?_map_range ⟨i, hi, hsame i ▸ hfound⟩ (exists_free_lookup hplain hfree)
  · have hnone (m : Nat) : ((List.range m).map fun i =>
        p.child (stem ++ freshTail (n + i))).find? fs'.isFree = none := by
      refine List.find?_eq_none.2 fun q hq hfound => hfree ?_
      obtain ⟨i, -, rfl⟩ := List.mem_map.1 hq
      exact ⟨i, hfound⟩
    rw [hnone, hnone]

theorem createFresh_alike (hplain : ∀ k, Plain (Utf8.encode (stem ++ freshTail k)))
    (h : ∀ k, fs.Agrees fs' (p.child (stem ++ freshTail k))) (n : Nat) :
    (∃ e, fs.createFresh p stem n = .error e ∧ fs'.createFresh p stem n = .error e) ∨
      ∃ q fs₁ fs₁', fs.createFresh p stem n = .ok (q, fs₁) ∧
        fs'.createFresh p stem n = .ok (q, fs₁') ∧
        ∀ x, fs.node? x = fs'.node? x → fs₁.node? x = fs₁'.node? x := by
  rw [createFresh, createFresh, freshPath?_eq hplain h]
  cases hq : fs'.freshPath? p stem n with
  | none =>
      rw [(h n).lookup]
      cases fs'.lookup (p.child (stem ++ freshTail n)) with
      | error e => exact Or.inl ⟨e, rfl, rfl⟩
      | ok found => exact Or.inl ⟨.alreadyExists, rfl, rfl⟩
  | some q =>
      obtain ⟨i, -, rfl⟩ := List.mem_map.1 (List.mem_of_find?_eq_some hq)
      have halike := writeFile_alike (h (n + i)) []
      dsimp only
      generalize fs.writeFile (p.child (stem ++ freshTail (n + i))) [] = r at halike ⊢
      generalize fs'.writeFile (p.child (stem ++ freshTail (n + i))) [] = r' at halike ⊢
      cases halike with
      | error e => exact Or.inl ⟨e, rfl, rfl⟩
      | ok hagree => exact Or.inr ⟨_, _, _, rfl, rfl, hagree⟩

end FileSystem

/-! ### Actions -/

open FileSystem

/-- Two states that agree on what an action reads.  Of a list of names and of the notes nothing is
said. -/
def Action.Reads (fs fs' : FileSystem) : Action → Prop
  | .look p | .read p | .removeFile p => fs.lookup p = fs'.lookup p
  | .makeDirectory p | .write p _ => fs.Agrees fs' p
  | .removeDirectory p => ¬IsBase p.place ∧ fs.lookup p = fs'.lookup p ∧
      ∀ name, fs.node? (p.place ++ [name]) = fs'.node? (p.place ++ [name])
  | .createFresh dir stem => (∀ k, Plain (Utf8.encode (stem ++ freshTail k))) ∧
      ∀ k, fs.Agrees fs' (dir.child (stem ++ freshTail k))
  | .move p q => fs.Agrees fs' p ∧ fs.Agrees fs' q
  | .now | .sleep _ | .hold _ | .letGo _ => True
  | .names _ | .held => False

/-- Where nothing is due, nothing happens in time. -/
theorem Machine.settle_of_due {m : Machine} (h : m.due = []) : m.settle = m := by
  obtain ⟨files, fresh, clock, due⟩ := m
  obtain rfl : due = [] := h
  rfl

namespace Process

/-- Processes with the same notes at the same time, on machines that differ in their files only and
where nothing is due. -/
structure Beside (s s' : Process) : Prop where
  held : s.held = s'.held
  fresh : s.machine.fresh = s'.machine.fresh
  clock : s.machine.clock = s'.machine.clock
  due : s.machine.due = []
  due' : s'.machine.due = []

variable {s s' : Process}

theorem perform_sleep (h : s.machine.due = []) (t : Nat) : s.perform (.sleep t) =
    ((), { s with machine := { s.machine with clock := s.machine.clock + t } }) := by
  have hsettle : Machine.settle { s.machine with clock := s.machine.clock + t } =
      { s.machine with clock := s.machine.clock + t } := Machine.settle_of_due h
  exact congrArg (fun m : Machine => ((), { s with machine := m })) hsettle

theorem change_alike (h : s.Beside s') {r r' : Except Failure FileSystem}
    (hr : Alike s.machine.files s'.machine.files r r') :
    (s.change r).1 = (s'.change r').1 ∧ (s.change r).2.Beside (s'.change r').2 ∧
      ∀ x, s.machine.files.node? x = s'.machine.files.node? x →
        (s.change r).2.machine.files.node? x = (s'.change r').2.machine.files.node? x := by
  cases hr with
  | error e => exact ⟨rfl, h, fun x hx => hx⟩
  | ok hagree => exact ⟨rfl, ⟨h.held, h.fresh, h.clock, h.due, h.due'⟩, hagree⟩

/-- **An action reads nothing else**: where two states agree on what it reads, it gives the same
answer, and the states agree afterwards wherever they agreed before. -/
theorem perform_alike (h : s.Beside s') (a : Action)
    (hreads : a.Reads s.machine.files s'.machine.files) :
    (s.perform a).1 = (s'.perform a).1 ∧ (s.perform a).2.Beside (s'.perform a).2 ∧
      ∀ x, s.machine.files.node? x = s'.machine.files.node? x →
        (s.perform a).2.machine.files.node? x = (s'.perform a).2.machine.files.node? x := by
  cases a with
  | look p =>
      have hlook : s.machine.files.lookup p = s'.machine.files.lookup p := hreads
      exact ⟨congrArg (Except.map Prod.snd) hlook, h, fun x hx => hx⟩
  | read p => exact ⟨readFile_of_lookup hreads, h, fun x hx => hx⟩
  | names p => exact hreads.elim
  | makeDirectory p => exact change_alike h (makeDirectory_alike hreads)
  | removeDirectory p =>
      exact change_alike h (removeDirectory_alike hreads.1 hreads.2.1 hreads.2.2)
  | createFresh dir stem =>
      have halike := createFresh_alike hreads.1 hreads.2 s.machine.fresh
      simp only [Process.perform, ← h.fresh]
      rcases halike with ⟨e, he, he'⟩ | ⟨q, fs₁, fs₁', hq, hq', hagree⟩
      · simp only [he, he']
        exact ⟨rfl, h, fun x hx => hx⟩
      · simp only [hq, hq']
        exact ⟨rfl, ⟨h.held, rfl, h.clock, h.due, h.due'⟩, hagree⟩
  | write p b => exact change_alike h (writeFile_alike hreads b)
  | removeFile p => exact change_alike h (removeFile_alike hreads)
  | move p q => exact change_alike h (moveFile_alike hreads.1 hreads.2)
  | now => exact ⟨h.clock, h, fun x hx => hx⟩
  | sleep t =>
      rw [perform_sleep h.due, perform_sleep h.due']
      exact ⟨rfl, ⟨h.held, h.fresh, congrArg (· + t) h.clock, h.due, h.due'⟩, fun x hx => hx⟩
  | hold p =>
      exact ⟨rfl, ⟨congrArg (·.insert p ()) h.held, h.fresh, h.clock, h.due, h.due'⟩,
        fun x hx => hx⟩
  | letGo p =>
      exact ⟨rfl, ⟨congrArg (·.erase p) h.held, h.fresh, h.clock, h.due, h.due'⟩, fun x hx => hx⟩
  | held => exact hreads.elim

end Process

end KernelCache
