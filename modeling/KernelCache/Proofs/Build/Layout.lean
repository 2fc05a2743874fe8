/-
**Where the files of a cache are.**

All paths of a cache are directory entries below its root, so their places are the place of the root
followed by names.  The names in the directory of an entry are divided between the two locks of the
entry: one protects what translation writes, the other what compilation writes.

Main definitions:

* `Site` — a cache, for translated sources of one extension;
* `Site.entryPlace`, `Site.filePlace`, `Site.lockPlace` — the places of its files;
* `Site.guard` — the depth of the lock that protects a name in an entry;
* `Site.Near` — the places that a cache needs on the way to its root, and those below it;
* `Site.IsScratch`, `IsFresh` — the names of fresh files, and of those with a given start.

Main results:

* `Site.place_path`, `Site.visits_entryDir`, `Site.visits_locks` — paths lead there;
* `Site.filePlace_inj`, `Site.lockPlace_inj`, `Site.lockPlace_ne_entry` — **different files have
  different places**.
-/

import KernelCache.Build.Pipeline
import KernelCache.Proofs.Digest.Text
import KernelCache.Proofs.Files.Effect
import KernelCache.Proofs.Text.Utf8

set_option relaxedAutoImplicit false
set_option autoImplicit false

namespace KernelCache

/-! ### Names -/

/-- A name without slashes that is not empty and not made of one or two dots only. -/
theorem plain_encode {name : String} (hempty : name ≠ "") (hhere : name ≠ ".") (hup : name ≠ "..")
    (hslash : '/' ∉ name.toList) : Plain (Utf8.encode name) where
  ne_nil := fun h => hempty (Utf8.encode_injective (t := "") h)
  ne_here := fun h => hhere (Utf8.encode_injective (t := ".") h)
  ne_up := fun h => hup (Utf8.encode_injective (t := "..") h)
  noSlash := fun h => hslash ((Utf8.mem_encode_iff (c := '/') (by decide) name).1 h)

theorem slash_notMem_toText (d : Digest) : '/' ∉ d.toText.toList := by
  intro h
  have hall : ∀ i < 16, Hex.digit i ≠ '/' := by decide
  obtain ⟨i, hi, heq⟩ := Digest.mem_toText h
  exact hall i hi heq.symm

/-- A name of three characters or more is plain if it has no slash. -/
theorem plain_of_length {name : String} (hlength : 3 ≤ name.toList.length)
    (hslash : '/' ∉ name.toList) : Plain (Utf8.encode name) := by
  have hne {other : String} (hother : other.toList.length < 3) : name ≠ other := by
    intro heq
    rw [heq] at hlength
    omega
  exact plain_encode (hne (by decide)) (hne (by decide)) (hne (by decide)) hslash

/-- The artifacts of a store have names, if its extension has no slash. -/
theorem Store.plain_fileName (s : Store) (h : '/' ∉ s.extension.toList) (k : Artifact) :
    Plain (Utf8.encode (s.fileName k)) := by
  cases k with
  | source =>
      have hname : (s.fileName .source).toList = "source.".toList ++ s.extension.toList :=
        String.toList_append
      refine plain_of_length ?_ ?_
      · rw [hname, List.length_append]
        exact Nat.le_trans (by decide) (Nat.le_add_right _ _)
      · rw [hname, List.mem_append]
        exact not_or.2 ⟨by decide, h⟩
  | manifest =>
      exact (plain_of_length (by decide) (by decide) : Plain (Utf8.encode "manifest.json"))
  | binary => exact (plain_of_length (by decide) (by decide) : Plain (Utf8.encode "binary"))

theorem plain_toText (d : Digest) : Plain (Utf8.encode d.toText) := by
  refine plain_of_length ?_ (slash_notMem_toText d)
  rw [d.length_toText]
  decide

theorem toList_freshTail (n : Nat) : (FileSystem.freshTail n).toList =
    (List.range 6).reverse.map fun i => Char.ofNat (48 + n / Nat.pow 10 i % 10) :=
  String.toList_ofList

theorem slash_notMem_freshTail (n : Nat) : '/' ∉ (FileSystem.freshTail n).toList := by
  rw [toList_freshTail, List.mem_map]
  rintro ⟨i, -, heq⟩
  have hall : ∀ j < 10, Char.ofNat (48 + j) ≠ '/' := by decide
  exact hall (n / Nat.pow 10 i % 10) (Nat.mod_lt _ (by decide)) heq

theorem plain_temp {stem : String} (h : '/' ∉ stem.toList) (n : Nat) :
    Plain (Utf8.encode (stem ++ FileSystem.freshTail n)) := by
  refine plain_of_length ?_ ?_
  · rw [String.toList_append, List.length_append, toList_freshTail, List.length_map,
      List.length_reverse, List.length_range]
    omega
  · rw [String.toList_append, List.mem_append]
    rintro (hmem | hmem)
    · exact h hmem
    · exact slash_notMem_freshTail n hmem

theorem plain_lockName (d : Digest) (depth : Nat) :
    Plain (Utf8.encode (LockTable.name d depth)) := by
  refine plain_of_length ?_ ?_
  · rw [LockTable.name, String.toList_append, String.toList_append, List.length_append,
      List.length_append, d.length_toText]
    omega
  · rw [LockTable.name, String.toList_append, String.toList_append, List.mem_append,
      List.mem_append]
    rintro ((hmem | hmem) | hmem)
    · exact slash_notMem_toText d hmem
    · exact absurd hmem (by decide)
    · rw [Decimal.text, String.toList_ofList] at hmem
      exact absurd (Nat.isDigit_of_mem_toDigits (by decide) (by decide) hmem) (by decide)

theorem lockName_injective {d e : Digest} {k l : Nat}
    (h : LockTable.name d k = LockTable.name e l) : d = e ∧ k = l := by
  have hlist := congrArg String.toList h
  simp only [LockTable.name, String.toList_append, List.append_assoc] at hlist
  obtain ⟨htext, hrest⟩ := List.append_inj hlist (by rw [d.length_toText, e.length_toText])
  refine ⟨Digest.toText_injective (String.toList_inj.1 htext), ?_⟩
  have hdigits : Nat.toDigits 10 k = Nat.toDigits 10 l := by
    simpa [Decimal.text] using List.append_cancel_left hrest
  have hvalue := congrArg (Nat.ofDigitChars 10 · 0) hdigits
  simpa [Nat.ofDigitChars_toDigits] using hvalue

/-! ### Sites -/

/-- A cache, for translated sources of one extension. -/
structure Site where
  root : Path
  extension : String
  noSlash : '/' ∉ extension.toList

namespace Site

variable (S : Site)

/-- The store of the cache. -/
def store : Store := Store.atRoot S.root S.extension

/-- The locks of the cache. -/
def locks : LockTable := LockTable.atRoot S.root

/-- The name of a translated source. -/
def sourceName : String := S.store.fileName .source

/-- The place of the directory of all entries. -/
def kernelsPlace : Place := (S.root.child "kernels").place

/-- The place of the directory of an entry. -/
def entryPlace (d : Digest) : Place := (S.store.entryDir d).place

/-- The place of a name in an entry. -/
def filePlace (d : Digest) (name : String) : Place := S.entryPlace d ++ [Utf8.encode name]

/-- The place of the directory of all locks. -/
def locksPlace : Place := S.locks.directory.place

/-- The place of a lock. -/
def lockPlace (d : Digest) (depth : Nat) : Place := (S.locks.path d depth).place

/-- The depth of the lock that protects a name in an entry. -/
def guard : Bytes → Nat
  | 0x73 :: _ | 0x6D :: _ | 0x2E :: 0x70 :: _ => Pipeline.translationDepth
  | _ => Pipeline.compilationDepth

/-- The places that a cache needs on the way to its root, and those below its root. -/
def Near (x : Place) : Prop := x ∈ S.root.visits ∨ S.root.place <+: x

/-! ### Names in an entry -/

theorem sourceName_eq : S.sourceName = "source." ++ S.store.extension := rfl

theorem sourceName_ne {other : String} (h : other.toList.head? ≠ some 's') :
    S.sourceName ≠ other := by
  rintro rfl
  rw [sourceName_eq, String.toList_append] at h
  exact h rfl

theorem slash_notMem_extension : '/' ∉ S.store.extension.toList := by
  intro h
  have hstore : S.store.extension.toList = S.extension.toList.dropWhile (· = '.') :=
    String.toList_ofList
  rw [hstore] at h
  exact S.noSlash ((List.dropWhile_sublist _).subset h)

theorem encode_sourceName :
    Utf8.encode S.sourceName = Utf8.encode "source." ++ Utf8.encode S.store.extension := by
  rw [sourceName_eq, Utf8.encode_append]

theorem plain_fileName (k : Artifact) : Plain (Utf8.encode (S.store.fileName k)) :=
  S.store.plain_fileName S.slash_notMem_extension k

theorem plain_sourceName : Plain (Utf8.encode S.sourceName) := S.plain_fileName .source

theorem plain_manifest : Plain (Utf8.encode "manifest.json") :=
  plain_of_length (by decide) (by decide)

theorem plain_binary : Plain (Utf8.encode "binary") :=
  plain_of_length (by decide) (by decide)

theorem plain_sidecar : Plain (Utf8.encode "binary.xxh3") :=
  plain_of_length (by decide) (by decide)

/-! ### Places of paths -/

theorem plain_kernels : Plain (Utf8.encode "kernels") :=
  plain_of_length (by decide) (by decide)

theorem plain_locks : Plain (Utf8.encode "locks") :=
  plain_of_length (by decide) (by decide)

theorem kernelsPlace_eq : S.kernelsPlace = S.root.place ++ [Utf8.encode "kernels"] :=
  Path.place_child plain_kernels

theorem entryPlace_eq (d : Digest) :
    S.entryPlace d = S.root.place ++ [Utf8.encode "kernels", Utf8.encode d.toText] := by
  have hentry : S.entryPlace d = S.kernelsPlace ++ [Utf8.encode d.toText] :=
    Path.place_child (plain_toText d)
  rw [hentry, kernelsPlace_eq, List.append_assoc, List.singleton_append]

theorem visits_entryDir (d : Digest) :
    (S.store.entryDir d).visits = S.root.visits ++ [S.kernelsPlace, S.entryPlace d] := by
  have hentry : (S.store.entryDir d).visits =
      (S.root.child "kernels").visits ++ [S.entryPlace d] := Path.visits_child (plain_toText d)
  have hkernels : (S.root.child "kernels").visits = S.root.visits ++ [S.kernelsPlace] :=
    Path.visits_child plain_kernels
  rw [hentry, hkernels, List.append_assoc, List.singleton_append]

theorem visits_locks : S.locks.directory.visits = S.root.visits ++ [S.locksPlace] :=
  Path.visits_child plain_locks

theorem lockPlace_eq (d : Digest) (depth : Nat) : S.lockPlace d depth =
    S.root.place ++ [Utf8.encode "locks", Utf8.encode (LockTable.name d depth)] := by
  have hlock : S.lockPlace d depth = S.locksPlace ++ [Utf8.encode (LockTable.name d depth)] :=
    Path.place_child (plain_lockName d depth)
  have hlocks : S.locksPlace = S.root.place ++ [Utf8.encode "locks"] :=
    Path.place_child plain_locks
  rw [hlock, hlocks, List.append_assoc, List.singleton_append]

theorem place_path (d : Digest) (k : Artifact) :
    (S.store.path d k).place = S.filePlace d (S.store.fileName k) :=
  Path.place_child (S.plain_fileName k)

/-! ### Different places -/

theorem entryPlace_inj {d e : Digest} (h : S.entryPlace d = S.entryPlace e) : d = e := by
  rw [entryPlace_eq, entryPlace_eq] at h
  have hlast := List.append_cancel_left h
  simp only [List.cons.injEq, and_true, true_and] at hlast
  exact Digest.toText_injective (Utf8.encode_injective hlast)

theorem entry_append_inj {d e : Digest} {x y : Bytes}
    (h : S.entryPlace d ++ [x] = S.entryPlace e ++ [y]) : d = e ∧ x = y := by
  obtain ⟨hentry, hlast⟩ := List.append_inj' h rfl
  exact ⟨S.entryPlace_inj hentry, List.singleton_inj.1 hlast⟩

theorem filePlace_inj {d e : Digest} {a b : String} (h : S.filePlace d a = S.filePlace e b) :
    d = e ∧ a = b := by
  obtain ⟨hd, hname⟩ := S.entry_append_inj h
  exact ⟨hd, Utf8.encode_injective hname⟩

theorem lockPlace_inj {d e : Digest} {k l : Nat} (h : S.lockPlace d k = S.lockPlace e l) :
    d = e ∧ k = l := by
  rw [lockPlace_eq, lockPlace_eq] at h
  have hlast := List.append_cancel_left h
  simp only [List.cons.injEq, and_true, true_and] at hlast
  exact lockName_injective (Utf8.encode_injective hlast)

theorem lockPlace_ne_entry (d e : Digest) (depth : Nat) (name : Bytes) :
    S.lockPlace d depth ≠ S.entryPlace e ++ [name] := by
  intro h
  have hlength := congrArg List.length h
  rw [lockPlace_eq, entryPlace_eq] at hlength
  simp at hlength

theorem lockPlace_ne_entryPlace (d e : Digest) (depth : Nat) :
    S.lockPlace d depth ≠ S.entryPlace e := by
  intro h
  rw [lockPlace_eq, entryPlace_eq] at h
  have hlast := List.append_cancel_left h
  simp only [List.cons.injEq, and_true] at hlast
  exact absurd (Utf8.encode_injective hlast.1) (by decide)

theorem lockPlace_ne_kernels (d : Digest) (depth : Nat) : S.lockPlace d depth ≠ S.kernelsPlace := by
  intro h
  have hlength := congrArg List.length h
  rw [lockPlace_eq, kernelsPlace_eq] at hlength
  simp at hlength

theorem not_isBase_lockPlace (d : Digest) (depth : Nat) :
    ¬FileSystem.IsBase (S.lockPlace d depth) := by
  rintro (h | h)
  · have hlength := congrArg List.length h
    rw [lockPlace_eq] at hlength
    simp at hlength
  · have hlength := congrArg List.length h
    rw [lockPlace_eq] at hlength
    simp [FileSystem.rootPlace] at hlength

/-! ### Near places -/

theorem near_entry (d : Digest) (name : Bytes) : S.Near (S.entryPlace d ++ [name]) := by
  refine Or.inr ?_
  rw [entryPlace_eq, List.append_assoc]
  exact List.prefix_append _ _

theorem near_lockPlace (d : Digest) (depth : Nat) : S.Near (S.lockPlace d depth) := by
  refine Or.inr ?_
  rw [lockPlace_eq]
  exact List.prefix_append _ _

theorem near_of_mem_visits {d : Digest} {x : Place} (h : x ∈ (S.store.entryDir d).visits) :
    S.Near x := by
  rw [visits_entryDir, List.mem_append] at h
  rcases h with h | h
  · exact Or.inl h
  · refine Or.inr ?_
    simp only [List.mem_cons, List.not_mem_nil, or_false] at h
    rcases h with h | h
    · rw [h, kernelsPlace_eq]
      exact List.prefix_append _ _
    · rw [h, entryPlace_eq]
      exact List.prefix_append _ _

/-! ### Guards -/

@[simp] theorem guard_sourceName :
    guard (Utf8.encode S.sourceName) = Pipeline.translationDepth := by
  have hhead : Utf8.encode "source." = 0x73 :: Utf8.encode "ource." := by decide
  rw [encode_sourceName, hhead, List.cons_append, guard]

@[simp] theorem guard_manifest :
    guard (Utf8.encode "manifest.json") = Pipeline.translationDepth := rfl

@[simp] theorem guard_binary : guard (Utf8.encode "binary") = Pipeline.compilationDepth := rfl

@[simp] theorem guard_sidecar :
    guard (Utf8.encode "binary.xxh3") = Pipeline.compilationDepth := rfl

theorem guard_put (n : Nat) :
    guard (Utf8.encode (".put" ++ FileSystem.freshTail n)) = Pipeline.translationDepth := by
  have hhead : Utf8.encode ".put" = 0x2E :: 0x70 :: Utf8.encode "ut" := by decide
  rw [Utf8.encode_append, hhead, List.cons_append, List.cons_append, guard]

theorem guard_reserved (n : Nat) :
    guard (Utf8.encode (".binary" ++ FileSystem.freshTail n)) = Pipeline.compilationDepth := by
  have hhead : Utf8.encode ".binary" = 0x2E :: 0x62 :: Utf8.encode "inary" := by decide
  rw [Utf8.encode_append, hhead, List.cons_append, List.cons_append]
  rfl

theorem guard_checksum (n : Nat) :
    guard (Utf8.encode (".checksum" ++ FileSystem.freshTail n)) = Pipeline.compilationDepth := by
  have hhead : Utf8.encode ".checksum" = 0x2E :: 0x63 :: Utf8.encode "hecksum" := by decide
  rw [Utf8.encode_append, hhead, List.cons_append, List.cons_append]
  rfl

/-! ### Scratch names -/

/-- Whether a name is one of a fresh file. -/
def IsScratch (name : Bytes) : Prop := name.head? = some Path.dot

/-- The names of fresh files that the lock of a depth protects. -/
structure Scratch (depth : Nat) (name : String) : Prop where
  plain : Plain (Utf8.encode name)
  isScratch : IsScratch (Utf8.encode name)
  guard : Site.guard (Utf8.encode name) = depth

theorem scratch_put (n : Nat) :
    Scratch Pipeline.translationDepth (".put" ++ FileSystem.freshTail n) where
  plain := plain_temp (by decide) n
  isScratch := by
    rw [Utf8.encode_append]
    rfl
  guard := guard_put n

theorem scratch_reserved (n : Nat) :
    Scratch Pipeline.compilationDepth (".binary" ++ FileSystem.freshTail n) where
  plain := plain_temp (by decide) n
  isScratch := by
    rw [Utf8.encode_append]
    rfl
  guard := guard_reserved n

theorem scratch_checksum (n : Nat) :
    Scratch Pipeline.compilationDepth (".checksum" ++ FileSystem.freshTail n) where
  plain := plain_temp (by decide) n
  isScratch := by
    rw [Utf8.encode_append]
    rfl
  guard := guard_checksum n

theorem not_isScratch_sourceName : ¬IsScratch (Utf8.encode S.sourceName) := by
  have hhead : Utf8.encode "source." = 0x73 :: Utf8.encode "ource." := by decide
  rw [IsScratch, encode_sourceName, hhead, List.cons_append, List.head?_cons]
  decide

theorem not_isScratch_manifest : ¬IsScratch (Utf8.encode "manifest.json") := by
  unfold IsScratch
  decide

theorem not_isScratch_binary : ¬IsScratch (Utf8.encode "binary") := by
  unfold IsScratch
  decide

theorem not_isScratch_sidecar : ¬IsScratch (Utf8.encode "binary.xxh3") := by
  unfold IsScratch
  decide

end Site

/-- Whether a name is that of a fresh file with a given start. -/
def IsFresh (stem : String) (name : Bytes) : Prop :=
  ∃ n, name = Utf8.encode (stem ++ FileSystem.freshTail n)

/-- Fresh names whose second characters differ are different. -/
theorem not_isFresh {stem stem' : String} {n : Nat}
    (h : stem.toList[1]? ≠ stem'.toList[1]?) (hlen : 1 < stem.toList.length)
    (hlen' : 1 < stem'.toList.length) :
    ¬IsFresh stem (Utf8.encode (stem' ++ FileSystem.freshTail n)) := by
  rintro ⟨k, heq⟩
  have hlist := congrArg (fun s : String => s.toList[1]?) (Utf8.encode_injective heq)
  simp only [String.toList_append] at hlist
  rw [List.getElem?_append_left hlen', List.getElem?_append_left hlen] at hlist
  exact h hlist.symm

theorem IsFresh.isScratch {stem : String} {name : Bytes} {depth : Nat}
    (hstem : ∀ n, Site.Scratch depth (stem ++ FileSystem.freshTail n)) (h : IsFresh stem name) :
    Site.IsScratch name := by
  obtain ⟨n, rfl⟩ := h
  exact (hstem n).isScratch

end KernelCache
