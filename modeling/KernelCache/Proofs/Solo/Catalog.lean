/-
**A store is a map.**

A client that has a store for itself stores artifacts, reserves files, writes to them, publishes
them or gives them up, and looks at what is there, in any order.  What it is told is what a map from
digests and kinds to contents would tell it, with the reservations that are open beside it.

Main definitions:

* `StoreCall`, `StoreAnswer`, `StoreClient` — what a client asks and is told;
* `Catalog`, `Catalog.Serves` — **the map, and what it tells**;
* `Catalog.Matches` — the files of a store that stand for a map.

Main results:

* `Catalog.Matches.stored`, `Catalog.Matches.reserve`, `Catalog.Matches.write`,
  `Catalog.Matches.close` — what happens to the files happens to the map;
* `solo_call` — one call;
* `store_refines_map` — **every sequence of calls on an empty store is answered as by a map**.
-/

import KernelCache.Proofs.Solo.Transparency

set_option relaxedAutoImplicit false
set_option autoImplicit false

namespace KernelCache

/-! ### Clients -/

/-- What a client asks of a store.  Reservations that are open are counted from the latest one. -/
inductive StoreCall where
  | put (d : Digest) (k : Artifact) (b : Bytes)
  | reserve (d : Digest) (k : Artifact)
  | write (i : Nat) (b : Bytes)
  | publish (i : Nat) (k : Artifact)
  | drop (i : Nat)
  | contains (d : Digest) (k : Artifact)
  | get (d : Digest) (k : Artifact)
  | verified (d : Digest)

/-- What a client is told.  It is told nothing of a reservation that is not open. -/
inductive StoreAnswer where
  | stored (p : Path)
  | reserved (p : Path)
  | done
  | found (b : Bool)
  | bytes (b : Option Bytes)
  | checked (p : Option Path)
  | nothing

namespace StoreCall

/-- The task of a call, where the given files are reserved, each for a digest. -/
def task (st : Store) (opened : List (Digest × Path)) :
    StoreCall → FileTask CacheError StoreAnswer
  | .put d k b => do return .stored (← st.put d k b)
  | .reserve d k => do return .reserved (← st.reserve d k)
  | .write i b =>
    match opened[i]? with
    | some (_, p) => do
      Store.attempt p (Ask.write p b)
      return .done
    | none => return .nothing
  | .publish i k =>
    match opened[i]? with
    | some (d, p) => do return .stored (← st.publish d k p)
    | none => return .nothing
  | .drop i =>
    match opened[i]? with
    | some (_, p) => do
      Store.discard p
      return .done
    | none => return .nothing
  | .contains d k => do return .found (← st.contains d k)
  | .get d k => do return .bytes (← st.get d k)
  | .verified d => do return .checked (← st.verified d)

/-- The files that are reserved after a call.  A file that was to be published is not reserved any
more, whatever has become of it. -/
def reservedAfter (opened : List (Digest × Path)) :
    StoreCall → Except CacheError StoreAnswer → List (Digest × Path)
  | .reserve d _, .ok (.reserved p) => (d, p) :: opened
  | .publish i _, _ => opened.eraseIdx i
  | .drop i, _ => opened.eraseIdx i
  | _, _ => opened

end StoreCall

namespace StoreClient

end StoreClient

/-! ### Maps -/

/-- A file that is reserved for a digest, and what was written to it. -/
structure Reservation where
  digest : Digest
  path : Path
  contents : Bytes

/-- A map from digests and kinds to contents, with the reservations that are open. -/
structure Catalog where
  contents : Digest → Artifact → Option Bytes
  opened : List Reservation

namespace Catalog

/-- The map with nothing in it. -/
def empty : Catalog := ⟨fun _ _ => none, []⟩

/-- The map with contents for a digest and a kind. -/
def store (c : Catalog) (d : Digest) (k : Artifact) (b : Bytes) : Catalog :=
  { c with contents := fun e l => if e = d ∧ l = k then some b else c.contents e l }

/-- What a client has to know of the reservations. -/
def tickets (c : Catalog) : List (Digest × Path) := c.opened.map fun r => (r.digest, r.path)

/-- **What a map tells.**  All that can fail is a reservation, when there are no names left. -/
inductive Serves (S : Site) (c : Catalog) :
    StoreCall → Except CacheError StoreAnswer → Catalog → Prop where
  | put (d : Digest) (k : Artifact) (b : Bytes) :
      Serves S c (.put d k b) (.ok (.stored (S.store.path d k))) (c.store d k b)
  | reserve (d : Digest) (k : Artifact) {p : Path} (h : ∀ r ∈ c.opened, r.path ≠ p) :
      Serves S c (.reserve d k) (.ok (.reserved p)) { c with opened := ⟨d, p, []⟩ :: c.opened }
  | crowded (d : Digest) (k : Artifact) (e : CacheError)
      (h : FileSystem.freshNames ≤ c.opened.length) : Serves S c (.reserve d k) (.error e) c
  | write {i : Nat} {r : Reservation} (b : Bytes) (h : c.opened[i]? = some r) :
      Serves S c (.write i b) (.ok .done)
        { c with opened := c.opened.set i { r with contents := b } }
  | publish {i : Nat} {r : Reservation} (k : Artifact) (h : c.opened[i]? = some r) :
      Serves S c (.publish i k) (.ok (.stored (S.store.path r.digest k)))
        { c.store r.digest k r.contents with opened := c.opened.eraseIdx i }
  | drop {i : Nat} {r : Reservation} (h : c.opened[i]? = some r) :
      Serves S c (.drop i) (.ok .done) { c with opened := c.opened.eraseIdx i }
  | contains (d : Digest) (k : Artifact) :
      Serves S c (.contains d k) (.ok (.found (c.contents d k).isSome)) c
  | get (d : Digest) (k : Artifact) : Serves S c (.get d k) (.ok (.bytes (c.contents d k))) c
  | verified (d : Digest) : Serves S c (.verified d)
      (.ok (.checked ((c.contents d .binary).map fun _ => S.store.path d .binary))) c
  | write_none {i : Nat} (b : Bytes) (h : c.opened[i]? = none) :
      Serves S c (.write i b) (.ok .nothing) c
  | publish_none {i : Nat} (k : Artifact) (h : c.opened[i]? = none) :
      Serves S c (.publish i k) (.ok .nothing) c
  | drop_none {i : Nat} (h : c.opened[i]? = none) : Serves S c (.drop i) (.ok .nothing) c

/-- What a map tells of several calls. -/
inductive ServesAll (S : Site) :
    Catalog → List StoreCall → List (Except CacheError StoreAnswer) → Catalog → Prop where
  | nil (c : Catalog) : ServesAll S c [] [] c
  | cons {c c₁ c₂ : Catalog} {call : StoreCall} {calls : List StoreCall}
      {answer : Except CacheError StoreAnswer} {answers : List (Except CacheError StoreAnswer)}
      (h : c.Serves S call answer c₁) (hrest : ServesAll S c₁ calls answers c₂) :
      ServesAll S c (call :: calls) (answer :: answers) c₂

end Catalog

/-! ### Names -/

section

variable {S : Site} {f : Files} {d e : Digest} {name other : String} {x : Bytes}

theorem Store.plain_stem (k : Artifact) (n : Nat) :
    Plain (Utf8.encode (Store.stem k ++ FileSystem.freshTail n)) :=
  plain_temp (by cases k <;> decide) n

theorem Store.isScratch_stem (k : Artifact) (n : Nat) :
    Site.IsScratch (Utf8.encode (Store.stem k ++ FileSystem.freshTail n)) := by
  rw [Utf8.encode_append]
  cases k <;> rfl

theorem Site.not_isScratch_fileName (S : Site) (k : Artifact) :
    ¬Site.IsScratch (Utf8.encode (S.store.fileName k)) := by
  cases k with
  | source => exact S.not_isScratch_sourceName
  | manifest => exact Site.not_isScratch_manifest
  | binary => exact Site.not_isScratch_binary

theorem Site.fileName_injective {k l : Artifact} (h : S.store.fileName k = S.store.fileName l) :
    k = l := by
  have hmanifest : S.sourceName ≠ "manifest.json" := S.sourceName_ne (by decide)
  have hbinary : S.sourceName ≠ "binary" := S.sourceName_ne (by decide)
  have hother : "manifest.json" ≠ "binary" := by decide
  cases k <;> cases l <;> first
    | rfl
    | exact absurd h hmanifest
    | exact absurd h.symm hmanifest
    | exact absurd h hbinary
    | exact absurd h.symm hbinary
    | exact absurd h hother
    | exact absurd h.symm hother

theorem Site.fileName_ne_sidecar (S : Site) (k : Artifact) :
    S.store.fileName k ≠ "binary.xxh3" := by
  cases k with
  | source => exact S.sourceName_ne (by decide)
  | manifest => exact (by decide : "manifest.json" ≠ "binary.xxh3")
  | binary => exact (by decide : "binary" ≠ "binary.xxh3")

/-- Different files of entries have different paths. -/
theorem Site.child_inj (hname : Plain (Utf8.encode name)) (hother : Plain (Utf8.encode other))
    (h : (S.store.entryDir d).child name = (S.store.entryDir e).child other) :
    d = e ∧ name = other := by
  have hplace := congrArg Path.place h
  rw [Path.place_child hname, Path.place_child hother] at hplace
  exact S.filePlace_inj hplace

/-! ### Stored artifacts -/

theorem Files.stored_fileName (k l : Artifact) (b : Bytes) :
    f.stored S d b k e (Utf8.encode (S.store.fileName l)) =
      if e = d ∧ l = k then some b else f e (Utf8.encode (S.store.fileName l)) := by
  have hset (g : Files) : g.set d (S.store.fileName k) (some b) e
      (Utf8.encode (S.store.fileName l)) =
        if e = d ∧ l = k then some b else g e (Utf8.encode (S.store.fileName l)) := by
    by_cases hl : l = k
    · by_cases he : e = d
      · rw [hl, he, if_pos ⟨rfl, rfl⟩, Files.set_self]
      · rw [if_neg fun h => he h.1, Files.set_of_digest_ne he]
    · rw [if_neg fun h => hl h.2, Files.set_of_name_ne fun h => hl (S.fileName_injective h)]
  cases k with
  | source => exact hset f
  | manifest => exact hset f
  | binary =>
      rw [← Files.set_of_name_ne (f := f) (d := d) (S.fileName_ne_sidecar l)]
      exact hset _

theorem Files.stored_sidecar (k : Artifact) (b : Bytes) :
    f.stored S d b k e (Utf8.encode "binary.xxh3") =
      if e = d ∧ k = .binary then some (Utf8.encode (Checksum.of b).toText)
      else f e (Utf8.encode "binary.xxh3") := by
  cases k with
  | source => exact (Files.set_of_name_ne (S.sourceName_ne (by decide)).symm).trans (by simp)
  | manifest => exact (Files.set_of_name_ne (by decide)).trans (by simp)
  | binary =>
      rw [Files.stored, Files.set_of_name_ne (by decide)]
      by_cases he : e = d
      · rw [he, if_pos ⟨rfl, rfl⟩, Files.set_self]
      · rw [if_neg fun h => he h.1, Files.set_of_digest_ne he]

theorem Files.stored_scratch (k : Artifact) (b : Bytes) (hx : Site.IsScratch x) :
    f.stored S d b k e x = f e x := by
  cases k with
  | source => exact Files.set_of_ne fun h => S.not_isScratch_sourceName (h ▸ hx)
  | manifest => exact Files.set_of_ne fun h => Site.not_isScratch_manifest (h ▸ hx)
  | binary =>
      rw [Files.stored, Files.set_of_ne fun h => Site.not_isScratch_binary (h ▸ hx)]
      exact Files.set_of_ne fun h => Site.not_isScratch_sidecar (h ▸ hx)

end

/-! ### Files that stand for a map -/

/-- An element is replaced by one that looks the same. -/
theorem map_set_of_eq {α β : Type} {g : α → β} {l : List α} {i : Nat} {a a' : α}
    (ha : l[i]? = some a) (hg : g a' = g a) : (l.set i a').map g = l.map g := by
  have hi : i < (l.map g).length := by
    rw [List.length_map]
    exact (List.getElem?_eq_some_iff.1 ha).1
  rw [List.map_set]
  refine List.ext_getElem? fun j => ?_
  by_cases hij : i = j
  · rw [← hij, List.getElem?_set_self hi, List.getElem?_map, ha, hg]
    rfl
  · rw [List.getElem?_set_ne hij]

/-- A reservation is for the file of a fresh name in an entry, with its contents. -/
structure Reservation.Holds (r : Reservation) (S : Site) (f : Files) (name : String) : Prop where
  fresh : ∃ k n, name = Store.stem k ++ FileSystem.freshTail n
  path : r.path = (S.store.entryDir r.digest).child name
  contents : f r.digest (Utf8.encode name) = some r.contents

/-- **The files of a store that stand for a map.**  The artifacts are those of the map, a binary has
its checksum, and the fresh files are those of the reservations. -/
structure Catalog.Matches (c : Catalog) (S : Site) (f : Files) : Prop where
  contents : ∀ d k, f d (Utf8.encode (S.store.fileName k)) = c.contents d k
  sidecar : ∀ d b, c.contents d .binary = some b →
    f d (Utf8.encode "binary.xxh3") = some (Utf8.encode (Checksum.of b).toText)
  opened : ∀ r ∈ c.opened, ∃ name, r.Holds S f name
  scratch : ∀ d x, Site.IsScratch x → f d x ≠ none →
    ∃ r ∈ c.opened, ∃ name, r.Holds S f name ∧ r.digest = d ∧ x = Utf8.encode name
  distinct : (c.opened.map Reservation.path).Nodup

section

variable {S : Site} {c : Catalog} {f g : Files} {d e : Digest} {name : String} {x : Bytes}
  {r : Reservation} {i : Nat}

theorem Reservation.Holds.plain (h : r.Holds S f name) : Plain (Utf8.encode name) := by
  obtain ⟨k, n, rfl⟩ := h.fresh
  exact Store.plain_stem k n

theorem Reservation.Holds.isScratch (h : r.Holds S f name) :
    Site.IsScratch (Utf8.encode name) := by
  obtain ⟨k, n, rfl⟩ := h.fresh
  exact Store.isScratch_stem k n

/-- A reservation holds where its file is the same. -/
theorem Reservation.Holds.congr (h : r.Holds S f name)
    (heq : g r.digest (Utf8.encode name) = f r.digest (Utf8.encode name)) : r.Holds S g name :=
  ⟨h.fresh, h.path, heq.trans h.contents⟩

namespace Catalog

/-- An artifact is stored. -/
theorem Matches.stored (h : c.Matches S f) (d : Digest) (k : Artifact) (b : Bytes) :
    (c.store d k b).Matches S (f.stored S d b k) where
  contents := by
    intro e l
    rw [Files.stored_fileName, h.contents]
    rfl
  sidecar := by
    intro e b' hb'
    rw [Files.stored_sidecar]
    simp only [store] at hb'
    by_cases he : e = d ∧ Artifact.binary = k
    · rw [if_pos he] at hb'
      rw [if_pos ⟨he.1, he.2.symm⟩, Option.some.inj hb']
    · rw [if_neg he] at hb'
      rw [if_neg fun h' => he ⟨h'.1, h'.2.symm⟩]
      exact h.sidecar e b' hb'
  opened := by
    intro r hr
    obtain ⟨name, hname⟩ := h.opened r hr
    exact ⟨name, hname.congr (Files.stored_scratch k b hname.isScratch)⟩
  scratch := by
    intro e x hx hne
    rw [Files.stored_scratch k b hx] at hne
    obtain ⟨r, hr, name, hname, hdigest, hxname⟩ := h.scratch e x hx hne
    exact ⟨r, hr, name, hname.congr (Files.stored_scratch k b hname.isScratch), hdigest, hxname⟩
  distinct := h.distinct

/-- Artifacts and checksums stay when a fresh file changes. -/
theorem Matches.set_scratch (h : c.Matches S f) (hname : Site.IsScratch (Utf8.encode name))
    {v : Option Bytes} :
    (∀ e k, f.set d name v e (Utf8.encode (S.store.fileName k)) = c.contents e k) ∧
      ∀ e b, c.contents e .binary = some b →
        f.set d name v e (Utf8.encode "binary.xxh3") =
          some (Utf8.encode (Checksum.of b).toText) := by
  refine ⟨fun e k => ?_, fun e b hb => ?_⟩
  · have hne : Utf8.encode (S.store.fileName k) ≠ Utf8.encode name := by
      intro heq
      exact S.not_isScratch_fileName k (heq ▸ hname)
    rw [Files.set_of_ne hne, h.contents]
  · have hne : Utf8.encode "binary.xxh3" ≠ Utf8.encode name := by
      intro heq
      exact Site.not_isScratch_sidecar (heq ▸ hname)
    rw [Files.set_of_ne hne]
    exact h.sidecar e b hb

/-- A file is reserved whose name was free. -/
theorem Matches.reserve (h : c.Matches S f) {k : Artifact} {n : Nat}
    (hfree : f d (Utf8.encode (Store.stem k ++ FileSystem.freshTail n)) = none) :
    (∀ r ∈ c.opened, r.path ≠
        (S.store.entryDir d).child (Store.stem k ++ FileSystem.freshTail n)) ∧
      Matches { c with opened := ⟨d, (S.store.entryDir d).child (Store.stem k ++
        FileSystem.freshTail n), []⟩ :: c.opened } S
          (f.set d (Store.stem k ++ FileSystem.freshTail n) (some [])) := by
  have hscratch := Store.isScratch_stem k n
  have hplain := Store.plain_stem k n
  have hfresh : ∃ l m, Store.stem k ++ FileSystem.freshTail n =
      Store.stem l ++ FileSystem.freshTail m := ⟨k, n, rfl⟩
  generalize Store.stem k ++ FileSystem.freshTail n = name at hfree hscratch hplain hfresh ⊢
  have hnew : ∀ r ∈ c.opened, r.path ≠ (S.store.entryDir d).child name := by
    intro r hr heq
    obtain ⟨other, hother⟩ := h.opened r hr
    obtain ⟨hdigest, rfl⟩ := Site.child_inj hother.plain hplain (hother.path.symm.trans heq)
    cases hfree.symm.trans (hdigest ▸ hother.contents)
  -- the other reservations are for other files
  have hkept {r : Reservation} (hr : r ∈ c.opened) {other : String} (hother : r.Holds S f other) :
      r.Holds S (f.set d name (some [])) other := by
    refine hother.congr (if_neg fun heq => hnew r hr ?_)
    rw [hother.path, heq.1, Utf8.encode_injective heq.2]
  obtain ⟨hcontents, hsidecar⟩ := h.set_scratch (d := d) (v := some []) hscratch
  refine ⟨hnew, hcontents, hsidecar, fun r hr => ?_, fun e x hx hne => ?_, ?_⟩
  · rcases List.mem_cons.1 hr with rfl | hr
    · exact ⟨name, hfresh, rfl, Files.set_self⟩
    · obtain ⟨other, hother⟩ := h.opened r hr
      exact ⟨other, hkept hr hother⟩
  · by_cases heq : e = d ∧ x = Utf8.encode name
    · exact ⟨_, List.mem_cons_self, name, ⟨hfresh, rfl, Files.set_self⟩, heq.1.symm, heq.2⟩
    · rw [Files.set, if_neg heq] at hne
      obtain ⟨r, hr, other, hother, hdigest, hxname⟩ := h.scratch e x hx hne
      exact ⟨r, List.mem_cons_of_mem _ hr, other, hkept hr hother, hdigest, hxname⟩
  · refine List.nodup_cons.2 ⟨fun hmem => ?_, h.distinct⟩
    obtain ⟨r, hr, heq⟩ := List.mem_map.1 hmem
    exact hnew r hr heq

/-- Reservations that are open at different positions are for different files. -/
theorem Matches.ne_of_index (h : c.Matches S f) {j : Nat} {r' : Reservation}
    (hr : c.opened[i]? = some r) (hr' : c.opened[j]? = some r') (hij : j ≠ i) {other : String}
    (hname : r.Holds S f name) (hother : r'.Holds S f other) :
    ¬(r'.digest = r.digest ∧ Utf8.encode other = Utf8.encode name) := by
  rintro ⟨hdigest, heq⟩
  have hpath : r'.path = r.path := by
    rw [hname.path, hother.path, hdigest, Utf8.encode_injective heq]
  have hlength : j < (c.opened.map Reservation.path).length := by
    rw [List.length_map]
    exact (List.getElem?_eq_some_iff.1 hr').1
  refine hij ((List.getElem?_inj hlength h.distinct).1 ?_)
  rw [List.getElem?_map, List.getElem?_map, hr, hr', Option.map_some, Option.map_some, hpath]

/-- A reservation holds after a change of the file of another one. -/
theorem Matches.holds_set (h : c.Matches S f) {j : Nat} {r' : Reservation}
    (hr : c.opened[i]? = some r) (hr' : c.opened[j]? = some r') (hij : j ≠ i)
    (hname : r.Holds S f name) {v : Option Bytes} :
    ∃ other, r'.Holds S (f.set r.digest name v) other := by
  obtain ⟨other, hother⟩ := h.opened r' (List.mem_of_getElem? hr')
  exact ⟨other, hother.congr (if_neg (h.ne_of_index hr hr' hij hname hother))⟩

/-- Fresh files other than a changed one belong to the other reservations. -/
theorem Matches.scratch_set (h : c.Matches S f) (hr : c.opened[i]? = some r)
    (hname : r.Holds S f name) {v : Option Bytes} (hx : Site.IsScratch x)
    (hne : ¬(e = r.digest ∧ x = Utf8.encode name)) (hthere : f.set r.digest name v e x ≠ none) :
    ∃ j r', j ≠ i ∧ c.opened[j]? = some r' ∧ ∃ other,
      r'.Holds S (f.set r.digest name v) other ∧ r'.digest = e ∧ x = Utf8.encode other := by
  rw [Files.set, if_neg hne] at hthere
  obtain ⟨r', hr', other, hother, hdigest, hxother⟩ := h.scratch e x hx hthere
  obtain ⟨j, hj⟩ := List.mem_iff_getElem?.1 hr'
  have hij : j ≠ i := by
    rintro rfl
    obtain rfl := Option.some.inj (hr.symm.trans hj)
    have hpath := hname.path.symm.trans hother.path
    obtain ⟨-, rfl⟩ := Site.child_inj hname.plain hother.plain hpath
    exact hne ⟨hdigest.symm, hxother⟩
  refine ⟨j, r', hij, hj, other, hother.congr (if_neg ?_), hdigest, hxother⟩
  exact h.ne_of_index hr hj hij hname hother

/-- A reserved file is written. -/
theorem Matches.write (h : c.Matches S f) (hr : c.opened[i]? = some r) (hname : r.Holds S f name)
    (b : Bytes) : Matches { c with opened := c.opened.set i { r with contents := b } } S
      (f.set r.digest name (some b)) := by
  obtain ⟨hcontents, hsidecar⟩ := h.set_scratch (d := r.digest) (v := some b) hname.isScratch
  have hi : i < c.opened.length := (List.getElem?_eq_some_iff.1 hr).1
  have hself : Reservation.Holds { r with contents := b } S (f.set r.digest name (some b)) name :=
    ⟨hname.fresh, hname.path, Files.set_self⟩
  refine ⟨hcontents, hsidecar, fun r' hr' => ?_, fun e x hx hthere => ?_, ?_⟩
  · obtain ⟨j, hj⟩ := List.mem_iff_getElem?.1 hr'
    by_cases hij : j = i
    · rw [hij, List.getElem?_set_self hi] at hj
      obtain rfl := Option.some.inj hj
      exact ⟨name, hself⟩
    · rw [List.getElem?_set_ne (Ne.symm hij)] at hj
      exact h.holds_set hr hj hij hname
  · by_cases hex : e = r.digest ∧ x = Utf8.encode name
    · exact ⟨_, List.mem_set hi _, name, hself, hex.1.symm, hex.2⟩
    · obtain ⟨j, r', hij, hj, hrest⟩ := h.scratch_set hr hname hx hex hthere
      refine ⟨r', List.mem_iff_getElem?.2 ⟨j, ?_⟩, hrest⟩
      rw [List.getElem?_set_ne (Ne.symm hij), hj]
  · have hpaths : (c.opened.set i { r with contents := b }).map Reservation.path =
        c.opened.map Reservation.path := map_set_of_eq hr rfl
    dsimp only
    rw [hpaths]
    exact h.distinct

/-- A reserved file is gone, and so is its reservation. -/
theorem Matches.close (h : c.Matches S f) (hr : c.opened[i]? = some r)
    (hname : r.Holds S f name) : Matches { c with opened := c.opened.eraseIdx i } S
      (f.set r.digest name none) := by
  obtain ⟨hcontents, hsidecar⟩ := h.set_scratch (d := r.digest) (v := none) hname.isScratch
  refine ⟨hcontents, hsidecar, fun r' hr' => ?_, fun e x hx hthere => ?_, ?_⟩
  · obtain ⟨j, hij, hj⟩ := List.mem_eraseIdx_iff_getElem?.1 hr'
    exact h.holds_set hr hj hij hname
  · have hex : ¬(e = r.digest ∧ x = Utf8.encode name) := fun hex => hthere (if_pos hex)
    obtain ⟨j, r', hij, hj, hrest⟩ := h.scratch_set hr hname hx hex hthere
    exact ⟨r', List.mem_eraseIdx_iff_getElem?.2 ⟨j, hij, hj⟩, hrest⟩
  · exact h.distinct.sublist ((List.eraseIdx_sublist c.opened i).map Reservation.path)

/-- If all names are in use, there are as many reservations. -/
theorem Matches.crowded (h : c.Matches S f) {k : Artifact}
    (hfull : ∀ n, f d (Utf8.encode (Store.stem k ++ FileSystem.freshTail n)) ≠ none) :
    FileSystem.freshNames ≤ c.opened.length := by
  have hnodup : ((List.range FileSystem.freshNames).map fun n =>
      (S.store.entryDir d).child (Store.stem k ++ FileSystem.freshTail n)).Nodup := by
    refine List.Nodup.map_on (fun n hn m hm heq => ?_) List.nodup_range
    rw [List.mem_range] at hn hm
    obtain ⟨-, hname⟩ := Site.child_inj (Store.plain_stem k n) (Store.plain_stem k m) heq
    have hlist := congrArg String.toList hname
    rw [String.toList_append, String.toList_append] at hlist
    have hsame := String.toList_inj.1 (List.append_cancel_left hlist)
    have htail := FileSystem.freshTail_eq_iff.1 hsame
    rwa [Nat.mod_eq_of_lt hn, Nat.mod_eq_of_lt hm] at htail
  have hsubset : ((List.range FileSystem.freshNames).map fun n =>
      (S.store.entryDir d).child (Store.stem k ++ FileSystem.freshTail n)) ⊆
        c.opened.map Reservation.path := by
    intro p hp
    obtain ⟨n, -, rfl⟩ := List.mem_map.1 hp
    obtain ⟨r, hr, name, hname, hdigest, heq⟩ := h.scratch d _ (Store.isScratch_stem k n) (hfull n)
    refine List.mem_map.2 ⟨r, hr, ?_⟩
    rw [hname.path, hdigest, Utf8.encode_injective heq]
  have hlength := (hnodup.subperm hsubset).length_le
  rwa [List.length_map, List.length_map, List.length_range] at hlength

/-! ### Calls -/

/-- A call was answered as by a map, and the process is left with files that stand for the map
afterwards. -/
def Answers (c : Catalog) (S : Site) (call : StoreCall) (answer : Except CacheError StoreAnswer)
    (s : Process) : Prop :=
  ∃ g c', Shows S none g s.machine.files ∧ Matches c' S g ∧ c.Serves S call answer c' ∧
    call.reservedAfter c.tickets answer = c'.tickets

end Catalog

variable {s : Process}

end

/-- A map tells of a binary that was written to a reserved file and published, unless no file could
be reserved. -/
theorem Catalog.ServesAll.published {S : Site} {d : Digest} {b : Bytes}
    {answers : List (Except CacheError StoreAnswer)} {c : Catalog}
    (h : Catalog.ServesAll S .empty [.reserve d .binary, .write 0 b, .publish 0 .binary,
      .get d .binary, .verified d, .contains d .source] answers c) :
    ∃ p, answers = [.ok (.reserved p), .ok .done, .ok (.stored (S.store.path d .binary)),
      .ok (.bytes (some b)), .ok (.checked (some (S.store.path d .binary))),
      .ok (.found false)] := by
  obtain _ | ⟨hreserve, h⟩ := h
  obtain _ | ⟨hwrite, h⟩ := h
  obtain _ | ⟨hpublish, h⟩ := h
  obtain _ | ⟨hget, h⟩ := h
  obtain _ | ⟨hverified, h⟩ := h
  obtain _ | ⟨hcontains, h⟩ := h
  cases h
  cases hreserve with
  | crowded d k e h => exact absurd h (by decide)
  | reserve d k hnew =>
      rename_i p
      cases hwrite with
      | write_none b h => cases h
      | write b h =>
          obtain rfl := Option.some.inj h
          cases hpublish with
          | publish_none k h => cases h
          | publish k h =>
              obtain rfl := Option.some.inj h
              cases hget
              cases hverified
              cases hcontains
              exact ⟨p, by simp [Catalog.store, Catalog.empty]⟩

end KernelCache
