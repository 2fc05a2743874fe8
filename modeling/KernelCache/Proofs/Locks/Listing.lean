/-
**What a listing of locks shows.**

A listing shows whatever in the directory of the locks has a name that can be read as a digest and a
depth.  Every lock has such a name, but not every such name is that of a lock: the depth may be
greater than any that locks have, and both parts may be written otherwise than locks write them,
with signs, digits of upper case, or zeros in front.

Main definitions:

* `LockTable.IsLockName` — the names that locks have;
* `LockTable.Entry.Stands`, `LockTable.Entry.Real`, `LockTable.Entry.Addressed` — the name that an
  entry stands for, and the entries that are locks;
* `Site.Shown` — the names in the directory of the locks.

Main results:

* `LockTable.readName?_eq_some_iff`, `LockTable.readName?_name` — **names that can be read**;
* `LockTable.encode_name_lt_iff` — the order of the names of locks;
* `LockTable.mem_ofNames`, `LockTable.pairwise_ofNames` — what a listing shows, and in what order;
* `LockTable.Entry.Stands.real_iff` — an entry is a lock exactly if its name is one that locks have;
* `LockTable.Entry.addressed_iff` — what is listed can be addressed exactly if it is a lock;
* `Site.mem_entries`, `Site.pairwise_entries`, `Site.isLocked_iff` — listing and looking at one
  moment;
* `listing_real_iff` — **when everything that is listed is a lock**.
-/

import KernelCache.Proofs.Build.Layout
import KernelCache.Proofs.Digest.Format
import KernelCache.Proofs.Files.Names
import KernelCache.Proofs.Text.Decimal
import Mathlib.Data.List.TakeWhile

set_option relaxedAutoImplicit false
set_option autoImplicit false

namespace KernelCache

/-! ### Names that can be read -/

namespace LockTable

variable {a : Bytes} {d : Digest} {depth : Nat}

/-- What follows the last underscore of a text. -/
theorem takeWhile_reverse {front tail : List Char} (h : '_' ∉ tail) :
    ((front ++ '_' :: tail).reverse.takeWhile (· ≠ '_')).reverse = tail := by
  have hall : ∀ c ∈ tail.reverse, decide (c ≠ '_') = true := fun c hc =>
    decide_eq_true fun heq => h (heq ▸ List.mem_reverse.1 hc)
  rw [List.reverse_append, List.reverse_cons, List.append_assoc, List.takeWhile_append_of_pos hall]
  simp

/-- A name is read in two parts, before and after its last underscore. -/
theorem readName?_of_decode? {front tail : List Char}
    (h : Utf8.decode? a = some (front ++ '_' :: tail)) (htail : '_' ∉ tail) :
    readName? a = (Digest.parse? (String.ofList front)).bind fun d =>
      (Decimal.unsigned? 255 tail).map fun depth => (d, depth) := by
  have hrest : (front ++ '_' :: tail).take ((front ++ '_' :: tail).length - tail.length) =
      front ++ ['_'] := by
    have hlength : (front ++ '_' :: tail).length - tail.length = (front ++ ['_']).length := by
      simp only [List.length_append, List.length_cons, List.length_nil]
      omega
    rw [hlength, List.append_cons front '_' tail, List.take_left]
  rw [readName?, h]
  simp only [Option.bind_eq_bind, Option.bind_some, takeWhile_reverse htail, hrest,
    List.getLast?_concat, List.dropLast_concat]
  cases Digest.parse? (String.ofList front) with
  | none => rfl
  | some d => cases Decimal.unsigned? 255 tail <;> rfl

/-- A name without an underscore is not read. -/
theorem readName?_of_notMem {cs : List Char} (h : Utf8.decode? a = some cs) (hcs : '_' ∉ cs) :
    readName? a = none := by
  have hall : ∀ c ∈ cs.reverse, decide (c ≠ '_') = true := fun c hc =>
    decide_eq_true fun heq => hcs (heq ▸ List.mem_reverse.1 hc)
  have htail : (cs.reverse.takeWhile (· ≠ '_')).reverse = cs := by
    rw [List.takeWhile_eq_self_iff.2 hall, List.reverse_reverse]
  rw [readName?, h]
  simp only [Option.bind_eq_bind, Option.bind_some, htail, Nat.sub_self, List.take_zero,
    List.getLast?_nil]

/-- **The names that can be read**: a text of a digest, an underscore, and a number of eight
bits. -/
theorem readName?_eq_some_iff :
    readName? a = some (d, depth) ↔ ∃ front tail,
      Utf8.decode? a = some (front ++ '_' :: tail) ∧ '_' ∉ tail ∧
        Digest.parse? (String.ofList front) = some d ∧ Decimal.unsigned? 255 tail = some depth := by
  constructor
  · intro h
    cases hdecode : Utf8.decode? a with
    | none =>
        rw [readName?, hdecode] at h
        cases h
    | some cs =>
        by_cases hcs : '_' ∈ cs
        · -- the last underscore is the first from behind
          obtain ⟨tail, front, hsplit, htail⟩ := List.eq_append_cons_of_mem (List.mem_reverse.2 hcs)
          have hcs' : cs = front.reverse ++ '_' :: tail.reverse := by
            rw [← List.reverse_reverse cs, hsplit]
            simp
          rw [hcs'] at hdecode
          have htail' : '_' ∉ tail.reverse := fun hmem => htail (List.mem_reverse.1 hmem)
          rw [readName?_of_decode? hdecode htail', Option.bind_eq_some_iff] at h
          obtain ⟨d', hd, hdepth⟩ := h
          obtain ⟨depth', hdepth, heq⟩ := Option.map_eq_some_iff.1 hdepth
          cases heq
          exact ⟨_, _, hcs' ▸ rfl, htail', hd, hdepth⟩
        · cases (readName?_of_notMem hdecode hcs).symm.trans h
  · rintro ⟨front, tail, hdecode, htail, hd, hdepth⟩
    rw [readName?_of_decode? hdecode htail, hd, Option.bind_some, hdepth, Option.map_some]

theorem toList_name (d : Digest) (depth : Nat) :
    (name d depth).toList = d.toText.toList ++ '_' :: (Decimal.text depth).toList := by
  rw [name, String.toList_append, String.toList_append, List.append_assoc]
  rfl

/-- **The name of a lock is read as its digest and its depth.** -/
theorem readName?_name (d : Digest) {depth : Nat} (h : depth ≤ 255) :
    readName? (Utf8.encode (name d depth)) = some (d, depth) := by
  have hdigits : '_' ∉ (Decimal.text depth).toList := fun hmem =>
    absurd (Decimal.isDigit_of_mem_text hmem) (by decide)
  refine readName?_eq_some_iff.2 ⟨d.toText.toList, _, ?_, hdigits, ?_, Decimal.unsigned?_text h⟩
  · rw [Utf8.decode?_encode, toList_name]
  · rw [String.ofList_toList, Digest.parse?_toText]

/-- The names of locks are in the order of the digests, and those of one digest in that of the
depths. -/
theorem encode_name_lt_iff {d e : Digest} {k l : Nat} (hk : k ≤ maxLockDepth) (hl : l ≤ maxLockDepth) :
    Utf8.encode (name d k) < Utf8.encode (name e l) ↔ d < e ∨ d = e ∧ k < l := by
  have hlength : d.toText.toList.length = e.toText.toList.length := by
    rw [d.length_toText, e.length_toText]
  have hsame : d.toText.toList = e.toText.toList ↔ d = e :=
    ⟨fun h => Digest.toText_injective (String.toList_inj.1 h), fun h => by rw [h]⟩
  rw [Utf8.encode_lt_iff, String.lt_iff, toList_name, toList_name, Hex.append_lt_append_iff hlength, hsame,
    ← String.lt_iff, ← Digest.lt_iff_toText_lt, List.cons_lt_cons_iff, Decimal.text_lt_text_iff hk hl]
  simp

/-- A name that can be read does not start with a slash. -/
theorem head?_ne_of_readName? (h : readName? a = some (d, depth)) : a.head? ≠ some Path.slash := by
  obtain ⟨front, tail, hdecode, -, hd, -⟩ := readName?_eq_some_iff.1 h
  intro hhead
  obtain ⟨rest, rfl⟩ : ∃ rest, a = Path.slash :: rest := by
    cases a with
    | nil => cases hhead
    | cons b rest => exact ⟨rest, by rw [Option.some.inj hhead]⟩
  -- the first character would be a slash, and it is that of a digest
  have hread : Utf8.read (Path.slash :: rest) = some '/' :: Utf8.read rest := rfl
  rw [Utf8.decode?, hread, List.mapM_cons] at hdecode
  obtain ⟨c, hc, hcs⟩ := Option.bind_eq_some_iff.1 hdecode
  obtain rfl : '/' = c := Option.some.inj hc
  cases front with
  | nil => cases hd
  | cons c front =>
      have hfront := Digest.isDigit_or_plus_of_parse? hd c (by simp)
      obtain ⟨cs, -, hcons⟩ := Option.bind_eq_some_iff.1 hcs
      obtain ⟨rfl, -⟩ := List.cons.inj (Option.some.inj hcons)
      exact absurd hfront (by decide)

/-! ### What is listed -/

/-- Whether a name is that of a lock, of a depth that locks have. -/
def IsLockName (a : Bytes) : Prop :=
  ∃ d depth, depth ≤ maxLockDepth ∧ a = Utf8.encode (name d depth)

/-- Whether an entry is what a listing shows for a name. -/
structure Entry.Stands (directory : Path) (e : Entry) (a : Bytes) : Prop where
  read : readName? a = some (e.digest, e.depth)
  path : e.path = directory.join ⟨a⟩

/-- Whether an entry is a lock: it has a depth that locks have, and the path of that lock. -/
structure Entry.Real (t : LockTable) (e : Entry) : Prop where
  depth : e.depth ≤ maxLockDepth
  path : e.path = t.path e.digest e.depth

variable {directory : Path} {names : List Bytes} {e e' : Entry} {b : Bytes}

theorem bytes_join (h : a.head? ≠ some Path.slash) : (directory.join ⟨a⟩).bytes =
    (if directory.bytes.isEmpty || directory.bytes.getLast? == some Path.slash then directory.bytes
      else directory.bytes ++ [Path.slash]) ++ a := by
  have habs : ¬(Path.mk a).isAbsolute := by simpa [Path.isAbsolute] using h
  rw [Path.join, if_neg habs]
  split <;> simp

/-- Names that do not start with a slash are found in the paths of directory entries. -/
theorem join_inj (ha : a.head? ≠ some Path.slash) (hb : b.head? ≠ some Path.slash)
    (h : directory.join ⟨a⟩ = directory.join ⟨b⟩) : a = b := by
  have hbytes := congrArg Path.bytes h
  rw [bytes_join ha, bytes_join hb] at hbytes
  exact List.append_cancel_left hbytes

theorem path_eq_join (t : LockTable) (d : Digest) (depth : Nat) :
    t.path d depth = t.directory.join ⟨Utf8.encode (name d depth)⟩ := rfl

theorem Entry.Stands.head?_ne (h : e.Stands directory a) : a.head? ≠ some Path.slash :=
  head?_ne_of_readName? h.read

/-- Entries with one path stand for one name. -/
theorem Entry.Stands.name_inj (ha : e.Stands directory a) (hb : e'.Stands directory b)
    (h : e.path = e'.path) : a = b :=
  join_inj ha.head?_ne hb.head?_ne (ha.path.symm.trans (h.trans hb.path))

/-- The name of an entry that is a lock. -/
theorem Entry.Stands.name_eq {t : LockTable} (h : e.Stands t.directory a) (hreal : e.Real t) :
    a = Utf8.encode (name e.digest e.depth) := by
  have hpath := h.path.symm.trans hreal.path
  rw [path_eq_join] at hpath
  exact join_inj h.head?_ne (plain_lockName _ _).head?_ne hpath

/-- **An entry is a lock exactly if its name is one that locks have.** -/
theorem Entry.Stands.real_iff {t : LockTable} (h : e.Stands t.directory a) :
    e.Real t ↔ IsLockName a := by
  constructor
  · exact fun hreal => ⟨e.digest, e.depth, hreal.depth, h.name_eq hreal⟩
  · rintro ⟨d, depth, hdepth, hname⟩
    have hread := h.read
    rw [hname, readName?_name d (Nat.le_trans hdepth (by decide))] at hread
    obtain ⟨hd, hk⟩ := Prod.mk.inj (Option.some.inj hread)
    refine ⟨hk ▸ hdepth, ?_⟩
    rw [h.path, path_eq_join, hname, hd, hk]

/-- **A listing shows the names that can be read.** -/
theorem mem_ofNames : e ∈ ofNames directory names ↔ ∃ a ∈ names, e.Stands directory a := by
  simp only [ofNames, List.mem_filterMap, List.mem_mergeSort, Option.map_eq_some_iff]
  refine exists_congr fun a => and_congr_right fun _ => ?_
  constructor
  · rintro ⟨⟨d, depth⟩, hread, rfl⟩
    exact ⟨hread, rfl⟩
  · rintro ⟨hread, hpath⟩
    exact ⟨_, hread, by rw [← hpath]⟩

/-- **A listing is in the order of the names.** -/
theorem pairwise_ofNames {R : Entry → Entry → Prop} (hnames : names.Nodup)
    (hR : ∀ a ∈ names, ∀ b ∈ names, a < b → ∀ e e' : Entry, e.Stands directory a →
      e'.Stands directory b → R e e') : (ofNames directory names).Pairwise R := by
  have htotal (a b : Bytes) : (decide (a ≤ b) || decide (b ≤ a)) = true := by
    simpa using List.le_total a b
  have htrans (a b c : Bytes) (hab : decide (a ≤ b) = true) (hbc : decide (b ≤ c) = true) :
      decide (a ≤ c) = true :=
    decide_eq_true (List.le_trans (of_decide_eq_true hab) (of_decide_eq_true hbc))
  have hsorted := List.pairwise_mergeSort htrans htotal names
  have hnodup : (names.mergeSort fun a b => decide (a ≤ b)).Nodup :=
    (List.mergeSort_perm names _).nodup_iff.2 hnames
  rw [ofNames, List.pairwise_filterMap]
  refine (hsorted.and hnodup).imp_of_mem fun {a b} ha hb hab e he e' he' => ?_
  rw [List.mem_mergeSort] at ha hb
  obtain ⟨hle, hne⟩ := hab
  have hlt : a < b := Std.lt_of_le_of_ne (of_decide_eq_true hle) hne
  obtain ⟨⟨d, depth⟩, hread, rfl⟩ := Option.map_eq_some_iff.1 he
  obtain ⟨⟨d', depth'⟩, hread', rfl⟩ := Option.map_eq_some_iff.1 he'
  exact hR a ha b hb hlt _ _ ⟨hread, rfl⟩ ⟨hread', rfl⟩

/-! ### Addressing what is listed -/

/-- Whether giving back, watching and waiting under the digest and the depth of an entry are about
the path of the entry. -/
structure Entry.Addressed (t : LockTable) (e : Entry) : Prop where
  release : t.release e.digest e.depth = releasePath e.path
  isLocked : t.isLocked e.digest e.depth = present e.path
  wait : ∀ polls, t.wait e.digest e.depth polls = waitLoop e.path firstPause polls

theorem checkDepth_bind {α : Type} (f : Unit → FileTask CacheError α) :
    (checkDepth depth >>= f) = if depth ≤ maxLockDepth then f () else throw (.lockDepth depth) := by
  rw [checkDepth]
  split <;> rfl

/-- **What is listed can be addressed exactly if it is a lock.** -/
theorem Entry.addressed_iff {t : LockTable} : e.Addressed t ↔ e.Real t := by
  constructor
  · intro h
    have hrelease := congrArg ExceptT.run h.release
    rw [release, checkDepth_bind] at hrelease
    split at hrelease
    · next hdepth =>
        -- the first thing that is done is to strike the path
        obtain ⟨hstrike, -⟩ := Program.ask.inj hrelease
        exact ⟨hdepth, (Action.letGo.inj hstrike).symm⟩
    · cases hrelease
  · rintro ⟨hdepth, hpath⟩
    refine ⟨?_, ?_, fun polls => ?_⟩
    · rw [release, checkDepth_bind, if_pos hdepth, hpath]
    · rw [isLocked, checkDepth_bind, if_pos hdepth, hpath]
    · rw [wait, checkDepth_bind, if_pos hdepth, hpath]

/-! ### Listing and looking at one moment -/

theorem runTask_names {α : Type} (x : Path)
    (f : Except Failure (List Bytes) → FileTask CacheError α) (s : Process) :
    s.runTask (liftM (Ask.names x) >>= f) = s.runTask (f (s.machine.files.names x)) := rfl

theorem runTask_look {α : Type} (x : Path) (f : Except Failure Node → FileTask CacheError α)
    (s : Process) : s.runTask (liftM (Ask.look x) >>= f) =
      s.runTask (f ((s.machine.files.lookup x).map (·.2))) := rfl

theorem runTask_entries (t : LockTable) (s : Process) : s.runTask t.entries =
    (some (match s.machine.files.names t.directory with
      | .ok names => .ok (ofNames t.directory names)
      | .error .notFound => .ok []
      | .error e => .error (.io t.directory e)), s) := by
  rw [entries, runTask_names]
  cases s.machine.files.names t.directory with
  | ok names => rfl
  | error e => cases e <;> rfl

theorem runTask_present (x : Path) (s : Process) : s.runTask (present x) =
    (some (match s.machine.files.lookup x with
      | .ok _ => .ok true
      | .error .notFound => .ok false
      | .error e => .error (.io x e)), s) := by
  rw [present, runTask_look]
  cases s.machine.files.lookup x with
  | ok found => rfl
  | error e => cases e <;> rfl

end LockTable

/-! ### The locks of a site -/

namespace Site

variable {S : Site} {s : Process} {l : List LockTable.Entry}

/-- Whether a name is in the directory of the locks. -/
structure Shown (S : Site) (s : Process) (a : Bytes) : Prop where
  walkable : s.machine.files.Walkable S.locks.directory
  there : s.machine.files.node? (S.locksPlace ++ [a]) ≠ none

theorem not_isBase_locksPlace (S : Site) : ¬FileSystem.IsBase S.locksPlace := by
  have hplace : S.locksPlace = S.root.place ++ [Utf8.encode "locks"] :=
    Path.place_child plain_locks
  rw [hplace]
  rintro (h | h)
  · simp at h
  · have hlast := congrArg List.getLast? h
    rw [List.getLast?_concat] at hlast
    exact absurd (Option.some.inj hlast) (by decide)

/-- What a listing that succeeds shows, and that it comes of names without repetition. -/
theorem exists_of_entries (h : s.runTask S.locks.entries = (some (.ok l), s)) :
    ∃ names, names.Nodup ∧ l = LockTable.ofNames S.locks.directory names ∧
      ∀ a, a ∈ names ↔ S.Shown s a := by
  have hmem : s.machine.files.Walkable S.locks.directory → ∀ a,
      a ∈ s.machine.files.namesAt S.locksPlace ↔ S.Shown s a := fun hwalk a =>
    (FileSystem.mem_namesAt_iff S.not_isBase_locksPlace).trans ⟨fun hthere => ⟨hwalk, hthere⟩,
      Shown.there⟩
  rw [LockTable.runTask_entries] at h
  replace h := Option.some.inj (congrArg Prod.fst h)
  split at h
  · next names hnames =>
      obtain ⟨hwalk, rfl⟩ := FileSystem.walkable_of_names plain_locks hnames
      exact ⟨_, FileSystem.nodup_namesAt _ _, (Except.ok.inj h).symm, hmem hwalk⟩
  · next hnames =>
      have hnil : LockTable.ofNames S.locks.directory [] = [] := by simp [LockTable.ofNames]
      refine ⟨[], List.nodup_nil, (hnil.trans (Except.ok.inj h)).symm, fun a =>
        ⟨nofun, fun hshown => ?_⟩⟩
      -- a directory that is there can be read
      obtain ⟨hwalk, hthere⟩ := (FileSystem.walkable_child_iff plain_locks).1 hshown.walkable
      have hread := FileSystem.names_child plain_locks hwalk
      rw [hthere] at hread
      cases hread.symm.trans hnames
  · cases h

/-- Where there is a directory of locks it can be listed. -/
theorem exists_entries (hw : s.machine.files.Walkable S.locks.directory) :
    ∃ l, s.runTask S.locks.entries = (some (.ok l), s) := by
  obtain ⟨hwalk, hthere⟩ := (FileSystem.walkable_child_iff plain_locks).1 hw
  have hnames : s.machine.files.names S.locks.directory = _ :=
    FileSystem.names_child plain_locks hwalk
  rw [hthere] at hnames
  have hlisted := LockTable.runTask_entries S.locks s
  rw [hnames] at hlisted
  exact ⟨_, hlisted⟩

/-- **What is listed.** -/
theorem mem_entries (h : s.runTask S.locks.entries = (some (.ok l), s)) {e : LockTable.Entry} :
    e ∈ l ↔ ∃ a, S.Shown s a ∧ e.Stands S.locks.directory a := by
  obtain ⟨names, -, rfl, hnames⟩ := exists_of_entries h
  simp only [LockTable.mem_ofNames, hnames]

/-- **In what order it is listed.** -/
theorem pairwise_entries (h : s.runTask S.locks.entries = (some (.ok l), s))
    {R : LockTable.Entry → LockTable.Entry → Prop}
    (hR : ∀ a b, S.Shown s a → S.Shown s b → a < b → ∀ e e' : LockTable.Entry,
      e.Stands S.locks.directory a → e'.Stands S.locks.directory b → R e e') : l.Pairwise R := by
  obtain ⟨names, hnodup, rfl, hnames⟩ := exists_of_entries h
  exact LockTable.pairwise_ofNames hnodup fun a ha b hb =>
    hR a b ((hnames a).1 ha) ((hnames b).1 hb)

theorem lockPlace_eq_child (S : Site) (d : Digest) (depth : Nat) :
    S.lockPlace d depth = S.locksPlace ++ [Utf8.encode (LockTable.name d depth)] :=
  Path.place_child (plain_lockName d depth)

/-- **A lock is found to be locked exactly if its name is there.** -/
theorem isLocked_iff {d : Digest} {depth : Nat} :
    s.runTask (S.locks.isLocked d depth) = (some (.ok true), s) ↔
      depth ≤ maxLockDepth ∧ S.Shown s (Utf8.encode (LockTable.name d depth)) := by
  have hname := plain_lockName d depth
  rw [LockTable.isLocked, LockTable.checkDepth_bind]
  by_cases hdepth : depth ≤ maxLockDepth
  · rw [if_pos hdepth, LockTable.runTask_present]
    constructor
    · intro hrun
      cases hlookup : s.machine.files.lookup (S.locks.path d depth) with
      | error e =>
          rw [hlookup] at hrun
          cases e <;> cases hrun
      | ok found =>
          refine ⟨hdepth, FileSystem.walkable_of_lookup hname hlookup, ?_⟩
          rw [← lockPlace_eq_child]
          exact ne_of_eq_of_ne (FileSystem.lookup_ok hlookup).2 (Option.some_ne_none _)
    · rintro ⟨-, hwalk, hthere⟩
      obtain ⟨n, hn⟩ := Option.ne_none_iff_exists'.1 hthere
      have hlookup : s.machine.files.lookup (S.locks.path d depth) = _ :=
        FileSystem.lookup_child hname hwalk
      rw [Path.place_child hname, ← locksPlace, hn] at hlookup
      rw [hlookup]
  · rw [if_neg hdepth]
    exact ⟨nofun, fun h => absurd h.1 hdepth⟩

end Site

/-- **When everything that is listed is a lock.**  A listing that succeeds shows each name in the
directory of the locks that can be read as a digest and a depth, once and under its own path.  What
it shows can be addressed by giving back, watching and waiting exactly if it has a depth that locks
have and the path of that lock, and then it is found to be locked.  All of it is so, with no digest
and depth shown twice, exactly if the names that can be read are names that locks have. -/
theorem listing_real_iff (S : Site) (s : Process) (l : List LockTable.Entry)
    (h : s.runTask S.locks.entries = (some (.ok l), s)) :
    (∀ e, e ∈ l ↔ ∃ a, S.Shown s a ∧ e.Stands S.locks.directory a) ∧
      (l.map fun e => e.path).Nodup ∧
      (∀ e ∈ l, e.Addressed S.locks ↔ e.Real S.locks) ∧
      (∀ e ∈ l, e.Real S.locks →
        s.runTask (S.locks.isLocked e.digest e.depth) = (some (.ok true), s)) ∧
      ((∀ e ∈ l, e.Real S.locks) ∧ (l.map fun e => (e.digest, e.depth)).Nodup ↔
        ∀ a, S.Shown s a → LockTable.readName? a ≠ none → LockTable.IsLockName a) := by
  have hmem (e) : e ∈ l ↔ ∃ a, S.Shown s a ∧ e.Stands S.locks.directory a := Site.mem_entries h
  have hpaths : (l.map fun e => e.path).Nodup := by
    refine List.pairwise_map.2 (Site.pairwise_entries h fun a b _ _ hlt e e' he he' heq => ?_)
    exact Std.lt_irrefl (he.name_inj he' heq ▸ hlt)
  refine ⟨hmem, hpaths, fun e _ => LockTable.Entry.addressed_iff, fun e he hreal => ?_, ?_⟩
  · obtain ⟨a, ha, hstands⟩ := (hmem e).1 he
    exact Site.isLocked_iff.2 ⟨hreal.depth, hstands.name_eq hreal ▸ ha⟩
  · constructor
    · rintro ⟨hall, -⟩ a ha hread
      obtain ⟨⟨d, depth⟩, hread⟩ := Option.ne_none_iff_exists'.1 hread
      have hstands : LockTable.Entry.Stands S.locks.directory ⟨d, depth, _⟩ a := ⟨hread, rfl⟩
      exact hstands.real_iff.1 (hall _ ((hmem _).2 ⟨a, ha, hstands⟩))
    · intro hall
      have hlocks : ∀ e ∈ l, e.Real S.locks := by
        intro e he
        obtain ⟨a, ha, hstands⟩ := (hmem e).1 he
        exact hstands.real_iff.2 (hall a ha (by simp [hstands.read]))
      refine ⟨hlocks, List.pairwise_map.2 ?_⟩
      -- locks with one digest and one depth have one path
      refine (List.pairwise_map.1 hpaths).imp_of_mem fun {e e'} he he' hne heq => hne ?_
      obtain ⟨hd, hk⟩ := Prod.mk.inj heq
      rw [(hlocks e he).path, (hlocks e' he').path, hd, hk]

/-! ### Names that no lock has -/

theorem slash_notMem_cpp : '/' ∉ "cpp".toList := by decide

/-- The cache in the working directory. -/
def Site.here : Site := ⟨Path.ofString ".", "cpp", slash_notMem_cpp⟩

namespace Strangers

/-- A name of a digest and what follows it. -/
def name (tail : String) : Bytes := Utf8.encode (Digest.empty.toText ++ tail)

/-- A lock, the same with one more digit, and one of a depth that locks do not have. -/
def files : FileSystem :=
  (["_0", "_00", "_10"].map fun tail => [Utf8.encode "locks", name tail]).foldl
    (fun fs x => fs.put x .directory) (FileSystem.empty.put [Utf8.encode "locks"] .directory)

/-- Somebody who lists the locks there. -/
def process : Process := .fresh ⟨files, 0, 0, []⟩

theorem walkable : process.machine.files.Walkable Site.here.locks.directory := by
  have hall : ∀ x ∈ Site.here.locks.directory.visits,
      process.machine.files.node? x = some .directory := by decide +kernel
  exact hall

theorem shown : ∀ tail ∈ ["_0", "_00", "_10"], Site.here.Shown process (name tail) := by
  have hall : ∀ tail ∈ ["_0", "_00", "_10"],
      process.machine.files.node? (Site.here.locksPlace ++ [name tail]) ≠ none := by decide +kernel
  exact fun tail htail => ⟨walkable, hall tail htail⟩

theorem read : LockTable.readName? (name "_0") = some (.empty, 0) ∧
    LockTable.readName? (name "_00") = some (.empty, 0) ∧
    LockTable.readName? (name "_10") = some (.empty, 10) := by decide +kernel

theorem stands {tail : String} {d : Digest} {depth : Nat}
    (h : LockTable.readName? (name tail) = some (d, depth)) :
    LockTable.Entry.Stands Site.here.locks.directory
      ⟨d, depth, Site.here.locks.directory.join ⟨name tail⟩⟩ (name tail) :=
  ⟨h, rfl⟩

end Strangers

/-- A directory of locks may hold names that no lock has: the listing shows a depth that no lock has,
and one lock under two paths. -/
theorem stranger_listed : ∃ l,
    Strangers.process.runTask Site.here.locks.entries = (some (.ok l), Strangers.process) ∧
      (∃ e ∈ l, maxLockDepth < e.depth) ∧
      ∃ e ∈ l, ∃ e' ∈ l, e.path ≠ e'.path ∧ e.digest = e'.digest ∧ e.depth = e'.depth := by
  obtain ⟨l, hl⟩ := Site.exists_entries Strangers.walkable
  obtain ⟨hzero, hzeros, hten⟩ := Strangers.read
  have hmem {tail : String} {d : Digest} {depth : Nat} (htail : tail ∈ ["_0", "_00", "_10"])
      (h : LockTable.readName? (Strangers.name tail) = some (d, depth)) :=
    (Site.mem_entries hl).2 ⟨_, Strangers.shown tail htail, Strangers.stands h⟩
  refine ⟨l, hl, ⟨_, hmem (by simp) hten, by decide⟩, _, hmem (by simp) hzero, _,
    hmem (by simp) hzeros, fun heq => ?_, rfl, rfl⟩
  have hname := (Strangers.stands hzero).name_inj (Strangers.stands hzeros) heq
  exact absurd hname (by decide +kernel)

/-- Not all that is listed there is a lock. -/
theorem stranger_not_real : ∃ l,
    Strangers.process.runTask Site.here.locks.entries = (some (.ok l), Strangers.process) ∧
      (l.map fun e => e.path).Nodup ∧
      ¬((∀ e ∈ l, e.Real Site.here.locks) ∧ (l.map fun e => (e.digest, e.depth)).Nodup) := by
  obtain ⟨l, hl⟩ := Site.exists_entries Strangers.walkable
  obtain ⟨-, hpaths, -, -, hiff⟩ := listing_real_iff _ _ l hl
  refine ⟨l, hl, hpaths, fun hreal => ?_⟩
  obtain ⟨-, -, hten⟩ := Strangers.read
  obtain ⟨d, depth, hdepth, hname⟩ := hiff.1 hreal _ (Strangers.shown "_10" (by simp)) (by simp [hten])
  rw [hname, LockTable.readName?_name d (Nat.le_trans hdepth (by decide))] at hten
  obtain ⟨-, rfl⟩ := Prod.mk.inj (Option.some.inj hten)
  exact absurd hdepth (by decide)

end KernelCache
