/-
**What is in a cache makes no difference.**

A cache grows by builds, one after another, of whatever is asked for, while files elsewhere come
and go.  A request gives on such a cache what it gives on an empty one, but for one case: the
language of a file is not part of the key, so a file that is not in C can find the translation of
one that is.

Main definitions:

* `Site.Empty`, `Site.Agree` — empty caches, and files that differ elsewhere only;
* `Reached` — **the machines that builds lead to**;
* `Request.Served`, `Request.Yields` — what a request comes to by itself.

Main results:

* `Reached.ready` — what builds preserve;
* `Request.gets_iff` — **what a request gets is what it comes to by itself**, if it is served;
* `cache_transparent` — **what a request comes to does not depend on what was built before**, but
  for that case;
* `fortran_not_transparent` — in that case it does.
-/

import KernelCache.Proofs.Crew.Alone
import KernelCache.Proofs.Solo.Build

set_option relaxedAutoImplicit false
set_option autoImplicit false

namespace KernelCache

/-! ### Empty caches -/

/-- The root of the cache is a directory with nothing below it. -/
structure Site.Empty (S : Site) (fs : FileSystem) : Prop where
  root : fs.Walkable S.root
  nothing : ∀ name rest, Path.slash ∉ name → S.inside fs (name :: rest) = none

/-- Files in which everything on the way to the root of the cache and below it is the same. -/
structure Site.Agree (S : Site) (fs fs' : FileSystem) : Prop where
  way : ∀ x ∈ S.root.visits, fs'.node? x = fs.node? x
  inside : ∀ name rest, Path.slash ∉ name → S.inside fs' (name :: rest) = S.inside fs (name :: rest)

section

variable {S : Site} {held : Option (Digest × Nat)} {f : Files} {fs fs' : FileSystem}

theorem Site.Empty.shows (h : S.Empty fs) : Shows S none Files.none fs := by
  have hkernels {rest : List Bytes} : S.inside fs (Utf8.encode "kernels" :: rest) = none :=
    h.nothing _ rest Site.plain_kernels.noSlash
  have hlocks {rest : List Bytes} : S.inside fs (Utf8.encode "locks" :: rest) = none :=
    h.nothing _ rest Site.plain_locks.noSlash
  refine ⟨h.root, fun rest hrest hx => ?_, fun b => ?_, fun d b => ?_, fun d x => hkernels,
    fun d x hx => absurd rfl hx, fun b => ?_, fun hheld => absurd rfl hheld, fun d depth => ?_,
    fun d depth x => hlocks⟩
  · obtain ⟨name, rest, rfl⟩ := List.exists_cons_of_ne_nil hrest
    have hnone := h.nothing name rest (Path.slash_notMem_of_visits hx)
    rw [Site.inside, h.root _ hx] at hnone
    cases hnone
  · simp [hkernels]
  · simp [hkernels]
  · simp [hlocks]
  · rw [hlocks, if_neg (by simp)]

theorem Site.Empty.no_translation (h : S.Empty fs) {d : Digest} {b : Bytes} :
    fs.readFile (S.store.path d .source) ≠ .ok b := by
  intro hb
  have hread := h.shows.readFile (d := d) S.plain_sourceName
  cases hread.symm.trans hb

theorem Shows.congr (h : Shows S held f fs) (hagree : S.Agree fs fs') : Shows S held f fs' := by
  have hkernels {rest : List Bytes} : S.inside fs' (Utf8.encode "kernels" :: rest) =
      S.inside fs (Utf8.encode "kernels" :: rest) := hagree.inside _ rest Site.plain_kernels.noSlash
  have hlocks {rest : List Bytes} : S.inside fs' (Utf8.encode "locks" :: rest) =
      S.inside fs (Utf8.encode "locks" :: rest) := hagree.inside _ rest Site.plain_locks.noSlash
  have hroot : fs'.Walkable S.root := fun x hx => (hagree.way x hx).trans (h.root x hx)
  refine ⟨hroot, h.apart, ?_, ?_, ?_, fun d x hx => ?_, ?_, ?_, ?_, ?_⟩
  · rw [hkernels]
    exact h.kernels
  · simp only [hkernels]
    exact h.entry
  · simp only [hkernels]
    exact h.file
  · obtain ⟨-, hk, he⟩ := Site.walkable_entryDir_iff.1 (h.isOpen d x hx)
    exact Site.walkable_entryDir_iff.2 ⟨hroot, hkernels.trans hk, hkernels.trans he⟩
  · rw [hlocks]
    exact h.locks
  · rw [hlocks]
    exact h.locksOpen
  · simp only [hlocks]
    exact h.lock
  · simp only [hlocks]
    exact h.below

end

/-! ### Builds one after another -/

/-- The machines that are reached from an empty cache by builds, one after another, in processes
with any notes, and by changes elsewhere.  The components of what is built are among `K`. -/
inductive Reached (S : Site) (T : Toolkit) (K : Ingredients → Prop) : Machine → Prop where
  | start {m : Machine} (h : S.Empty m.files) : Reached S T K m
  | build {m : Machine} (h : Reached S T K m) (r : Request) (notes : SortedMap Path Unit)
      (hpatience : 0 < r.patience)
      (hx : ∀ source, m.files.readFile r.job.path = .ok source → K (r.ingredients source)) :
      Reached S T K (T.build S r ⟨m, notes⟩).2.machine
  | elsewhere {m m' : Machine} (h : Reached S T K m) (hagree : S.Agree m.files m'.files) :
      Reached S T K m'

/-- Whether a request can have its translation: the translator takes files in C only, but a
translation that is there is used for any file. -/
def Request.Served (r : Request) (S : Site) (source : Bytes) (fs : FileSystem) : Prop :=
  Language.ofPath r.job.path = .c ∨
    ∃ b, fs.readFile (S.store.path (r.entry source) .source) = .ok b

/-- What a request for a source comes to, if it is served: the source translates to the function
that is asked for, and what the compiler makes of the translation can be loaded. -/
def Request.Yields (r : Request) (T : Toolkit) (S : Site)
    (binary? : Identity → Path → Bytes → Option Bytes) (source : Bytes) (k : Kernel) : Prop :=
  ∃ t b, (r.ingredients source).Gives t ∧
    binary? r.view.identity (S.store.path (r.entry source) .source) (Utf8.encode t.source) =
      some b ∧ r.Loads T S source t b k

/-- What a request can count on: its device is open, its file can be read, the request is served,
and this is the kernel. -/
def Request.Expects (r : Request) (T : Toolkit) (S : Site)
    (binary? : Identity → Path → Bytes → Option Bytes) (fs : FileSystem) (k : Kernel) : Prop :=
  r.view.isOpen = true ∧ ∃ source, fs.readFile r.job.path = .ok source ∧ r.Served S source fs ∧
    r.Yields T S binary? source k

/-- Whether a cache has the translation that a request looks for. -/
def Request.Cached (r : Request) (S : Site) (fs : FileSystem) : Prop :=
  ∃ source b, fs.readFile r.job.path = .ok source ∧
    fs.readFile (S.store.path (r.ingredients source).digest .source) = .ok b

section

variable {T : Toolkit} {binary? : Identity → Path → Bytes → Option Bytes} {K : Ingredients → Prop}
  {S : Site} {r : Request} {source : Bytes} {f : Files} {fs : FileSystem} {k : Kernel}
  {m m₀ : Machine}

/-- What a request comes to is decided by its device, its function and its components. -/
theorem Request.Yields.congr {r' : Request} (h : r.Yields T S binary? source k)
    (hview : r'.view = r.view) (hfunction : r'.job.function = r.job.function)
    (hx : r'.ingredients source = r.ingredients source) : r'.Yields T S binary? source k := by
  simp only [Yields, Loads, entry, hview, hfunction, hx]
  exact h

/-- **Where components are told apart, what a request gets does not depend on what the entries
hold**, but for whether it is served. -/
theorem Request.gets_iff (hK : Ingredients.Distinct K) (hx : K (r.ingredients source))
    (hshows : Shows S none f fs) (hf : f.Stocked S (.of S binary? K)) :
    r.Gets T S binary? source f k ↔ r.Served S source fs ∧ r.Yields T S binary? source k := by
  constructor
  · rintro ⟨t, b, ht, hb, hk⟩
    obtain ⟨hgives, hserved⟩ : (r.ingredients source).Gives t ∧ r.Served S source fs := by
      rcases ht with htr | ⟨-, ht⟩
      · exact ⟨hf.gives hK hx htr, Or.inr ⟨_, hshows.readFile_some S.plain_sourceName htr.source⟩⟩
      · exact ⟨ht.gives, Or.inl ht.language⟩
    refine ⟨hserved, t, b, hgives, ?_, hk⟩
    rcases hb with hbinary | ⟨-, hb⟩
    · exact hf.binary_eq hK hx hgives hbinary
    · exact hb
  · rintro ⟨hserved, t, b, hgives, hb, hk⟩
    refine ⟨t, b, ?_, ?_, hk⟩
    · cases hsource : f (r.entry source) (Utf8.encode S.sourceName) with
      | some text =>
          obtain ⟨t', -, htr⟩ := hf.translated _ text hsource
          obtain rfl := (hf.gives hK hx htr).unique hgives
          exact Or.inl htr
      | none =>
          have hc : Language.ofPath r.job.path = .c := by
            refine hserved.resolve_right fun hthere => ?_
            obtain ⟨text, htext⟩ := hthere
            have hread := hshows.readFile (d := r.entry source) S.plain_sourceName
            rw [hsource] at hread
            cases hread.symm.trans htext
          obtain ⟨l, loaded, hl, -⟩ := hk
          exact Or.inr ⟨hsource, Request.translates_of_gives hc hgives hl⟩
    · cases hbinary : f (r.entry source) (Utf8.encode "binary") with
      | some b' =>
          obtain rfl := Option.some.inj (hb.symm.trans (hf.binary_eq hK hx hgives hbinary))
          exact Or.inl hbinary
      | none => exact Or.inr ⟨hbinary, hb⟩

/-- **The cache is in order whatever was built**, and whatever happens elsewhere. -/
theorem Reached.ready (hT : T.Deterministic binary?) (h : Reached S T K m) :
    Ready S (.of S binary? K) m.files := by
  induction h with
  | start h => exact ⟨Files.none, h.shows, Files.stocked_none⟩
  | build h r notes hpatience hx ih =>
      obtain ⟨f, hshows, hf⟩ := ih
      obtain ⟨-, -, hready, -⟩ := Toolkit.build_ready (s := ⟨_, notes⟩) hT hshows hf hpatience
        fun source hsource => Request.supplies_of (hx source hsource)
      exact hready
  | elsewhere h hagree ih =>
      obtain ⟨f, hshows, hf⟩ := ih
      exact ⟨f, hshows.congr hagree, hf⟩

/-- On a cache that was reached by builds, a build gives exactly what the request can count on. -/
theorem Reached.build_iff (hT : T.Deterministic binary?) (hK : Ingredients.Distinct K)
    (hm : Reached S T K m) (hpatience : 0 < r.patience)
    (hx : ∀ source, m.files.readFile r.job.path = .ok source → K (r.ingredients source))
    (notes : SortedMap Path Unit) :
    ∃ x, (T.build S r ⟨m, notes⟩).1 = some x ∧
      (∀ k, x = .ok k ↔ r.Expects T S binary? m.files k) ∧
      ((∃ k, x = .ok k) → ∀ source, m.files.readFile r.job.path = .ok source →
        ∃ b, (T.build S r ⟨m, notes⟩).2.machine.files.readFile
          (S.store.path (r.ingredients source).digest .source) = .ok b) := by
  obtain ⟨f, hshows, hf⟩ := hm.ready hT
  obtain ⟨x, hout, -, hiff, hthere⟩ := Toolkit.build_ready (s := ⟨m, notes⟩) hT hshows hf hpatience
    fun source hsource => Request.supplies_of (hx source hsource)
  refine ⟨x, hout, fun k => (hiff k).trans ?_, hthere⟩
  refine and_congr_right fun _ => exists_congr fun source => and_congr_right fun hsource => ?_
  exact Request.gets_iff hK (hx source hsource) hshows hf

/-- What a request for a file in C can count on depends on that file only. -/
theorem Request.Expects.congr {fs' : FileSystem} (h : r.Expects T S binary? fs k)
    (hc : Language.ofPath r.job.path = .c)
    (hsame : fs.readFile r.job.path = fs'.readFile r.job.path) : r.Expects T S binary? fs' k := by
  obtain ⟨hopen, source, hsource, -, hyields⟩ := h
  exact ⟨hopen, source, hsame ▸ hsource, Or.inl hc, hyields⟩

/-- An empty cache serves files in C only. -/
theorem Request.Expects.language (h : r.Expects T S binary? fs k)
    (hempty : S.Empty fs) : Language.ofPath r.job.path = .c := by
  obtain ⟨-, source, -, hserved, -⟩ := h
  rcases hserved with hc | ⟨b, hb⟩
  · exact hc
  · exact absurd hb hempty.no_translation

/-- **What a request comes to does not depend on what was built before, but for one case.**  With a
deterministic toolkit, and where different components have different digests: on a cache that was
reached by any builds, and on an empty one with the same file, the request comes to an end.  If it
succeeds on the empty cache, then on the other one with the same kernel.  If it succeeds on the
other one, then on the empty one with the same kernel, unless its file is not in C and the cache has
the translation of a file in C with the same key. -/
theorem cache_transparent (hT : T.Deterministic binary?) (hK : Ingredients.Distinct K)
    (hm : Reached S T K m) (hempty : S.Empty m₀.files) (hpatience : 0 < r.patience)
    (hsame : m.files.readFile r.job.path = m₀.files.readFile r.job.path)
    (hx : ∀ source, m.files.readFile r.job.path = .ok source → K (r.ingredients source))
    (notes notes₀ : SortedMap Path Unit) :
    ∃ x x₀, (T.build S r ⟨m, notes⟩).1 = some x ∧ (T.build S r ⟨m₀, notes₀⟩).1 = some x₀ ∧
      (∀ k, x₀ = .ok k → x = .ok k) ∧
      ∀ k, x = .ok k →
        x₀ = .ok k ∨ Language.ofPath r.job.path ≠ .c ∧ r.Cached S m.files := by
  obtain ⟨x, hout, hiff, -⟩ := hm.build_iff hT hK hpatience hx notes
  obtain ⟨x₀, hout₀, hiff₀, -⟩ := (Reached.start hempty).build_iff hT hK hpatience
    (fun source hsource => hx source (hsame.trans hsource)) notes₀
  refine ⟨x, x₀, hout, hout₀, fun k hk => ?_, fun k hk => ?_⟩
  · have hexpects := (hiff₀ k).1 hk
    exact (hiff k).2 (hexpects.congr (hexpects.language hempty) hsame.symm)
  · have hexpects := (hiff k).1 hk
    by_cases hc : Language.ofPath r.job.path = .c
    · exact Or.inl ((hiff₀ k).2 (hexpects.congr hc hsame))
    · obtain ⟨-, source, hsource, hserved, -⟩ := hexpects
      obtain ⟨b, hb⟩ := hserved.resolve_left hc
      exact Or.inr ⟨hc, source, b, hsource, hb⟩

end

/-! ### One text in two files -/

namespace TwoFiles

theorem slash_notMem_c : '/' ∉ "c".toList := by decide

/-- The cache. -/
def site : Site := ⟨Path.ofString "/cache", "c", slash_notMem_c⟩

/-- A text with one kernel. -/
def source : Bytes := Utf8.encode "@kernel void f(int n) { }"

/-- An empty cache, and the text in a file for each of two languages. -/
def files : FileSystem :=
  ((FileSystem.empty.put [[Path.slash], Utf8.encode "cache"] .directory).put
    [[Path.slash], Utf8.encode "k.c"] (.file source)).put
    [[Path.slash], Utf8.encode "k.ofl"] (.file source)

/-- A request for the kernel in a file. -/
def request (path : String) : Request where
  version := Translation.version
  timeout := none
  patience := 1
  view := ⟨0, ⟨.serial, "cc", "-O2", "", ""⟩, true⟩
  job := ⟨Path.ofString path, "f", Flags.none⟩

/-- Both requests have the same components. -/
theorem ingredients_eq (path : String) (b : Bytes) :
    (request path).ingredients b = (request "/k.c").ingredients b := by
  simp only [Request.ingredients, request]

/-- The components that both requests have. -/
def asked : Ingredients → Prop := (· = (request "/k.c").ingredients source)

/-- The compiler and the loader. -/
def toolkit : Toolkit := .ofEngine (.simulated none)

/-- The machine before anything is built. -/
def cold : Machine := ⟨files, 0, 0, []⟩

/-- The machine after a build of the file in C. -/
def warm : Machine := (toolkit.build site (request "/k.c") ⟨cold, .empty⟩).2.machine

theorem deterministic : toolkit.Deterministic fun _ _ => Engine.marked none :=
  Engine.deterministic_simulated none

theorem distinct : Ingredients.Distinct asked := fun _ _ hx hy _ => hx.trans hy.symm

theorem empty_cold : site.Empty cold.files := by
  have hroot : site.root.place = [[Path.slash], Utf8.encode "cache"] := Crew.Pair.root_place
  have hnodes : files.node? = Function.update (Function.update (Function.update
      FileSystem.empty.node? [[Path.slash], Utf8.encode "cache"] (some .directory))
      [[Path.slash], Utf8.encode "k.c"] (some (.file source)))
      [[Path.slash], Utf8.encode "k.ofl"] (some (.file source)) := by
    have hbase : ∀ name : Bytes, ¬FileSystem.IsBase [[Path.slash], name] := by
      rintro name (h | h)
      · cases h
      · simp [FileSystem.rootPlace] at h
    rw [files, FileSystem.node?_put (hbase _), FileSystem.node?_put (hbase _),
      FileSystem.node?_put (hbase _)]
  refine ⟨?_, fun name rest _ => ?_⟩
  · have hvisits : site.root.visits = [[[Path.slash], Utf8.encode "cache"]] :=
      Crew.Pair.root_visits
    intro x hx
    rw [hvisits, List.mem_singleton] at hx
    rw [hx]
    decide
  · have hlength {other : Bytes} : [[Path.slash], Utf8.encode "cache"] ++ name :: rest ≠
        [[Path.slash], other] := by simp
    have hne : [[Path.slash], Utf8.encode "cache"] ++ name :: rest ≠ FileSystem.rootPlace := by
      simp [FileSystem.rootPlace]
    rw [Site.inside, hroot]
    change files.node? _ = none
    rw [hnodes, Function.update_of_ne hlength, Function.update_of_ne hlength,
      Function.update_of_ne hlength, FileSystem.node?, if_neg (by simp [FileSystem.rootPlace])]
    rfl

/-- Both files are there before the build and after it. -/
theorem contents : ∀ m ∈ [cold, warm], ∀ path ∈ ["/k.c", "/k.ofl"],
    (m.files.readFile (Path.ofString path)).toOption = some source := by
  decide +kernel

theorem readFile {m : Machine} (hm : m ∈ [cold, warm]) {path : String}
    (hpath : path ∈ ["/k.c", "/k.ofl"]) : m.files.readFile (Path.ofString path) = .ok source :=
  eq_ok_of_toOption (contents m hm path hpath)

theorem asked_of_readFile {m : Machine} (hm : m ∈ [cold, warm]) {path : String}
    (hpath : path ∈ ["/k.c", "/k.ofl"]) (b : Bytes)
    (hb : m.files.readFile (request path).job.path = .ok b) :
    asked ((request path).ingredients b) := by
  have hsource : source = b := Except.ok.inj ((readFile hm hpath).symm.trans hb)
  rw [← hsource, asked, ingredients_eq]

theorem reached_cold : Reached site toolkit asked cold := .start empty_cold

theorem reached_warm : Reached site toolkit asked warm := by
  rw [warm]
  exact .build reached_cold (request "/k.c") .empty (by decide)
    (asked_of_readFile (by simp) (by simp))

/-- The file in C can be built on an empty cache. -/
theorem built_cold :
    ∃ k, (toolkit.build site (request "/k.c") ⟨cold, .empty⟩).1 = some (.ok k) :=
  exists_ok_of_isSome (by decide +kernel)

/-- The other file is no file in C. -/
theorem language_ofl : Language.ofPath (request "/k.ofl").job.path ≠ .c := by decide

/-- With the kernel of the file in C the cache has that of the other file. -/
theorem found_warm :
    ∃ k, (toolkit.build site (request "/k.ofl") ⟨warm, .empty⟩).1 = some (.ok k) := by
  obtain ⟨k, hk⟩ := built_cold
  obtain ⟨x, hout, hiff, hthere⟩ := reached_cold.build_iff deterministic distinct
    (r := request "/k.c") (by decide) (asked_of_readFile (by simp) (by simp)) .empty
  obtain rfl : x = .ok k := Option.some.inj (hout.symm.trans hk)
  obtain ⟨-, b, hb, -, hyields⟩ := (hiff k).1 rfl
  obtain ⟨text, htext⟩ := hthere ⟨k, rfl⟩ b hb
  obtain rfl : source = b := Except.ok.inj ((readFile (by simp) (by simp)).symm.trans hb)
  have hthere : ∃ b, warm.files.readFile
      (site.store.path ((request "/k.ofl").ingredients source).digest .source) = .ok b := by
    rw [ingredients_eq, warm]
    exact ⟨text, htext⟩
  have hyields' : (request "/k.ofl").Yields toolkit site (fun _ _ => Engine.marked none) source k :=
    hyields.congr rfl rfl (ingredients_eq _ _)
  obtain ⟨x', hout', hiff', -⟩ := reached_warm.build_iff deterministic distinct
    (r := request "/k.ofl") (by decide) (asked_of_readFile (by simp) (by simp)) .empty
  have hx' := (hiff' k).2
    ⟨rfl, source, readFile (by simp) (by simp), Or.inr hthere, hyields'⟩
  exact ⟨k, hx' ▸ hout'⟩

/-- On the empty cache the other file is refused. -/
theorem refused_cold :
    ∃ e, (toolkit.build site (request "/k.ofl") ⟨cold, .empty⟩).1 = some (.error e) := by
  obtain ⟨x, hout, hiff, -⟩ := reached_cold.build_iff deterministic distinct
    (r := request "/k.ofl") (by decide) (asked_of_readFile (by simp) (by simp)) .empty
  cases x with
  | error e => exact ⟨e, hout⟩
  | ok k =>
      exact absurd (((hiff k).1 rfl).language empty_cold) language_ofl

end TwoFiles

/-- The file in C is built again on a cache that has its kernel. -/
theorem two_files_transparent : ∃ k,
    (TwoFiles.toolkit.build TwoFiles.site (TwoFiles.request "/k.c") ⟨TwoFiles.cold, .empty⟩).1 =
        some (.ok k) ∧
      (TwoFiles.toolkit.build TwoFiles.site (TwoFiles.request "/k.c") ⟨TwoFiles.warm, .empty⟩).1 =
        some (.ok k) := by
  obtain ⟨k, hk⟩ := TwoFiles.built_cold
  have hsame : TwoFiles.warm.files.readFile (TwoFiles.request "/k.c").job.path =
      TwoFiles.cold.files.readFile (TwoFiles.request "/k.c").job.path := by
    rw [TwoFiles.request, TwoFiles.readFile (by simp) (by simp),
      TwoFiles.readFile (by simp) (by simp)]
  obtain ⟨x, x₀, hout, hout₀, hwarm, -⟩ :=
    cache_transparent TwoFiles.deterministic TwoFiles.distinct TwoFiles.reached_warm
      TwoFiles.empty_cold (by decide) hsame (TwoFiles.asked_of_readFile (by simp) (by simp))
      .empty .empty
  obtain rfl : x₀ = .ok k := Option.some.inj (hout₀.symm.trans hk)
  rw [hwarm k rfl] at hout
  exact ⟨k, hk, hout⟩

/-- **For a file of another language it does make a difference what was built before.**  The same
text in a file that is not C has the key of the file in C.  On a cache that has its kernel the
request succeeds, though translating the file would have failed, as it does on an empty cache. -/
theorem fortran_not_transparent :
    TwoFiles.toolkit.Deterministic (fun _ _ => Engine.marked none) ∧
      Ingredients.Distinct TwoFiles.asked ∧
      Reached TwoFiles.site TwoFiles.toolkit TwoFiles.asked TwoFiles.warm ∧
      TwoFiles.site.Empty TwoFiles.cold.files ∧
      TwoFiles.warm.files.readFile (TwoFiles.request "/k.ofl").job.path =
        TwoFiles.cold.files.readFile (TwoFiles.request "/k.ofl").job.path ∧
      (∀ b, TwoFiles.warm.files.readFile (TwoFiles.request "/k.ofl").job.path = .ok b →
        TwoFiles.asked ((TwoFiles.request "/k.ofl").ingredients b)) ∧
      (∃ k, (TwoFiles.toolkit.build TwoFiles.site (TwoFiles.request "/k.ofl")
        ⟨TwoFiles.warm, .empty⟩).1 = some (.ok k)) ∧
      ∃ e, (TwoFiles.toolkit.build TwoFiles.site (TwoFiles.request "/k.ofl")
        ⟨TwoFiles.cold, .empty⟩).1 = some (.error e) := by
  have hsame : TwoFiles.warm.files.readFile (TwoFiles.request "/k.ofl").job.path =
      TwoFiles.cold.files.readFile (TwoFiles.request "/k.ofl").job.path := by
    rw [TwoFiles.request, TwoFiles.readFile (by simp) (by simp),
      TwoFiles.readFile (by simp) (by simp)]
  exact ⟨TwoFiles.deterministic, TwoFiles.distinct, TwoFiles.reached_warm, TwoFiles.empty_cold,
    hsame, TwoFiles.asked_of_readFile (by simp) (by simp), TwoFiles.found_warm,
    TwoFiles.refused_cold⟩

end KernelCache
