/-
**Manifests are read as they are written.**

A written manifest has its kernels one after another in the order of their names, each with the text
that it would have in any other manifest.  What is written can be read again, so manifests that are
written alike agree in everything that can be looked up in them.

Main definitions:

* `Json.memberText` — the lines of one member of an object;
* `Manifest.heading`, `Manifest.kernelTable` — the two parts of a written manifest.

Main results:

* `Json.table?_ofTable` — tables of values that are read as they are written;
* `Launch.ofJson?_toJson` — the record of a kernel;
* `Manifest.ofBytes?_toBytes` — **a written manifest is read as that manifest**;
* `Json.prettyMembers_eq` — the lines of an object are those of its members;
* `Manifest.toBytes_canonical` — **written manifests are canonical**: they can be read again, their
  kernels stand in the order of their names, and equal manifests have equal bytes.
-/

import KernelCache.Kernel.Manifest
import KernelCache.Proofs.Json.Document
import KernelCache.Proofs.SortedMap

set_option relaxedAutoImplicit false
set_option autoImplicit false

namespace KernelCache

/-! ### Tables -/

namespace Json

theorem mapM_some {α β : Type} {f : α → Option β} {g : α → β} {l : List α}
    (h : ∀ a ∈ l, f a = some (g a)) : l.mapM f = some (l.map g) := by
  induction l with
  | nil => rfl
  | cons a rest ih =>
      rw [List.mapM_cons, h a (by simp), ih fun b hb => h b (by simp [hb])]
      rfl

theorem table?_ofTable {α : Type} {value : α → Json} {value? : Json → Option α}
    (h : ∀ a, value? (value a) = some a) (m : SortedMap String α) :
    table? value? (ofTable value m) = some m := by
  have hmembers : members? (ofTable value m) =
      some (m.entries.map fun e => (e.1, value e.2)) := by
    rw [ofTable, members?, List.mapM_map]
    exact mapM_some fun e _ => by simp
  have hentries : (m.entries.map fun e => (e.1, value e.2)).mapM
      (fun e => (value? e.2).map (e.1, ·)) = some m.entries := by
    rw [List.mapM_map]
    have hall := mapM_some (l := m.entries)
      (f := (fun e => (value? e.2).map (e.1, ·)) ∘ fun e => (e.1, value e.2)) (g := id)
      fun e _ => by simp [h]
    simpa using hall
  rw [table?, hmembers]
  simp only [Option.bind_eq_bind, Option.bind_some]
  rw [hentries]
  simp [SortedMap.ofList_entries]

theorem wellSpelledMembers_table {α : Type} {value : α → Json} (h : ∀ a, WellSpelled (value a))
    (l : List (String × α)) : WellSpelledMembers (l.map fun e => (escape e.1, value e.2)) := by
  induction l with
  | nil => trivial
  | cons e rest ih => exact ⟨spelled_escape e.1, h e.2, ih⟩

theorem wellSpelledItems_map {α : Type} {value : α → Json} (h : ∀ a, WellSpelled (value a))
    (l : List α) : WellSpelledItems (l.map value) := by
  induction l with
  | nil => trivial
  | cons a rest ih => exact ⟨h a, ih⟩

@[simp] theorem string?_ofString (s : String) : (ofString s).string? = some s := text?_escape s

theorem choice?_ofString (s : String) : (ofString s).choice? = some s := text?_escape s

/-- A record of three fields is read as it is written. -/
theorem record?_three {a b c : String} (u v w : Json) (hab : a ≠ b) (hac : a ≠ c) (hbc : b ≠ c) :
    record? [a, b, c] (.object [(escape a, u), (escape b, v), (escape c, w)]) =
      some [u, v, w] := by
  have hmembers : members? (.object [(escape a, u), (escape b, v), (escape c, w)]) =
      some [(a, u), (b, v), (c, w)] := by
    simp [members?]
  rw [record?.eq_2 _ _ (by simp), hmembers]
  simp [only?, hab, hac, hbc, hab.symm, hac.symm, hbc.symm]

end Json

/-! ### Arguments and kernels -/

namespace Argument

theorem kindOfWord?_kindWord (k : ArgumentKind) : kindOfWord? (kindWord k) = some k := by
  cases k <;> decide

theorem ofJson?_toJson (a : Argument) : ofJson? a.toJson = some a := by
  rw [ofJson?, toJson, Json.record?_three _ _ _ (by decide) (by decide) (by decide)]
  simp [Json.choice?_ofString, kindOfWord?_kindWord]

theorem wellSpelled_toJson (a : Argument) : Json.WellSpelled a.toJson :=
  ⟨Json.spelled_escape _, Json.spelled_escape _, Json.spelled_escape _, Json.spelled_escape _,
    Json.spelled_escape _, Json.spelled_escape _, trivial⟩

end Argument

namespace Launch

theorem ofJson?_toJson (l : Launch) : ofJson? l.toJson = some l := by
  have harguments : (l.arguments.map Argument.toJson).mapM Argument.ofJson? =
      some l.arguments := by
    rw [List.mapM_map]
    have hall := Json.mapM_some (l := l.arguments) (f := Argument.ofJson? ∘ Argument.toJson)
      (g := id) fun a _ => Argument.ofJson?_toJson a
    simpa using hall
  rw [ofJson?, toJson, Json.record?_three _ _ _ (by decide) (by decide) (by decide)]
  simp [Json.items?, harguments]

theorem wellSpelled_toJson (l : Launch) : Json.WellSpelled l.toJson :=
  ⟨Json.spelled_escape _, Json.spelled_escape _, Json.spelled_escape _, Json.spelled_escape _,
    Json.spelled_escape _, Json.wellSpelledItems_map Argument.wellSpelled_toJson _, trivial⟩

end Launch

/-! ### Manifests -/

namespace Manifest

theorem ofJson?_toJson (m : Manifest) : ofJson? m.toJson = some m := by
  rw [ofJson?, toJson, Json.record?_three _ _ _ (by decide) (by decide) (by decide)]
  simp [Json.table?_ofTable Launch.ofJson?_toJson]

theorem wellSpelled_toJson (m : Manifest) : Json.WellSpelled m.toJson :=
  ⟨Json.spelled_escape _, Json.spelled_escape _, Json.spelled_escape _, Json.spelled_escape _,
    Json.spelled_escape _, Json.wellSpelledMembers_table Launch.wellSpelled_toJson _, trivial⟩

/-- **A written manifest is read as that manifest.** -/
theorem ofBytes?_toBytes (m : Manifest) : ofBytes? m.toBytes = some m := by
  rw [ofBytes?, toBytes, Json.parse?_pretty (wellSpelled_toJson m), Option.bind_some,
    ofJson?_toJson]

end Manifest

/-! ### The written form -/

namespace Json

/-- The lines of one member of an object. -/
def memberText (level : Nat) (key : Bytes) (v : Json) : Bytes :=
  lineStart level ++ quoted key ++ 0x3A :: 0x20 :: prettyAt level v

/-- The lines of an object are those of its members, with commas between them. -/
theorem prettyMembers_eq (level : Nat) (members : List (Bytes × Json)) :
    prettyMembers level members =
      [0x2C].intercalate (members.map fun m => memberText level m.1 m.2) := by
  induction members with
  | nil => rfl
  | cons m rest ih =>
      cases rest with
      | nil => rw [List.map_singleton, List.intercalate_singleton, prettyMembers, memberText]
      | cons m' rest =>
          have hlines : prettyMembers level (m :: m' :: rest) =
              memberText level m.1 m.2 ++ 0x2C :: prettyMembers level (m' :: rest) := by
            rw [prettyMembers, memberText]
            simp
          rw [hlines, ih]
          simp only [List.map_cons, List.intercalate_cons_cons, List.append_assoc,
            List.singleton_append]

end Json

namespace Manifest

/-- What a written manifest has above its kernels. -/
def heading (m : Manifest) : Bytes :=
  0x7B :: Json.memberText 1 (Json.escape "translator_version") (Json.ofString m.version) ++
    0x2C :: Json.memberText 1 (Json.escape "source_path") (Json.ofString m.sourcePath) ++
    0x2C :: Json.lineStart 1 ++ Json.quoted (Json.escape "functions") ++ [0x3A, 0x20]

/-- The kernels of a written manifest between braces. -/
def kernelTable : List (String × Launch) → Bytes
  | [] => [0x7B, 0x7D]
  | kernels =>
    0x7B :: [0x2C].intercalate
        (kernels.map fun k => Json.memberText 2 (Json.escape k.1) k.2.toJson) ++
      Json.lineStart 1 ++ [0x7D]

theorem prettyAt_kernels (kernels : SortedMap String Launch) :
    Json.prettyAt 1 (Json.ofTable Launch.toJson kernels) = kernelTable kernels.entries := by
  rw [Json.ofTable]
  cases kernels.entries with
  | nil => rfl
  | cons k rest =>
      rw [List.map_cons, Json.prettyAt, Json.prettyMembers_eq, kernelTable]
      · simp only [List.map_cons, List.map_map, Function.comp_def]
      · simp
      · simp

theorem toBytes_eq (m : Manifest) :
    m.toBytes = m.heading ++ kernelTable m.kernels.entries ++ Json.lineStart 0 ++ [0x7D] := by
  rw [toBytes, Json.pretty, toJson, Json.prettyAt, Json.prettyMembers_eq]
  · simp only [Nat.zero_add, List.map_cons, List.map_nil, List.intercalate_cons_cons,
      List.intercalate_singleton, heading, Json.memberText, prettyAt_kernels, List.append_assoc,
      List.cons_append, List.nil_append]
  · simp

theorem ascending_names (m : Manifest) :
    (m.kernels.keys.map Utf8.encode).Pairwise (· < ·) := by
  rw [SortedMap.keys, List.pairwise_map, List.pairwise_map]
  exact m.kernels.ascending.imp fun h => Utf8.encode_lt_iff.2 h

theorem toBytes_inj {m m' : Manifest} : m.toBytes = m'.toBytes ↔ m = m' := by
  constructor
  · intro h
    have hread := ofBytes?_toBytes m
    rw [h, ofBytes?_toBytes] at hread
    exact (Option.some.inj hread).symm
  · rintro rfl
    rfl

theorem eq_iff_get? {m m' : Manifest} :
    m = m' ↔ m.version = m'.version ∧ m.sourcePath = m'.sourcePath ∧
      ∀ name, m.kernels.get? name = m'.kernels.get? name := by
  constructor
  · rintro rfl
    exact ⟨rfl, rfl, fun _ => rfl⟩
  · rintro ⟨hversion, hpath, hkernels⟩
    cases m
    cases m'
    simp only [mk.injEq]
    exact ⟨hversion, hpath, SortedMap.ext_get? hkernels⟩

/-- **Written manifests are canonical.**  A written manifest is read as that manifest.  Below its
heading it has the lines of its kernels, in the order of the bytes of their names and no name twice,
so manifests have the same bytes exactly if they agree in everything that can be looked up. -/
theorem toBytes_canonical (m : Manifest) :
    ofBytes? m.toBytes = some m ∧
      m.toBytes = m.heading ++ kernelTable m.kernels.entries ++ Json.lineStart 0 ++ [0x7D] ∧
      (m.kernels.keys.map Utf8.encode).Pairwise (· < ·) ∧
      ∀ m' : Manifest, m.toBytes = m'.toBytes ↔
        m.version = m'.version ∧ m.sourcePath = m'.sourcePath ∧
          ∀ name, m.kernels.get? name = m'.kernels.get? name := by
  refine ⟨ofBytes?_toBytes m, toBytes_eq m, ascending_names m, ?_⟩
  intro m'
  rw [toBytes_inj, eq_iff_get?]

end Manifest

end KernelCache
