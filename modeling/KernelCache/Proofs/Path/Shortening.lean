/-
**Paths as they are shown.**

A path below the directory of entries is shown as what is left of it there, and any other path as it
is.  Paths are compared by their components, so slashes and dots that do not count make no
difference, and a directory whose name only begins like that of the entries is another one.

Main results:

* `Path.ofString_shorten` — what is shown of a path below the directory of entries;
* `Path.not_prefix_of_sibling` — a path is below one directory of a root at most;
* `Store.shorten_path` — how the path of an artifact is shown;
* `Path.shorten_exact` — **what is shown leads from the directory of entries to the path**.
-/

import KernelCache.Proofs.Build.Layout
import KernelCache.Proofs.Path.Below

set_option relaxedAutoImplicit false
set_option autoImplicit false

namespace KernelCache

namespace Path

variable {p root : Path} {name other : String}

/-! ### Shown from above -/

theorem steps_child_ne_nil (h : Plain (Utf8.encode name)) : (p.child name).steps ≠ [] := by
  rw [steps_child h]
  exact List.append_ne_nil_of_right_ne_nil _ (by simp)

theorem shorten_of_not_begins (h : ¬(root.child "kernels").components <+: p.components) :
    p.shorten root = p.display := by
  rw [shorten, within?_of_not_begins h]

theorem shorten_of_begins (h : (root.child "kernels").components <+: p.components) :
    p.shorten root = (p.below (root.child "kernels")).display := by
  rw [shorten, within?_of_begins (steps_child_ne_nil Site.plain_kernels) h]

theorem display_ofString (s : String) : (ofString s).display = s := Utf8.display_encode s

/-- What is shown of a text is what is left of it. -/
theorem ofString_shorten {text : String}
    (h : (root.child "kernels").components <+: (ofString text).components) :
    ofString ((ofString text).shorten root) = (ofString text).below (root.child "kernels") := by
  obtain ⟨rest, hrest⟩ := exists_ofString_below text (root.child "kernels")
  rw [shorten_of_begins h, hrest, display_ofString]

/-- Two directories of one root are the beginning of the same path only if they are the same. -/
theorem not_prefix_of_sibling (h : Plain (Utf8.encode name))
    (ho : Plain (Utf8.encode other)) (hne : name ≠ other)
    (hbegins : (root.child name).components <+: p.components) :
    ¬(root.child other).components <+: p.components := by
  intro hother
  obtain ⟨-, hname⟩ := (components_prefix_iff (steps_child_ne_nil h)).1 hbegins
  obtain ⟨-, hother⟩ := (components_prefix_iff (steps_child_ne_nil ho)).1 hother
  rw [steps_child h] at hname
  rw [steps_child ho] at hother
  have hsteps := List.prefix_of_prefix_length_le hname hother (by simp)
  have hlast : Utf8.encode name = Utf8.encode other := by simpa using hsteps
  exact hne (Utf8.encode_injective hlast)

/-! ### Names below names -/

/-- A name below a name is written with a slash between them. -/
theorem child_ofString (h : Plain (Utf8.encode name)) {text : String}
    (habs : (ofString text).isAbsolute = false) :
    (ofString name).child text = ofString (name ++ "/" ++ text) := by
  have hslash : Utf8.encode "/" = [slash] := by decide
  refine congrArg mk (?_ : ((ofString name).child text).bytes = _)
  rw [child, (Stem.ofString h).bytes_join habs]
  simp [ofString, Utf8.encode_append, hslash]

/-- A name below a name is settled. -/
theorem settled_child (h : Plain (Utf8.encode name)) (ho : Plain (Utf8.encode other)) :
    ((ofString name).child other).settled = (ofString name).child other := by
  have hpieces : ((ofString name).child other).pieces = [Utf8.encode name, Utf8.encode other] := by
    rw [child, (Stem.ofString h).pieces_join (isAbsolute_ofString ho)]
    exact congrArg₂ (· ++ ·) h.pieces ho.pieces
  have hfirst : ((ofString name).child other).pieces.dropWhile (!counts ·) =
      ((ofString name).child other).pieces := by
    rw [hpieces]
    exact List.dropWhile_cons_of_neg (by simp [h.counts])
  rw [settled, hfirst, trimPieces_of_counts (getLast?_pieces_child ho) ho.counts, ofPieces_pieces]

end Path

namespace Store

open KernelCache.Path

/-! ### Artifacts -/

theorem isAbsolute_fileName (s : Store) (k : Artifact) :
    (ofString (s.fileName k)).isAbsolute = false := by
  cases k with
  | source =>
      have hbytes : Utf8.encode (s.fileName .source) =
          Utf8.encode "source." ++ Utf8.encode s.extension := Utf8.encode_append _ _
      have hstart : (Utf8.encode "source.").head? = some 0x73 := by decide
      rw [isAbsolute, ofString, hbytes, List.head?_append, hstart]
      rfl
  | manifest => exact isAbsolute_ofString Site.plain_manifest
  | binary => exact isAbsolute_ofString Site.plain_binary

theorem child_toText (s : Store) (d : Digest) (k : Artifact) :
    (ofString d.toText).child (s.fileName k) = ofString (d.toText ++ "/" ++ s.fileName k) :=
  child_ofString (plain_toText d) (s.isAbsolute_fileName k)

/-- The path of an artifact leads down from the directory of entries by two names. -/
theorem path_eq_join (s : Store) (d : Digest) (k : Artifact) :
    s.path d k =
      (s.root.child "kernels").join (ofString (d.toText ++ "/" ++ s.fileName k)) := by
  rw [path, entryDir, ← child_toText]
  exact (Stem.child s.root Site.plain_kernels).join_join (Stem.ofString (plain_toText d))
    (isAbsolute_ofString (plain_toText d)) (s.isAbsolute_fileName k)

/-- **How the path of an artifact is shown.** -/
theorem shorten_path (s : Store) (d : Digest) (k : Artifact) :
    (s.path d k).shorten s.root =
      (ofString (d.toText ++ "/" ++ s.fileName k)).settled.display := by
  have hdir := Stem.child s.root Site.plain_kernels
  have habs : (ofString (d.toText ++ "/" ++ s.fileName k)).isAbsolute = false := by
    rw [← child_toText]
    exact ((Stem.ofString (plain_toText d)).isAbsolute_join (s.isAbsolute_fileName k)).trans
      (isAbsolute_ofString (plain_toText d))
  have hbegins : (s.root.child "kernels").components <+: (s.path d k).components := by
    rw [path_eq_join, hdir.components_join habs]
    exact List.prefix_append _ _
  rw [shorten_of_begins hbegins, path_eq_join, hdir.below_join habs]

theorem shorten_path_of_noSlash {s : Store} (h : '/' ∉ s.extension.toList) (d : Digest)
    (k : Artifact) : (s.path d k).shorten s.root = d.toText ++ "/" ++ s.fileName k := by
  rw [shorten_path, ← child_toText, settled_child (plain_toText d) (s.plain_fileName h k),
    child_toText, display_ofString]

end Store

namespace Path

/-- **What is shown of a path leads from the directory of entries to the path.**  A path that does
not begin with the components of that directory is shown as it is, one in a directory beside it
among them, and an artifact is shown by the digest of its entry and its name. -/
theorem shorten_exact (root : Path) (text : String) :
    let dir := root.child "kernels"
    let shown := (ofString text).shorten root
    (dir.components <+: (ofString text).components →
        (ofString text).components = dir.components ++ (ofString shown).components ∧
          (dir.join (ofString shown)).components = (ofString text).components) ∧
      (¬dir.components <+: (ofString text).components → shown = text) ∧
      (∀ name, Plain (Utf8.encode name) → name ≠ "kernels" →
        (root.child name).components <+: (ofString text).components → shown = text) ∧
      ∀ (extension : String) (d : Digest) (k : Artifact),
        let s : Store := ⟨root, extension⟩
        (s.path d k).shorten root =
            (ofString (d.toText ++ "/" ++ s.fileName k)).settled.display ∧
          ('/' ∉ extension.toList →
            (s.path d k).shorten root = d.toText ++ "/" ++ s.fileName k) := by
  intro dir shown
  have hsteps : dir.steps ≠ [] := steps_child_ne_nil Site.plain_kernels
  have houtside (h : ¬dir.components <+: (ofString text).components) : shown = text :=
    (shorten_of_not_begins h).trans (display_ofString text)
  refine ⟨fun h => ?_, houtside, fun name hname hne h => ?_, fun extension d k => ?_⟩
  · have hshown : ofString shown = (ofString text).below dir := ofString_shorten h
    rw [hshown]
    exact ⟨components_of_begins hsteps h,
      (Stem.child root Site.plain_kernels).components_join_below hsteps h⟩
  · exact houtside (not_prefix_of_sibling hname Site.plain_kernels hne h)
  · exact ⟨Store.shorten_path ⟨root, extension⟩ d k, fun h =>
      Store.shorten_path_of_noSlash (s := ⟨root, extension⟩) h d k⟩

/-- A binary is shown from the directory of entries, however its path is written, and a file in the
directory beside it with its whole path. -/
theorem binary_shown :
    let root := ofString "/c/"
    let binary := "/c//kernels/./ab/binary/"
    (root.child "kernels").components <+: (ofString binary).components ∧
      (ofString binary).shorten root = "ab/binary" ∧
      ((root.child "kernels").join (ofString ((ofString binary).shorten root))).components =
        (ofString binary).components ∧
      (root.child "kernels2").components <+: (ofString "/c/kernels2/ab").components ∧
      (ofString "/c/kernels2/ab").shorten root = "/c/kernels2/ab" := by
  intro root binary
  have hbinary : (root.child "kernels").components <+: (ofString binary).components := by decide
  have hbeside : (root.child "kernels2").components <+: (ofString "/c/kernels2/ab").components := by
    decide
  obtain ⟨-, hjoin⟩ := (shorten_exact root binary).1 hbinary
  have hplain : Plain (Utf8.encode "kernels2") := plain_of_length (by decide) (by decide)
  exact ⟨hbinary, by decide, hjoin, hbeside,
    (shorten_exact root "/c/kernels2/ab").2.2.1 "kernels2" hplain (by decide) hbeside⟩

end Path

end KernelCache
