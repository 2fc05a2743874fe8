/-
**Which translations keep a marker.**

A translated source has two parts that come from its source.  In the text before the wrappers every
marker is replaced, and the macro in its place has no character of a marker, so none comes back
there.  The wrappers write the types of parameters as they were read, and what stands inside a
parameter list was passed over by the scan: a marker in a type is one in the wrapper.

Main results:

* `Declaration.infix_append_of_unmarked`, `Declaration.infix_append_of_lines` — where a marker
  stands in joined texts;
* `Translation.infix_body_iff` — the text before the wrappers;
* `Declaration.infix_wrapper_iff` — the wrapper of a kernel;
* `marker_survives_iff` — **a translation keeps a marker exactly if the flags or the type of a
  parameter have one**;
* `MarkedParameter.marker_in_parameters_survives` — and there are such types.
-/

import KernelCache.Proofs.Flags
import KernelCache.Proofs.Kernel.Wrapper
import KernelCache.Proofs.Text.Replace

set_option relaxedAutoImplicit false
set_option autoImplicit false

namespace KernelCache

namespace Declaration

/-! ### Markers in joined texts -/

theorem notMem_marker_of_all {s : List Char} (h : s.all (!marker.contains ·) = true) :
    ∀ c ∈ s, c ∉ marker := by simpa using h

theorem not_infix_of_notMem {s : List Char} (h : '@' ∉ s) : ¬marker <:+: s := fun hin =>
  h (hin.subset (by decide))

/-- In a text without its first character no marker begins. -/
theorem not_straddles_of_unmarked {x : List Char} (hx : '@' ∉ x) (y : List Char) :
    ¬Text.Straddles marker x y :=
  Text.not_straddles_of_notMem (fun c hc => by
    obtain rfl : '@' = c := Option.some.inj hc
    exact hx) y

theorem infix_append_of_unmarked {x : List Char} (hx : '@' ∉ x) {y : List Char} :
    marker <:+: x ++ y ↔ marker <:+: y := by
  simp [Text.infix_append_iff, not_infix_of_notMem hx, not_straddles_of_unmarked hx y]

/-- No marker goes over the end of a line. -/
theorem infix_append_of_lines {x : List Char} (hx : Text.Lines x) {y : List Char} :
    marker <:+: x ++ y ↔ marker <:+: x ∨ marker <:+: y := by
  have hjoin : ¬Text.Straddles marker x y := Text.not_straddles_of_getLast? (fun c hc => by
    rw [hx c hc]
    decide) y
  simp [Text.infix_append_iff, hjoin]

/-- No marker goes over one of the characters that are not in it. -/
theorem infix_append_of_border {x y : List Char} {c : Char} (hc : c ∉ marker) :
    marker <:+: x ++ c :: y ↔ marker <:+: x ∨ marker <:+: y :=
  Text.infix_append_cons_iff unbordered_marker.ne_nil hc

/-- A marker in a text that others frame is one in the text itself. -/
theorem infix_framed_iff {x s y : List Char} {c : Char} (hx : '@' ∉ x) (hc : c ∉ marker)
    (hy : '@' ∉ y) : marker <:+: x ++ (s ++ c :: y) ↔ marker <:+: s := by
  rw [infix_append_of_unmarked hx, infix_append_of_border hc]
  simp [not_infix_of_notMem hy]

end Declaration

/-! ### The text before the wrappers -/

namespace Translation

theorem at_notMem_prelude (b : Backend) : '@' ∉ (prelude b).toList := by
  have hmode : '@' ∉ (modeMacro b).toList := by cases b <;> decide
  unfold prelude
  simp only [String.toList_append, List.mem_append, not_or, hmode]
  decide

/-- What the macro puts in the place of a marker has none of its characters. -/
theorem notMem_marker_of_mem_kernelMacro : ∀ c ∈ kernelMacro, c ∉ Declaration.marker :=
  Declaration.notMem_marker_of_all (by decide)

theorem infix_withLineBreak_iff (s : List Char) :
    Declaration.marker <:+: Flags.withLineBreak s ↔ Declaration.marker <:+: s := by
  rw [Flags.withLineBreak]
  split
  · rfl
  · rw [Declaration.infix_append_of_border (by decide)]
    simp [Declaration.unbordered_marker.ne_nil]

/-- **Before the wrappers only the flags can have a marker.** -/
theorem infix_body_iff (b : Backend) {flags : Flags} (hflags : Text.Lines flags.prelude.toList)
    (source : String) :
    Declaration.marker <:+: body b flags source ↔
      Declaration.marker <:+: flags.prelude.toList := by
  have hsource : ¬Declaration.marker <:+:
      Text.replace Declaration.marker kernelMacro source.toList :=
    Text.not_infix_replace Declaration.unbordered_marker (by decide)
      notMem_marker_of_mem_kernelMacro _
  rw [body, infix_withLineBreak_iff, String.toList_append, List.append_assoc,
    Declaration.infix_append_of_unmarked (at_notMem_prelude b),
    Declaration.infix_append_of_lines hflags]
  simp only [hsource, or_false]

end Translation

/-! ### Wrappers -/

/-- **What is passed for a slot has a marker if the type of its argument has one.** -/
theorem Argument.infix_fromSlot_iff (a : Argument) (slot : Nat) :
    Declaration.marker <:+: (a.fromSlot slot).toList ↔
      Declaration.marker <:+: a.type.toList := by
  have hslot : '@' ∉ "args[".toList ++ ((Decimal.text slot).toList ++ [']']) := by
    have hdigits : '@' ∉ (Decimal.text slot).toList := fun hmem =>
      absurd (Decimal.isDigit_of_mem_text hmem) (by decide)
    simp [hdigits]
  generalize hread : "args[".toList ++ ((Decimal.text slot).toList ++ [']']) = read at hslot
  rw [fromSlot_eq, hread, cast]
  cases a.kind with
  | pointer =>
      have htext : ("(" ++ a.type ++ ") ").toList ++ read =
          "(".toList ++ (a.type.toList ++ ')' :: (" ".toList ++ read)) := by simp
      dsimp only
      rw [htext, Declaration.infix_framed_iff (by decide) (by decide) (by simp [hslot])]
  | scalar =>
      have htext : ("*(" ++ a.type ++ " *) ").toList ++ read =
          "*(".toList ++ (a.type.toList ++ ' ' :: ("*) ".toList ++ read)) := by simp
      dsimp only
      rw [htext, Declaration.infix_framed_iff (by decide) (by decide) (by simp [hslot])]

namespace Declaration

theorem infix_intercalate_iff (l : List String) :
    marker <:+: (", ".intercalate l).toList ↔ ∃ s ∈ l, marker <:+: s.toList := by
  induction l with
  | nil => simp [unbordered_marker.ne_nil]
  | cons s l ih =>
      by_cases hl : l = []
      · subst hl
        simp
      · have hborder : ∀ c ∈ ", ".toList, c ∉ marker := notMem_marker_of_all (by decide)
        rw [String.intercalate_cons_of_ne_nil hl, String.toList_append, String.toList_append,
          Text.infix_border_iff unbordered_marker.ne_nil (by decide) hborder, ih]
        simp

/-- **A wrapper has a marker if the type of a parameter has one.** -/
theorem infix_wrapper_iff {d : Declaration} (h : d.Plain) :
    marker <:+: d.wrapper.toList ↔ ∃ a ∈ d.arguments, marker <:+: a.type.toList := by
  have htext : d.wrapper.toList = d.toWrapper.head.toList ++
      ((", ".intercalate d.slots).toList ++ ')' :: ";\n\x7d\n".toList) := by
    rw [wrapper_eq, Wrapper.text]
    simp [toWrapper]
  have hslots : (∃ s ∈ d.slots, marker <:+: s.toList) ↔
      ∃ a ∈ d.arguments, marker <:+: a.type.toList := by
    constructor
    · rintro ⟨s, hs, hin⟩
      obtain ⟨slot, hslot, rfl⟩ := List.mem_mapIdx.1 hs
      exact ⟨_, List.getElem_mem hslot, (Argument.infix_fromSlot_iff _ slot).1 hin⟩
    · rintro ⟨a, ha, hin⟩
      obtain ⟨slot, hslot, rfl⟩ := List.getElem_of_mem ha
      exact ⟨_, List.mem_mapIdx.2 ⟨slot, hslot, rfl⟩, (Argument.infix_fromSlot_iff _ slot).2 hin⟩
  rw [htext, infix_framed_iff (notMem_head h (by decide)) (by decide) (by decide),
    infix_intercalate_iff, hslots]

theorem lines_wrapper (d : Declaration) : Text.Lines d.wrapper.toList := by
  unfold wrapper
  rw [String.toList_append]
  exact Text.lines_append _ (by decide)

theorem infix_wrappers_iff {ds : List Declaration} (h : ∀ d ∈ ds, d.Plain) :
    marker <:+: (String.join (ds.map wrapper)).toList ↔
      ∃ d ∈ ds, ∃ a ∈ d.arguments, marker <:+: a.type.toList := by
  induction ds with
  | nil => simp [unbordered_marker.ne_nil]
  | cons d ds ih =>
      rw [List.forall_mem_cons] at h
      rw [List.map_cons, String.join_cons, String.toList_append,
        infix_append_of_lines d.lines_wrapper, infix_wrapper_iff h.1, ih h.2]
      simp

end Declaration

/-- **The text of a translation has a marker if the flags or the type of a parameter have one.** -/
theorem Translation.infix_text_iff (b : Backend) {flags : Flags}
    (hflags : Text.Lines flags.prelude.toList) (source : String) {ds : List Declaration}
    (hds : ∀ d ∈ ds, d.Plain) :
    Declaration.marker <:+: (text b flags source ds).toList ↔
      Declaration.marker <:+: flags.prelude.toList ∨
        ∃ d ∈ ds, ∃ a ∈ d.arguments, Declaration.marker <:+: a.type.toList := by
  have hbody : Text.Lines (body b flags source) := Text.lines_withLineBreak _
  rw [text, String.toList_append, String.toList_ofList, Declaration.infix_append_of_lines hbody,
    infix_body_iff b hflags, Declaration.infix_wrappers_iff hds]

/-- **Which translations keep a marker.**  Whatever the flags and the source are, a translation has
a marker exactly if the flags have one, or the type of a parameter of one of its kernels, as it was
read from inside a parameter list.  In the text before the wrappers there is none but those of the
flags. -/
theorem marker_survives_iff {r : TranslationRequest} {t : Translation} (ht : translate r = .ok t)
    {calls : List Flags.Call} (hflags : r.flags = Flags.collect calls) :
    ∃ ds, Declaration.scan r.source.toList = .ok ds ∧
      (Declaration.marker <:+: Translation.body r.backend r.flags r.source ↔
        Declaration.marker <:+: r.flags.prelude.toList) ∧
      (Declaration.marker <:+: t.source.toList ↔
        Declaration.marker <:+: r.flags.prelude.toList ∨
          ∃ d ∈ ds, ∃ a ∈ d.arguments, Declaration.marker <:+: a.type.toList) := by
  have hlines : Text.Lines r.flags.prelude.toList := hflags ▸ Flags.lines_prelude_collect calls
  obtain ⟨ds, hds, rfl⟩ := exists_scan_of_translate ht
  exact ⟨ds, hds, Translation.infix_body_iff _ hlines _,
    Translation.infix_text_iff _ hlines _ (Declaration.plain_of_scanFrom hds)⟩

namespace SplitMarker

/-- Half a marker at the end of the flags and the other half at the start of the source. -/
def request : TranslationRequest where
  source := "nel; @kernel void f(int n) \x7b \x7d"
  path := ⟨Utf8.encode "k.c"⟩
  backend := .serial
  language := .c
  function := "f"
  flags := Flags.collect [.define "N" "4", .header "@ker"]

/-- The two halves do not meet. -/
theorem unmarked_text : ∃ t, translate request = .ok t ∧
    request.flags.prelude = "#define N 4\n@ker\n" ∧ ¬Declaration.marker <:+: t.source.toList := by
  have hds : Declaration.scan request.source.toList = .ok [⟨"f", [⟨"n", "int", .scalar⟩]⟩] :=
    Declaration.scan_single 1 " \x7b \x7d".toList rfl (by decide)
  have hprelude : request.flags.prelude = "#define N 4\n@ker\n" := rfl
  have ht := translate_eq_ok_iff.2 ⟨rfl, congrArg (Except.map _) hds, by decide⟩
  obtain ⟨ds, hds', -, hmarker⟩ := marker_survives_iff ht rfl
  obtain rfl := Except.ok.inj (hds.symm.trans hds')
  refine ⟨_, ht, hprelude, fun hin => ?_⟩
  have hnone : ¬(Declaration.marker <:+: "#define N 4\n@ker\n".toList ∨
      Declaration.marker <:+: "int".toList) := by decide
  rw [hmarker, hprelude] at hin
  exact hnone (by simpa using hin)

end SplitMarker

namespace MarkedParameter

/-- A kernel with a marker in the type of its parameter. -/
def request : TranslationRequest where
  source := "@kernel void f(@kernel int n) \x7b \x7d"
  path := ⟨Utf8.encode "k.c"⟩
  backend := .serial
  language := .c
  function := "f"
  flags := Flags.none

/-- Without a marker in the flags, a translation keeps the one that stands in a parameter. -/
theorem marker_in_parameters_survives : ∃ t, translate request = .ok t ∧
    ¬Declaration.marker <:+: request.flags.prelude.toList ∧
      Declaration.marker <:+: t.source.toList := by
  have hds : Declaration.scan request.source.toList =
      .ok [⟨"f", [⟨"n", "@kernel int", .scalar⟩]⟩] :=
    Declaration.scan_single 1 " \x7b \x7d".toList rfl (by decide)
  have ht := translate_eq_ok_iff.2 ⟨rfl, congrArg (Except.map _) hds, by decide⟩
  have hlines : Text.Lines request.flags.prelude.toList := Flags.lines_prelude_collect []
  refine ⟨_, ht, by decide, ?_⟩
  rw [Translation.infix_text_iff _ hlines _ (Declaration.plain_of_scanFrom hds)]
  exact Or.inr ⟨_, List.mem_singleton_self _, _, List.mem_singleton_self _, by decide⟩

end MarkedParameter

end KernelCache
