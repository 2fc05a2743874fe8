/-
**Flags are written in whole lines.**

Flags are collected by definitions and headers, one call after the other.  Each definition is a
line, and each text that is added to the header is ended with a line break, so what is written of
the flags ends with one as well, if it is not empty.

Main definitions:

* `Flags.Call`, `Flags.collect` — the calls that collect flags, and the flags that they give;
* `Text.Lines` — texts that are empty or end with a line break.

Main results:

* `Flags.lines_header_apply`, `Flags.lines_header_collect` — the header after one call and after
  all;
* `Flags.lines_prelude_collect` — **what is written of collected flags**.
-/

import KernelCache.Flags

set_option relaxedAutoImplicit false
set_option autoImplicit false

namespace KernelCache

/-! ### Whole lines -/

namespace Text

/-- A text that is empty or ends with a line break. -/
def Lines (s : List Char) : Prop := ∀ c ∈ s.getLast?, c = '\n'

theorem lines_nil : Lines [] := by simp [Lines]

/-- What ends with a line break is whole lines, whatever stands before. -/
theorem lines_append (s : List Char) {t : List Char} (h : t.getLast? = some '\n') :
    Lines (s ++ t) := by simp [Lines, List.getLast?_append, h]

theorem Lines.append {s t : List Char} (hs : Lines s) (ht : Lines t) : Lines (s ++ t) := by
  intro c hc
  rw [List.getLast?_append] at hc
  cases hlast : t.getLast? with
  | none =>
      rw [hlast] at hc
      exact hs c hc
  | some d =>
      rw [hlast] at hc
      exact ht c (hlast ▸ hc)

theorem lines_withLineBreak (s : List Char) : Lines (Flags.withLineBreak s) := by
  rw [Flags.withLineBreak]
  split
  · next h => exact lines_append [] h
  · exact lines_append s rfl

end Text

namespace Flags

/-- A line break is only added at the end. -/
theorem prefix_withLineBreak (s : List Char) : s <+: withLineBreak s := by
  rw [withLineBreak]
  split
  · exact List.prefix_rfl
  · exact List.prefix_append s _

/-! ### Collecting flags -/

/-- A call that adds to flags. -/
inductive Call where
  | define (name value : String)
  | header (text : String)
  deriving DecidableEq, Repr

/-- The flags after one more call. -/
def Call.apply (f : Flags) : Call → Flags
  | .define name value => f.define name value
  | .header text => f.addHeader text

/-- The flags after some calls. -/
def collect (calls : List Call) : Flags := calls.foldl Call.apply none

/-- A call keeps the header in whole lines. -/
theorem lines_header_apply {f : Flags} (h : Text.Lines f.header.toList) (call : Call) :
    Text.Lines (call.apply f).header.toList := by
  cases call with
  | define name value => exact h
  | header text =>
      rw [Call.apply, addHeader, String.toList_append, String.toList_ofList]
      exact h.append (Text.lines_withLineBreak _)

theorem lines_header_foldl (calls : List Call) {f : Flags} (h : Text.Lines f.header.toList) :
    Text.Lines (calls.foldl Call.apply f).header.toList := by
  induction calls generalizing f with
  | nil => exact h
  | cons call calls ih => exact ih (lines_header_apply h call)

/-- The header of collected flags is whole lines. -/
theorem lines_header_collect (calls : List Call) : Text.Lines (collect calls).header.toList :=
  lines_header_foldl calls Text.lines_nil

theorem lines_defineLine (name value : String) : Text.Lines (defineLine name value).toList := by
  rw [defineLine, String.toList_append]
  exact Text.lines_append _ rfl

theorem lines_join {l : List String} (h : ∀ s ∈ l, Text.Lines s.toList) :
    Text.Lines (String.join l).toList := by
  induction l with
  | nil => exact Text.lines_nil
  | cons s l ih =>
      rw [List.forall_mem_cons] at h
      rw [String.join_cons, String.toList_append]
      exact h.1.append (ih h.2)

/-- **What is written of collected flags is whole lines.** -/
theorem lines_prelude_collect (calls : List Call) : Text.Lines (collect calls).prelude.toList := by
  rw [prelude, String.toList_append]
  refine (lines_join fun line hline => ?_).append (lines_header_collect calls)
  obtain ⟨definition, -, rfl⟩ := List.mem_map.1 hline
  exact lines_defineLine _ _

end Flags

end KernelCache
