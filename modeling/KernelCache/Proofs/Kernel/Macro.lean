/-
**Which markers become macros that stand alone.**

The signature of a kernel is checked on the words between its marker and its parameter list, and the
marker is replaced in the text.  Between the words there are blanks, so the result type and the name
stay apart, but nothing asks for a blank after the marker, or for any border before it.  A letter,
a digit or an underscore that stands there joins with the macro to one name.

Main definitions:

* `StandsAlone` — no character of a name stands directly before or after;
* `Declaration.Heading` — what stands between a marker and a parameter list;
* `Declaration.Place` — **where the marker of a kernel stands in a source**.

Main results:

* `Declaration.Reads.exists_opening`, `Declaration.nonempty_place` — every kernel has a place;
* `Translation.exists_text_eq` — what a translation makes of the text around a marker;
* `macro_stands_alone_iff` — **a macro stands alone exactly if the marker has a border before it and
  a blank after it**;
* `FusedMarker.macro_fused` — and some do not.
-/

import KernelCache.Proofs.Kernel.Declaration
import KernelCache.Proofs.Kernel.Marker

set_option relaxedAutoImplicit false
set_option autoImplicit false

namespace KernelCache

/-- No character of a name stands directly before or after. -/
structure StandsAlone (left right : List Char) : Prop where
  before : ∀ c ∈ left.getLast?, isNameChar c = false
  after : ∀ c ∈ right.head?, isNameChar c = false

namespace Declaration

/-! ### Headings -/

/-- What stands between a marker and a parameter list: the result type and a name, with blanks
between them and perhaps around them. -/
structure Heading where
  gap : List Char
  between : List Char
  name : List Char
  last : List Char
  blank_gap : Text.Blank gap
  blank_between : Text.Blank between
  between_ne_nil : between ≠ []
  blank_last : Text.Blank last
  identifier : isIdentifier name = true

namespace Heading

/-- The text of a heading. -/
def text (h : Heading) : List Char := h.gap ++ "void".toList ++ h.between ++ h.name ++ h.last

variable (h : Heading)

/-- A heading has only blanks and characters of names. -/
theorem notMem_text {c : Char} (hblank : Text.isBlank c = false) (hname : isNameChar c = false) :
    c ∉ h.text := by
  have hspace : ∀ b : List Char, Text.Blank b → c ∉ b := fun b hb hmem =>
    Bool.false_ne_true (hblank.symm.trans (hb c hmem))
  have hvoid : c ∉ "void".toList := not_mem_of_identifier (by decide) hname
  have hident : c ∉ h.name := not_mem_of_identifier h.identifier hname
  simp only [text, List.mem_append, not_or]
  exact ⟨⟨⟨⟨hspace _ h.blank_gap, hvoid⟩, hspace _ h.blank_between⟩, hident⟩,
    hspace _ h.blank_last⟩

/-- A heading begins with a character of a name unless it begins with a blank. -/
theorem head_text_iff (rest : List Char) :
    (∀ c ∈ (h.text ++ rest).head?, isNameChar c = false) ↔ h.gap ≠ [] := by
  rw [text]
  cases hgap : h.gap with
  | nil => simp [isNameChar, isLetter]
  | cons c gap =>
      have hblank : Text.isBlank c = true := h.blank_gap c (by simp [hgap])
      have hname : isNameChar c = false := Bool.eq_false_iff.2 fun hc => by
        simp [isBlank_of_isNameChar hc] at hblank
      simp [hname]

end Heading

/-- What stands before the parameter list of a kernel is a heading. -/
theorem Opening.exists_heading {s : List Char} (k : Opening s) :
    ∃ h : Heading, h.text = k.head ∧ h.name = k.name := by
  obtain ⟨gap, between, last, hgap, hbetween, hne, hlast, htext⟩ :=
    Text.exists_of_words_pair k.words_head
  exact ⟨⟨gap, between, k.name, last, hgap, hbetween, hne, hlast, k.identifier⟩, htext.symm, rfl⟩

/-! ### Places -/

/-- Each kernel that is read is the first of what is left of the text behind the earlier ones. -/
theorem Reads.exists_opening {s : List Char} {earlier later : List Declaration} {d : Declaration}
    (h : Reads s (earlier ++ d :: later)) :
    ∃ (passed s' : List Char) (k : Opening s'), s = passed ++ s' ∧
      d.name = String.ofList k.name ∧ Reads (passed ++ k.before) earlier := by
  induction earlier generalizing s with
  | nil =>
      cases h with
      | kernel k hlist hrest =>
          have hbefore := Text.not_infix_of_cut? unbordered_marker.ne_nil k.cut_marker
          exact ⟨[], s, k, rfl, rfl, .done hbefore⟩
  | cons e earlier ih =>
      cases h with
      | kernel k hlist hrest =>
          obtain ⟨passed, s', k', hs', hname, hreads⟩ := ih hrest
          refine ⟨k.passed ++ ')' :: passed, s', k', ?_, hname, ?_⟩
          · rw [List.append_assoc, List.cons_append, ← hs', k.passed_append]
          · rw [List.append_assoc, List.cons_append]
            exact .kernel (k.withRest (passed ++ k'.before)) hlist hreads

/-- **Where the marker of a kernel stands in a source**: behind the earlier kernels and the text
that follows them, and before its heading. -/
structure Place (source : List Char) (earlier : List Declaration) (d : Declaration) where
  before : List Char
  heading : Heading
  after : List Char
  source_eq : source = before ++ marker ++ (heading.text ++ '(' :: after)
  scan_before : scan before = .ok earlier
  name_eq : d.name = String.ofList heading.name

/-- Every kernel of a source has a place in it. -/
theorem nonempty_place {source : List Char} {earlier later : List Declaration} {d : Declaration}
    (h : scan source = .ok (earlier ++ d :: later)) : Nonempty (Place source earlier d) := by
  obtain ⟨passed, s', k, rfl, hname, hreads⟩ := (scanFrom_eq_ok_iff.1 h).exists_opening
  obtain ⟨heading, htext, hheading⟩ := k.exists_heading
  have hopen : k.after = heading.text ++ '(' :: k.body := by
    rw [Text.cut?_eq k.cut_opening, htext, List.append_assoc, List.singleton_append]
  have hmarker : s' = k.before ++ marker ++ (heading.text ++ '(' :: k.body) := by
    rw [← hopen]
    exact Text.cut?_eq k.cut_marker
  exact ⟨passed ++ k.before, heading, k.body,
    (congrArg (passed ++ ·) hmarker).trans (by simp only [List.append_assoc]),
    scanFrom_eq_ok_iff.2 hreads, hheading ▸ hname⟩

end Declaration

/-! ### The text around a marker -/

namespace Translation

/-- What a translation has before the macro of a marker that stands behind a part of the source. -/
def lead (b : Backend) (flags : Flags) (before : List Char) : List Char :=
  (prelude b ++ flags.prelude).toList ++ Text.replace Declaration.marker kernelMacro before

/-- **What a translation makes of the text around a marker.** -/
theorem exists_text_eq (b : Backend) (flags : Flags) {source : String} {before after : List Char}
    (hsource : source.toList = before ++ Declaration.marker ++ after) (ds : List Declaration) :
    ∃ last, (text b flags source ds).toList = lead b flags before ++ kernelMacro ++
      (Text.replace Declaration.marker kernelMacro after ++ last) := by
  have hjoin := Declaration.unbordered_marker.not_straddles before after
  have hreplace : Text.replace Declaration.marker kernelMacro source.toList =
      Text.replace Declaration.marker kernelMacro before ++
        (kernelMacro ++ Text.replace Declaration.marker kernelMacro after) := by
    rw [hsource, List.append_assoc, Text.replace_append Declaration.unbordered_marker hjoin,
      Text.replace_self Declaration.unbordered_marker.ne_nil]
  obtain ⟨lineBreak, hbody⟩ := Flags.prefix_withLineBreak ((prelude b ++ flags.prelude).toList ++
    Text.replace Declaration.marker kernelMacro source.toList)
  refine ⟨lineBreak ++ (String.join (ds.map Declaration.wrapper)).toList, ?_⟩
  rw [text, String.toList_append, String.toList_ofList, body, ← hbody, hreplace, lead]
  simp only [List.append_assoc]

theorem lines_prelude (b : Backend) : Text.Lines (prelude b).toList := by
  unfold prelude
  rw [String.toList_append]
  exact Text.lines_append _ (by decide)

/-- Whether a name goes on before a macro depends on the source only. -/
theorem last_lead_iff (b : Backend) {flags : Flags} (hflags : Text.Lines flags.prelude.toList)
    (before : List Char) : (∀ c ∈ (lead b flags before).getLast?, isNameChar c = false) ↔
      ∀ c ∈ before.getLast?, isNameChar c = false := by
  have hlines : Text.Lines (prelude b ++ flags.prelude).toList := by
    rw [String.toList_append]
    exact (lines_prelude b).append hflags
  have hclass : kernelMacro.getLast?.map isNameChar =
      Declaration.marker.getLast?.map isNameChar := by decide
  have hlast := Text.getLast?_replace Declaration.unbordered_marker hclass before
  rw [lead, List.getLast?_append]
  generalize Text.replace Declaration.marker kernelMacro before = replaced at hlast
  generalize (prelude b ++ flags.prelude).toList = written at hlines
  cases hbefore : before.getLast? with
  | none =>
      rw [hbefore] at hlast
      have hnone : replaced.getLast? = none := by simpa using hlast
      have hwritten : ∀ c ∈ written.getLast?, isNameChar c = false := fun c hc => by
        rw [hlines c hc]
        decide
      simpa [hnone] using hwritten
  | some c =>
      rw [hbefore] at hlast
      obtain ⟨d, hd, hsame⟩ := Option.map_eq_some_iff.1 hlast
      simp [hd, hsame]

end Translation

namespace Declaration.Place

variable {source : String} {earlier : List Declaration} {d : Declaration}
  (p : Place source.toList earlier d)

/-- **The heading of a kernel follows its macro as it was read.** -/
theorem exists_text_eq (b : Backend) (flags : Flags) (ds : List Declaration) :
    ∃ right, (Translation.text b flags source ds).toList = Translation.lead b flags p.before ++
      Translation.kernelMacro ++ (p.heading.text ++ '(' :: right) := by
  obtain ⟨last, htext⟩ := Translation.exists_text_eq b flags p.source_eq ds
  have hopening : '@' ∉ p.heading.text ++ ['('] := by
    simpa using p.heading.notMem_text (c := '@') (by decide) (by decide)
  have hheading : Text.replace marker Translation.kernelMacro (p.heading.text ++ '(' :: p.after) =
      p.heading.text ++ '(' :: Text.replace marker Translation.kernelMacro p.after := by
    simpa using Text.replace_append_of_absent (not_infix_of_notMem hopening)
      (not_straddles_of_unmarked hopening p.after) Translation.kernelMacro
  refine ⟨Text.replace marker Translation.kernelMacro p.after ++ last, ?_⟩
  rw [htext, hheading, List.append_assoc p.heading.text, List.cons_append]

/-- **A macro stands alone between a border and a blank.** -/
theorem standsAlone_iff (b : Backend) {flags : Flags} (hflags : Text.Lines flags.prelude.toList)
    (right : List Char) :
    StandsAlone (Translation.lead b flags p.before) (p.heading.text ++ '(' :: right) ↔
      (∀ c ∈ p.before.getLast?, isNameChar c = false) ∧ p.heading.gap ≠ [] := by
  rw [← Translation.last_lead_iff b hflags, ← p.heading.head_text_iff]
  exact ⟨fun h => ⟨h.before, h.after⟩, fun h => ⟨h.1, h.2⟩⟩

end Declaration.Place

/-- **When a macro stands alone.**  In a translation the macro of a kernel follows what becomes of
the text before the marker, and the heading of the kernel follows the macro as it was read.  No
character of a name stands directly before or after the macro exactly if none stands before the
marker and a blank stands after it. -/
theorem macro_stands_alone_iff {r : TranslationRequest} {t : Translation} (ht : translate r = .ok t)
    {calls : List Flags.Call} (hflags : r.flags = Flags.collect calls) :
    ∃ ds, Declaration.scan r.source.toList = .ok ds ∧
      t.kernels = Translation.table r.backend ds ∧
      ∀ earlier d later, ds = earlier ++ d :: later →
        Nonempty (Declaration.Place r.source.toList earlier d) ∧
        ∀ p : Declaration.Place r.source.toList earlier d, ∃ right,
          t.source.toList = Translation.lead r.backend r.flags p.before ++
            Translation.kernelMacro ++ (p.heading.text ++ '(' :: right) ∧
          (StandsAlone (Translation.lead r.backend r.flags p.before)
              (p.heading.text ++ '(' :: right) ↔
            (∀ c ∈ p.before.getLast?, isNameChar c = false) ∧ p.heading.gap ≠ []) := by
  have hlines : Text.Lines r.flags.prelude.toList := hflags ▸ Flags.lines_prelude_collect calls
  obtain ⟨ds, hds, rfl⟩ := exists_scan_of_translate ht
  refine ⟨ds, hds, rfl, ?_⟩
  rintro earlier d later rfl
  refine ⟨Declaration.nonempty_place hds, fun p => ?_⟩
  obtain ⟨right, hright⟩ := p.exists_text_eq r.backend r.flags (earlier ++ d :: later)
  exact ⟨right, hright, p.standsAlone_iff r.backend hlines right⟩

namespace SecondLine

/-- A kernel on the second line of a source. -/
def request : TranslationRequest where
  source := "int m;\n@kernel void f(int n) \x7b \x7d"
  path := ⟨Utf8.encode "k.c"⟩
  backend := .serial
  language := .c
  function := "f"
  flags := Flags.collect [.header "int l;"]

/-- The kernel of the source. -/
def kernel : Declaration := ⟨"f", [⟨"n", "int", .scalar⟩]⟩

/-- Where the kernel stands. -/
def place : Declaration.Place request.source.toList [] kernel where
  before := "int m;\n".toList
  heading :=
    { gap := [' ']
      between := [' ']
      name := ['f']
      last := []
      blank_gap := by decide
      blank_between := by decide
      between_ne_nil := by decide
      blank_last := Text.blank_nil
      identifier := by decide }
  after := "int n) \x7b \x7d".toList
  source_eq := by decide
  scan_before := Declaration.scanFrom_eq_ok_iff.2 (.done (by decide))
  name_eq := by decide

/-- The macro stands alone behind the line break. -/
theorem macro_alone : ∃ t right, translate request = .ok t ∧
    t.source.toList = Translation.lead .serial request.flags "int m;\n".toList ++
      Translation.kernelMacro ++ (" void f".toList ++ '(' :: right) ∧
    StandsAlone (Translation.lead .serial request.flags "int m;\n".toList)
      (" void f".toList ++ '(' :: right) := by
  have hds : Declaration.scan request.source.toList = .ok [kernel] :=
    Declaration.scan_single 2 " \x7b \x7d".toList rfl (by decide)
  have ht := translate_eq_ok_iff.2 ⟨rfl, congrArg (Except.map _) hds, by decide⟩
  obtain ⟨ds, hds', -, hplaces⟩ := macro_stands_alone_iff ht rfl
  obtain rfl := Except.ok.inj (hds.symm.trans hds')
  obtain ⟨right, htext, halone⟩ := (hplaces [] kernel [] rfl).2 place
  have hborder : ∀ c ∈ place.before.getLast?, isNameChar c = false := fun c hc => by
    obtain rfl : '\n' = c := Option.some.inj hc
    decide
  exact ⟨_, right, ht, htext, halone.2 ⟨hborder, by decide⟩⟩

end SecondLine

namespace FusedMarker

/-- A kernel whose result type follows the marker directly. -/
def request : TranslationRequest where
  source := "@kernelvoid f(int n) \x7b \x7d"
  path := ⟨Utf8.encode "k.c"⟩
  backend := .serial
  language := .c
  function := "f"
  flags := Flags.none

/-- The kernel of the source. -/
def kernel : Declaration := ⟨"f", [⟨"n", "int", .scalar⟩]⟩

/-- Where the kernel stands. -/
def place : Declaration.Place request.source.toList [] kernel where
  before := []
  heading :=
    { gap := []
      between := [' ']
      name := ['f']
      last := []
      blank_gap := Text.blank_nil
      blank_between := by decide
      between_ne_nil := by decide
      blank_last := Text.blank_nil
      identifier := by decide }
  after := "int n) \x7b \x7d".toList
  source_eq := by decide
  scan_before := Declaration.scanFrom_eq_ok_iff.2 (.done (by decide))
  name_eq := by decide

/-- The source is translated, and its macro and the result type are one name. -/
theorem macro_fused : ∃ t right, translate request = .ok t ∧
    t.source.toList = Translation.lead .serial request.flags [] ++ Translation.kernelMacro ++
      ("void f".toList ++ '(' :: right) ∧
    ¬StandsAlone (Translation.lead .serial request.flags [])
      ("void f".toList ++ '(' :: right) := by
  have hds : Declaration.scan request.source.toList = .ok [kernel] :=
    Declaration.scan_single 1 " \x7b \x7d".toList rfl (by decide)
  have hlines : Text.Lines request.flags.prelude.toList := Flags.lines_prelude_collect []
  have ht := translate_eq_ok_iff.2 ⟨rfl, congrArg (Except.map _) hds, by decide⟩
  obtain ⟨right, htext⟩ := place.exists_text_eq .serial request.flags [kernel]
  exact ⟨_, right, ht, htext, fun halone =>
    ((place.standsAlone_iff .serial hlines right).1 halone).2 rfl⟩

end FusedMarker

end KernelCache
