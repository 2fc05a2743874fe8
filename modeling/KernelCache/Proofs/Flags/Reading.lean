/-
**Reading flags back.**

What is written of flags is text, and the header is free to look like anything.  It can still be
read back: as long as it begins like a definition a line is one, its name ends at the first blank or
at the end of the line, and what is left of the line is the value.  The header is the rest.  This
needs names without blanks, names and values that keep to their line, and a header that does not
begin like a definition itself; further down it may.

Main definitions:

* `Flags.OneLine` — definitions that can be told from their line;
* `Flags.Readable` — flags that can be told from what is written of them.

Main results:

* `Flags.defineLine_append_inj` — **one definition is read back**, whatever follows it;
* `Flags.defineLines_append_inj` — so are all of them, before a header;
* `Flags.salt_eq_iff` — **different flags have different salts**.
-/

import KernelCache.Proofs.Flags
import KernelCache.Proofs.Salt
import KernelCache.Proofs.SortedMap

set_option relaxedAutoImplicit false
set_option autoImplicit false

namespace KernelCache

namespace Flags

/-- A definition that keeps to its line, with a name that ends at the first blank. -/
structure OneLine (name value : String) : Prop where
  noBlank : ' ' ∉ name.toList
  noBreak : '\n' ∉ name.toList
  value : '\n' ∉ value.toList

/-- Flags with such definitions only, and a header that does not begin like one. -/
structure Readable (f : Flags) : Prop where
  defines : ∀ e ∈ f.defines.entries, OneLine e.1 e.2
  header : ¬"#define ".toList <+: f.header.toList

instance (name value : String) : Decidable (OneLine name value) :=
  decidable_of_iff (' ' ∉ name.toList ∧ '\n' ∉ name.toList ∧ '\n' ∉ value.toList)
    ⟨fun ⟨hblank, hbreak, hvalue⟩ => ⟨hblank, hbreak, hvalue⟩,
      fun h => ⟨h.noBlank, h.noBreak, h.value⟩⟩

instance (f : Flags) : Decidable f.Readable :=
  decidable_of_iff
    ((∀ e ∈ f.defines.entries, OneLine e.1 e.2) ∧ ¬"#define ".toList <+: f.header.toList)
    ⟨fun ⟨hdefines, hheader⟩ => ⟨hdefines, hheader⟩, fun h => ⟨h.defines, h.header⟩⟩

/-! ### One definition -/

/-- The lines of some definitions. -/
def defineLines (l : List (String × String)) : List Char :=
  l.flatMap fun e => (defineLine e.1 e.2).toList

/-- What stands behind the name: the end of the line, or a blank and the value. -/
def afterName (value : String) : List Char :=
  if value = "" then ['\n'] else ' ' :: (value.toList ++ ['\n'])

theorem toList_defineLine (name value : String) :
    (defineLine name value).toList = "#define ".toList ++ (name.toList ++ afterName value) := by
  rw [defineLine, afterName]
  split <;> simp [String.toList_append]

theorem toList_prelude (f : Flags) :
    f.prelude.toList = defineLines f.defines.entries ++ f.header.toList := by
  rw [prelude, String.toList_append, String.toList_join, defineLines, List.flatMap_map]

/-- A character that ends a name. -/
def endsName (c : Char) : Bool := c == ' ' || c == '\n'

theorem exists_afterName_append (value : String) (s : List Char) :
    ∃ c rest, endsName c = true ∧ afterName value ++ s = c :: rest := by
  rw [afterName]
  split
  · exact ⟨'\n', s, rfl, rfl⟩
  · exact ⟨' ', _, rfl, rfl⟩

/-- A value is what stands before the first line break, and empty if no blank comes first. -/
theorem afterName_append_inj {value value' : String} (h : '\n' ∉ value.toList)
    (h' : '\n' ∉ value'.toList) {s t : List Char}
    (heq : afterName value ++ s = afterName value' ++ t) : value = value' ∧ s = t := by
  rw [afterName, afterName] at heq
  split at heq <;> split at heq
  case isTrue.isTrue hvalue hvalue' => exact ⟨hvalue.trans hvalue'.symm, (List.cons.inj heq).2⟩
  case isTrue.isFalse => cases heq
  case isFalse.isTrue => cases heq
  case isFalse.isFalse =>
    rw [List.cons_append, List.cons_append, List.cons_eq_cons] at heq
    obtain ⟨-, hrest⟩ := heq
    rw [List.append_assoc, List.append_assoc, List.singleton_append, List.singleton_append,
      Salt.append_separator_inj h h', String.toList_inj] at hrest
    exact hrest

/-- **One definition is read back**, whatever follows it. -/
theorem defineLine_append_inj {name name' value value' : String} (h : OneLine name value)
    (h' : OneLine name' value') {s t : List Char}
    (heq : (defineLine name value).toList ++ s = (defineLine name' value').toList ++ t) :
    name = name' ∧ value = value' ∧ s = t := by
  have hstop {n v : String} (h : OneLine n v) : ∀ c ∈ n.toList, endsName c = false := by
    intro c hc
    rw [endsName, beq_false_of_ne (ne_of_mem_of_not_mem hc h.noBlank),
      beq_false_of_ne (ne_of_mem_of_not_mem hc h.noBreak), Bool.or_false]
  simp only [toList_defineLine, List.append_assoc, List.append_cancel_left_eq] at heq
  obtain ⟨c, rest, hc, hafter⟩ := exists_afterName_append value s
  obtain ⟨c', rest', hc', hafter'⟩ := exists_afterName_append value' t
  rw [hafter, hafter', Salt.append_stop_inj (hstop h) (hstop h') hc hc', String.toList_inj] at heq
  obtain ⟨rfl, rfl, rfl⟩ := heq
  exact ⟨rfl, afterName_append_inj h.value h'.value (hafter.trans hafter'.symm)⟩

/-! ### All definitions -/

theorem defineLines_cons (e : String × String) (l : List (String × String)) :
    defineLines (e :: l) = (defineLine e.1 e.2).toList ++ defineLines l := List.flatMap_cons

/-- What follows a definition begins like one if there is another. -/
theorem prefix_defineLines_cons (e : String × String) (l : List (String × String)) (s : List Char) :
    "#define ".toList <+: defineLines (e :: l) ++ s := by
  rw [defineLines_cons, toList_defineLine, List.append_assoc, List.append_assoc]
  exact List.prefix_append _ _

/-- **All definitions are read back**, before what does not begin like one. -/
theorem defineLines_append_inj {l l' : List (String × String)} (hl : ∀ e ∈ l, OneLine e.1 e.2)
    (hl' : ∀ e ∈ l', OneLine e.1 e.2) {s t : List Char} (hs : ¬"#define ".toList <+: s)
    (ht : ¬"#define ".toList <+: t) (heq : defineLines l ++ s = defineLines l' ++ t) :
    l = l' ∧ s = t := by
  induction l generalizing l' with
  | nil =>
      cases l' with
      | nil => exact ⟨rfl, heq⟩
      | cons e' l' =>
          have hprefix := prefix_defineLines_cons e' l' t
          rw [← heq] at hprefix
          exact absurd hprefix hs
  | cons e l ih =>
      cases l' with
      | nil =>
          have hprefix := prefix_defineLines_cons e l s
          rw [heq] at hprefix
          exact absurd hprefix ht
      | cons e' l' =>
          rw [List.forall_mem_cons] at hl hl'
          rw [defineLines_cons, defineLines_cons, List.append_assoc, List.append_assoc] at heq
          obtain ⟨hname, hvalue, hrest⟩ := defineLine_append_inj hl.1 hl'.1 heq
          obtain ⟨rfl, hst⟩ := ih hl.2 hl'.2 hrest
          exact ⟨congrArg (· :: l) (Prod.ext hname hvalue), hst⟩

/-- **Different flags have different salts**, if they can be told from what is written of them. -/
theorem salt_eq_iff {f g : Flags} (hf : f.Readable) (hg : g.Readable) :
    f.salt = g.salt ↔ f = g := by
  constructor
  · intro h
    have heq : f.prelude.toList = g.prelude.toList := congrArg String.toList h
    rw [toList_prelude, toList_prelude] at heq
    obtain ⟨hdefines, hheader⟩ :=
      defineLines_append_inj hf.defines hg.defines hf.header hg.header heq
    obtain ⟨defines, header⟩ := f
    obtain ⟨defines', header'⟩ := g
    rw [Flags.mk.injEq]
    exact ⟨SortedMap.eq_of_entries hdefines, String.toList_inj.1 hheader⟩
  · rintro rfl
    rfl

/-- A name may be empty, a value as well or begin with a blank, and a header may define something
further down. -/
theorem leading_blank_matters :
    let header : Call := .header "int x;\n#define N 1"
    let f := collect [.define "" "", .define "N" " 4", header, .define "FAST" ""]
    let g := collect [.define "" "", .define "N" "4", header, .define "FAST" ""]
    f.Readable ∧ g.Readable ∧ f.salt ≠ g.salt := by
  intro header f g
  have hf : f.Readable := by decide
  have hg : g.Readable := by decide
  have hne : f ≠ g := by decide
  exact ⟨hf, hg, fun h => hne ((salt_eq_iff hf hg).1 h)⟩

-- a header that begins like a definition cannot be told from one
example : (collect [.define "N" "4"]).salt = (collect [.header "#define N 4"]).salt := by decide

end Flags

end KernelCache
