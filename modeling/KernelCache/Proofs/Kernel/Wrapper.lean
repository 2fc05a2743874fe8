/-
**Wrappers read the slots that a launch provides.**

A translated source ends with one wrapper for each kernel, in the order of the source, and what a
launch knows of a kernel agrees with its wrapper: the wrapper under the symbol of the launch calls
that kernel and passes what is in the slots of its arguments, one after the other.  A launch is
refused unless it has a slot for each argument, so its wrapper reads each slot once and none beyond.

Wrappers are taken as the text that they are: the type of a parameter stands in them as the source
has it, be it sense in C or not.  What makes their text readable is that no type has a comma or a
bracket, since a comma ends a parameter and a bracket ends its type.

Main definitions:

* `slotsRead` — the slots that a text reads;
* `Wrapper`, `Wrapper.text` — a wrapper and its text;
* `Wrapper.Serves` — **the wrapper of a kernel, as a launch needs it**.

Main results:

* `Argument.bare_of_parseList`, `Declaration.plain_of_scanFrom` — types have neither commas nor
  brackets, and kernels have names that may be declared;
* `slotsRead_slot`, `Argument.slotsRead_passes` — the slots of a text, one after the other;
* `Declaration.Plain.serves` — the wrapper of a kernel is what a launch needs;
* `wrappers_match_launches` — **the wrappers of a translation and what launches know of its
  kernels**.
-/

import KernelCache.Device.Kernel
import KernelCache.Proofs.Kernel.Declaration
import KernelCache.Proofs.Kernel.Reading
import KernelCache.Proofs.Text.Decimal

set_option relaxedAutoImplicit false
set_option autoImplicit false

namespace KernelCache

/-! ### What a source declares -/

/-- A text without commas and brackets. -/
def Text.Bare (s : List Char) : Prop := ∀ c ∈ s, c ≠ ',' ∧ c ≠ '['

instance (s : List Char) : Decidable (Text.Bare s) := List.decidableBAll _ s

theorem Text.Bare.append {s t : List Char} (hs : Bare s) (ht : Bare t) : Bare (s ++ t) := by
  intro c hc
  rcases List.mem_append.1 hc with hc | hc
  · exact hs c hc
  · exact ht c hc

namespace Argument

theorem bare_make (name : List Char) {type : List Char} (h : Text.Bare type) (isArray : Bool) :
    Text.Bare (make name type isArray).type.toList := by
  rw [make, String.toList_ofList]
  split
  · exact h.append (by decide)
  · exact h

/-- A parameter without commas has a type without commas and brackets. -/
theorem bare_of_parse {text : List Char} {a : Argument} (h : parse text = .ok a)
    (hcomma : ',' ∉ text) : Text.Bare a.type.toList := by
  obtain ⟨front, c, name, heq, -, -, -, -, rfl⟩ := parse_eq_ok_iff.1 h
  refine bare_make name (fun d hd => ?_) _
  obtain ⟨hmem, hne⟩ := mem_of_mem_type heq hd
  exact ⟨ne_of_mem_of_not_mem hmem hcomma, hne⟩

/-- **No type in a parameter list has a comma or a bracket.** -/
theorem bare_of_parseList {text : List Char} {as : List Argument} (h : parseList text = .ok as) :
    ∀ a ∈ as, Text.Bare a.type.toList := by
  rw [parseList] at h
  split at h
  · cases h
    simp
  · intro a ha
    obtain ⟨piece, hpiece, hparse⟩ := exists_of_mem_mapM h a ha
    refine bare_of_parse hparse fun hcomma => ?_
    exact absurd (Text.eq_false_of_mem_splitOnP hpiece ',' hcomma) (by decide)

end Argument

namespace Declaration

/-- What is known of every declared kernel. -/
structure Plain (d : Declaration) : Prop where
  identifier : isIdentifier d.name.toList = true
  bare : ∀ a ∈ d.arguments, Text.Bare a.type.toList

theorem Reads.plain {s : List Char} {ds : List Declaration} (h : Reads s ds) :
    ∀ d ∈ ds, d.Plain := by
  induction h with
  | done => simp
  | kernel k hlist _ ih =>
      rw [List.forall_mem_cons]
      refine ⟨⟨?_, Argument.bare_of_parseList hlist⟩, ih⟩
      rw [String.toList_ofList]
      exact k.identifier

/-- **The kernels of a text have names that may be declared, and bare types.** -/
theorem plain_of_scanFrom {line : Nat} {s : List Char} {ds : List Declaration}
    (h : scanFrom line s = .ok ds) : ∀ d ∈ ds, d.Plain := (scanFrom_eq_ok_iff.1 h).plain

end Declaration

/-! ### The slots that a text reads -/

/-- The slot that is read where a text starts: a number in brackets after `args`. -/
def slotAt? (s : List Char) : Option Nat :=
  if "args[".toList.isPrefixOf s then
    let inside := s.drop "args[".toList.length
    if (inside.dropWhile Decimal.isDigit).head? = some ']' then
      Decimal.number? (inside.takeWhile Decimal.isDigit)
    else none
  else none

/-- **The slots that a text reads**, in its order, as often as it reads them. -/
def slotsRead : List Char → List Nat
  | [] => []
  | c :: s => (slotAt? (c :: s)).toList ++ slotsRead s

/-- A slot is read where its number stands in brackets. -/
theorem slotAt?_slot (n : Nat) (rest : List Char) :
    slotAt? ("args[".toList ++ ((Decimal.text n).toList ++ ']' :: rest)) = some n := by
  have hdigits : ∀ c ∈ (Decimal.text n).toList, Decimal.isDigit c = true :=
    fun c hc => Decimal.isDigit_of_mem_text hc
  have hclose : Decimal.isDigit ']' = false := by decide
  rw [slotAt?, if_pos (List.isPrefixOf_iff_prefix.2 (List.prefix_append _ _)), List.drop_left]
  simp only [List.takeWhile_append_of_pos hdigits, List.dropWhile_append_of_pos hdigits]
  simp [hclose, Decimal.number?_text]

/-- No slot is read where the bracket does not follow in its place. -/
theorem slotAt?_of_bracket {s : List Char} (h : s[4]? ≠ some '[') : slotAt? s = none := by
  rw [slotAt?, if_neg]
  intro hprefix
  obtain ⟨rest, rfl⟩ := List.isPrefixOf_iff_prefix.1 hprefix
  exact h rfl

/-- No slot is read at another letter. -/
theorem slotAt?_of_ne {c : Char} (h : c ≠ 'a') (s : List Char) : slotAt? (c :: s) = none := by
  rw [slotAt?, if_neg]
  intro hprefix
  obtain ⟨rest, hrest⟩ := List.isPrefixOf_iff_prefix.1 hprefix
  exact h (List.cons.inj hrest).1.symm

theorem slotsRead_append_of_ne {x : List Char} (h : ∀ c ∈ x, c ≠ 'a') (y : List Char) :
    slotsRead (x ++ y) = slotsRead y := by
  induction x with
  | nil => rfl
  | cons c x ih =>
      rw [List.forall_mem_cons] at h
      rw [List.cons_append, slotsRead, slotAt?_of_ne h.1, ih h.2]
      rfl

/-- A text without brackets reads no slots. -/
theorem slotsRead_of_bare {s : List Char} (h : '[' ∉ s) : slotsRead s = [] := by
  induction s with
  | nil => rfl
  | cons c s ih =>
      have hbracket : (c :: s)[4]? ≠ some '[' := fun heq => h (List.mem_of_getElem? heq)
      rw [slotsRead, slotAt?_of_bracket hbracket, ih fun hmem => h (List.mem_cons_of_mem _ hmem)]
      rfl

/-- No slot is read before the place of the bracket, if none stands there. -/
theorem slotAt?_before {x : List Char} (hx : x ≠ []) (h : '[' ∉ x) (rest : List Char) :
    slotAt? (x ++ ("args[".toList ++ rest)) = none := by
  refine slotAt?_of_bracket fun heq => ?_
  have hpos := List.length_pos_iff.2 hx
  rcases Nat.lt_or_ge 4 x.length with hlt | hge
  · rw [List.getElem?_append_left hlt] at heq
    exact h (List.mem_of_getElem? heq)
  · -- The fifth character is one of the first four of what follows.
    have hword : 4 - x.length < "args[".toList.length := by
      have hlength : "args[".toList.length = 5 := by decide
      omega
    rw [List.getElem?_append_right hge, List.getElem?_append_left hword] at heq
    have hplace : 4 - x.length = 0 ∨ 4 - x.length = 1 ∨ 4 - x.length = 2 ∨ 4 - x.length = 3 := by
      omega
    rcases hplace with hplace | hplace | hplace | hplace <;>
      · rw [hplace] at heq
        exact absurd heq (by decide)

/-- **The first slot that is read after a text without brackets.** -/
theorem slotsRead_slot {x : List Char} (h : '[' ∉ x) (n : Nat) (rest : List Char) :
    slotsRead (x ++ ("args[".toList ++ ((Decimal.text n).toList ++ ']' :: rest))) =
      n :: slotsRead rest := by
  induction x with
  | nil =>
      have hne : ∀ c ∈ "rgs[".toList ++ ((Decimal.text n).toList ++ [']']), c ≠ 'a' := by
        intro c hc
        rw [List.mem_append, List.mem_append, List.mem_singleton] at hc
        rintro rfl
        rcases hc with hc | hc | hc
        · exact absurd hc (by decide)
        · exact absurd (Decimal.isDigit_of_mem_text hc) (by decide)
        · exact absurd hc (by decide)
      have hrest : slotsRead ("rgs[".toList ++ ((Decimal.text n).toList ++ ']' :: rest)) =
          slotsRead rest := by
        rw [← slotsRead_append_of_ne hne rest]
        simp
      have hslot := slotAt?_slot n rest
      have hword : "args[".toList = 'a' :: "rgs[".toList := rfl
      rw [hword, List.cons_append] at hslot
      rw [List.nil_append, hword, List.cons_append, slotsRead, hslot, hrest]
      rfl
  | cons c x ih =>
      have hbefore := slotAt?_before (List.cons_ne_nil c x) h
        ((Decimal.text n).toList ++ ']' :: rest)
      rw [List.cons_append] at hbefore ⊢
      rw [slotsRead, hbefore, ih fun hmem => h (List.mem_cons_of_mem _ hmem)]
      rfl

example : slotsRead "f(*(int *) args[10], (a *) args[2], args[x])".toList = [10, 2] := by decide

/-! ### Wrappers -/

/-- How a text reads a slot. -/
def slotText (slot : Nat) : String := "args[" ++ Decimal.text slot ++ "]"

/-- A wrapper: the symbol that it defines, the kernel that it calls, and what it passes. -/
structure Wrapper where
  symbol : String
  kernel : String
  passes : List String

namespace Wrapper

/-- The text of a wrapper up to what it passes. -/
def head (w : Wrapper) : String :=
  "KILN_KERNEL void " ++ w.symbol ++ "(void **args) \x7b\n" ++
    (if w.passes.isEmpty then "  (void) args;\n" else "") ++
    "  " ++ w.kernel ++ "("

/-- The text of a wrapper. -/
def text (w : Wrapper) : String :=
  w.head ++ ", ".intercalate w.passes ++ ");\n" ++ "\x7d\n"

/-- **The wrapper of a kernel, as a launch needs it.**  It passes one value for each argument: what
is in the slot of a pointer, and what the slot of a scalar points to.  No other slot is read. -/
structure Serves (w : Wrapper) (name : String) (l : Launch) : Prop where
  symbol : w.symbol = l.entry
  kernel : w.kernel = name
  length : w.passes.length = l.arguments.length
  bare : ∀ pass ∈ w.passes, ',' ∉ pass.toList
  pointer : ∀ i a, l.arguments[i]? = some a → a.kind = .pointer →
    w.passes[i]? = some ("(" ++ a.type ++ ") " ++ slotText i)
  scalar : ∀ i a, l.arguments[i]? = some a → a.kind = .scalar →
    w.passes[i]? = some ("*(" ++ a.type ++ " *) " ++ slotText i)
  slots : slotsRead w.text.toList = List.range l.arguments.length

end Wrapper

namespace Declaration

/-- The wrapper of a declared kernel. -/
def toWrapper (d : Declaration) : Wrapper := ⟨Launch.symbol d.name, d.name, d.slots⟩

theorem isEmpty_slots (d : Declaration) : d.slots.isEmpty = d.arguments.isEmpty := by
  rw [Bool.eq_iff_iff, List.isEmpty_iff, List.isEmpty_iff, slots, List.mapIdx_eq_nil_iff]

theorem wrapper_eq (d : Declaration) : d.wrapper = d.toWrapper.text := by
  unfold wrapper Wrapper.text Wrapper.head toWrapper
  rw [isEmpty_slots]

end Declaration

namespace Argument

/-- What stands before the slot of an argument. -/
def cast (a : Argument) : String :=
  match a.kind with
  | .pointer => "(" ++ a.type ++ ") "
  | .scalar => "*(" ++ a.type ++ " *) "

theorem fromSlot_eq (a : Argument) (slot : Nat) :
    (a.fromSlot slot).toList =
      a.cast.toList ++ ("args[".toList ++ ((Decimal.text slot).toList ++ [']'])) := by
  rw [fromSlot, cast]
  cases a.kind <;> simp

theorem bare_cast {a : Argument} (h : Text.Bare a.type.toList) : Text.Bare a.cast.toList := by
  rw [cast]
  cases a.kind with
  | pointer =>
      simp only [String.toList_append]
      exact (Text.Bare.append (by decide) h).append (by decide)
  | scalar =>
      simp only [String.toList_append]
      exact (Text.Bare.append (by decide) h).append (by decide)

/-- What a wrapper passes has no comma. -/
theorem comma_notMem_fromSlot {a : Argument} (h : Text.Bare a.type.toList) (slot : Nat) :
    ',' ∉ (a.fromSlot slot).toList := by
  rw [fromSlot_eq]
  simp only [List.mem_append, not_or]
  refine ⟨fun hmem => (bare_cast h ',' hmem).1 rfl, by decide, ?_, by decide⟩
  intro hmem
  exact absurd (Decimal.isDigit_of_mem_text hmem) (by decide)

/-- **What is passed for some arguments reads their slots in turn**, whatever stands around it. -/
theorem slotsRead_passes {as : List Argument} (h : ∀ a ∈ as, Text.Bare a.type.toList)
    (first : Nat) {x y : List Char} (hx : '[' ∉ x) (hy : '[' ∉ y) :
    slotsRead (x ++
        ((", ".intercalate (as.mapIdx fun i a => a.fromSlot (first + i))).toList ++ y)) =
      List.range' first as.length := by
  induction as generalizing first x with
  | nil =>
      refine slotsRead_of_bare ?_
      simp [hx, hy]
  | cons a as ih =>
      rw [List.forall_mem_cons] at h
      have hfront : '[' ∉ x ++ a.cast.toList := by
        rw [List.mem_append, not_or]
        exact ⟨hx, fun hmem => (bare_cast h.1 '[' hmem).2 rfl⟩
      -- The next slots are those of the other arguments, one later each.
      have hnext : (fun i (a : Argument) => a.fromSlot (first + (i + 1))) =
          fun i a => a.fromSlot (first + 1 + i) := by
        funext i a
        rw [Nat.add_right_comm, Nat.add_assoc]
      rw [List.mapIdx_cons, hnext, List.length_cons, List.range'_succ, Nat.add_zero]
      by_cases hlast : as = []
      · subst hlast
        have hslot := slotsRead_slot hfront first y
        rw [slotsRead_of_bare hy] at hslot
        simpa [fromSlot_eq] using hslot
      · have hne : as.mapIdx (fun i a => a.fromSlot (first + 1 + i)) ≠ [] := by
          rw [ne_eq, List.mapIdx_eq_nil_iff]
          exact hlast
        have hslot := slotsRead_slot hfront first (", ".toList ++
          ((", ".intercalate (as.mapIdx fun i a => a.fromSlot (first + 1 + i))).toList ++ y))
        rw [ih h.2 (first + 1) (by decide)] at hslot
        rw [String.intercalate_cons_of_ne_nil hne, String.toList_append, String.toList_append,
          fromSlot_eq, ← hslot]
        simp

end Argument

namespace Declaration

theorem all_toList_append {p : Char → Bool} {s t : String} (hs : s.toList.all p = true)
    (ht : t.toList.all p = true) : (s ++ t).toList.all p = true := by
  rw [String.toList_append, List.all_append, hs, ht, Bool.and_self]

/-- Whether a character is one of names, or one of the others that stand in a wrapper before what it
passes. -/
def isHeadChar (c : Char) : Bool := isNameChar c || " ()*;\x7b\n".toList.contains c

theorem all_isHeadChar_head {d : Declaration} (h : d.Plain) :
    d.toWrapper.head.toList.all isHeadChar = true := by
  have hname : d.name.toList.all isHeadChar = true := List.all_eq_true.2 fun c hc => by
    rw [isHeadChar, isNameChar_of_identifier h.identifier c hc, Bool.true_or]
  have hsymbol : d.toWrapper.symbol.toList.all isHeadChar = true :=
    all_toList_append (by decide) hname
  have hempty : (if d.toWrapper.passes.isEmpty then "  (void) args;\n" else "").toList.all
      isHeadChar = true := by
    split <;> decide
  have hstart := all_toList_append (s := "KILN_KERNEL void ") (by decide) hsymbol
  have hopen := all_toList_append hstart (t := "(void **args) \x7b\n") (by decide)
  have hbody := all_toList_append (all_toList_append hopen hempty) (t := "  ") (by decide)
  exact all_toList_append (all_toList_append hbody hname) (t := "(") (by decide)

/-- A character that is none of these does not stand there. -/
theorem notMem_head {d : Declaration} (h : d.Plain) {c : Char} (hc : isHeadChar c = false) :
    c ∉ d.toWrapper.head.toList := fun hmem => by
  rw [List.all_eq_true.1 (all_isHeadChar_head h) c hmem] at hc
  exact Bool.false_ne_true hc.symm

/-- **The wrapper of a declared kernel reads the slots of its arguments in turn.** -/
theorem slotsRead_wrapper {d : Declaration} (h : d.Plain) :
    slotsRead d.toWrapper.text.toList = List.range d.arguments.length := by
  have hpasses := Argument.slotsRead_passes h.bare 0 (notMem_head h (by decide))
    (y := ");\n".toList ++ "\x7d\n".toList) (by decide)
  simp only [Nat.zero_add] at hpasses
  rw [List.range_eq_range', ← hpasses, Wrapper.text, String.toList_append, String.toList_append,
    String.toList_append, List.append_assoc, List.append_assoc]
  rfl

theorem getElem?_slots {d : Declaration} {i : Nat} {a : Argument} (h : d.arguments[i]? = some a) :
    d.slots[i]? = some (a.fromSlot i) := by
  rw [slots, List.getElem?_mapIdx, h, Option.map_some]

/-- **The wrapper of a declared kernel is what a launch needs.** -/
theorem Plain.serves {d : Declaration} (h : d.Plain) (dialect : String) :
    d.toWrapper.Serves d.name (d.launch dialect) where
  symbol := rfl
  kernel := rfl
  length := List.length_mapIdx
  bare := by
    intro pass hpass
    obtain ⟨slot, hslot, rfl⟩ := List.mem_mapIdx.1 hpass
    exact Argument.comma_notMem_fromSlot (h.bare _ (List.getElem_mem hslot)) slot
  pointer := by
    intro i a ha hkind
    rw [toWrapper, getElem?_slots ha, Argument.fromSlot, hkind]
    rfl
  scalar := by
    intro i a ha hkind
    rw [toWrapper, getElem?_slots ha, Argument.fromSlot, hkind]
    rfl
  slots := slotsRead_wrapper h

end Declaration

theorem Launch.symbol_inj {name name' : String} : symbol name = symbol name' ↔ name = name' :=
  String.append_right_inj _

/-- A kernel may be launched with as many slots as it has arguments, and not otherwise. -/
theorem Kernel.checkSlots_eq_ok_iff {k : Kernel} {slots : Nat} :
    k.checkSlots slots = .ok () ↔ slots = k.loaded.arguments.length := by
  rw [checkSlots]
  split <;> simp_all

/-- **The wrappers of a translation and what launches know of its kernels.**

If the kernels of a source have distinct names, its translation ends with one wrapper for each, in
the order of the source.  For every kernel that the translation knows there is one wrapper under the
symbol of its launch, and that calls the kernel with what is in the slots of its arguments: a
pointer as it is, a scalar through its slot.  Whenever a loaded kernel may be launched with some
slots, its wrapper reads these, each once, and no others. -/
theorem wrappers_match_launches {r : TranslationRequest} {t : Translation}
    (ht : translate r = .ok t) {ds : List Declaration}
    (hds : Declaration.scan r.source.toList = .ok ds) (hnames : (ds.map Declaration.name).Nodup) :
    ∃ ws : List Wrapper,
      ws.map Wrapper.kernel = ds.map Declaration.name ∧
      t.source = String.ofList (Translation.body r.backend r.flags r.source) ++
        String.join (ws.map Wrapper.text) ∧
      (∀ name, t.kernels.contains name ↔ name ∈ ws.map Wrapper.kernel) ∧
      ∀ name l, t.kernels.get? name = some l → ∃ w ∈ ws,
        (∀ w' ∈ ws, w'.symbol = l.entry → w' = w) ∧ w.Serves name l ∧
        ∀ (k : Kernel) (slots : Nat), k.loaded = Loaded.ofLaunch l →
          (k.checkSlots slots = .ok () ↔ slots = l.arguments.length) ∧
          (k.checkSlots slots = .ok () → slotsRead w.text.toList = List.range slots) := by
  obtain ⟨-, htext, -⟩ := translate_eq_ok_iff.1 ht
  rw [Translation.ofText, hds] at htext
  obtain rfl := Except.ok.inj htext
  have hkernels : (ds.map Declaration.toWrapper).map Wrapper.kernel = ds.map Declaration.name := by
    rw [List.map_map]
    rfl
  refine ⟨ds.map Declaration.toWrapper, hkernels, ?_, ?_, ?_⟩
  · have hwrappers : ds.map Declaration.wrapper =
        (ds.map Declaration.toWrapper).map Wrapper.text := by
      rw [List.map_map]
      exact List.map_congr_left fun d _ => d.wrapper_eq
    dsimp only
    rw [Translation.text, hwrappers]
  · intro name
    rw [hkernels, ← Translation.mem_keys_iff hnames, SortedMap.mem_keys_iff, SortedMap.contains,
      Option.isSome_iff_exists]
  · intro name l hl
    obtain ⟨d, hd, rfl, rfl⟩ := Translation.exists_of_get? hnames hl
    have hserves := (Declaration.plain_of_scanFrom hds d hd).serves (Translation.dialect r.backend)
    refine ⟨d.toWrapper, List.mem_map_of_mem hd, ?_, hserves, ?_⟩
    · intro w' hw' hsymbol
      obtain ⟨d', hd', rfl⟩ := List.mem_map.1 hw'
      have hname : d'.name = d.name := Launch.symbol_inj.1 hsymbol
      rw [List.inj_on_of_nodup_map hnames hd' hd hname]
    · intro k slots hk
      have hslots : k.checkSlots slots = .ok () ↔
          slots = (d.launch (Translation.dialect r.backend)).arguments.length := by
        rw [Kernel.checkSlots_eq_ok_iff, hk]
        rfl
      refine ⟨hslots, fun hok => ?_⟩
      rw [hslots.1 hok]
      exact hserves.slots

/-- The wrapper of a kernel of an array and a number passes the array and what the second slot
points to, and reads both slots. -/
theorem TwoKernels.wrapper_zero :
    ∃ t ds, translate request = .ok t ∧ Declaration.scan request.source.toList = .ok ds ∧
      (ds.map Declaration.name).Nodup ∧
      ∃ w : Wrapper, w.symbol = "__kiln_launch_zero" ∧ w.kernel = "zero" ∧
        w.passes[0]? = some "(float *) args[0]" ∧ w.passes[1]? = some "*(const int *) args[1]" ∧
        slotsRead w.text.toList = [0, 1] := by
  have hsource : request.source.toList = Prototype.source [zero, noop] " ;".toList := by
    decide +kernel
  have hds : Declaration.scan request.source.toList =
      .ok ([zero, noop].map Prototype.declaration) := by
    rw [hsource]
    exact Declaration.scan_source [zero, noop] (by decide)
  have hnames : (([zero, noop].map Prototype.declaration).map Declaration.name).Nodup := by decide
  have hzero : (Translation.table .serial ([zero, noop].map Prototype.declaration)).get? "zero" =
      some (zero.declaration.launch (Translation.dialect .serial)) := by decide
  have ht := translate_eq_ok_iff.2 ⟨rfl, congrArg (Except.map _) hds, by decide⟩
  obtain ⟨ws, -, -, -, hws⟩ := wrappers_match_launches ht hds hnames
  obtain ⟨w, -, -, hw, -⟩ := hws "zero" _ hzero
  exact ⟨_, _, ht, hds, hnames, w, hw.symbol, hw.kernel,
    (hw.pointer 0 _ rfl rfl).trans (by decide), (hw.scalar 1 _ rfl rfl).trans (by decide), hw.slots⟩

end KernelCache
