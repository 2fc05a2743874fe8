/-
**Declarations are read back as they are written.**

A source is written from kernels, each after a text without a marker, and ends with such a text.
The translation of that source has the written kernels and no others, each with its parameters.

Main definitions:

* `Parameter`, `Parameter.text` — a parameter and how a source writes it;
* `Parameter.argument` — the argument that it declares;
* `Prototype`, `Prototype.text` — a kernel and how a source declares it;
* `Prototype.source` — a source with given kernels.

Main results:

* `Argument.parse_eq_ok_iff` — what a declaration gives;
* `Argument.parseList_parameters` — parameter lists;
* `Declaration.scan_source` — the kernels of a source;
* `translate_source` — **the translation of a source has the kernels that it declares**.
-/

import KernelCache.Proofs.Kernel.Opening
import KernelCache.Proofs.Kernel.Translation
import KernelCache.Proofs.SortedMap
import KernelCache.Proofs.Text.Blank
import Mathlib.Data.List.Nodup

set_option relaxedAutoImplicit false
set_option autoImplicit false

namespace KernelCache

/-! ### What a source writes -/

/-- A parameter as a source writes it: a type, a name, and perhaps the suffix of an array, which
blanks may separate from the name. -/
structure Parameter where
  type : List Char
  name : List Char
  space : List Char
  suffix : List Char
  type_ne_nil : type ≠ []
  snug_type : Text.Snug type
  plain_type : ∀ c ∈ type, c ∉ [',', '(', ')', '[']
  identifier : isIdentifier name = true
  blank_space : Text.Blank space
  head_suffix : suffix = [] ∨ suffix.head? = some '['
  plain_suffix : ∀ c ∈ suffix, c ∉ [',', '(', ')']

namespace Parameter

/-- The text of a parameter. -/
def text (p : Parameter) : List Char := p.type ++ ' ' :: p.name ++ (p.space ++ p.suffix)

/-- Whether a parameter has the suffix of an array. -/
def IsArray (p : Parameter) : Prop := p.suffix ≠ []

instance (p : Parameter) : Decidable p.IsArray := inferInstanceAs (Decidable (p.suffix ≠ []))

/-- The argument that a parameter declares: a pointer if it is an array or its type has a star. -/
def argument (p : Parameter) : Argument where
  name := String.ofList p.name
  type := String.ofList (if p.IsArray then p.type ++ " *".toList else p.type)
  kind := if p.IsArray ∨ '*' ∈ p.type then .pointer else .scalar

/-- The text of a list of parameters. -/
def textList : List Parameter → List Char
  | [] => []
  | [p] => p.text
  | p :: ps => p.text ++ ", ".toList ++ textList ps

end Parameter

/-- A kernel as a source declares it, with the text that stands before its marker. -/
structure Prototype where
  lead : List Char
  before : List Char
  between : List Char
  name : List Char
  parameters : List Parameter
  unmarked_lead : ¬Declaration.marker <:+: lead
  blank_before : Text.Blank before
  before_ne_nil : before ≠ []
  blank_between : Text.Blank between
  between_ne_nil : between ≠ []
  identifier : isIdentifier name = true

namespace Prototype

/-- What stands between the marker and the parameters. -/
def head (k : Prototype) : List Char := k.before ++ "void".toList ++ k.between ++ k.name

/-- The text of a declaration and of what stands before it. -/
def text (k : Prototype) : List Char :=
  k.lead ++ Declaration.marker ++
    (k.head ++ '(' :: (Parameter.textList k.parameters ++ [')']))

/-- The declaration of a kernel. -/
def declaration (k : Prototype) : Declaration :=
  ⟨String.ofList k.name, k.parameters.map Parameter.argument⟩

/-- The source that declares kernels and ends with a given text. -/
def source (ks : List Prototype) (last : List Char) : List Char := ks.flatMap text ++ last

end Prototype

/-! ### Characters of names -/

theorem isBlank_of_isNameChar {c : Char} (h : isNameChar c = true) : Text.isBlank c = false := by
  simp only [isNameChar, isLetter, Bool.or_eq_true, Bool.and_eq_true, decide_eq_true_eq,
    beq_iff_eq] at h
  have hvalue : c.toNat ≤ 122 ∧ 48 ≤ c.toNat := by
    rcases h with ((h | h) | h) | rfl
    · omega
    · omega
    · omega
    · decide
  simp only [Text.isBlank, Bool.or_eq_false_iff, Bool.and_eq_false_iff, decide_eq_false_iff_not,
    beq_eq_false_iff_ne]
  omega

theorem isNameChar_of_identifier {s : List Char} (h : isIdentifier s = true) :
    ∀ c ∈ s, isNameChar c = true := by
  cases s with
  | nil => simp
  | cons c rest =>
      simp only [isIdentifier, Bool.and_eq_true, Bool.or_eq_true, List.all_eq_true] at h
      intro a ha
      rcases List.mem_cons.1 ha with rfl | ha
      · rcases h.1 with hletter | hunderscore
        · simp [isNameChar, hletter]
        · simp only [isNameChar, hunderscore, Bool.or_true]
      · exact h.2 a ha

theorem ne_nil_of_identifier {s : List Char} (h : isIdentifier s = true) : s ≠ [] := by
  rintro rfl
  exact Bool.false_ne_true h

/-- A character that no name has is not in a name. -/
theorem not_mem_of_identifier {s : List Char} {c : Char} (h : isIdentifier s = true)
    (hc : isNameChar c = false) : c ∉ s := fun hmem => by
  rw [isNameChar_of_identifier h c hmem] at hc
  exact Bool.false_ne_true hc.symm

theorem isBlank_of_identifier {s : List Char} (h : isIdentifier s = true) :
    ∀ c ∈ s, Text.isBlank c = false := fun c hc =>
  isBlank_of_isNameChar (isNameChar_of_identifier h c hc)

theorem snug_of_identifier {s : List Char} (h : isIdentifier s = true) : Text.Snug s where
  first c hc := isBlank_of_identifier h c (List.mem_of_mem_head? hc)
  last c hc := isBlank_of_identifier h c (List.mem_of_mem_getLast? hc)

/-- A type and a name, with a space between them. -/
theorem snug_named {type name : List Char} (htype : Text.Snug type) (hne : type ≠ [])
    (hname : isIdentifier name = true) : Text.Snug (type ++ ' ' :: name) := by
  rw [List.append_cons]
  exact htype.enclose hne (snug_of_identifier hname) (ne_nil_of_identifier hname) [' ']

/-! ### Parameters -/

namespace Parameter

variable (p : Parameter)

/-- A type and a name. -/
def stem : List Char := p.type ++ ' ' :: p.name

theorem stem_ne_nil : p.stem ≠ [] := by simp [stem]

theorem snug_stem : Text.Snug p.stem := snug_named p.snug_type p.type_ne_nil p.identifier

theorem not_mem_space {c : Char} (hc : Text.isBlank c = false) : c ∉ p.space := fun hmem => by
  rw [p.blank_space c hmem] at hc
  exact Bool.false_ne_true hc.symm

theorem not_mem_stem {c : Char} (htype : c ∈ [',', '(', ')', '[']) : c ∉ p.stem := by
  have hname : isNameChar c = false := by
    simp only [List.mem_cons, List.not_mem_nil, or_false] at htype
    rcases htype with rfl | rfl | rfl | rfl <;> decide
  have hblank : c ≠ ' ' := by
    rintro rfl
    exact absurd htype (by decide)
  simp only [stem, List.mem_append, List.mem_cons, not_or]
  exact ⟨fun hmem => p.plain_type c hmem htype, hblank,
    not_mem_of_identifier p.identifier hname⟩

/-- Neither a comma nor a parenthesis stands in a parameter. -/
theorem not_mem_text {c : Char} (hc : c ∈ [',', '(', ')']) : c ∉ p.text := by
  have hblank : Text.isBlank c = false := by
    simp only [List.mem_cons, List.not_mem_nil, or_false] at hc
    rcases hc with rfl | rfl | rfl <;> decide
  have hstem : c ∉ p.stem := p.not_mem_stem (by simp at hc ⊢; tauto)
  rw [text, ← stem, List.mem_append, List.mem_append, not_or, not_or]
  exact ⟨hstem, p.not_mem_space hblank, fun hmem => p.plain_suffix c hmem hc⟩

theorem textList_cons (p : Parameter) {ps : List Parameter} (h : ps ≠ []) :
    textList (p :: ps) = p.text ++ ", ".toList ++ textList ps := by
  cases ps with
  | nil => exact absurd rfl h
  | cons q ps => rfl

theorem exists_textList_cons (p : Parameter) (ps : List Parameter) :
    ∃ rest, textList (p :: ps) = p.stem ++ rest := by
  by_cases h : ps = []
  · subst h
    exact ⟨p.space ++ p.suffix, rfl⟩
  · refine ⟨p.space ++ p.suffix ++ (", ".toList ++ textList ps), ?_⟩
    rw [textList_cons p h, text, ← stem]
    simp only [List.append_assoc]

theorem not_mem_textList {c : Char} (hc : c ∈ ['(', ')']) (ps : List Parameter) :
    c ∉ textList ps := by
  have hsep : c ∉ ", ".toList := by
    simp only [List.mem_cons, List.not_mem_nil, or_false] at hc
    rcases hc with rfl | rfl <;> decide
  induction ps with
  | nil => simp [textList]
  | cons p ps ih =>
      have hp : c ∉ p.text := p.not_mem_text (by simp at hc ⊢; tauto)
      by_cases hps : ps = []
      · subst hps
        exact hp
      · rw [textList_cons p hps, List.mem_append, List.mem_append, not_or, not_or]
        exact ⟨⟨hp, hsep⟩, ih⟩

end Parameter

namespace Argument

/-- Blanks at the ends of a declaration do not count. -/
theorem parse_congr {s s' : List Char} (h : Text.trim s = Text.trim s') : parse s = parse s' := by
  rw [parse, parse, h]

/-- What the end of a parameter adds to its type and name: blanks, and the suffix if there is
one. -/
theorem takeWhile_end (p : Parameter) :
    Text.Blank ((Text.trimEnd (p.space ++ p.suffix)).takeWhile (· ≠ '[')) ∧
      ((Text.trimEnd (p.space ++ p.suffix)).contains '[' = true ↔ p.IsArray) := by
  have hspace : '[' ∉ p.space := p.not_mem_space (by decide)
  cases hs : p.suffix with
  | nil => simp [Text.trimEnd_blank p.blank_space, Text.Blank, Parameter.IsArray, hs]
  | cons c rest =>
      have hc : c = '[' := by simpa [hs] using p.head_suffix
      subst hc
      have hpass : ∀ c ∈ p.space, decide (c ≠ '[') = true := by
        intro c hc
        exact decide_eq_true (ne_of_mem_of_not_mem hc hspace)
      rw [Text.trimEnd_append_cons _ (by decide), List.takeWhile_append_of_pos hpass]
      simp [p.blank_space, Parameter.IsArray, hs]

/-- The type and the character that ends it are of the declaration, and not of its suffix. -/
theorem mem_of_mem_type {text front name : List Char} {c d : Char}
    (h : declarator text = front ++ c :: name) (hd : d ∈ Text.trim (front ++ [c])) :
    d ∈ text ∧ d ≠ '[' := by
  have hdeclarator : d ∈ declarator text := by
    rw [h, List.append_cons]
    exact List.mem_append_left _ (Text.mem_of_mem_trim hd)
  have htake := Text.mem_of_mem_trimEnd hdeclarator
  refine ⟨Text.mem_of_mem_trim ((List.takeWhile_sublist _).subset htake), ?_⟩
  simpa using List.mem_takeWhile_imp htake

/-- **What a declaration gives**: a name, behind the last character that no name has, and a type,
which ends with that character. -/
theorem parse_eq_ok_iff {text : List Char} {a : Argument} :
    parse text = .ok a ↔ ∃ front c name, declarator text = front ++ c :: name ∧
      isNameChar c = false ∧ ¬1 < c.utf8Size ∧ isIdentifier name = true ∧
      Text.trim (front ++ [c]) ≠ [] ∧
      make name (Text.trim (front ++ [c])) ((Text.trim text).contains '[') = a := by
  constructor
  · intro h
    rcases exists_last (declarator text) with hall | ⟨front, c, name, heq, hc, hname⟩
    · rw [parse_of_name hall] at h
      cases h
    · rw [parse_of_last heq hc hname] at h
      split at h
      · cases h
      · next hnarrow =>
          split at h
          · next hparts =>
              rw [Bool.and_eq_true, Bool.not_eq_true', List.isEmpty_eq_false_iff] at hparts
              exact ⟨front, c, name, heq, hc, hnarrow, hparts.1, hparts.2, Except.ok.inj h⟩
          · cases h
  · rintro ⟨front, c, name, heq, hc, hnarrow, hname, htype, rfl⟩
    have hparts : (isIdentifier name && !(Text.trim (front ++ [c])).isEmpty) = true := by
      rw [hname, List.isEmpty_eq_false_iff.2 htype]
      rfl
    rw [parse_of_last heq hc (isNameChar_of_identifier hname), if_neg hnarrow, if_pos hparts]

/-- A type, a space and a name are read as they are. -/
theorem parse_of_declarator {text type name : List Char}
    (h : declarator text = type ++ ' ' :: name) (hsnug : Text.Snug type) (hne : type ≠ [])
    (hname : isIdentifier name = true) :
    parse text = .ok (make name type ((Text.trim text).contains '[')) := by
  have htype : Text.trim (type ++ [' ']) = type := by
    rw [Text.trim_append_blank _ (by simp [Text.Blank, Text.isBlank]), hsnug.trim]
  refine parse_eq_ok_iff.2 ⟨type, ' ', name, h, rfl, by decide, hname, ?_, ?_⟩
  · rwa [htype]
  · rw [htype]

/-- **A parameter is read back as it is written.** -/
theorem parse_text (p : Parameter) : parse p.text = .ok p.argument := by
  obtain ⟨hblank, harray⟩ := takeWhile_end p
  set finish := Text.trimEnd (p.space ++ p.suffix) with hfinish
  have hwhole : Text.trim p.text = p.stem ++ finish :=
    Text.trim_append p.snug_stem p.stem_ne_nil _
  have hopen : '[' ∉ p.stem := p.not_mem_stem (by simp)
  have hdeclarator : declarator p.text = p.stem := by
    have hpass : ∀ c ∈ p.stem, decide (c ≠ '[') = true := by
      intro c hc
      exact decide_eq_true (ne_of_mem_of_not_mem hc hopen)
    rw [declarator, hwhole, List.takeWhile_append_of_pos hpass, Text.trimEnd_append_blank _ hblank,
      p.snug_stem.trimEnd]
  have hcontains : (Text.trim p.text).contains '[' = decide p.IsArray := by
    rw [Bool.eq_iff_iff, decide_eq_true_iff, ← harray, hwhole]
    simp [hopen]
  have hmake : make p.name p.type (decide p.IsArray) = p.argument := by
    simp [make, Parameter.argument]
  rw [parse_of_declarator hdeclarator p.snug_type p.type_ne_nil p.identifier, hcontains, hmake]

theorem splitOn_of_notMem {s : List Char} (h : ',' ∉ s) : s.splitOn ',' = [s] := by
  refine List.splitOnP_eq_singleton fun c hc => ?_
  exact beq_false_of_ne (ne_of_mem_of_not_mem hc h)

theorem splitOn_append {s : List Char} (h : ',' ∉ s) (rest : List Char) :
    (s ++ ',' :: rest).splitOn ',' = s :: rest.splitOn ',' := by
  refine List.splitOnP_append_cons_of_forall_mem (fun c hc => ?_) ',' rfl rest
  exact beq_false_of_ne (ne_of_mem_of_not_mem hc h)

/-- The parameters of a list are read back, with blanks before the first and without those after
the last. -/
theorem mapM_parse_textList {b : List Char} (hb : Text.Blank b) (ps : List Parameter)
    (hps : ps ≠ []) :
    ((Text.trimEnd (b ++ Parameter.textList ps)).splitOn ',').mapM parse =
      .ok (ps.map Parameter.argument) := by
  have hcomma : ',' ∉ b := by
    intro hmem
    exact absurd (hb ',' hmem) (by decide)
  induction ps generalizing b with
  | nil => exact absurd rfl hps
  | cons p ps ih =>
      have hp : ',' ∉ p.text := p.not_mem_text (by simp)
      by_cases hrest : ps = []
      · subst hrest
        have hsingle : ',' ∉ Text.trimEnd (b ++ p.text) := by
          obtain ⟨t, -, htext⟩ := Text.exists_trimEnd (b ++ p.text)
          intro hmem
          have : ',' ∈ b ++ p.text := by
            rw [htext]
            exact List.mem_append_left _ hmem
          exact (List.mem_append.1 this).elim hcomma hp
        have hparse : parse (Text.trimEnd (b ++ p.text)) = .ok p.argument := by
          rw [← parse_text p]
          exact parse_congr (by rw [Text.trim_trimEnd, Text.trim_blank_append hb])
        rw [Parameter.textList, splitOn_of_notMem hsingle, List.mapM_cons, hparse]
        rfl
      · have hblank : Text.Blank [' '] := by simp [Text.Blank, Text.isBlank]
        have hparse : parse (b ++ p.text) = .ok p.argument := by
          rw [← parse_text p]
          exact parse_congr (Text.trim_blank_append hb _)
        have hsplit : b ++ Parameter.textList (p :: ps) =
            (b ++ p.text) ++ ',' :: ([' '] ++ Parameter.textList ps) := by
          rw [Parameter.textList_cons p hrest]
          simp
        have hhead : ',' ∉ b ++ p.text := by simp [hcomma, hp]
        have htail := ih hblank hrest (by decide)
        rw [hsplit, Text.trimEnd_append_cons _ (by decide), splitOn_append hhead, List.mapM_cons,
          hparse, htail]
        rfl

/-- **A list of parameters is read back as it is written.** -/
theorem parseList_parameters (ps : List Parameter) :
    parseList (Parameter.textList ps) = .ok (ps.map Parameter.argument) := by
  cases ps with
  | nil => rfl
  | cons p ps =>
      obtain ⟨rest, htext⟩ := Parameter.exists_textList_cons p ps
      have htrim : Text.trim (Parameter.textList (p :: ps)) = p.stem ++ Text.trimEnd rest := by
        rw [htext, Text.trim_append p.snug_stem p.stem_ne_nil]
      have hlist : p.stem ++ Text.trimEnd rest =
          Text.trimEnd ([] ++ Parameter.textList (p :: ps)) := by
        rw [List.nil_append, htext, Text.trimEnd_append p.snug_stem.last]
      have hspace : ' ' ∈ p.stem ++ Text.trimEnd rest := by simp [Parameter.stem]
      have hvoid : p.stem ++ Text.trimEnd rest ≠ "void".toList := by
        intro heq
        rw [heq] at hspace
        exact absurd hspace (by decide)
      have hne : (p.stem ++ Text.trimEnd rest).isEmpty = false := by
        simp [p.stem_ne_nil]
      have hmap := mapM_parse_textList (b := []) (by simp [Text.Blank]) (p :: ps) (by simp)
      rw [← hlist] at hmap
      rw [parseList, htrim, hne, beq_false_of_ne hvoid]
      exact hmap

end Argument

/-! ### Declarations -/

namespace Declaration

theorem closing?_append {s : List Char} (h : ∀ c ∈ ['(', ')'], c ∉ s) (rest : List Char) :
    closing? 0 (s ++ ')' :: rest) = some (s, rest) := by
  induction s with
  | nil => rfl
  | cons c s ih =>
      have hopen : c ≠ '(' := fun hc => h '(' (by simp) (by simp [hc])
      have hclose : c ≠ ')' := fun hc => h ')' (by simp) (by simp [hc])
      have hdepth : depthAfter? 0 c = some 0 := by rw [depthAfter?, if_neg hopen, if_neg hclose]
      have hrest : ∀ c ∈ ['(', ')'], c ∉ s := by
        intro a ha hmem
        exact h a ha (List.mem_cons_of_mem _ hmem)
      rw [List.cons_append, closing?, hdepth]
      simp [ih hrest]

/-- The name of a kernel is found, whatever blanks stand around the result type. -/
theorem signature_head (line : Nat) (k : Prototype) : signature line k.head = .ok k.name := by
  have hvoid : ∀ c ∈ "void".toList, Text.isBlank c = false := by simp [Text.isBlank]
  have hwords : Text.words k.head = ["void".toList, k.name] := by
    rw [Prototype.head, List.append_assoc, List.append_assoc,
      Text.words_blank_append k.blank_before, ← List.append_assoc,
      Text.words_append_blank hvoid (by decide) k.blank_between k.between_ne_nil,
      Text.words_single (isBlank_of_identifier k.identifier) (ne_nil_of_identifier k.identifier)]
  rw [signature, hwords]
  simp [k.identifier]

theorem not_mem_head (k : Prototype) : '(' ∉ k.head := by
  have hblank : ∀ {b : List Char}, Text.Blank b → '(' ∉ b := by
    intro b hb hmem
    exact absurd (hb '(' hmem) (by decide)
  have hname : '(' ∉ k.name := not_mem_of_identifier k.identifier (by decide)
  have hvoid : '(' ∉ "void".toList := by decide
  simp only [Prototype.head, List.mem_append, not_or]
  exact ⟨⟨⟨hblank k.blank_before, hvoid⟩, hblank k.blank_between⟩, hname⟩

/-- The next kernel is the one whose declaration comes first. -/
theorem next?_text (line : Nat) (k : Prototype) (rest : List Char) :
    ∃ line', next? line (k.text ++ rest) = .ok (some (k.declaration, line', rest)) := by
  have hmarker : Text.cut? marker (k.text ++ rest) =
      some (k.lead, k.head ++ '(' :: (Parameter.textList k.parameters ++ ')' :: rest)) := by
    have hcut := Text.cut?_append unbordered_marker k.unmarked_lead
      (k.head ++ '(' :: (Parameter.textList k.parameters ++ ')' :: rest))
    rw [Prototype.text, ← hcut]
    simp only [List.append_assoc, List.cons_append, List.nil_append]
  have hopen := Text.cut?_char (not_mem_head k) (Parameter.textList k.parameters ++ ')' :: rest)
  have hclose : closing? 0 (Parameter.textList k.parameters ++ ')' :: rest) =
      some (Parameter.textList k.parameters, rest) :=
    closing?_append (fun c hc => Parameter.not_mem_textList hc _) rest
  have harguments : ∀ line, argumentsAt line (Parameter.textList k.parameters) =
      .ok (k.parameters.map Parameter.argument) := by
    intro line
    rw [argumentsAt, Argument.parseList_parameters]
    rfl
  rw [next?, hmarker]
  simp only [hopen, signature_head, hclose, harguments, bind, Except.bind]
  exact ⟨_, rfl⟩

/-- The kernels of a source, from whatever line it starts on. -/
theorem scanFrom_source (line : Nat) (ks : List Prototype) {last : List Char}
    (hlast : ¬marker <:+: last) :
    scanFrom line (Prototype.source ks last) = .ok (ks.map Prototype.declaration) := by
  induction ks generalizing line with
  | nil =>
      have hnone : next? line (Prototype.source [] last) = .ok none := by
        rw [next?, Prototype.source, List.flatMap_nil, List.nil_append, Text.cut?_eq_none hlast]
      rw [scanFrom]
      split
      · next heq => simp [hnone] at heq
      · rfl
      · next heq => simp [hnone] at heq
  | cons k ks ih =>
      obtain ⟨line', hnext⟩ := next?_text line k (Prototype.source ks last)
      have hsource : Prototype.source (k :: ks) last = k.text ++ Prototype.source ks last := by
        simp [Prototype.source]
      rw [← hsource] at hnext
      rw [scanFrom]
      split
      · next heq => simp [hnext] at heq
      · next heq => simp [hnext] at heq
      · next heq =>
          rw [hnext] at heq
          cases heq
          rw [ih]
          rfl

/-- **The kernels of a source are those that it declares, in their order.** -/
theorem scan_source (ks : List Prototype) {last : List Char} (hlast : ¬marker <:+: last) :
    scan (Prototype.source ks last) = .ok (ks.map Prototype.declaration) :=
  scanFrom_source 1 ks hlast

end Declaration

/-! ### Translations -/

namespace Translation

section

variable {b : Backend} {ds : List Declaration}

theorem names_launches (b : Backend) (ds : List Declaration) :
    (ds.map fun d => (d.name, d.launch (dialect b))).map (·.1) = ds.map Declaration.name := by
  rw [List.map_map]
  rfl

/-- The kernels of a table are those that are declared. -/
theorem mem_keys_iff (hnames : (ds.map Declaration.name).Nodup) (name : String) :
    name ∈ (table b ds).keys ↔ name ∈ ds.map Declaration.name := by
  rw [SortedMap.mem_keys_iff, table, SortedMap.get?_ofList (by rwa [names_launches]),
    ← SortedMap.mem_map_fst_iff, names_launches]

/-- Each declared kernel is in the table. -/
theorem get?_of_mem (hnames : (ds.map Declaration.name).Nodup) {d : Declaration} (hd : d ∈ ds) :
    (table b ds).get? d.name = some (d.launch (dialect b)) := by
  have hpairs : ((ds.map fun d => (d.name, d.launch (dialect b))).map (·.1)).Nodup := by
    rwa [names_launches]
  rw [table, SortedMap.get?_ofList hpairs]
  exact SortedMap.find?_of_mem hpairs (List.mem_map_of_mem hd)

/-- What a table knows of a kernel is what its declaration says. -/
theorem exists_of_get? (hnames : (ds.map Declaration.name).Nodup) {name : String} {l : Launch}
    (h : (table b ds).get? name = some l) :
    ∃ d ∈ ds, d.name = name ∧ d.launch (dialect b) = l := by
  have hname := (mem_keys_iff hnames name).1 (SortedMap.mem_keys_iff.2 ⟨l, h⟩)
  obtain ⟨d, hd, rfl⟩ := List.mem_map.1 hname
  rw [get?_of_mem hnames hd] at h
  exact ⟨d, hd, rfl, Option.some.inj h⟩

end

variable {b : Backend} {ks : List Prototype}

/-- The launch of a written kernel. -/
theorem launch_declaration (k : Prototype) (dialect : String) : k.declaration.launch dialect =
    ⟨"__kiln_launch_" ++ String.ofList k.name, dialect,
      k.parameters.map Parameter.argument⟩ := rfl

theorem names_declarations (ks : List Prototype) :
    (ks.map Prototype.declaration).map Declaration.name = ks.map fun k => String.ofList k.name := by
  rw [List.map_map]
  rfl

theorem nodup_declarations (hnames : (ks.map Prototype.name).Nodup) :
    ((ks.map Prototype.declaration).map Declaration.name).Nodup := by
  have hinjective : Function.Injective String.ofList := fun _ _ heq => String.ofList_injective heq
  have hmap := List.Nodup.map hinjective hnames
  rw [List.map_map] at hmap
  rw [names_declarations]
  exact hmap

/-- The kernels of a table are those that are written. -/
theorem mem_keys_table (hnames : (ks.map Prototype.name).Nodup) (name : String) :
    name ∈ (table b (ks.map Prototype.declaration)).keys ↔
      name ∈ ks.map fun k => String.ofList k.name := by
  rw [mem_keys_iff (nodup_declarations hnames), names_declarations]

/-- Each written kernel is in the table. -/
theorem get?_table (hnames : (ks.map Prototype.name).Nodup) {k : Prototype} (hk : k ∈ ks) :
    (table b (ks.map Prototype.declaration)).get? (String.ofList k.name) =
      some (k.declaration.launch (dialect b)) :=
  get?_of_mem (nodup_declarations hnames) (List.mem_map_of_mem hk)

end Translation

/-- **The translation of a source has the kernels that it declares and no others**, each with its
parameters, in their order. -/
theorem translate_source (ks : List Prototype) {last : List Char}
    (hlast : ¬Declaration.marker <:+: last) (hnames : (ks.map Prototype.name).Nodup)
    {r : TranslationRequest} (hlanguage : r.language = .c)
    (hsource : r.source = String.ofList (Prototype.source ks last))
    (hfunction : r.function ∈ ks.map fun k => String.ofList k.name) :
    ∃ t, translate r = .ok t ∧
      (∀ name, name ∈ t.kernels.keys ↔ name ∈ ks.map fun k => String.ofList k.name) ∧
      ∀ k ∈ ks, t.kernels.get? (String.ofList k.name) = some
        ⟨"__kiln_launch_" ++ String.ofList k.name, Translation.dialect r.backend,
          k.parameters.map Parameter.argument⟩ := by
  have htext : Translation.ofText r.backend r.flags r.source =
      .ok ⟨Translation.text r.backend r.flags r.source (ks.map Prototype.declaration),
        Translation.table r.backend (ks.map Prototype.declaration)⟩ := by
    rw [Translation.ofText, hsource, String.toList_ofList, Declaration.scan_source ks hlast]
    rfl
  have hcontains : (Translation.table r.backend (ks.map Prototype.declaration)).contains
      r.function := by
    obtain ⟨v, hv⟩ :=
      SortedMap.mem_keys_iff.1 ((Translation.mem_keys_table hnames _).2 hfunction)
    rw [SortedMap.contains, hv]
    rfl
  refine ⟨_, translate_eq_ok_iff.2 ⟨hlanguage, htext, hcontains⟩, ?_, ?_⟩
  · intro name
    exact Translation.mem_keys_table hnames name
  · intro k hk
    rw [← Translation.launch_declaration]
    exact Translation.get?_table hnames hk

namespace TwoKernels

/-- An array of floats. -/
def x : Parameter where
  type := "float".toList
  name := "x".toList
  space := []
  suffix := "[]".toList
  type_ne_nil := by decide +kernel
  snug_type := ⟨by simp [Text.isBlank], by simp [Text.isBlank]⟩
  plain_type := by simp
  identifier := by decide +kernel
  blank_space := by decide +kernel
  head_suffix := by decide +kernel
  plain_suffix := by simp

/-- A number. -/
def n : Parameter where
  type := "const int".toList
  name := "n".toList
  space := []
  suffix := []
  type_ne_nil := by decide +kernel
  snug_type := ⟨by simp [Text.isBlank], by simp [Text.isBlank]⟩
  plain_type := by simp
  identifier := by decide +kernel
  blank_space := by decide +kernel
  head_suffix := by decide +kernel
  plain_suffix := by simp

/-- A kernel at the start of a text. -/
def zero : Prototype where
  lead := []
  before := " ".toList
  between := " ".toList
  name := "zero".toList
  parameters := [x, n]
  unmarked_lead := by decide +kernel
  blank_before := by decide +kernel
  before_ne_nil := by decide +kernel
  blank_between := by decide +kernel
  between_ne_nil := by decide +kernel
  identifier := by decide +kernel

/-- A kernel after the body of another. -/
def noop : Prototype where
  lead := " \x7b @kern \x7d\n".toList
  before := "\t".toList
  between := "\n ".toList
  name := "noop".toList
  parameters := []
  unmarked_lead := by decide +kernel
  blank_before := by decide +kernel
  before_ne_nil := by decide +kernel
  blank_between := by decide +kernel
  between_ne_nil := by decide +kernel
  identifier := by decide +kernel

/-- A request for the second kernel of a source. -/
def request : TranslationRequest where
  source :=
    "@kernel void zero(float x[], const int n) \x7b @kern \x7d\n@kernel\tvoid\n noop() ;"
  path := ⟨Utf8.encode "k.c"⟩
  backend := .serial
  language := .c
  function := "noop"
  flags := Flags.none

/-- Both kernels are found, with their parameters. -/
theorem translate_request : ∃ t, translate request = .ok t ∧
    (∀ name, name ∈ t.kernels.keys ↔ name ∈ ["zero", "noop"]) ∧
    t.kernels.get? "zero" = some ⟨"__kiln_launch_zero", "c-serial",
      [⟨"x", "float *", .pointer⟩, ⟨"n", "const int", .scalar⟩]⟩ := by
  obtain ⟨t, ht, hnames, hkernels⟩ := translate_source [zero, noop] (r := request)
    (show ¬Declaration.marker <:+: " ;".toList by decide) (by decide) rfl rfl (by decide)
  exact ⟨t, ht, hnames, hkernels zero (by simp)⟩

end TwoKernels

end KernelCache
