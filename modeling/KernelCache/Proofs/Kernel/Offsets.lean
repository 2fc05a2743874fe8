/-
**Scanning a source by byte offsets.**

The scan of a source can be made with the source kept whole: every place in it is an offset in
bytes, and what stands between two places is cut out of it.  A cut at an offset where no character
ends breaks the scan off, and so does a parenthesis that is closed before it was opened.

Main definitions:

* `Offsets.parse`, `Offsets.parseList` — the parameters of a list;
* `Offsets.matching?` — the end of a parenthesis;
* `Offsets.next`, `Offsets.scan` — the kernels of a source;
* `Offsets.translate` — the translation.

Main results:

* `Offsets.parse_eq` — only the cut between type and name can break off;
* `Offsets.matching?_eq` — parentheses are counted without going below zero;
* `Offsets.scan_eq` — **both ways to scan agree**;
* `Offsets.translate_eq` — both ways to translate agree;
* `Offsets.translate_breaks_off_iff` — **which translations break off**.
-/

import KernelCache.Proofs.Kernel.Reading
import KernelCache.Proofs.Kernel.Translation
import KernelCache.Proofs.Text.Slice

set_option relaxedAutoImplicit false
set_option autoImplicit false

namespace KernelCache

open String (utf8Len)

namespace Offsets

/-! ### Breaking off -/

section

variable {ε ε' α β : Type}

/-- The outcome of a computation, of whose faults some break it off. -/
def outcome (keep : ε → Option ε') : Except ε α → ExceptT ε' Option α
  | .ok a => some (.ok a)
  | .error e => (keep e).map Except.error

/-- Answers a fault with another computation. -/
def answer (x : ExceptT ε Option α) (handle : ε → ExceptT ε' Option α) : ExceptT ε' Option α :=
  match x with
  | none => none
  | some (.error e) => handle e
  | some (.ok a) => some (.ok a)

@[simp] theorem lift_some (a : α) : (liftM (some a) : ExceptT ε Option α) = pure a := rfl

@[simp] theorem outcome_pure (keep : ε → Option ε') (a : α) :
    outcome keep (pure a) = (pure a : ExceptT ε' Option α) := rfl

theorem outcome_error_bind (keep : ε → Option ε') (e : ε) (f : α → ExceptT ε' Option β) :
    (outcome keep (.error e) >>= f) = outcome keep (.error e) := by
  cases h : keep e <;> simp only [outcome, h] <;> rfl

theorem outcome_bind (keep : ε → Option ε') (x : Except ε α) (f : α → Except ε β) :
    outcome keep (x >>= f) = outcome keep x >>= fun a => outcome keep (f a) := by
  cases x with
  | ok a => rfl
  | error e => exact (outcome_error_bind keep e _).symm

theorem outcome_mapM (keep : ε → Option ε') {f : α → ExceptT ε' Option β} {g : α → Except ε β}
    (h : ∀ a, f a = outcome keep (g a)) (l : List α) :
    l.mapM f = outcome keep (l.mapM g) := by
  induction l with
  | nil => rfl
  | cons a l ih => simp only [List.mapM_cons, outcome_bind, h, ih, outcome_pure]

end

/-! ### Parameters -/

/-- The fault of a declaration that does not break off. -/
def unclear? : Argument.Fault → Option String
  | .unclear declaration => some declaration
  | .insideCharacter => none

/-- A declaration without the suffix of an array. -/
def withoutSuffix (whole : List Char) : Option (List Char) :=
  match Text.find? (· = '[') whole with
  | some bracket => Text.upTo? bracket whole
  | none => some whole

/-- Where the name of a declaration starts. -/
def nameStart (declaration : List Char) : Nat :=
  match Text.rfind? (!isNameChar ·) declaration with
  | some last => last + 1
  | none => 0

/-- The argument that a text declares. -/
def parse (text : List Char) : ExceptT String Option Argument := do
  let whole := Text.trim text
  let declaration := Text.trimEnd (← withoutSuffix whole)
  let name ← Text.from? (nameStart declaration) declaration
  let type := Text.trim (← Text.upTo? (nameStart declaration) declaration)
  if isIdentifier name && !type.isEmpty then
    return Argument.make name type (Text.find? (· = '[') whole).isSome
  else throw (String.ofList whole)

/-- The arguments that a parameter list declares. -/
def parseList (text : List Char) : ExceptT String Option (List Argument) :=
  let list := Text.trim text
  if list.isEmpty || list == "void".toList then pure []
  else (list.splitOn ',').mapM parse

theorem withoutSuffix_eq (whole : List Char) :
    withoutSuffix whole = some (whole.takeWhile (· ≠ '[')) ∧
      (Text.find? (· = '[') whole).isSome = whole.contains '[' := by
  by_cases h : '[' ∈ whole
  · obtain ⟨front, rest, rfl, hfront⟩ := List.eq_append_cons_of_mem h
    have hpass : ∀ c ∈ front, decide (c = '[') = false := by
      intro c hc
      exact decide_eq_false (ne_of_mem_of_not_mem hc hfront)
    have htake : (front ++ '[' :: rest).takeWhile (· ≠ '[') = front := by
      rw [List.takeWhile_append_of_pos fun c hc => by simpa using hpass c hc]
      simp
    rw [withoutSuffix, Text.find?_append hpass (by decide), htake]
    simp
  · have hpass : ∀ c ∈ whole, decide (c = '[') = false := by
      intro c hc
      exact decide_eq_false (ne_of_mem_of_not_mem hc h)
    have htake : whole.takeWhile (· ≠ '[') = whole :=
      List.takeWhile_eq_self_iff.2 fun c hc => by simpa using hpass c hc
    rw [withoutSuffix, Text.find?_eq_none hpass, htake]
    simpa using h

/-- The cut between type and name breaks off inside a character, and nowhere else. -/
theorem parse_eq (text : List Char) : parse text = outcome unclear? (Argument.parse text) := by
  obtain ⟨hsuffix, harray⟩ := withoutSuffix_eq (Text.trim text)
  rw [parse, hsuffix, harray]
  simp only [lift_some, pure_bind]
  rw [← Argument.declarator]
  rcases Argument.exists_last (Argument.declarator text)
    with hall | ⟨front, c, name, heq, hc, hname⟩
  · -- Without another character the name starts the declaration, and no type is left.
    have hstart : nameStart (Argument.declarator text) = utf8Len [] := by
      rw [nameStart, Text.rfind?_eq_none fun c hc => by rw [hall c hc]; rfl]
      rfl
    have hfrom := Text.from?_append [] (Argument.declarator text)
    have hupTo := Text.upTo?_append [] (Argument.declarator text)
    have htype : (Text.trim []).isEmpty = true := rfl
    rw [List.nil_append] at hfrom hupTo
    rw [Argument.parse_of_name hall, hstart, hfrom, hupTo]
    simp only [lift_some, pure_bind, htype, Bool.not_true, Bool.and_false]
    rfl
  · have hlast : Text.rfind? (!isNameChar ·) (front ++ c :: name) = some (utf8Len front) :=
      Text.rfind?_append front (by rw [hc]; rfl) fun d hd => by rw [hname d hd]; rfl
    have hstart : nameStart (front ++ c :: name) = utf8Len front + 1 := by rw [nameStart, hlast]
    have hpos := c.utf8Size_pos
    rw [Argument.parse_of_last heq hc hname, heq, hstart]
    by_cases hwide : 1 < c.utf8Size
    · have hcut : Text.cutAt? (utf8Len front + 1) (front ++ c :: name) = none :=
        Text.cutAt?_eq_none_of_inside (by omega) (by omega)
      rw [if_pos hwide, Text.from?, hcut]
      rfl
    · have hsplit : front ++ c :: name = front ++ [c] ++ name := by simp
      have hsize : utf8Len front + 1 = utf8Len (front ++ [c]) := by
        rw [String.utf8Len_append, String.utf8Len_cons, String.utf8Len_nil]
        omega
      rw [if_neg hwide, hsplit, hsize, Text.from?_append, Text.upTo?_append]
      simp only [lift_some, pure_bind]
      split <;> rfl

theorem parseList_eq (text : List Char) :
    parseList text = outcome unclear? (Argument.parseList text) := by
  rw [parseList, Argument.parseList]
  split
  · rfl
  · exact outcome_mapM unclear? parse_eq _

/-! ### Parentheses -/

/-- The offset of the parenthesis that closes the outermost one, where some are open already.
Closing one that is not open breaks off. -/
def matching? : (depth offset : Nat) → List Char → Option (Option Nat)
  | _, _, [] => some none
  | depth, offset, c :: s =>
    if c = '(' then matching? (depth + 1) (offset + c.utf8Size) s
    else if c = ')' then
      if depth = 0 then none
      else if depth - 1 = 0 then some (some offset)
      else matching? (depth - 1) (offset + c.utf8Size) s
    else matching? depth (offset + c.utf8Size) s

theorem map_utf8Len_cons (offset : Nat) (c : Char) (parts? : Option (List Char × List Char)) :
    (parts?.map fun parts => (c :: parts.1, parts.2)).map (fun parts => offset + utf8Len parts.1) =
      parts?.map fun parts => offset + c.utf8Size + utf8Len parts.1 := by
  cases parts? with
  | none => rfl
  | some parts =>
      simp only [Option.map_some, String.utf8Len_cons, Option.some.injEq]
      omega

/-- Within an open parenthesis the count does not go below zero. -/
theorem matching?_eq (depth offset : Nat) (s : List Char) :
    matching? (depth + 1) offset s =
      some ((Declaration.closing? depth s).map fun parts => offset + utf8Len parts.1) := by
  induction s generalizing depth offset with
  | nil => rfl
  | cons c s ih =>
      rw [matching?, Declaration.closing?, Declaration.depthAfter?]
      by_cases hopen : c = '('
      · rw [if_pos hopen, if_pos hopen, ih]
        exact congrArg some (map_utf8Len_cons offset c _).symm
      by_cases hclose : c = ')'
      · rw [if_neg hopen, if_neg hopen, if_pos hclose, if_pos hclose,
          if_neg (Nat.succ_ne_zero depth), Nat.add_sub_cancel]
        cases depth with
        | zero => simp
        | succ depth =>
            rw [if_neg (Nat.succ_ne_zero depth), if_neg (Nat.succ_ne_zero depth), ih]
            exact congrArg some (map_utf8Len_cons offset c _).symm
      · rw [if_neg hopen, if_neg hopen, if_neg hclose, if_neg hclose, ih]
        exact congrArg some (map_utf8Len_cons offset c _).symm

/-- The count starts with the parenthesis that opens. -/
theorem matching?_opening (body : List Char) : matching? 0 0 ('(' :: body) =
    some ((Declaration.closing? 0 body).map fun parts => 1 + utf8Len parts.1) :=
  matching?_eq 0 1 body

/-! ### Kernels -/

/-- A fault at an offset. -/
def malformed {α : Type} (src : List Char) (offset : Nat) (reason : Declaration.Reason) :
    ExceptT (Nat × Declaration.Reason) Option α := do
  let before ← Text.upTo? offset src
  throw (Text.newlines before + 1, reason)

/-- The name between a marker and a parameter list. -/
def signature (src : List Char) (found : Nat) (text : List Char) :
    ExceptT (Nat × Declaration.Reason) Option (List Char) :=
  match Text.words text with
  | [result, name] =>
    if result ≠ "void".toList then malformed src found .notVoid
    else if isIdentifier name then pure name
    else malformed src found .noSignature
  | _ => malformed src found .noSignature

/-- The arguments of a list that opens at an offset. -/
def argumentsAt (src : List Char) (opening : Nat) (text : List Char) :
    ExceptT (Nat × Declaration.Reason) Option (List Argument) :=
  answer (parseList text) fun declaration => malformed src opening (.unclearParameter declaration)

/-- The parameters of the list that opens at an offset, with the offset where it is closed. -/
def listAt (src : List Char) (opening : Nat) :
    ExceptT (Nat × Declaration.Reason) Option (List Argument × Nat) := do
  match ← matching? 0 0 (← Text.from? opening src) with
  | none => malformed src opening .unterminated
  | some offset =>
    let closing := opening + offset
    let arguments ← argumentsAt src opening (← Text.between? (opening + 1) closing src)
    return (arguments, closing)

/-- The kernel whose marker is at an offset, with the offset where its parameter list is closed. -/
def kernelAt (src : List Char) (found : Nat) :
    ExceptT (Nat × Declaration.Reason) Option (Declaration × Nat) := do
  let after := found + utf8Len Declaration.marker
  match Text.findText? ['('] (← Text.from? after src) with
  | none => malformed src found .noParameterList
  | some offset =>
    let opening := after + offset
    let name ← signature src found (← Text.between? after opening src)
    let (arguments, closing) ← listAt src opening
    return (⟨String.ofList name, arguments⟩, closing)

/-- The first kernel from an offset on, with the offset where its parameter list is closed. -/
def next (src : List Char) (start : Nat) :
    ExceptT (Nat × Declaration.Reason) Option (Option (Declaration × Nat)) := do
  match Text.findText? Declaration.marker (← Text.from? start src) with
  | none => return none
  | some offset => return some (← kernelAt src (start + offset))

/-- The fault of a scan that does not break off. -/
def malformed? : Declaration.Fault → Option (Nat × Declaration.Reason)
  | .malformed line reason => some (line, reason)
  | .insideCharacter => none

theorem malformed_eq {α : Type} (a b : List Char) (reason : Declaration.Reason) :
    malformed (α := α) (a ++ b) (utf8Len a) reason =
      outcome malformed? (.error (.malformed (Text.newlines a + 1) reason)) := by
  rw [malformed, Text.upTo?_append]
  rfl

theorem signature_eq (a b text : List Char) :
    signature (a ++ b) (utf8Len a) text =
      outcome malformed? (Declaration.signature (Text.newlines a + 1) text) := by
  rw [signature, Declaration.signature]
  rcases Text.words text with _ | ⟨result, _ | ⟨name, _ | ⟨third, rest⟩⟩⟩
  · exact malformed_eq a b _
  · exact malformed_eq a b _
  · dsimp only
    split
    · exact malformed_eq a b _
    · split
      · rfl
      · exact malformed_eq a b _
  · exact malformed_eq a b _

theorem argumentsAt_eq (a b text : List Char) :
    argumentsAt (a ++ b) (utf8Len a) text =
      outcome malformed? (Declaration.argumentsAt (Text.newlines a + 1) text) := by
  rw [argumentsAt, Declaration.argumentsAt, parseList_eq]
  cases Argument.parseList text with
  | ok arguments => rfl
  | error fault =>
      cases fault with
      | unclear declaration => exact malformed_eq a b _
      | insideCharacter => rfl

/-- What opens at an offset agrees with the list that the scan reads there. -/
theorem listAt_eq (q body : List Char) : listAt (q ++ '(' :: body) (utf8Len q) =
    outcome malformed? (match Declaration.closing? 0 body with
      | none => .error (.malformed (Text.newlines q + 1) .unterminated)
      | some (inside, _) =>
        (Declaration.argumentsAt (Text.newlines q + 1) inside).map fun arguments =>
          (arguments, utf8Len q + 1 + utf8Len inside)) := by
  rw [listAt, Text.from?_append]
  simp only [lift_some, pure_bind]
  rw [matching?_opening]
  simp only [lift_some, pure_bind]
  cases hclose : Declaration.closing? 0 body with
  | none => exact malformed_eq q _ _
  | some parts =>
      obtain ⟨inside, rest⟩ := parts
      have hinside : Text.between? (utf8Len q + 1) (utf8Len q + 1 + utf8Len inside)
          (q ++ '(' :: body) = some inside := by
        have hq : utf8Len q + 1 = utf8Len (q ++ ['(']) := by
          rw [String.utf8Len_append]
          rfl
        have hsplit : q ++ '(' :: body = q ++ ['('] ++ inside ++ (')' :: rest) := by
          rw [Declaration.parts_of_closing? hclose]
          simp
        rw [hq, hsplit, Text.between?_append]
      simp only [Option.map_some, ← Nat.add_assoc]
      rw [hinside]
      simp only [lift_some, pure_bind]
      rw [argumentsAt_eq]
      cases Declaration.argumentsAt (Text.newlines q + 1) inside with
      | error fault => exact outcome_error_bind malformed? fault _
      | ok arguments => rfl

/-- The parameter list is closed as far from the end as there is text left to scan. -/
theorem sub_rest_of_closing? {q body inside rest : List Char}
    (hclose : Declaration.closing? 0 body = some (inside, rest)) :
    utf8Len (q ++ '(' :: body) - utf8Len (')' :: rest) = utf8Len q + 1 + utf8Len inside := by
  have hopening : '('.utf8Size = 1 := rfl
  rw [Declaration.parts_of_closing? hclose]
  simp only [String.utf8Len_append, String.utf8Len_cons, hopening]
  omega

/-- What follows on the name of a kernel agrees with the scan of what is left of the source. -/
theorem kernelOf_eq (q body : List Char) (name : String) :
    (do
      let found ← (do
        let (arguments, closing) ← listAt (q ++ '(' :: body) (utf8Len q)
        return ((⟨name, arguments⟩ : Declaration), closing))
      return some found) =
    outcome malformed? (Except.map
      (fun found? : Option (Declaration × Nat × List Char) => found?.map fun found =>
        (found.1, utf8Len (q ++ '(' :: body) - utf8Len (')' :: found.2.2)))
      (match Declaration.closing? 0 body with
        | none => throw (.malformed (Text.newlines q + 1) .unterminated)
        | some (inside, rest) => do
          let arguments ← Declaration.argumentsAt (Text.newlines q + 1) inside
          return some (⟨name, arguments⟩, Text.newlines q + 1 + Text.newlines inside, rest))) := by
  rw [listAt_eq]
  cases hclose : Declaration.closing? 0 body with
  | none =>
      dsimp only
      rw [bind_assoc, outcome_error_bind]
      rfl
  | some parts =>
      obtain ⟨inside, rest⟩ := parts
      dsimp only
      cases Declaration.argumentsAt (Text.newlines q + 1) inside with
      | error fault =>
          rw [Except.map, bind_assoc, outcome_error_bind]
          rfl
      | ok arguments =>
          rw [← sub_rest_of_closing? hclose]
          rfl

/-- What is found at a marker agrees with the scan of what is left of the source. -/
theorem kernelAt_eq {a s before after : List Char}
    (hmarker : Text.cut? Declaration.marker s = some (before, after)) :
    (do return some (← kernelAt (a ++ s) (utf8Len a + utf8Len before))) =
      outcome malformed? ((Declaration.next? (Text.newlines a + 1) s).map fun found? =>
        found?.map fun found => (found.1, utf8Len (a ++ s) - utf8Len (')' :: found.2.2))) := by
  have hs : a ++ s = a ++ before ++ (Declaration.marker ++ after) := by
    rw [Text.cut?_eq hmarker]
    simp only [List.append_assoc]
  have hafter : Text.from? (utf8Len (a ++ before) + utf8Len Declaration.marker) (a ++ s) =
      some after := by
    rw [hs, ← List.append_assoc, ← String.utf8Len_append, Text.from?_append]
  have hline : Text.newlines a + 1 + Text.newlines before = Text.newlines (a ++ before) + 1 := by
    rw [Declaration.newlines_append]
    omega
  rw [kernelAt, ← String.utf8Len_append, hafter, Declaration.next?, hmarker]
  simp only [lift_some, pure_bind, hline]
  -- Only what stands before the marker counts from here on, not where this turn started.
  generalize a ++ before = p at hs
  cases hopen : Text.cut? ['('] after with
  | none =>
      rw [Text.findText?, hopen]
      simp only [Option.map_none]
      rw [hs, malformed_eq, outcome_error_bind]
      rfl
  | some parts =>
      obtain ⟨head, body⟩ := parts
      have hparts : a ++ s = p ++ Declaration.marker ++ head ++ '(' :: body := by
        rw [hs, Text.cut?_eq hopen]
        simp
      have hhead : Text.between? (utf8Len p + utf8Len Declaration.marker)
          (utf8Len p + utf8Len Declaration.marker + utf8Len head) (a ++ s) = some head := by
        rw [hparts, ← String.utf8Len_append, Text.between?_append]
      have hlist : Text.newlines p + 1 + Text.newlines head =
          Text.newlines (p ++ Declaration.marker ++ head) + 1 := by
        rw [Declaration.newlines_append, Declaration.newlines_append]
        have hmarker : Text.newlines Declaration.marker = 0 := by decide
        omega
      rw [Text.findText?, hopen]
      simp only [Option.map_some]
      rw [hhead]
      simp only [lift_some, pure_bind, hlist, ← String.utf8Len_append]
      rw [hs, signature_eq, ← hs]
      cases Declaration.signature (Text.newlines p + 1) head with
      | error fault =>
          rw [outcome_error_bind, outcome_error_bind]
          rfl
      | ok name =>
          rw [hparts]
          generalize p ++ Declaration.marker ++ head = q
          exact kernelOf_eq q body (String.ofList name)

/-- One turn of the scan agrees with the scan of what is left of the source. -/
theorem next_eq (a s : List Char) : next (a ++ s) (utf8Len a) =
    outcome malformed? ((Declaration.next? (Text.newlines a + 1) s).map fun found? =>
      found?.map fun found => (found.1, utf8Len (a ++ s) - utf8Len (')' :: found.2.2))) := by
  rw [next, Text.from?_append]
  simp only [lift_some, pure_bind]
  cases hmarker : Text.cut? Declaration.marker s with
  | none =>
      rw [Text.findText?, hmarker, Declaration.next?, hmarker]
      rfl
  | some parts =>
      rw [Text.findText?, hmarker]
      exact kernelAt_eq hmarker

/-! ### Sources -/

/-- A parenthesis that is closed does not start a kernel. -/
theorem scanFrom_cons_closing (line : Nat) (s : List Char) :
    Declaration.scanFrom line (')' :: s) = Declaration.scanFrom line s := by
  have hjoin : ¬Text.Straddles Declaration.marker [')'] s :=
    Text.not_straddles_of_getLast? (fun c hc => by
      obtain rfl : ')' = c := Option.some.inj hc
      decide) s
  exact Declaration.scanFrom_append_of_unmarked (by decide) hjoin line

/-- A turn that finds a kernel ends where the parameter list of the kernel is closed. -/
theorem next_of_opening (a : List Char) {s : List Char} (k : Declaration.Opening s) :
    next (a ++ s) (utf8Len a) =
      outcome malformed? (match Argument.parseList k.inside with
        | .error fault => .error (.ofArgument (k.lineAt (Text.newlines a + 1)) fault)
        | .ok arguments =>
          .ok (some (⟨String.ofList k.name, arguments⟩, utf8Len (a ++ k.passed)))) := by
  have hend : utf8Len (a ++ s) - utf8Len (')' :: k.rest) = utf8Len (a ++ k.passed) := by
    have hsize := congrArg utf8Len k.passed_append
    simp only [String.utf8Len_append] at hsize ⊢
    omega
  rw [next_eq, k.next?_eq]
  cases Argument.parseList k.inside with
  | error fault => rfl
  | ok arguments =>
      rw [← hend]
      rfl

/-- A turn that finds a kernel goes on in the source. -/
theorem lt_of_next {src : List Char} {start closing : Nat} {d : Declaration}
    (h : next src start = some (.ok (some (d, closing)))) :
    start < closing ∧ closing ≤ utf8Len src := by
  cases hcut : Text.cutAt? start src with
  | none =>
      rw [next, Text.from?, hcut] at h
      cases h
  | some parts =>
      obtain ⟨a, s⟩ := parts
      obtain ⟨rfl, rfl⟩ := Text.parts_of_cutAt? hcut
      rcases Declaration.next?_cases (Text.newlines a + 1) s with
      ⟨⟨k⟩⟩ | ⟨-, hnone⟩ | ⟨_, _, hfault⟩
      · rw [next_of_opening a k] at h
        cases hlist : Argument.parseList k.inside with
        | error fault =>
            rw [hlist] at h
            cases fault <;> cases h
        | ok arguments =>
            rw [hlist] at h
            cases h
            have hpassed : utf8Len k.passed ≠ 0 := fun hzero =>
              k.passed_ne_nil (String.utf8Len_eq_zero.1 hzero)
            have hsize := congrArg utf8Len k.passed_append
            simp only [String.utf8Len_append] at hsize ⊢
            omega
      · rw [next_eq, hnone] at h
        cases h
      · rw [next_eq, hfault] at h
        cases h

/-- The kernels of a source from an offset on. -/
def scanFrom (src : List Char) (start : Nat) :
    ExceptT (Nat × Declaration.Reason) Option (List Declaration) :=
  match _h : next src start with
  | none => none
  | some (.error fault) => some (.error fault)
  | some (.ok none) => some (.ok [])
  | some (.ok (some (d, closing))) => do return d :: (← scanFrom src closing)
termination_by utf8Len src - start
decreasing_by
  have := lt_of_next _h
  omega

/-- The kernels of a source, in their order. -/
def scan (src : List Char) : ExceptT (Nat × Declaration.Reason) Option (List Declaration) :=
  scanFrom src 0

/-- The scan by offsets agrees with the scan of what is left of the source. -/
theorem scanFrom_eq (a s : List Char) : scanFrom (a ++ s) (utf8Len a) =
    outcome malformed? (Declaration.scanFrom (Text.newlines a + 1) s) := by
  -- After a kernel one scan goes on at the parenthesis that closes its list and the other behind
  -- it, so the induction is on the length of what is left.
  induction hn : s.length using Nat.strong_induction_on generalizing a s with
  | _ n ih =>
    rcases Declaration.next?_cases (Text.newlines a + 1) s with
      ⟨⟨k⟩⟩ | ⟨-, hnone⟩ | ⟨_, _, hfault⟩
    · have hnext := next_of_opening a k
      rw [k.scanFrom_eq]
      cases hlist : Argument.parseList k.inside with
      | error fault =>
          rw [hlist] at hnext
          rw [scanFrom, hnext]
          cases fault <;> rfl
      | ok arguments =>
          rw [hlist] at hnext
          have hlength : (')' :: k.rest).length < n := by
            rw [List.length_cons]
            exact hn ▸ k.length_rest_lt
          have hline : Text.newlines (a ++ k.passed) + 1 =
              Text.newlines a + 1 + Text.newlines k.passed := by
            rw [Declaration.newlines_append]
            omega
          have hrest := ih _ hlength (a ++ k.passed) (')' :: k.rest) rfl
          rw [List.append_assoc, k.passed_append, scanFrom_cons_closing, hline] at hrest
          rw [scanFrom, hnext]
          change (do return _ :: (← scanFrom (a ++ s) (utf8Len (a ++ k.passed)))) = _
          rw [hrest]
          dsimp only
          cases Declaration.scanFrom (Text.newlines a + 1 + Text.newlines k.passed) k.rest with
          | error fault => exact outcome_error_bind malformed? fault _
          | ok ds => rfl
    · have hnext := next_eq a s
      rw [hnone] at hnext
      rw [scanFrom, hnext, Declaration.scanFrom_of_none hnone]
      rfl
    · have hnext := next_eq a s
      rw [hfault] at hnext
      rw [scanFrom, hnext, Declaration.scanFrom_of_error hfault]
      rfl

/-- **Both ways to scan agree.** -/
theorem scan_eq (src : List Char) :
    scan src = outcome malformed? (Declaration.scan src) :=
  scanFrom_eq [] src

/-! ### Translations -/

/-- The fault of a translation that does not break off. -/
def refused? : TranslateError → Option TranslateError
  | .insideCharacter _ => none
  | e => some e

/-- Translates a source, with what is scanned kept whole. -/
def translate (r : TranslationRequest) : ExceptT TranslateError Option Translation := do
  if r.language ≠ .c then throw (.unsupportedLanguage r.path r.language)
  let ds ← answer (scan r.source.toList) fun fault => throw (.malformed r.path fault.1 fault.2)
  let kernels := Translation.table r.backend ds
  if kernels.contains r.function then
    return ⟨Translation.text r.backend r.flags r.source ds, kernels⟩
  else throw (.missingFunction r.path r.function)

/-- Both ways to translate agree. -/
theorem translate_eq (r : TranslationRequest) :
    translate r = outcome refused? (KernelCache.translate r) := by
  rw [translate, KernelCache.translate_eq, Translation.ofText, scan_eq]
  split
  · rfl
  · cases Declaration.scan r.source.toList with
    | error fault => cases fault <;> rfl
    | ok ds =>
        dsimp only [Except.map]
        rw [apply_ite (outcome refused?)]
        rfl

theorem run_eq_none_iff {α : Type} {x : Except TranslateError α} :
    (outcome refused? x).run = none ↔ ∃ path, x = .error (.insideCharacter path) := by
  rcases x with (_ | _ | _ | path) | a <;> simp [outcome, refused?, ExceptT.run]

theorem run_eq_some_iff {α : Type} {x : Except TranslateError α} :
    (outcome refused? x).run = some x ↔ ¬∃ path, x = .error (.insideCharacter path) := by
  rw [← run_eq_none_iff]
  rcases x with (_ | _ | _ | path) | a <;> simp [outcome, refused?, ExceptT.run]

/-- A translation comes to a cut inside a character if the scan of its source does. -/
theorem translate_eq_insideCharacter_iff (r : TranslationRequest) :
    (∃ path, KernelCache.translate r = .error (.insideCharacter path)) ↔
      r.language = .c ∧ Declaration.scan r.source.toList = .error .insideCharacter := by
  rw [KernelCache.translate_eq, Translation.ofText]
  by_cases hc : r.language = .c
  · rw [if_neg (not_not_intro hc)]
    cases Declaration.scan r.source.toList with
    | error fault => cases fault <;> simp [Except.map, TranslateError.ofFault, hc]
    | ok ds =>
        simp only [Except.map]
        split <;> simp
  · simp [hc]

/-- **A translation breaks off exactly if its source, as C, reaches a name after a character of
several bytes.**  On every other source it ends, with the translation or the fault that scanning
from the left gives: no other cut is inside a character or outside of the text, and no parenthesis
is closed that is not open. -/
theorem translate_breaks_off_iff (r : TranslationRequest) :
    ((translate r).run = none ↔ r.language = .c ∧ Declaration.ReachesWide r.source.toList) ∧
      ((translate r).run = some (KernelCache.translate r) ↔
        ¬(r.language = .c ∧ Declaration.ReachesWide r.source.toList)) := by
  have hwide : (∃ path, KernelCache.translate r = .error (.insideCharacter path)) ↔
      r.language = .c ∧ Declaration.ReachesWide r.source.toList :=
    (translate_eq_insideCharacter_iff r).trans
      (and_congr_right' Declaration.scanFrom_eq_insideCharacter_iff)
  rw [translate_eq, run_eq_none_iff, run_eq_some_iff, hwide]
  exact ⟨Iff.rfl, Iff.rfl⟩

/-- A parameter with an accented letter for its name. -/
def accented : TranslationRequest where
  source := "@kernel void f(int \u00e9) \x7b \x7d"
  path := ⟨Utf8.encode "k.c"⟩
  backend := .serial
  language := .c
  function := "f"
  flags := Flags.none

/-- A parameter with an accented letter for its name breaks a translation off. -/
theorem translate_accented : (translate accented).run = none := by
  have hnext : Declaration.next? 1 accented.source.toList = .error .insideCharacter := by
    decide +kernel
  rw [translate_eq, run_eq_none_iff, translate_eq_insideCharacter_iff]
  exact ⟨rfl, Declaration.scanFrom_of_error hnext⟩

end Offsets

end KernelCache
