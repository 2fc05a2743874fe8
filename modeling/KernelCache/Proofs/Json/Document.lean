/-
**Documents are read as they are written.**

Writing a document and cutting the bytes into tokens gives the tokens of the document, and the
tokens of a document make it up again.  Both are shown for documents inside others, so the induction
is on the document, with its items and members beside it.

Main definitions:

* `Json.tokensOf` — the tokens of a document;
* `Json.WellSpelled` — documents without numbers whose strings can be written;
* `Json.Adds` — bytes that add certain tokens.

Main results:

* `Json.feed_tokensOf` — the tokens of a document make it up;
* `Json.adds_prettyAt` — the written document has these tokens;
* `Json.parse?_pretty` — **a written document is read as that document**.
-/

import KernelCache.Json.Printer
import KernelCache.Proofs.Json.Text

set_option relaxedAutoImplicit false
set_option autoImplicit false

namespace KernelCache.Json

/-! ### The tokens of a document -/

mutual

/-- The tokens of a document. -/
def tokensOf : Json → List Token
  | .null => [.null]
  | .bool b => [.bool b]
  | .number text => [.number text]
  | .string raw => [.string raw]
  | .array items => .openBracket :: itemTokens items ++ [.closeBracket]
  | .object members => .openBrace :: memberTokens members ++ [.closeBrace]

/-- The tokens of items and the commas between them. -/
def itemTokens : List Json → List Token
  | [] => []
  | [v] => tokensOf v
  | v :: rest => tokensOf v ++ .comma :: itemTokens rest

/-- The tokens of members and the commas between them. -/
def memberTokens : List (Bytes × Json) → List Token
  | [] => []
  | [(k, v)] => .string k :: .colon :: tokensOf v
  | (k, v) :: rest => .string k :: .colon :: tokensOf v ++ .comma :: memberTokens rest

end

namespace Reader

theorem feed_append (r : Reader) (a b : List Token) :
    r.feed (a ++ b) = (r.feed a).bind fun r => r.feed b := List.foldlM_append

theorem feed_cons (r : Reader) (t : Token) (l : List Token) :
    r.feed (t :: l) = (r.step t).bind fun r => r.feed l := List.foldlM_cons

theorem feed_singleton (r : Reader) (t : Token) : r.feed [t] = r.step t := by
  rw [feed_cons]
  cases r.step t <;> rfl

end Reader

theorem itemTokens_cons_cons (v w : Json) (rest : List Json) :
    itemTokens (v :: w :: rest) = tokensOf v ++ .comma :: itemTokens (w :: rest) := rfl

theorem memberTokens_cons_cons (k : Bytes) (v : Json) (m : Bytes × Json)
    (rest : List (Bytes × Json)) :
    memberTokens ((k, v) :: m :: rest) =
      .string k :: .colon :: tokensOf v ++ .comma :: memberTokens (m :: rest) := rfl

/-! ### Reading tokens -/

/-- A bracket that was just opened takes the tokens of an item as an item. -/
theorem feed_firstItem (v : Json) (rest : List Json) (stack : List Frame) (l : List Token) :
    (Reader.firstItem stack).feed (itemTokens (v :: rest) ++ l) =
      (Reader.value (.array [] :: stack)).feed (itemTokens (v :: rest) ++ l) := by
  cases rest <;> cases v <;> rfl

/-- A brace that was just opened takes the tokens of a member as a member. -/
theorem feed_firstKey (m : Bytes × Json) (rest : List (Bytes × Json)) (stack : List Frame)
    (l : List Token) :
    (Reader.firstKey stack).feed (memberTokens (m :: rest) ++ l) =
      (Reader.key [] stack).feed (memberTokens (m :: rest) ++ l) := by
  cases rest <;> rfl

mutual

/-- The tokens of a document make it up, in whatever it stands. -/
theorem feed_tokensOf : ∀ (v : Json) (stack : List Frame),
    (Reader.value stack).feed (tokensOf v) = some (Reader.deliver v stack)
  | .null, _ => rfl
  | .bool _, _ => rfl
  | .number _, _ => rfl
  | .string _, _ => rfl
  | .array [], _ => rfl
  | .array (v :: rest), stack => by
      have hopen : (Reader.value stack).step .openBracket = some (.firstItem stack) := rfl
      rw [tokensOf, List.cons_append, Reader.feed_cons, hopen, Option.bind_some, feed_firstItem]
      exact feed_itemTokens (v :: rest) [] stack (List.cons_ne_nil v rest)
  | .object [], _ => rfl
  | .object (m :: rest), stack => by
      have hopen : (Reader.value stack).step .openBrace = some (.firstKey stack) := rfl
      rw [tokensOf, List.cons_append, Reader.feed_cons, hopen, Option.bind_some, feed_firstKey]
      exact feed_memberTokens (m :: rest) [] stack (List.cons_ne_nil m rest)

/-- Items and the bracket that closes them. -/
theorem feed_itemTokens : ∀ (items before : List Json) (stack : List Frame), items ≠ [] →
    (Reader.value (.array before :: stack)).feed (itemTokens items ++ [.closeBracket]) =
      some (Reader.deliver (.array (before.reverse ++ items)) stack)
  | [], _, _, hne => absurd rfl hne
  | [v], before, stack, _ => by
      have hv := feed_tokensOf v (.array before :: stack)
      rw [itemTokens, Reader.feed_append, hv, Option.bind_some, Reader.feed_singleton]
      simp [Reader.deliver, Reader.step]
  | v :: w :: rest, before, stack, _ => by
      have hv := feed_tokensOf v (.array before :: stack)
      have hrest := feed_itemTokens (w :: rest) (v :: before) stack (List.cons_ne_nil w rest)
      rw [itemTokens_cons_cons, List.append_assoc, Reader.feed_append, hv, Option.bind_some,
        List.cons_append, Reader.feed_cons]
      simpa [Reader.deliver, Reader.step] using hrest

/-- Members and the brace that closes them. -/
theorem feed_memberTokens : ∀ (members before : List (Bytes × Json)) (stack : List Frame),
    members ≠ [] →
    (Reader.key before stack).feed (memberTokens members ++ [.closeBrace]) =
      some (Reader.deliver (.object (before.reverse ++ members)) stack)
  | [], _, _, hne => absurd rfl hne
  | [(k, v)], before, stack, _ => by
      have hv := feed_tokensOf v (.object before k :: stack)
      rw [memberTokens, List.cons_append, Reader.feed_cons, Reader.step, Option.bind_some,
        List.cons_append, Reader.feed_cons, Reader.step, Option.bind_some, Reader.feed_append, hv,
        Option.bind_some, Reader.feed_singleton]
      simp [Reader.deliver, Reader.step]
  | (k, v) :: m :: rest, before, stack, _ => by
      have hv := feed_tokensOf v (.object before k :: stack)
      have hrest := feed_memberTokens (m :: rest) ((k, v) :: before) stack (List.cons_ne_nil m rest)
      rw [memberTokens_cons_cons, List.append_assoc, List.cons_append, Reader.feed_cons,
        Reader.step, Option.bind_some, List.cons_append, Reader.feed_cons, Reader.step,
        Option.bind_some, Reader.feed_append, hv, Option.bind_some, List.cons_append,
        Reader.feed_cons]
      simpa [Reader.deliver, Reader.step] using hrest

end

theorem ofTokens?_tokensOf (v : Json) : ofTokens? (tokensOf v) = some v := by
  rw [ofTokens?, feed_tokensOf]
  rfl

/-! ### Cutting into tokens -/

mutual

/-- Documents without numbers whose strings can be written. -/
def WellSpelled : Json → Prop
  | .null | .bool _ => True
  | .number _ => False
  | .string raw => Spelled raw
  | .array items => WellSpelledItems items
  | .object members => WellSpelledMembers members

@[inherit_doc WellSpelled] def WellSpelledItems : List Json → Prop
  | [] => True
  | v :: rest => WellSpelled v ∧ WellSpelledItems rest

@[inherit_doc WellSpelled] def WellSpelledMembers : List (Bytes × Json) → Prop
  | [] => True
  | (k, v) :: rest => Spelled k ∧ WellSpelled v ∧ WellSpelledMembers rest

end

/-- Whether bytes between tokens add some tokens and leave the machine between tokens. -/
def Adds (bytes : Bytes) (tokens : List Token) : Prop :=
  ∀ done, Lexer.feed ⟨done, .between⟩ bytes = some ⟨tokens.reverse ++ done, .between⟩

theorem Adds.append {a b : Bytes} {l l' : List Token} (ha : Adds a l) (hb : Adds b l') :
    Adds (a ++ b) (l ++ l') := by
  intro done
  rw [feed_append, ha, Option.bind_some, hb]
  simp

theorem adds_blanks {bytes : Bytes} (h : ∀ b ∈ bytes, Lexer.isBlank b = true) : Adds bytes [] := by
  intro done
  induction bytes with
  | nil => rfl
  | cons b rest ih =>
      have hrest := ih fun c hc => h c (by simp [hc])
      have hb : Lexer.step ⟨done, .between⟩ b = some ⟨done, .between⟩ := by
        simp [Lexer.step, Lexer.stepBetween, h b (by simp)]
      rw [Lexer.feed, List.foldlM_cons, hb]
      exact hrest

theorem adds_lineStart (level : Nat) : Adds (lineStart level) [] := by
  refine adds_blanks fun b hb => ?_
  rcases List.mem_cons.1 hb with rfl | hb
  · rfl
  · rw [List.eq_of_mem_replicate hb]
    rfl

theorem adds_quoted {raw : Bytes} (h : Spelled raw) : Adds (quoted raw) [.string raw] := by
  intro done
  have hopen : Lexer.feed ⟨done, .between⟩ [0x22] = some ⟨done, .text []⟩ := rfl
  have hclose : Lexer.feed ⟨done, .text (raw.reverse ++ [])⟩ [0x22] =
      some ⟨.string raw :: done, .between⟩ := by
    simp [Lexer.feed, Lexer.step, Lexer.emit]
  have hsplit : quoted raw = [0x22] ++ (raw ++ [0x22]) := rfl
  rw [hsplit, feed_append, hopen, Option.bind_some, feed_append, h, Option.bind_some, hclose]
  rfl

theorem adds_word (b : Bool) : Adds (word b) [.bool b] := by
  cases b
  · exact fun _ => rfl
  · exact fun _ => rfl

theorem adds_comma : Adds [0x2C] [.comma] := fun _ => rfl

theorem adds_colon : Adds [0x3A, 0x20] [.colon] := fun _ => rfl

theorem adds_openBracket : Adds [0x5B] [.openBracket] := fun _ => rfl

theorem adds_closeBracket : Adds [0x5D] [.closeBracket] := fun _ => rfl

theorem adds_openBrace : Adds [0x7B] [.openBrace] := fun _ => rfl

theorem adds_closeBrace : Adds [0x7D] [.closeBrace] := fun _ => rfl

mutual

/-- The written document has the tokens of the document. -/
theorem adds_prettyAt : ∀ (v : Json) (level : Nat), WellSpelled v →
    Adds (prettyAt level v) (tokensOf v)
  | .null, _, _ => fun _ => rfl
  | .bool b, _, _ => adds_word b
  | .number _, _, h => False.elim h
  | .string _, _, h => adds_quoted h
  | .array [], _, _ => fun _ => rfl
  | .array (v :: rest), level, h => by
      have hitems := adds_prettyItems (v :: rest) (level + 1) h
      have hall := ((adds_openBracket.append hitems).append (adds_lineStart level)).append
        adds_closeBracket
      simpa [prettyAt, tokensOf] using hall
  | .object [], _, _ => fun _ => rfl
  | .object (m :: rest), level, h => by
      have hmembers := adds_prettyMembers (m :: rest) (level + 1) h
      have hall := ((adds_openBrace.append hmembers).append (adds_lineStart level)).append
        adds_closeBrace
      simpa [prettyAt, tokensOf] using hall

theorem adds_prettyItems : ∀ (items : List Json) (level : Nat), WellSpelledItems items →
    Adds (prettyItems level items) (itemTokens items)
  | [], _, _ => fun _ => rfl
  | [v], level, h => (adds_lineStart level).append (adds_prettyAt v level h.1)
  | v :: w :: rest, level, h => by
      have hv := (adds_lineStart level).append (adds_prettyAt v level h.1)
      have hrest := adds_prettyItems (w :: rest) level h.2
      simpa [prettyItems, itemTokens_cons_cons] using (hv.append adds_comma).append hrest

theorem adds_prettyMembers : ∀ (members : List (Bytes × Json)) (level : Nat),
    WellSpelledMembers members → Adds (prettyMembers level members) (memberTokens members)
  | [], _, _ => fun _ => rfl
  | [(k, v)], level, h => by
      have hk := ((adds_lineStart level).append (adds_quoted h.1)).append adds_colon
      simpa [prettyMembers, memberTokens] using hk.append (adds_prettyAt v level h.2.1)
  | (k, v) :: m :: rest, level, h => by
      have hk := ((adds_lineStart level).append (adds_quoted h.1)).append adds_colon
      have hv := hk.append (adds_prettyAt v level h.2.1)
      have hrest := adds_prettyMembers (m :: rest) level h.2.2
      simpa [prettyMembers, memberTokens_cons_cons] using (hv.append adds_comma).append hrest

end

/-- **A written document is read as that document.** -/
theorem parse?_pretty {v : Json} (h : WellSpelled v) : parse? (pretty v) = some v := by
  have htokens : tokens? (pretty v) = some (tokensOf v) := by
    rw [tokens?, pretty, Lexer.start, adds_prettyAt v 0 h]
    simp [Lexer.finish]
  rw [parse?, htokens, Option.bind_some, ofTokens?_tokensOf]

end KernelCache.Json
