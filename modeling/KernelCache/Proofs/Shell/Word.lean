/-
**Texts that a shell takes as they are.**

A text without the characters that mean something to a shell is read as its pieces between blanks,
each of them a word that stands for itself.

Main definitions:

* `Shell.Plain` — texts without such characters, blanks within a line apart;
* `Shell.fields` — the pieces of a text between blanks;
* `Shell.bareWord` — the word that stands for a piece.

Main results:

* `Shell.token_bare` — a piece is read as a word;
* `Shell.reads_plain` — **a plain text is read as its pieces**;
* `Shell.expand_bareWord` — the word of a piece becomes that piece.
-/

import KernelCache.Proofs.Text.Blank
import KernelCache.Proofs.Text.Scan
import KernelCache.Shell.Script

set_option relaxedAutoImplicit false
set_option autoImplicit false

namespace KernelCache.Shell

open Scan

/-! ### Plain texts -/

/-- A text in which no character means something to a shell.  Blanks within a line may be there. -/
def Plain (s : List Char) : Prop := ∀ c ∈ s, c ∉ "|&;<>()$`\\\"'*?[#~\n".toList

instance (s : List Char) : Decidable (Plain s) :=
  List.decidableBAll (fun c => c ∉ "|&;<>()$`\\\"'*?[#~\n".toList) s

/-- The pieces of a text between blanks. -/
def fields (s : List Char) : List (List Char) := Text.pieces isBlank s

/-- The word that stands for a piece of text. -/
def bareWord (s : List Char) : List Piece := [.text s false]

/-- Blanks that may stand within a line. -/
def Gap (s : List Char) : Prop := ∀ c ∈ s, (c == ' ' || c == '\t') = true

theorem isBare_of_plain {s : List Char} (h : Plain s) {c : Char} (hc : c ∈ s)
    (hblank : isBlank c = false) : isBare c = true ∧ c ≠ '#' := by
  have hplain := h c hc
  simp only [String.reduceToList, List.mem_cons, List.not_mem_nil, or_false, not_or] at hplain
  simp [isBare, hblank, hplain]

theorem gap_of_plain {s : List Char} (h : Plain s) {c : Char} (hc : c ∈ s)
    (hblank : isBlank c = true) : (c == ' ' || c == '\t') = true := by
  have hbreak : c ≠ '\n' := by
    rintro rfl
    exact h _ hc (by decide)
  simpa [isBlank, hbreak] using hblank

/-! ### Words -/

/-- A part of a word: what stands between quotes, an escape, a parameter, or text. -/
def wordPart : Scan (List Piece) :=
  singleQuoted <|> doubleQuoted <|> outerEscape <|>
    (do return [← parameter false]) <|> (do return [.text (← some1 isBare) false])

theorem shellWord_eq : shellWord = (do
    let groups ← many wordPart
    check (if groups.isEmpty then none else some groups.flatten)) := rfl

/-- Where no quote, escape or parameter starts there may be text. -/
theorem wordPart_of_head {s : List Char} (h : ∀ c ∈ s.head?, c ∉ "'\"\\$".toList) :
    wordPart s = (do return [.text (← some1 isBare) false] : Scan (List Piece)) s := by
  have hword : ∀ {w : String} {c : Char} {rest : List Char}, w.toList = c :: rest →
      c ∈ "'\"\\$".toList → word w s = none := fun hw hc => word_of_ne hw fun hmem => h _ hmem hc
  have hsingle : singleQuoted s = none := bind_of_none (hword (c := '\'') rfl (by decide)) _
  have hdouble : doubleQuoted s = none := bind_of_none (hword (c := '"') rfl (by decide)) _
  have hescape : outerEscape s = none := bind_of_none (hword (c := '\\') rfl (by decide)) _
  have hparameter : parameter false s = none := bind_of_none (hword (c := '$') rfl (by decide)) _
  rw [wordPart, orElse_of_none hsingle, orElse_of_none hdouble, orElse_of_none hescape,
    orElse_of_none (bind_of_none hparameter _)]

theorem isBare_of_blank {c : Char} (h : isBlank c = true) : isBare c = false := by
  simp [isBare, h]

/-- Text ends before a blank. -/
theorem wordPart_bare {w r : List Char} (hne : w ≠ []) (hw : ∀ c ∈ w, isBare c = true)
    (hr : ∀ c ∈ r.head?, isBlank c = true) :
    wordPart (w ++ r) = some (bareWord w, r) := by
  obtain ⟨c, w, rfl⟩ := List.exists_cons_of_ne_nil hne
  have hc : isBare c = true := hw c (by simp)
  have hrest : ∀ d ∈ w, isBare d = true := fun d hd => hw d (by simp [hd])
  have hstop : r.takeWhile isBare = [] ∧ r.dropWhile isBare = r := by
    cases r with
    | nil => exact ⟨rfl, rfl⟩
    | cons d r => simp [isBare_of_blank (hr d rfl)]
  have hone : one isBare (c :: w ++ r) = some (c, w ++ r) := by simp [one, hc]
  have htake : take isBare (w ++ r) = some (w, r) := by
    rw [take, List.takeWhile_append_of_pos hrest, List.dropWhile_append_of_pos hrest, hstop.1,
      hstop.2, List.append_nil]
  have hsome : some1 isBare (c :: w ++ r) = some (c :: w, r) :=
    (bind_of_some hone).trans (bind_of_some htake)
  rw [wordPart_of_head]
  · exact bind_of_some hsome
  · intro d hd hmem
    obtain rfl : c = d := by simpa using hd
    have hspecial : isBare c = false := by
      revert hmem
      simp only [String.reduceToList, List.mem_cons, List.not_mem_nil, or_false]
      rintro (rfl | rfl | rfl | rfl) <;> decide
    rw [hspecial] at hc
    exact Bool.false_ne_true hc

theorem wordPart_blank {r : List Char} (hr : ∀ c ∈ r.head?, isBlank c = true) :
    wordPart r = none := by
  have hsome : some1 isBare r = none := by
    have hone : one isBare r = none := by
      cases r with
      | nil => rfl
      | cons d r => simp [one, isBare_of_blank (hr d rfl)]
    exact bind_of_none hone _
  rw [wordPart_of_head]
  · exact bind_of_none hsome _
  · intro d hd hmem
    have hblank := hr d hd
    revert hmem
    simp only [String.reduceToList, List.mem_cons, List.not_mem_nil, or_false]
    rintro (rfl | rfl | rfl | rfl) <;> exact absurd hblank (by decide)

theorem shellWord_bare {w r : List Char} (hne : w ≠ []) (hw : ∀ c ∈ w, isBare c = true)
    (hr : ∀ c ∈ r.head?, isBlank c = true) : shellWord (w ++ r) = some (bareWord w, r) := by
  have hreads : Reads wordPart (w ++ r) [bareWord w] r :=
    .turn (wordPart_bare hne hw hr) (by simpa using List.length_pos_iff.2 hne) (.done r)
  rw [shellWord_eq, bind_of_some (many_of_reads hreads (wordPart_blank hr))]
  rfl

theorem shellWord_blank {r : List Char} (hr : ∀ c ∈ r.head?, isBlank c = true) :
    shellWord r = none := by
  rw [shellWord_eq, bind_of_some (many_of_reads (.done r) (wordPart_blank hr))]
  rfl

/-! ### Tokens -/

/-- The comment that may stand before a token. -/
def comment : Scan (Option (List Char)) := optional do
  word "#"
  take (· != '\n')

/-- An operator, or else a word. -/
def operatorOrWord : Scan Token :=
  (do word "\n"; return .lineBreak) <|> (do word ";"; return .semicolon) <|>
    (do word "&&"; return .also) <|> (do word "||"; return .instead) <|> redirection <|>
    (.word <$> shellWord)

theorem token_eq : token = (do
    let _ ← take fun c => c == ' ' || c == '\t'
    let _ ← comment
    operatorOrWord) := rfl

/-- The blanks before a token do not count. -/
theorem token_gap {b s : List Char} (hb : Gap b)
    (hs : ∀ c ∈ s.head?, (c == ' ' || c == '\t') = false ∧ c ≠ '#') :
    token (b ++ s) = operatorOrWord s := by
  have htake : take (fun c => c == ' ' || c == '\t') (b ++ s) = some (b, s) := by
    rw [take, List.takeWhile_append_of_pos hb, List.dropWhile_append_of_pos hb]
    cases s with
    | nil => simp
    | cons c s => simp [hs c rfl]
  have hcomment : comment s = some (none, s) :=
    optional_of_none (bind_of_none (word_of_ne rfl fun hmem => (hs '#' hmem).2 rfl) _)
  rw [token_eq, bind_of_some htake, bind_of_some hcomment]

/-- The number of an output channel is one character at most. -/
theorem exists_channel (s : List Char) :
    ∃ n s', channel s = some (n, s') ∧ (s' = s ∨ s' = s.tail) := by
  cases hone : one (fun c => c == '1' || c == '2') s with
  | none =>
      refine ⟨1, s, ?_, Or.inl rfl⟩
      rw [channel, bind_of_some (optional_of_none hone)]
      rfl
  | some found =>
      obtain ⟨c, s'⟩ := found
      have hfound : (c = '1' ∨ c = '2') ∧ s' = s.tail := by
        cases s with
        | nil => cases hone
        | cons d s =>
            rw [one] at hone
            split at hone
            · next hd =>
                cases hone
                exact ⟨by simpa using hd, rfl⟩
            · cases hone
      obtain ⟨hc, htail⟩ := hfound
      rw [channel, bind_of_some (optional_of_some hone)]
      rcases hc with rfl | rfl
      · exact ⟨1, s', rfl, Or.inr htail⟩
      · exact ⟨2, s', rfl, Or.inr htail⟩

/-- No operator starts with a bare character, and none starts at the end. -/
theorem operatorOrWord_of_head {s : List Char}
    (h : ∀ c ∈ s.head?, isBare c = true) (hnext : ∀ c ∈ s.tail.head?, c ≠ '>') :
    operatorOrWord s = (.word <$> shellWord : Scan Token) s := by
  have hword : ∀ {w : String} {c : Char} {rest : List Char}, w.toList = c :: rest →
      isBare c = false → word w s = none := by
    intro w c rest hw hc
    refine word_of_ne hw fun hmem => ?_
    rw [h c hmem] at hc
    exact Bool.false_ne_true hc.symm
  -- A redirection may have its channel first, so the second character counts, too.
  have hredirection : redirection s = none := by
    obtain ⟨n, s', hchannel, hs'⟩ := exists_channel s
    have hhead : '>' ∉ s'.head? := by
      rcases hs' with rfl | rfl
      · exact fun hmem => Bool.false_ne_true (h '>' hmem)
      · exact fun hmem => hnext '>' hmem rfl
    rw [redirection, bind_of_some hchannel, orElse_of_none (bind_of_none (word_of_ne rfl hhead) _),
      orElse_of_none (bind_of_none (word_of_ne rfl hhead) _)]
    exact bind_of_none (word_of_ne rfl hhead) _
  rw [operatorOrWord, orElse_of_none (bind_of_none (hword (c := '\n') rfl (by decide)) _),
    orElse_of_none (bind_of_none (hword (c := ';') rfl (by decide)) _),
    orElse_of_none (bind_of_none (hword (c := '&') rfl (by decide)) _),
    orElse_of_none (bind_of_none (hword (c := '|') rfl (by decide)) _),
    orElse_of_none hredirection]

/-- A piece is read as a word, with the blanks before it. -/
theorem token_bare {b w r : List Char} (hb : Gap b) (hne : w ≠ [])
    (hw : ∀ c ∈ w, isBare c = true ∧ c ≠ '#') (hr : ∀ c ∈ r.head?, isBlank c = true) :
    token (b ++ (w ++ r)) = some (.word (bareWord w), r) := by
  have hbare : ∀ c ∈ w, isBare c = true := fun c hc => (hw c hc).1
  have hhead : ∀ c ∈ (w ++ r).head?, isBare c = true ∧ c ≠ '#' := by
    obtain ⟨c, w, rfl⟩ := List.exists_cons_of_ne_nil hne
    intro d hd
    exact hw d (by simp_all)
  have hnext : ∀ c ∈ (w ++ r).tail.head?, c ≠ '>' := by
    obtain ⟨c, w, rfl⟩ := List.exists_cons_of_ne_nil hne
    rintro d hd rfl
    cases w with
    | nil => exact absurd (hr '>' hd) (by decide)
    | cons d w =>
        obtain rfl : d = '>' := by simpa using hd
        exact absurd (hbare '>' (by simp)) (by decide)
  rw [token_gap hb, operatorOrWord_of_head (fun c hc => (hhead c hc).1) hnext]
  · exact map_of_some _ (shellWord_bare hne hbare hr)
  · intro c hc
    refine ⟨?_, (hhead c hc).2⟩
    have hblank : isBlank c = false := by
      cases hblank : isBlank c with
      | true => exact absurd (hhead c hc).1 (by simp [isBare_of_blank hblank])
      | false => rfl
    simp only [isBlank, Bool.or_eq_false_iff] at hblank
    simp [hblank]

/-- Blanks alone are no token. -/
theorem token_of_gap {b : List Char} (hb : Gap b) : token b = none := by
  rw [← List.append_nil b, token_gap hb (by simp), operatorOrWord_of_head (by simp) (by simp)]
  exact map_of_none _ (shellWord_blank (by simp))

/-- **A plain text is read as its pieces**, with blanks at its end left over. -/
theorem reads_plain {s : List Char} (hs : Plain s) {rest : List Char}
    (hrest : ∀ c ∈ rest.head?, isBlank c = true) :
    ∃ b, Gap b ∧
      Reads token (s ++ rest) ((fields s).map fun w => .word (bareWord w)) (b ++ rest) := by
  -- One turn for each piece: it takes the blanks before the piece, and a blank or the end stops it.
  obtain ⟨ws, hws⟩ := Text.exists_parted isBlank s
  rw [fields, hws.pieces_eq]
  induction hws with
  | @done b hb => exact ⟨b, fun c hc => gap_of_plain hs hc (hb c hc), .done _⟩
  | @piece b w r ws hb hne hw hr _ ih =>
      have hgap : Gap b := fun c hc => gap_of_plain hs (by simp [hc]) (hb c hc)
      have hbare : ∀ c ∈ w, isBare c = true ∧ c ≠ '#' := fun c hc =>
        isBare_of_plain hs (by simp [hc]) (hw c hc)
      have hplain : Plain r := fun c hc => hs c (by simp [hc])
      have hnext : ∀ c ∈ (r ++ rest).head?, isBlank c = true := by
        cases r with
        | nil => exact hrest
        | cons c r => exact hr
      obtain ⟨b', hb', hreads⟩ := ih hplain
      have htoken := token_bare hgap hne hbare hnext
      refine ⟨b', hb', ?_⟩
      rw [List.append_assoc, List.append_assoc]
      refine .turn htoken ?_ hreads
      have hlength := List.length_pos_iff.2 hne
      simp only [List.length_append]
      omega

/-! ### Filling in -/

/-- The word of a piece becomes that piece, whatever the parameters are. -/
theorem expand_bareWord (scope : Scope) (w : List Char) :
    expand scope (bareWord w) = [String.ofList w] := rfl

end KernelCache.Shell
