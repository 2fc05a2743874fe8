/-
**Trimming, and the words of a text.**

Main definitions:

* `Text.Blank` — texts of blank characters;
* `Text.Snug` — texts that neither start nor end with a blank character;
* `Text.pieces` — the pieces of a text between characters of a class.

Main results:

* `Text.trim_trimEnd`, `Text.trim_blank_append` — blanks at the ends do not count;
* `Text.snug_trim` — nor are any left there;
* `Text.pieces_append_cons`, `Text.words_append_blank` — reading pieces and words from the left;
* `Text.pieces_join`, `Text.words_trim` — the pieces of two texts, and the words of a trimmed one;
* `Text.exists_of_words_pair` — how two words stand in a text.
-/

import KernelCache.Text.Blank
import Mathlib.Data.List.Basic

set_option relaxedAutoImplicit false
set_option autoImplicit false

namespace KernelCache.Text

/-- A text of nothing but blank characters. -/
def Blank (s : List Char) : Prop := ∀ c ∈ s, isBlank c = true

instance (s : List Char) : Decidable (Blank s) :=
  List.decidableBAll (fun c => isBlank c = true) s

theorem blank_nil : Blank [] := List.forall_mem_nil _

/-- A text that neither starts nor ends with a blank character. -/
structure Snug (s : List Char) : Prop where
  first : ∀ c ∈ s.head?, isBlank c = false
  last : ∀ c ∈ s.getLast?, isBlank c = false

/-! ### Trimming -/

theorem trimStart_blank_append {b : List Char} (hb : Blank b) (s : List Char) :
    trimStart (b ++ s) = trimStart s := List.dropWhile_append_of_pos hb

theorem trimStart_append {s : List Char} (hfirst : ∀ c ∈ s.head?, isBlank c = false)
    (hs : s ≠ []) (r : List Char) : trimStart (s ++ r) = s ++ r := by
  cases s with
  | nil => exact absurd rfl hs
  | cons c s => simp [trimStart, hfirst c rfl]

theorem trimEnd_append_blank (s : List Char) {b : List Char} (hb : Blank b) :
    trimEnd (s ++ b) = trimEnd s := by
  have hreversed : ∀ c ∈ b.reverse, isBlank c = true := fun c hc => hb c (List.mem_reverse.1 hc)
  rw [trimEnd, List.reverse_append, List.dropWhile_append_of_pos hreversed, trimEnd]

@[simp] theorem trimEnd_nil : trimEnd [] = [] := rfl

theorem trimEnd_blank {b : List Char} (hb : Blank b) : trimEnd b = [] :=
  trimEnd_append_blank [] hb

/-- What does not end with a blank is left alone, whatever follows. -/
theorem trimEnd_append {s : List Char} (hlast : ∀ c ∈ s.getLast?, isBlank c = false)
    (r : List Char) : trimEnd (s ++ r) = s ++ trimEnd r := by
  have hs : s.reverse.dropWhile isBlank = s.reverse := by
    cases hr : s.reverse with
    | nil => rfl
    | cons c rest =>
        have hc : isBlank c = false := hlast c (by rw [← List.head?_reverse, hr]; rfl)
        simp [hc]
  rw [trimEnd, List.reverse_append, List.dropWhile_append]
  split
  · next hempty =>
      rw [hs, List.reverse_reverse, trimEnd, List.isEmpty_iff.1 hempty, List.reverse_nil,
        List.append_nil]
  · rw [List.reverse_append, List.reverse_reverse, trimEnd]

theorem trimEnd_append_cons (s : List Char) {c : Char} (hc : isBlank c = false) (r : List Char) :
    trimEnd (s ++ c :: r) = s ++ c :: trimEnd r := by
  have hlast : ∀ c' ∈ (s ++ [c]).getLast?, isBlank c' = false := by simp [hc]
  simpa using trimEnd_append hlast r

/-- A text is its trimmed start and blanks. -/
theorem exists_trimEnd (s : List Char) : ∃ b, Blank b ∧ s = trimEnd s ++ b := by
  refine ⟨(s.reverse.takeWhile isBlank).reverse, fun c hc => ?_, ?_⟩
  · exact (List.all_eq_true.1 (List.all_takeWhile)) c (List.mem_reverse.1 hc)
  · rw [trimEnd, ← List.reverse_append, List.takeWhile_append_dropWhile, List.reverse_reverse]

/-- Blanks at the start do not count. -/
theorem trim_blank_append {b : List Char} (hb : Blank b) (s : List Char) :
    trim (b ++ s) = trim s := by rw [trim, trim, trimStart_blank_append hb]

/-- Blanks at the end do not count. -/
theorem trim_append_blank (s : List Char) {b : List Char} (hb : Blank b) :
    trim (s ++ b) = trim s := by
  rw [trim, trim, trimStart, List.dropWhile_append]
  split
  · next hempty =>
      have hs : trimStart s = [] := List.isEmpty_iff.1 hempty
      have hstart : b.dropWhile isBlank = [] := by
        simpa [trimStart] using trimStart_blank_append hb []
      rw [hs, hstart]
  · exact trimEnd_append_blank _ hb

theorem trim_trimEnd (s : List Char) : trim (trimEnd s) = trim s := by
  obtain ⟨b, hb, hs⟩ := exists_trimEnd s
  have htrim := trim_append_blank (trimEnd s) hb
  rw [← hs] at htrim
  exact htrim.symm

/-- What starts without a blank is trimmed at its end only. -/
theorem trim_append {s : List Char} (h : Snug s) (hs : s ≠ []) (r : List Char) :
    trim (s ++ r) = s ++ trimEnd r := by
  rw [trim, trimStart_append h.first hs, trimEnd_append h.last]

/-- Trimming only leaves characters out. -/
theorem mem_of_mem_trimEnd {c : Char} {s : List Char} (h : c ∈ trimEnd s) : c ∈ s := by
  rw [trimEnd, List.mem_reverse] at h
  exact List.mem_reverse.1 ((List.dropWhile_sublist _).subset h)

theorem mem_of_mem_trim {c : Char} {s : List Char} (h : c ∈ trim s) : c ∈ s :=
  (List.dropWhile_sublist _).subset (mem_of_mem_trimEnd h)

theorem Snug.trim {s : List Char} (h : Snug s) : Text.trim s = s := by
  cases s with
  | nil => rfl
  | cons c s => simpa using trim_append h (by simp) []

theorem Snug.trimEnd {s : List Char} (h : Snug s) : Text.trimEnd s = s := by
  simpa using trimEnd_append h.last []

/-- What stands between two texts may have blanks at its ends. -/
theorem Snug.enclose {s t : List Char} (hs : Snug s) (hsne : s ≠ []) (ht : Snug t) (htne : t ≠ [])
    (between : List Char) : Snug (s ++ between ++ t) where
  first c hc := by
    rw [List.append_assoc, List.head?_append_of_ne_nil _ hsne] at hc
    exact hs.first c hc
  last c hc := by
    rw [List.getLast?_append_of_ne_nil _ htne] at hc
    exact ht.last c hc

theorem isBlank_of_head?_trimStart {s : List Char} {c : Char} (h : c ∈ (trimStart s).head?) :
    isBlank c = false := by
  have hnot := List.head?_dropWhile_not isBlank s
  rw [trimStart] at h
  rw [h] at hnot
  exact hnot

/-- A trimmed text has no blanks at its ends. -/
theorem snug_trim (s : List Char) : Snug (trim s) where
  first c hc := by
    obtain ⟨b, -, hstart⟩ := exists_trimEnd (trimStart s)
    have hhead : c ∈ (trimStart s).head? := by
      rw [hstart]
      exact List.mem_head?_append_of_mem_head? hc
    exact isBlank_of_head?_trimStart hhead
  last c hc := by
    rw [trim, trimEnd, List.getLast?_reverse] at hc
    exact isBlank_of_head?_trimStart hc

/-! ### Pieces -/

section

variable {p : Char → Bool}

/-- What stands between the characters of a class has none of them. -/
theorem eq_false_of_mem_splitOnP {s w : List Char} (h : w ∈ s.splitOnP p) :
    ∀ c ∈ w, p c = false := by
  induction s generalizing w with
  | nil =>
      rw [List.splitOnP_nil, List.mem_singleton] at h
      simp [h]
  | cons a s ih =>
      rw [List.splitOnP_cons_eq_if_modifyHead] at h
      split at h
      · rcases List.mem_cons.1 h with rfl | h
        · simp
        · exact ih h
      · next ha =>
          -- The character is put before the first of the pieces that follow it.
          obtain ⟨first, rest, hpieces⟩ :=
            List.exists_cons_of_ne_nil (List.splitOnP_ne_nil p s)
          rw [hpieces] at h ih
          rcases List.mem_cons.1 h with rfl | h
          · intro c hc
            rcases List.mem_cons.1 hc with rfl | hc
            · exact Bool.eq_false_iff.2 ha
            · exact ih (List.mem_cons_self ..) c hc
          · exact ih (List.mem_cons_of_mem _ h)

/-- The non-empty pieces of a text between the characters of a class. -/
def pieces (p : Char → Bool) (s : List Char) : List (List Char) :=
  (s.splitOnP p).filter (!·.isEmpty)

theorem pieces_cons {c : Char} (hc : p c = true) (s : List Char) :
    pieces p (c :: s) = pieces p s := by
  simp [pieces, List.splitOnP_cons_eq_if_modifyHead, hc]

theorem pieces_append_of_pos {b : List Char} (hb : ∀ c ∈ b, p c = true) (s : List Char) :
    pieces p (b ++ s) = pieces p s := by
  induction b with
  | nil => rfl
  | cons c b ih =>
      rw [List.cons_append, pieces_cons (hb c (by simp)), ih fun a ha => hb a (by simp [ha])]

/-- A character of the class divides the pieces of a text. -/
theorem pieces_join (s : List Char) {c : Char} (hc : p c = true) (t : List Char) :
    pieces p (s ++ c :: t) = pieces p s ++ pieces p t := by
  rw [pieces, List.splitOnP_append_cons s t hc, List.filter_append]
  rfl

theorem pieces_single {w : List Char} (hw : ∀ c ∈ w, p c = false) (hne : w ≠ []) :
    pieces p w = [w] := by
  simp [pieces, List.splitOnP_eq_singleton hw, hne]

/-- A piece ends at the first character of the class. -/
theorem pieces_append_cons {w : List Char} (hw : ∀ c ∈ w, p c = false) (hne : w ≠ []) {c : Char}
    (hc : p c = true) (s : List Char) : pieces p (w ++ c :: s) = w :: pieces p s := by
  rw [pieces, List.splitOnP_append_cons_of_forall_mem hw c hc]
  simp [pieces, hne]

theorem pieces_append {w : List Char} (hw : ∀ c ∈ w, p c = false) (hne : w ≠ []) {r : List Char}
    (hr : ∀ c ∈ r.head?, p c = true) : pieces p (w ++ r) = w :: pieces p r := by
  cases r with
  | nil => rw [List.append_nil, pieces_single hw hne]; rfl
  | cons c r =>
      have hc : p c = true := hr c rfl
      rw [pieces_append_cons hw hne hc, pieces_cons hc]

/-- How a text is made up of pieces, each with characters of the class before it, and more of them
at the end. -/
inductive Parted (p : Char → Bool) : List Char → List (List Char) → Prop
  | done {b : List Char} (hb : ∀ c ∈ b, p c = true) : Parted p b []
  | piece {b w r : List Char} {ws : List (List Char)} (hb : ∀ c ∈ b, p c = true) (hne : w ≠ [])
      (hw : ∀ c ∈ w, p c = false) (hr : ∀ c ∈ r.head?, p c = true) (h : Parted p r ws) :
      Parted p (b ++ (w ++ r)) (w :: ws)

theorem Parted.pieces_eq {s : List Char} {ws : List (List Char)} (h : Parted p s ws) :
    pieces p s = ws := by
  induction h with
  | @done b hb =>
      rw [← List.append_nil b, pieces_append_of_pos hb]
      rfl
  | piece hb hne hw hr _ ih => rw [pieces_append_of_pos hb, pieces_append hw hne hr, ih]

/-- Every text is made up of its pieces. -/
theorem exists_parted (p : Char → Bool) (s : List Char) : ∃ ws, Parted p s ws := by
  induction s with
  | nil => exact ⟨[], .done (by simp)⟩
  | cons c s ih =>
      obtain ⟨ws, h⟩ := ih
      cases hc : p c with
      | true =>
          cases h with
          | done hb => exact ⟨[], .done (by simpa [hc] using hb)⟩
          | @piece b w r ws hb hne hw hr h =>
              exact ⟨w :: ws, .piece (b := c :: b) (by simpa [hc] using hb) hne hw hr h⟩
      | false =>
          have hone : ∀ d ∈ [c], p d = false := by simp [hc]
          cases h with
          | done hb =>
              have hhead : ∀ d ∈ s.head?, p d = true := fun d hd => hb d (List.mem_of_mem_head? hd)
              exact ⟨[[c]], .piece (b := []) (w := [c]) (by simp) (by simp) hone hhead (.done hb)⟩
          | @piece b w r ws hb hne hw hr h =>
              cases b with
              | nil =>
                  -- The character goes before the piece that starts here.
                  exact ⟨(c :: w) :: ws, .piece (b := []) (w := c :: w) (by simp) (by simp)
                    (by simpa [hc] using hw) hr h⟩
              | cons d b =>
                  have hd : p d = true := hb d (by simp)
                  exact ⟨[c] :: w :: ws, .piece (b := []) (w := [c]) (by simp) (by simp) hone
                    (by simp [hd]) (.piece (b := d :: b) hb hne hw hr h)⟩

/-- A piece is not empty and has no character of the class. -/
theorem mem_pieces {w s : List Char} (h : w ∈ pieces p s) :
    w ≠ [] ∧ (∀ c ∈ w, p c = false) ∧ ∀ c ∈ w, c ∈ s := by
  obtain ⟨ws, hws⟩ := exists_parted p s
  rw [hws.pieces_eq] at h
  induction hws with
  | done => exact absurd h List.not_mem_nil
  | @piece b w' r ws hb hne hw hr _ ih =>
      rcases List.mem_cons.1 h with rfl | h
      · exact ⟨hne, hw, fun c hc => by simp [hc]⟩
      · obtain ⟨hne, hw, hmem⟩ := ih h
        exact ⟨hne, hw, fun c hc => by simp [hmem c hc]⟩

end

/-! ### Words -/

theorem words_blank_append {b : List Char} (hb : Blank b) (s : List Char) :
    words (b ++ s) = words s := pieces_append_of_pos hb s

theorem words_single {w : List Char} (hw : ∀ c ∈ w, isBlank c = false) (hne : w ≠ []) :
    words w = [w] := pieces_single hw hne

/-- A word ends at the first blank. -/
theorem words_append_blank {w b : List Char} (hw : ∀ c ∈ w, isBlank c = false) (hne : w ≠ [])
    (hb : Blank b) (hbne : b ≠ []) (s : List Char) : words (w ++ b ++ s) = w :: words s := by
  cases b with
  | nil => exact absurd rfl hbne
  | cons c b =>
      have hblank : Blank b := fun a ha => hb a (by simp [ha])
      rw [← words_blank_append hblank s, List.append_assoc, List.cons_append]
      exact pieces_append_cons hw hne (hb c (by simp)) (b ++ s)

/-- Two words have blanks between them, and there may be more around them. -/
theorem exists_of_words_pair {s u v : List Char} (h : words s = [u, v]) :
    ∃ first middle last, Blank first ∧ Blank middle ∧ middle ≠ [] ∧ Blank last ∧
      s = first ++ u ++ middle ++ v ++ last := by
  obtain ⟨ws, hws⟩ := exists_parted isBlank s
  obtain rfl : ws = [u, v] := hws.pieces_eq.symm.trans h
  cases hws with
  | @piece first _ _ _ hfirst _ _ hend hrest =>
      cases hrest with
      | @piece middle _ _ _ hmiddle hv hword _ hrest =>
          cases hrest with
          | done hlast =>
              refine ⟨first, middle, _, hfirst, hmiddle, ?_, hlast, by simp⟩
              -- Without a blank the second word would begin with one.
              rintro rfl
              obtain ⟨c, v, rfl⟩ := List.exists_cons_of_ne_nil hv
              have hblank : isBlank c = true := hend c rfl
              simp [hword c (by simp)] at hblank

end KernelCache.Text
