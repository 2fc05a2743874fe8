/-
**A plain command after a script.**

A script that is followed by a plain text is read as its own tokens and then the pieces of the text.
When it all makes sense, these pieces are the words of the last command, and that command runs only
if what stands before it succeeds.

Main definition:

* `Shell.Parsed.EndsWith` — what a script ends with, when it makes sense.

Main results:

* `Shell.tokens_also_plain` — **what follows a script is read as its pieces**;
* `Shell.commands_endsWith` — the last command of what is read.
-/

import KernelCache.Proofs.Shell.Word
import Mathlib.Data.List.TakeWhile

set_option relaxedAutoImplicit false
set_option autoImplicit false

namespace KernelCache.Shell

open Scan

/-! ### Tokens -/

/-- A text is read whole when only blanks are left of it. -/
theorem tokens_of_reads {s b : List Char} {ts : List Token} (h : Reads token s ts b)
    (hb : Gap b) : tokens s = some (ts, []) := by
  have hblank : ∀ c ∈ b, isBlank c = true := by
    intro c hc
    simp only [isBlank, hb c hc, Bool.true_or]
  have htake : take isBlank b = some (b, []) := by
    rw [take, List.takeWhile_eq_self_iff.2 hblank, List.dropWhile_eq_nil_iff.2 hblank]
  have hcomment : (optional do word "#"; take fun _ => true : Scan (Option (List Char))) [] =
      some (none, []) := rfl
  rw [tokens, bind_of_some (many_of_reads h (token_of_gap hb)), bind_of_some htake,
    bind_of_some hcomment]
  rfl

/-- The operator between two commands of which the second needs the first. -/
theorem token_also {b : List Char} (hb : Gap b) (s : List Char) :
    token (b ++ '&' :: '&' :: s) = some (.also, s) := by
  have hbreak : word "\n" ('&' :: '&' :: s) = none := word_of_ne (c := '\n') rfl (by simp)
  have hsemicolon : word ";" ('&' :: '&' :: s) = none := word_of_ne (c := ';') rfl (by simp)
  have halso : word "&&" ('&' :: '&' :: s) = some ((), s) := rfl
  rw [token_gap hb (by simp), operatorOrWord, orElse_of_none (bind_of_none hbreak _),
    orElse_of_none (bind_of_none hsemicolon _), orElse_of_some (bind_of_some halso)]

/-- **What follows a script is read as its pieces**, if the script is read to its end. -/
theorem tokens_also_plain {s b line : List Char} {ts : List Token} (hb : Gap b)
    (hline : Plain line)
    (h : Reads token s ts (b ++ (" && ".toList ++ line))) :
    tokens s = some (ts ++ .also :: (fields line).map fun w => .word (bareWord w), []) := by
  have hplain : Plain (' ' :: line) := by
    intro c hc
    rcases List.mem_cons.1 hc with rfl | hc
    · decide
    · exact hline c hc
  have hgap : Gap (b ++ [' ']) := by
    intro c hc
    rcases List.mem_append.1 hc with hc | hc
    · exact hb c hc
    · rw [List.mem_singleton.1 hc]
      rfl
  have hsplit : b ++ (" && ".toList ++ line) = b ++ [' '] ++ '&' :: '&' :: (' ' :: line) := by
    simp
  have hfields : fields (' ' :: line) = fields line := Text.pieces_cons rfl line
  have hend : ∀ c ∈ ([] : List Char).head?, isBlank c = true := by simp
  obtain ⟨b', hb', hreads⟩ := reads_plain hplain hend
  rw [List.append_nil, List.append_nil, hfields] at hreads
  have halso : Reads token (b ++ (" && ".toList ++ line))
      (.also :: (fields line).map fun w => .word (bareWord w)) b' := by
    rw [hsplit]
    refine .turn (token_also hgap (' ' :: line)) ?_ hreads
    simp only [List.length_append, List.length_cons]
    omega
  exact tokens_of_reads (h.trans halso) hb'

/-! ### Commands -/

/-- What is read makes no sense, or its last command has given words and runs only if what stands
before it succeeds. -/
def Parsed.EndsWith (ws : List (List Piece)) (p : Parsed) : Prop :=
  p.fault = none → ∃ before n, p.commands = before ++ [(.onSuccess, ⟨ws, [], n⟩)]

theorem Parsed.EndsWith.failed (ws : List (List Piece)) (line : Nat) (reason : String) :
    (Parsed.failed line reason).EndsWith ws := fun h => absurd h (Option.some_ne_none _)

theorem Parsed.EndsWith.after {ws : List (List Piece)} {p : Parsed} (h : p.EndsWith ws)
    (cs : List (Link × Command)) : (p.after cs).EndsWith ws := by
  intro hfault
  obtain ⟨before, n, hp⟩ := h hfault
  exact ⟨cs ++ before, n, by rw [Parsed.after, hp, List.append_assoc]⟩

theorem commands_words (line : List (Link × Command)) (link : Link) (c : Command)
    {ws : List (List Piece)} (h : c.isEmpty = false ∨ ws ≠ []) :
    commands none line link c (ws.map .word) =
      Parsed.finished.after (line ++ [(link, { c with words := c.words ++ ws })]) := by
  induction ws generalizing c with
  | nil =>
      have hc : c.isEmpty = false := by simpa using h
      simp [commands, hc, close]
  | cons w ws ih =>
      rw [List.map_cons, commands, ih]
      · simp
      · exact Or.inl (by simp [Command.isEmpty])

theorem commands_operator {t : Token} (ht : t ∈ [.also, .instead, .semicolon])
    (line : List (Link × Command)) (link : Link) (c : Command) (rest : List Token) :
    commands none line link c (t :: rest) =
      if c.isEmpty then .failed c.line ("\"" ++ t.text ++ "\" unexpected")
      else commands none (close line link c) (.after t) (.start c.line) rest := by
  simp only [List.mem_cons, List.not_mem_nil, or_false] at ht
  rcases ht with rfl | rfl | rfl <;> rfl

/-- Words after the operator that needs success are the last command. -/
theorem commands_endsWith {ws : List (List Piece)} (hws : ws ≠ []) (ts : List Token)
    (line : List (Link × Command)) (link : Link) (c : Command) :
    (commands none line link c (ts ++ .also :: ws.map .word)).EndsWith ws := by
  induction hn : ts.length using Nat.strongRecOn generalizing ts line link c with
  | ind n ih =>
    cases ts with
    | nil =>
        rw [List.nil_append, commands_operator (by simp)]
        split
        · exact .failed ws _ _
        · rw [commands_words _ _ _ (Or.inr hws)]
          intro _
          exact ⟨close line link c, c.line, by simp [Parsed.after, Parsed.finished, Link.after,
            Command.start]⟩
    | cons t ts =>
        rw [List.length_cons] at hn
        have hrest : ∀ line link c,
            (commands none line link c (ts ++ .also :: ws.map .word)).EndsWith ws :=
          fun line link c => ih _ (by omega) ts line link c rfl
        have hoperator : t ∈ [.also, .instead, .semicolon] →
            (commands none line link c (t :: (ts ++ .also :: ws.map .word))).EndsWith ws := by
          intro ht
          rw [commands_operator ht]
          split
          · exact .failed ws _ _
          · exact hrest _ _ _
        rw [List.cons_append]
        cases t with
        | word w => exact hrest line link { c with words := c.words ++ [w] }
        | copy channel source =>
            exact hrest line link { c with redirects := c.redirects ++ [.copy channel source] }
        | also => exact hoperator (by simp)
        | instead => exact hoperator (by simp)
        | semicolon => exact hoperator (by simp)
        | lineBreak =>
            rw [commands]
            split
            · exact hrest _ _ _
            · exact (hrest _ _ _).after _
        | redirect channel append =>
            -- A redirection takes a word with it; anything else after it is a fault.
            cases ts with
            | nil => exact .failed ws c.line _
            | cons t ts =>
                rw [List.length_cons] at hn
                cases t with
                | word w =>
                    exact ih _ (by omega) ts line link
                      { c with redirects := c.redirects ++ [.file channel append w] } rfl
                | redirect | copy | also | instead | semicolon | lineBreak =>
                    exact .failed ws c.line _

end KernelCache.Shell
