/-
**What a script before the compiler does to its arguments.**

Without a script a compiler gets each argument as it is.  With a script the whole command is one
text, which a shell splits at blanks again.  So both ways give the compiler the same arguments
exactly if no text that the command is made from has a blank in it, or is missing.

Main definition:

* `CompileCommand.Solid` — texts that a shell takes as one word.

Main results:

* `CompileCommand.fields_line` — the pieces of a command line;
* `CompileCommand.words_shellText` — **the words after the script are the pieces of the arguments,
  and they are the arguments exactly if compiler, source and output are solid**.
-/

import KernelCache.Device.Identity
import KernelCache.Proofs.Shell.Script

set_option relaxedAutoImplicit false
set_option autoImplicit false

namespace KernelCache.CompileCommand

/-! ### Arguments -/

/-- The pieces between blanks that a shell sees in an argument. -/
def piecesOf (a : String) : List String := (Shell.fields a.toList).map String.ofList

/-- A text that a shell takes as one word: there is something in it, and no blank. -/
def Solid (a : String) : Prop := a ≠ "" ∧ ∀ c ∈ a.toList, Shell.isBlank c = false

instance (a : String) : Decidable (Solid a) :=
  have := List.decidableBAll (fun c => Shell.isBlank c = false) a.toList
  instDecidableAnd

theorem Solid.piecesOf_eq {a : String} (h : Solid a) : piecesOf a = [a] := by
  have hne : a.toList ≠ [] := fun hnil => h.1 (String.toList_eq_nil_iff.1 hnil)
  rw [piecesOf, Shell.fields, Text.pieces_single h.2 hne, List.map_singleton, String.ofList_toList]

theorem solid_of_mem_piecesOf {a b : String} (h : b ∈ piecesOf a) : Solid b := by
  obtain ⟨w, hw, rfl⟩ := List.mem_map.1 h
  obtain ⟨hne, hblank, -⟩ := Text.mem_pieces hw
  refine ⟨fun hempty => hne ?_, by simpa using hblank⟩
  simpa using congrArg String.toList hempty

/-- Arguments come back whole exactly if each of them is solid. -/
theorem flatMap_piecesOf_eq_iff {l : List String} :
    l.flatMap piecesOf = l ↔ ∀ a ∈ l, Solid a := by
  constructor
  · intro h a ha
    rw [← h] at ha
    obtain ⟨b, -, hmem⟩ := List.mem_flatMap.1 ha
    exact solid_of_mem_piecesOf hmem
  · intro h
    induction l with
    | nil => rfl
    | cons a l ih =>
        rw [List.flatMap_cons, (h a (by simp)).piecesOf_eq, ih fun b hb => h b (by simp [hb]),
          List.singleton_append]

/-! ### Command lines -/

theorem fields_append_blank (s t : List Char) :
    Shell.fields (s ++ ' ' :: t) = Shell.fields s ++ Shell.fields t := Text.pieces_join s rfl t

theorem fields_intercalate (l : List String) :
    Shell.fields (" ".intercalate l).toList = l.flatMap fun a => Shell.fields a.toList := by
  rw [String.toList_intercalate]
  induction l with
  | nil => rfl
  | cons a l ih =>
      cases l with
      | nil => simp
      | cons b l =>
          rw [List.map_cons, List.map_cons, List.intercalate_cons_cons, ← List.map_cons,
            List.append_assoc, List.flatMap_cons, ← ih]
          exact fields_append_blank _ _

/-- The pieces of a command line are those of the compiler and of its arguments. -/
theorem fields_line (c : CompileCommand) : Shell.fields c.line.toList =
    (c.compiler :: c.arguments).flatMap fun a => Shell.fields a.toList := by
  rw [line, String.toList_append, String.toList_append, List.append_assoc, List.flatMap_cons,
    ← fields_intercalate]
  exact fields_append_blank _ _

theorem toList_shellText (c : CompileCommand) :
    c.shellText.toList = c.script.toList ++ (" && ".toList ++ c.line.toList) := by
  rw [shellText, String.toList_append, String.toList_append, List.append_assoc]

theorem expand_fields_line (c : CompileCommand) (scope : Shell.Scope) :
    ((Shell.fields c.line.toList).map Shell.bareWord).flatMap (Shell.expand scope) =
      (c.compiler :: c.arguments).flatMap piecesOf := by
  have hword : ∀ w, Shell.expand scope (Shell.bareWord w) = [String.ofList w] :=
    Shell.expand_bareWord scope
  rw [fields_line, List.flatMap_map]
  simp only [hword, ← List.map_eq_flatMap, List.map_flatMap]
  rfl

/-! ### Plain command lines -/

theorem plain_append {s t : List Char} (hs : Shell.Plain s) (ht : Shell.Plain t) :
    Shell.Plain (s ++ t) := by
  intro c hc
  exact (List.mem_append.1 hc).elim (hs c) (ht c)

theorem plain_intercalate {l : List String} (h : ∀ a ∈ l, Shell.Plain a.toList) :
    Shell.Plain (" ".intercalate l).toList := by
  rw [String.toList_intercalate]
  induction l with
  | nil => simp [Shell.Plain]
  | cons a l ih =>
      have ha : Shell.Plain a.toList := h a (by simp)
      cases l with
      | nil => simpa using ha
      | cons b l =>
          rw [List.map_cons, List.map_cons, List.intercalate_cons_cons, ← List.map_cons]
          exact plain_append (plain_append ha (by decide)) (ih fun b hb => h b (by simp [hb]))

theorem plain_line {c : CompileCommand} (hcompiler : Shell.Plain c.compiler.toList)
    (harguments : ∀ a ∈ c.arguments, Shell.Plain a.toList) : Shell.Plain c.line.toList := by
  rw [line, String.toList_append, String.toList_append]
  exact plain_append (plain_append hcompiler (by decide)) (plain_intercalate harguments)

/-! ### The command of a device -/

section

variable {i : Identity} {source output : Path}

theorem mem_arguments_make {a : String} : a ∈ (make i source output).arguments ↔
    (∃ w ∈ Text.words i.compilerFlags.toList, a = String.ofList w) ∨
      a ∈ (Vendor.ofCompiler i.compiler).sharedFlags ∨ a = source.display ∨
        a ∈ (Vendor.ofCompiler i.compiler).outputArguments output.display := by
  simp only [make, List.mem_append, List.mem_map, List.mem_cons, or_assoc, eq_comm]

theorem sharedFlags_ok (v : Vendor) : ∀ a ∈ v.sharedFlags, Shell.Plain a.toList ∧ Solid a := by
  cases v <;> decide

theorem sharedFlags_ne_nil (v : Vendor) : v.sharedFlags ≠ [] := by
  cases v <;> decide

theorem plain_outputArguments (v : Vendor) {output : String} (h : Shell.Plain output.toList) :
    ∀ a ∈ v.outputArguments output, Shell.Plain a.toList := by
  have hoption : Shell.Plain "-o".toList := by decide
  have hglued : Shell.Plain ("/Fe:" ++ output).toList := by
    rw [String.toList_append]
    exact plain_append (by decide) h
  cases v <;>
    simp only [Vendor.outputArguments, List.mem_cons, List.not_mem_nil, or_false, forall_eq_or_imp,
      forall_eq]
  case msvc => exact hglued
  all_goals exact ⟨hoption, h⟩

/-- Flags may have any blanks around them: the compiler gets what stands between. -/
theorem plain_arguments
    (hflags : ∀ c ∈ i.compilerFlags.toList, Text.isBlank c = true ∨ Shell.Plain [c])
    (hsource : Shell.Plain source.display.toList) (houtput : Shell.Plain output.display.toList) :
    ∀ a ∈ (make i source output).arguments, Shell.Plain a.toList := by
  intro a ha
  rcases mem_arguments_make.1 ha with ⟨w, hw, rfl⟩ | hshared | rfl | hout
  · rw [String.toList_ofList]
    obtain ⟨-, hblank, hmem⟩ := Text.mem_pieces hw
    intro c hc
    rcases hflags c (hmem c hc) with hb | hplain
    · rw [hblank c hc] at hb
      exact absurd hb Bool.false_ne_true
    · exact hplain c (by simp)
  · exact (sharedFlags_ok _ a hshared).1
  · exact hsource
  · exact plain_outputArguments _ houtput a hout

theorem solid_word {w : List Char} (hw : w ∈ Text.words i.compilerFlags.toList) :
    Solid (String.ofList w) := by
  obtain ⟨hne, hblank, -⟩ := Text.mem_pieces hw
  refine ⟨fun hempty => hne (by simpa using congrArg String.toList hempty), ?_⟩
  intro c hc
  rw [String.toList_ofList] at hc
  cases hshell : Shell.isBlank c with
  | false => rfl
  | true =>
      have htext : Text.isBlank c = true := by
        simp only [Shell.isBlank, Bool.or_eq_true, beq_iff_eq] at hshell
        rcases hshell with (rfl | rfl) | rfl <;> decide
      rw [hblank c hc] at htext
      exact absurd htext Bool.false_ne_true

/-- Only compiler, source and output may fail to be solid. -/
theorem solid_iff :
    (∀ a ∈ (make i source output).compiler :: (make i source output).arguments, Solid a) ↔
      Solid i.compiler ∧ Solid source.display ∧
        ∀ a ∈ (Vendor.ofCompiler i.compiler).outputArguments output.display, Solid a := by
  constructor
  · intro h
    exact ⟨h _ List.mem_cons_self,
      h _ (List.mem_cons_of_mem _ (mem_arguments_make.2 (by simp))),
      fun a ha => h a (List.mem_cons_of_mem _ (mem_arguments_make.2 (by simp [ha])))⟩
  · rintro ⟨hcompiler, hsource, houtput⟩ a ha
    rcases List.mem_cons.1 ha with rfl | ha
    · exact hcompiler
    · rcases mem_arguments_make.1 ha with ⟨w, hw, rfl⟩ | hshared | rfl | hout
      · exact solid_word hw
      · exact (sharedFlags_ok _ a hshared).2
      · exact hsource
      · exact houtput a hout

/-- The flags for a shared library are always there. -/
theorem fields_line_ne_nil : Shell.fields (make i source output).line.toList ≠ [] := by
  obtain ⟨a, rest, hflags⟩ :=
    List.exists_cons_of_ne_nil (sharedFlags_ne_nil (Vendor.ofCompiler i.compiler))
  have ha : a ∈ (Vendor.ofCompiler i.compiler).sharedFlags := by simp [hflags]
  have hsolid := (sharedFlags_ok _ a ha).2
  have hpieces : Shell.fields a.toList = [a.toList] :=
    Text.pieces_single hsolid.2 fun hnil => hsolid.1 (String.toList_eq_nil_iff.1 hnil)
  rw [fields_line]
  refine List.ne_nil_of_mem (a := a.toList) (List.mem_flatMap.2 ⟨a, ?_, by simp [hpieces]⟩)
  exact List.mem_cons_of_mem _ (mem_arguments_make.2 (by simp [ha]))

/-- **What a script before the compiler does to its arguments.**  If compiler, flags and paths are
plain and the shell reads the script to its end, what it reads after the script are the pieces
between blanks of the compiler and the arguments that it gets without a script.  They are the words
of the last command, which runs only if the script succeeds.  They are the compiler and these
arguments exactly if compiler, source and output are there and have no blanks. -/
theorem words_shellText (hcompiler : Shell.Plain i.compiler.toList)
    (hflags : ∀ c ∈ i.compilerFlags.toList, Text.isBlank c = true ∨ Shell.Plain [c])
    (hsource : Shell.Plain source.display.toList) (houtput : Shell.Plain output.display.toList)
    {ts : List Shell.Token} {gap : List Char} (hgap : Shell.Gap gap)
    (hscript : Scan.Reads Shell.token (make i source output).shellText.toList ts
      (gap ++ (" && ".toList ++ (make i source output).line.toList))) :
    ∃ words : List (List Shell.Piece),
      Shell.tokens (make i source output).shellText.toList =
          some (ts ++ .also :: words.map .word, []) ∧
        (Shell.parse (make i source output).shellText.toList).EndsWith words ∧
        ∀ scope : Shell.Scope,
          words.flatMap (Shell.expand scope) =
              ((make i source output).compiler :: (make i source output).arguments).flatMap
                piecesOf ∧
            (words.flatMap (Shell.expand scope) =
                (make i source output).compiler :: (make i source output).arguments ↔
              Solid i.compiler ∧ Solid source.display ∧
                ∀ a ∈ (Vendor.ofCompiler i.compiler).outputArguments output.display, Solid a) := by
  have hline : Shell.Plain (make i source output).line.toList :=
    plain_line hcompiler (plain_arguments hflags hsource houtput)
  have htokens := Shell.tokens_also_plain hgap hline hscript
  refine ⟨(Shell.fields (make i source output).line.toList).map Shell.bareWord, ?_, ?_,
    fun scope => ⟨?_, ?_⟩⟩
  · rw [htokens, List.map_map]
    rfl
  · rw [Shell.parse, htokens]
    have hne : (Shell.fields (make i source output).line.toList).map Shell.bareWord ≠ [] :=
      fun hnil => fields_line_ne_nil (List.map_eq_nil_iff.1 hnil)
    have hends := Shell.commands_endsWith hne ts [] .always (.start 1)
    rw [List.map_map] at hends
    exact hends
  · exact expand_fields_line _ scope
  · rw [expand_fields_line, flatMap_piecesOf_eq_iff]
    exact solid_iff

end

/-- A device whose compiler needs a script. -/
def scripted : Identity := ⟨.serial, "cc", "-O2\t-g", "true", ""⟩

/-- The script is read to its end, and the words after it are the compiler and its arguments. -/
theorem words_scripted : ∃ words : List (List Shell.Piece),
    Shell.tokens (make scripted (.ofString "k.c") (.ofString "out")).shellText.toList =
        some ([.word (Shell.bareWord "true".toList)] ++ .also :: words.map .word, []) ∧
      ∀ scope : Shell.Scope, words.flatMap (Shell.expand scope) =
        ["cc", "-O2", "-g", "-shared", "-fPIC", "k.c", "-o", "out"] := by
  let command := make scripted (.ofString "k.c") (.ofString "out")
  have hscript : Scan.Reads Shell.token command.shellText.toList
      [.word (Shell.bareWord "true".toList)]
      ([] ++ (" && ".toList ++ command.line.toList)) := by
    rw [toList_shellText]
    have htrue := Shell.token_bare (b := []) (w := "true".toList)
      (r := " && ".toList ++ command.line.toList)
      (by simp [Shell.Gap]) (by decide) (by simp [Shell.isBare, Shell.isBlank])
      (by simp [Shell.isBlank])
    exact .turn htrue (by simp [command, make, scripted]) (.done _)
  have hflags : ∀ c ∈ scripted.compilerFlags.toList,
      Text.isBlank c = true ∨ Shell.Plain [c] := by
    simp only [scripted, String.reduceToList, List.mem_cons, List.not_mem_nil, or_false,
      forall_eq_or_imp, forall_eq]
    decide
  obtain ⟨words, htokens, -, hwords⟩ := words_shellText (i := scripted) (by decide) hflags
    (by decide +kernel) (by decide +kernel) (by simp [Shell.Gap]) hscript
  refine ⟨words, htokens, fun scope => ?_⟩
  exact ((hwords scope).2.2 (by decide +kernel)).trans (by decide +kernel)

/-- A blank in a path takes the path apart. -/
theorem blank_takes_path_apart :
    (make scripted (.ofString "k.c") (.ofString "my out")).arguments =
        ["-O2", "-g", "-shared", "-fPIC", "k.c", "-o", "my out"] ∧
      ((Shell.parse (make scripted (.ofString "k.c")
            (.ofString "my out")).shellText.toList).commands.map
          fun c => c.2.words.flatMap (Shell.expand ⟨"sh", .empty, [], [], 0⟩)) =
        [["true"], ["cc", "-O2", "-g", "-shared", "-fPIC", "k.c", "-o", "my", "out"]] := by
  decide +kernel

end KernelCache.CompileCommand
