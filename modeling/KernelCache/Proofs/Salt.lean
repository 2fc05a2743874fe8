/-
**Reading a salt back.**

A salt ends with the source, before which every component stands with a bar behind it.  If no
component has a bar of its own, the first bar is where the first component ends, and so on: as many
components can be read back as one knows to be there.  How many they are the salt does not say.

Main definitions:

* `Salt.terminated` — components with a bar behind each;
* `Salt.present` — a component that is left out when it is empty.

Main results:

* `Salt.bytes_ofParts` — the bytes of a salt;
* `Salt.append_stop_inj`, `Salt.append_separator_inj` — what is without a stop ends at the first
  stop;
* `Salt.terminated_decodes` — **as many components are read back as are known to be there**;
* `Salt.terminated_cancel` — before one and the same source even their number is read back.
-/

import KernelCache.Salt
import KernelCache.Proofs.Text.Utf8
import Mathlib.Data.List.Induction

set_option relaxedAutoImplicit false
set_option autoImplicit false

namespace KernelCache.Salt

/-- Components, each with a bar behind it. -/
def terminated (parts : List Bytes) : Bytes := parts.flatMap fun part => part ++ [separator]

/-- The components that an optional one adds: itself, or none when it is empty. -/
def present (part : Bytes) : List Bytes := if part.isEmpty then [] else [part]

/-! ### The bytes of a salt -/

@[simp] theorem terminated_nil : terminated [] = [] := rfl

theorem terminated_cons (part : Bytes) (parts : List Bytes) :
    terminated (part :: parts) = part ++ separator :: terminated parts := by
  simp [terminated]

theorem terminated_append (parts parts' : List Bytes) :
    terminated (parts ++ parts') = terminated parts ++ terminated parts' := by
  simp [terminated]

theorem component_ofParts (parts : List Bytes) (part : Bytes) :
    (ofParts parts).component part = ofParts (parts ++ [part]) := by
  simp [ofParts]

theorem optional_ofParts (parts : List Bytes) (part : Bytes) :
    (ofParts parts).optional part = ofParts (parts ++ present part) := by
  rw [optional, present]
  split
  · rw [List.append_nil]
  · exact component_ofParts parts part

@[simp] theorem parts_ofParts (parts : List Bytes) : (ofParts parts).parts = parts.length := by
  induction parts using List.reverseRecOn with
  | nil => rfl
  | append_singleton parts part ih =>
      rw [← component_ofParts, component, ih, List.length_append, List.length_singleton]

/-- **The bytes of a salt**: the last component, after the others with their bars. -/
theorem bytes_ofParts (parts : List Bytes) (last : Bytes) :
    (ofParts (parts ++ [last])).bytes = terminated parts ++ last := by
  induction parts using List.reverseRecOn generalizing last with
  | nil => simp [ofParts, component, empty]
  | append_singleton parts part ih =>
      have hsome : (ofParts (parts ++ [part])).parts ≠ 0 := by simp
      rw [← component_ofParts, component, if_neg hsome, ih, terminated_append, terminated_cons]
      simp

/-! ### Reading back -/

/-- What is without a stop ends at the first stop. -/
theorem append_stop_inj {α : Type} {stop : α → Bool} {a b s t : List α} {x y : α}
    (ha : ∀ c ∈ a, stop c = false) (hb : ∀ c ∈ b, stop c = false) (hx : stop x = true)
    (hy : stop y = true) : a ++ x :: s = b ++ y :: t ↔ a = b ∧ x = y ∧ s = t := by
  have cut {a s : List α} {x : α} (ha : ∀ c ∈ a, stop c = false) (hx : stop x = true) :
      (a ++ x :: s).takeWhile (fun c => !stop c) = a ∧
        (a ++ x :: s).dropWhile (fun c => !stop c) = x :: s := by
    have hpass : ∀ c ∈ a, (!stop c) = true := fun c hc => by rw [ha c hc]; rfl
    rw [List.takeWhile_append_of_pos hpass, List.dropWhile_append_of_pos hpass]
    simp [hx]
  constructor
  · intro h
    obtain ⟨hfront, hback⟩ := cut ha hx (s := s)
    obtain ⟨hfront', hback'⟩ := cut hb hy (s := t)
    rw [h] at hfront hback
    exact ⟨hfront.symm.trans hfront', List.cons_eq_cons.1 (hback.symm.trans hback')⟩
  · rintro ⟨rfl, rfl, rfl⟩
    rfl

/-- What is without a separator ends at the first one. -/
theorem append_separator_inj {α : Type} [DecidableEq α] {sep : α} {a b s t : List α}
    (ha : sep ∉ a) (hb : sep ∉ b) : a ++ sep :: s = b ++ sep :: t ↔ a = b ∧ s = t := by
  have hstop {a : List α} (ha : sep ∉ a) : ∀ c ∈ a, (c == sep) = false :=
    fun c hc => beq_false_of_ne (ne_of_mem_of_not_mem hc ha)
  have hself : (sep == sep) = true := beq_self_eq_true sep
  rw [append_stop_inj (hstop ha) (hstop hb) hself hself, eq_self, true_and]

/-- **As many components are read back as are known to be there**, whatever follows them. -/
theorem terminated_decodes {parts parts' : List Bytes} (hparts : ∀ part ∈ parts, separator ∉ part)
    (hparts' : ∀ part ∈ parts', separator ∉ part) (hlength : parts.length = parts'.length)
    {s t : Bytes} (h : terminated parts ++ s = terminated parts' ++ t) :
    parts = parts' ∧ s = t := by
  induction parts generalizing parts' with
  | nil =>
      obtain rfl : parts' = [] := List.length_eq_zero_iff.mp hlength.symm
      exact ⟨rfl, h⟩
  | cons part rest ih =>
      obtain ⟨part', rest', rfl⟩ := List.exists_cons_of_length_eq_add_one hlength.symm
      rw [List.forall_mem_cons] at hparts hparts'
      rw [terminated_cons, terminated_cons, List.append_assoc, List.append_assoc, List.cons_append,
        List.cons_append, append_separator_inj hparts.1 hparts'.1] at h
      obtain ⟨rfl, hrest⟩ := h
      obtain ⟨rfl, rfl⟩ := ih hparts.2 hparts'.2 (Nat.succ.inj hlength) hrest
      exact ⟨rfl, rfl⟩

/-- Before the same source all components are read back, and so is their number. -/
theorem terminated_cancel {parts parts' : List Bytes} (hparts : ∀ part ∈ parts, separator ∉ part)
    (hparts' : ∀ part ∈ parts', separator ∉ part) {s : Bytes}
    (h : terminated parts ++ s = terminated parts' ++ s) : parts = parts' := by
  have hbars := List.append_cancel_right h
  -- each component brings one bar, so there are as many components as bars
  have hcount (l : List Bytes) (hl : ∀ part ∈ l, separator ∉ part) :
      (terminated l).count separator = l.length := by
    induction l with
    | nil => rfl
    | cons part rest ih =>
        rw [List.forall_mem_cons] at hl
        rw [terminated_cons, List.count_append, List.count_cons_self, ih hl.2,
          List.count_eq_zero_of_not_mem hl.1, List.length_cons, Nat.zero_add]
  have hlength : parts.length = parts'.length := by
    rw [← hcount parts hparts, ← hcount parts' hparts', hbars]
  exact (terminated_decodes hparts hparts' hlength h).1

end KernelCache.Salt
