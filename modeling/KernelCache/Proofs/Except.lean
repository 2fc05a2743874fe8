/-
**Computations that may fail.**

What is known of a computation that gave a result: each of its steps gave one.

Main results:

* `bind_eq_ok_iff`, `check_eq_ok_iff` — a step and what follows it;
* `mapM_eq_error_iff`, `exists_of_mem_mapM` — the members of a list, one after the other;
* `eq_ok_of_toOption`, `exists_ok_of_isSome` — results that are known apart from the faults.
-/

import Mathlib.Data.List.Basic

set_option relaxedAutoImplicit false
set_option autoImplicit false

namespace KernelCache

variable {ε α β : Type}

/-! ### Steps -/

theorem bind_eq_ok_iff {x : Except ε α} {next : α → Except ε β} {r : β} :
    (x >>= next) = .ok r ↔ ∃ a, x = .ok a ∧ next a = .ok r := by
  cases x <;> simp [bind, Except.bind]

/-- A check that throws has been passed where there is a result. -/
theorem check_eq_ok_iff {c : Prop} [Decidable c] {e : ε} {next : PUnit → Except ε α} {r : α} :
    (if c then throw e >>= next else next PUnit.unit) = .ok r ↔
      ¬c ∧ next PUnit.unit = .ok r := by
  split
  · next h => simp [h, throw, throwThe, MonadExceptOf.throw, bind, Except.bind]
  · next h => simp [h]

/-! ### Lists -/

theorem mapM_cons_eq_error_iff {f : α → Except ε β} {a : α} {l : List α} {e : ε} :
    (a :: l).mapM f = .error e ↔
      f a = .error e ∨ (∃ c, f a = .ok c) ∧ l.mapM f = .error e := by
  rw [List.mapM_cons]
  cases f a with
  | error e' => simp [bind, Except.bind]
  | ok c => cases l.mapM f <;> simp [bind, Except.bind, pure, Except.pure]

/-- A list is refused with the fault of the first member that has one. -/
theorem mapM_eq_error_iff {f : α → Except ε β} {l : List α} {e : ε} :
    l.mapM f = .error e ↔
      ∃ before a after, l = before ++ a :: after ∧ (∀ b ∈ before, ∃ c, f b = .ok c) ∧
        f a = .error e := by
  induction l with
  | nil =>
      constructor
      · intro h
        cases h
      · rintro ⟨before, a, after, heq, -⟩
        simp at heq
  | cons a l ih =>
      rw [mapM_cons_eq_error_iff, ih]
      constructor
      · rintro (ha | ⟨hc, before, b, after, rfl, hbefore, hb⟩)
        · exact ⟨[], a, l, rfl, by simp, ha⟩
        · exact ⟨a :: before, b, after, rfl, List.forall_mem_cons.2 ⟨hc, hbefore⟩, hb⟩
      · rintro ⟨before, b, after, heq, hbefore, hb⟩
        cases before with
        | nil =>
            obtain ⟨rfl, rfl⟩ := List.cons.inj heq
            exact Or.inl hb
        | cons b' before =>
            obtain ⟨rfl, rfl⟩ := List.cons.inj heq
            obtain ⟨hc, hbefore⟩ := List.forall_mem_cons.1 hbefore
            exact Or.inr ⟨hc, before, b, after, rfl, hbefore, hb⟩

/-- What a list gives comes from its members. -/
theorem exists_of_mem_mapM {f : α → Except ε β} {l : List α} {m : List β}
    (h : l.mapM f = .ok m) : ∀ b ∈ m, ∃ a ∈ l, f a = .ok b := by
  induction l generalizing m with
  | nil =>
      cases h
      simp
  | cons a l ih =>
      rw [List.mapM_cons] at h
      obtain ⟨b, hb, h⟩ := bind_eq_ok_iff.1 h
      obtain ⟨bs, hbs, h⟩ := bind_eq_ok_iff.1 h
      obtain rfl := Except.ok.inj h
      rw [List.forall_mem_cons]
      refine ⟨⟨a, List.mem_cons_self .., hb⟩, fun b' hb' => ?_⟩
      obtain ⟨a', ha', hf⟩ := ih hbs b' hb'
      exact ⟨a', List.mem_cons_of_mem _ ha', hf⟩

/-! ### Results -/

theorem eq_ok_of_toOption {x : Except ε α} {a : α} (h : x.toOption = some a) : x = .ok a := by
  cases x with
  | error e => cases h
  | ok b => rw [Option.some.inj h]

/-- The result of a run that comes to its end without a fault. -/
theorem exists_ok_of_isSome {x? : Option (Except ε α)} (h : (x?.bind Except.toOption).isSome) :
    ∃ a, x? = some (.ok a) := by
  obtain ⟨a, ha⟩ := Option.isSome_iff_exists.1 h
  obtain ⟨x, hx, hxa⟩ := Option.bind_eq_some_iff.1 ha
  exact ⟨a, hx.trans (congrArg some (eq_ok_of_toOption hxa))⟩

end KernelCache
