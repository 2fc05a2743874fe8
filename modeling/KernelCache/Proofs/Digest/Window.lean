/-
**Changes within a short window change the key.**

The hash of a lane is the value of a polynomial over the field, at the base of the lane and times
its mixer.  Four bytes make a polynomial of degree three at most; one that vanishes at the four
bases is zero, and the coefficients, a byte and one each, tell the bytes.  What stands before and
after these bytes does not count, so any other bytes in their place give another digest.

Main definitions:

* `Lane.polynomial` — the polynomial of a byte sequence over the field;
* `Digest.points` — the bases of the four lanes.

Main results:

* `Lane.polynomial_injective` — a polynomial tells its bytes;
* `Lane.eval_eq_of_of_eq` — what the hash of a lane says of a sequence;
* `Digest.of_inj` — the digest of four bytes or fewer tells them;
* `Digest.window_iff` — two sequences that differ within four bytes have different digests;
* `local_edits_change_keys` — **and so have two sources, and two salts**.
-/

import KernelCache.Proofs.Digest.Cancellation
import Mathlib.LinearAlgebra.Lagrange

set_option relaxedAutoImplicit false
set_option autoImplicit false

namespace KernelCache

namespace Lane

open Polynomial

/-! ### Polynomials of byte sequences -/

/-- The polynomial of a byte sequence: its coefficients are the bytes and one each, the last byte's
first. -/
noncomputable def polynomial (bytes : Bytes) : (ZMod order)[X] :=
  bytes.foldl (fun f b => f * X + C ((b.toNat + 1 : Nat) : ZMod order)) 0

@[simp] theorem polynomial_nil : polynomial [] = 0 := rfl

@[simp] theorem polynomial_concat (bytes : Bytes) (b : UInt8) :
    polynomial (bytes ++ [b]) = polynomial bytes * X + C ((b.toNat + 1 : Nat) : ZMod order) := by
  rw [polynomial, List.foldl_append]
  rfl

theorem degree_polynomial_lt (bytes : Bytes) : (polynomial bytes).degree < bytes.length := by
  induction bytes using List.reverseRecOn with
  | nil => simp
  | append_singleton bytes b ih =>
      rw [polynomial_concat, List.length_append, List.length_singleton]
      refine (degree_add_le _ _).trans_lt (max_lt ?_ ?_)
      · rw [degree_mul_X, Nat.cast_add, Nat.cast_one]
        exact WithBot.add_lt_add_right (by simp) ih
      · exact degree_C_le.trans_lt (by exact_mod_cast Nat.succ_pos bytes.length)

/-- A byte and one make a number below the order. -/
theorem byte_succ_lt (b : UInt8) : b.toNat + 1 < order :=
  lt_of_le_of_lt (Nat.succ_le_of_lt b.toNat_lt) (by decide)

/-- **A polynomial tells the bytes it is made of**: no coefficient is zero, and a coefficient is the
byte and one. -/
theorem polynomial_injective : Function.Injective polynomial := by
  intro x y h
  induction x using List.reverseRecOn generalizing y with
  | nil =>
      rcases List.eq_nil_or_concat y with rfl | ⟨y, c, rfl⟩
      · rfl
      · have hzero := congrArg (coeff · 0) h
        simp only [polynomial_nil, List.concat_eq_append, polynomial_concat, coeff_zero,
          coeff_add, coeff_mul_X_zero, coeff_C_zero, zero_add] at hzero
        rw [← Nat.cast_zero, cast_inj order_pos (byte_succ_lt c)] at hzero
        exact absurd hzero.symm (Nat.succ_ne_zero _)
  | append_singleton x b ih =>
      rcases List.eq_nil_or_concat y with rfl | ⟨y, c, rfl⟩
      · have hzero := congrArg (coeff · 0) h
        simp only [polynomial_nil, polynomial_concat, coeff_zero, coeff_add, coeff_mul_X_zero,
          coeff_C_zero, zero_add] at hzero
        rw [← Nat.cast_zero, cast_inj (byte_succ_lt b) order_pos] at hzero
        exact absurd hzero (Nat.succ_ne_zero _)
      · rw [List.concat_eq_append, polynomial_concat, polynomial_concat] at h
        -- the last byte is the constant coefficient, the others are what is left over `X`
        have hlast := congrArg (coeff · 0) h
        simp only [coeff_add, coeff_mul_X_zero, coeff_C_zero, zero_add] at hlast
        rw [cast_inj (byte_succ_lt b) (byte_succ_lt c), Nat.succ_inj, UInt8.toNat_inj] at hlast
        subst hlast
        have hrest : polynomial x = polynomial y :=
          mul_left_injective₀ X_ne_zero (add_right_cancel h)
        rw [ih hrest, List.concat_eq_append]

/-- The sum of a lane is the value of the polynomial at the base, times the mixer. -/
theorem cast_sum (k : Key) (bytes : Bytes) :
    (k.sum bytes : ZMod order) = (polynomial bytes).eval k.point * k.mixer.toNat := by
  induction bytes using List.reverseRecOn with
  | nil => simp
  | append_singleton bytes b ih =>
      have hsingle : k.sum [b] = (b.toNat + 1) * k.mixer.toNat := by simp [Key.sum]
      rw [Key.sum_append, hsingle, polynomial_concat, eval_add, eval_mul, eval_X, eval_C,
        List.length_singleton, pow_one, Nat.cast_add, Nat.cast_mul, Nat.cast_mul, ih, Key.point]
      ring

/-! ### Windows -/

variable {k : Key}

/-- **What the hash of a lane says of a sequence**: the value of its polynomial at the base. -/
theorem eval_eq_of_of_eq (hk : k.Proper) {x y : Bytes} (h : of k x = of k y) :
    (polynomial x).eval k.point = (polynomial y).eval k.point := by
  have hhash := congrArg (fun l => (l.hash.toNat : ZMod order)) h
  simp only [cast_hash_of hk.1, cast_sum] at hhash
  exact mul_right_cancel₀ hk.mixer_ne_zero hhash

end Lane

namespace Digest

/-- The bases of the four lanes, as elements of the field. -/
def points : Finset (ZMod Lane.order) := (keys.map Lane.Key.point).toFinset

/-- No two lanes have the same base. -/
theorem card_points : points.card = 4 := by
  have hnodup : (keys.map Lane.Key.point).Nodup := by
    have hbases : (keys.map fun k => k.base.toNat).Nodup := by decide
    refine (List.nodup_map_iff_inj_on (List.Nodup.of_map _ hbases)).mpr fun k hk l hl h => ?_
    refine List.inj_on_of_nodup_map hbases hk hl ?_
    exact (Lane.cast_inj (proper_keys k hk).1.1 (proper_keys l hl).1.1).mp h
  rw [points, List.toFinset_card_of_nodup hnodup, List.length_map]
  rfl

/-- Two short sequences have the same digest only if they are the same, also when they differ in
their length. -/
theorem of_inj {x y : Bytes} (hx : x.length ≤ 4) (hy : y.length ≤ 4) : of x = of y ↔ x = y := by
  constructor
  · intro h
    have hlanes := (of_eq_iff _ _).mp h
    refine Lane.polynomial_injective
      (Polynomial.eq_of_degrees_lt_of_eval_finset_eq points ?_ ?_ fun z hz => ?_)
    · rw [card_points]
      exact (Lane.degree_polynomial_lt x).trans_le (by exact_mod_cast hx)
    · rw [card_points]
      exact (Lane.degree_polynomial_lt y).trans_le (by exact_mod_cast hy)
    · obtain ⟨k, hk, rfl⟩ := List.mem_map.mp (List.mem_toFinset.mp hz)
      exact Lane.eval_eq_of_of_eq (proper_keys k hk) (hlanes k hk)
  · rintro rfl
    rfl

/-- Two sequences that differ within a window of four bytes have different digests, whatever stands
before and after the window. -/
theorem window_iff (p s : Bytes) {x y : Bytes} (hx : x.length ≤ 4) (hy : y.length ≤ 4) :
    of (p ++ x ++ s) = of (p ++ y ++ s) ↔ x = y := by
  rw [of_context_iff, of_inj hx hy]

end Digest

/-! ### Keys -/

/-- The key of a build tells sources apart that differ within a window. -/
theorem Pipeline.key_window_iff (q : Pipeline) (view : DeviceView) (job : Job) (p s : Bytes)
    {x y : Bytes} (hx : x.length ≤ 4) (hy : y.length ≤ 4) :
    q.key view job (p ++ x ++ s) = q.key view job (p ++ y ++ s) ↔ x = y := by
  rw [key_inj, Digest.window_iff p s hx hy]

/-- **Local edits always change the key.**  Two byte sequences that are the same but for what is in
a window of four bytes have different digests, as soon as they are different at all; what is in the
window may also differ in its length.  This holds of the salts of builds, which are such sequences,
and so of the sources in them: the keys for two such files are different. -/
theorem local_edits_change_keys (p s x y : Bytes) (hx : x.length ≤ 4) (hy : y.length ≤ 4) :
    (Digest.of (p ++ x ++ s) = Digest.of (p ++ y ++ s) ↔ x = y) ∧
      ∀ (q : Pipeline) (view : DeviceView) (job : Job),
        q.key view job (p ++ x ++ s) = q.key view job (p ++ y ++ s) ↔ x = y :=
  ⟨Digest.window_iff p s hx hy, fun q view job => q.key_window_iff view job p s hx hy⟩

/-- Two neighbours that change places change the digest. -/
theorem transposition_changes_digest :
    ([1, 2] : Bytes).length ≤ 4 ∧ ([2, 1] : Bytes).length ≤ 4 ∧ ([1, 2] : Bytes) ≠ [2, 1] ∧
      Digest.of ([7, 7] ++ [1, 2] ++ [9]) ≠ Digest.of ([7, 7] ++ [2, 1] ++ [9]) :=
  ⟨by decide, by decide, by decide, fun h =>
    absurd ((local_edits_change_keys [7, 7] [9] [1, 2] [2, 1] (by decide) (by decide)).1.mp h)
      (by decide)⟩

end KernelCache
