/-
**The algebra of digests.**

A lane's hash is the value of a polynomial at the base of the lane: one coefficient for each byte.
Joining a second sequence shifts that polynomial by the length of the second, which is what the
power kept beside the hash is for.  All of this is arithmetic modulo the order of the field, and no
product of two words overflows on the way, so everything here is stated for natural numbers.

Main definitions:

* `Lane.order` — the order of the field;
* `Lane.Key.sum` — the polynomial, before any reduction;
* `Lane.Reduced` — both words are below the order.

Main results:

* `Lane.toNat_hash_of`, `Lane.toNat_power_of` — **what the two words of a lane are**;
* `Lane.merge_of` — joining two sequences merges their lanes;
* `Lane.merge_assoc`, `Lane.merge_eq_self_iff` — the algebra of a lane;
* `Digest.merge_laws` — **the algebra of digests**.
-/

import KernelCache.Digest
import Mathlib.Data.Nat.ModEq
import Mathlib.Tactic.Ring

set_option relaxedAutoImplicit false
set_option autoImplicit false

namespace KernelCache

namespace Lane

/-- The order of the field. -/
def order : Nat := 2 ^ 31 - 1

theorem toNat_modulus : modulus.toNat = order := by decide

theorem order_pos : 0 < order := by decide

theorem order_lt : order < 2 ^ 32 := by decide

/-! ### Words as numbers

Two words below `2 ^ 32` and a third one make `2 ^ 64 - 2 ^ 32` at most. -/

theorem toNat_mul_mod {x y : UInt64} (hx : x.toNat < 2 ^ 32) (hy : y.toNat < 2 ^ 32) :
    (x * y % modulus).toNat = x.toNat * y.toNat % order := by
  have hxy : x.toNat * y.toNat < 2 ^ 32 * 2 ^ 32 := Nat.mul_lt_mul'' hx hy
  have hmul : (x * y).toNat = x.toNat * y.toNat := by
    rw [UInt64.toNat_mul, Nat.mod_eq_of_lt (by omega)]
  rw [UInt64.toNat_mod, toNat_modulus, hmul]

theorem toNat_mul_add_mod {x y z : UInt64} (hx : x.toNat < 2 ^ 32) (hy : y.toNat < 2 ^ 32)
    (hz : z.toNat < 2 ^ 32) :
    ((x * y + z) % modulus).toNat = (x.toNat * y.toNat + z.toNat) % order := by
  have hxy : x.toNat * y.toNat ≤ (2 ^ 32 - 1) * (2 ^ 32 - 1) := by
    apply Nat.mul_le_mul <;> omega
  have hmul : (x * y).toNat = x.toNat * y.toNat := by
    rw [UInt64.toNat_mul, Nat.mod_eq_of_lt (by omega)]
  have hadd : (x * y + z).toNat = x.toNat * y.toNat + z.toNat := by
    rw [UInt64.toNat_add, hmul, Nat.mod_eq_of_lt (by omega)]
  rw [UInt64.toNat_mod, toNat_modulus, hadd]

/-- A number below the order is kept when it becomes a word. -/
theorem toNat_toUInt32 {x : UInt64} (hx : x.toNat < order) : x.toUInt32.toNat = x.toNat := by
  have := order_lt
  rw [UInt64.toNat_toUInt32, Nat.mod_eq_of_lt (by omega)]

theorem toNat_toUInt64_lt (w : UInt32) : w.toUInt64.toNat < 2 ^ 32 := by
  rw [UInt32.toNat_toUInt64]
  exact w.toNat_lt

/-! ### Merging -/

theorem toNat_hash_merge (a b : Lane) :
    (a.merge b).hash.toNat = (a.hash.toNat * b.power.toNat + b.hash.toNat) % order := by
  have hsum := toNat_mul_add_mod (toNat_toUInt64_lt a.hash) (toNat_toUInt64_lt b.power)
    (toNat_toUInt64_lt b.hash)
  rw [merge, toNat_toUInt32 (hsum ▸ Nat.mod_lt _ order_pos), hsum]
  simp only [UInt32.toNat_toUInt64]

theorem toNat_power_merge (a b : Lane) :
    (a.merge b).power.toNat = a.power.toNat * b.power.toNat % order := by
  have hmul := toNat_mul_mod (toNat_toUInt64_lt a.power) (toNat_toUInt64_lt b.power)
  rw [merge, toNat_toUInt32 (hmul ▸ Nat.mod_lt _ order_pos), hmul]
  simp only [UInt32.toNat_toUInt64]

/-- Lanes are the same when their words are the same numbers. -/
theorem ext_toNat {a b : Lane} (hhash : a.hash.toNat = b.hash.toNat)
    (hpower : a.power.toNat = b.power.toNat) : a = b := by
  cases a
  cases b
  simp only [mk.injEq]
  exact ⟨UInt32.toNat_inj.mp hhash, UInt32.toNat_inj.mp hpower⟩

/-- **Merging lanes is associative**, whatever their words. -/
theorem merge_assoc (a b c : Lane) : (a.merge b).merge c = a.merge (b.merge c) := by
  apply ext_toNat
  · rw [toNat_hash_merge, toNat_hash_merge, toNat_hash_merge, toNat_hash_merge, toNat_power_merge]
    -- both sides are `a * (p_b * p_c) + (b * p_c + c)` with a different part reduced first
    have hleft : (a.hash.toNat * b.power.toNat + b.hash.toNat) % order * c.power.toNat +
        c.hash.toNat ≡ (a.hash.toNat * b.power.toNat + b.hash.toNat) * c.power.toNat +
          c.hash.toNat [MOD order] := ((Nat.mod_modEq _ _).mul_right _).add_right _
    have hright : a.hash.toNat * (b.power.toNat * c.power.toNat % order) +
        (b.hash.toNat * c.power.toNat + c.hash.toNat) % order ≡
          a.hash.toNat * (b.power.toNat * c.power.toNat) +
            (b.hash.toNat * c.power.toNat + c.hash.toNat) [MOD order] :=
      ((Nat.mod_modEq _ _).mul_left _).add (Nat.mod_modEq _ _)
    refine hleft.trans (Nat.ModEq.trans ?_ hright.symm)
    rw [show (a.hash.toNat * b.power.toNat + b.hash.toNat) * c.power.toNat + c.hash.toNat =
      a.hash.toNat * (b.power.toNat * c.power.toNat) +
        (b.hash.toNat * c.power.toNat + c.hash.toNat) by ring]
  · rw [toNat_power_merge, toNat_power_merge, toNat_power_merge, toNat_power_merge,
      Nat.mod_mul_mod, Nat.mul_mod_mod, Nat.mul_assoc]

/-- Both words are below the order. -/
def Reduced (l : Lane) : Prop := l.hash.toNat < order ∧ l.power.toNat < order

theorem reduced_merge (a b : Lane) : (a.merge b).Reduced := by
  refine ⟨?_, ?_⟩
  · rw [toNat_hash_merge]
    exact Nat.mod_lt _ order_pos
  · rw [toNat_power_merge]
    exact Nat.mod_lt _ order_pos

/-- The empty lane changes nothing but words that are not reduced. -/
theorem empty_merge {l : Lane} (h : l.Reduced) : empty.merge l = l := by
  apply ext_toNat
  · rw [toNat_hash_merge]
    simp [empty, Nat.mod_eq_of_lt h.1]
  · rw [toNat_power_merge]
    simp [empty, Nat.mod_eq_of_lt h.2]

@[inherit_doc empty_merge]
theorem merge_empty {l : Lane} (h : l.Reduced) : l.merge empty = l := by
  apply ext_toNat
  · rw [toNat_hash_merge]
    simp [empty, Nat.mod_eq_of_lt h.1]
  · rw [toNat_power_merge]
    simp [empty, Nat.mod_eq_of_lt h.2]

/-- The empty lane is an identity for the reduced lanes and for no others. -/
theorem merge_eq_self_iff (l : Lane) :
    (empty.merge l = l ∧ l.merge empty = l) ↔ l.Reduced := by
  constructor
  · rintro ⟨h, -⟩
    exact h ▸ reduced_merge empty l
  · intro h
    exact ⟨empty_merge h, merge_empty h⟩

/-! ### Powers -/

/-- Repeated squaring keeps `acc * base ^ e`, modulo the order, and the two factors below the
order. -/
theorem toNat_powerLoop (acc base : UInt64) (e : Nat) (hacc : acc.toNat < order)
    (hbase : base.toNat < order) :
    (powerLoop acc base e).toNat = acc.toNat * base.toNat ^ e % order := by
  have hlt := order_lt
  have hmul {x y : UInt64} (hx : x.toNat < order) (hy : y.toNat < order) :
      (x * y % modulus).toNat = x.toNat * y.toNat % order :=
    toNat_mul_mod (hx.trans hlt) (hy.trans hlt)
  have hmod {x y : UInt64} (hx : x.toNat < order) (hy : y.toNat < order) :
      (x * y % modulus).toNat < order := hmul hx hy ▸ Nat.mod_lt _ order_pos
  induction e using Nat.strong_induction_on generalizing acc base with
  | _ e ih =>
      rw [powerLoop]
      split
      · next hzero => rw [hzero, Nat.pow_zero, Nat.mul_one, Nat.mod_eq_of_lt hacc]
      · next hpos =>
          have hhalf : e / 2 < e := by omega
          -- the power of the square for half the exponent
          have hsquare : (base.toNat * base.toNat % order) ^ (e / 2) ≡
              base.toNat ^ (2 * (e / 2)) [MOD order] := by
            rw [Nat.pow_mul, Nat.pow_two]
            exact (Nat.mod_modEq _ _).pow _
          split
          · next hodd =>
              rw [ih _ hhalf _ _ (hmod hacc hbase) (hmod hbase hbase), hmul hacc hbase,
                hmul hbase hbase]
              have hexp : acc.toNat * base.toNat * base.toNat ^ (2 * (e / 2)) =
                  acc.toNat * base.toNat ^ e := by
                rw [Nat.mul_assoc, ← Nat.pow_succ', show (2 * (e / 2)).succ = e by omega]
              exact hexp ▸ (Nat.mod_modEq _ _).mul hsquare
          · next heven =>
              rw [ih _ hhalf _ _ hacc (hmod hbase hbase), hmul hbase hbase]
              have hexp : 2 * (e / 2) = e := by omega
              exact (hexp ▸ hsquare).mul_left _

theorem toNat_raise (base : UInt64) (e : Nat) :
    (raise base e).toNat = base.toNat ^ e % order := by
  have hbase : (base % modulus).toNat = base.toNat % order := by
    rw [UInt64.toNat_mod, toNat_modulus]
  have hone : (1 : UInt64).toNat < order := by decide
  rw [raise, toNat_powerLoop _ _ _ hone (hbase ▸ Nat.mod_lt _ order_pos), hbase]
  have hpow : 1 * (base.toNat % order) ^ e ≡ base.toNat ^ e [MOD order] := by
    rw [Nat.one_mul]
    exact (Nat.mod_modEq _ _).pow e
  exact hpow

/-! ### The polynomial -/

namespace Key

/-- The polynomial that a byte sequence stands for, at the base, before any reduction. -/
def sum (k : Key) (bytes : Bytes) : Nat :=
  bytes.foldl (fun n b => n * k.base.toNat + (b.toNat + 1) * k.mixer.toNat) 0

/-- Base and mixer are elements of the field. -/
def Reduced (k : Key) : Prop := k.base.toNat < order ∧ k.mixer.toNat < order

instance (k : Key) : Decidable k.Reduced := inferInstanceAs (Decidable (_ ∧ _))

variable {k : Key}

/-- The sum that begins at `n` has `n` shifted by the length. -/
theorem foldl_sum (k : Key) (bytes : Bytes) (n : Nat) :
    bytes.foldl (fun n b => n * k.base.toNat + (b.toNat + 1) * k.mixer.toNat) n =
      n * k.base.toNat ^ bytes.length + k.sum bytes := by
  induction bytes generalizing n with
  | nil => simp [sum]
  | cons b rest ih =>
      rw [sum, List.foldl_cons, List.foldl_cons, ih, ih, List.length_cons]
      ring

@[simp] theorem sum_nil (k : Key) : k.sum [] = 0 := rfl

theorem sum_append (k : Key) (a b : Bytes) :
    k.sum (a ++ b) = k.sum a * k.base.toNat ^ b.length + k.sum b := by
  rw [← foldl_sum, sum, sum, List.foldl_append]

/-- One more byte multiplies by the base and adds a coefficient. -/
theorem toNat_absorb (hk : k.Reduced) {h : UInt64} (hh : h.toNat < order) (b : UInt8) :
    (absorb k h b).toNat = (h.toNat * k.base.toNat + (b.toNat + 1) * k.mixer.toNat) % order := by
  have hlt := order_lt
  have hbyte : (b.toUInt64 + 1).toNat = b.toNat + 1 := by
    have := b.toNat_lt
    rw [UInt64.toNat_add, UInt8.toNat_toUInt64, show (1 : UInt64).toNat = 1 from rfl]
    omega
  have hcoeff : ((b.toUInt64 + 1) * k.mixer % modulus).toNat =
      (b.toNat + 1) * k.mixer.toNat % order := by
    have := b.toNat_lt
    rw [toNat_mul_mod (by omega) (hk.2.trans hlt), hbyte]
  have hcoefflt : ((b.toUInt64 + 1) * k.mixer % modulus).toNat < 2 ^ 32 :=
    hcoeff ▸ (Nat.mod_lt _ order_pos).trans hlt
  rw [absorb, toNat_mul_add_mod (hh.trans hlt) (hk.1.trans hlt) hcoefflt, hcoeff, Nat.add_mod_mod]

/-- The loop over the bytes computes the polynomial modulo the order. -/
theorem toNat_foldl_absorb (hk : k.Reduced) (bytes : Bytes) {h : UInt64} (hh : h.toNat < order) :
    (bytes.foldl (absorb k) h).toNat =
      (h.toNat * k.base.toNat ^ bytes.length + k.sum bytes) % order := by
  induction bytes generalizing h with
  | nil => simp [Nat.mod_eq_of_lt hh]
  | cons b rest ih =>
      have habsorb := toNat_absorb hk hh b
      have hcons : k.sum (b :: rest) =
          (b.toNat + 1) * k.mixer.toNat * k.base.toNat ^ rest.length + k.sum rest := by
        rw [sum, List.foldl_cons, foldl_sum, Nat.zero_mul, Nat.zero_add]
      rw [List.foldl_cons, ih (habsorb ▸ Nat.mod_lt _ order_pos), habsorb]
      calc ((h.toNat * k.base.toNat + (b.toNat + 1) * k.mixer.toNat) % order *
              k.base.toNat ^ rest.length + k.sum rest) % order
          = ((h.toNat * k.base.toNat + (b.toNat + 1) * k.mixer.toNat) *
              k.base.toNat ^ rest.length + k.sum rest) % order :=
            ((Nat.mod_modEq _ _).mul_right _).add_right _
        _ = (h.toNat * k.base.toNat ^ (b :: rest).length + k.sum (b :: rest)) % order := by
            rw [hcons, List.length_cons]
            congr 1
            ring

end Key

variable {k : Key}

/-- **The hash of a lane** is the polynomial modulo the order. -/
theorem toNat_hash_of (hk : k.Reduced) (bytes : Bytes) :
    (of k bytes).hash.toNat = k.sum bytes % order := by
  have hsum := Key.toNat_foldl_absorb hk bytes (h := 0) order_pos
  rw [show (0 : UInt64).toNat = 0 from rfl, Nat.zero_mul, Nat.zero_add] at hsum
  rw [of, toNat_toUInt32 (hsum ▸ Nat.mod_lt _ order_pos), hsum]

/-- **The power of a lane** is that of its base for the length. -/
theorem toNat_power_of (k : Key) (bytes : Bytes) :
    (of k bytes).power.toNat = k.base.toNat ^ bytes.length % order := by
  have hpow := toNat_raise k.base bytes.length
  rw [of, toNat_toUInt32 (hpow ▸ Nat.mod_lt _ order_pos), hpow]

theorem reduced_of (hk : k.Reduced) (bytes : Bytes) : (of k bytes).Reduced := by
  refine ⟨?_, ?_⟩
  · rw [toNat_hash_of hk]
    exact Nat.mod_lt _ order_pos
  · rw [toNat_power_of]
    exact Nat.mod_lt _ order_pos

theorem of_nil (hk : k.Reduced) : of k [] = empty := by
  apply ext_toNat
  · rw [toNat_hash_of hk]
    rfl
  · rw [toNat_power_of]
    rfl

/-- **The lane of two sequences joined is the merge of their lanes.** -/
theorem merge_of (hk : k.Reduced) (a b : Bytes) : (of k a).merge (of k b) = of k (a ++ b) := by
  apply ext_toNat
  · rw [toNat_hash_merge, toNat_hash_of hk, toNat_hash_of hk, toNat_hash_of hk, toNat_power_of,
      Key.sum_append]
    exact ((Nat.mod_modEq _ _).mul (Nat.mod_modEq _ _)).add (Nat.mod_modEq _ _)
  · rw [toNat_power_merge, toNat_power_of, toNat_power_of, toNat_power_of, List.length_append,
      Nat.pow_add]
    exact (Nat.mod_modEq _ _).mul (Nat.mod_modEq _ _)

end Lane

namespace Digest

theorem reduced_firstKey : firstKey.Reduced := by decide

theorem reduced_secondKey : secondKey.Reduced := by decide

theorem reduced_thirdKey : thirdKey.Reduced := by decide

theorem reduced_fourthKey : fourthKey.Reduced := by decide

/-- All eight words are below the order of the field. -/
def Reduced (d : Digest) : Prop := ∀ w ∈ d.words, w.toNat < Lane.order

theorem reduced_iff (d : Digest) :
    d.Reduced ↔ d.first.Reduced ∧ d.second.Reduced ∧ d.third.Reduced ∧ d.fourth.Reduced := by
  simp [Reduced, words, Lane.Reduced, and_assoc]

theorem reduced_of (a : Bytes) : (of a).Reduced :=
  (reduced_iff _).mpr ⟨Lane.reduced_of reduced_firstKey a, Lane.reduced_of reduced_secondKey a,
    Lane.reduced_of reduced_thirdKey a, Lane.reduced_of reduced_fourthKey a⟩

theorem reduced_merge (a b : Digest) : (a.merge b).Reduced :=
  (reduced_iff _).mpr ⟨Lane.reduced_merge _ _, Lane.reduced_merge _ _, Lane.reduced_merge _ _,
    Lane.reduced_merge _ _⟩

theorem merge_of (a b : Bytes) : (of a).merge (of b) = of (a ++ b) := by
  simp only [of, merge, Lane.merge_of, reduced_firstKey, reduced_secondKey, reduced_thirdKey,
    reduced_fourthKey]

theorem empty_eq_of_nil : empty = of [] := by
  simp only [of, empty, Lane.of_nil, reduced_firstKey, reduced_secondKey, reduced_thirdKey,
    reduced_fourthKey]

theorem merge_assoc (a b c : Digest) : (a.merge b).merge c = a.merge (b.merge c) := by
  simp only [merge, Lane.merge_assoc]

theorem merge_eq_self_iff (d : Digest) :
    (empty.merge d = d ∧ d.merge empty = d) ↔ d.Reduced := by
  constructor
  · rintro ⟨h, -⟩
    exact h ▸ reduced_merge empty d
  · intro h
    obtain ⟨hfirst, hsecond, hthird, hfourth⟩ := (reduced_iff d).mp h
    simp only [merge, empty, Lane.empty_merge, Lane.merge_empty, hfirst, hsecond, hthird, hfourth,
      and_self]

/-- **The algebra of digests.**  The digest of two sequences joined is the merge of their digests,
and that of the empty sequence is `empty`.  Merging is associative on all digests, those included
whose words no sequence has; `empty` is an identity for a digest exactly when its words are below
the order of the field, as they are for the digest of a sequence and for every merge. -/
theorem merge_laws :
    (∀ a b : Bytes, (of a).merge (of b) = of (a ++ b)) ∧ empty = of [] ∧
      (∀ a b c : Digest, (a.merge b).merge c = a.merge (b.merge c)) ∧
      (∀ d : Digest, (empty.merge d = d ∧ d.merge empty = d) ↔
        ∀ w ∈ d.words, w.toNat < 2 ^ 31 - 1) ∧
      (∀ a : Bytes, ∀ w ∈ (of a).words, w.toNat < 2 ^ 31 - 1) ∧
      ∀ a b : Digest, ∀ w ∈ (a.merge b).words, w.toNat < 2 ^ 31 - 1 :=
  ⟨merge_of, empty_eq_of_nil, merge_assoc, merge_eq_self_iff, reduced_of, reduced_merge⟩

end Digest

end KernelCache
