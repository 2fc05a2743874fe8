/-
**Collisions do not depend on what stands around them.**

The power of a lane is a power of its base, and the base is not zero in the field, so the power can
be divided by.  Merging with such a lane loses nothing on either side: from the merge and one of the
two lanes the other one can be had.  Two sequences that share a digest share it therefore wherever
they stand, and two that do not, nowhere.

Main definitions:

* `Lane.Key.Proper` — keys whose base and mixer can be divided by;
* `Lane.Regular` — lanes whose power can be divided by.

Main results:

* `Lane.prime_order` — the field is one;
* `Lane.merge_left_cancel`, `Lane.merge_right_cancel` — **what is merged can be cancelled**;
* `Digest.of_context_iff` — **what stands around two sequences does not count for their digests**;
* `collisions_context_free` — **nor do device, compiler, flags and translator for their keys**.
-/

import KernelCache.Proofs.Build.Key
import KernelCache.Proofs.Digest.Algebra
import Mathlib.Algebra.Field.ZMod
import Mathlib.NumberTheory.LucasLehmer

set_option relaxedAutoImplicit false
set_option autoImplicit false

namespace KernelCache

namespace Lane

/-! ### The field -/

/-- **The order of the field is prime**, by the test of Lucas and Lehmer. -/
theorem prime_order : order.Prime := lucas_lehmer_sufficiency 31 (by norm_num) (by norm_num)

instance : Fact order.Prime := ⟨prime_order⟩

/-- Numbers below the order are told apart in the field. -/
theorem cast_inj {m n : Nat} (hm : m < order) (hn : n < order) :
    (m : ZMod order) = n ↔ m = n := by
  rw [ZMod.natCast_eq_natCast_iff', Nat.mod_eq_of_lt hm, Nat.mod_eq_of_lt hn]

namespace Key

/-- Base and mixer are elements of the field, and not zero. -/
def Proper (k : Key) : Prop := k.Reduced ∧ 0 < k.base.toNat ∧ 0 < k.mixer.toNat

instance (k : Key) : Decidable k.Proper := inferInstanceAs (Decidable (_ ∧ _))

/-- The base of a key as an element of the field. -/
def point (k : Key) : ZMod order := (k.base.toNat : ZMod order)

variable {k : Key}

theorem Proper.point_ne_zero (hk : k.Proper) : k.point ≠ 0 := by
  have hne := (cast_inj hk.1.1 order_pos).not.mpr hk.2.1.ne'
  rwa [Nat.cast_zero] at hne

theorem Proper.mixer_ne_zero (hk : k.Proper) : (k.mixer.toNat : ZMod order) ≠ 0 := by
  have hne := (cast_inj hk.1.2 order_pos).not.mpr hk.2.2.ne'
  rwa [Nat.cast_zero] at hne

end Key

variable {k : Key}

/-- The power of a lane as an element of the field. -/
theorem cast_power_of (k : Key) (bytes : Bytes) :
    ((of k bytes).power.toNat : ZMod order) = k.point ^ bytes.length := by
  rw [toNat_power_of, ZMod.natCast_mod, Nat.cast_pow, Key.point]

/-- The hash of a lane as an element of the field. -/
theorem cast_hash_of (hk : k.Reduced) (bytes : Bytes) :
    ((of k bytes).hash.toNat : ZMod order) = k.sum bytes := by
  rw [toNat_hash_of hk, ZMod.natCast_mod]

/-! ### Cancellation -/

/-- The power of a lane can be divided by. -/
def Regular (l : Lane) : Prop := (l.power.toNat : ZMod order) ≠ 0

theorem regular_of (hk : k.Proper) (bytes : Bytes) : (of k bytes).Regular := by
  rw [Regular, cast_power_of]
  exact pow_ne_zero _ hk.point_ne_zero

theorem cast_hash_merge (a b : Lane) : ((a.merge b).hash.toNat : ZMod order) =
    a.hash.toNat * b.power.toNat + b.hash.toNat := by
  rw [toNat_hash_merge, ZMod.natCast_mod, Nat.cast_add, Nat.cast_mul]

theorem cast_power_merge (a b : Lane) : ((a.merge b).power.toNat : ZMod order) =
    a.power.toNat * b.power.toNat := by
  rw [toNat_power_merge, ZMod.natCast_mod, Nat.cast_mul]

/-- Reduced lanes are the same when their words are the same elements of the field. -/
theorem ext_cast {a b : Lane} (ha : a.Reduced) (hb : b.Reduced)
    (hhash : (a.hash.toNat : ZMod order) = b.hash.toNat)
    (hpower : (a.power.toNat : ZMod order) = b.power.toNat) : a = b :=
  ext_toNat ((cast_inj ha.1 hb.1).mp hhash) ((cast_inj ha.2 hb.2).mp hpower)

section

variable {a b c : Lane}

/-- **What is merged from the left can be cancelled.** -/
theorem merge_left_cancel (hc : c.Regular) (ha : a.Reduced) (hb : b.Reduced)
    (h : c.merge a = c.merge b) : a = b := by
  have hhash := congrArg (fun l => (l.hash.toNat : ZMod order)) h
  have hpower := congrArg (fun l => (l.power.toNat : ZMod order)) h
  simp only [cast_power_merge] at hpower
  have hsame := mul_left_cancel₀ hc hpower
  -- the powers are the same, so the hash of `c` is shifted alike
  simp only [cast_hash_merge, hsame] at hhash
  exact ext_cast ha hb (add_left_cancel hhash) hsame

/-- **What is merged from the right can be cancelled.** -/
theorem merge_right_cancel (hc : c.Regular) (ha : a.Reduced) (hb : b.Reduced)
    (h : a.merge c = b.merge c) : a = b := by
  have hhash := congrArg (fun l => (l.hash.toNat : ZMod order)) h
  have hpower := congrArg (fun l => (l.power.toNat : ZMod order)) h
  simp only [cast_power_merge] at hpower
  simp only [cast_hash_merge] at hhash
  exact ext_cast ha hb (mul_right_cancel₀ hc (add_right_cancel hhash)) (mul_right_cancel₀ hc hpower)

end

/-- What stands around two sequences does not count for their lanes. -/
theorem of_context_iff (hk : k.Proper) (p s : Bytes) {x y : Bytes} :
    of k (p ++ x ++ s) = of k (p ++ y ++ s) ↔ of k x = of k y := by
  have hreduced (bytes : Bytes) : (of k bytes).Reduced := reduced_of hk.1 bytes
  constructor
  · intro h
    rw [← merge_of hk.1 (p ++ x) s, ← merge_of hk.1 (p ++ y) s] at h
    have hfront := merge_right_cancel (regular_of hk s) (hreduced _) (hreduced _) h
    rw [← merge_of hk.1 p x, ← merge_of hk.1 p y] at hfront
    exact merge_left_cancel (regular_of hk p) (hreduced _) (hreduced _) hfront
  · intro h
    simp only [← merge_of hk.1, h]

end Lane

namespace Digest

/-- The keys of the four lanes. -/
def keys : List Lane.Key := [firstKey, secondKey, thirdKey, fourthKey]

theorem proper_keys : ∀ k ∈ keys, k.Proper := by decide

/-- A digest is what its four lanes are. -/
theorem of_eq_iff (a b : Bytes) : of a = of b ↔ ∀ k ∈ keys, Lane.of k a = Lane.of k b := by
  simp [of, keys]

/-- **What stands around two sequences does not count for their digests.** -/
theorem of_context_iff (p s : Bytes) {x y : Bytes} :
    of (p ++ x ++ s) = of (p ++ y ++ s) ↔ of x = of y := by
  rw [of_eq_iff, of_eq_iff]
  exact forall₂_congr fun k hk => Lane.of_context_iff (proper_keys k hk) p s

/-- Nor does the salt that follows them. -/
theorem salted_inj {x y salt : Bytes} : salted x salt = salted y salt ↔ of x = of y := by
  rw [salted, salted, merge_of, merge_of]
  simpa using of_context_iff [] salt

end Digest

/-- A key tells two sources apart exactly if the digest does. -/
theorem Pipeline.key_inj (q : Pipeline) (view : DeviceView) (job : Job) {x y : Bytes} :
    q.key view job x = q.key view job y ↔ Digest.of x = Digest.of y := by
  rw [key, key, Salt.digest, Salt.digest, bytes_saltFor, bytes_saltFor]
  simpa using
    Digest.of_context_iff (Salt.terminated ((q.texts view.identity job.flags).map Utf8.encode)) []

/-- **Collisions are independent of context.**  Two sequences have the same digest exactly if they
have it between any two other sequences, and before any salt.  So two sources that share their key
under one translator, device, compiler and flags share it under all others. -/
theorem collisions_context_free (a b : Bytes) :
    (∀ p s : Bytes, Digest.of (p ++ a ++ s) = Digest.of (p ++ b ++ s) ↔
      Digest.of a = Digest.of b) ∧
    (∀ salt : Bytes, Digest.salted a salt = Digest.salted b salt ↔ Digest.of a = Digest.of b) ∧
    ∀ (q q' : Pipeline) (view view' : DeviceView) (job job' : Job),
      q.key view job a = q.key view job b ↔ q'.key view' job' a = q'.key view' job' b := by
  refine ⟨fun p s => Digest.of_context_iff p s, fun salt => Digest.salted_inj, ?_⟩
  intro q q' view view' job job'
  rw [q.key_inj, q'.key_inj]

end KernelCache
