/-
**Digests are computed without overflow.**

Lanes are computed with words of sixty-four bits and kept in words of thirty-two.  The same can be
done one operation at a time, so that an operation breaks the whole off whose exact value does not
fit into a word, and so does a conversion that loses something.  A product of two words of
thirty-two bits leaves room for a third such word, which is all that merging needs, whatever the
words are; and what is kept between two bytes, or between two squares, is below the order of the
field.

Main definitions:

* `Checked.add`, `Checked.mul`, `Checked.narrow`, `Checked.count` — operations that break off;
* `Checked.raise`, `Checked.of`, `Checked.merge` — powers, digests and merges made of them.

Main results:

* `Checked.absorb_eq`, `Checked.foldlM_absorb` — the hash of a lane, byte by byte;
* `Checked.powerLoop_eq` — repeated squaring;
* `Checked.mergeLane_eq` — merging, also of words that are not reduced;
* `Digest.never_overflows` — **nothing breaks off, and all words are below the order**.
-/

import KernelCache.Proofs.Digest.Algebra

set_option relaxedAutoImplicit false
set_option autoImplicit false

namespace KernelCache

namespace Checked

open Lane (modulus order order_lt)

/-! ### Operations -/

/-- The sum of two words, if it is one. -/
def add (x y : UInt64) : Option UInt64 :=
  if x.toNat + y.toNat < 2 ^ 64 then some (x + y) else none

/-- The product of two words, if it is one. -/
def mul (x y : UInt64) : Option UInt64 :=
  if x.toNat * y.toNat < 2 ^ 64 then some (x * y) else none

/-- A word as one of half the width, if nothing is lost. -/
def narrow (x : UInt64) : Option UInt32 :=
  if x.toUInt32.toUInt64 = x then some x.toUInt32 else none

/-- A number as a word, if it is one. -/
def count (n : Nat) : Option UInt64 := if n < 2 ^ 64 then some (UInt64.ofNat n) else none

variable {x y z : UInt64}

theorem add_eq (h : x.toNat + y.toNat < 2 ^ 64) : add x y = some (x + y) := if_pos h

theorem mul_eq (h : x.toNat * y.toNat < 2 ^ 64) : mul x y = some (x * y) := if_pos h

/-- The product of two words of half the width is a word. -/
theorem mul_eq_of_lt (hx : x.toNat < 2 ^ 32) (hy : y.toNat < 2 ^ 32) :
    mul x y = some (x * y) := by
  have hxy : x.toNat * y.toNat < 2 ^ 32 * 2 ^ 32 := Nat.mul_lt_mul'' hx hy
  exact mul_eq (by omega)

/-- A third word of half the width can be added to it. -/
theorem mul_add_eq_of_lt (hx : x.toNat < 2 ^ 32) (hy : y.toNat < 2 ^ 32) (hz : z.toNat < 2 ^ 32) :
    add (x * y) z = some (x * y + z) := by
  have hxy : x.toNat * y.toNat ≤ (2 ^ 32 - 1) * (2 ^ 32 - 1) := by
    apply Nat.mul_le_mul <;> omega
  refine add_eq ?_
  rw [UInt64.toNat_mul, Nat.mod_eq_of_lt (by omega)]
  omega

theorem narrow_eq (hx : x.toNat < 2 ^ 32) : narrow x = some x.toUInt32 := by
  refine if_pos (UInt64.toNat_inj.1 ?_)
  rw [UInt32.toNat_toUInt64, UInt64.toNat_toUInt32, Nat.mod_eq_of_lt hx]

/-- What is left over the order of the field fits into half the width. -/
theorem narrow_mod (x : UInt64) : narrow (x % modulus) = some (x % modulus).toUInt32 := by
  refine narrow_eq ?_
  rw [UInt64.toNat_mod, Lane.toNat_modulus]
  exact (Nat.mod_lt _ Lane.order_pos).trans order_lt

theorem toNat_mod_lt (x : UInt64) : (x % modulus).toNat < order := by
  rw [UInt64.toNat_mod, Lane.toNat_modulus]
  exact Nat.mod_lt _ Lane.order_pos

/-! ### Hashes -/

variable {k : Lane.Key}

/-- The hash after one more byte. -/
def absorb (k : Lane.Key) (h : UInt64) (b : UInt8) : Option UInt64 := do
  let shifted ← mul h k.base
  let term ← mul (← add b.toUInt64 1) k.mixer
  let sum ← add shifted (term % modulus)
  return sum % modulus

theorem absorb_eq (hk : k.Reduced) {h : UInt64} (hh : h.toNat < order) (b : UInt8) :
    absorb k h b = some (Lane.absorb k h b) := by
  have hlt := order_lt
  have hbyte : b.toUInt64.toNat < 2 ^ 8 := by
    rw [UInt8.toNat_toUInt64]
    exact b.toNat_lt
  have hone : (1 : UInt64).toNat = 1 := rfl
  have hsucc : (b.toUInt64 + 1).toNat < 2 ^ 32 := by
    rw [UInt64.toNat_add, hone]
    omega
  have hshift := mul_eq_of_lt (hh.trans hlt) (hk.1.trans hlt)
  have hadd : add b.toUInt64 1 = some (b.toUInt64 + 1) := add_eq (by omega)
  have hterm := mul_eq_of_lt hsucc (hk.2.trans hlt)
  have hsum := mul_add_eq_of_lt (hh.trans hlt) (hk.1.trans hlt)
    ((toNat_mod_lt ((b.toUInt64 + 1) * k.mixer)).trans hlt)
  rw [absorb, hshift, hadd]
  simp only [Option.bind_eq_bind, Option.bind_some, hterm, hsum]
  rfl

/-- **The hash of a lane, byte by byte**: between two bytes it is below the order. -/
theorem foldlM_absorb (hk : k.Reduced) (bytes : Bytes) {h : UInt64} (hh : h.toNat < order) :
    bytes.foldlM (absorb k) h = some (bytes.foldl (Lane.absorb k) h) := by
  induction bytes generalizing h with
  | nil => rfl
  | cons b rest ih =>
      rw [List.foldlM_cons, absorb_eq hk hh, List.foldl_cons]
      exact ih (toNat_mod_lt _)

/-! ### Powers -/

theorem toNat_half (e : UInt64) : (e >>> 1).toNat = e.toNat / 2 := by
  rw [UInt64.toNat_shiftRight, Nat.shiftRight_eq_div_pow]
  rfl

theorem odd_iff (e : UInt64) : e &&& 1 = 1 ↔ e.toNat % 2 = 1 := by
  rw [← UInt64.toNat_inj, UInt64.toNat_and, show (1 : UInt64).toNat = 1 from rfl,
    Nat.and_one_is_mod]

/-- `acc * base ^ e` in the field, by repeated squaring. -/
def powerLoop (acc base e : UInt64) : Option UInt64 :=
  if e = 0 then some acc
  else do
    let acc ← if e &&& 1 = 1 then (mul acc base).map (· % modulus) else some acc
    let square ← mul base base
    powerLoop acc (square % modulus) (e >>> 1)
termination_by e.toNat
decreasing_by
  rw [toNat_half]
  have hpos : e.toNat ≠ 0 := fun h => by simp_all [← UInt64.toNat_inj]
  omega

/-- `base ^ e` in the field. -/
def raise (base e : UInt64) : Option UInt64 := powerLoop 1 (base % modulus) e

/-- **Repeated squaring**: both factors stay below the order. -/
theorem powerLoop_eq (acc base e : UInt64) (hacc : acc.toNat < order) (hbase : base.toNat < order) :
    powerLoop acc base e = some (Lane.powerLoop acc base e.toNat) := by
  have hlt := order_lt
  induction hn : e.toNat using Nat.strong_induction_on generalizing acc base e with
  | _ n ih =>
      subst hn
      have hzero : e = 0 ↔ e.toNat = 0 := by rw [← UInt64.toNat_inj]; rfl
      rw [powerLoop, Lane.powerLoop]
      by_cases he : e.toNat = 0
      · rw [if_pos (hzero.2 he), if_pos he]
      · have hhalf : e.toNat / 2 < e.toNat := by omega
        have hnext {acc : UInt64} (hacc : acc.toNat < order) :
            powerLoop acc (base * base % modulus) (e >>> 1) =
              some (Lane.powerLoop acc (base * base % modulus) (e.toNat / 2)) :=
          toNat_half e ▸ ih _ (toNat_half e ▸ hhalf) _ _ _ hacc (toNat_mod_lt _) rfl
        have hsquare := mul_eq_of_lt (hbase.trans hlt) (hbase.trans hlt)
        rw [if_neg (mt hzero.1 he), if_neg he]
        by_cases hodd : e.toNat % 2 = 1
        · have hmul := mul_eq_of_lt (hacc.trans hlt) (hbase.trans hlt)
          rw [if_pos ((odd_iff e).2 hodd), if_pos hodd, hmul, hsquare]
          exact hnext (toNat_mod_lt _)
        · rw [if_neg (mt (odd_iff e).1 hodd), if_neg hodd, hsquare]
          exact hnext hacc

theorem raise_eq (base e : UInt64) : raise base e = some (Lane.raise base e.toNat) :=
  powerLoop_eq 1 (base % modulus) e (by decide) (toNat_mod_lt base)

/-! ### Lanes -/

/-- The lane of a byte sequence. -/
def lane (k : Lane.Key) (bytes : Bytes) : Option Lane := do
  let hash ← bytes.foldlM (absorb k) 0
  let power ← raise k.base (← count bytes.length)
  return ⟨← narrow hash, ← narrow power⟩

/-- The lane of two sequences joined, from the lanes of the two. -/
def mergeLane (a b : Lane) : Option Lane := do
  let shifted ← mul a.hash.toUInt64 b.power.toUInt64
  let hash ← add shifted b.hash.toUInt64
  let power ← mul a.power.toUInt64 b.power.toUInt64
  return ⟨← narrow (hash % modulus), ← narrow (power % modulus)⟩

theorem lane_eq (hk : k.Reduced) {bytes : Bytes} (h : bytes.length < 2 ^ 64) :
    lane k bytes = some (Lane.of k bytes) := by
  have hlt := order_lt
  have hcount : count bytes.length = some (UInt64.ofNat bytes.length) := if_pos h
  have hlength : (UInt64.ofNat bytes.length).toNat = bytes.length := by
    rw [UInt64.toNat_ofNat', Nat.mod_eq_of_lt h]
  have hhash : narrow (bytes.foldl (Lane.absorb k) 0) =
      some (bytes.foldl (Lane.absorb k) 0).toUInt32 := by
    refine narrow_eq (lt_trans ?_ hlt)
    rw [Lane.Key.toNat_foldl_absorb hk bytes (h := 0) Lane.order_pos]
    exact Nat.mod_lt _ Lane.order_pos
  have hpower : narrow (Lane.raise k.base bytes.length) =
      some (Lane.raise k.base bytes.length).toUInt32 := by
    refine narrow_eq (lt_trans ?_ hlt)
    rw [Lane.toNat_raise]
    exact Nat.mod_lt _ Lane.order_pos
  rw [lane, foldlM_absorb hk bytes (h := 0) Lane.order_pos, hcount]
  simp only [Option.bind_eq_bind, Option.bind_some, raise_eq, hlength, hhash, hpower]
  rfl

/-- **Merging fits into words**, also where the words of the lanes are not reduced. -/
theorem mergeLane_eq (a b : Lane) : mergeLane a b = some (a.merge b) := by
  have hword := Lane.toNat_toUInt64_lt
  have hshift := mul_eq_of_lt (hword a.hash) (hword b.power)
  have hhash := mul_add_eq_of_lt (hword a.hash) (hword b.power) (hword b.hash)
  have hpower := mul_eq_of_lt (hword a.power) (hword b.power)
  rw [mergeLane, hshift, hpower]
  simp only [Option.bind_eq_bind, Option.bind_some, hhash, narrow_mod]
  rfl

/-! ### Digests -/

/-- The digest of a byte sequence. -/
def of (bytes : Bytes) : Option Digest := do
  return ⟨← lane Digest.firstKey bytes, ← lane Digest.secondKey bytes,
    ← lane Digest.thirdKey bytes, ← lane Digest.fourthKey bytes⟩

/-- The digest of two sequences joined, from the digests of the two. -/
def merge (a b : Digest) : Option Digest := do
  return ⟨← mergeLane a.first b.first, ← mergeLane a.second b.second,
    ← mergeLane a.third b.third, ← mergeLane a.fourth b.fourth⟩

theorem of_eq {bytes : Bytes} (h : bytes.length < 2 ^ 64) : of bytes = some (Digest.of bytes) := by
  rw [of, lane_eq Digest.reduced_firstKey h, lane_eq Digest.reduced_secondKey h,
    lane_eq Digest.reduced_thirdKey h, lane_eq Digest.reduced_fourthKey h]
  rfl

theorem merge_eq (a b : Digest) : merge a b = some (a.merge b) := by
  simp only [merge, mergeLane_eq]
  rfl

end Checked

/-- **Digests are computed without overflow.**  For a byte sequence of a length that fits into a
word no operation breaks off, and the digest is the one that is computed without checks; all its
words are below the order of the field.  The same holds of the merge of two digests, whatever words
of thirty-two bits they have.  No power breaks off either, for any base and exponent, and it is the
power modulo the order. -/
theorem Digest.never_overflows (bytes : Bytes) (h : bytes.length < 2 ^ 64) (a b : Digest)
    (base e : UInt64) :
    (Checked.of bytes = some (Digest.of bytes) ∧
        ∀ w ∈ (Digest.of bytes).words, w.toNat < 2 ^ 31 - 1) ∧
      (Checked.merge a b = some (a.merge b) ∧ ∀ w ∈ (a.merge b).words, w.toNat < 2 ^ 31 - 1) ∧
      ∃ p, Checked.raise base e = some p ∧ p.toNat = base.toNat ^ e.toNat % (2 ^ 31 - 1) :=
  ⟨⟨Checked.of_eq h, reduced_of bytes⟩, ⟨Checked.merge_eq a b, reduced_merge a b⟩,
    ⟨_, Checked.raise_eq base e, Lane.toNat_raise base e.toNat⟩⟩

namespace Digest

/-- The digest whose words are as great as words can be. -/
def greatest : Digest :=
  let lane : Lane := ⟨0xFFFFFFFF, 0xFFFFFFFF⟩
  ⟨lane, lane, lane, lane⟩

/-- The greatest words do not overflow when they are merged or raised. -/
theorem greatest_fit : ([0xFF, 0xFF] : Bytes).length < 2 ^ 64 ∧
    Checked.of [0xFF, 0xFF] = some (Digest.of [0xFF, 0xFF]) ∧
    Checked.merge greatest greatest = some (greatest.merge greatest) ∧
    ∃ p, Checked.raise 0xFFFFFFFFFFFFFFFF 5 = some p ∧
      p.toNat = (2 ^ 64 - 1) ^ 5 % (2 ^ 31 - 1) := by
  have hlength : ([0xFF, 0xFF] : Bytes).length < 2 ^ 64 := by decide
  obtain ⟨⟨hof, -⟩, ⟨hmerge, -⟩, hraise⟩ :=
    never_overflows [0xFF, 0xFF] hlength greatest greatest 0xFFFFFFFFFFFFFFFF 5
  exact ⟨hlength, hof, hmerge, hraise⟩

end Digest

end KernelCache
