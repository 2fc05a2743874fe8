/-
**Reading what was written.**

The bytes of a text are read back as the text.  The machine completes each character with the last
of its bytes and is idle again, so texts can be taken character by character.

Main results:

* `Utf8.readFrom_encodeChar` — the bytes of one character;
* `Utf8.decode?_encode`, `Utf8.toString?_encode` — **the bytes of a text are read as the text**;
* `Utf8.display_encode` — a text is shown as it is;
* `Utf8.encode_injective` — two texts with the same bytes are the same;
* `Utf8.mem_encode_iff` — where a byte of the seven-bit range comes from;
* `Utf8.encode_lt_iff` — **the order of texts is the order of their bytes**.
-/

import KernelCache.Text.Utf8

set_option relaxedAutoImplicit false
set_option autoImplicit false

namespace KernelCache

namespace Utf8

/-! ### One character -/

/-- The byte that carries the lowest six bits of a number after the first byte of a character. -/
def tail (n : Nat) : UInt8 := UInt8.ofNat (n % 64 + 0x80)

theorem toNat_tail (n : Nat) : (tail n).toNat = n % 64 + 0x80 := by
  rw [tail, UInt8.toNat_ofNat']
  omega

/-- A byte within the bounds of what is pending continues a character. -/
theorem feed_tail (left value n : Nat) {low high : UInt8} (hlow : low.toNat ≤ n % 64 + 0x80)
    (hhigh : n % 64 + 0x80 ≤ high.toNat) :
    feed (.more left low high value) (tail n) =
      match left with
      | 0 => ([some (Char.ofNat (value * 64 + n % 64))], .idle)
      | left + 1 => ([], .more left 0x80 0xBF (value * 64 + n % 64)) := by
  have hmod : (n % 64 + 0x80) % 64 = n % 64 := by omega
  rw [feed, if_pos]
  · cases left <;> simp only [toNat_tail, hmod]
  · rw [UInt8.le_iff_toNat_le, UInt8.le_iff_toNat_le, toNat_tail]
    exact ⟨hlow, hhigh⟩

theorem readFrom_last (value n : Nat) (rest : Bytes) {low high : UInt8}
    (hlow : low.toNat ≤ n % 64 + 0x80) (hhigh : n % 64 + 0x80 ≤ high.toNat) :
    readFrom (.more 0 low high value) (tail n :: rest) =
      some (Char.ofNat (value * 64 + n % 64)) :: readFrom .idle rest := by
  simp only [readFrom, feed_tail 0 value n hlow hhigh, List.singleton_append]

theorem readFrom_tail (left value n : Nat) (rest : Bytes) {low high : UInt8}
    (hlow : low.toNat ≤ n % 64 + 0x80) (hhigh : n % 64 + 0x80 ≤ high.toNat) :
    readFrom (.more (left + 1) low high value) (tail n :: rest) =
      readFrom (.more left 0x80 0xBF (value * 64 + n % 64)) rest := by
  simp only [readFrom, feed_tail (left + 1) value n hlow hhigh, List.nil_append]

/-- The last two bytes of a character. -/
theorem readFrom_lastTwo (value n k : Nat) (rest : Bytes) {low high : UInt8}
    (hlow : low.toNat ≤ n % 64 + 0x80) (hhigh : n % 64 + 0x80 ≤ high.toNat) :
    readFrom (.more 1 low high value) (tail n :: tail k :: rest) =
      some (Char.ofNat ((value * 64 + n % 64) * 64 + k % 64)) :: readFrom .idle rest := by
  rw [readFrom_tail 0 value n _ hlow hhigh, readFrom_last]
  · simp
  · have := Nat.mod_lt k (show 0 < 64 by decide)
    simp only [UInt8.reduceToNat]
    omega

/-- The last three bytes of a character. -/
theorem readFrom_lastThree (value n k j : Nat) (rest : Bytes) {low high : UInt8}
    (hlow : low.toNat ≤ n % 64 + 0x80) (hhigh : n % 64 + 0x80 ≤ high.toNat) :
    readFrom (.more 2 low high value) (tail n :: tail k :: tail j :: rest) =
      some (Char.ofNat (((value * 64 + n % 64) * 64 + k % 64) * 64 + j % 64)) ::
        readFrom .idle rest := by
  rw [readFrom_tail 1 value n _ hlow hhigh, readFrom_lastTwo]
  · simp
  · have := Nat.mod_lt k (show 0 < 64 by decide)
    simp only [UInt8.reduceToNat]
    omega

theorem readFrom_idle_cons (b : UInt8) (rest : Bytes) :
    readFrom .idle (b :: rest) = (start b).1 ++ readFrom (start b).2 rest := rfl

theorem toNat_ofNat_of_lt {k : Nat} (h : k < 256) : (UInt8.ofNat k).toNat = k := by
  rw [UInt8.toNat_ofNat']
  omega

/-- The first of three bytes.  After the least first byte and after a certain other one the second
has narrower bounds, and the number of a character keeps them. -/
theorem start_three {v : Nat} (hleast : 0x800 ≤ v) (hmost : v < 0x10000)
    (hvalid : v < 0xD800 ∨ 0xDFFF < v) :
    ∃ low high, start (UInt8.ofNat (v / 4096 % 0x10 + 0xe0)) = ([], .more 1 low high (v / 4096)) ∧
      low.toNat ≤ v / 64 % 64 + 0x80 ∧ v / 64 % 64 + 0x80 ≤ high.toNat := by
  have hdiv : v / 4096 % 0x10 = v / 4096 := Nat.mod_eq_of_lt (by omega)
  have hb : (UInt8.ofNat (v / 4096 + 0xe0)).toNat = v / 4096 + 0xe0 :=
    toNat_ofNat_of_lt (by omega)
  rw [hdiv, start, hb]
  rw [if_neg (by omega), if_neg (by omega), if_neg (by omega)]
  by_cases hleastFirst : v / 4096 = 0
  · refine ⟨0xA0, 0xBF, ?_, show 0xA0 ≤ _ by omega, show _ ≤ 0xBF by omega⟩
    rw [if_pos (by omega), hleastFirst]
  · by_cases hnarrow : v / 4096 = 13
    · refine ⟨0x80, 0x9F, ?_, show 0x80 ≤ _ by omega, show _ ≤ 0x9F by omega⟩
      rw [if_neg (by omega), if_pos (by omega), hnarrow]
    · refine ⟨0x80, 0xBF, ?_, show 0x80 ≤ _ by omega, show _ ≤ 0xBF by omega⟩
      rw [if_neg (by omega), if_neg (by omega), if_pos (by omega), Nat.add_sub_cancel]

/-- The first of four bytes.  After the least and the greatest first byte the second has narrower
bounds, and the number of a character keeps them. -/
theorem start_four {v : Nat} (hleast : 0x10000 ≤ v) (hmost : v < 0x110000) :
    ∃ low high,
      start (UInt8.ofNat (v / 262144 % 0x08 + 0xf0)) = ([], .more 2 low high (v / 262144)) ∧
      low.toNat ≤ v / 4096 % 64 + 0x80 ∧ v / 4096 % 64 + 0x80 ≤ high.toNat := by
  have hdiv : v / 262144 % 0x08 = v / 262144 := Nat.mod_eq_of_lt (by omega)
  have hb : (UInt8.ofNat (v / 262144 + 0xf0)).toNat = v / 262144 + 0xf0 :=
    toNat_ofNat_of_lt (by omega)
  rw [hdiv, start, hb]
  rw [if_neg (by omega), if_neg (by omega), if_neg (by omega), if_neg (by omega),
    if_neg (by omega), if_neg (by omega)]
  by_cases hleastFirst : v / 262144 = 0
  · refine ⟨0x90, 0xBF, ?_, show 0x90 ≤ _ by omega, show _ ≤ 0xBF by omega⟩
    rw [if_pos (by omega), hleastFirst]
  · by_cases hgreatest : v / 262144 = 4
    · refine ⟨0x80, 0x8F, ?_, show 0x80 ≤ _ by omega, show _ ≤ 0x8F by omega⟩
      rw [if_neg (by omega), if_neg (by omega), if_pos (by omega), hgreatest]
    · refine ⟨0x80, 0xBF, ?_, show 0x80 ≤ _ by omega, show _ ≤ 0xBF by omega⟩
      rw [if_neg (by omega), if_pos (by omega), Nat.add_sub_cancel]

/-- The bytes of a character complete that character. -/
theorem readFrom_encodeChar (c : Char) (rest : Bytes) :
    readFrom .idle (String.utf8EncodeChar c ++ rest) = some c :: readFrom .idle rest := by
  have hvalid : c.val.toNat < 0xD800 ∨ 0xDFFF < c.val.toNat ∧ c.val.toNat < 0x110000 := c.valid
  have hc : Char.ofNat c.val.toNat = c := Char.ofNat_toNat c
  generalize hv : c.val.toNat = v at hvalid hc
  have htail (n : Nat) : UInt8.ofNat (n % 0x40 + 0x80) = tail n := rfl
  rw [String.utf8EncodeChar, hv]
  simp only [htail]
  split
  · -- one byte
    rw [List.singleton_append, readFrom_idle_cons, start, toNat_ofNat_of_lt (by omega),
      if_pos (by omega), hc]
    rfl
  · split
    · -- two bytes
      have hvalue : (v / 64 % 0x20 + 0xc0 - 0xC0) * 64 + v % 64 = v := by omega
      rw [List.cons_append, readFrom_idle_cons, start, toNat_ofNat_of_lt (by omega),
        if_neg (by omega), if_neg (by omega), if_pos (by omega), List.nil_append,
        List.singleton_append, readFrom_last, hvalue, hc]
      · exact Nat.le_add_left _ _
      · exact show _ ≤ 0xBF by omega
    · split
      · -- three bytes
        obtain ⟨low, high, hstart, hlow, hhigh⟩ :=
          start_three (v := v) (by omega) (by omega) (by omega)
        have hvalue : (v / 4096 * 64 + v / 64 % 64) * 64 + v % 64 = v := by omega
        rw [List.cons_append, readFrom_idle_cons, hstart, List.nil_append, List.cons_append,
          List.singleton_append, readFrom_lastTwo _ _ _ _ hlow hhigh, hvalue, hc]
      · -- four bytes
        obtain ⟨low, high, hstart, hlow, hhigh⟩ := start_four (v := v) (by omega) (by omega)
        have hvalue :
            ((v / 262144 * 64 + v / 4096 % 64) * 64 + v / 64 % 64) * 64 + v % 64 = v := by omega
        rw [List.cons_append, readFrom_idle_cons, hstart, List.nil_append, List.cons_append,
          List.cons_append, List.singleton_append, readFrom_lastThree _ _ _ _ _ hlow hhigh,
          hvalue, hc]

/-! ### Texts -/

theorem read_flatMap (l : List Char) : read (l.flatMap String.utf8EncodeChar) = l.map some := by
  rw [read]
  induction l with
  | nil => rfl
  | cons c rest ih => rw [List.flatMap_cons, readFrom_encodeChar, ih, List.map_cons]

/-- **The bytes of a text are read as the text.** -/
theorem decode?_encode (s : String) : decode? (encode s) = some s.toList := by
  rw [decode?, encode, read_flatMap]
  induction s.toList with
  | nil => rfl
  | cons c rest ih => simp_all

theorem toString?_encode (s : String) : toString? (encode s) = some s := by
  simp [toString?, decode?_encode]

/-- A text is shown as it is. -/
theorem display_encode (s : String) : display (encode s) = s := by
  rw [display, encode, read_flatMap, List.map_map]
  exact (congrArg String.ofList (List.map_id _)).trans String.ofList_toList

theorem encode_injective {s t : String} (h : encode s = encode t) : s = t := by
  have := congrArg toString? h
  simpa [toString?_encode] using this

theorem encode_append (s t : String) : encode (s ++ t) = encode s ++ encode t := by
  simp [encode]

/-! ### Bytes of the seven-bit range -/

/-- The bytes of a character are one byte of the seven-bit range, or none of them is in it. -/
theorem encodeChar_cases (c : Char) :
    c.toNat < 0x80 ∧ String.utf8EncodeChar c = [UInt8.ofNat c.toNat] ∨
      0x80 ≤ c.toNat ∧ ∀ b ∈ String.utf8EncodeChar c, 0x80 ≤ b.toNat := by
  have hc : c.toNat = c.val.toNat := rfl
  rw [hc, String.utf8EncodeChar]
  generalize c.val.toNat = v
  split
  · exact Or.inl ⟨by omega, rfl⟩
  · refine Or.inr ⟨by omega, ?_⟩
    intro b hb
    split at hb
    · simp only [List.mem_cons, List.not_mem_nil, or_false] at hb
      rcases hb with rfl | rfl <;> rw [UInt8.toNat_ofNat'] <;> omega
    · split at hb
      · simp only [List.mem_cons, List.not_mem_nil, or_false] at hb
        rcases hb with rfl | rfl | rfl <;> rw [UInt8.toNat_ofNat'] <;> omega
      · simp only [List.mem_cons, List.not_mem_nil, or_false] at hb
        rcases hb with rfl | rfl | rfl | rfl <;> rw [UInt8.toNat_ofNat'] <;> omega

theorem encodeChar_of_lt {c : Char} (h : c.toNat < 0x80) :
    String.utf8EncodeChar c = [UInt8.ofNat c.toNat] := by
  rcases encodeChar_cases c with ⟨-, hone⟩ | ⟨hhigh, -⟩
  · exact hone
  · omega

/-- Characters of the seven-bit range are one byte each. -/
theorem flatMap_encodeChar {l : List Char} (h : ∀ c ∈ l, c.toNat < 0x80) :
    l.flatMap String.utf8EncodeChar = l.map fun c => UInt8.ofNat c.toNat := by
  induction l with
  | nil => rfl
  | cons c rest ih =>
      rw [List.flatMap_cons, encodeChar_of_lt (h c (by simp)), ih fun d hd => h d (by simp [hd])]
      rfl

/-- A byte of the seven-bit range stands for a character of its own. -/
theorem mem_encode_iff {c : Char} (hc : c.toNat < 0x80) (s : String) :
    UInt8.ofNat c.toNat ∈ encode s ↔ c ∈ s.toList := by
  have hb : (UInt8.ofNat c.toNat).toNat = c.toNat := by
    rw [UInt8.toNat_ofNat']
    omega
  rw [encode, List.mem_flatMap]
  constructor
  · rintro ⟨d, hd, hmem⟩
    rcases encodeChar_cases d with ⟨hlow, hone⟩ | ⟨-, hhigh⟩
    · rw [hone, List.mem_singleton] at hmem
      have hnat := congrArg UInt8.toNat hmem
      rw [hb, UInt8.toNat_ofNat'] at hnat
      have hcd : c = d := Char.toNat_inj.1 (by omega)
      exact hcd ▸ hd
    · have := hhigh _ hmem
      omega
  · intro h
    rcases encodeChar_cases c with ⟨-, hone⟩ | ⟨hhigh, -⟩
    · exact ⟨c, h, by simp [hone]⟩
    · omega

/-! ### Order -/

theorem ofNat_lt_ofNat {m n : Nat} (hm : m < 256) (hn : n < 256) :
    UInt8.ofNat m < UInt8.ofNat n ↔ m < n := by
  rw [UInt8.lt_iff_toNat_lt, toNat_ofNat_of_lt hm, toNat_ofNat_of_lt hn]

theorem ofNat_eq_ofNat {m n : Nat} (hm : m < 256) (hn : n < 256) :
    UInt8.ofNat m = UInt8.ofNat n ↔ m = n := by
  rw [← UInt8.toNat_inj, toNat_ofNat_of_lt hm, toNat_ofNat_of_lt hn]

/-- The bytes of a lesser character come first, whatever follows them. -/
theorem encodeChar_append_lt {c d : Char} (h : c < d) (l m : Bytes) :
    String.utf8EncodeChar c ++ l < String.utf8EncodeChar d ++ m := by
  have hlt : c.val.toNat < d.val.toNat := h
  have hvalid : d.val.toNat < 0xD800 ∨ 0xDFFF < d.val.toNat ∧ d.val.toNat < 0x110000 := d.valid
  rw [String.utf8EncodeChar, String.utf8EncodeChar]
  generalize c.val.toNat = v at hlt
  generalize d.val.toNat = w at hlt hvalid
  have hv : v / 262144 % 0x08 = v / 262144 := Nat.mod_eq_of_lt (by omega)
  have hw : w / 262144 % 0x08 = w / 262144 := Nat.mod_eq_of_lt (by omega)
  rw [hv, hw]
  -- One case for each pair of lengths.  A longer form has the greater first byte; two forms of one
  -- length are compared as digits to the base 64.
  (repeat' split) <;>
    simp (disch := omega) only [List.cons_append, List.nil_append, List.cons_lt_cons_iff,
      ofNat_lt_ofNat, ofNat_eq_ofNat] <;>
    omega

theorem flatMap_encodeChar_lt {l m : List Char} (h : l < m) :
    l.flatMap String.utf8EncodeChar < m.flatMap String.utf8EncodeChar := by
  induction h with
  | @nil d rest =>
      rw [List.flatMap_nil, List.flatMap_cons]
      cases hbytes : String.utf8EncodeChar d with
      | nil => exact absurd hbytes String.utf8EncodeChar_ne_nil
      | cons b more => exact List.nil_lt_cons b _
  | rel h => exact encodeChar_append_lt h _ _
  | cons _ ih => exact List.append_left_lt ih

/-- **The order of texts is the order of their bytes.** -/
theorem encode_lt_iff {s t : String} : encode s < encode t ↔ s < t := by
  -- Both orders are linear, so it is enough that one follows from the other.
  have hmono : ∀ {s t : String}, s < t → encode s < encode t :=
    fun h => flatMap_encodeChar_lt (String.lt_iff.1 h)
  constructor
  · intro h
    refine Decidable.byContradiction fun hnot => ?_
    rcases Std.le_iff_lt_or_eq.1 (Std.not_lt.1 hnot) with hlt | rfl
    · exact Std.lt_irrefl (Std.lt_trans h (hmono hlt))
    · exact Std.lt_irrefl h
  · exact hmono

end Utf8

end KernelCache
