/-
**The texts of digests.**

A digest is written in one way only and read in several: a word may have digits of upper case, and a
plus sign may stand for its first digit.  All words are written with the same width, so the texts of
digests are in the order of the digests.

Main definitions:

* `Digest.digitsOf`, `Digest.IsWord` — the texts of a word;
* `Digest.group` — the eight characters for one of the words.

Main results:

* `Digest.readWord?_eq_some_iff` — **the texts of a word, and what they denote**;
* `Digest.parse?_eq_some_iff` — **the texts of a digest**, group by group;
* `Digest.toText_eq_iff` — of these the one in lower case is written;
* `Digest.lt_iff_toText_lt` — the order of digests is that of their texts;
* `Digest.text_format` — **the format as a whole**, in bytes.
-/

import KernelCache.Proofs.Digest.Text
import KernelCache.Proofs.Text.Utf8

set_option relaxedAutoImplicit false
set_option autoImplicit false

namespace KernelCache.Digest

/-! ### Words -/

/-- The digits of a word: the whole of its text, or what follows a plus sign. -/
def digitsOf : List Char → List Char
  | '+' :: cs => cs
  | cs => cs

/-- Whether eight characters are eight digits, or a plus sign and seven. -/
def IsWord (cs : List Char) : Prop := cs.length = 8 ∧ ∀ c ∈ digitsOf cs, Hex.IsDigit c

instance (cs : List Char) : Decidable (IsWord cs) :=
  haveI := List.decidableBAll Hex.IsDigit (digitsOf cs)
  inferInstanceAs (Decidable (cs.length = 8 ∧ ∀ c ∈ digitsOf cs, Hex.IsDigit c))

theorem digitsOf_cases (cs : List Char) : digitsOf cs = cs ∨ cs = '+' :: digitsOf cs := by
  rw [digitsOf.eq_def]
  split
  · exact Or.inr rfl
  · exact Or.inl rfl

theorem digitsOf_of_isLower {cs : List Char} (h : ∀ c ∈ cs, Hex.IsLower c) : digitsOf cs = cs := by
  rcases digitsOf_cases cs with heq | heq
  · exact heq
  · exact absurd (h '+' (by rw [heq]; simp)) (by decide)

theorem IsWord.isDigit_or_plus {cs : List Char} (h : IsWord cs) :
    ∀ c ∈ cs, Hex.IsDigit c ∨ c = '+' := by
  intro c hc
  rcases digitsOf_cases cs with heq | heq
  · exact Or.inl (h.2 c (by rw [heq]; exact hc))
  · rw [heq, List.mem_cons] at hc
    exact (hc.imp_right (h.2 c)).symm

theorem IsWord.valueOf_lt {cs : List Char} (h : IsWord cs) :
    Hex.valueOf (digitsOf cs) < 2 ^ 32 := by
  have hlength : (digitsOf cs).length ≤ 8 := by
    rcases digitsOf_cases cs with heq | heq
    · exact (congrArg List.length heq).trans h.1 |>.le
    · have := congrArg List.length heq
      rw [h.1, List.length_cons] at this
      omega
  calc Hex.valueOf (digitsOf cs) < 16 ^ (digitsOf cs).length := Hex.valueOf_lt h.2
    _ ≤ 16 ^ 8 := Nat.pow_le_pow_right (by decide) hlength

theorem readWord?_eq (cs : List Char) :
    readWord? cs = (Hex.number? (digitsOf cs)).map UInt32.ofNat := by
  rw [readWord?.eq_def]
  split
  · rfl
  · next hplus => rw [digitsOf.eq_2 _ hplus]

/-- **The texts of a word, and what they denote.** -/
theorem readWord?_eq_some_iff {cs : List Char} (h : cs.length = 8) {w : UInt32} :
    readWord? cs = some w ↔ IsWord cs ∧ w.toNat = Hex.valueOf (digitsOf cs) := by
  have hword (hw : IsWord cs) :
      (UInt32.ofNat (Hex.valueOf (digitsOf cs))).toNat = Hex.valueOf (digitsOf cs) := by
    rw [UInt32.toNat_ofNat', Nat.mod_eq_of_lt hw.valueOf_lt]
  rw [readWord?_eq, Option.map_eq_some_iff]
  constructor
  · rintro ⟨n, hn, rfl⟩
    obtain ⟨hdigits, rfl⟩ := Hex.number?_eq_some_iff.1 hn
    exact ⟨⟨h, hdigits⟩, hword ⟨h, hdigits⟩⟩
  · rintro ⟨hw, hvalue⟩
    exact ⟨_, Hex.number?_eq_some_iff.2 ⟨hw.2, rfl⟩,
      UInt32.toNat_inj.1 ((hword hw).trans hvalue.symm)⟩

/-- A word that is read from digits of lower case is written in these digits. -/
theorem digits_of_readWord? {cs : List Char} (h : cs.length = 8) {w : UInt32}
    (hw : readWord? cs = some w) (hlower : ∀ c ∈ cs, Hex.IsLower c) :
    Hex.digits 8 w.toNat = cs := by
  obtain ⟨-, hvalue⟩ := (readWord?_eq_some_iff h).1 hw
  rw [hvalue, digitsOf_of_isLower hlower, ← h, Hex.digits_valueOf hlower]

/-! ### Groups -/

/-- Fewer than eight characters make no word. -/
theorem readWords?_of_lt {cs : List Char} (hne : cs ≠ []) (h : cs.length < 8) :
    readWords? cs = none := by
  rw [readWords?.eq_def]
  split
  · exact absurd rfl hne
  · simp only [List.length_cons] at h
    omega
  · rfl

theorem readWords?_eq_some_nil {cs : List Char} : readWords? cs = some [] ↔ cs = [] := by
  constructor
  · intro h
    by_contra hne
    by_cases hlt : cs.length < 8
    · rw [readWords?_of_lt hne hlt] at h
      cases h
    · rw [← List.take_append_drop 8 cs, readWords?_append _ _ (by simp; omega)] at h
      simp [Option.bind_eq_some_iff] at h
  · rintro rfl
    rfl

/-- What is read first is the word of the first eight characters. -/
theorem readWords?_eq_some_cons {cs : List Char} {w : UInt32} {ws : List UInt32} :
    readWords? cs = some (w :: ws) ↔
      8 ≤ cs.length ∧ readWord? (cs.take 8) = some w ∧ readWords? (cs.drop 8) = some ws := by
  by_cases hlt : cs.length < 8
  · refine ⟨fun h => ?_, fun h => absurd h.1 (by omega)⟩
    have hne : cs ≠ [] := by
      rintro rfl
      cases h
    rw [readWords?_of_lt hne hlt] at h
    cases h
  · rw [not_lt] at hlt
    have happend := readWords?_append (cs.take 8) (cs.drop 8) (by simp; omega)
    rw [List.take_append_drop] at happend
    rw [happend]
    simp [Option.bind_eq_some_iff, hlt]

/-- The characters for the word at a position. -/
def group (cs : List Char) (i : Nat) : List Char := (cs.drop (8 * i)).take 8

@[simp] theorem group_zero (cs : List Char) : group cs 0 = cs.take 8 := rfl

theorem group_succ (cs : List Char) (i : Nat) : group cs (i + 1) = group (cs.drop 8) i := by
  rw [group, group, List.drop_drop, Nat.mul_succ, Nat.add_comm]

/-- Words are read group by group. -/
theorem readWords?_eq_some_iff {cs : List Char} {ws : List UInt32} :
    readWords? cs = some ws ↔ cs.length = 8 * ws.length ∧
      ∀ i < ws.length, readWord? (group cs i) = ws[i]? := by
  induction ws generalizing cs with
  | nil => simp [readWords?_eq_some_nil]
  | cons w ws ih =>
      rw [readWords?_eq_some_cons, ih, List.length_drop, List.length_cons]
      constructor
      · rintro ⟨hle, hfirst, hlength, hrest⟩
        refine ⟨by omega, fun i hi => ?_⟩
        cases i with
        | zero => exact hfirst
        | succ i =>
            rw [group_succ, List.getElem?_cons_succ]
            exact hrest i (by omega)
      · rintro ⟨hlength, hall⟩
        refine ⟨by omega, hall 0 (by omega), by omega, fun i hi => ?_⟩
        rw [← group_succ]
        exact hall (i + 1) (by omega)

theorem length_group {cs : List Char} {n i : Nat} (h : cs.length = 8 * n) (hi : i < n) :
    (group cs i).length = 8 := by
  rw [group, List.length_take, List.length_drop]
  omega

/-- What is read from digits of lower case is written in these digits. -/
theorem flatMap_digits_of_readWords? {cs : List Char} {ws : List UInt32}
    (h : readWords? cs = some ws) (hlower : ∀ c ∈ cs, Hex.IsLower c) :
    (ws.flatMap fun w => Hex.digits 8 w.toNat) = cs := by
  induction ws generalizing cs with
  | nil => exact (readWords?_eq_some_nil.1 h).symm
  | cons w ws ih =>
      obtain ⟨hle, hfirst, hrest⟩ := readWords?_eq_some_cons.1 h
      rw [List.flatMap_cons, ih hrest fun c hc => hlower c (List.mem_of_mem_drop hc),
        digits_of_readWord? (by simp; omega) hfirst fun c hc => hlower c (List.mem_of_mem_take hc),
        List.take_append_drop]

/-! ### Digests -/

theorem ofWords?_eq_some_iff {ws : List UInt32} {d : Digest} :
    ofWords? ws = some d ↔ ws = d.words := by
  constructor
  · intro h
    rw [ofWords?.eq_def] at h
    split at h
    · cases h
      rfl
    · cases h
  · rintro rfl
    exact ofWords?_words d

theorem parse?_eq_some_iff_readWords? {s : String} {d : Digest} :
    parse? s = some d ↔ readWords? s.toList = some d.words := by
  rw [parse?, Option.bind_eq_some_iff]
  constructor
  · rintro ⟨ws, hread, hws⟩
    rw [hread, ofWords?_eq_some_iff.1 hws]
  · exact fun h => ⟨_, h, ofWords?_words d⟩

/-- **The texts of a digest**, group by group. -/
theorem parse?_eq_some_iff {s : String} {d : Digest} :
    parse? s = some d ↔ s.toList.length = 64 ∧ ∀ i < 8, IsWord (group s.toList i) ∧
      (d.words.getD i 0).toNat = Hex.valueOf (digitsOf (group s.toList i)) := by
  have hlength : d.words.length = 8 := rfl
  rw [parse?_eq_some_iff_readWords?, readWords?_eq_some_iff, hlength]
  refine and_congr_right fun h64 => forall₂_congr fun i hi => ?_
  have hget : d.words[i]? = some (d.words.getD i 0) := by
    rw [List.getD_eq_getElem?_getD, List.getElem?_eq_getElem hi]
    rfl
  rw [hget, readWord?_eq_some_iff (length_group h64 hi)]

theorem parse_eq_ok_iff {s : String} {d : Digest} : parse s = .ok d ↔ parse? s = some d := by
  rw [parse]
  cases parse? s <;> simp

/-- Where all groups are words, a digest is denoted. -/
theorem exists_parse?_iff {s : String} :
    (∃ d, parse? s = some d) ↔ s.toList.length = 64 ∧ ∀ i < 8, IsWord (group s.toList i) := by
  constructor
  · rintro ⟨d, hd⟩
    obtain ⟨hlength, hwords⟩ := parse?_eq_some_iff.1 hd
    exact ⟨hlength, fun i hi => (hwords i hi).1⟩
  · rintro ⟨hlength, hwords⟩
    -- the digest is made of what the groups denote
    let word (i : Nat) : UInt32 := UInt32.ofNat (Hex.valueOf (digitsOf (group s.toList i)))
    refine ⟨⟨⟨word 0, word 1⟩, ⟨word 2, word 3⟩, ⟨word 4, word 5⟩, ⟨word 6, word 7⟩⟩,
      parse?_eq_some_iff.2 ⟨hlength, fun i hi => ⟨hwords i hi, ?_⟩⟩⟩
    have hvalue : (word i).toNat = Hex.valueOf (digitsOf (group s.toList i)) := by
      rw [UInt32.toNat_ofNat', Nat.mod_eq_of_lt (hwords i hi).valueOf_lt]
    rw [← hvalue]
    match i, hi with
    | 0, _ | 1, _ | 2, _ | 3, _ | 4, _ | 5, _ | 6, _ | 7, _ => rfl

theorem isLower_toText {d : Digest} : ∀ c ∈ d.toText.toList, Hex.IsLower c := by
  intro c hc
  obtain ⟨i, hi, rfl⟩ := mem_toText hc
  exact Hex.isLower_digit hi

/-- **Of the texts of a digest the one in lower case is written.** -/
theorem toText_eq_iff {s : String} {d : Digest} :
    d.toText = s ↔ parse? s = some d ∧ ∀ c ∈ s.toList, Hex.IsLower c := by
  constructor
  · rintro rfl
    exact ⟨parse?_toText d, isLower_toText⟩
  · rintro ⟨hparse, hlower⟩
    apply String.toList_inj.1
    rw [toList_toText]
    exact flatMap_digits_of_readWords? (parse?_eq_some_iff_readWords?.1 hparse) hlower

/-! ### Order -/

theorem flatMap_digits_lt_iff {ws vs : List UInt32} (h : ws.length = vs.length) :
    (ws.flatMap fun w => Hex.digits 8 w.toNat) < (vs.flatMap fun w => Hex.digits 8 w.toNat) ↔
      ws < vs := by
  induction ws generalizing vs with
  | nil =>
      obtain rfl := List.length_eq_zero_iff.1 h.symm
      simp
  | cons w ws ih =>
      match vs with
      | v :: vs =>
          have hword (u : UInt32) : u.toNat < 16 ^ 8 := u.toNat_lt
          have hsame : Hex.digits 8 w.toNat = Hex.digits 8 v.toNat ↔ w = v := by
            refine ⟨fun heq => ?_, fun heq => by rw [heq]⟩
            have hread := congrArg readWord? heq
            rw [readWord?_digits, readWord?_digits] at hread
            exact Option.some.inj hread
          rw [List.flatMap_cons, List.flatMap_cons, Hex.append_lt_append_iff (by simp),
            Hex.digits_lt_iff (hword w) (hword v), hsame, ih (Nat.succ.inj h),
            List.cons_lt_cons_iff, UInt32.lt_iff_toNat_lt]

/-- **The order of digests is that of their texts.** -/
theorem lt_iff_toText_lt {d e : Digest} : d < e ↔ d.toText < e.toText := by
  have hlength : d.words.length = e.words.length := rfl
  rw [String.lt_iff, toList_toText, toList_toText, flatMap_digits_lt_iff hlength]
  rfl

/-! ### The format -/

/-- A text of characters of the seven-bit range has as many bytes as characters, all of that
range. -/
theorem ascii_iff {s : String} {n : Nat} :
    ((Utf8.encode s).length = n ∧ ∀ b ∈ Utf8.encode s, b < 0x80) ↔
      s.toList.length = n ∧ ∀ c ∈ s.toList, c.toNat < 0x80 := by
  have hbyte {c : Char} (h : c.toNat < 0x80) : UInt8.ofNat c.toNat < 0x80 := by
    rw [UInt8.lt_iff_toNat_lt, UInt8.toNat_ofNat', show (0x80 : UInt8).toNat = 0x80 from rfl]
    omega
  have hchars (h : ∀ b ∈ Utf8.encode s, b < 0x80) : ∀ c ∈ s.toList, c.toNat < 0x80 := by
    intro c hc
    rcases Utf8.encodeChar_cases c with ⟨hlow, -⟩ | ⟨-, hhigh⟩
    · exact hlow
    · obtain ⟨b, hb⟩ := List.exists_mem_of_ne_nil _ (String.utf8EncodeChar_ne_nil (c := c))
      have hlt := UInt8.lt_iff_toNat_lt.1 (h b (List.mem_flatMap.2 ⟨c, hc, hb⟩))
      exact absurd (hhigh b hb) (not_le.2 hlt)
  constructor
  · rintro ⟨hlength, hbytes⟩
    have hall := hchars hbytes
    rw [Utf8.encode, Utf8.flatMap_encodeChar hall, List.length_map] at hlength
    exact ⟨hlength, hall⟩
  · rintro ⟨hlength, hall⟩
    rw [Utf8.encode, Utf8.flatMap_encodeChar hall, List.length_map]
    refine ⟨hlength, fun b hb => ?_⟩
    obtain ⟨c, hc, rfl⟩ := List.mem_map.1 hb
    exact hbyte (hall c hc)

/-- A text whose groups are words has no other characters than words have. -/
theorem isDigit_or_plus_of_groups {cs : List Char} {n : Nat} (hlength : cs.length = 8 * n)
    (h : ∀ i < n, IsWord (group cs i)) : ∀ c ∈ cs, Hex.IsDigit c ∨ c = '+' := by
  induction n generalizing cs with
  | zero => simp_all
  | succ n ih =>
      intro c hc
      rw [← List.take_append_drop 8 cs, List.mem_append] at hc
      rcases hc with hc | hc
      · exact (h 0 (by omega)).isDigit_or_plus c hc
      · refine ih (by rw [List.length_drop]; omega) (fun i hi => ?_) c hc
        rw [← group_succ]
        exact h (i + 1) (by omega)

theorem isDigit_or_plus_of_parse? {s : String} {d : Digest} (h : parse? s = some d) :
    ∀ c ∈ s.toList, Hex.IsDigit c ∨ c = '+' := by
  obtain ⟨hlength, hwords⟩ := parse?_eq_some_iff.1 h
  exact isDigit_or_plus_of_groups hlength fun i hi => (hwords i hi).1

/-- A text whose groups are words has characters of the seven-bit range only. -/
theorem toNat_lt_of_groups {cs : List Char} {n : Nat} (hlength : cs.length = 8 * n)
    (h : ∀ i < n, IsWord (group cs i)) : ∀ c ∈ cs, c.toNat < 0x80 := by
  intro c hc
  rcases isDigit_or_plus_of_groups hlength h c hc with hdigit | rfl
  · exact hdigit.toNat_lt
  · decide

/-- **The format of digests.**  A digest is written as sixty-four digits of lower case and is read
back from them, and digests are in the order of the bytes of their texts.  A text denotes a digest
exactly if it is sixty-four bytes of the seven-bit range, of which each group of eight is eight
digits of either case, or a plus sign and seven; the words of the digest are what the groups stand
for, and it is written as that text exactly if the text has digits of lower case only. -/
theorem text_format :
    (∀ d : Digest, d.toText.toList.length = 64 ∧ (∀ c ∈ d.toText.toList, Hex.IsLower c) ∧
      parse d.toText = .ok d) ∧
    (∀ d e : Digest, d < e ↔ Utf8.encode d.toText < Utf8.encode e.toText) ∧
    (∀ s : String, (∃ d, parse s = .ok d) ↔ (Utf8.encode s).length = 64 ∧
      (∀ b ∈ Utf8.encode s, b < 0x80) ∧ ∀ i < 8, IsWord (group s.toList i)) ∧
    (∀ (s : String) (d : Digest), parse s = .ok d → ∀ i < 8,
      (d.words.getD i 0).toNat = Hex.valueOf (digitsOf (group s.toList i))) ∧
    ∀ (s : String) (d : Digest), parse s = .ok d →
      (d.toText = s ↔ ∀ c ∈ s.toList, Hex.IsLower c) := by
  refine ⟨fun d => ⟨d.length_toText, isLower_toText, parse_eq_ok_iff.2 (parse?_toText d)⟩,
    fun d e => ?_, fun s => ?_, fun s d h => ?_, fun s d h => ?_⟩
  · rw [Utf8.encode_lt_iff, lt_iff_toText_lt]
  · simp only [parse_eq_ok_iff, exists_parse?_iff]
    constructor
    · rintro ⟨hlength, hwords⟩
      obtain ⟨hbytes, hascii⟩ := ascii_iff.2 ⟨hlength, toNat_lt_of_groups hlength hwords⟩
      exact ⟨hbytes, hascii, hwords⟩
    · rintro ⟨hbytes, hascii, hwords⟩
      exact ⟨(ascii_iff.1 ⟨hbytes, hascii⟩).1, hwords⟩
  · exact fun i hi => ((parse?_eq_some_iff.1 (parse_eq_ok_iff.1 h)).2 i hi).2
  · rw [toText_eq_iff]
    exact and_iff_right (parse_eq_ok_iff.1 h)

/-- A text with plus signs and digits of upper case denotes a digest that is written otherwise. -/
theorem signed_text_rewritten :
    ∃ d, parse "+0000A0B0000000100000000FFFFFFFF+1234567000000000000000000000001" = .ok d ∧
      (d.words.getD 0 0).toNat = 0xA0B ∧
      d.toText ≠ "+0000A0B0000000100000000FFFFFFFF+1234567000000000000000000000001" := by
  obtain ⟨-, -, hdenotes, hwords, hwritten⟩ := text_format
  obtain ⟨d, hd⟩ := (hdenotes
    "+0000A0B0000000100000000FFFFFFFF+1234567000000000000000000000001").2
      ⟨by decide, List.forall_iff_forall_mem.1 (by decide), by decide⟩
  have hfirst := hwords _ d hd 0 (by decide)
  have hlower := hwritten _ d hd
  refine ⟨d, hd, hfirst.trans (by decide), fun h => ?_⟩
  exact absurd (hlower.1 h '+' (by decide)) (by decide)

end KernelCache.Digest
