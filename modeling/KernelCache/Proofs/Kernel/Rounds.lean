/-
**The rounds of a scan.**

A scan goes from marker to marker.  Each round searches for the next marker from where the parameter
list of the kernel before was closed, so a round starts behind the marker of the round before, and
no marker is found twice.

Main definitions:

* `Text.places` — the offsets at which a pattern stands;
* `Offsets.Round`, `Offsets.rounds` — the rounds of a scan.

Main results:

* `Offsets.lt_of_kernelAt` — **a round goes on behind its marker**;
* `Offsets.scan_eq_mapM` — a scan reports what its rounds find, in their order;
* `Offsets.pairwise_rounds` — each round starts behind the markers of all earlier ones;
* `Offsets.sublist_places` — **the rounds find some of the markers, in the order of the text**;
* `Offsets.scan_paired` — parentheses, rounds and markers of a scan.
-/

import KernelCache.Proofs.Kernel.Declaration
import KernelCache.Proofs.Kernel.Pairing
import Mathlib.Data.List.Chain
import Mathlib.Data.List.Sort

set_option relaxedAutoImplicit false
set_option autoImplicit false

namespace KernelCache

open String (utf8Len)

namespace Text

/-! ### Places of a pattern -/

/-- The offsets at which a pattern stands in a text, in their order. -/
def places (p s : List Char) : List Nat :=
  (List.range (utf8Len s)).filter fun n => (from? n s).any p.isPrefixOf

theorem mem_places_iff {p s : List Char} (hp : p ≠ []) {n : Nat} :
    n ∈ places p s ↔ ∃ a b, s = a ++ p ++ b ∧ n = utf8Len a := by
  rw [places, List.mem_filter, List.mem_range, Option.any_eq_true]
  constructor
  · rintro ⟨-, t, hfrom, hbegins⟩
    obtain ⟨⟨a, t'⟩, hcut, rfl⟩ := Option.map_eq_some_iff.1 hfrom
    obtain ⟨rfl, rfl⟩ := parts_of_cutAt? hcut
    obtain ⟨b, rfl⟩ := List.isPrefixOf_iff_prefix.1 hbegins
    exact ⟨a, b, (List.append_assoc a p b).symm, rfl⟩
  · rintro ⟨a, b, rfl, rfl⟩
    have hsize : utf8Len p ≠ 0 := fun hzero => hp (String.utf8Len_eq_zero.1 hzero)
    refine ⟨?_, p ++ b, ?_, List.isPrefixOf_iff_prefix.2 (List.prefix_append p b)⟩
    · rw [String.utf8Len_append, String.utf8Len_append]
      omega
    · rw [List.append_assoc, from?_append]

theorem pairwise_places (p s : List Char) : (places p s).Pairwise (· < ·) :=
  List.pairwise_lt_range.filter _

end Text

namespace Offsets

/-! ### What goes well -/

section

variable {ε α β : Type}

/-- What goes well as a whole goes well in each of its steps. -/
theorem pure_of_bind {x : ExceptT ε Option α} {f : α → ExceptT ε Option β} {b : β}
    (h : (x >>= f) = pure b) : ∃ a, x = pure a ∧ f a = pure b := by
  match x with
  | none => cases h
  | some (.error e) => cases h
  | some (.ok a) => exact ⟨a, rfl, h⟩

theorem some_of_lift {x? : Option α} {a : α}
    (h : (liftM x? : ExceptT ε Option α) = pure a) : x? = some a := by
  cases x? with
  | none => cases h
  | some b =>
      cases h
      rfl

/-- What goes well for a list goes well for each of its elements. -/
theorem forall₂_of_mapM {f : α → ExceptT ε Option β} {l : List α} {m : List β}
    (h : l.mapM f = pure m) : List.Forall₂ (fun b a => f a = pure b) m l := by
  induction l generalizing m with
  | nil =>
      cases h
      exact List.Forall₂.nil
  | cons a l ih =>
      rw [List.mapM_cons] at h
      obtain ⟨b, hb, h⟩ := pure_of_bind h
      obtain ⟨rest, hrest, h⟩ := pure_of_bind h
      cases h
      exact List.Forall₂.cons hb (ih hrest)

theorem malformed_ne_pure (src : List Char) (offset : Nat) (reason : Declaration.Reason) (a : α) :
    malformed src offset reason ≠ pure a := by
  intro h
  obtain ⟨before, -, hthrow⟩ := pure_of_bind h
  cases hthrow

end

/-- A parameter list is closed behind where it opens. -/
theorem lt_of_listAt {src : List Char} {opening closing : Nat} {arguments : List Argument}
    (h : listAt src opening = pure (arguments, closing)) :
    opening < closing ∧ ∃ parts, Text.cutAt? closing src = some parts := by
  rw [listAt_eq_closingAt?] at h
  obtain ⟨closing?, -, h⟩ := pure_of_bind h
  cases closing? with
  | none => exact absurd h (malformed_ne_pure _ _ _ _)
  | some last =>
      obtain ⟨text, htext, h⟩ := pure_of_bind h
      obtain ⟨list, -, h⟩ := pure_of_bind h
      cases h
      exact Text.cutAt?_of_between? (some_of_lift htext)

/-- **A round goes on behind its marker**, where a character ends. -/
theorem lt_of_kernelAt {src : List Char} {found closing : Nat} {d : Declaration}
    (h : kernelAt src found = pure (d, closing)) :
    found < closing ∧ ∃ parts, Text.cutAt? closing src = some parts := by
  rw [kernelAt] at h
  obtain ⟨after, -, h⟩ := pure_of_bind h
  split at h
  · exact absurd h (malformed_ne_pure _ _ _ _)
  · obtain ⟨text, -, h⟩ := pure_of_bind h
    obtain ⟨name, -, h⟩ := pure_of_bind h
    obtain ⟨⟨arguments, last⟩, hlist, h⟩ := pure_of_bind h
    cases h
    obtain ⟨hlt, hcut⟩ := lt_of_listAt hlist
    exact ⟨by omega, hcut⟩

/-! ### Rounds -/

/-- A round of a scan: where it starts to search, the marker that it finds, and what it makes of the
text behind the marker. -/
structure Round where
  start : Nat
  marker : Nat
  result : ExceptT (Nat × Declaration.Reason) Option (Declaration × Nat)

/-- The offset of the first marker from an offset on. -/
def markerFrom? (src : List Char) (start : Nat) : Option Nat :=
  (Text.from? start src).bind fun s => (Text.findText? Declaration.marker s).map (start + ·)

theorem le_of_markerFrom? {src : List Char} {start found : Nat}
    (h : markerFrom? src start = some found) : start ≤ found := by
  obtain ⟨s, -, hfind⟩ := Option.bind_eq_some_iff.1 h
  obtain ⟨offset, -, rfl⟩ := Option.map_eq_some_iff.1 hfind
  exact Nat.le_add_right _ _

/-- The rounds of a scan that starts at an offset. -/
def roundsFrom (src : List Char) (start : Nat) : List Round :=
  match _hfound : markerFrom? src start with
  | none => []
  | some found =>
    match _hkernel : kernelAt src found with
    | some (.ok (d, closing)) => ⟨start, found, pure (d, closing)⟩ :: roundsFrom src closing
    | result => [⟨start, found, result⟩]
termination_by utf8Len src - start
decreasing_by
  have hle := le_of_markerFrom? _hfound
  obtain ⟨hlt, ⟨a, b⟩, hcut⟩ := lt_of_kernelAt _hkernel
  obtain ⟨rfl, rfl⟩ := Text.parts_of_cutAt? hcut
  rw [String.utf8Len_append]
  omega

/-- The rounds of the scan of a source. -/
def rounds (src : List Char) : List Round := roundsFrom src 0

/-- Each round starts where the scan does or later, and makes of its marker what the scan makes. -/
theorem of_mem_roundsFrom {src : List Char} {start : Nat} {r : Round}
    (h : r ∈ roundsFrom src start) :
    start ≤ r.start ∧ markerFrom? src r.start = some r.marker ∧
      r.result = kernelAt src r.marker := by
  fun_induction roundsFrom src start with
  | case1 start hfound => cases h
  | case2 start found hfound d closing hkernel ih =>
      rcases List.mem_cons.1 h with rfl | h
      · exact ⟨Nat.le_refl _, hfound, hkernel.symm⟩
      · have hle := le_of_markerFrom? hfound
        obtain ⟨hlt, -⟩ := lt_of_kernelAt hkernel
        obtain ⟨hstart, hround⟩ := ih h
        exact ⟨by omega, hround⟩
  | case3 start found hfound hkernel =>
      obtain rfl := List.mem_singleton.1 h
      exact ⟨Nat.le_refl _, hfound, rfl⟩

/-- **Each round starts behind the markers of all earlier ones.** -/
theorem pairwise_rounds (src : List Char) (start : Nat) :
    (roundsFrom src start).Pairwise fun r r' => r.marker < r'.start := by
  fun_induction roundsFrom src start with
  | case1 start hfound => exact List.Pairwise.nil
  | case2 start found hfound d closing hkernel ih =>
      obtain ⟨hlt, -⟩ := lt_of_kernelAt hkernel
      refine List.pairwise_cons.2 ⟨fun r hr => ?_, ih⟩
      obtain ⟨hstart, -⟩ := of_mem_roundsFrom hr
      exact Nat.lt_of_lt_of_le hlt hstart
  | case3 start found hfound hkernel => exact List.pairwise_singleton _ _

/-- A round starts where the parameter list of the kernel before was closed. -/
theorem isChain_rounds (src : List Char) (start : Nat) :
    (∀ r ∈ (roundsFrom src start).head?, r.start = start) ∧
      (roundsFrom src start).IsChain fun r r' => ∃ d, r.result = pure (d, r'.start) := by
  fun_induction roundsFrom src start with
  | case1 start hfound => exact ⟨fun r hr => absurd hr (by simp), List.isChain_nil⟩
  | case2 start found hfound d closing hkernel ih =>
      obtain ⟨hhead, hchain⟩ := ih
      refine ⟨fun r hr => ?_, List.isChain_cons.2 ⟨fun r hr => ⟨d, ?_⟩, hchain⟩⟩
      · obtain rfl := Option.some.inj hr
        rfl
      · rw [hhead r hr]
  | case3 start found hfound hkernel =>
      refine ⟨fun r hr => ?_, List.isChain_singleton _⟩
      obtain rfl := Option.some.inj hr
      rfl

/-! ### What a scan reports -/

theorem next_of_markerFrom? {src : List Char} {start : Nat}
    (h : ∃ parts, Text.cutAt? start src = some parts) : next src start =
      (markerFrom? src start).elim (pure none) fun found => some <$> kernelAt src found := by
  obtain ⟨⟨a, s⟩, hcut⟩ := h
  have hfrom : Text.from? start src = some s := Option.map_eq_some_iff.2 ⟨(a, s), hcut, rfl⟩
  rw [next, markerFrom?, hfrom, Option.bind_some, lift_some, pure_bind]
  cases Text.findText? Declaration.marker s with
  | none => rfl
  | some offset => exact bind_pure_comp _ _

/-- A scan from an offset where a character ends reports what its rounds find. -/
theorem scanFrom_eq_mapM {src : List Char} {start : Nat}
    (h : ∃ parts, Text.cutAt? start src = some parts) :
    scanFrom src start = (roundsFrom src start).mapM fun r => Prod.fst <$> r.result := by
  fun_induction roundsFrom src start with
  | case1 start hfound =>
      have hnext := next_of_markerFrom? h
      rw [hfound, Option.elim_none] at hnext
      rw [scanFrom, hnext]
      rfl
  | case2 start found hfound d closing hkernel ih =>
      have hnext := next_of_markerFrom? h
      obtain ⟨-, hcut⟩ := lt_of_kernelAt hkernel
      rw [hfound, Option.elim_some, hkernel] at hnext
      rw [scanFrom, hnext, List.mapM_cons, ← ih hcut]
      rfl
  | case3 start found hfound hkernel =>
      have hnext := next_of_markerFrom? h
      rw [hfound, Option.elim_some] at hnext
      rw [scanFrom, hnext]
      rcases hresult : kernelAt src found with _ | fault | ⟨d, closing⟩
      · rfl
      · rfl
      · exact absurd hresult (hkernel d closing)

/-- **A scan reports what its rounds find**, or breaks off where one of them does. -/
theorem scan_eq_mapM (src : List Char) :
    outcome malformed? (Declaration.scan src) =
      (rounds src).mapM fun r => Prod.fst <$> r.result := by
  rw [← scan_eq, scan, rounds]
  exact scanFrom_eq_mapM ⟨([], src), Text.cutAt?_append [] src⟩

/-- The kernels of a source are those of its rounds, one of each. -/
theorem forall₂_rounds {src : List Char} {ds : List Declaration}
    (h : Declaration.scan src = .ok ds) :
    List.Forall₂ (fun d r => ∃ closing, r.result = pure (d, closing)) ds (rounds src) := by
  have hrounds := scan_eq_mapM src
  rw [h] at hrounds
  refine (forall₂_of_mapM hrounds.symm).imp fun d r hr => ?_
  obtain ⟨⟨d', closing⟩, hresult, hd⟩ := pure_of_bind hr
  cases hd
  exact ⟨closing, hresult⟩

/-! ### Markers -/

theorem mem_places_of_mem_rounds {src : List Char} {r : Round} (h : r ∈ rounds src) :
    r.marker ∈ Text.places Declaration.marker src := by
  obtain ⟨-, hmarker, -⟩ := of_mem_roundsFrom h
  obtain ⟨s, hfrom, hfind⟩ := Option.bind_eq_some_iff.1 hmarker
  obtain ⟨⟨a, s'⟩, hcut, rfl⟩ := Option.map_eq_some_iff.1 hfrom
  obtain ⟨offset, hoffset, hsum⟩ := Option.map_eq_some_iff.1 hfind
  obtain ⟨⟨before, after⟩, hparts, rfl⟩ := Option.map_eq_some_iff.1 hoffset
  obtain ⟨hsrc, hstart⟩ := Text.parts_of_cutAt? hcut
  have hs : s' = before ++ Declaration.marker ++ after := Text.cut?_eq hparts
  refine (Text.mem_places_iff (by decide)).2 ⟨a ++ before, after, ?_, ?_⟩
  · rw [hsrc, hs]
    simp only [List.append_assoc]
  · rw [← hsum, hstart, String.utf8Len_append]

/-- Rounds start, and find their markers, further and further on. -/
theorem pairwise_lt_rounds (src : List Char) :
    ((rounds src).map Round.start).Pairwise (· < ·) ∧
      ((rounds src).map Round.marker).Pairwise (· < ·) := by
  have hle : ∀ r ∈ rounds src, r.start ≤ r.marker := fun r hr =>
    le_of_markerFrom? (of_mem_roundsFrom hr).2.1
  have hlt := pairwise_rounds src 0
  rw [List.pairwise_map, List.pairwise_map]
  constructor
  · refine hlt.imp_of_mem fun {r r'} hr _ h => ?_
    exact Nat.lt_of_le_of_lt (hle r hr) h
  · refine hlt.imp_of_mem fun {r r'} _ hr' h => ?_
    exact Nat.lt_of_lt_of_le h (hle r' hr')

/-- **The rounds find some of the markers, in the order of the text.** -/
theorem sublist_places (src : List Char) :
    ((rounds src).map Round.marker).Sublist (Text.places Declaration.marker src) := by
  obtain ⟨-, hmarkers⟩ := pairwise_lt_rounds src
  have hnodup : ((rounds src).map Round.marker).Nodup := hmarkers.imp fun h => Nat.ne_of_lt h
  have hsubset : (rounds src).map Round.marker ⊆ Text.places Declaration.marker src := by
    intro n hn
    obtain ⟨r, hr, rfl⟩ := List.mem_map.1 hn
    exact mem_places_of_mem_rounds hr
  exact List.sublist_of_subperm_of_pairwise (List.subperm_of_subset hnodup hsubset) hmarkers
    (Text.pairwise_places _ _)

/-! ### Scans -/

/-- **A scan pairs parentheses exactly, and each of its kernels comes from a marker of its own.**
The parenthesis that closes an opening one is at the least offset up to which as many are closed as
opened, and there is none exactly if no offset is like that.  A scan reports what its rounds find;
each round starts where the list of the kernel before was closed, behind the marker of that kernel,
and finds the next marker, so there are no more rounds than markers. -/
theorem scan_paired (src : List Char) :
    (∀ before body, src = before ++ '(' :: body →
        let opening := utf8Len before
        ∃ closing?, closingAt? src opening = some closing? ∧
          (∀ c, closing? = some c ↔ IsLeast {c | opening < c ∧ Balanced src opening c} c) ∧
          (closing? = none ↔ ∀ c, opening < c → ¬Balanced src opening c)) ∧
      (outcome malformed? (Declaration.scan src) =
          (rounds src).mapM fun r => Prod.fst <$> r.result) ∧
      (∀ r ∈ rounds src, markerFrom? src r.start = some r.marker ∧ r.start ≤ r.marker ∧
        ∀ d closing, r.result = pure (d, closing) → r.marker < closing) ∧
      ((rounds src).IsChain fun r r' => ∃ d, r.result = pure (d, r'.start)) ∧
      ((rounds src).map Round.start).Pairwise (· < ·) ∧
      ((rounds src).map Round.marker).Sublist (Text.places Declaration.marker src) ∧
      (rounds src).length ≤ (Text.places Declaration.marker src).length ∧
      ∀ ds, Declaration.scan src = .ok ds →
        List.Forall₂ (fun d r => ∃ closing, r.result = pure (d, closing)) ds (rounds src) := by
  have hround : ∀ r ∈ rounds src, markerFrom? src r.start = some r.marker ∧ r.start ≤ r.marker ∧
      ∀ d closing, r.result = pure (d, closing) → r.marker < closing := by
    intro r hr
    obtain ⟨-, hmarker, hresult⟩ := of_mem_roundsFrom hr
    refine ⟨hmarker, le_of_markerFrom? hmarker, fun d closing h => ?_⟩
    obtain ⟨hlt, -⟩ := lt_of_kernelAt (hresult.symm.trans h)
    exact hlt
  have hlength : (rounds src).length ≤ (Text.places Declaration.marker src).length := by
    have := (sublist_places src).length_le
    rwa [List.length_map] at this
  refine ⟨?_, scan_eq_mapM src, hround, (isChain_rounds src 0).2, (pairwise_lt_rounds src).1,
    sublist_places src, hlength, fun ds => forall₂_rounds⟩
  rintro before body rfl
  exact closingAt?_pairs before body

/-- A source with two kernels is scanned in two rounds, one for each of its markers, and the list of
the first kernel is closed by the only parenthesis that balances. -/
theorem twoKernels_paired :
    let src := Prototype.source [TwoKernels.zero, TwoKernels.noop] " ;".toList
    Declaration.scan src = .ok [TwoKernels.zero.declaration, TwoKernels.noop.declaration] ∧
      (rounds src).map Round.marker = Text.places Declaration.marker src ∧
      ((rounds src).map Round.start).Pairwise (· < ·) ∧
      IsLeast {c | 17 < c ∧ Balanced src 17 c} 40 := by
  intro src
  have hscan : Declaration.scan src =
      .ok [TwoKernels.zero.declaration, TwoKernels.noop.declaration] :=
    Declaration.scan_source [TwoKernels.zero, TwoKernels.noop] (by decide)
  obtain ⟨hpairs, -, -, -, hstarts, hmarkers, -, hreports⟩ := scan_paired src
  have hrounds : (rounds src).length = 2 := (hreports _ hscan).length_eq.symm
  have hplaces : (Text.places Declaration.marker src).length = 2 := by decide +kernel
  have hall : (rounds src).map Round.marker = Text.places Declaration.marker src :=
    hmarkers.eq_of_length (by rw [List.length_map, hrounds, hplaces])
  have hsplit : src = src.take 17 ++ '(' :: src.drop 18 := by decide +kernel
  have hopening : utf8Len (src.take 17) = 17 := by decide +kernel
  obtain ⟨closing?, hclosing, hleast, -⟩ := hpairs _ _ hsplit
  rw [hopening] at hclosing hleast
  have hforty : closingAt? src 17 = some (some 40) := by decide +kernel
  rw [hforty] at hclosing
  exact ⟨hscan, hall, hstarts, (hleast 40).1 (Option.some.inj hclosing).symm⟩

end Offsets

end KernelCache
