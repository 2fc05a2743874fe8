/-
**What becomes part of a key has no bar in it.**

Resolving settings refuses every text with the separator of key components.  What a threaded device
adds to its flags are names of flags and the digits of a number, so the texts of an opened device's
identity are as free of the separator as its settings were.

Main definitions:

* `Text.Unbarred` — a string without a bar;
* `Identity.Unbarred` — an identity all of whose texts are without.

Main results:

* `DeviceSettings.resolve_eq_ok_iff` — what settings resolve to;
* `Identity.unbarred_effectiveFlags` — the flags that a device adds bring none in;
* `Device.unbarred_identity_open` — **no text in the identity of an opened device has a bar**.
-/

import KernelCache.Device.Basic
import KernelCache.Proofs.Except
import KernelCache.Proofs.Text.Blank
import KernelCache.Proofs.Text.Utf8
import KernelCache.Salt

set_option relaxedAutoImplicit false
set_option autoImplicit false

namespace KernelCache

/-! ### Texts without a bar -/

/-- A string without the separator of key components. -/
def Text.Unbarred (s : String) : Prop := '|' ∉ s.toList

namespace Text

instance (s : String) : Decidable (Unbarred s) := inferInstanceAs (Decidable ¬_)

theorem not_hasSeparator_iff (s : String) :
    ¬DeviceSettings.hasSeparator s ↔ Unbarred s := by
  rw [DeviceSettings.hasSeparator, List.contains_iff_mem, Unbarred]

/-- The bytes of a text without a bar have none either: no other character's bytes have one. -/
theorem Unbarred.separator_notMem {s : String} (h : Unbarred s) :
    Salt.separator ∉ Utf8.encode s := by
  have hbar : Salt.separator = UInt8.ofNat ('|' : Char).toNat := by decide
  rw [hbar, Utf8.mem_encode_iff (by decide)]
  exact h

theorem Unbarred.append {s t : String} (hs : Unbarred s) (ht : Unbarred t) :
    Unbarred (s ++ t) := by
  rw [Unbarred, String.toList_append, List.mem_append, not_or]
  exact ⟨hs, ht⟩

theorem mem_addFlag {c : Char} {flags flag : List Char} (h : c ∈ addFlag flags flag) :
    c ∈ flags ∨ c = ' ' ∨ c ∈ flag := by
  rw [addFlag] at h
  split at h
  · exact Or.inr (Or.inr h)
  · simpa [List.mem_append, List.mem_cons] using h

/-- Adding flags brings in blanks and what the flags consist of. -/
theorem Unbarred.joinFlags {flags : String} {extra : List String} (h : Unbarred flags)
    (hextra : ∀ flag ∈ extra, Unbarred flag) : Unbarred (joinFlags flags extra) := by
  have hfold (l : List String) (start : List Char) (hl : ∀ flag ∈ l, Unbarred flag)
      (hstart : '|' ∉ start) : '|' ∉ (l.map String.toList).foldl addFlag start := by
    induction l generalizing start with
    | nil => exact hstart
    | cons flag rest ih =>
        rw [List.forall_mem_cons] at hl
        refine ih _ hl.2 fun hmem => ?_
        rcases mem_addFlag hmem with hmem | hblank | hmem
        · exact hstart hmem
        · exact absurd hblank (by decide)
        · exact hl.1 hmem
  rw [Unbarred, KernelCache.joinFlags, String.toList_ofList]
  exact hfold extra _ hextra fun hmem => h (mem_of_mem_trim hmem)

/-- The digits of a number are digits. -/
theorem unbarred_decimal (n : Nat) : Unbarred (Decimal.text n) := by
  rw [Unbarred, Decimal.text, String.toList_ofList]
  intro hmem
  have hdigit := Nat.isDigit_of_mem_toDigits (by decide) (by decide) hmem
  exact absurd hdigit (by decide)

theorem unbarred_tag (b : Backend) : Unbarred b.tag := by
  cases b <;> decide

theorem unbarred_threadFlag (v : Vendor) : Unbarred v.threadFlag := by
  cases v <;> decide

theorem Unbarred.defineFlag (v : Vendor) {name value : String} (hname : Unbarred name)
    (hvalue : Unbarred value) : Unbarred (v.defineFlag name value) := by
  cases v <;> exact ((Unbarred.append (by decide) hname).append (by decide)).append hvalue

end Text

/-! ### Settings -/

/-- **What settings resolve to.**  Each text is resolved by itself, and none of them has a bar. -/
theorem DeviceSettings.resolve_eq_ok_iff {s : DeviceSettings} {env : Environment}
    {spec : DeviceSpec} :
    s.resolve env = .ok spec ↔
      s.resolveCompiler env = .ok spec.compiler ∧ s.threads ≠ some 0 ∧
        Text.Unbarred spec.compiler ∧ Text.Unbarred spec.compilerFlags ∧
        Text.Unbarred spec.environmentScript ∧ Text.Unbarred spec.vendorHint ∧
        spec = ⟨s.backend, spec.compiler, s.resolveFlags env, s.resolveScript env, s.joinedHints,
          s.threads⟩ := by
  rw [resolve, bind_eq_ok_iff]
  constructor
  · rintro ⟨compiler, hcompiler, h⟩
    rw [check_eq_ok_iff, check_eq_ok_iff, check_eq_ok_iff, check_eq_ok_iff, check_eq_ok_iff] at h
    obtain ⟨hthreads, hc, hf, hs, hv, h⟩ := h
    obtain rfl := Except.ok.inj h
    rw [Text.not_hasSeparator_iff] at hc hf hs hv
    exact ⟨hcompiler, hthreads, hc, hf, hs, hv, rfl⟩
  · rintro ⟨hcompiler, hthreads, hc, hf, hs, hv, h⟩
    rw [h] at hf hs hv
    refine ⟨spec.compiler, hcompiler, ?_⟩
    rw [check_eq_ok_iff, check_eq_ok_iff, check_eq_ok_iff, check_eq_ok_iff, check_eq_ok_iff]
    simp only [Text.not_hasSeparator_iff]
    exact ⟨hthreads, hc, hf, hs, hv, congrArg Except.ok h.symm⟩

/-! ### Identities -/

namespace Identity

/-- No text of the identity has a bar. -/
structure Unbarred (i : Identity) : Prop where
  compiler : Text.Unbarred i.compiler
  compilerFlags : Text.Unbarred i.compilerFlags
  environmentScript : Text.Unbarred i.environmentScript
  vendorHint : Text.Unbarred i.vendorHint

/-- The flags that a threaded device adds bring no bar in. -/
theorem unbarred_effectiveFlags {spec : DeviceSpec} (h : Text.Unbarred spec.compilerFlags) :
    Text.Unbarred (effectiveFlags spec) := by
  rw [effectiveFlags]
  split
  · exact h
  · exact h
  · refine h.joinFlags fun flag hflag => ?_
    rw [List.mem_cons, Option.mem_toList, Option.map_eq_some_iff] at hflag
    rcases hflag with rfl | ⟨n, -, rfl⟩
    · exact Text.unbarred_threadFlag _
    · exact Text.Unbarred.defineFlag _ (by decide) (Text.unbarred_decimal n)

end Identity

/-- **No text in the identity of an opened device has a bar.** -/
theorem Device.unbarred_identity_open {s : DeviceSettings} {env : Environment} {spec : DeviceSpec}
    (h : s.resolve env = .ok spec) (id : Nat) : (Device.open id spec).identity.Unbarred := by
  obtain ⟨-, -, hc, hf, hs, hv, -⟩ := DeviceSettings.resolve_eq_ok_iff.mp h
  exact ⟨hc, Identity.unbarred_effectiveFlags hf, hs, hv⟩

end KernelCache
