/-
**What a cache key tells.**

The salt of a build is the texts of the device's identity, of the flags and of the translator, each
with a bar behind it, and then the source.  Settings have no bar in them, so the texts can be read
back as soon as it is known which of the optional ones are there.  The salt alone does not say that:
a device with a script and no vendor hint may have the texts of another that has a hint and no
script, each in the place of its neighbour.

Main definitions:

* `Identity.toolchain` — the texts of an identity that stand behind one another;
* `Pipeline.texts` — all texts before the source;
* `Identity.Shifted` — the same texts, with a script at one end or a hint at the other.

Main results:

* `Pipeline.bytes_saltFor` — the bytes of a salt;
* `Identity.toolchain_eq_iff` — identities with the same texts are the same or shifted;
* `equal_salts_iff` — **devices have the same salts when their identities are the same or shifted**;
* `shifted_devices_collide` — two such devices with different identities;
* `salt_decodes` — **where it is known what is there, the salt tells all of it**.
-/

import KernelCache.Build.Pipeline
import KernelCache.Proofs.Device.Identity
import KernelCache.Proofs.Salt

set_option relaxedAutoImplicit false
set_option autoImplicit false

namespace KernelCache

/-! ### Texts -/

/-- The texts that an optional one adds: itself, or none when it is empty. -/
def Text.given (s : String) : List String := if s = "" then [] else [s]

namespace Text

theorem present_encode (s : String) :
    Salt.present (Utf8.encode s) = (given s).map Utf8.encode := by
  have hempty : (Utf8.encode s).isEmpty ↔ s = "" := by
    rw [List.isEmpty_iff]
    constructor
    · exact fun h => Utf8.encode_injective h
    · rintro rfl
      rfl
  rw [Salt.present, given]
  simp only [hempty]
  split <;> rfl

theorem given_inj {s t : String} : given s = given t ↔ s = t := by
  constructor
  · intro h
    rw [given, given] at h
    split at h <;> split at h <;> simp_all
  · rintro rfl
    rfl

theorem length_given {s t : String} (h : s = "" ↔ t = "") :
    (given s).length = (given t).length := by
  rw [given, given]
  simp only [h]
  split <;> rfl

theorem Unbarred.given {s : String} (h : Unbarred s) : ∀ t ∈ Text.given s, Unbarred t := by
  intro t ht
  rw [Text.given] at ht
  split at ht
  · simp at ht
  · rw [List.mem_singleton] at ht
    exact ht ▸ h

end Text

theorem Backend.tag_injective : Function.Injective Backend.tag := by
  intro b b' h
  cases b <;> cases b' <;> first | rfl | exact absurd h (by decide)

namespace Identity

/-- The texts of an identity that stand behind one another in a key. -/
def toolchain (i : Identity) : List String :=
  Text.given i.environmentScript ++ [i.compiler, i.compilerFlags] ++ Text.given i.vendorHint

theorem Unbarred.toolchain {i : Identity} (h : i.Unbarred) :
    ∀ t ∈ i.toolchain, Text.Unbarred t := by
  intro t ht
  simp only [Identity.toolchain, List.mem_append, List.mem_cons, List.not_mem_nil, or_false] at ht
  rcases ht with (ht | rfl | rfl) | ht
  · exact h.environmentScript.given t ht
  · exact h.compiler
  · exact h.compilerFlags
  · exact h.vendorHint.given t ht

/-- `i` has a script and no hint, `j` a hint and no script, and the script, the compiler and the
flags of `i` are the compiler, the flags and the hint of `j`. -/
structure Shifted (i j : Identity) : Prop where
  backend : i.backend = j.backend
  script : i.environmentScript = j.compiler
  compiler : i.compiler = j.compilerFlags
  compilerFlags : i.compilerFlags = j.vendorHint
  hasScript : i.environmentScript ≠ ""
  noScript : j.environmentScript = ""
  hasHint : j.vendorHint ≠ ""
  noHint : i.vendorHint = ""

theorem ext_iff {i j : Identity} :
    i = j ↔ i.backend = j.backend ∧ i.compiler = j.compiler ∧
      i.compilerFlags = j.compilerFlags ∧ i.environmentScript = j.environmentScript ∧
      i.vendorHint = j.vendorHint := by
  cases i
  cases j
  simp

theorem Shifted.toolchain_eq {i j : Identity} (h : i.Shifted j) : i.toolchain = j.toolchain := by
  have hscript : j.compiler ≠ "" := h.script ▸ h.hasScript
  simp [toolchain, Text.given, h.script, h.compiler, h.compilerFlags, h.noScript, h.noHint,
    h.hasHint, hscript]

/-- **Identities with the same texts are the same or shifted.** -/
theorem toolchain_eq_iff {i j : Identity} :
    i.backend = j.backend ∧ i.toolchain = j.toolchain ↔ i = j ∨ i.Shifted j ∨ j.Shifted i := by
  constructor
  · rintro ⟨hbackend, h⟩
    rw [ext_iff]
    -- the number of texts leaves six of the sixteen ways in which optional ones may be there
    simp only [toolchain, Text.given] at h
    by_cases hi : i.environmentScript = "" <;> by_cases hj : j.environmentScript = "" <;>
      by_cases hi' : i.vendorHint = "" <;> by_cases hj' : j.vendorHint = "" <;>
      simp [hi, hj, hi', hj'] at h
    · exact Or.inl ⟨hbackend, h.1, h.2, hi.trans hj.symm, hi'.trans hj'.symm⟩
    · exact Or.inl ⟨hbackend, h.1, h.2.1, hi.trans hj.symm, h.2.2⟩
    · exact Or.inr (Or.inr ⟨hbackend.symm, h.1.symm, h.2.1.symm, h.2.2.symm, hj, hi, hi', hj'⟩)
    · exact Or.inr (Or.inl ⟨hbackend, h.1, h.2.1, h.2.2, hi, hj, hj', hi'⟩)
    · exact Or.inl ⟨hbackend, h.2.1, h.2.2, h.1, hi'.trans hj'.symm⟩
    · exact Or.inl ⟨hbackend, h.2.1, h.2.2.1, h.1, h.2.2.2⟩
  · rintro (rfl | h | h)
    · exact ⟨rfl, rfl⟩
    · exact ⟨h.backend, h.toolchain_eq⟩
    · exact ⟨h.backend.symm, h.toolchain_eq.symm⟩

end Identity

/-! ### The salt of a build -/

namespace Pipeline

/-- The texts of a key, which the source follows. -/
def texts (p : Pipeline) (i : Identity) (flags : Flags) : List String :=
  i.backend.tag :: (Text.given flags.salt ++ p.version :: i.toolchain)

/-- **The bytes of a salt**: the texts with their bars, and the source. -/
theorem bytes_saltFor (p : Pipeline) (i : Identity) (flags : Flags) (source : Bytes) :
    (p.saltFor i flags source).bytes =
      Salt.terminated ((p.texts i flags).map Utf8.encode) ++ source := by
  have hempty : Salt.empty = Salt.ofParts [] := rfl
  rw [saltFor, hempty]
  simp only [Salt.component_ofParts, Salt.optional_ofParts, Salt.bytes_ofParts, Text.present_encode]
  congr 2
  simp [texts, Identity.toolchain]

/-- No text of a key has a bar, if the translator's version and the flags have none. -/
theorem unbarred_texts {p : Pipeline} {i : Identity} {flags : Flags} (hi : i.Unbarred)
    (hversion : Text.Unbarred p.version) (hflags : Text.Unbarred flags.salt) :
    ∀ t ∈ p.texts i flags, Text.Unbarred t := by
  intro t ht
  simp only [texts, List.mem_cons, List.mem_append] at ht
  rcases ht with rfl | ht | rfl | ht
  · exact Text.unbarred_tag i.backend
  · exact hflags.given t ht
  · exact hversion
  · exact hi.toolchain t ht

end Pipeline

namespace Text

theorem separator_notMem_map {l : List String} (h : ∀ t ∈ l, Unbarred t) :
    ∀ part ∈ l.map Utf8.encode, Salt.separator ∉ part := by
  intro part hpart
  obtain ⟨t, ht, rfl⟩ := List.mem_map.mp hpart
  exact (h t ht).separator_notMem

theorem map_encode_inj {l l' : List String} : l.map Utf8.encode = l'.map Utf8.encode ↔ l = l' :=
  List.map_inj_right fun _ _ => Utf8.encode_injective

end Text

/-- Before the same flags, version and source, the salts are the same when backend and texts are,
whatever bars the flags and the version may have. -/
theorem Pipeline.bytes_saltFor_eq_iff (p : Pipeline) {i j : Identity} (hi : i.Unbarred)
    (hj : j.Unbarred) (flags : Flags) (source : Bytes) :
    (p.saltFor i flags source).bytes = (p.saltFor j flags source).bytes ↔
      i = j ∨ i.Shifted j ∨ j.Shifted i := by
  rw [← Identity.toolchain_eq_iff, bytes_saltFor, bytes_saltFor]
  constructor
  · intro h
    simp only [texts, List.map_cons, List.map_append, Salt.terminated_cons,
      Salt.terminated_append, List.append_assoc, List.cons_append] at h
    have htag (b : Backend) := (Text.unbarred_tag b).separator_notMem
    rw [Salt.append_separator_inj (htag _) (htag _)] at h
    obtain ⟨hbackend, hrest⟩ := h
    have hsame := Salt.terminated_cancel (Text.separator_notMem_map hi.toolchain)
      (Text.separator_notMem_map hj.toolchain)
      (List.cons_eq_cons.mp (List.append_cancel_left (List.append_cancel_left hrest))).2
    exact ⟨Backend.tag_injective (Utf8.encode_injective hbackend), Text.map_encode_inj.mp hsame⟩
  · rintro ⟨hbackend, htoolchain⟩
    rw [texts, texts, hbackend, htoolchain]

/-! ### Devices that share their keys -/

section

variable {s s' : DeviceSettings} {env env' : Environment} {spec spec' : DeviceSpec}

/-- **Two opened devices have the same salt for a source exactly when their identities are the same,
or the one has a script and no hint where the other has the same texts with a hint and no script.**
It is then the same for every source. -/
theorem equal_salts_iff (h : s.resolve env = .ok spec) (h' : s'.resolve env' = .ok spec')
    (id id' : Nat) (p : Pipeline) (flags : Flags) (source : Bytes) :
    (p.saltFor (Device.open id spec).identity flags source).bytes =
        (p.saltFor (Device.open id' spec').identity flags source).bytes ↔
      (Device.open id spec).identity = (Device.open id' spec').identity ∨
        (Device.open id spec).identity.Shifted (Device.open id' spec').identity ∨
        (Device.open id' spec').identity.Shifted (Device.open id spec).identity :=
  p.bytes_saltFor_eq_iff (Device.unbarred_identity_open h id)
    (Device.unbarred_identity_open h' id') flags source

end

namespace Shift

/-- Settings with a script for the compiler's environment. -/
def scripted : DeviceSettings := ⟨.serial, some "g++", some "-g", some "env.sh", [], none⟩

/-- Settings with a vendor hint: the script is the compiler, and so on. -/
def hinted : DeviceSettings := ⟨.serial, some "env.sh", some "g++", none, ["-g"], none⟩

/-- What the settings resolve to. -/
def scriptedSpec : DeviceSpec := ⟨.serial, "g++", "-g", "env.sh", "", none⟩

@[inherit_doc scriptedSpec]
def hintedSpec : DeviceSpec := ⟨.serial, "env.sh", "g++", "", "-g", none⟩

@[inherit_doc scriptedSpec]
def unsetSpec : DeviceSpec := ⟨.serial, "g++", "-g", "", "", none⟩

/-- A pipeline. -/
def pipeline : Pipeline := Pipeline.atRoot (Path.ofString "cache") "1" "cpp" none 10

theorem resolve_scripted : scripted.resolve .empty = .ok scriptedSpec := by decide +kernel

theorem resolve_hinted : hinted.resolve .empty = .ok hintedSpec := by decide +kernel

theorem resolve_unset : DeviceSettings.unset.resolve .empty = .ok unsetSpec := by decide +kernel

theorem shifted : (Identity.ofSpec scriptedSpec).Shifted (Identity.ofSpec hintedSpec) := by
  constructor <;> decide

end Shift

/-- Two devices with different identities have the same key for every source. -/
theorem shifted_devices_collide :
    Shift.scripted.resolve .empty = .ok Shift.scriptedSpec ∧
      Shift.hinted.resolve .empty = .ok Shift.hintedSpec ∧
      (Device.open 1 Shift.scriptedSpec).identity ≠ (Device.open 2 Shift.hintedSpec).identity ∧
      ∀ (p : Pipeline) (flags : Flags) (source : Bytes),
        (p.saltFor (Device.open 1 Shift.scriptedSpec).identity flags source).bytes =
          (p.saltFor (Device.open 2 Shift.hintedSpec).identity flags source).bytes := by
  refine ⟨Shift.resolve_scripted, Shift.resolve_hinted, by decide, fun p flags source => ?_⟩
  rw [p.bytes_saltFor_eq_iff (Device.unbarred_identity_open Shift.resolve_scripted 1)
    (Device.unbarred_identity_open Shift.resolve_hinted 2)]
  exact Or.inr (Or.inl Shift.shifted)

/-- The device with the script has other keys than the one about which nothing is said. -/
theorem script_changes_salt :
    Shift.scripted.resolve .empty = .ok Shift.scriptedSpec ∧
      DeviceSettings.unset.resolve .empty = .ok Shift.unsetSpec ∧
      (Shift.pipeline.saltFor (Device.open 1 Shift.scriptedSpec).identity .none [0x7C]).bytes ≠
        (Shift.pipeline.saltFor (Device.open 2 Shift.unsetSpec).identity .none [0x7C]).bytes := by
  refine ⟨Shift.resolve_scripted, Shift.resolve_unset, ?_⟩
  rw [ne_eq, equal_salts_iff Shift.resolve_scripted Shift.resolve_unset]
  rintro (h | h | h)
  · exact absurd h (by decide)
  · exact h.hasHint rfl
  · exact h.hasScript rfl

section

variable {s s' : DeviceSettings} {env env' : Environment} {spec spec' : DeviceSpec}

/-- **Where it is known what is there, the salt tells all of it**: two builds that agree on which of
the optional texts are empty have the same salt only if they agree on all texts and on the source,
however many bars the sources have. -/
theorem salt_decodes (h : s.resolve env = .ok spec) (h' : s'.resolve env' = .ok spec')
    {id id' : Nat} {p p' : Pipeline} {flags flags' : Flags} {source source' : Bytes}
    (hversion : '|' ∉ p.version.toList) (hversion' : '|' ∉ p'.version.toList)
    (hflags : '|' ∉ flags.salt.toList) (hflags' : '|' ∉ flags'.salt.toList)
    (hsalt : flags.salt = "" ↔ flags'.salt = "")
    (hscript : (Device.open id spec).identity.environmentScript = "" ↔
      (Device.open id' spec').identity.environmentScript = "")
    (hhint : (Device.open id spec).identity.vendorHint = "" ↔
      (Device.open id' spec').identity.vendorHint = "")
    (hbytes : (p.saltFor (Device.open id spec).identity flags source).bytes =
      (p'.saltFor (Device.open id' spec').identity flags' source').bytes) :
    (Device.open id spec).identity = (Device.open id' spec').identity ∧
      flags.salt = flags'.salt ∧ p.version = p'.version ∧ source = source' := by
  have hi := Device.unbarred_identity_open h id
  have hj := Device.unbarred_identity_open h' id'
  rw [Pipeline.bytes_saltFor, Pipeline.bytes_saltFor] at hbytes
  have hlength : (p.texts (Device.open id spec).identity flags).length =
      (p'.texts (Device.open id' spec').identity flags').length := by
    simp only [Pipeline.texts, Identity.toolchain, List.length_cons, List.length_append,
      Text.length_given hsalt, Text.length_given hscript, Text.length_given hhint]
  obtain ⟨htexts, hsource⟩ := Salt.terminated_decodes
    (Text.separator_notMem_map (Pipeline.unbarred_texts hi hversion hflags))
    (Text.separator_notMem_map (Pipeline.unbarred_texts hj hversion' hflags'))
    (by simpa using hlength) hbytes
  rw [Text.map_encode_inj] at htexts
  -- each optional text takes up the same number of places, so the places correspond
  obtain ⟨htag, hrest⟩ := List.cons_eq_cons.mp htexts
  obtain ⟨hgiven, hrest⟩ := List.append_inj hrest (Text.length_given hsalt)
  obtain ⟨hversions, htoolchain⟩ := List.cons_eq_cons.mp hrest
  rw [Identity.toolchain, Identity.toolchain, List.append_assoc, List.append_assoc] at htoolchain
  obtain ⟨hscripts, hrest⟩ := List.append_inj htoolchain (Text.length_given hscript)
  obtain ⟨hcompiler, hrest⟩ := List.cons_eq_cons.mp hrest
  obtain ⟨hcompilerFlags, hhints⟩ := List.cons_eq_cons.mp hrest
  rw [Text.given_inj] at hgiven hscripts
  exact ⟨Identity.ext_iff.mpr ⟨Backend.tag_injective htag, hcompiler, hcompilerFlags, hscripts,
    Text.given_inj.mp hhints⟩, hgiven, hversions, hsource⟩

end

namespace Threaded

/-- Settings with flags, and two vendor hints. -/
def configured : DeviceSettings := ⟨.threaded, none, some "-O2", none, ["fast", "wide"], some 4⟩

/-- Settings without flags, and one vendor hint. -/
def bare : DeviceSettings := ⟨.threaded, none, none, none, ["fast,wide"], some 4⟩

/-- Flags in the environment, with a blank before them. -/
def environment : Environment := SortedMap.empty.insert "CXXFLAGS" " -O2"

/-- What settings with given flags resolve to. -/
def spec (flags : String) : DeviceSpec := ⟨.threaded, "g++", flags, "", "fast,wide", some 4⟩

theorem resolve_configured : configured.resolve .empty = .ok (spec "-O2") := by decide +kernel

theorem resolve_bare : bare.resolve environment = .ok (spec " -O2") := by decide +kernel

/-- Flags for a build. -/
def flags : Flags := Flags.none.define "N" "4"

end Threaded

/-- Two settings that differ give one salt, since a device takes the blank off its flags when it
adds those for many threads; and so the identities are the same. -/
theorem threaded_salt_decodes :
    Threaded.configured.resolve .empty = .ok (Threaded.spec "-O2") ∧
      Threaded.bare.resolve Threaded.environment = .ok (Threaded.spec " -O2") ∧
      Threaded.spec "-O2" ≠ Threaded.spec " -O2" ∧
      (Device.open 1 (Threaded.spec "-O2")).identity =
        (Device.open 2 (Threaded.spec " -O2")).identity := by
  have hbytes : (Shift.pipeline.saltFor (Device.open 1 (Threaded.spec "-O2")).identity
        Threaded.flags (Utf8.encode "a|b")).bytes =
      (Shift.pipeline.saltFor (Device.open 2 (Threaded.spec " -O2")).identity
        Threaded.flags (Utf8.encode "a|b")).bytes := by decide +kernel
  have hversion : '|' ∉ Shift.pipeline.version.toList := by decide
  have hflags : '|' ∉ Threaded.flags.salt.toList := by decide
  obtain ⟨hidentity, -⟩ := salt_decodes Threaded.resolve_configured Threaded.resolve_bare
    hversion hversion hflags hflags Iff.rfl (by decide) (by decide) hbytes
  exact ⟨Threaded.resolve_configured, Threaded.resolve_bare, by decide, hidentity⟩

end KernelCache
