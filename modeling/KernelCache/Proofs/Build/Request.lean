/-
**What is asked of a cache.**

A request is what one build is for, and with what settings.  Its ingredients, together with the
bytes of its file, are all that the key of the build is made of.

Main definitions:

* `Request`, `Request.pipeline`, `Request.program` — requests, and what serves them;
* `Ingredients`, `Request.ingredients` — the components of a key;
* `Ingredients.Gives` — the translation that the components stand for;
* `Request.Translates` — the translator's answer to a request.

Main results:

* `Request.key_eq` — **the key of a build is the digest of its components**;
* `Ingredients.Gives.unique` — the components stand for one translation at most;
* `Request.Translates.gives`, `Request.translates_of_gives` — the translator's answer is that
  translation, for a file in C that has the function.
-/

import KernelCache.Proofs.Build.Layout
import KernelCache.Proofs.Kernel.Translation

set_option relaxedAutoImplicit false
set_option autoImplicit false

namespace KernelCache

/-- What a builder builds, and with what settings. -/
structure Request where
  version : String
  timeout : Option Nat
  patience : Nat
  view : DeviceView
  job : Job

/-- What a build is before it has begun, and what is left of it later. -/
abbrev BuildProgram := Program BuildAction BuildAction.Reply (Except BuildError Kernel)

/-- The components of a key. -/
structure Ingredients where
  backend : Backend
  flags : String
  version : String
  script : String
  compiler : String
  compilerFlags : String
  hint : String
  source : Bytes
  deriving DecidableEq

namespace Ingredients

/-- The digest of the components. -/
def digest (x : Ingredients) : Digest :=
  (Salt.empty
    |>.component (Utf8.encode x.backend.tag)
    |>.optional (Utf8.encode x.flags)
    |>.component (Utf8.encode x.version)
    |>.optional (Utf8.encode x.script)
    |>.component (Utf8.encode x.compiler)
    |>.component (Utf8.encode x.compilerFlags)
    |>.optional (Utf8.encode x.hint)
    |>.component x.source).digest

/-- The identity of the devices that have these components. -/
def identity (x : Ingredients) : Identity :=
  ⟨x.backend, x.compiler, x.compilerFlags, x.script, x.hint⟩

/-- The translation of the source as C, for the execution model and the flags. -/
def Gives (x : Ingredients) (t : Translation) : Prop :=
  ∃ text flags, Utf8.toString? x.source = some text ∧ Flags.salt flags = x.flags ∧
    Translation.ofText x.backend flags text = .ok t

theorem Gives.unique {x : Ingredients} {t t' : Translation} (h : x.Gives t) (h' : x.Gives t') :
    t = t' := by
  obtain ⟨text, flags, htext, hflags, ht⟩ := h
  obtain ⟨text', flags', htext', hflags', ht'⟩ := h'
  obtain rfl : text = text' := Option.some.inj (htext.symm.trans htext')
  have hprelude : flags.prelude = flags'.prelude := hflags.trans hflags'.symm
  rw [Translation.ofText_congr hprelude, ht'] at ht
  exact (Except.ok.inj ht).symm

end Ingredients

namespace Request

variable (r : Request)

/-- The pipeline that serves a request. -/
def pipeline (S : Site) : Pipeline :=
  Pipeline.atRoot S.root r.version S.extension r.timeout r.patience

/-- The build that serves a request. -/
def program (S : Site) : BuildProgram := ((r.pipeline S).build r.view r.job).run

/-- The components of the key, when the file of the request holds a source. -/
def ingredients (source : Bytes) : Ingredients where
  backend := r.view.identity.backend
  flags := r.job.flags.salt
  version := r.version
  script := r.view.identity.environmentScript
  compiler := r.view.identity.compiler
  compilerFlags := r.view.identity.compilerFlags
  hint := r.view.identity.vendorHint
  source := source

/-- **The key of a build is the digest of its components.** -/
theorem key_eq (S : Site) (source : Bytes) :
    (r.pipeline S).key r.view r.job source = (r.ingredients source).digest := rfl

/-- The digest of the entry of a request for a source. -/
abbrev entry (source : Bytes) : Digest := (r.ingredients source).digest

/-- Whether a translation is the translator's answer to a request for a source. -/
def Translates (source : Bytes) (t : Translation) : Prop :=
  ∃ text, Utf8.toString? source = some text ∧
    translate (Pipeline.request r.view.identity r.job text) = .ok t

variable {r} {source : Bytes} {t t' : Translation}

theorem Translates.unique (h : r.Translates source t) (h' : r.Translates source t') : t = t' := by
  obtain ⟨text, htext, hok⟩ := h
  obtain ⟨text', htext', hok'⟩ := h'
  obtain rfl := Option.some.inj (htext.symm.trans htext')
  exact Except.ok.inj (hok.symm.trans hok')

/-- Only files in C are translated. -/
theorem Translates.language (h : r.Translates source t) : Language.ofPath r.job.path = .c := by
  obtain ⟨text, -, hok⟩ := h
  exact (translate_eq_ok_iff.1 hok).1

/-- If the translator answers, it gives the translation of the components. -/
theorem Translates.gives (h : r.Translates source t) : (r.ingredients source).Gives t := by
  obtain ⟨text, htext, hok⟩ := h
  exact ⟨text, r.job.flags, htext, rfl, (translate_eq_ok_iff.1 hok).2.1⟩

/-- The translator answers for a file in C if the function that is asked for is in the translation
of the components. -/
theorem translates_of_gives (hc : Language.ofPath r.job.path = .c)
    (ht : (r.ingredients source).Gives t) {l : Launch}
    (hl : t.kernels.get? r.job.function = some l) : r.Translates source t := by
  obtain ⟨text, flags, htext, hflags, hof⟩ := ht
  have hprelude : r.job.flags.prelude = flags.prelude := hflags.symm
  refine ⟨text, htext, translate_eq_ok_iff.2 ⟨hc, ?_, ?_⟩⟩
  · exact (Translation.ofText_congr hprelude text).trans hof
  · exact Option.isSome_iff_exists.2 ⟨l, hl⟩

end Request

end KernelCache
