/-
**The order of the calls that collect flags.**

What flags have become tells little of the calls that made them: the last value that was given to
each name, and the texts of the headers one after the other.  Calls may change places as long as
headers stay in order and the calls for one name do; the flags are then the same, and so is
everything that is made of them, the key of a build with it.

Main definitions:

* `Flags.valuesOf`, `Flags.lastValue`, `Flags.headersOf` — the values that calls give to a name, the
  last of them, and the texts of the headers;
* `Flags.Reordered` — calls in another order.

Main results:

* `Flags.get?_collect`, `Flags.header_collect` — **what flags have become**;
* `Flags.collect_eq` — it does not depend on anything else;
* `Flags.prelude_collect` — what is written of collected flags;
* `Flags.collect_order_free` — **flags are independent of the order of the calls**.
-/

import KernelCache.Build.Pipeline
import KernelCache.Proofs.Flags
import KernelCache.Proofs.SortedMap
import KernelCache.Proofs.Text.Utf8
import Mathlib.Data.List.Induction

set_option relaxedAutoImplicit false
set_option autoImplicit false

namespace KernelCache

namespace Flags

/-! ### What counts of the calls -/

/-- The value that a call gives to a name, if it does. -/
def Call.value? (name : String) : Call → Option String
  | .define n value => if n = name then some value else Option.none
  | .header _ => Option.none

/-- The text that a call adds to the header, if it does. -/
def Call.text? : Call → Option String
  | .define .. => Option.none
  | .header text => some text

/-- The values that calls give to a name, the latest one last. -/
def valuesOf (name : String) (calls : List Call) : List String :=
  calls.filterMap (Call.value? name)

/-- The last value that calls give to a name. -/
def lastValue (name : String) (calls : List Call) : Option String := (valuesOf name calls).getLast?

/-- The texts that calls add to the header. -/
def headersOf (calls : List Call) : List String := calls.filterMap Call.text?

/-- A text with a line break at its end, which is added if there is none. -/
def ended (text : String) : String :=
  if text.toList.getLast? = some '\n' then text else text ++ "\n"

/-- **Calls in another order**, with the headers in the same order as before, and for each name the
calls that define it. -/
structure Reordered (calls calls' : List Call) : Prop where
  headers : headersOf calls = headersOf calls'
  values : ∀ name, valuesOf name calls = valuesOf name calls'

/-! ### What flags have become -/

theorem collect_append (calls : List Call) (call : Call) :
    collect (calls ++ [call]) = call.apply (collect calls) := by
  simp [collect]

theorem lastValue_append (name : String) (calls : List Call) (call : Call) :
    lastValue name (calls ++ [call]) = (call.value? name).or (lastValue name calls) := by
  rw [lastValue, valuesOf, List.filterMap_append]
  cases hvalue : call.value? name <;> simp [hvalue, lastValue, valuesOf]

theorem headersOf_append (calls : List Call) (call : Call) :
    headersOf (calls ++ [call]) = headersOf calls ++ call.text?.toList := by
  rw [headersOf, List.filterMap_append]
  cases htext : call.text? <;> simp [htext, headersOf]

theorem ofList_withLineBreak (text : String) :
    String.ofList (withLineBreak text.toList) = ended text := by
  rw [withLineBreak, ended]
  split
  · exact String.ofList_toList
  · rw [← String.toList_inj, String.toList_append, String.toList_ofList]
    rfl

theorem ended_ne_empty (text : String) : ended text ≠ "" := by
  rw [ended]
  split
  · next hlast =>
      rintro rfl
      cases hlast
  · simp

/-- **What is defined is what was last given to each name.** -/
theorem get?_collect (calls : List Call) (name : String) :
    (collect calls).defines.get? name = lastValue name calls := by
  induction calls using List.reverseRecOn with
  | nil => rfl
  | append_singleton calls call ih =>
      rw [collect_append, lastValue_append]
      cases call with
      | define n value =>
          rw [Call.apply, define, SortedMap.get?_insert, Call.value?, ih]
          split <;> rfl
      | header text => exact ih

/-- **The header is the texts that were added, in whole lines.** -/
theorem header_collect (calls : List Call) :
    (collect calls).header = String.join ((headersOf calls).map ended) := by
  induction calls using List.reverseRecOn with
  | nil => rfl
  | append_singleton calls call ih =>
      rw [collect_append, headersOf_append]
      cases call with
      | define n value =>
          rw [Call.text?, Option.toList_none, List.append_nil]
          exact ih
      | header text =>
          rw [Call.apply, addHeader, ih, ofList_withLineBreak]
          simp [Call.text?]

/-- Flags depend on the last values and on the texts of the headers only. -/
theorem collect_eq {calls calls' : List Call}
    (hvalues : ∀ name, lastValue name calls = lastValue name calls')
    (hheaders : headersOf calls = headersOf calls') : collect calls = collect calls' := by
  have hdefines : (collect calls).defines = (collect calls').defines := by
    refine SortedMap.ext_get? fun name => ?_
    rw [get?_collect, get?_collect, hvalues]
  have hheader : (collect calls).header = (collect calls').header := by
    rw [header_collect, header_collect, hheaders]
  cases hf : collect calls
  cases hf' : collect calls'
  simp_all

theorem Reordered.collect_eq {calls calls' : List Call} (h : Reordered calls calls') :
    collect calls = collect calls' :=
  Flags.collect_eq (fun name => by rw [lastValue, h.values, lastValue]) h.headers

/-! ### What is written of them -/

/-- Whole lines end with a line break, if there are any. -/
theorem exists_append_newline {s : String} (hlines : Text.Lines s.toList) (hs : s ≠ "") :
    ∃ text, s = text ++ "\n" := by
  rcases List.eq_nil_or_concat s.toList with hnil | ⟨init, last, hlast⟩
  · exact absurd (String.toList_inj.1 hnil) hs
  · obtain rfl : last = '\n' := hlines last (by simp [hlast])
    refine ⟨String.ofList init, ?_⟩
    rw [← String.toList_inj, hlast, String.toList_append, String.toList_ofList,
      List.concat_eq_append]
    rfl

theorem prelude_eq_empty_iff (f : Flags) :
    f.prelude = "" ↔ f.defines.entries = [] ∧ f.header = "" := by
  rw [prelude, ← String.toList_inj, String.toList_append]
  cases f.defines.entries with
  | nil => simp
  | cons e entries => simp [defineLine]

/-- Nothing is written of collected flags exactly if there were no calls. -/
theorem prelude_collect_eq_empty_iff (calls : List Call) :
    (collect calls).prelude = "" ↔ calls = [] := by
  rw [prelude_eq_empty_iff]
  induction calls using List.reverseRecOn with
  | nil => exact iff_of_true ⟨rfl, rfl⟩ rfl
  | append_singleton calls call =>
      refine iff_of_false (fun h => ?_) (by simp)
      cases call with
      | define name value =>
          have hget : (collect (calls ++ [.define name value])).defines.get? name = some value := by
            rw [get?_collect, lastValue_append, Call.value?, if_pos rfl, Option.some_or]
          have hmem := SortedMap.mem_entries_iff.2 hget
          rw [h.1] at hmem
          cases hmem
      | header text =>
          have hheader := h.2
          rw [header_collect, headersOf_append, Call.text?, Option.toList_some, List.map_append,
            List.map_singleton, String.join_append, String.append_eq_empty_iff, String.join_cons,
            String.append_eq_empty_iff] at hheader
          exact ended_ne_empty text hheader.2.1

/-- **What is written of collected flags**: the lines of the definitions, by the bytes of the names,
and then the texts of the headers. -/
theorem prelude_collect (calls : List Call) :
    ∃ defs : List (String × String),
      defs.Pairwise (fun a b => Utf8.encode a.1 < Utf8.encode b.1) ∧
      (∀ name value, (name, value) ∈ defs ↔ lastValue name calls = some value) ∧
      (collect calls).prelude = String.join (defs.map fun d => defineLine d.1 d.2) ++
        String.join ((headersOf calls).map ended) := by
  refine ⟨(collect calls).defines.entries, ?_, fun name value => ?_, ?_⟩
  · exact (collect calls).defines.ascending.imp Utf8.encode_lt_iff.2
  · rw [SortedMap.mem_entries_iff, get?_collect]
  · rw [prelude, header_collect]

/-- **Flags are independent of the order of the calls.**

Calls that give the same last value to each name, and the same texts of headers in the same order,
make the same flags, of which the same is written; so do calls in another order, with the headers
and the calls for one name in the same order as before, and the key of a build is the same.  What is
written is a line for each name with its last value, in the order of the bytes of the names, and
then the texts of the headers in whole lines.  Nothing is written only if there were no calls, and
otherwise whole lines. -/
theorem collect_order_free (calls : List Call) :
    (∀ calls', (∀ name, lastValue name calls = lastValue name calls') →
      headersOf calls = headersOf calls' →
      collect calls = collect calls' ∧ (collect calls).prelude = (collect calls').prelude ∧
        (collect calls).salt = (collect calls').salt) ∧
    (∀ calls', Reordered calls calls' → collect calls = collect calls' ∧
      ∀ (p : Pipeline) (i : Identity) (source : Bytes),
        (p.saltFor i (collect calls) source).digest =
          (p.saltFor i (collect calls') source).digest) ∧
    (collect calls).salt = (collect calls).prelude ∧
    (∃ defs : List (String × String),
      defs.Pairwise (fun a b => Utf8.encode a.1 < Utf8.encode b.1) ∧
      (∀ name value, (name, value) ∈ defs ↔ lastValue name calls = some value) ∧
      (collect calls).prelude = String.join (defs.map fun d => defineLine d.1 d.2) ++
        String.join ((headersOf calls).map ended)) ∧
    ((collect calls).prelude = "" ↔ calls = []) ∧
    (calls ≠ [] → ∃ text, (collect calls).prelude = text ++ "\n") := by
  refine ⟨fun calls' hvalues hheaders => ?_, fun calls' h => ?_, rfl, prelude_collect calls,
    prelude_collect_eq_empty_iff calls, fun hcalls => ?_⟩
  · rw [collect_eq hvalues hheaders]
    exact ⟨rfl, rfl, rfl⟩
  · rw [h.collect_eq]
    exact ⟨rfl, fun _ _ _ => rfl⟩
  · exact exists_append_newline (lines_prelude_collect calls)
      fun h => hcalls ((prelude_collect_eq_empty_iff calls).1 h)

/-- A header may move between the values of a name, but the values do not change places. -/
theorem moved_header_agrees :
    let header : Call := .header "typedef float real;"
    let calls : List Call := [header, .define "TILE" "16", .define "DIM" "", .define "TILE" "8"]
    let calls' : List Call := [.define "DIM" "", .define "TILE" "16", header, .define "TILE" "8"]
    Reordered calls calls' ∧ collect calls = collect calls' := by
  intro header calls calls'
  have h : Reordered calls calls' := by
    refine ⟨rfl, fun name => ?_⟩
    by_cases htile : "TILE" = name
    · subst htile
      rfl
    · simp [calls, calls', header, valuesOf, List.filterMap_cons, Call.value?, htile]
  exact ⟨h, ((collect_order_free calls).2.1 calls' h).1⟩

example : (collect [.header "typedef float real;", .define "TILE" "16", .define "DIM" ""]).prelude =
    "#define DIM\n#define TILE 16\ntypedef float real;\n" := by cbv

end Flags

end KernelCache
