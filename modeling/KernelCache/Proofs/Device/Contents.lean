/-
**Memory is an array of bytes.**

The bytes of a memory are the first ones of its block.  An owned block has room for whole words, so
it may be longer; a wrapped one belongs to the caller, who promises that it is long enough.  Ranges
are checked with numbers of sixty-four bits, against the size and not against the block.

For whoever copies into a memory and out of it, it is nevertheless an array of a fixed length: what
fits is copied, what does not is refused and changes nothing, and what the memory shows is what it
showed at first under the copies that were made, the later over the earlier.

Main definitions:

* `Bytes.overlay`, `Bytes.overlayAll` — an array under one copy, and under several;
* `MemoryUse`, `MemoryUse.perform`, `MemoryUse.onArray` — the uses of a memory, and the same on an
  array;
* `Memory.Born` — how a memory comes about, and what it shows then;
* `Memory.Used` — the uses of a memory up to some point, whatever happens to other blocks.

Main results:

* `Memory.checkRange_eq` — the check is exact, also where the end of a range is no number any more;
* `MemoryUse.block_perform` — **what one use does to the block**;
* `Memory.Used.block_eq` — the block after all uses;
* `memory_is_array` — **memory is an array of bytes**.
-/

import KernelCache.Proofs.Device.Call
import Mathlib.Algebra.Order.Floor.Div

set_option relaxedAutoImplicit false
set_option autoImplicit false

namespace KernelCache

/-! ### Arrays of bytes -/

namespace Bytes

/-- An array under bytes that are laid over it from an offset on. -/
def overlay (a : Bytes) (offset : Nat) (bytes : Bytes) : Bytes :=
  a.mapIdx fun i b => if offset ≤ i then bytes[i - offset]?.getD b else b

/-- An array under copies, each an offset and the bytes laid there, the later over the earlier. -/
def overlayAll (a : Bytes) (copies : List (Nat × Bytes)) : Bytes :=
  copies.foldl (fun a copy => overlay a copy.1 copy.2) a

variable {a bytes : Bytes} {offset : Nat}

@[simp] theorem length_overlay : (overlay a offset bytes).length = a.length := List.length_mapIdx

theorem getElem?_overlay (a : Bytes) (offset : Nat) (bytes : Bytes) (i : Nat) :
    (overlay a offset bytes)[i]? =
      a[i]?.map fun b => if offset ≤ i then bytes[i - offset]?.getD b else b :=
  List.getElem?_mapIdx

theorem overlay_nil (a : Bytes) (offset : Nat) : overlay a offset [] = a := by
  refine List.ext_getElem? fun i => ?_
  simp [getElem?_overlay]

/-- A part of an array at its start is under the same bytes as the whole. -/
theorem take_overlay (a : Bytes) (offset : Nat) (bytes : Bytes) (n : Nat) :
    (overlay a offset bytes).take n = overlay (a.take n) offset bytes := by
  refine List.ext_getElem? fun i => ?_
  simp only [getElem?_overlay, List.getElem?_take]
  split <;> rfl

/-- Bytes that fit take the place of as many others. -/
theorem overlay_eq_append (h : offset + bytes.length ≤ a.length) :
    overlay a offset bytes = a.take offset ++ bytes ++ a.drop (offset + bytes.length) := by
  refine List.ext_getElem? fun i => ?_
  rw [getElem?_overlay, List.append_assoc]
  rcases Nat.lt_or_ge i offset with hi | hi
  · -- before the copy
    rw [List.getElem?_append_left (by rw [List.length_take]; omega), List.getElem?_take_of_lt hi]
    simp [Nat.not_le_of_lt hi]
  · have htake : (a.take offset).length = offset := by rw [List.length_take]; omega
    rw [List.getElem?_append_right (by omega), htake]
    simp only [if_pos hi]
    rcases Nat.lt_or_ge (i - offset) bytes.length with hin | hout
    · -- in the copy
      have hlt : i < a.length := by omega
      rw [List.getElem?_append_left hin, List.getElem?_eq_getElem hlt, List.getElem?_eq_getElem hin]
      rfl
    · -- behind the copy
      rw [List.getElem?_append_right hout, List.getElem?_drop,
        show offset + bytes.length + (i - offset - bytes.length) = i by omega,
        List.getElem?_eq_none hout]
      exact Option.map_id'

theorem overlayAll_append (a : Bytes) (copies copies' : List (Nat × Bytes)) :
    overlayAll a (copies ++ copies') = overlayAll (overlayAll a copies) copies' :=
  List.foldl_append

@[simp] theorem length_overlayAll (a : Bytes) (copies : List (Nat × Bytes)) :
    (overlayAll a copies).length = a.length := by
  induction copies generalizing a with
  | nil => rfl
  | cons copy copies ih => exact (ih _).trans length_overlay

theorem take_overlayAll (a : Bytes) (copies : List (Nat × Bytes)) (n : Nat) :
    (overlayAll a copies).take n = overlayAll (a.take n) copies := by
  induction copies generalizing a with
  | nil => rfl
  | cons copy copies ih =>
      refine (ih _).trans ?_
      rw [take_overlay]
      rfl

end Bytes

/-! ### Uses of a memory -/

/-- A use of a memory: bytes are copied into it, or out of it, or all of them are read. -/
inductive MemoryUse where
  | copyFrom (bytes : Bytes) (offset : Nat)
  | copyTo (length offset : Nat)
  | readAll

namespace MemoryUse

/-- Where the range of a use ends, as a number without bound. -/
def stop (size : Nat) : MemoryUse → Nat
  | copyFrom bytes offset => offset + bytes.length
  | copyTo length offset => offset + length
  | readAll => size

/-- The effect of a use on a memory: the bytes that it gives, or why it is refused, and the storage
after it. -/
def perform (m : Memory) (s : Storage) : MemoryUse → Except DeviceError Bytes × Storage
  | copyFrom bytes offset =>
    match m.copyFrom s bytes offset with
    | .ok s => (.ok [], s)
    | .error err => (.error err, s)
  | copyTo length offset => (m.copyTo s length offset, s)
  | readAll => (.ok (m.contents s), s)

/-- **The same use of an array of bytes.** -/
def onArray (a : Bytes) : MemoryUse → Except DeviceError Bytes × Bytes
  | copyFrom bytes offset =>
    if offset + bytes.length ≤ a.length then (.ok [], Bytes.overlay a offset bytes)
    else (.error (.outOfBounds offset bytes.length a.length), a)
  | copyTo length offset =>
    if offset + length ≤ a.length then (.ok ((a.drop offset).take length), a)
    else (.error (.outOfBounds offset length a.length), a)
  | readAll => (.ok a, a)

end MemoryUse

/-- A use of a memory with its answer. -/
structure MemoryEvent where
  use : MemoryUse
  answer : Except DeviceError Bytes

namespace MemoryEvent

/-- The use was not refused. -/
def Succeeds (ev : MemoryEvent) : Prop := ∃ bytes, ev.answer = .ok bytes

/-- The copy into the memory, if the use was one and was not refused. -/
def copies : MemoryEvent → List (Nat × Bytes)
  | ⟨.copyFrom bytes offset, .ok _⟩ => [(offset, bytes)]
  | _ => []

end MemoryEvent

/-- The copies into a memory, of all its uses. -/
def copiesIn (log : List MemoryEvent) : List (Nat × Bytes) := log.flatMap MemoryEvent.copies

theorem copiesIn_append (log : List MemoryEvent) (ev : MemoryEvent) :
    copiesIn (log ++ [ev]) = copiesIn log ++ ev.copies := by
  simp [copiesIn]

namespace Memory

/-- **How a memory comes about**, with what it shows then.  A device allocates it: zeros, under the
bytes that are given with the request.  Or a device wraps a block of its caller's, who promises that
the block is not shorter than the memory. -/
inductive Born : Memory → Bytes → Storage → Prop
  | allocated {d d' : Device} {s s' : Storage} {size : Nat} {source : Option Bytes}
      {isMapped : Bool} {m : Memory}
      (h : d.allocate s size source isMapped = .ok (m, d', s')) :
      Born m (Bytes.overlay (List.replicate size 0) 0 (source.getD [])) s'
  | wrapped {d : Device} {s : Storage} {block size : Nat} {m : Memory}
      (h : d.wrap (some block) size = .ok m) (hsize : size < Device.sizeBound)
      (hvalid : size ≤ (s.block block).length) :
      Born m ((s.block block).take size) s

/-- **The uses of a memory up to some point**, the latest one last, and the storage then.  Between
them anything may happen to other blocks. -/
inductive Used (m : Memory) (s₀ : Storage) : List MemoryEvent → Storage → Prop
  | start : Used m s₀ [] s₀
  | use {log : List MemoryEvent} {s : Storage} (hs : Used m s₀ log s) (use : MemoryUse) :
      Used m s₀ (log ++ [⟨use, (use.perform m s).1⟩]) (use.perform m s).2
  | elsewhere {log : List MemoryEvent} {s s' : Storage} (hs : Used m s₀ log s)
      (hblock : s'.block m.block = s.block m.block) : Used m s₀ log s'

/-! ### One use -/

/-- **The check of a range is exact**: a range without an end in sixty-four bits ends behind every
memory. -/
theorem checkRange_eq {m : Memory} (hsize : m.size < Device.sizeBound) (offset length : Nat) :
    m.checkRange offset length =
      if offset + length ≤ m.size then .ok ()
      else .error (.outOfBounds offset length m.size) := by
  rw [checkRange, rangeEnd?]
  by_cases hend : offset + length < Device.sizeBound
  · rw [if_pos hend]
  · rw [if_neg hend, if_neg (by omega)]

/-- What holds of a memory and its block all the time. -/
structure Sound (m : Memory) (s : Storage) : Prop where
  size_lt : m.size < Device.sizeBound
  size_le : m.size ≤ (s.block m.block).length

end Memory

variable {m : Memory} {s s₀ : Storage}

theorem Memory.Sound.length_contents (h : m.Sound s) : (m.contents s).length = m.size := by
  rw [contents, List.length_take, Nat.min_eq_left h.size_le]

theorem Storage.block_write (s : Storage) (n offset : Nat) (bytes : Bytes) :
    (s.write n offset bytes).block n =
      (s.block n).take offset ++ bytes ++ (s.block n).drop (offset + bytes.length) := by
  simp [write, block]

/-- Bytes that fit into a block are laid over it, and other blocks stay. -/
theorem Storage.get?_write {n offset : Nat} {bytes : Bytes}
    (h : offset + bytes.length ≤ (s.block n).length) (k : Nat) :
    (s.write n offset bytes).blocks.get? k =
      if n = k then some (Bytes.overlay (s.block n) offset bytes) else s.blocks.get? k := by
  rw [Bytes.overlay_eq_append h]
  exact SortedMap.get?_insert s.blocks n k _

namespace Memory

/-- What is copied into a memory is written to its block if it fits. -/
theorem copyFrom_eq (h : m.Sound s) (bytes : Bytes) (offset : Nat) :
    m.copyFrom s bytes offset =
      if offset + bytes.length ≤ m.size then .ok (s.write m.block offset bytes)
      else .error (.outOfBounds offset bytes.length m.size) := by
  rw [copyFrom, checkRange_eq h.size_lt]
  split <;> rfl

/-- What is copied out of a memory is read from its block if the range fits. -/
theorem copyTo_eq (h : m.Sound s) (length offset : Nat) :
    m.copyTo s length offset =
      if offset + length ≤ m.size then .ok (((s.block m.block).drop offset).take length)
      else .error (.outOfBounds offset length m.size) := by
  rw [copyTo, checkRange_eq h.size_lt]
  split <;> rfl

end Memory

namespace MemoryUse

theorem perform_copyFrom (h : m.Sound s) (bytes : Bytes) (offset : Nat) :
    (copyFrom bytes offset).perform m s =
      if offset + bytes.length ≤ m.size then (.ok [], s.write m.block offset bytes)
      else (.error (.outOfBounds offset bytes.length m.size), s) := by
  rw [perform, Memory.copyFrom_eq h]
  by_cases hfits : offset + bytes.length ≤ m.size
  · rw [if_pos hfits, if_pos hfits]
  · rw [if_neg hfits, if_neg hfits]

/-- **What one use does to the block**: it is under the copy that was made, if any. -/
theorem block_perform (h : m.Sound s) (use : MemoryUse) :
    (use.perform m s).2.block m.block =
      Bytes.overlayAll (s.block m.block) (MemoryEvent.copies ⟨use, (use.perform m s).1⟩) := by
  cases use with
  | copyFrom bytes offset =>
      rw [perform_copyFrom h]
      split
      · next hfits =>
          have hblock := Nat.le_trans hfits h.size_le
          rw [Storage.block_write, ← Bytes.overlay_eq_append hblock]
          rfl
      · rfl
  | copyTo length offset => rfl
  | readAll => rfl

/-- **A use succeeds exactly if its range ends within the memory.** -/
theorem succeeds_iff (h : m.Sound s) (use : MemoryUse) :
    MemoryEvent.Succeeds ⟨use, (use.perform m s).1⟩ ↔ use.stop m.size ≤ m.size := by
  rw [MemoryEvent.Succeeds]
  cases use with
  | copyFrom bytes offset =>
      rw [perform_copyFrom h, stop]
      split <;> simp [*]
  | copyTo length offset =>
      rw [perform, Memory.copyTo_eq h, stop]
      split <;> simp [*]
  | readAll => simp [perform, stop]

/-- A use that is refused changes nothing. -/
theorem perform_of_error {use : MemoryUse} {err : DeviceError}
    (herr : (use.perform m s).1 = .error err) : (use.perform m s).2 = s := by
  cases use with
  | copyFrom bytes offset =>
      rw [perform] at herr ⊢
      split
      · next hok => rw [hok] at herr; cases herr
      · rfl
  | copyTo length offset => rfl
  | readAll => rfl

/-- **A use of a memory is the same use of the array that the memory shows.** -/
theorem perform_onArray (h : m.Sound s) (use : MemoryUse) :
    Prod.map id m.contents (use.perform m s) = use.onArray (m.contents s) := by
  have hlength := h.length_contents
  cases use with
  | copyFrom bytes offset =>
      rw [perform_copyFrom h, onArray, hlength]
      split
      · next hfits =>
          have hblock := Nat.le_trans hfits h.size_le
          rw [Prod.map, Memory.contents, Memory.contents, Storage.block_write,
            ← Bytes.overlay_eq_append hblock, Bytes.take_overlay]
          rfl
      · rfl
  | copyTo length offset =>
      rw [perform, Memory.copyTo_eq h, onArray, hlength]
      split
      · next hfits =>
          -- The words of the block beyond the size do not get into the range.
          have hdrop : length ≤ m.size - offset := by omega
          rw [Prod.map, Memory.contents, List.drop_take, List.take_take, Nat.min_eq_left hdrop]
          rfl
      · rfl
  | readAll => rfl

end MemoryUse

/-! ### From the first use to the latest -/

variable {initial : Bytes} {log : List MemoryEvent}

namespace Memory

theorem size_le_wordBytes (size : Nat) : size ≤ wordBytes size := by
  rw [wordBytes]
  omega

end Memory

namespace Device

/-- **What an allocation does to the storage**: there is one more block, with the next number.  It
is zeros, in whole words, under the bytes that were given with the request. -/
theorem allocate_storage {d d' : Device} {s' : Storage} {size : Nat} {source : Option Bytes}
    {isMapped : Bool} (h : d.allocate s size source isMapped = .ok (m, d', s')) :
    m.block = s.next ∧ s'.next = s.next + 1 ∧ ∀ n, s'.blocks.get? n =
      if s.next = n then
        some (Bytes.overlay (List.replicate (Memory.wordBytes size) 0) 0 (source.getD []))
      else s.blocks.get? n := by
  obtain ⟨hsize, ⟨zeroed, howned, hcopy⟩, -⟩ := allocate_steps h
  obtain ⟨rfl, hnext, hget⟩ := Memory.owned_ok howned
  generalize hzeros : List.replicate (Memory.wordBytes size) (0 : UInt8) = zeros at hget ⊢
  cases source with
  | none =>
      cases hcopy
      rw [Option.getD_none, Bytes.overlay_nil]
      exact ⟨rfl, hnext, hget⟩
  | some bytes =>
      have hlength : size ≤ zeros.length := by
        rw [← hzeros, List.length_replicate]
        exact Memory.size_le_wordBytes size
      have hblock : zeroed.block s.next = zeros := by
        rw [Storage.block, hget, if_pos rfl, Option.getD_some]
      generalize hm : (⟨d.id, size, s.next, false, isMapped⟩ : Memory) = m at hcopy
      have hsound : m.Sound zeroed := by
        subst hm
        exact ⟨Nat.lt_of_le_of_lt (Nat.le_add_left size d.allocated) hsize, hblock ▸ hlength⟩
      simp only [Memory.copyFrom_eq hsound] at hcopy
      split at hcopy
      · next hfits =>
          have hin := Nat.le_trans hfits hsound.size_le
          cases hcopy
          subst hm
          refine ⟨rfl, hnext, fun n => ?_⟩
          rw [Storage.get?_write hin, hget, hblock]
          split <;> rfl
      · cases hcopy

/-- The block of a new memory. -/
theorem block_allocate {d d' : Device} {s' : Storage} {size : Nat} {source : Option Bytes}
    {isMapped : Bool} (h : d.allocate s size source isMapped = .ok (m, d', s')) :
    s'.block m.block =
      Bytes.overlay (List.replicate (Memory.wordBytes size) 0) 0 (source.getD []) := by
  obtain ⟨hm, -, hget⟩ := allocate_storage h
  rw [Storage.block, hm, hget, if_pos rfl, Option.getD_some]

end Device

namespace Memory

theorem Born.sound (h : m.Born initial s₀) : m.Sound s₀ := by
  cases h with
  | @allocated d _ _ _ size _ _ _ h =>
      obtain ⟨hsize, ⟨block, rfl⟩, -⟩ := Device.allocate_ok h
      refine ⟨Nat.lt_of_le_of_lt (Nat.le_add_left size d.allocated) hsize, ?_⟩
      rw [Device.block_allocate h, Bytes.length_overlay, List.length_replicate]
      exact size_le_wordBytes size
  | wrapped h hsize hvalid =>
      obtain ⟨_, ⟨⟩, rfl⟩ := Device.wrap_ok h
      exact ⟨hsize, hvalid⟩

/-- What a memory shows at first. -/
theorem Born.contents_eq (h : m.Born initial s₀) : m.contents s₀ = initial := by
  cases h with
  | allocated h =>
      obtain ⟨-, ⟨block, rfl⟩, -⟩ := Device.allocate_ok h
      rw [contents, Device.block_allocate h, Bytes.take_overlay, List.take_replicate,
        Nat.min_eq_left (size_le_wordBytes _)]
  | wrapped h =>
      obtain ⟨_, ⟨⟩, rfl⟩ := Device.wrap_ok h
      rfl

/-- An owned block has as many bytes as the words that hold its memory. -/
theorem Born.length_block (h : m.Born initial s₀) (howned : m.isWrapper = false) :
    (s₀.block m.block).length = 8 * (m.size ⌈/⌉ 8) := by
  cases h with
  | allocated h =>
      obtain ⟨-, ⟨block, rfl⟩, -⟩ := Device.allocate_ok h
      rw [Device.block_allocate h, Bytes.length_overlay, List.length_replicate]
      rfl
  | wrapped h =>
      obtain ⟨_, ⟨⟩, rfl⟩ := Device.wrap_ok h
      cases howned

/-- **The block after all uses** is what it was, under the copies that were made. -/
theorem Used.block_eq (h : m.Used s₀ log s) (hm : m.Sound s₀) :
    s.block m.block = Bytes.overlayAll (s₀.block m.block) (copiesIn log) := by
  induction h with
  | start => rfl
  | @use log s hs use ih =>
      have hsound : m.Sound s := ⟨hm.size_lt, by rw [ih, Bytes.length_overlayAll]; exact hm.size_le⟩
      rw [MemoryUse.block_perform hsound, ih, copiesIn_append, Bytes.overlayAll_append]
  | elsewhere hs hblock ih => rw [hblock, ih]

theorem Used.sound (h : m.Used s₀ log s) (hm : m.Sound s₀) : m.Sound s where
  size_lt := hm.size_lt
  size_le := by
    rw [h.block_eq hm, Bytes.length_overlayAll]
    exact hm.size_le

/-- Of all uses exactly those have succeeded whose range ends within the memory. -/
theorem Used.succeeds_iff (h : m.Used s₀ log s) (hm : m.Sound s₀) :
    ∀ ev ∈ log, ev.Succeeds ↔ ev.use.stop m.size ≤ m.size := by
  induction h with
  | start => simp
  | @use log s hs use ih =>
      rw [List.forall_mem_append, List.forall_mem_singleton]
      exact ⟨ih, MemoryUse.succeeds_iff (hs.sound hm) use⟩
  | elsewhere hs hblock ih => exact ih

end Memory

/-- **Memory is an array of bytes.**

After any uses of a memory, each of which has succeeded exactly if its range ends within the memory
as a number without bound, the memory shows what it showed at first under the copies that have
succeeded, and as many bytes as ever.  Every further use is what it would be on that array, and if
it is refused nothing changes.  The block of an owned memory has room for whole words, and no use
that succeeds gets out of it.  A wrapped block is as it was under the copies that have succeeded,
and stays so when the memory is given back, to whatever device. -/
theorem memory_is_array (hborn : m.Born initial s₀) (hused : m.Used s₀ log s) :
    (∀ ev ∈ log, ev.Succeeds ↔ ev.use.stop m.size ≤ m.size) ∧
    m.contents s = Bytes.overlayAll initial (copiesIn log) ∧
    (m.contents s).length = m.size ∧
    (∀ use : MemoryUse,
      (MemoryEvent.Succeeds ⟨use, (use.perform m s).1⟩ ↔ use.stop m.size ≤ m.size) ∧
      Prod.map id m.contents (use.perform m s) = use.onArray (m.contents s) ∧
      ∀ err, (use.perform m s).1 = .error err → (use.perform m s).2 = s) ∧
    (m.isWrapper = false → (s.block m.block).length = 8 * (m.size ⌈/⌉ 8) ∧
      ∀ ev ∈ log, ev.Succeeds → ev.use.stop m.size ≤ (s.block m.block).length) ∧
    (m.isWrapper = true →
      s.block m.block = Bytes.overlayAll (s₀.block m.block) (copiesIn log) ∧
      ∀ d : Device, (d.freeMemory s m).2 = s) := by
  have hstart := hborn.sound
  have hsound := hused.sound hstart
  have hblock := hused.block_eq hstart
  have hsucceeds := hused.succeeds_iff hstart
  refine ⟨hsucceeds, ?_, hsound.length_contents, fun use => ⟨use.succeeds_iff hsound,
    use.perform_onArray hsound, fun err => MemoryUse.perform_of_error⟩, fun howned => ⟨?_, ?_⟩,
    fun hwrapper => ⟨hblock, fun d => ?_⟩⟩
  · rw [← hborn.contents_eq, Memory.contents, hblock, Bytes.take_overlayAll]
    rfl
  · rw [hblock, Bytes.length_overlayAll, hborn.length_block howned]
  · intro ev hev hok
    exact Nat.le_trans ((hsucceeds ev hev).1 hok) hsound.size_le
  · rw [Device.freeMemory, Memory.drop, if_pos hwrapper]

/-- Thirteen bytes in two words: one copy fits, and one would end where sixty-four bits do. -/
theorem thirteen_bytes_kept :
    let m : Memory := ⟨0, 13, 0, false, true⟩
    let last := Device.sizeBound - 1
    let log : List MemoryEvent :=
      [⟨.copyFrom [0, 97, 98, 99, 0] 4, .ok []⟩,
        ⟨.copyFrom [9] last, .error (.outOfBounds last 1 13)⟩,
        ⟨.copyTo 6 3, .ok [0, 0, 97, 98, 99, 0]⟩]
    ∃ s₀ s, m.Born (Bytes.overlay (List.replicate 13 0) 0 [1, 2, 3]) s₀ ∧ m.Used s₀ log s ∧
      m.contents s = [1, 2, 3, 0, 0, 97, 98, 99, 0, 0, 0, 0, 0] ∧ (s.block 0).length = 16 := by
  intro m last log
  let zeroed : Storage := (Storage.empty.add (List.replicate 16 0)).2
  let s₀ : Storage := zeroed.write 0 0 [1, 2, 3]
  let d : Device := .open 0 ⟨.serial, "g++", "-g", "", "", none⟩
  have hallocate : ∃ d', d.allocate .empty 13 (some [1, 2, 3]) true = .ok (m, d', s₀) := ⟨_, rfl⟩
  have hborn : m.Born (Bytes.overlay (List.replicate 13 0) 0 [1, 2, 3]) s₀ :=
    hallocate.elim fun _ h => .allocated h
  have hused : m.Used s₀ log (s₀.write 0 4 [0, 97, 98, 99, 0]) :=
    ((Memory.Used.start.use (.copyFrom [0, 97, 98, 99, 0] 4)).use (.copyFrom [9] last)).use
      (.copyTo 6 3)
  have h := memory_is_array hborn hused
  have hwords : 8 * (13 ⌈/⌉ 8) = 16 := by rw [Nat.ceilDiv_eq_add_pred_div]
  exact ⟨s₀, _, hborn, hused, h.2.1, (h.2.2.2.2.1 rfl).1.trans hwords⟩

end KernelCache
