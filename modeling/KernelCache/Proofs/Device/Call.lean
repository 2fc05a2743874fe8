/-
**What devices are asked to do.**

A device serves one call after another.  Between two calls the files and the memory of the machine
may have become anything, so each call finds a machine of its own.  What a call can do to its device
is said once, as a relation between the device before it, the call with its answer, and the device
after it; what holds of all histories is proved by cases on that relation.

Main definitions:

* `DeviceCall`, `DeviceCall.Answer` — the calls, and the types of their answers;
* `DeviceCall.perform` — the effect of a call, by the operations of devices;
* `DeviceEvent`, `Device.Served` — a call with its answer, and the calls that a device has served;
* `Device.Does` — **what a call can do to its device**.

Main results:

* `DeviceCall.does` — a call does nothing else;
* `DeviceCall.device_of_error` — a call that fails leaves the device as it is.
-/

import KernelCache.Device.Engine
import KernelCache.Proofs.Except
import KernelCache.Proofs.SortedMap

set_option relaxedAutoImplicit false
set_option autoImplicit false

namespace KernelCache

/-! ### Calls -/

/-- What a device is asked to do.  Memory with a host mapping is allocated like other memory. -/
inductive DeviceCall where
  | compile (source output : Path)
  | compileAndLoad (source output : Path) (l : Launch)
  | load (binary : Path) (l : Launch)
  | freeKernel (k : Kernel)
  | allocate (size : Nat) (source : Option Bytes) (isMapped : Bool)
  | wrap (block : Option Nat) (size : Nat)
  | freeMemory (m : Memory)
  | createStream
  | freeStream (s : Stream)
  | currentStream
  | setStream (s : Stream)
  | tagStream (time : Nat)
  | waitFor (tag : StreamTag)
  | timeBetween (first second : StreamTag)
  | flush
  | finish
  | free

/-- What devices find on the machine: its files, and the blocks of its memory. -/
structure DeviceHost where
  files : FileSystem
  storage : Storage

/-- The end of a call: the answer, and the device and the machine after it. -/
structure DeviceOutcome (α : Type) where
  answer : Except DeviceError α
  device : Device
  host : DeviceHost

/-- The end of an operation that gives a value and a new state of its device, or neither. -/
def DeviceOutcome.of {α : Type} (d : Device) (h : DeviceHost) :
    Except DeviceError (α × Device) → DeviceOutcome α
  | .ok (a, d) => ⟨.ok a, d, h⟩
  | .error err => ⟨.error err, d, h⟩

namespace DeviceCall

/-- The type of what a call returns. -/
@[reducible]
def Answer : DeviceCall → Type
  | compile .. | freeKernel _ | freeMemory _ | freeStream _ | setStream _ | waitFor _ | flush
  | finish | free => Unit
  | compileAndLoad .. | load .. => Loaded
  | allocate .. | wrap .. => Memory
  | createStream | currentStream => Stream
  | tagStream _ => StreamTag
  | timeBetween .. => Nat

/-- The effect of a call on a device and on the machine. -/
def perform (e : Engine) (d : Device) (h : DeviceHost) : (c : DeviceCall) → DeviceOutcome c.Answer
  | compile source output =>
    let (answer, files) := e.compile d source output h.files
    ⟨answer, d, { h with files := files }⟩
  | compileAndLoad source output l =>
    let (answer, files) := e.compileAndLoad d source output l h.files
    ⟨answer, d, { h with files := files }⟩
  | load binary l => ⟨e.load d binary l h.files, d, h⟩
  | freeKernel k => ⟨d.freeKernel k, d, h⟩
  | allocate size source isMapped =>
    match d.allocate h.storage size source isMapped with
    | .ok (m, d, storage) => ⟨.ok m, d, { h with storage := storage }⟩
    | .error err => ⟨.error err, d, h⟩
  | wrap block size => ⟨d.wrap block size, d, h⟩
  | freeMemory m =>
    let (account, storage) := d.freeMemory h.storage m
    .of d { h with storage := storage } (account.map ((), ·))
  | createStream => .of d h d.createStream
  | freeStream s => .of d h ((d.freeStream s).map ((), ·))
  | currentStream => ⟨d.currentStream, d, h⟩
  | setStream s => .of d h ((d.setStream s).map ((), ·))
  | tagStream time => ⟨d.tagStream time, d, h⟩
  | waitFor tag => ⟨d.waitFor tag, d, h⟩
  | timeBetween first second => ⟨d.timeBetween first second, d, h⟩
  | flush => ⟨d.flush, d, h⟩
  | finish => ⟨d.finish, d, h⟩
  | free => ⟨.ok (), d.free, h⟩

/-- The calls that have no effect on their device even if they succeed, streams and memory being
left aside. -/
def Looks : DeviceCall → Prop
  | compile .. | compileAndLoad .. | load .. | freeKernel _ | currentStream | tagStream _
  | waitFor _ | timeBetween .. | flush | finish => True
  | _ => False

end DeviceCall

/-- A call with its answer. -/
structure DeviceEvent where
  call : DeviceCall
  answer : Except DeviceError call.Answer

/-! ### What a call can do -/

/-- **What a call can do to its device.** -/
inductive Device.Does (d : Device) : DeviceEvent → Device → Prop
  | refuses (c : DeviceCall) (err : DeviceError) : Does d ⟨c, .error err⟩ d
  | looks {c : DeviceCall} (hc : c.Looks) (a : c.Answer) : Does d ⟨c, .ok a⟩ d
  | allocates {size : Nat} (source : Option Bytes) (isMapped : Bool) (block : Nat)
      (hsize : d.allocated + size < Device.sizeBound) :
      Does d ⟨.allocate size source isMapped, .ok ⟨d.id, size, block, false, isMapped⟩⟩
        { d with allocated := d.allocated + size }
  | wraps (block size : Nat) :
      Does d ⟨.wrap (some block) size, .ok ⟨d.id, size, block, true, false⟩⟩ d
  | takesBack {m : Memory} (hm : m.device = d.id) :
      Does d ⟨.freeMemory m, .ok ()⟩
        (if m.isWrapper then d else { d with allocated := d.allocated - m.size })
  | createsStream : Does d ⟨.createStream, .ok d.streams.create.1⟩
      { d with streams := d.streams.create.2 }
  | freesStream {s : Stream} {t : StreamTable} (ht : d.streams.free s = .ok t) :
      Does d ⟨.freeStream s, .ok ()⟩ { d with streams := t }
  | setsStream {s : Stream} {t : StreamTable} (ht : d.streams.setCurrent s = .ok t) :
      Does d ⟨.setStream s, .ok ()⟩ { d with streams := t }
  | closes : Does d ⟨.free, .ok ()⟩ d.free

/-- An owned block is a new one of zeros, in whole words. -/
theorem Memory.owned_ok {s s' : Storage} {device size : Nat} {isMapped : Bool} {m : Memory}
    (h : owned device size isMapped s = .ok (m, s')) :
    m = ⟨device, size, s.next, false, isMapped⟩ ∧ s'.next = s.next + 1 ∧ ∀ n, s'.blocks.get? n =
      if s.next = n then some (List.replicate (wordBytes size) 0) else s.blocks.get? n := by
  rw [owned] at h
  split at h
  · cases h
  · cases h
    exact ⟨rfl, rfl, fun n => SortedMap.get?_insert s.blocks s.next n _⟩

namespace Device

variable {d d' : Device}

/-- A refusal leaves the device as it is. -/
theorem Does.of_error {c : DeviceCall} {err : DeviceError} (h : d.Does ⟨c, .error err⟩ d') :
    d' = d := by
  cases h
  rfl

theorem ensureOpen_of_freed (h : d.isOpen = false) : d.ensureOpen = .error .freed :=
  if_neg (by simp [h])

/-- An operation begins with a look at whether the device is open. -/
theorem bind_ensureOpen {α : Type} (f : Unit → Except DeviceError α) :
    (d.ensureOpen >>= f) = if d.isOpen then f () else .error .freed := by
  unfold ensureOpen
  cases d.isOpen <;> rfl

/-- An allocation makes a block of zeros, and copies the source into it if there is one. -/
theorem allocate_steps {s s' : Storage} {size : Nat} {source : Option Bytes} {isMapped : Bool}
    {m : Memory} (h : d.allocate s size source isMapped = .ok (m, d', s')) :
    d.allocated + size < sizeBound ∧
      (∃ zeroed, Memory.owned d.id size isMapped s = .ok (m, zeroed) ∧
        (match source with
          | some bytes => m.copyFrom zeroed bytes 0
          | none => .ok zeroed) = .ok s') ∧
      d' = { d with allocated := d.allocated + size } := by
  rw [allocate] at h
  obtain ⟨-, -, h⟩ := bind_eq_ok_iff.1 h
  obtain ⟨hsize, h⟩ := check_eq_ok_iff.1 h
  obtain ⟨⟨m, zeroed⟩, howned, h⟩ := bind_eq_ok_iff.1 h
  cases source with
  | none =>
      cases h
      exact ⟨Nat.lt_of_not_le hsize, ⟨_, howned, rfl⟩, rfl⟩
  | some bytes =>
      obtain ⟨s, hcopy, h⟩ := bind_eq_ok_iff.1 h
      cases h
      exact ⟨Nat.lt_of_not_le hsize, ⟨zeroed, howned, hcopy⟩, rfl⟩

/-- New memory has the size that was asked for, which is added to the account of the device. -/
theorem allocate_ok {s s' : Storage} {size : Nat} {source : Option Bytes} {isMapped : Bool}
    {m : Memory} (h : d.allocate s size source isMapped = .ok (m, d', s')) :
    d.allocated + size < sizeBound ∧
      (∃ block, m = ⟨d.id, size, block, false, isMapped⟩) ∧
      d' = { d with allocated := d.allocated + size } := by
  obtain ⟨hsize, ⟨zeroed, howned, -⟩, rfl⟩ := allocate_steps h
  obtain ⟨rfl, -⟩ := Memory.owned_ok howned
  exact ⟨hsize, ⟨_, rfl⟩, rfl⟩

/-- A wrapper is for the block that the caller names, and has the size that was asked for. -/
theorem wrap_ok {block? : Option Nat} {size : Nat} {m : Memory}
    (h : d.wrap block? size = .ok m) :
    ∃ block, block? = some block ∧ m = ⟨d.id, size, block, true, false⟩ := by
  obtain ⟨-, -, h⟩ := bind_eq_ok_iff.1 h
  cases block? with
  | none => cases h
  | some block => exact ⟨block, rfl, (Except.ok.inj h).symm⟩

/-- Memory is taken back by its own device only, which takes its size off the account unless it is
a wrapper. -/
theorem account_ok {m : Memory} (h : d.account m = .ok d') : m.device = d.id ∧
    d' = if m.isWrapper then d else { d with allocated := d.allocated - m.size } := by
  rw [account] at h
  obtain ⟨-, -, h⟩ := bind_eq_ok_iff.1 h
  obtain ⟨hm, h⟩ := check_eq_ok_iff.1 h
  exact ⟨not_not.1 hm, (Except.ok.inj h).symm⟩

theorem createStream_ok {s : Stream} (h : d.createStream = .ok (s, d')) :
    s = d.streams.create.1 ∧ d' = { d with streams := d.streams.create.2 } := by
  rw [createStream] at h
  obtain ⟨-, -, h⟩ := bind_eq_ok_iff.1 h
  cases h
  exact ⟨rfl, rfl⟩

/-- An operation on the streams of a device gives what it gives on its table. -/
theorem bind_streams (x : Except DeviceError StreamTable) :
    (do d.ensureOpen; return { d with streams := ← x }) =
      if d.isOpen then x.map fun t => { d with streams := t } else .error .freed := by
  rw [bind_ensureOpen]
  split
  · cases x <;> rfl
  · rfl

theorem bind_streams_ok {x : Except DeviceError StreamTable}
    (h : (do d.ensureOpen; return { d with streams := ← x }) = .ok d') :
    ∃ t, x = .ok t ∧ d' = { d with streams := t } := by
  obtain ⟨-, -, h⟩ := bind_eq_ok_iff.1 h
  obtain ⟨t, ht, h⟩ := bind_eq_ok_iff.1 h
  exact ⟨t, ht, (Except.ok.inj h).symm⟩

/-- A call that only looks does nothing, whatever it answers. -/
theorem Does.of_looks {c : DeviceCall} (hc : c.Looks) (x : Except DeviceError c.Answer) :
    d.Does ⟨c, x⟩ d := by
  cases x with
  | error err => exact .refuses c err
  | ok a => exact .looks hc a

end Device

/-! ### Every call does one of these -/

namespace DeviceCall

/-- **A call does nothing else to its device.** -/
theorem does (e : Engine) (d : Device) (h : DeviceHost) (c : DeviceCall) :
    d.Does ⟨c, (c.perform e d h).answer⟩ (c.perform e d h).device := by
  cases c with
  | compile | compileAndLoad | load | freeKernel | currentStream | tagStream | waitFor
  | timeBetween | flush | finish =>
      refine .of_looks ?_ _
      trivial
  | allocate size source isMapped =>
      rw [perform]
      cases hallocate : d.allocate h.storage size source isMapped with
      | error err => exact .refuses _ err
      | ok out =>
          obtain ⟨m, d', storage⟩ := out
          obtain ⟨hsize, ⟨block, rfl⟩, rfl⟩ := Device.allocate_ok hallocate
          exact .allocates source isMapped block hsize
  | wrap block size =>
      rw [perform]
      cases hwrap : d.wrap block size with
      | error err => exact .refuses _ err
      | ok m =>
          obtain ⟨n, rfl, rfl⟩ := Device.wrap_ok hwrap
          exact .wraps n size
  | freeMemory m =>
      simp only [perform, Device.freeMemory]
      cases haccount : d.account m with
      | error err => exact .refuses _ err
      | ok d' =>
          obtain ⟨hm, rfl⟩ := Device.account_ok haccount
          exact .takesBack hm
  | createStream =>
      rw [perform]
      cases hcreate : d.createStream with
      | error err => exact .refuses _ err
      | ok out =>
          obtain ⟨s, d'⟩ := out
          obtain ⟨rfl, rfl⟩ := Device.createStream_ok hcreate
          exact .createsStream
  | freeStream s =>
      rw [perform]
      cases hfree : d.freeStream s with
      | error err => exact .refuses _ err
      | ok d' =>
          obtain ⟨t, ht, rfl⟩ := Device.bind_streams_ok hfree
          exact .freesStream ht
  | setStream s =>
      rw [perform]
      cases hset : d.setStream s with
      | error err => exact .refuses _ err
      | ok d' =>
          obtain ⟨t, ht, rfl⟩ := Device.bind_streams_ok hset
          exact .setsStream ht
  | free => exact .closes

/-- A call that fails leaves the device as it is. -/
theorem device_of_error {e : Engine} {d : Device} {h : DeviceHost} {c : DeviceCall}
    {err : DeviceError} (herr : (c.perform e d h).answer = .error err) :
    (c.perform e d h).device = d := by
  have hdoes := c.does e d h
  rw [herr] at hdoes
  exact hdoes.of_error

end DeviceCall

/-! ### Histories -/

/-- **What has become of a device that has served some calls**, the latest one last, each on
whatever machine. -/
inductive Device.Served (e : Engine) (d₀ : Device) : List DeviceEvent → Device → Prop
  | start : Served e d₀ [] d₀
  | call {log : List DeviceEvent} {d : Device} (hd : Served e d₀ log d) (c : DeviceCall)
      (h : DeviceHost) :
      Served e d₀ (log ++ [⟨c, (c.perform e d h).answer⟩]) (c.perform e d h).device

end KernelCache
