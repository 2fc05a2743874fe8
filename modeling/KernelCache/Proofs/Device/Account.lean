/-
**The bytes that a device has allocated.**

A process has devices, and memories that it has got from them.  It asks its devices for whatever it
likes, in any order, but it can give a memory back only once, and only one that it has: what it has
at hand is kept track of beside the devices.  It may give a memory to the wrong device, or lose it.

The account of a device then always balances: it is what was asked for by its allocations that
succeeded, without what was given back to it.  What lies at hand is never more than the account, so
giving a memory back never takes off more than there is.

Main definitions:

* `DeviceEvent.taken`, `DeviceEvent.returned` — what a call adds to an account, and takes off;
* `Memory.held` — the sizes of the memories of a device that are at hand;
* `DeviceUser`, `DeviceUser.Reaches` — a process with its devices and memories, and how it comes
  about;
* `DeviceUser.Balanced` — the invariant.

Main results:

* `Device.Does.balance`, `Device.Does.held_eq` — one call, for the account and for what is at hand;
* `DeviceUser.Balanced.of_reaches` — the invariant after every history;
* `DeviceUser.accounts_balance` — **the accounts of all devices, after every history**.
-/

import KernelCache.Proofs.Device.Call
import Mathlib.Algebra.BigOperators.Group.List.Basic
import Mathlib.Algebra.GroupWithZero.Nat

set_option relaxedAutoImplicit false
set_option autoImplicit false

namespace KernelCache

/-! ### One call -/

namespace DeviceEvent

/-- The bytes that a call adds to the account of its device: what was asked for, if it was got. -/
def taken : DeviceEvent → Nat
  | ⟨.allocate size _ _, .ok _⟩ => size
  | _ => 0

/-- The bytes that a call takes off the account: the size of an owned memory that was taken back. -/
def returned : DeviceEvent → Nat
  | ⟨.freeMemory m, .ok _⟩ => if m.isWrapper then 0 else m.size
  | _ => 0

/-- The memories at hand after a call: a new one is got, and one that is given is gone even if the
device refuses it. -/
def handAfter (hand : List Memory) : DeviceEvent → List Memory
  | ⟨.allocate .., .ok m⟩ => m :: hand
  | ⟨.wrap .., .ok m⟩ => m :: hand
  | ⟨.freeMemory m, _⟩ => hand.erase m
  | _ => hand

theorem taken_error (c : DeviceCall) (err : DeviceError) : taken ⟨c, .error err⟩ = 0 := by
  cases c <;> rfl

theorem returned_error (c : DeviceCall) (err : DeviceError) : returned ⟨c, .error err⟩ = 0 := by
  cases c <;> rfl

theorem taken_looks {c : DeviceCall} (hc : c.Looks) (a : c.Answer) : taken ⟨c, .ok a⟩ = 0 := by
  cases c <;> first | rfl | exact hc.elim

theorem returned_looks {c : DeviceCall} (hc : c.Looks) (a : c.Answer) :
    returned ⟨c, .ok a⟩ = 0 := by
  cases c <;> first | rfl | exact hc.elim

theorem handAfter_looks {c : DeviceCall} (hc : c.Looks) (a : c.Answer) (hand : List Memory) :
    handAfter hand ⟨c, .ok a⟩ = hand := by
  cases c <;> first | rfl | exact hc.elim

end DeviceEvent

/-- The bytes that a memory stands for in the account of a device. -/
def Memory.share (i : Nat) (m : Memory) : Nat :=
  if m.device = i ∧ m.isWrapper = false then m.size else 0

/-- The bytes of a device that a call makes no use of any more although they stay on the account: an
owned memory that is given and not taken. -/
def DeviceEvent.refused (i : Nat) : DeviceEvent → Nat
  | ⟨.freeMemory m, .error _⟩ => m.share i
  | _ => 0

theorem DeviceEvent.refused_ok (i : Nat) (c : DeviceCall) (a : c.Answer) :
    refused i ⟨c, .ok a⟩ = 0 := by
  cases c <;> rfl

/-- The bytes that the memories of a device at hand stand for in its account. -/
def Memory.held (i : Nat) (hand : List Memory) : Nat := (hand.map (Memory.share i)).sum

theorem Memory.held_erase (i : Nat) {m : Memory} {hand : List Memory} (hm : m ∈ hand) :
    Memory.share i m + Memory.held i (hand.erase m) = Memory.held i hand :=
  List.sum_map_erase (Memory.share i) hm

theorem Memory.share_le_held (i : Nat) {m : Memory} {hand : List Memory} (hm : m ∈ hand) :
    Memory.share i m ≤ Memory.held i hand := by
  rw [← Memory.held_erase i hm]
  exact Nat.le_add_right _ _

namespace Device

variable {d d' : Device} {ev : DeviceEvent} {hand : List Memory}

/-- A call does not change the number by which its device is known. -/
theorem Does.id_eq (h : d.Does ev d') : d'.id = d.id := by
  cases h with
  | @takesBack m hm => cases m.isWrapper <;> rfl
  | refuses | looks | allocates | wraps | createsStream | freesStream | setsStream | closes => rfl

/-- **What one call does to the account of its device**, which has the memory that it is given. -/
theorem Does.balance (h : d.Does ev d')
    (hfits : ∀ m, ev.call = .freeMemory m → m.share d.id ≤ d.allocated) :
    d'.allocated + ev.returned = d.allocated + ev.taken := by
  cases h with
  | refuses c err => rw [DeviceEvent.taken_error, DeviceEvent.returned_error]
  | looks hc a => rw [DeviceEvent.taken_looks hc, DeviceEvent.returned_looks hc]
  | @takesBack m hm =>
      have hshare := hfits m rfl
      rw [Memory.share] at hshare
      cases hwrapper : m.isWrapper with
      | true => simp [DeviceEvent.returned, DeviceEvent.taken, hwrapper]
      | false =>
          rw [if_pos ⟨hm, hwrapper⟩] at hshare
          simp only [DeviceEvent.returned, DeviceEvent.taken, hwrapper, Bool.false_eq_true,
            if_false]
          omega
  | allocates | wraps | createsStream | freesStream | setsStream | closes => rfl

/-- An account stays a number of sixty-four bits. -/
theorem Does.allocated_lt (h : d.Does ev d') (hd : d.allocated < sizeBound) :
    d'.allocated < sizeBound := by
  cases h with
  | allocates source isMapped block hsize => exact hsize
  | @takesBack m hm =>
      cases m.isWrapper with
      | true => exact hd
      | false => exact Nat.lt_of_le_of_lt (Nat.sub_le _ _) hd
  | refuses | looks | wraps | createsStream | freesStream | setsStream | closes => exact hd

/-- A call that fails gives nothing, and takes what it was given. -/
theorem held_handAfter_error (i : Nat) (c : DeviceCall) (err : DeviceError)
    (hgiven : ∀ m, c = .freeMemory m → m ∈ hand) :
    Memory.held i (DeviceEvent.handAfter hand ⟨c, .error err⟩) +
      DeviceEvent.refused i ⟨c, .error err⟩ = Memory.held i hand := by
  cases c with
  | freeMemory m =>
      rw [Nat.add_comm]
      exact Memory.held_erase i (hgiven m rfl)
  | _ => rfl

/-- **What one call does to the memories at hand**: for its own device their sizes grow as the
account does, for others they do not grow, and a memory that is refused is gone. -/
theorem Does.held_eq (h : d.Does ev d') (hgiven : ∀ m, ev.call = .freeMemory m → m ∈ hand)
    (i : Nat) :
    Memory.held i (ev.handAfter hand) + ev.refused i + (if d.id = i then ev.returned else 0) =
      Memory.held i hand + if d.id = i then ev.taken else 0 := by
  cases h with
  | refuses c err =>
      rw [DeviceEvent.taken_error, DeviceEvent.returned_error, held_handAfter_error i c err hgiven]
  | looks hc a =>
      rw [DeviceEvent.taken_looks hc, DeviceEvent.returned_looks hc,
        DeviceEvent.handAfter_looks hc, DeviceEvent.refused_ok, Nat.add_zero]
  | @allocates size source isMapped block hsize =>
      simp only [DeviceEvent.handAfter, DeviceEvent.returned, DeviceEvent.taken,
        DeviceEvent.refused, Memory.held, List.map_cons, List.sum_cons, Memory.share, and_true,
        ite_self]
      omega
  | wraps block size => simp [DeviceEvent.handAfter, DeviceEvent.returned, DeviceEvent.taken,
      DeviceEvent.refused, Memory.held, Memory.share]
  | @takesBack m hm =>
      have herase := Memory.held_erase i (hgiven m rfl)
      simp only [DeviceEvent.handAfter, DeviceEvent.returned, DeviceEvent.taken,
        DeviceEvent.refused, ite_self]
      rw [← herase, Memory.share, hm]
      cases m.isWrapper with
      | true => simp
      | false =>
          simp only [Bool.false_eq_true, if_false, and_true]
          omega
  | createsStream | freesStream | setsStream | closes => rfl

theorem Does.held_le (h : d.Does ev d') (hgiven : ∀ m, ev.call = .freeMemory m → m ∈ hand)
    (i : Nat) :
    Memory.held i (ev.handAfter hand) + (if d.id = i then ev.returned else 0) ≤
      Memory.held i hand + if d.id = i then ev.taken else 0 := by
  have hheld := h.held_eq hgiven i
  omega

end Device

/-! ### A process and its devices -/

/-- A process: its devices by their numbers, the machine, and the memories at hand. -/
structure DeviceUser where
  device : Nat → Device
  host : DeviceHost
  hand : List Memory

namespace DeviceUser

/-- The process that has just opened its devices. -/
def start (spec : Nat → DeviceSpec) (host : DeviceHost) : DeviceUser :=
  ⟨fun i => Device.open i (spec i), host, []⟩

/-- A device is called. -/
def ask (e : Engine) (u : DeviceUser) (i : Nat) (c : DeviceCall) : DeviceUser :=
  let out := c.perform e (u.device i) u.host
  { device := fun j => if j = i then out.device else u.device j
    host := out.host
    hand := DeviceEvent.handAfter u.hand ⟨c, out.answer⟩ }

/-- The call with its answer. -/
def event (e : Engine) (u : DeviceUser) (i : Nat) (c : DeviceCall) : DeviceEvent :=
  ⟨c, (c.perform e (u.device i) u.host).answer⟩

/-- Bytes are copied into a memory, if they fit. -/
def copyFrom (u : DeviceUser) (m : Memory) (bytes : Bytes) (offset : Nat) : DeviceUser :=
  match m.copyFrom u.host.storage bytes offset with
  | .ok storage => { u with host := { u.host with storage := storage } }
  | .error _ => u

/-- A memory is lost without being given back. -/
def lose (u : DeviceUser) (m : Memory) : DeviceUser :=
  { u with
    host := { u.host with storage := m.drop u.host.storage }
    hand := u.hand.erase m }

/-- **What a process can come to be**, with the calls that it has made.  It calls its devices,
copies into its memories and loses some; between that anything may happen to the machine.  Copying
out of a memory changes nothing. -/
inductive Reaches (e : Engine) (spec : Nat → DeviceSpec) :
    List (Nat × DeviceEvent) → DeviceUser → Prop
  | start (host : DeviceHost) : Reaches e spec [] (start spec host)
  | ask {log : List (Nat × DeviceEvent)} {u : DeviceUser} (hu : Reaches e spec log u) (i : Nat)
      (c : DeviceCall) (hgiven : ∀ m, c = .freeMemory m → m ∈ u.hand) :
      Reaches e spec (log ++ [(i, u.event e i c)]) (u.ask e i c)
  | copyFrom {log : List (Nat × DeviceEvent)} {u : DeviceUser} (hu : Reaches e spec log u)
      {m : Memory} (hm : m ∈ u.hand) (bytes : Bytes) (offset : Nat) :
      Reaches e spec log (u.copyFrom m bytes offset)
  | lose {log : List (Nat × DeviceEvent)} {u : DeviceUser} (hu : Reaches e spec log u)
      {m : Memory} (hm : m ∈ u.hand) : Reaches e spec log (u.lose m)
  | around {log : List (Nat × DeviceEvent)} {u : DeviceUser} (hu : Reaches e spec log u)
      (host : DeviceHost) : Reaches e spec log { u with host := host }

end DeviceUser

/-- The calls that a device has served, of those that a process has made. -/
def eventsOf (i : Nat) (log : List (Nat × DeviceEvent)) : List DeviceEvent :=
  (log.filter (·.1 = i)).map (·.2)

theorem eventsOf_append_same (i : Nat) (log : List (Nat × DeviceEvent)) (ev : DeviceEvent) :
    eventsOf i (log ++ [(i, ev)]) = eventsOf i log ++ [ev] := by
  simp [eventsOf]

theorem eventsOf_append_other {i j : Nat} (h : j ≠ i) (log : List (Nat × DeviceEvent))
    (ev : DeviceEvent) : eventsOf i (log ++ [(j, ev)]) = eventsOf i log := by
  simp [eventsOf, h]

/-- The bytes that calls have added to an account. -/
def takenIn (log : List DeviceEvent) : Nat := (log.map DeviceEvent.taken).sum

/-- The bytes that calls have taken off an account. -/
def returnedIn (log : List DeviceEvent) : Nat := (log.map DeviceEvent.returned).sum

theorem takenIn_append (log : List DeviceEvent) (ev : DeviceEvent) :
    takenIn (log ++ [ev]) = takenIn log + ev.taken := by
  simp [takenIn]

theorem returnedIn_append (log : List DeviceEvent) (ev : DeviceEvent) :
    returnedIn (log ++ [ev]) = returnedIn log + ev.returned := by
  simp [returnedIn]

namespace DeviceUser

variable {e : Engine} {spec : Nat → DeviceSpec} {log : List (Nat × DeviceEvent)} {u : DeviceUser}

theorem device_ask_same (e : Engine) (u : DeviceUser) (i : Nat) (c : DeviceCall) :
    (u.ask e i c).device i = (c.perform e (u.device i) u.host).device :=
  if_pos rfl

theorem device_ask_other {i j : Nat} (h : j ≠ i) (e : Engine) (u : DeviceUser) (c : DeviceCall) :
    (u.ask e i c).device j = u.device j :=
  if_neg h

/-- **The accounts balance**, and what is at hand is never more than the account. -/
structure Balanced (log : List (Nat × DeviceEvent)) (u : DeviceUser) : Prop where
  id_eq : ∀ i, (u.device i).id = i
  allocated_lt : ∀ i, (u.device i).allocated < Device.sizeBound
  held_le : ∀ i, Memory.held i u.hand ≤ (u.device i).allocated
  balance : ∀ i, (u.device i).allocated + returnedIn (eventsOf i log) = takenIn (eventsOf i log)

namespace Balanced

theorem start (spec : Nat → DeviceSpec) (host : DeviceHost) : Balanced [] (start spec host) where
  id_eq := fun _ => rfl
  allocated_lt := fun _ => Nat.zero_lt_succ _
  held_le := fun _ => Nat.le_refl _
  balance := fun _ => rfl

/-- **A call keeps the accounts balanced.** -/
theorem ask (h : u.Balanced log) (e : Engine) (i : Nat) (c : DeviceCall)
    (hgiven : ∀ m, c = .freeMemory m → m ∈ u.hand) :
    (u.ask e i c).Balanced (log ++ [(i, u.event e i c)]) := by
  have hdoes : (u.device i).Does (u.event e i c) (c.perform e (u.device i) u.host).device :=
    c.does e (u.device i) u.host
  have hfits : ∀ m, c = .freeMemory m → m.share (u.device i).id ≤ (u.device i).allocated := by
    intro m hc
    rw [h.id_eq]
    exact Nat.le_trans (Memory.share_le_held i (hgiven m hc)) (h.held_le i)
  have hbalance := hdoes.balance hfits
  refine ⟨fun j => ?_, fun j => ?_, fun j => ?_, fun j => ?_⟩
  · by_cases hj : j = i
    · subst hj
      rw [device_ask_same, hdoes.id_eq, h.id_eq]
    · rw [device_ask_other hj, h.id_eq]
  · by_cases hj : j = i
    · subst hj
      rw [device_ask_same]
      exact hdoes.allocated_lt (h.allocated_lt j)
    · rw [device_ask_other hj]
      exact h.allocated_lt j
  · have hheld := hdoes.held_le hgiven j
    have hbefore := h.held_le j
    rw [h.id_eq] at hheld
    by_cases hj : j = i
    · -- What is at hand grows at most as the account does.
      subst hj
      rw [if_pos rfl, if_pos rfl] at hheld
      rw [device_ask_same]
      have hheld : Memory.held j (u.ask e j c).hand + (u.event e j c).returned ≤
          Memory.held j u.hand + (u.event e j c).taken := hheld
      omega
    · rw [if_neg (Ne.symm hj), if_neg (Ne.symm hj)] at hheld
      rw [device_ask_other hj]
      exact Nat.le_trans hheld hbefore
  · by_cases hj : j = i
    · subst hj
      have hbefore := h.balance j
      rw [device_ask_same, eventsOf_append_same, takenIn_append, returnedIn_append]
      omega
    · rw [device_ask_other hj, eventsOf_append_other (Ne.symm hj)]
      exact h.balance j

/-- What happens besides calls touches no account, and takes memories away at most. -/
theorem of_same_devices (h : u.Balanced log) {u' : DeviceUser} (hdevice : u'.device = u.device)
    (hheld : ∀ i, Memory.held i u'.hand ≤ Memory.held i u.hand) : u'.Balanced log := by
  refine ⟨?_, ?_, ?_, ?_⟩
  · rw [hdevice]
    exact h.id_eq
  · rw [hdevice]
    exact h.allocated_lt
  · rw [hdevice]
    exact fun i => Nat.le_trans (hheld i) (h.held_le i)
  · rw [hdevice]
    exact h.balance

/-- **After every history the accounts balance.** -/
theorem of_reaches (hu : Reaches e spec log u) : u.Balanced log := by
  induction hu with
  | start host => exact Balanced.start spec host
  | ask hu i c hgiven ih => exact ih.ask e i c hgiven
  | @copyFrom log u hu m hm bytes offset ih =>
      refine ih.of_same_devices ?_ fun i => Nat.le_of_eq ?_ <;>
        · rw [copyFrom]
          split <;> rfl
  | lose hu hm ih =>
      refine ih.of_same_devices rfl fun i => ?_
      rw [← Memory.held_erase i hm]
      exact Nat.le_add_left _ _
  | around hu host ih => exact ih.of_same_devices rfl fun i => Nat.le_refl _

end Balanced

/-- **The accounts of all devices, after every history.**

What a device has allocated is what was asked for by its allocations that succeeded, without the
sizes of the owned memories that it took back, never more than numbers of sixty-four bits tell, and
never less than what is at hand.  If it takes back an owned memory that is at hand, the whole size
comes off the account.  Neither wrapping nor taking back a wrapper changes the account, and a call
that fails leaves all of the device as it is. -/
theorem accounts_balance (hu : Reaches e spec log u) (i : Nat) :
    ((u.device i).allocated : Int) =
      (takenIn (eventsOf i log) : Int) - (returnedIn (eventsOf i log) : Int) ∧
    (u.device i).allocated < Device.sizeBound ∧
    Memory.held i u.hand ≤ (u.device i).allocated ∧
    (∀ m ∈ u.hand, ∀ host, let out := (DeviceCall.freeMemory m).perform e (u.device i) host
      out.answer = .ok () →
      out.device.allocated + (if m.isWrapper then 0 else m.size) = (u.device i).allocated) ∧
    (∀ block size host,
      ((DeviceCall.wrap block size).perform e (u.device i) host).device = u.device i) ∧
    ∀ (c : DeviceCall) (host : DeviceHost) (err : DeviceError),
      (c.perform e (u.device i) host).answer = .error err →
        (c.perform e (u.device i) host).device = u.device i := by
  have h := Balanced.of_reaches hu
  refine ⟨?_, h.allocated_lt i, h.held_le i, ?_, fun block size host => rfl,
    fun c host err herr => DeviceCall.device_of_error herr⟩
  · have hbalance := h.balance i
    omega
  · intro m hm host out hok
    have hdoes := (DeviceCall.freeMemory m).does e (u.device i) host
    rw [show ((DeviceCall.freeMemory m).perform e (u.device i) host).answer = .ok () from hok]
      at hdoes
    refine hdoes.balance fun m' hm' => ?_
    obtain rfl : m = m' := by simpa using hm'
    rw [h.id_eq]
    exact Nat.le_trans (Memory.share_le_held i hm) (h.held_le i)

/-- Memory that is given to another device is lost, and stays on the account of its own; a request
whose bytes do not fit is not put on it. -/
theorem lost_memory_stays_on_account :
    let spec : Nat → DeviceSpec := fun _ => ⟨.serial, "g++", "-g", "", "", none⟩
    let m : Memory := ⟨0, 16, 0, false, false⟩
    let log : List (Nat × DeviceEvent) :=
      [(0, ⟨.allocate 16 none false, .ok m⟩),
        (0, ⟨.allocate 1 (some [7, 7]) false, .error (.outOfBounds 0 2 1)⟩),
        (1, ⟨.freeMemory m, .error (.foreign .memory)⟩)]
    ∃ u, Reaches .native spec log u ∧ (u.device 0).allocated = 16 ∧ (u.device 1).allocated = 0 := by
  intro spec m log
  let u := (((start spec ⟨.empty, .empty⟩).ask .native 0 (.allocate 16 none false)).ask .native 0
    (.allocate 1 (some [7, 7]) false)).ask .native 1 (.freeMemory m)
  have hu : Reaches .native spec log u := by
    refine (((Reaches.start ⟨.empty, .empty⟩).ask 0 (.allocate 16 none false) ?_).ask 0
      (.allocate 1 (some [7, 7]) false) ?_).ask 1 (.freeMemory m) ?_
    · intro m' hm'
      cases hm'
    · intro m' hm'
      cases hm'
    · intro m' hm'
      cases hm'
      exact List.mem_singleton_self _
  have h₀ := (accounts_balance hu 0).1
  have h₁ := (accounts_balance hu 1).1
  exact ⟨u, hu, Int.ofNat_inj.1 h₀, Int.ofNat_inj.1 h₁⟩

end DeviceUser

end KernelCache
