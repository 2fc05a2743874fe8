/-
**Memory that a device does not take back.**

A memory that is given to a device is gone, whatever the device answers: if it is refused, by a
device that is another's or that is freed, its block is released all the same.  The account of its
own device does not hear of that.  So the account of a device is not always what its memories that
are still there add up to: what was refused stays on it for ever.

Here a process gives its memories up by giving them to devices only, and wraps only blocks of its
own, which no memory owns.

Main definitions:

* `gotIn`, `Storage.keeps` — the memories that were allocated, and those whose blocks are still
  there;
* `refusedIn` — the bytes of a device in memories that were refused;
* `Storage.Altered` — what a call can do to the blocks;
* `Storage.Tidy` — the invariant: the owned memories at hand are those that are still there;
* `DeviceUser.Careful` — how a process comes about that gives memory up to devices only.

Main results:

* `DeviceCall.alters` — a call does nothing else to the blocks;
* `Storage.Tidy.alter`, `DeviceUser.Careful.tidy` — the invariant after one call, and after every
  history;
* `DeviceUser.Careful.allocated_eq` — an account is what lies at hand, and what was refused;
* `DeviceUser.account_exact_iff` — **an account is exact if and only if nothing was refused**;
* `Refusal.refused_memory_released` — **a memory that is refused is gone**.
-/

import KernelCache.Proofs.Device.Account
import KernelCache.Proofs.Device.Contents

set_option relaxedAutoImplicit false
set_option autoImplicit false

namespace KernelCache

/-! ### Blocks -/

namespace DeviceEvent

/-- The memory that a call has allocated. -/
def got : DeviceEvent → List Memory
  | ⟨.allocate .., .ok m⟩ => [m]
  | _ => []

end DeviceEvent

/-- The memories that calls have allocated. -/
def gotIn (log : List (Nat × DeviceEvent)) : List Memory := log.flatMap (·.2.got)

/-- The bytes of a device in memories that calls were given and have refused. -/
def refusedIn (i : Nat) (log : List (Nat × DeviceEvent)) : Nat :=
  (log.map (·.2.refused i)).sum

theorem gotIn_append (log : List (Nat × DeviceEvent)) (i : Nat) (ev : DeviceEvent) :
    gotIn (log ++ [(i, ev)]) = gotIn log ++ ev.got := by
  simp [gotIn]

theorem refusedIn_append (i j : Nat) (log : List (Nat × DeviceEvent)) (ev : DeviceEvent) :
    refusedIn i (log ++ [(j, ev)]) = refusedIn i log + ev.refused i := by
  simp [refusedIn]

/-- Nothing of a device was refused exactly if what was refused had no share in its account. -/
theorem refusedIn_eq_zero_iff {i : Nat} {log : List (Nat × DeviceEvent)} :
    refusedIn i log = 0 ↔
      ∀ j m err, (j, ⟨.freeMemory m, .error err⟩) ∈ log → m.share i = 0 := by
  rw [refusedIn, List.sum_eq_zero_iff_forall_eq_nat, List.forall_mem_map]
  constructor
  · intro h j m err hmem
    exact h _ hmem
  · rintro h ⟨j, c, answer⟩ hmem
    cases answer with
    | ok a => exact DeviceEvent.refused_ok i c a
    | error err =>
        cases c with
        | freeMemory m => exact h j m err hmem
        | _ => rfl

namespace Storage

theorem contains_write (s : Storage) (n offset : Nat) (bytes : Bytes) (k : Nat) :
    (s.write n offset bytes).blocks.contains k = (decide (n = k) || s.blocks.contains k) := by
  simp only [write, SortedMap.contains, SortedMap.get?_insert]
  split <;> simp [*]

theorem contains_add (s : Storage) (bytes : Bytes) (k : Nat) :
    (s.add bytes).2.blocks.contains k = (decide (s.next = k) || s.blocks.contains k) := by
  simp only [add, SortedMap.contains, SortedMap.get?_insert]
  split <;> simp [*]

theorem contains_release (s : Storage) (n k : Nat) :
    (s.release n).blocks.contains k = (s.blocks.contains k && decide (k ≠ n)) := by
  simp only [release, SortedMap.contains, SortedMap.get?_erase]
  split <;> simp_all [eq_comm]

/-- **What a call can do to the blocks**: it allocates one, or gives one up that it was given with
its memory, whatever it answers; a wrapper is got without a new block. -/
inductive Altered (s : Storage) : DeviceEvent → Storage → Prop
  | same {ev : DeviceEvent} (hgot : ev.got = []) (hhand : ∀ hand, ev.handAfter hand = hand) :
      Altered s ev s
  | wraps {n size : Nat} {m : Memory} (hwrapper : m.isWrapper = true) (hm : m.block = n) :
      Altered s ⟨.wrap (some n) size, .ok m⟩ s
  | grows {size : Nat} {source : Option Bytes} {isMapped : Bool} {m : Memory} {s' : Storage}
      (howned : m.isWrapper = false) (hm : m.block = s.next) (hnext : s'.next = s.next + 1)
      (hcontains : ∀ k, s'.blocks.contains k = (decide (s.next = k) || s.blocks.contains k)) :
      Altered s ⟨.allocate size source isMapped, .ok m⟩ s'
  | shrinks (m : Memory) (answer : Except DeviceError Unit) :
      Altered s ⟨.freeMemory m, answer⟩ (m.drop s)

end Storage

theorem DeviceOutcome.host_of {α : Type} (d : Device) (h : DeviceHost)
    (x : Except DeviceError (α × Device)) : (DeviceOutcome.of d h x).host = h := by
  cases x <;> rfl

/-- **A call does nothing else to the blocks.** -/
theorem DeviceCall.alters (e : Engine) (d : Device) (h : DeviceHost) (c : DeviceCall) :
    h.storage.Altered ⟨c, (c.perform e d h).answer⟩ (c.perform e d h).host.storage := by
  cases c with
  | compile | compileAndLoad | load | freeKernel | currentStream | tagStream | waitFor
  | timeBetween | flush | finish | free =>
      exact .same rfl fun _ => rfl
  | createStream | freeStream | setStream =>
      rw [perform, DeviceOutcome.host_of]
      exact .same rfl fun _ => rfl
  | freeMemory m =>
      simp only [perform, DeviceOutcome.host_of]
      exact .shrinks m _
  | allocate size source isMapped =>
      rw [perform]
      cases hallocate : d.allocate h.storage size source isMapped with
      | error err => exact .same rfl fun _ => rfl
      | ok out =>
          obtain ⟨m, d', storage⟩ := out
          obtain ⟨hm, hnext, hget⟩ := Device.allocate_storage hallocate
          obtain ⟨-, ⟨block, hparts⟩, -⟩ := Device.allocate_ok hallocate
          refine .grows (by rw [hparts]) hm hnext fun k => ?_
          rw [SortedMap.contains, hget]
          split <;> simp [*, SortedMap.contains]
  | wrap block size =>
      simp only [perform]
      cases hwrap : d.wrap block size with
      | error err => exact .same rfl fun _ => rfl
      | ok m =>
          obtain ⟨n, rfl, rfl⟩ := Device.wrap_ok hwrap
          exact .wraps rfl rfl

/-! ### The memories that are still there -/

/-- Of some memories, those that own their blocks. -/
def ownedOf (hand : List Memory) : List Memory := hand.filter fun m => !m.isWrapper

/-- Of some memories, those whose blocks are still there. -/
def Storage.keeps (s : Storage) (got : List Memory) : List Memory :=
  got.filter fun m => s.blocks.contains m.block

theorem mem_ownedOf {m : Memory} {hand : List Memory} :
    m ∈ ownedOf hand ↔ m ∈ hand ∧ m.isWrapper = false := by
  simp [ownedOf]

theorem Storage.mem_keeps {s : Storage} {m : Memory} {got : List Memory} :
    m ∈ s.keeps got ↔ m ∈ got ∧ s.blocks.contains m.block = true := by
  simp [keeps]

/-- Wrappers have no share in an account. -/
theorem Memory.held_ownedOf (i : Nat) (hand : List Memory) :
    held i (ownedOf hand) = held i hand := by
  induction hand with
  | nil => rfl
  | cons m hand ih =>
      cases hm : m.isWrapper <;> simp_all [ownedOf, held, share]

/-- **The blocks are in order**: each memory that was ever allocated has a block of its own, the
owned memories at hand are those whose blocks are still there, and a wrapper has a block that is
there and was never allocated. -/
structure Storage.Tidy (s : Storage) (got hand : List Memory) : Prop where
  lt_next : ∀ n, s.blocks.contains n = true → n < s.next
  got_lt : ∀ m ∈ got, m.block < s.next
  nodup : (got.map Memory.block).Nodup
  perm : (ownedOf hand).Perm (s.keeps got)
  wrapped : ∀ m ∈ hand, m.isWrapper = true →
    s.blocks.contains m.block = true ∧ ∀ g ∈ got, g.block ≠ m.block

namespace Storage.Tidy

variable {s s' : Storage} {got hand : List Memory} {ev : DeviceEvent}

theorem contains_of_mem (h : s.Tidy got hand) {m : Memory} (hm : m ∈ hand) :
    s.blocks.contains m.block = true := by
  cases hwrapper : m.isWrapper with
  | true => exact (h.wrapped m hm hwrapper).1
  | false => exact (mem_keeps.1 (h.perm.mem_iff.1 (mem_ownedOf.2 ⟨hm, hwrapper⟩))).2

/-- Only which blocks are there counts, and the next number. -/
theorem congr (h : s.Tidy got hand) (hnext : s'.next = s.next)
    (hcontains : ∀ k, s'.blocks.contains k = s.blocks.contains k) : s'.Tidy got hand := by
  have hkeeps : s'.keeps got = s.keeps got := by simp only [keeps, hcontains]
  refine ⟨?_, ?_, h.nodup, hkeeps ▸ h.perm, ?_⟩
  · simpa only [hcontains, hnext] using h.lt_next
  · simpa only [hnext] using h.got_lt
  · simpa only [hcontains] using h.wrapped

/-- A block with the next number belongs to nobody before. -/
theorem grows (h : s.Tidy got hand) (hnext : s'.next = s.next + 1)
    (hcontains : ∀ k, s'.blocks.contains k = (decide (s.next = k) || s.blocks.contains k)) :
    s'.Tidy got hand := by
  have hkeeps : s'.keeps got = s.keeps got := by
    refine List.filter_congr fun m hm => ?_
    have hne : s.next ≠ m.block := Nat.ne_of_gt (h.got_lt m hm)
    simp [hcontains, hne]
  refine ⟨fun n hn => ?_, fun m hm => ?_, h.nodup, hkeeps ▸ h.perm, fun m hm hwrapper => ?_⟩
  · rw [hcontains, Bool.or_eq_true, decide_eq_true_iff] at hn
    rcases hn with rfl | hn
    · omega
    · have := h.lt_next n hn
      omega
  · have := h.got_lt m hm
    omega
  · obtain ⟨hthere, hnever⟩ := h.wrapped m hm hwrapper
    exact ⟨by rw [hcontains, hthere, Bool.or_true], hnever⟩

/-- The block may be that of a new memory, which is at hand then. -/
theorem allocates (h : s.Tidy got hand) {m : Memory} (howned : m.isWrapper = false)
    (hm : m.block = s.next) (hnext : s'.next = s.next + 1)
    (hcontains : ∀ k, s'.blocks.contains k = (decide (s.next = k) || s.blocks.contains k)) :
    s'.Tidy (got ++ [m]) (m :: hand) := by
  have hgrown := h.grows hnext hcontains
  have hthere : s'.blocks.contains m.block = true := by simp [hcontains, hm]
  refine ⟨hgrown.lt_next, ?_, ?_, ?_, ?_⟩
  · rw [List.forall_mem_append, List.forall_mem_singleton]
    exact ⟨hgrown.got_lt, hgrown.lt_next _ hthere⟩
  · rw [List.map_append, List.map_singleton, List.nodup_append_comm]
    refine List.nodup_cons.2 ⟨fun hmem => ?_, h.nodup⟩
    obtain ⟨g, hg, hblock⟩ := List.mem_map.1 hmem
    have := h.got_lt g hg
    omega
  · have hkeeps : s'.keeps (got ++ [m]) = s'.keeps got ++ [m] := by simp [keeps, hthere]
    have hown : ownedOf (m :: hand) = m :: ownedOf hand := by simp [ownedOf, howned]
    rw [hkeeps, hown]
    exact (hgrown.perm.cons m).trans (List.perm_append_singleton m _).symm
  · intro w hw hwrapper
    rcases List.mem_cons.1 hw with rfl | hw
    · rw [howned] at hwrapper
      cases hwrapper
    · obtain ⟨hwthere, hnever⟩ := hgrown.wrapped w hw hwrapper
      refine ⟨hwthere, ?_⟩
      rw [List.forall_mem_append, List.forall_mem_singleton]
      refine ⟨hnever, fun hsame => ?_⟩
      have := h.lt_next w.block (h.wrapped w hw hwrapper).1
      omega

/-- A block that is there and that no memory owns may be wrapped. -/
theorem wraps (h : s.Tidy got hand) {m : Memory} (hwrapper : m.isWrapper = true)
    (hthere : s.blocks.contains m.block = true)
    (hnot : ∀ g ∈ hand, g.isWrapper = false → g.block ≠ m.block) : s.Tidy got (m :: hand) := by
  refine ⟨h.lt_next, h.got_lt, h.nodup, ?_, ?_⟩
  · have hown : ownedOf (m :: hand) = ownedOf hand := by simp [ownedOf, hwrapper]
    rw [hown]
    exact h.perm
  · rw [List.forall_mem_cons]
    refine ⟨fun _ => ⟨hthere, fun g hg hsame => ?_⟩, h.wrapped⟩
    -- A memory whose block is there is at hand.
    have hkept : g ∈ s.keeps got := mem_keeps.2 ⟨hg, hsame ▸ hthere⟩
    obtain ⟨hghand, hgowned⟩ := mem_ownedOf.1 (h.perm.mem_iff.2 hkept)
    exact hnot g hghand hgowned hsame

/-- A memory that is given up takes its own block along and no other. -/
theorem shrinks (h : s.Tidy got hand) {m : Memory} (hm : m ∈ hand) :
    (m.drop s).Tidy got (hand.erase m) := by
  have howned : ownedOf (hand.erase m) = (ownedOf hand).erase m := List.erase_filter.symm
  cases hwrapper : m.isWrapper with
  | true =>
      have hdrop : m.drop s = s := if_pos hwrapper
      have hnot : m ∉ ownedOf hand := fun hmem => by
        rw [(mem_ownedOf.1 hmem).2] at hwrapper
        cases hwrapper
      rw [hdrop]
      refine ⟨h.lt_next, h.got_lt, h.nodup, ?_, fun w hw => h.wrapped w (List.mem_of_mem_erase hw)⟩
      rw [howned, List.erase_of_not_mem hnot]
      exact h.perm
  | false =>
      have hdrop : m.drop s = s.release m.block := if_neg (by simp [hwrapper])
      have hkept : m ∈ s.keeps got := h.perm.mem_iff.1 (mem_ownedOf.2 ⟨hm, hwrapper⟩)
      rw [hdrop]
      refine ⟨fun n hn => ?_, h.got_lt, h.nodup, ?_, fun w hw hwrapper' => ?_⟩
      · rw [contains_release, Bool.and_eq_true] at hn
        exact h.lt_next n hn.1
      · -- No other memory has the block.
        have hkeeps : (s.release m.block).keeps got = (s.keeps got).erase m := by
          have hnodup : (s.keeps got).Nodup := (List.Nodup.of_map _ h.nodup).filter _
          rw [hnodup.erase_eq_filter, keeps, keeps, List.filter_filter]
          refine List.filter_congr fun g hg => ?_
          have hsame : g.block = m.block ↔ g = m :=
            ⟨List.inj_on_of_nodup_map h.nodup hg (mem_keeps.1 hkept).1, congrArg Memory.block⟩
          by_cases hgm : g = m <;> simp [contains_release, hsame, hgm]
        rw [howned, hkeeps]
        exact h.perm.erase m
      · obtain ⟨hthere, hnever⟩ := h.wrapped w (List.mem_of_mem_erase hw) hwrapper'
        have hne : w.block ≠ m.block := fun hsame => hnever m (mem_keeps.1 hkept).1 hsame.symm
        exact ⟨by rw [contains_release, hthere]; simp [hne], hnever⟩

/-- **A call keeps the blocks in order**, if it is given what is at hand and may wrap its block. -/
theorem alter (h : s.Tidy got hand) (halters : s.Altered ev s')
    (hgiven : ∀ m, ev.call = .freeMemory m → m ∈ hand)
    (hlent : ∀ n size, ev.call = .wrap (some n) size →
      s.blocks.contains n = true ∧ ∀ m ∈ hand, m.isWrapper = false → m.block ≠ n) :
    s'.Tidy (got ++ ev.got) (ev.handAfter hand) := by
  cases halters with
  | same hgot hhand =>
      rw [hgot, hhand, List.append_nil]
      exact h
  | @wraps n size m hwrapper hm =>
      obtain ⟨hthere, hnot⟩ := hlent n size rfl
      subst hm
      rw [show DeviceEvent.got ⟨.wrap (some m.block) size, .ok m⟩ = [] from rfl, List.append_nil]
      exact h.wraps hwrapper hthere hnot
  | grows howned hm hnext hcontains => exact h.allocates howned hm hnext hcontains
  | shrinks m answer =>
      rw [show DeviceEvent.got ⟨.freeMemory m, answer⟩ = [] from rfl, List.append_nil]
      exact h.shrinks (hgiven m rfl)

end Storage.Tidy

/-! ### Careful processes -/

namespace DeviceUser

variable {e : Engine} {spec : Nat → DeviceSpec} {log : List (Nat × DeviceEvent)} {u : DeviceUser}

/-- A block that the process may have wrapped: it is there and long enough, and no memory at hand
owns it. -/
structure Lends (u : DeviceUser) (n size : Nat) : Prop where
  contains : u.host.storage.blocks.contains n = true
  size_le : size ≤ (u.host.storage.block n).length
  not_owned : ∀ m ∈ u.hand, m.isWrapper = false → m.block ≠ n

/-- The process with a storage in place of its own. -/
def withStorage (u : DeviceUser) (s : Storage) : DeviceUser :=
  { u with host := { u.host with storage := s } }

/-- **What a process can come to be that gives memory up to devices only**, with the calls that it
has made.  It calls its devices, copies into its memories and makes blocks of its own; between that
anything may happen to the files, to what the blocks hold and to the room for more of them. -/
inductive Careful (e : Engine) (spec : Nat → DeviceSpec) :
    List (Nat × DeviceEvent) → DeviceUser → Prop
  | start (files : FileSystem) (room : Nat) :
      Careful e spec [] (start spec ⟨files, ⟨.empty, 0, room⟩⟩)
  | ask {log : List (Nat × DeviceEvent)} {u : DeviceUser} (hu : Careful e spec log u) (i : Nat)
      (c : DeviceCall) (hgiven : ∀ m, c = .freeMemory m → m ∈ u.hand)
      (hlent : ∀ n size, c = .wrap (some n) size → u.Lends n size) :
      Careful e spec (log ++ [(i, u.event e i c)]) (u.ask e i c)
  | copyFrom {log : List (Nat × DeviceEvent)} {u : DeviceUser} (hu : Careful e spec log u)
      {m : Memory} (hm : m ∈ u.hand) (bytes : Bytes) (offset : Nat) :
      Careful e spec log (u.copyFrom m bytes offset)
  | makeBlock {log : List (Nat × DeviceEvent)} {u : DeviceUser} (hu : Careful e spec log u)
      (bytes : Bytes) : Careful e spec log (u.withStorage (u.host.storage.add bytes).2)
  | around {log : List (Nat × DeviceEvent)} {u : DeviceUser} (hu : Careful e spec log u)
      (host : DeviceHost) (hnext : host.storage.next = u.host.storage.next)
      (hcontains : ∀ k, host.storage.blocks.contains k = u.host.storage.blocks.contains k) :
      Careful e spec log { u with host := host }

theorem Careful.reaches (h : Careful e spec log u) : Reaches e spec log u := by
  induction h with
  | start files room => exact .start _
  | ask hu i c hgiven hlent ih => exact ih.ask i c hgiven
  | copyFrom hu hm bytes offset ih => exact ih.copyFrom hm bytes offset
  | makeBlock hu bytes ih => exact ih.around _
  | around hu host hnext hcontains ih => exact ih.around host

/-! ### The account and the memories at hand -/

theorem copyFrom_device (u : DeviceUser) (m : Memory) (bytes : Bytes) (offset : Nat) :
    (u.copyFrom m bytes offset).device = u.device := by
  rw [copyFrom]
  split <;> rfl

theorem copyFrom_hand (u : DeviceUser) (m : Memory) (bytes : Bytes) (offset : Nat) :
    (u.copyFrom m bytes offset).hand = u.hand := by
  rw [copyFrom]
  split <;> rfl

/-- **An account is what lies at hand, and what was refused.** -/
theorem Careful.allocated_eq (h : Careful e spec log u) (i : Nat) :
    (u.device i).allocated = Memory.held i u.hand + refusedIn i log := by
  induction h with
  | start files room => rfl
  | @ask log u hu j c hgiven hlent ih =>
      have hbalanced := Balanced.of_reaches hu.reaches
      have hdoes : (u.device j).Does (u.event e j c) (c.perform e (u.device j) u.host).device :=
        c.does e (u.device j) u.host
      have hheld : Memory.held i (u.ask e j c).hand + (u.event e j c).refused i + _ = _ :=
        hdoes.held_eq hgiven i
      have hbalance := hdoes.balance fun m hm => by
        rw [hbalanced.id_eq]
        exact Nat.le_trans (Memory.share_le_held j (hgiven m hm)) (hbalanced.held_le j)
      rw [hbalanced.id_eq] at hheld
      rw [refusedIn_append]
      by_cases hij : i = j
      · subst hij
        rw [if_pos rfl, if_pos rfl] at hheld
        rw [device_ask_same]
        omega
      · rw [if_neg (Ne.symm hij), if_neg (Ne.symm hij)] at hheld
        rw [device_ask_other hij]
        omega
  | copyFrom hu hm bytes offset ih => rw [copyFrom_device, copyFrom_hand, ih]
  | makeBlock hu bytes ih => exact ih
  | around hu host hnext hcontains ih => exact ih

/-! ### The memories at hand and the blocks -/

theorem copyFrom_storage (u : DeviceUser) (m : Memory) (bytes : Bytes) (offset : Nat) :
    (u.copyFrom m bytes offset).host.storage = u.host.storage ∨
      (u.copyFrom m bytes offset).host.storage = u.host.storage.write m.block offset bytes := by
  rw [copyFrom, Memory.copyFrom]
  cases m.checkRange offset bytes.length with
  | error err => exact Or.inl rfl
  | ok done => exact Or.inr rfl

/-- The blocks of a process that is careful are in order after every call. -/
theorem Careful.tidy (h : Careful e spec log u) : u.host.storage.Tidy (gotIn log) u.hand := by
  induction h with
  | start files room =>
      exact ⟨nofun, nofun, List.nodup_nil, List.Perm.nil, nofun⟩
  | @ask log u hu i c hgiven hlent ih =>
      have halters : u.host.storage.Altered (u.event e i c) (u.ask e i c).host.storage :=
        c.alters e (u.device i) u.host
      rw [gotIn_append]
      exact ih.alter halters hgiven fun n size hc =>
        ⟨(hlent n size hc).contains, (hlent n size hc).not_owned⟩
  | @copyFrom log u hu m hm bytes offset ih =>
      rw [copyFrom_hand]
      rcases u.copyFrom_storage m bytes offset with hsame | hwrite
      · rw [hsame]
        exact ih
      · have hthere := ih.contains_of_mem hm
        rw [hwrite]
        refine ih.congr rfl fun k => ?_
        rw [Storage.contains_write]
        by_cases hk : m.block = k
        · simp [hk ▸ hthere]
        · simp [hk]
  | makeBlock hu bytes ih => exact ih.grows rfl fun k => Storage.contains_add _ bytes k
  | around hu host hnext hcontains ih => exact ih.congr hnext hcontains

/-! ### Exact accounts -/

/-- A device takes a memory back exactly if it is open and the memory is its own. -/
theorem event_freeMemory_ok_iff (e : Engine) (u : DeviceUser) (j : Nat) (m : Memory) :
    (u.event e j (.freeMemory m)).answer = .ok () ↔
      (u.device j).isOpen = true ∧ m.device = (u.device j).id := by
  have hanswer :
      (u.event e j (.freeMemory m)).answer = ((u.device j).account m).map fun _ => () := by
    simp only [event, DeviceCall.perform, Device.freeMemory]
    cases (u.device j).account m <;> rfl
  rw [hanswer, Device.account, Device.bind_ensureOpen]
  by_cases hopen : (u.device j).isOpen = true
  · rw [if_pos hopen]
    by_cases hm : m.device = (u.device j).id
    · rw [if_neg (not_not_intro hm)]
      exact ⟨fun _ => ⟨hopen, hm⟩, fun _ => rfl⟩
    · rw [if_pos hm]
      exact iff_of_false (by rintro ⟨⟩) fun h => hm h.2
  · rw [if_neg hopen]
    exact iff_of_false (by rintro ⟨⟩) fun h => hopen h.1

/-- **An account is exact if and only if nothing was refused.**

After every history the account of a device is what its allocations add up to whose blocks are still
there, and what was refused, by whatever device.  So it is what is still there if and only if no
memory that has a share in it was ever refused.  A device takes a memory back if it is open and the
memory is its own.  Else it refuses, and no device changes; but the block of an owned memory is
released in either case, and only a wrapped one stays. -/
theorem account_exact_iff (hu : Careful e spec log u) (i : Nat) :
    (u.device i).allocated =
      Memory.held i (u.host.storage.keeps (gotIn log)) + refusedIn i log ∧
    ((u.device i).allocated = Memory.held i (u.host.storage.keeps (gotIn log)) ↔
      ∀ j m err, (j, ⟨.freeMemory m, .error err⟩) ∈ log → m.share i = 0) ∧
    ∀ m ∈ u.hand, ∀ j,
      ((u.event e j (.freeMemory m)).answer = .ok () ↔
        (u.device j).isOpen = true ∧ m.device = j) ∧
      ((∃ err, (u.event e j (.freeMemory m)).answer = .error err) →
        (u.ask e j (.freeMemory m)).device = u.device) ∧
      (u.ask e j (.freeMemory m)).host.storage.blocks.contains m.block = m.isWrapper := by
  have hkept : Memory.held i u.hand = Memory.held i (u.host.storage.keeps (gotIn log)) := by
    rw [← Memory.held_ownedOf]
    exact (hu.tidy.perm.map _).sum_nat
  have hallocated := hu.allocated_eq i
  rw [hkept] at hallocated
  have hid := (Balanced.of_reaches hu.reaches).id_eq
  refine ⟨hallocated, ?_, fun m hm j => ⟨?_, ?_, ?_⟩⟩
  · rw [← refusedIn_eq_zero_iff]
    omega
  · rw [event_freeMemory_ok_iff, hid]
  · rintro ⟨err, herr⟩
    funext k
    by_cases hk : k = j
    · subst hk
      rw [device_ask_same]
      exact DeviceCall.device_of_error herr
    · exact device_ask_other hk e u _
  · have hthere := hu.tidy.contains_of_mem hm
    have hstorage : (u.ask e j (.freeMemory m)).host.storage = m.drop u.host.storage := by
      simp only [ask, DeviceCall.perform, DeviceOutcome.host_of]
      rfl
    rw [hstorage, Memory.drop]
    cases hwrapper : m.isWrapper with
    | true => rw [if_pos rfl, hthere]
    | false =>
        rw [if_neg (by simp), Storage.contains_release]
        simp

end DeviceUser

/-! ### A refusal -/

namespace Refusal

/-- Devices that are all alike. -/
def spec : Nat → DeviceSpec := fun _ => ⟨.serial, "g++", "-g", "", "", none⟩

/-- Eight bytes of the first device. -/
def memory : Memory := ⟨0, 8, 0, false, false⟩

/-- The first device allocates the memory, and the second one is given it. -/
def log : List (Nat × DeviceEvent) :=
  [(0, ⟨.allocate 8 none false, .ok memory⟩),
    (1, ⟨.freeMemory memory, .error (.foreign .memory)⟩)]

/-- The process after that. -/
def user : DeviceUser :=
  ((DeviceUser.start spec ⟨.empty, .empty⟩).ask .native 0 (.allocate 8 none false)).ask .native 1
    (.freeMemory memory)

theorem careful : DeviceUser.Careful .native spec log user := by
  refine ((DeviceUser.Careful.start .empty Storage.capacity).ask 0 (.allocate 8 none false) nofun
    nofun).ask 1 (.freeMemory memory) (fun m hm => ?_) nofun
  cases hm
  exact List.mem_singleton_self memory

/-- **A memory that is refused is gone**: no block of the first device is left, and its account
still tells of eight bytes. -/
theorem refused_memory_released :
    DeviceUser.Careful .native spec log user ∧
      log.getLast? = some (1, ⟨.freeMemory memory, .error (.foreign .memory)⟩) ∧
      (user.device 0).isOpen = true ∧
      user.host.storage.blocks.contains memory.block = false ∧
      (user.device 0).allocated = 8 ∧
      Memory.held 0 (user.host.storage.keeps (gotIn log)) = 0 :=
  ⟨careful, rfl, rfl, rfl, rfl, rfl⟩

/-- What is on the account of the first device then is what was refused. -/
theorem refused_bytes_on_account :
    DeviceUser.Careful .native spec log user ∧
      (user.device 0).allocated = Memory.held 0 (user.host.storage.keeps (gotIn log)) + 8 :=
  ⟨careful, (DeviceUser.account_exact_iff careful 0).1⟩

end Refusal

end KernelCache
