/-
**The streams of a device are those that its history says.**

A device is opened and serves calls, none of which frees it.  Which streams it has is then told by
the calls and their answers alone: the default one, and those that were created and not freed since.
These are the streams that it accepts.  On an accelerator a new stream has a number that no stream
had before it, so a freed one is never known again; other devices have the default stream only.

Main definitions:

* `DeviceEvent.created`, `DeviceEvent.freed` — a stream is created, or freed;
* `Stream.Live` — **the streams that there are, by the history of the device**;
* `StreamTable.Has`, `StreamTable.refusal` — the streams of a table, and why others are refused;
* `Device.StreamsFit` — a device whose table fits its history.

Main results:

* `StreamTable.free_eq`, `StreamTable.setCurrent_eq` — which streams a table accepts;
* `Device.StreamsFit.does` — a call keeps the table in step with the history;
* `Device.streams_match_history` — **what a device makes of every stream, after every history**.
-/

import KernelCache.Proofs.Device.Call

set_option relaxedAutoImplicit false
set_option autoImplicit false

namespace KernelCache

/-! ### Streams in a history -/

/-- A stream is created. -/
def DeviceEvent.created (s : Stream) : DeviceEvent := ⟨.createStream, .ok s⟩

/-- A stream is freed. -/
def DeviceEvent.freed (s : Stream) : DeviceEvent := ⟨.freeStream s, .ok ()⟩

theorem DeviceEvent.created_inj {s s' : Stream} : created s = created s' ↔ s = s' := by
  simp [created]

theorem DeviceEvent.freed_inj {s s' : Stream} : freed s = freed s' ↔ s = s' := by
  simp [freed]

theorem DeviceEvent.created_ne_freed (s s' : Stream) : created s ≠ freed s' := by
  intro h
  cases congrArg DeviceEvent.call h

namespace Stream

/-- A stream was created and not freed since. -/
def Kept (log : List DeviceEvent) (s : Stream) : Prop :=
  ∃ before after, log = before ++ .created s :: after ∧ .freed s ∉ after

/-- **The streams that there are.**  The default one is there always, any other if it was created
and not freed since. -/
def Live (id : Nat) (log : List DeviceEvent) (s : Stream) : Prop :=
  s = ⟨id, StreamTable.defaultId⟩ ∨ s.Kept log

variable {log : List DeviceEvent} {s : Stream} {ev : DeviceEvent}

theorem Kept.created_mem (h : s.Kept log) : .created s ∈ log := by
  obtain ⟨before, after, rfl, -⟩ := h
  simp

theorem not_kept_nil : ¬s.Kept [] := by
  intro h
  simpa using h.created_mem

/-- What the latest event does to the streams that are kept. -/
theorem kept_append_iff : s.Kept (log ++ [ev]) ↔ ev = .created s ∨ s.Kept log ∧ ev ≠ .freed s := by
  constructor
  · rintro ⟨before, after, heq, hafter⟩
    rcases List.eq_nil_or_concat after with rfl | ⟨after, last, rfl⟩
    · have hlast := (List.append_inj' heq rfl).2
      exact Or.inl (List.singleton_inj.1 hlast)
    · -- The latest event comes after the creation, so both are in the longer history only.
      rw [List.concat_eq_append] at heq hafter
      have heq' : log ++ [ev] = (before ++ .created s :: after) ++ [last] := by
        rw [heq]
        simp
      obtain ⟨rfl, hlast⟩ := List.append_inj' heq' rfl
      obtain rfl := List.singleton_inj.1 hlast
      rw [List.mem_append, List.mem_singleton, not_or] at hafter
      exact Or.inr ⟨⟨before, after, rfl, hafter.1⟩, fun h => hafter.2 h.symm⟩
  · rintro (rfl | ⟨⟨before, after, rfl, hafter⟩, hne⟩)
    · exact ⟨log, [], rfl, by simp⟩
    · refine ⟨before, after ++ [ev], by simp, ?_⟩
      rw [List.mem_append, List.mem_singleton]
      rintro (hmem | hmem)
      · exact hafter hmem
      · exact hne hmem.symm

end Stream

/-! ### Tables -/

namespace StreamTable

/-- The streams of a table. -/
def Has (t : StreamTable) (s : Stream) : Prop := s.device = t.device ∧ s.id ∈ t.ids

instance (t : StreamTable) (s : Stream) : Decidable (t.Has s) :=
  inferInstanceAs (Decidable (_ ∧ _))

/-- Why a stream is refused: it names another device, or there is none of its number. -/
def refusal (id : Nat) (s : Stream) : DeviceError :=
  if s.device = id then .unknownStream s.id else .foreign .stream

/-- The table without a stream.  The default one stays, and takes over from the current one. -/
def without (t : StreamTable) (n : Nat) : StreamTable :=
  if n = defaultId then t
  else { t with
    ids := t.ids.filter (· ≠ n)
    current := if t.current = n then defaultId else t.current }

/-- The table with one more stream. -/
def push (t : StreamTable) : StreamTable :=
  { t with next := t.next + 1, ids := t.ids ++ [t.next] }

theorem check_eq (t : StreamTable) (s : Stream) :
    t.check s = if t.Has s then .ok () else .error (refusal t.device s) := by
  unfold check refusal Has
  by_cases hdevice : s.device = t.device
  · by_cases hid : s.id ∈ t.ids <;> simp [hdevice, hid]
  · simp [hdevice]

theorem create_eq (t : StreamTable) : t.create =
    if t.several then (⟨t.device, t.next⟩, t.push) else (⟨t.device, defaultId⟩, t) :=
  rfl

theorem free_eq (t : StreamTable) (s : Stream) :
    t.free s = if t.Has s then .ok (t.without s.id) else .error (refusal t.device s) := by
  rw [free, check_eq]
  by_cases h : t.Has s
  · rw [if_pos h, if_pos h, without]
    by_cases hdefault : s.id = defaultId
    · rw [if_pos hdefault]
      simp [hdefault, bind, Except.bind, pure, Except.pure]
    · simp [hdefault, bind, Except.bind, pure, Except.pure]
  · rw [if_neg h, if_neg h]
    rfl

theorem setCurrent_eq (t : StreamTable) (s : Stream) :
    t.setCurrent s =
      if t.Has s then .ok { t with current := s.id } else .error (refusal t.device s) := by
  rw [setCurrent, check_eq]
  by_cases h : t.Has s
  · rw [if_pos h, if_pos h]
    rfl
  · rw [if_neg h, if_neg h]
    rfl

end StreamTable

/-! ### Tables that fit a history -/

/-- **A device whose table fits its history**, and the facts about numbers that keep it so. -/
structure Device.StreamsFit (id : Nat) (several : Bool) (log : List DeviceEvent) (d : Device) :
    Prop where
  isOpen : d.isOpen = true
  id_eq : d.id = id
  device : d.streams.device = id
  several_eq : d.streams.several = several
  default_mem : StreamTable.defaultId ∈ d.streams.ids
  current_mem : d.streams.current ∈ d.streams.ids
  lt_next : ∀ n ∈ d.streams.ids, n < d.streams.next
  kept : ∀ n, n ≠ StreamTable.defaultId → (n ∈ d.streams.ids ↔ Stream.Kept log ⟨id, n⟩)
  created : ∀ s, .created s ∈ log → s.device = id ∧ s.id < d.streams.next
  freed : ∀ s, .freed s ∈ log → s.device = id ∧ s.id < d.streams.next ∧
    (s.id ≠ StreamTable.defaultId → s.id ∉ d.streams.ids)
  single : several = false → d.streams.ids = [StreamTable.defaultId]
  next_le : d.streams.next ≤ log.length + 1

namespace Device

variable {id : Nat} {several : Bool} {log : List DeviceEvent} {d d' : Device} {ev : DeviceEvent}

/-- An opened device has the default stream. -/
theorem streamsFit_open (id : Nat) (spec : DeviceSpec) :
    (Device.open id spec).StreamsFit id (spec.backend = .accelerator) [] where
  isOpen := rfl
  id_eq := rfl
  device := rfl
  several_eq := rfl
  default_mem := List.mem_singleton_self _
  current_mem := List.mem_singleton_self _
  lt_next := by
    intro n hn
    rw [List.mem_singleton.1 hn]
    exact Nat.zero_lt_one
  kept := by
    intro n hn
    constructor
    · intro hmem
      exact absurd (List.mem_singleton.1 hmem) hn
    · intro h
      exact absurd h Stream.not_kept_nil
  created := by simp
  freed := by simp
  single := fun _ => rfl
  next_le := Nat.le_refl _

namespace StreamsFit

/-- The streams of the table are those that there are. -/
theorem has_iff (h : d.StreamsFit id several log) (s : Stream) :
    d.streams.Has s ↔ s.Live id log := by
  rw [StreamTable.Has, h.device]
  constructor
  · rintro ⟨hdevice, hmem⟩
    obtain ⟨device, n⟩ := s
    obtain rfl : device = id := hdevice
    by_cases hn : n = StreamTable.defaultId
    · exact Or.inl (by rw [hn])
    · exact Or.inr ((h.kept n hn).1 hmem)
  · rintro (rfl | hkept)
    · exact ⟨rfl, h.default_mem⟩
    · have hdevice := (h.created s hkept.created_mem).1
      refine ⟨hdevice, ?_⟩
      by_cases hn : s.id = StreamTable.defaultId
      · rw [hn]
        exact h.default_mem
      · refine (h.kept s.id hn).2 ?_
        rw [← hdevice]
        exact hkept

/-- A call that neither creates nor frees a stream leaves the table in step with the history, as
long as the current stream is one of the table's. -/
theorem of_quiet (h : d.StreamsFit id several log) (hisOpen : d'.isOpen = d.isOpen)
    (hid : d'.id = d.id) {current : Nat} (hcurrent : current ∈ d.streams.ids)
    (hstreams : d'.streams = { d.streams with current := current })
    (hcreated : ∀ s, ev ≠ .created s) (hfreed : ∀ s, ev ≠ .freed s) :
    d'.StreamsFit id several (log ++ [ev]) where
  isOpen := hisOpen.trans h.isOpen
  id_eq := hid.trans h.id_eq
  device := by rw [hstreams]; exact h.device
  several_eq := by rw [hstreams]; exact h.several_eq
  default_mem := by rw [hstreams]; exact h.default_mem
  current_mem := by rw [hstreams]; exact hcurrent
  lt_next := by rw [hstreams]; exact h.lt_next
  kept := by
    intro n hn
    rw [hstreams, Stream.kept_append_iff, h.kept n hn]
    simp [hcreated, hfreed]
  created := by
    intro s hs
    rw [hstreams]
    refine h.created s ?_
    simpa [(hcreated s).symm] using hs
  freed := by
    intro s hs
    rw [hstreams]
    refine h.freed s ?_
    simpa [(hfreed s).symm] using hs
  single := by rw [hstreams]; exact h.single
  next_le := by
    have := h.next_le
    rw [hstreams, List.length_append, List.length_singleton]
    simp only
    omega

/-- A new stream of a device that has several is one more. -/
theorem push (h : d.StreamsFit id true log) :
    Device.StreamsFit id true (log ++ [.created ⟨id, d.streams.next⟩])
      { d with streams := d.streams.push } where
  isOpen := h.isOpen
  id_eq := h.id_eq
  device := h.device
  several_eq := h.several_eq
  default_mem := List.mem_append_left _ h.default_mem
  current_mem := List.mem_append_left _ h.current_mem
  lt_next := by
    intro n hn
    rcases List.mem_append.1 hn with hn | hn
    · exact Nat.lt_succ_of_lt (h.lt_next n hn)
    · rw [List.mem_singleton.1 hn]
      exact Nat.lt_succ_self _
  kept := by
    intro n hn
    rw [StreamTable.push, List.mem_append, List.mem_singleton, h.kept n hn,
      Stream.kept_append_iff, DeviceEvent.created_inj]
    simp only [Stream.mk.injEq, true_and, ne_eq, DeviceEvent.created_ne_freed, not_false_eq_true,
      and_true]
    rw [or_comm, eq_comm]
  created := by
    intro s hs
    rcases List.mem_append.1 hs with hs | hs
    · obtain ⟨hdevice, hlt⟩ := h.created s hs
      exact ⟨hdevice, Nat.lt_succ_of_lt hlt⟩
    · obtain rfl := DeviceEvent.created_inj.1 (List.mem_singleton.1 hs)
      exact ⟨rfl, Nat.lt_succ_self _⟩
  freed := by
    intro s hs
    have hs' : .freed s ∈ log := by simpa [(DeviceEvent.created_ne_freed _ s).symm] using hs
    obtain ⟨hdevice, hlt, hgone⟩ := h.freed s hs'
    refine ⟨hdevice, Nat.lt_succ_of_lt hlt, fun hn hmem => ?_⟩
    -- The number of a freed stream is below that of the new one.
    rcases List.mem_append.1 hmem with hmem | hmem
    · exact hgone hn hmem
    · exact Nat.ne_of_lt hlt (List.mem_singleton.1 hmem)
  single := by simp
  next_le := by
    rw [List.length_append]
    exact Nat.succ_le_succ h.next_le

/-- A device with a single stream hands that out again. -/
theorem handsOut (h : d.StreamsFit id false log) :
    d.StreamsFit id false (log ++ [.created ⟨id, StreamTable.defaultId⟩]) where
  isOpen := h.isOpen
  id_eq := h.id_eq
  device := h.device
  several_eq := h.several_eq
  default_mem := h.default_mem
  current_mem := h.current_mem
  lt_next := h.lt_next
  kept := by
    intro n hn
    rw [h.kept n hn, Stream.kept_append_iff, DeviceEvent.created_inj]
    simp [DeviceEvent.created_ne_freed, hn.symm]
  created := by
    intro s hs
    rcases List.mem_append.1 hs with hs | hs
    · exact h.created s hs
    · obtain rfl := DeviceEvent.created_inj.1 (List.mem_singleton.1 hs)
      exact ⟨rfl, h.lt_next _ h.default_mem⟩
  freed := by
    intro s hs
    refine h.freed s ?_
    simpa [(DeviceEvent.created_ne_freed _ s).symm] using hs
  single := h.single
  next_le := by
    rw [List.length_append]
    exact Nat.le_succ_of_le h.next_le

/-- Freeing the default stream changes nothing. -/
theorem freesDefault (h : d.StreamsFit id several log) :
    d.StreamsFit id several (log ++ [.freed ⟨id, StreamTable.defaultId⟩]) where
  isOpen := h.isOpen
  id_eq := h.id_eq
  device := h.device
  several_eq := h.several_eq
  default_mem := h.default_mem
  current_mem := h.current_mem
  lt_next := h.lt_next
  kept := by
    intro n hn
    rw [h.kept n hn, Stream.kept_append_iff, ne_eq, DeviceEvent.freed_inj]
    simp [(DeviceEvent.created_ne_freed _ _).symm, hn.symm]
  created := by
    intro s hs
    refine h.created s ?_
    simpa [DeviceEvent.created_ne_freed] using hs
  freed := by
    intro s hs
    rcases List.mem_append.1 hs with hs | hs
    · exact h.freed s hs
    · obtain rfl := DeviceEvent.freed_inj.1 (List.mem_singleton.1 hs)
      exact ⟨rfl, h.lt_next _ h.default_mem, fun hn => absurd rfl hn⟩
  single := h.single
  next_le := by
    rw [List.length_append]
    exact Nat.le_succ_of_le h.next_le

/-- Another stream that is freed is no more in the table. -/
theorem freesOther (h : d.StreamsFit id several log) {m : Nat} (hm : m ∈ d.streams.ids)
    (hother : m ≠ StreamTable.defaultId) :
    Device.StreamsFit id several (log ++ [.freed ⟨id, m⟩])
      { d with streams := { d.streams with
        ids := d.streams.ids.filter (· ≠ m)
        current := if d.streams.current = m then StreamTable.defaultId else d.streams.current } }
    where
  isOpen := h.isOpen
  id_eq := h.id_eq
  device := h.device
  several_eq := h.several_eq
  default_mem := List.mem_filter.2 ⟨h.default_mem, decide_eq_true hother.symm⟩
  current_mem := by
    dsimp only
    split
    · exact List.mem_filter.2 ⟨h.default_mem, decide_eq_true hother.symm⟩
    · next hcurrent => exact List.mem_filter.2 ⟨h.current_mem, decide_eq_true hcurrent⟩
  lt_next := by
    intro n hn
    exact h.lt_next n (List.mem_filter.1 hn).1
  kept := by
    intro n hn
    have hsame : (⟨id, m⟩ : Stream) = ⟨id, n⟩ ↔ n = m := by
      rw [Stream.mk.injEq, eq_self, true_and, eq_comm]
    rw [List.mem_filter, h.kept n hn, Stream.kept_append_iff, ne_eq (DeviceEvent.freed _),
      DeviceEvent.freed_inj, hsame]
    simp [(DeviceEvent.created_ne_freed _ _).symm]
  created := by
    intro s hs
    refine h.created s ?_
    simpa [DeviceEvent.created_ne_freed] using hs
  freed := by
    intro s hs
    rcases List.mem_append.1 hs with hs | hs
    · obtain ⟨hdevice, hlt, hgone⟩ := h.freed s hs
      exact ⟨hdevice, hlt, fun hn hmem => hgone hn (List.mem_filter.1 hmem).1⟩
    · obtain rfl := DeviceEvent.freed_inj.1 (List.mem_singleton.1 hs)
      refine ⟨rfl, h.lt_next m hm, fun _ hmem => ?_⟩
      exact of_decide_eq_true (List.mem_filter.1 hmem).2 rfl
  single := by
    intro hsingle
    rw [h.single hsingle, List.mem_singleton] at hm
    exact absurd hm hother
  next_le := by
    rw [List.length_append]
    exact Nat.le_succ_of_le h.next_le

/-- A freed stream is no more in the table, unless it is the default one. -/
theorem freesStream {s : Stream} (h : d.StreamsFit id several log) (hs : d.streams.Has s) :
    Device.StreamsFit id several (log ++ [.freed s])
      { d with streams := d.streams.without s.id } := by
  obtain ⟨device, m⟩ := s
  obtain ⟨hdevice, hm⟩ := hs
  obtain rfl : device = id := hdevice.trans h.device
  by_cases hdefault : m = StreamTable.defaultId
  · subst hdefault
    rw [StreamTable.without, if_pos rfl]
    exact h.freesDefault
  · rw [StreamTable.without, if_neg hdefault]
    exact h.freesOther hm hdefault

/-- A new stream is in the table. -/
theorem createsStream (h : d.StreamsFit id several log) :
    Device.StreamsFit id several (log ++ [.created d.streams.create.1])
      { d with streams := d.streams.create.2 } := by
  rw [StreamTable.create_eq, h.several_eq, h.device]
  cases several with
  | true => exact h.push
  | false => exact h.handsOut

/-- **A call that does not free the device keeps the table in step with the history.** -/
theorem does (h : d.StreamsFit id several log) (hd : d.Does ev d') (hopen : ev.call ≠ .free) :
    d'.StreamsFit id several (log ++ [ev]) := by
  -- Streams are created and freed by two kinds of calls only; all others are quiet.
  have hquiet : (∀ s, ev ≠ .created s) → (∀ s, ev ≠ .freed s) → d'.isOpen = d.isOpen →
      d'.id = d.id → d'.streams = d.streams → d'.StreamsFit id several (log ++ [ev]) := by
    intro hcreated hfreed hisOpen hid hstreams
    exact h.of_quiet hisOpen hid h.current_mem hstreams hcreated hfreed
  cases hd with
  | refuses c err =>
      refine hquiet ?_ ?_ rfl rfl rfl
      · intro s hs
        cases hs
      · intro s hs
        cases hs
  | looks hc a =>
      refine hquiet ?_ ?_ rfl rfl rfl
      · rintro s hs
        cases hs
        exact hc
      · rintro s hs
        cases hs
        exact hc
  | allocates source isMapped block hsize =>
      exact hquiet (fun s hs => by cases hs) (fun s hs => by cases hs) rfl rfl rfl
  | wraps block size =>
      exact hquiet (fun s hs => by cases hs) (fun s hs => by cases hs) rfl rfl rfl
  | @takesBack m hm =>
      refine hquiet (fun s hs => by cases hs) (fun s hs => by cases hs) ?_ ?_ ?_ <;>
        cases m.isWrapper <;> rfl
  | createsStream => exact h.createsStream
  | @freesStream s t ht =>
      rw [StreamTable.free_eq] at ht
      split at ht
      · next hs =>
          cases ht
          exact h.freesStream hs
      · cases ht
  | @setsStream s t ht =>
      rw [StreamTable.setCurrent_eq] at ht
      split at ht
      · next hs =>
          cases ht
          exact h.of_quiet rfl rfl hs.2 rfl (fun s hs => by cases hs) (fun s hs => by cases hs)
      · cases ht
  | closes => exact absurd rfl hopen

/-- After every history in which the device is not freed its table fits the history. -/
theorem of_served (id : Nat) (spec : DeviceSpec) {e : Engine}
    (hd : (Device.open id spec).Served e log d) (hopen : ∀ ev ∈ log, ev.call ≠ .free) :
    d.StreamsFit id (spec.backend = .accelerator) log := by
  induction hd with
  | start => exact streamsFit_open id spec
  | call hd c host ih =>
      rw [List.forall_mem_append, List.forall_mem_singleton] at hopen
      exact (ih hopen.1).does (c.does e _ host) hopen.2

end StreamsFit

/-! ### What a device makes of a stream -/

/-- A device accepts the streams of its table and refuses the others. -/
theorem StreamsFit.setStream_eq (h : d.StreamsFit id several log) (s : Stream) :
    d.setStream s = if d.streams.Has s
      then .ok { d with streams := { d.streams with current := s.id } }
      else .error (StreamTable.refusal id s) := by
  rw [setStream, bind_streams, if_pos h.isOpen, StreamTable.setCurrent_eq, ← h.device]
  split <;> rfl

theorem StreamsFit.freeStream_eq (h : d.StreamsFit id several log) (s : Stream) :
    d.freeStream s = if d.streams.Has s
      then .ok { d with streams := d.streams.without s.id }
      else .error (StreamTable.refusal id s) := by
  rw [freeStream, bind_streams, if_pos h.isOpen, StreamTable.free_eq, ← h.device]
  split <;> rfl

/-- The current stream is there. -/
theorem StreamsFit.currentStream_live (h : d.StreamsFit id several log) :
    ∃ s, d.currentStream = .ok s ∧ s.Live id log := by
  refine ⟨⟨id, d.streams.current⟩, ?_, ?_⟩
  · rw [currentStream, bind_ensureOpen, if_pos h.isOpen, StreamTable.handle, h.device]
    rfl
  · exact (h.has_iff _).1 ⟨h.device.symm, h.current_mem⟩

/-- A device with several streams gives a new one a number that none had before it. -/
theorem StreamsFit.createStream_fresh (h : d.StreamsFit id true log) :
    ∃ s d', d.createStream = .ok (s, d') ∧ s.device = id ∧ s.id ≠ StreamTable.defaultId ∧
      ∀ s', .created s' ∈ log → s'.id ≠ s.id := by
  refine ⟨⟨id, d.streams.next⟩, { d with streams := d.streams.create.2 }, ?_, rfl, ?_, ?_⟩
  · rw [createStream, bind_ensureOpen, if_pos h.isOpen, StreamTable.create, if_pos h.several_eq,
      StreamTable.handle, h.device]
    rfl
  · exact Nat.ne_of_gt (h.lt_next _ h.default_mem)
  · intro s' hs'
    exact Nat.ne_of_lt (h.created s' hs').2

/-- A stream that was freed is unknown, unless it is the default one. -/
theorem StreamsFit.unknown_of_freed (h : d.StreamsFit id several log) {s : Stream}
    (hs : .freed s ∈ log) (hn : s.id ≠ StreamTable.defaultId) :
    d.setStream s = .error (.unknownStream s.id) ∧
      d.freeStream s = .error (.unknownStream s.id) := by
  obtain ⟨hdevice, -, hgone⟩ := h.freed s hs
  have hhas : ¬d.streams.Has s := fun hhas => hgone hn hhas.2
  rw [h.setStream_eq, h.freeStream_eq, if_neg hhas, if_neg hhas, StreamTable.refusal,
    if_pos hdevice]
  exact ⟨rfl, rfl⟩

/-- A device with a single stream has the default one only. -/
theorem StreamsFit.has_iff_default (h : d.StreamsFit id false log) (s : Stream) :
    d.streams.Has s ↔ s = ⟨id, StreamTable.defaultId⟩ := by
  rw [StreamTable.Has, h.device, h.single rfl, List.mem_singleton, Stream.mk.injEq]

theorem StreamsFit.createStream_single (h : d.StreamsFit id false log) :
    d.createStream = .ok (⟨id, StreamTable.defaultId⟩, d) := by
  have hsingle : ¬d.streams.several = true := by simp [h.several_eq]
  rw [createStream, bind_ensureOpen, if_pos h.isOpen, StreamTable.create, if_neg hsingle,
    StreamTable.handle, h.device]
  rfl

/-- **What a device makes of every stream, after every history** in which it is not freed.

It has the streams that there are by the history: the default one, and those that were created and
not freed since.  The current one is one of them.  It accepts these and refuses all others, as
foreign exactly if they name another device, and freeing the default one does nothing.  A call that
fails, of whatever kind, leaves the device as it is.

If the device has several streams, each new one has a number that none had before, so a freed one is
unknown from then on; if it has not, there is the default one only, and that is handed out again.
The numbers are of sixty-four bits as long as the history is shorter than there are such numbers. -/
theorem streams_match_history (id : Nat) (spec : DeviceSpec) {e : Engine}
    (hd : (Device.open id spec).Served e log d) (hopen : ∀ ev ∈ log, ev.call ≠ .free) :
    (∀ s, d.streams.Has s ↔ s.Live id log) ∧
    (∃ s, d.currentStream = .ok s ∧ s.Live id log) ∧
    (∀ s, s.Live id log →
      d.setStream s = .ok { d with streams := { d.streams with current := s.id } } ∧
      d.freeStream s = .ok { d with streams := d.streams.without s.id }) ∧
    d.freeStream ⟨id, StreamTable.defaultId⟩ = .ok d ∧
    (∀ s, ¬s.Live id log →
      d.setStream s = .error (StreamTable.refusal id s) ∧
      d.freeStream s = .error (StreamTable.refusal id s)) ∧
    (∀ s, StreamTable.refusal id s = .foreign .stream ↔ s.device ≠ id) ∧
    (∀ (c : DeviceCall) (host : DeviceHost) (err : DeviceError),
      (c.perform e d host).answer = .error err → (c.perform e d host).device = d) ∧
    (spec.backend = .accelerator →
      (∃ s d', d.createStream = .ok (s, d') ∧ s.device = id ∧ s.id ≠ StreamTable.defaultId ∧
        ∀ s', .created s' ∈ log → s'.id ≠ s.id) ∧
      ∀ s, .freed s ∈ log → s.id ≠ StreamTable.defaultId →
        d.setStream s = .error (.unknownStream s.id) ∧
        d.freeStream s = .error (.unknownStream s.id)) ∧
    (spec.backend ≠ .accelerator →
      d.createStream = .ok (⟨id, StreamTable.defaultId⟩, d) ∧
      ∀ s, d.streams.Has s ↔ s = ⟨id, StreamTable.defaultId⟩) ∧
    (log.length < sizeBound - 1 → d.streams.next < sizeBound) := by
  have h := StreamsFit.of_served id spec hd hopen
  refine ⟨h.has_iff, h.currentStream_live, ?_, ?_, ?_, ?_, ?_, ?_, ?_, ?_⟩
  · intro s hs
    have hhas := (h.has_iff s).2 hs
    rw [h.setStream_eq, h.freeStream_eq, if_pos hhas, if_pos hhas]
    exact ⟨rfl, rfl⟩
  · rw [h.freeStream_eq, if_pos ⟨h.device.symm, h.default_mem⟩, StreamTable.without, if_pos rfl]
  · intro s hs
    have hhas : ¬d.streams.Has s := fun hhas => hs ((h.has_iff s).1 hhas)
    rw [h.setStream_eq, h.freeStream_eq, if_neg hhas, if_neg hhas]
    exact ⟨rfl, rfl⟩
  · intro s
    by_cases hs : s.device = id <;> simp [StreamTable.refusal, hs]
  · intro c host err herr
    exact DeviceCall.device_of_error herr
  · intro hbackend
    rw [decide_eq_true hbackend] at h
    exact ⟨h.createStream_fresh, fun s hs hn => h.unknown_of_freed hs hn⟩
  · intro hbackend
    rw [decide_eq_false hbackend] at h
    exact ⟨h.createStream_single, h.has_iff_default⟩
  · intro hlength
    have := h.next_le
    omega

/-- An accelerator whose stream was made current and then freed is back at the default one, and
knows the freed one no more. -/
theorem accelerator_forgets_stream :
    let d₀ := Device.open 3 ⟨.accelerator, "c++", "-g", "", "", none⟩
    let log : List DeviceEvent :=
      [.created ⟨3, 1⟩, ⟨.setStream ⟨3, 1⟩, .ok ()⟩, .freed ⟨3, 1⟩]
    let d := { d₀ with streams := ⟨3, true, 2, StreamTable.defaultId, [StreamTable.defaultId]⟩ }
    d₀.Served .native log d ∧ (∀ ev ∈ log, ev.call ≠ .free) ∧
      d.setStream ⟨3, 1⟩ = .error (.unknownStream 1) := by
  intro d₀ log d
  have hd : d₀.Served .native log d :=
    ((Served.start.call .createStream ⟨.empty, .empty⟩).call (.setStream ⟨3, 1⟩)
      ⟨.empty, .empty⟩).call (.freeStream ⟨3, 1⟩) ⟨.empty, .empty⟩
  have hopen : ∀ ev ∈ log, ev.call ≠ .free := by simp [log, DeviceEvent.created, DeviceEvent.freed]
  obtain ⟨-, -, -, -, -, -, -, haccelerator, -⟩ := streams_match_history 3 _ hd hopen
  exact ⟨hd, hopen, ((haccelerator rfl).2 ⟨3, 1⟩ (by simp [log]) (by decide)).1⟩

end Device

end KernelCache
