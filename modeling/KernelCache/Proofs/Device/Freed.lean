/-
**A device that is freed stays freed.**

From the call that frees a device on, every other call is refused as made to a freed device,
whatever its arguments and whatever else is wrong with them, and nothing of the device changes any
more.  A build on such a device ends before it looks at a file.

Main results:

* `Device.Served.last`, `Device.Served.split` — a history is one and what follows it;
* `DeviceCall.perform_of_freed` — **what a call to a freed device does**;
* `Device.Served.of_freed` — no history gets out of a freed device;
* `Device.freed_for_ever` — the calls and the builds after a device was freed.
-/

import KernelCache.Build.Workplace
import KernelCache.Proofs.Device.Call

set_option relaxedAutoImplicit false
set_option autoImplicit false

namespace KernelCache

variable {d d' : Device} {log log' : List DeviceEvent}

/-! ### Histories in two parts -/

namespace Device

variable {e : Engine} {ev : DeviceEvent}

/-- The latest call of a history did what calls can do. -/
theorem Served.last (h : d.Served e (log ++ [ev]) d') : ∃ m, d.Served e log m ∧ m.Does ev d' := by
  generalize hall : log ++ [ev] = all at h
  cases h with
  | start => cases List.append_eq_nil_iff.1 hall |>.2
  | @call init m hm c host =>
      obtain ⟨rfl, hlast⟩ := List.append_inj' hall rfl
      rw [List.singleton_inj.1 hlast]
      exact ⟨m, hm, c.does e m host⟩

/-- A device that has served some calls and then others is at some device in between. -/
theorem Served.split (h : d.Served e (log ++ log') d') :
    ∃ m, d.Served e log m ∧ m.Served e log' d' := by
  generalize hall : log ++ log' = all at h
  induction h generalizing log' with
  | start =>
      obtain ⟨rfl, rfl⟩ := List.append_eq_nil_iff.1 hall
      exact ⟨d, .start, .start⟩
  | call hd c host ih =>
      rcases List.eq_nil_or_concat log' with rfl | ⟨rest, last, rfl⟩
      · rw [List.append_nil] at hall
        subst hall
        exact ⟨_, hd.call c host, .start⟩
      · -- The latest call is in the second part.
        rw [List.concat_eq_append, ← List.append_assoc] at hall
        obtain ⟨hinit, hlast⟩ := List.append_inj' hall rfl
        obtain ⟨m, hm, hrest⟩ := ih hinit
        rw [List.concat_eq_append, List.singleton_inj.1 hlast]
        exact ⟨m, hm, hrest.call c host⟩

end Device

/-! ### Calls to a freed device -/

/-- **A freed device refuses every call but the one that frees it**, and neither it nor the files
change.  Only a memory that it is given back is given up. -/
theorem DeviceCall.perform_of_freed (hd : d.isOpen = false) (h : DeviceHost) {c : DeviceCall}
    (hc : c ≠ .free) :
    ∃ storage, c.perform .native d h = ⟨.error .freed, d, { h with storage := storage }⟩ := by
  have hensure := Device.ensureOpen_of_freed hd
  cases c with
  | free => exact absurd rfl hc
  | freeMemory m =>
      -- The handle is given up before the device looks at it.
      refine ⟨m.drop h.storage, ?_⟩
      simp only [perform, Device.freeMemory, Device.account, hensure]
      rfl
  | compile | compileAndLoad | flush | finish =>
      refine ⟨h.storage, ?_⟩
      simp only [perform, Engine.compileAndLoad, Engine.compile, Device.flush, Device.finish,
        hensure]
  | load | allocate | wrap | freeKernel | createStream | freeStream | currentStream | setStream
  | tagStream | waitFor | timeBetween =>
      refine ⟨h.storage, ?_⟩
      simp only [perform, Engine.load, Device.allocate, Device.wrap, Device.freeKernel,
        Device.createStream, Device.freeStream, Device.currentStream, Device.setStream,
        Device.tagStream, Device.waitFor, Device.timeBetween, hensure]
      rfl

namespace Device

/-- Freeing a freed device changes nothing. -/
theorem free_of_freed (hd : d.isOpen = false) : d.free = d := by
  rw [free, ← hd]

/-- The call that frees a device closes it. -/
theorem Does.of_free (h : d.Does ⟨.free, .ok ()⟩ d') : d' = d.free := by
  cases h with
  | looks hc => exact hc.elim
  | closes => rfl

/-- No history gets out of a freed device: it stays what it is, and every call but those that free
it again is refused. -/
theorem Served.of_freed (hd : d.isOpen = false) (h : d.Served .native log d') :
    d' = d ∧ ∀ ev ∈ log, ev.call ≠ .free → ev.answer = .error .freed := by
  induction h with
  | start => exact ⟨rfl, by simp⟩
  | call h c host ih =>
      obtain ⟨rfl, hlog⟩ := ih
      by_cases hc : c = .free
      · subst hc
        refine ⟨free_of_freed hd, ?_⟩
        rw [List.forall_mem_append, List.forall_mem_singleton]
        exact ⟨hlog, fun hc => absurd rfl hc⟩
      · obtain ⟨storage, hperform⟩ := DeviceCall.perform_of_freed hd host hc
        rw [hperform]
        refine ⟨rfl, ?_⟩
        rw [List.forall_mem_append, List.forall_mem_singleton]
        exact ⟨hlog, fun _ => rfl⟩

/-- A build on a freed device ends at once, with everything as it was. -/
theorem runTask_build_of_freed {w : Workplace} (hw : w.device.isOpen = false) (p : Pipeline)
    (job : Job) : w.runTask (p.build w.view job) = (some (.error (.device .freed)), w) := by
  have hview : (!w.view.isOpen) = true := by simp [Workplace.view, hw]
  rw [Pipeline.build, if_pos hview]
  rfl

/-- **A device that is freed stays freed.**

Between the call that frees it and any later point, every call but those that free it again is
refused as made to a freed device.  The device is then the one that it was before it was freed, but
for being closed: its identity, the bytes that it has allocated and its streams are the same.  Every
further call is refused in the same way, whatever its arguments and the machine, and leaves the
device and the files as they are; so does a build on the device. -/
theorem freed_for_ever (id : Nat) (spec : DeviceSpec) {before after : List DeviceEvent}
    (h : (Device.open id spec).Served .native (before ++ ⟨.free, .ok ()⟩ :: after) d') :
    (∃ d, (Device.open id spec).Served .native before d ∧ d' = { d with isOpen := false }) ∧
    (∀ ev ∈ after, ev.call ≠ .free → ev.answer = .error .freed) ∧
    (∀ (c : DeviceCall) (host : DeviceHost), (c ≠ .free →
      (c.perform .native d' host).answer = .error .freed) ∧
      (c.perform .native d' host).device = d' ∧
      (c.perform .native d' host).host.files = host.files) ∧
    ∀ (w : Workplace) (p : Pipeline) (job : Job), w.device = d' →
      w.runTask (p.build w.view job) = (some (.error (.device .freed)), w) := by
  rw [List.append_cons] at h
  obtain ⟨m, hm, hafter⟩ := h.split
  obtain ⟨d, hbefore, hfree⟩ := hm.last
  obtain rfl : m = d.free := hfree.of_free
  obtain ⟨rfl, hrefused⟩ := hafter.of_freed rfl
  refine ⟨⟨d, hbefore, rfl⟩, hrefused, ?_, ?_⟩
  · intro c host
    by_cases hc : c = .free
    · subst hc
      exact ⟨fun hc => absurd rfl hc, free_of_freed rfl, rfl⟩
    · obtain ⟨storage, hperform⟩ := DeviceCall.perform_of_freed (d := d.free) rfl host hc
      rw [hperform]
      exact ⟨fun _ => rfl, rfl, rfl⟩
  · intro w p job hw
    refine runTask_build_of_freed ?_ p job
    rw [hw]
    rfl

/-- A freed device does not complain of a null handle any more, and still has the bytes that it had
allocated. -/
theorem freed_hides_null_handle :
    let d₀ := Device.open 0 ⟨.threaded, "g++", "-O3", "", "", some 4⟩
    let d := { d₀ with isOpen := false, allocated := 16 }
    d₀.Served .native ([⟨.allocate 16 none true, .ok ⟨0, 16, 0, false, true⟩⟩,
      ⟨.wrap none 8, .error .nullHandle⟩] ++ ⟨.free, .ok ()⟩ ::
      [⟨.wrap none 8, .error .freed⟩, ⟨.free, .ok ()⟩]) d ∧
    ∀ host, ((DeviceCall.wrap none 8).perform .native d host).answer = .error .freed := by
  intro d₀ d
  let host : DeviceHost := ⟨.empty, .empty⟩
  have h : d₀.Served .native ([⟨.allocate 16 none true, .ok ⟨0, 16, 0, false, true⟩⟩,
      ⟨.wrap none 8, .error .nullHandle⟩] ++ ⟨.free, .ok ()⟩ ::
      [⟨.wrap none 8, .error .freed⟩, ⟨.free, .ok ()⟩]) d :=
    ((((Served.start.call (.allocate 16 none true) host).call (.wrap none 8) host).call
      .free host).call (.wrap none 8) host).call .free host
  have hfreed := (freed_for_ever 0 _ h).2.2.1
  exact ⟨h, fun host => (hfreed (.wrap none 8) host).1 (by intro hc; cases hc)⟩

end Device

end KernelCache
