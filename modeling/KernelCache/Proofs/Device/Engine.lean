/-
**What devices do when they compile and load.**

Main results:

* `Engine.compile_simulated` — **a simulated compiler writes its output, if anything**;
* `Engine.load_ok` — what is loaded is what the launch says.
-/

import KernelCache.Device.Engine
import KernelCache.Proofs.Files.Effect

set_option relaxedAutoImplicit false
set_option autoImplicit false

namespace KernelCache

/-- **A simulated compiler writes its output, if anything**, and not over a directory. -/
theorem Engine.compile_simulated {fault : Option SimulatedFault} {d : Device} {source output : Path}
    {files files' : FileSystem} {r : Except DeviceError Unit}
    (h : (Engine.simulated fault).compile d source output files = (r, files')) :
    files' = files ∨ files.node? output.place ≠ some .directory ∧
      ∃ b, files'.node? = Function.update files.node? output.place (some (.file b)) := by
  rw [compile] at h
  split at h
  · cases h
    exact Or.inl rfl
  · rcases fault with _ | fault
    · simp only [simulate, markSource] at h
      split at h
      · rename_i fs hwrite
        cases h
        obtain ⟨bytes, -, hwrite⟩ := bind_eq_ok_iff.1 hwrite
        obtain ⟨hdir, hfs⟩ := FileSystem.writeFile_ok hwrite
        exact Or.inr ⟨hdir, _, hfs⟩
      · cases h
        exact Or.inl rfl
    · cases fault <;> cases h <;> exact Or.inl rfl

/-- What a device loads has the entry and the arguments of the launch. -/
theorem Engine.load_ok {e : Engine} {d : Device} {binary : Path} {l : Launch} {files : FileSystem}
    {x : Loaded} (h : e.load d binary l files = .ok x) : x = Loaded.ofLaunch l := by
  cases e with
  | native =>
      rw [load] at h
      obtain ⟨u, -, h⟩ := bind_eq_ok_iff.1 h
      cases h
  | simulated fault =>
      rw [load] at h
      split at h
      · cases h
      · split at h
        · exact (Except.ok.inj h).symm
        · cases h

end KernelCache
