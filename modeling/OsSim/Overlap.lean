import OsSim.MmVm

/-!
# The Overlap Check

`validate_overlap_vm_area` should keep an area from growing into another. Its loop over the areas
runs while the link is `NULL`, so it looks at no area at all.

## How the argument goes

The first thing that the function does with the list is to read a field of its head, which has no
defined behaviour for an empty one; after that the loop ends at once, and 0 is returned
(`validateOverlapVmArea_eq_zero_iff`). So -1 is never returned, whatever the areas are
(`validateOverlapVmArea_ne`).

`OverlapDetected` asks for an answer, for -1 exactly if another area has a byte of the planned
range, and that a growth request is not granted then. The check is right, then, when there is an
area and nothing to find. Processes have one area only, so no program of the repository meets the
other case; two areas that lie one behind the other do.

## Main results

* `validateOverlapVmArea_eq_zero_iff`: the check returns 0 for every list that is not empty.
* `overlapDetected_iff`: **the check is right exactly when there is an area, and nothing to find**.
* `overlapDetected_fails`: two areas, the second behind the first.
-/

namespace OsSim

variable {ι : Type} [DecidableEq ι]

/-- The area has a byte from `vmastart` on, before `vmaend`. -/
def VmArea.Shares (vma : VmArea) (vmastart vmaend : ℤ) : Prop :=
  ∃ a : ℤ, (vmastart ≤ a ∧ a < vmaend) ∧ vma.vmStart ≤ a ∧ a < vma.vmEnd

/-- Some other area than `vmaid` has a byte of the planned range. -/
def Overlapping (mm : Mm) (vmaid vmastart vmaend : ℤ) : Prop :=
  ∃ vma ∈ mm.mmap, vma.vmId ≠ toULong vmaid ∧ vma.vmStart < vma.vmEnd ∧
    vma.Shares vmastart vmaend

/-- The check finds the overlaps and nothing else, and the area `vmaid` does not grow over the
planned range if there is one. -/
structure OverlapDetected (s : Sys ι) (p : ι) (vmaid vmastart vmaend : ℤ) : Prop where
  overlapping : Overlapping (s.mm p) vmaid vmastart vmaend →
    validateOverlapVmArea (s.mm p) vmaid vmastart vmaend = some (-1)
  separate : ¬ Overlapping (s.mm p) vmaid vmastart vmaend →
    validateOverlapVmArea (s.mm p) vmaid vmastart vmaend = some 0
  growth : ∀ incSz area,
    getVmAreaNodeAtBrk (s.mm p) vmaid incSz (pagingPageAlignsz incSz) = some area →
      toInt area.rgStart = vmastart → toInt area.rgEnd = vmaend →
        Overlapping (s.mm p) vmaid vmastart vmaend → incVmaLimit s p vmaid incSz = some (-1, s)

/-- The check finds no overlap in any list of areas. -/
theorem validateOverlapVmArea_ne (mm : Mm) (vmaid vmastart vmaend : ℤ) :
    validateOverlapVmArea mm vmaid vmastart vmaend ≠ some (-1) := by
  rw [validateOverlapVmArea]
  split
  · exact (Option.some_ne_none _).symm
  · exact fun heq => absurd (Option.some.inj heq) (by omega)

/-- It returns 0 for every list with an area in it. -/
theorem validateOverlapVmArea_eq_zero_iff {mm : Mm} {vmaid vmastart vmaend : ℤ} :
    validateOverlapVmArea mm vmaid vmastart vmaend = some 0 ↔ mm.mmap ≠ [] := by
  rw [validateOverlapVmArea]
  split
  · rename_i hnil
    exact iff_of_false (Option.some_ne_none _).symm (absurd hnil)
  · rename_i vma next hcons
    exact iff_of_true rfl (by rw [hcons]; exact List.cons_ne_nil vma next)

/-- **The check is right exactly when there is an area, and nothing to find**: the list is not
empty, and no other area has a byte of the planned range. -/
theorem overlapDetected_iff (s : Sys ι) (p : ι) (vmaid vmastart vmaend : ℤ) :
    OverlapDetected s p vmaid vmastart vmaend ↔
      (s.mm p).mmap ≠ [] ∧ ¬ Overlapping (s.mm p) vmaid vmastart vmaend := by
  constructor
  · intro h
    have hnone : ¬ Overlapping (s.mm p) vmaid vmastart vmaend := fun hover =>
      validateOverlapVmArea_ne _ _ _ _ (h.overlapping hover)
    exact ⟨validateOverlapVmArea_eq_zero_iff.mp (h.separate hnone), hnone⟩
  · rintro ⟨hne, hnone⟩
    exact
      { overlapping := fun hover => absurd hover hnone
        separate := fun _ => validateOverlapVmArea_eq_zero_iff.mpr hne
        growth := fun _ _ _ _ _ hover => absurd hover hnone }

/-- Two areas of 512 bytes, the second behind the first. -/
def twoAreas : Sys Unit where
  mram := initMemphy 512 true
  mswp _ := initMemphy 512 true
  procs _ :=
    { mm := { initMm with mmap := [⟨0, 0, 512, 512, []⟩, ⟨1, 512, 1024, 1024, []⟩] }
      activeMswp := 0
      activeMswpId := 0 }

/-- Nothing keeps the first area from growing into the second. -/
theorem overlapDetected_fails : ¬ OverlapDetected twoAreas () 0 512 768 := by
  intro h
  refine validateOverlapVmArea_ne _ _ _ _ (h.overlapping ?_)
  refine ⟨⟨1, 512, 1024, 1024, []⟩, List.mem_cons_of_mem _ List.mem_cons_self, ?_, ?_, 512, ?_⟩
  · simp [toULong]
  · exact show (512 : ℕ) < 1024 by omega
  · exact show ((512 : ℤ) ≤ 512 ∧ (512 : ℤ) < 768) ∧ (512 : ℤ) ≤ 512 ∧ (512 : ℤ) < 1024 by omega

end OsSim
