import OsSim.Cpu

/-!
# Failed Allocations

An allocation whose growth cannot be satisfied should report it and leave no trace. It does
neither: `__sys_memmap` drops the code of `inc_vma_limit`, so `liballoc` goes on and records a
region above a break that has moved, over pages that were never mapped.

`inc_vma_limit` itself reports the failure: it returns -1 when the frames or the swap frames run
out. The system call stores that in the register block and returns 0 all the same, and `__alloc`
looks at what the call returns. So the code that tells a program that its allocation failed is lost
in between for every kind of failure, in every state, and the region that is recorded has bytes that
no page stands for. The program goes on to write to them, and each access brings pages in one by
one, by evicting others.

What a failure should leave alone is `Untouched`: the process, the free lists and bytes of the
devices. Of these the break is the one that always differs, unless the size comes to no page.

## Main results

* `liballoc_of_growthFails`: the code after a growth that failed is 0.
* `liballoc_not_reported`: **no failed growth is reported**.
-/

namespace OsSim

variable {ι : Type} [DecidableEq ι]

/-- `liballoc` of `size` bytes has to grow the area, and `inc_vma_limit` cannot: the frames or
the swap frames run out, or the area is rejected. -/
structure GrowthFails (s : Sys ι) (p : ι) (size : BitVec 32) : Prop where
  noRegion : getFreeVmrgArea (s.mm p) 0 size.toInt = some none
  fails : ∃ r, incVmaLimit s p 0 (pagingPageAlignsz size.toInt) = some r ∧ r.1 < 0

/-- Nothing that an allocation of process `p` works on differs. -/
structure Untouched (s : Sys ι) (p : ι) (s' : Sys ι) : Prop where
  mm : s'.mm p = s.mm p
  ramFree : s'.mram.freeFpList = s.mram.freeFpList
  ramBytes : s'.mram.storage = s.mram.storage
  swapFree : ∀ i, (s'.mswp i).freeFpList = (s.mswp i).freeFpList

/-- The failure is reported and leaves no trace: a code other than 0, and a system in which nothing
has changed for the process or the devices. -/
def FailureReported (s : Sys ι) (p : ι) (size regIndex : BitVec 32) : Prop :=
  ∃ code s', liballoc s p size regIndex = some (code, s') ∧ code ≠ 0 ∧ Untouched s p s'

/-- After a growth that failed, `liballoc` records the region all the same, and returns 0. -/
theorem liballoc_of_growthFails {s s' : Sys ι} {p : ι} {size regIndex : BitVec 32} {code : ℤ}
    (h : GrowthFails s p size) (hret : liballoc s p size regIndex = some (code, s')) :
    code = 0 := by
  obtain ⟨r, hinc, -⟩ := h.fails
  rw [liballoc, Option.map_eq_some_iff] at hret
  obtain ⟨r', halloc, heq⟩ := hret
  rw [alloc, h.noRegion] at halloc
  simp only [Option.bind_eq_bind, Option.bind_some, sysMemmap_grow, hinc] at halloc
  obtain ⟨vma, -, hvma⟩ := Option.bind_eq_some_iff.mp halloc
  simp only [Option.map_some, Option.bind_some, ne_eq, not_true_eq_false, if_false] at hvma
  obtain ⟨mm, -, hmm⟩ := Option.bind_eq_some_iff.mp hvma
  rw [Option.pure_def, Option.some.injEq] at hmm
  rw [← hmm] at heq
  exact (congrArg Prod.fst heq).symm

/-- **No failed growth is reported**, in whatever state and for whatever size and id: the code is 0
each time. -/
theorem liballoc_not_reported {s : Sys ι} {p : ι} {size : BitVec 32}
    (h : GrowthFails s p size) (regIndex : BitVec 32) :
    ¬ FailureReported s p size regIndex := by
  rintro ⟨code, s', hret, hne, -⟩
  exact hne (liballoc_of_growthFails h hret)

/-- One process, one frame of RAM and no swap, so that a second page can be had from nowhere. -/
def oneFrame : Sys Unit := bootSys 256 fun _ => 0

/-- Two pages cannot be mapped there: the second frame would have to come from a page on the FIFO,
which is empty. -/
theorem growthFails_oneFrame : GrowthFails oneFrame () 300 := by
  have hfails : (incVmaLimit oneFrame () 0 (pagingPageAlignsz (300 : BitVec 32).toInt)).map
      Prod.fst = some (-1) := by
    decide +kernel
  obtain ⟨r, hr, hcode⟩ := Option.map_eq_some_iff.mp hfails
  refine ⟨?_, r, hr, by omega⟩
  have hloop : getFreeVmrgLoop [⟨0, 0⟩] (300 : BitVec 32).toInt = none := by decide +kernel
  have harea : OneArea (oneFrame.mm ()) ⟨0, 0, 0, 0, [⟨0, 0⟩]⟩ := ⟨rfl, rfl⟩
  rw [getFreeVmrgArea_of_oneArea harea, hloop]
  rfl

theorem liballoc_not_reported_oneFrame : ¬ FailureReported oneFrame () 300 0 :=
  liballoc_not_reported growthFails_oneFrame 0

/-- `liballoc` returns 0 there, and the break has moved by 512. -/
theorem oneFrame_not_reported : GrowthFails oneFrame () 300 ∧
    (liballoc oneFrame () 300 0).map (fun r => (r.1, (r.2.mm ()).mmap.map VmArea.sbrk)) =
      some (0, [512]) ∧
    ¬ FailureReported oneFrame () 300 0 := by
  have hret : (liballoc oneFrame () 300 0).map
      (fun r => (r.1, (r.2.mm ()).mmap.map VmArea.sbrk)) = some (0, [512]) := by
    decide +kernel
  refine ⟨growthFails_oneFrame, hret, fun ⟨code, s', hcode, hne, _⟩ => hne ?_⟩
  rw [hcode] at hret
  exact congrArg Prod.fst (Option.some.inj hret)

end OsSim
