import OsSim.Mm

/-!
# Virtual Memory Areas

`mm-vm.c`: looking an area up, the overlap check, and growing an area.

A process has a list of areas, of which the loader makes one and nobody ever adds another. The
functions are modelled for any list all the same, since they walk it: `get_vma_by_num` looks at the
id of an area before it tests the link to the next one, so that an id behind the last area reads
through `NULL`, and a list without areas is returned as `NULL` at once. Callers that use what
`get_vma_by_num` returns without a test are modelled by `derefVma`, which is `none` where they read
through `NULL`.

The overlap check has its loop condition the wrong way round and does not look at any area.
`inc_vma_limit` moves `vm_end` and `sbrk` first and then tries to map the new pages, with the start
of the mapping at the old `vm_end`; when the mapping fails the area has been moved all the same, and
the code is dropped by its caller. All of this is left as it is.

## Main definitions

* `getVmaByNum`, `derefVma`: looking an area up.
* `validateOverlapVmArea`: the overlap check.
* `incVmaLimit`: growing an area, with the pages it maps.
-/

namespace OsSim

variable {ι : Type} [DecidableEq ι]

/-- The walk of `get_vma_by_num` from the area at position `i` on. The id is read before
the link is tested, so walking off the end reads through `NULL`. -/
def getVmaLoop : List VmArea → ℤ → ℕ → Option ℕ
  | [], _, _ => none
  | pvma :: next, vmaid, i =>
      if toInt pvma.vmId < vmaid then getVmaLoop next vmaid (i + 1) else some i

/-- `get_vma_by_num`: the position of the area, `some none` for the result `NULL`, and `none` where
the walk reads through a `NULL` link. -/
def getVmaByNum (mm : Mm) (vmaid : ℤ) : Option (Option ℕ) :=
  match mm.mmap with
  | [] => some none
  | pvma :: next => (getVmaLoop (pvma :: next) vmaid 0).map some

/-- The area `get_vma_by_num` returns, with its position, where the caller reads through
the pointer without a test. -/
def derefVma (mm : Mm) (vmaid : ℤ) : Option (ℕ × VmArea) := do
  let pos ← getVmaByNum mm vmaid
  let i ← pos
  let vma ← mm.mmap[i]?
  return (i, vma)

/-- `__mm_swap_page`: RAM frame `vicfpn` to frame `swpfpn` of the active swap device. There is no
copy in the other direction. -/
def mmSwapPage (s : Sys ι) (p : ι) (vicfpn swpfpn : ℤ) : Sys ι :=
  s.setMswp (s.active p) (swapCpPage s.mram vicfpn (s.mswp (s.active p)) swpfpn).2

/-- `get_vm_area_node_at_brk`: the region from the break on. The aligned size is not used. -/
def getVmAreaNodeAtBrk (mm : Mm) (vmaid size _alignedsz : ℤ) : Option VmRg := do
  let curVma ← derefVma mm vmaid
  return ⟨curVma.2.sbrk, toULong (curVma.2.sbrk + size)⟩

/-- `validate_overlap_vm_area`. Its loop runs while `vma` is `NULL`: on a non-empty list
never, and on an empty one its first test reads through `NULL`. -/
def validateOverlapVmArea (mm : Mm) (_vmaid _vmastart _vmaend : ℤ) : Option ℤ :=
  match mm.mmap with
  | [] => none
  | _ :: _ => some 0

/-- `inc_vma_limit`. The break moves by the size as given, and before the frames are
obtained. -/
def incVmaLimit (s : Sys ι) (p : ι) (vmaid incSz : ℤ) : Option (ℤ × Sys ι) := do
  let incAmt := pagingPageAlignsz incSz
  let incnumpage := incAmt.tdiv pagingPagesz
  let area ← getVmAreaNodeAtBrk (s.mm p) vmaid incSz incAmt
  let curVma ← derefVma (s.mm p) vmaid
  let oldEnd := toInt curVma.2.vmEnd
  let overlap ← validateOverlapVmArea (s.mm p) vmaid (toInt area.rgStart) (toInt area.rgEnd)
  if overlap < 0 then some (-1, s)
  else
    let vma := { curVma.2 with
      vmEnd := toULong (curVma.2.vmEnd + incSz)
      sbrk := toULong (curVma.2.sbrk + incSz) }
    let s := s.setMm p { s.mm p with mmap := (s.mm p).mmap.set curVma.1 vma }
    let r ← vmMapRam s p (toInt area.rgStart) (toInt area.rgEnd) oldEnd incnumpage ⟨0, 0⟩
    if r.1 < 0 then some (-1, r.2.2) else some (0, r.2.2)

end OsSim
