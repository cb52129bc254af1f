import OsSim.MmVm

/-!
# The Memory Library

`libmem.c` and the system call it goes through, `__sys_memmap` (`sys_mem.c`). `libmem.c` always
invokes `syscall` with number 17, which is that call.

## What the functions are given and give back

A function returns its code and the system after it, or `none` where the C code has no defined
behaviour: an area that does not exist, an index outside `symrgtbl`, an access outside `pgd`. The
codes that a caller drops are dropped here too, and so the error of one function can become the
success of the next one. Region ids and sizes are 32-bit operands that the code passes on as `int`,
and addresses are `unsigned long` that wrap at `2 ^ 64`; conversions are written where C has them.

## What is taken for what is left open

* Locals on the stack that the code reads before it has set them are taken as zero. The fields
  `orig_ax` and `flags` of the register block are written and never read, and are left out.
* `__free` puts the address of its local `rgnode` on the free list. Here the list gets the value of
  that node, as if it outlived the call; `StackSys` has the list with a head that dangles once
  `__free` has returned, and says which results by value hold of the code.
* `mmap` is a list of areas, and a pointer to an area is its index there.

## Main definitions

* `alloc`, `free`, `getSymrgByid`, `getFreeVmrgArea`: regions and the free list.
* `pgGetpage`, `pgGetval`, `pgSetval`: the bytes of a page, which may have to be fetched first.
* `liballoc`, `libfree`, `libread`, `libwrite`: what instructions call.
-/

namespace OsSim

variable {ι : Type} [DecidableEq ι]

/-! ### The system call -/

/-- `struct sc_regs`, the registers that the system calls read. `orig_ax` is the number of the call
and `flags` is never read, so both are left out. -/
structure ScRegs where
  a1 : BitVec 32
  a2 : BitVec 32
  a3 : BitVec 32
  deriving DecidableEq, Repr

/-- `SYSMEM_MAP_OP`: reserved, an operation for which `__sys_memmap` does nothing. -/
def sysmemMapOp : BitVec 32 := 1
/-- `SYSMEM_INC_OP`: moving the end of an area, by `inc_vma_limit`. -/
def sysmemIncOp : BitVec 32 := 2
/-- `SYSMEM_SWP_OP`: copying a page from RAM to swap, by `__mm_swap_page`. -/
def sysmemSwpOp : BitVec 32 := 3
/-- `SYSMEM_IO_READ`: reading a byte of RAM at a physical address. -/
def sysmemIoRead : BitVec 32 := 4
/-- `SYSMEM_IO_WRITE`: writing a byte of RAM at a physical address. -/
def sysmemIoWrite : BitVec 32 := 5

/-- `__sys_memmap`: the code, the system and the registers. The codes of the operations
are dropped; a byte that could not be read is the uninitialised local. -/
def sysMemmap (s : Sys ι) (p : ι) (regs : ScRegs) : Option (ℤ × Sys ι × ScRegs) :=
  if regs.a1 = sysmemMapOp then some (0, s, regs)
  else if regs.a1 = sysmemIncOp then
    (incVmaLimit s p regs.a2.toInt regs.a3.toInt).map fun r => (0, r.2, regs)
  else if regs.a1 = sysmemSwpOp then
    some (0, mmSwapPage s p regs.a2.toInt regs.a3.toInt, regs)
  else if regs.a1 = sysmemIoRead then
    let r := (memphyRead s.mram regs.a2.toInt).getD (0, s.mram)
    some (0, { s with mram := r.2 }, { regs with a3 := r.1.signExtend 32 })
  else if regs.a1 = sysmemIoWrite then
    let mram := (memphyWrite s.mram regs.a2.toInt (regs.a3.setWidth 8)).getD s.mram
    some (0, { s with mram := mram }, regs)
  else some (0, s, regs)

/-! ### Regions -/

/-- `enlist_vm_freerg_list`: the code and the free list of the first area. A region without a byte
between its bounds is refused, and the list stays as it is. -/
def enlistVmFreergList (freerg : List VmRg) (rgElmt : VmRg) : ℤ × List VmRg :=
  if rgElmt.rgStart ≥ rgElmt.rgEnd then (-1, freerg) else (0, rgElmt :: freerg)

/-- `get_symrg_byid`: the index the returned pointer is at, `none` for `NULL`. The bound
lets one index past the table through. -/
def getSymrgByid (rgid : ℤ) : Option ℕ :=
  if rgid < 0 ∨ rgid > pagingMaxSymtblSz then none else some rgid.toNat

/-- The walk of `get_free_vmrg_area` over the free list: the new region and the list after
it. `none` is the code `-1`, on which nothing has changed. -/
def getFreeVmrgLoop : List VmRg → ℤ → Option (VmRg × List VmRg)
  | [], _ => none
  | curr :: next, size =>
      let freesize := toULong ((curr.rgEnd : ℤ) - curr.rgStart + 1)
      if freesize < toULong size ∨ curr.rgStart > curr.rgEnd then none
      else if freesize ≥ toULong size then
        let newrg : VmRg := ⟨curr.rgStart, toULong ((curr.rgStart : ℤ) + size - 1)⟩
        if freesize > toULong size then
          some (newrg, { curr with rgStart := toULong ((curr.rgStart : ℤ) + size) } :: next)
        else some (newrg, next)
      else (getFreeVmrgLoop next size).map fun r => (r.1, curr :: r.2)

/-- `get_free_vmrg_area`: the new region and the `mm` with its free list updated; `some none`
is the code `-1`. -/
def getFreeVmrgArea (mm : Mm) (vmaid size : ℤ) : Option (Option (VmRg × Mm)) := do
  let pos ← getVmaByNum mm vmaid
  match pos with
  | none => return none
  | some i =>
      let curVma ← mm.mmap[i]?
      match getFreeVmrgLoop curVma.vmFreergList size with
      | none => return none
      | some r =>
          return some
            (r.1, { mm with mmap := mm.mmap.set i { curVma with vmFreergList := r.2 } })

/-- Recording a region under `rgid`; writing outside the table is undefined. No function tests the
index before: `__alloc` takes any. -/
def Mm.setSymrg (mm : Mm) (rgid : ℤ) (rg : VmRg) : Option Mm :=
  if 0 ≤ rgid ∧ rgid < pagingMaxSymtblSz then
    some { mm with symrgtbl := Function.update mm.symrgtbl rgid.toNat rg }
  else none

/-- `__alloc`: the code, the allocated address and the system. A region of the free list is used if
the search finds one, and the area grows otherwise. -/
def alloc (s : Sys ι) (p : ι) (vmaid rgid size : ℤ) : Option (ℤ × ℤ × Sys ι) := do
  match ← getFreeVmrgArea (s.mm p) vmaid size with
  | some r =>
      let mm ← r.2.setSymrg rgid r.1
      return (0, toInt r.1.rgStart, s.setMm p mm)
  | none =>
      let curVma ← derefVma (s.mm p) vmaid
      let incSz := pagingPageAlignsz size
      let oldSbrk := toInt curVma.2.sbrk
      let r ← sysMemmap s p ⟨sysmemIncOp, BitVec.ofInt 32 vmaid, BitVec.ofInt 32 incSz⟩
      if r.1 ≠ 0 then return (-1, 0, r.2.1)
      else
        let mm ← (r.2.1.mm p).setSymrg rgid ⟨toULong oldSbrk, toULong (toInt (oldSbrk + incSz))⟩
        return (0, oldSbrk, r.2.1.setMm p mm)

/-- `__free`: the code and the system. The region is read from the table and stays there; it goes to
the free list of the first area. The list gets a copy of the region; in the code its new head is the
address of the local `rgnode`, which dangles once the call has returned (`StackSys`). -/
def free (s : Sys ι) (p : ι) (_vmaid rgid : ℤ) : Option (ℤ × Sys ι) :=
  if rgid < 0 ∨ rgid > pagingMaxSymtblSz then some (-1, s)
  else
    let rgnode := (s.mm p).symrgtbl rgid.toNat
    match (s.mm p).mmap with
    | [] => none
    | vma :: next =>
        let vma := { vma with vmFreergList := (enlistVmFreergList vma.vmFreergList rgnode).2 }
        some (0, s.setMm p { s.mm p with mmap := vma :: next })

/-- `liballoc`: `__alloc` in area 0, with the operands passed on as `int`s. The address it obtains
is dropped, and the code returned. -/
def liballoc (s : Sys ι) (p : ι) (size regIndex : BitVec 32) : Option (ℤ × Sys ι) :=
  (alloc s p 0 regIndex.toInt size.toInt).map fun r => (r.1, r.2.2)

/-- `libfree`, by value as `free` is: the call on lists whose head may dangle is
`StackSys.libfree`. -/
def libfree (s : Sys ι) (p : ι) (regIndex : BitVec 32) : Option (ℤ × Sys ι) :=
  free s p 0 regIndex.toInt

/-! ### Pages -/

/-- `pg_getpage`: the code, the frame and the system. The codes of `find_victim_page` and
`MEMPHY_get_freefp` are dropped, so `vicpgn` and `swpfpn` may be the uninitialised locals. -/
def pgGetpage (s : Sys ι) (p : ι) (pgn : ℕ) : Option (ℤ × ℕ × Sys ι) := do
  let pte := (s.mm p).pgd pgn
  if pagingPagePresent pte then return (0, pagingFpn pte, s)
  else
    let tgtfpn := pagingPteSwp pte
    let vic := (findVictimPage (s.mm p).fifoPgn).getD (0, (s.mm p).fifoPgn)
    let s := s.setMm p { s.mm p with fifoPgn := vic.2 }
    let swp := (memphyGetFreefp (s.mswp (s.active p))).getD (0, s.mswp (s.active p))
    let s := s.setMswp (s.active p) swp.2
    let vicpte := (s.mm p).pgd vic.1
    let vicfpn := pagingFpn vicpte
    let r ← sysMemmap s p ⟨sysmemSwpOp, BitVec.ofNat 32 vicfpn, BitVec.ofNat 32 swp.1⟩
    if r.1 ≠ 0 then return (-1, 0, r.2.1)
    else
      let r ← sysMemmap r.2.1 p ⟨sysmemSwpOp, BitVec.ofNat 32 tgtfpn, BitVec.ofNat 32 vicfpn⟩
      if r.1 ≠ 0 then return (-1, 0, r.2.1)
      else
        let s := r.2.1
        let vicpte := pteSetSwap vicpte (s.procs p).activeMswpId swp.1
        let mm := (s.mm p).setPte vic.1 vicpte
        let pte := pteSetFpn pte vicfpn ||| pagingPtePresentMask
        let mm := mm.setPte pgn pte
        let mm := { mm with fifoPgn := enlistPgnNode mm.fifoPgn pgn }
        return (0, pagingFpn pte, s.setMm p mm)

/-- `pg_getval`: the code, the byte stored through `data` (if any) and the system. -/
def pgGetval (s : Sys ι) (p : ι) (addr : BitVec 32) : Option (ℤ × Option Byte × Sys ι) := do
  let pgn := pagingPgn addr
  let offst := pagingOffst addr
  let r ← pgGetpage s p pgn
  if r.1 ≠ 0 then return (-1, none, r.2.2)
  else
    let phyaddr := pagingPhyaddr r.2.1 offst
    let r ← sysMemmap r.2.2 p ⟨sysmemIoRead, BitVec.ofNat 32 phyaddr, 0⟩
    if r.1 ≠ 0 then return (-1, none, r.2.1)
    else return (0, some (r.2.2.a3.setWidth 8), r.2.1)

/-- `pg_setval`: the page of the address is brought in, and the byte is written by system call 17.
The code and the system. -/
def pgSetval (s : Sys ι) (p : ι) (addr : BitVec 32) (value : Byte) : Option (ℤ × Sys ι) := do
  let pgn := pagingPgn addr
  let offst := pagingOffst addr
  let r ← pgGetpage s p pgn
  if r.1 ≠ 0 then return (-1, r.2.2)
  else
    let phyaddr := pagingPhyaddr r.2.1 offst
    let r ← sysMemmap r.2.2 p
      ⟨sysmemIoWrite, BitVec.ofNat 32 phyaddr, value.signExtend 32⟩
    if r.1 ≠ 0 then return (-1, r.2.1) else return (0, r.2.1)

/-- The address `__read` and `__write` pass on: `rg_start + offset` as an `int`. The end of the
region is not looked at. -/
def regionAddr (mm : Mm) (rgid : ℕ) (offset : ℤ) : BitVec 32 :=
  BitVec.ofInt 32 ((mm.symrgtbl rgid).rgStart + offset)

/-- `__read`: the code, the byte stored through `data` (if any) and the system. The code of
`pg_getval` is dropped. -/
def read (s : Sys ι) (p : ι) (vmaid rgid offset : ℤ) : Option (ℤ × Option Byte × Sys ι) := do
  let curVma ← getVmaByNum (s.mm p) vmaid
  match getSymrgByid rgid, curVma with
  | some currg, some _ =>
      let r ← pgGetval s p (regionAddr (s.mm p) currg offset)
      return (0, r.2.1, r.2.2)
  | _, _ => return (-1, none, s)

/-- `__write`: the code and the system. The code of `pg_setval` is dropped. -/
def write (s : Sys ι) (p : ι) (vmaid rgid offset : ℤ) (value : Byte) :
    Option (ℤ × Sys ι) := do
  let curVma ← getVmaByNum (s.mm p) vmaid
  match getSymrgByid rgid, curVma with
  | some currg, some _ =>
      let r ← pgSetval s p (regionAddr (s.mm p) currg offset) value
      return (0, r.2)
  | _, _ => return (-1, s)

/-- `libread`: the code, the word stored through `destination` (if any) and the system. A
byte that was not delivered is the uninitialised local. -/
def libread (s : Sys ι) (p : ι) (source offset : BitVec 32) :
    Option (ℤ × Option (BitVec 32) × Sys ι) :=
  (read s p 0 source.toInt offset.toInt).map fun r =>
    (r.1, if r.1 = 0 then some ((r.2.1.getD 0).signExtend 32) else none, r.2.2)

/-- `libwrite`: `__write` in area 0, with the operands passed on as `int`s. Its code is returned. -/
def libwrite (s : Sys ι) (p : ι) (data : Byte) (destination offset : BitVec 32) :
    Option (ℤ × Sys ι) :=
  write s p 0 destination.toInt offset.toInt data

end OsSim
