import OsSim.Libmem
import OsSim.GrowArea

/-!
# Memory Instructions

The part of `run` (`cpu.c`) that works on memory, and what each of its calls does: an
allocation reuses a free region or grows the area, freeing only moves a region, and a read
or write goes to the frame that `pg_getpage` delivers.

An instruction is an `Inst` with its operands as `run` passes them on, and `run s p inst` is the
code with the word that `run` stores through the pointer `destination`, if the instruction does so,
and the system. A system call is among these instructions only with number 17; the others, and the
program counter, belong to the threads.

The second half has one lemma for each call that says all it can do: `liballoc_cases` and
`libfree_cases` as case distinctions, and the accesses as equations. An access has three parts that
are looked at apart: which address it goes to (`Sys.accessAddr`), which frame `pg_getpage` finds for
the page of that address, and what the device does at the physical address (`Memphy.byteAt`,
`Memphy.storeAt`). For the second part the lemmas have a hypothesis, so that they serve for pages
that are resident and for pages that have to be fetched.

## Main results

* `liballoc_cases`, `libfree_cases`: the effects of the two region calls.
* `libread_of_page`, `libwrite_of_page`: an access, once `pg_getpage` has delivered a frame.
-/

namespace OsSim

variable {ι : Type} [DecidableEq ι]

/-! ### Instructions -/

/-- The instructions of a program that work on memory. A `SYSCALL` is here only with number
17. -/
inductive Inst where
  | calc
  | alloc (size regIndex : BitVec 32)
  | free (regIndex : BitVec 32)
  | read (source offset : BitVec 32)
  | write (data destination offset : BitVec 32)
  | memmap (regs : ScRegs)
  deriving DecidableEq, Repr

/-- What an instruction shows: its code and the word stored through `destination`, if any. `run`
returns the code and the caller drops it. -/
structure Out where
  stat : ℤ
  destination : Option (BitVec 32) := none
  deriving DecidableEq, Repr

/-- `run` on one instruction of process `p`, one branch for each opcode. `none` where the code has
no defined behaviour. -/
def run (s : Sys ι) (p : ι) : Inst → Option (Out × Sys ι)
  | .calc => some ({ stat := 0 }, s)
  | .alloc size regIndex => (liballoc s p size regIndex).map fun r => ({ stat := r.1 }, r.2)
  | .free regIndex => (libfree s p regIndex).map fun r => ({ stat := r.1 }, r.2)
  | .read source offset =>
      (libread s p source offset).map fun r => ({ stat := r.1, destination := r.2.1 }, r.2.2)
  | .write data destination offset =>
      (libwrite s p (data.setWidth 8) destination offset).map fun r => ({ stat := r.1 }, r.2)
  | .memmap regs => (sysMemmap s p regs).map fun r => ({ stat := r.1 }, r.2.1)

section Run

variable {s s' : Sys ι} {p : ι} {out : Out}

/-- The branch of `ALLOC` is `liballoc`. -/
theorem run_alloc {size regIndex : BitVec 32}
    (h : run s p (.alloc size regIndex) = some (out, s')) :
    liballoc s p size regIndex = some (out.stat, s') := by
  obtain ⟨r, hr, heq⟩ := Option.map_eq_some_iff.mp h
  obtain ⟨rfl, rfl⟩ := Prod.mk.inj heq
  exact hr

/-- The branch of `FREE` is `libfree`. -/
theorem run_free {regIndex : BitVec 32} (h : run s p (.free regIndex) = some (out, s')) :
    libfree s p regIndex = some (out.stat, s') := by
  obtain ⟨r, hr, heq⟩ := Option.map_eq_some_iff.mp h
  obtain ⟨rfl, rfl⟩ := Prod.mk.inj heq
  exact hr

/-- The branch of `READ` is `libread`, with the word that it stores. -/
theorem run_read {source offset : BitVec 32}
    (h : run s p (.read source offset) = some (out, s')) :
    libread s p source offset = some (out.stat, out.destination, s') := by
  obtain ⟨r, hr, heq⟩ := Option.map_eq_some_iff.mp h
  obtain ⟨rfl, rfl⟩ := Prod.mk.inj heq
  exact hr

/-- The branch of `WRITE` is `libwrite`, of the lowest byte of the operand. -/
theorem run_write {data destination offset : BitVec 32}
    (h : run s p (.write data destination offset) = some (out, s')) :
    libwrite s p (data.setWidth 8) destination offset = some (out.stat, s') := by
  obtain ⟨r, hr, heq⟩ := Option.map_eq_some_iff.mp h
  obtain ⟨rfl, rfl⟩ := Prod.mk.inj heq
  exact hr

/-- The branch of `SYSCALL` 17 is the system call. -/
theorem run_memmap {regs : ScRegs} (h : run s p (.memmap regs) = some (out, s')) :
    ∃ regs', sysMemmap s p regs = some (out.stat, s', regs') := by
  obtain ⟨r, hr, heq⟩ := Option.map_eq_some_iff.mp h
  obtain ⟨rfl, rfl⟩ := Prod.mk.inj heq
  exact ⟨r.2.2, hr⟩

end Run

/-! ### The start -/

/-- RAM as `init_memphy` leaves it, with every process as `init_mm` leaves it; nothing is
said about the swap devices. -/
structure Booted (s : Sys ι) : Prop where
  mram : ∃ memramsz, s.mram = initMemphy memramsz true
  mm : ∀ p, s.mm p = initMm

/-- The devices as `main` sets them up for these sizes, and processes as the loader does: all of
them have the first swap device as their active one. -/
def bootSys (memramsz : BitVec 32) (memswpsz : Fin pagingMaxMmswp → BitVec 32) : Sys ι where
  mram := initMemphy memramsz true
  mswp i := initMemphy (memswpsz i) true
  procs _ := { mm := initMm, activeMswp := 0, activeMswpId := 0 }

omit [DecidableEq ι] in
/-- The devices and processes as `main` and the loader leave them are such a start. -/
theorem booted_bootSys (memramsz : BitVec 32) (memswpsz : Fin pagingMaxMmswp → BitVec 32) :
    Booted (bootSys memramsz memswpsz : Sys ι) :=
  ⟨⟨memramsz, rfl⟩, fun _ => rfl⟩

/-! ### Regions -/

/-- `get_free_vmrg_area` on the one area of a process is the walk over its free list. -/
theorem getFreeVmrgArea_of_oneArea {mm : Mm} {vma : VmArea} (harea : OneArea mm vma)
    (size : ℤ) : getFreeVmrgArea mm 0 size =
      some ((getFreeVmrgLoop vma.vmFreergList size).map fun r =>
        (r.1, { mm with mmap := [{ vma with vmFreergList := r.2 }] })) := by
  have hnum : getVmaByNum mm 0 = some (some 0) := by
    rw [getVmaByNum, harea.mmap]
    simp only [getVmaLoop, harea.vmId]
    rw [if_neg (by simp [toInt])]
    rfl
  rw [getFreeVmrgArea, hnum]
  simp only [Option.bind_eq_bind, Option.bind_some, harea.mmap, List.getElem?_cons_zero]
  cases getFreeVmrgLoop vma.vmFreergList size <;> rfl

/-- An `int` that is passed on in a 32-bit register arrives as it is. -/
theorem toInt_ofInt {x : ℤ} (hlo : -2147483648 ≤ x) (hhi : x < 2147483648) :
    (BitVec.ofInt 32 x).toInt = x := by
  rw [BitVec.toInt_ofInt]
  exact toInt_of_range hlo hhi

/-- The system call for a growth request drops its code: whatever `inc_vma_limit` returns, the call
returns 0. -/
theorem sysMemmap_inc (s : Sys ι) (p : ι) (vmaid incSz : BitVec 32) :
    sysMemmap s p ⟨sysmemIncOp, vmaid, incSz⟩ =
      (incVmaLimit s p vmaid.toInt incSz.toInt).map fun r =>
        (0, r.2, ⟨sysmemIncOp, vmaid, incSz⟩) := by
  simp [sysMemmap, sysmemMapOp, sysmemIncOp]

/-- The growth request that `__alloc` makes arrives as it is. -/
theorem sysMemmap_grow (s : Sys ι) (p : ι) (size : ℤ) :
    sysMemmap s p ⟨sysmemIncOp, BitVec.ofInt 32 0, BitVec.ofInt 32 (pagingPageAlignsz size)⟩ =
      (incVmaLimit s p 0 (pagingPageAlignsz size)).map fun r =>
        (0, r.2, ⟨sysmemIncOp, BitVec.ofInt 32 0, BitVec.ofInt 32 (pagingPageAlignsz size)⟩) := by
  obtain ⟨hlo, hhi⟩ := pagingPageAlignsz_lt size
  rw [sysMemmap_inc, toInt_ofInt (by omega) (by omega), toInt_ofInt hlo hhi]

/-- **What `liballoc` does.** It records a region under the id, cut from a free region or, when
`get_free_vmrg_area` finds none, above the break, which it moves first. Whatever the growth
comes to, the code is 0. -/
theorem liballoc_cases {s s' : Sys ι} {p : ι} {vma : VmArea} (harea : OneArea (s.mm p) vma)
    {size regIndex : BitVec 32} {ret : ℤ} (h : liballoc s p size regIndex = some (ret, s')) :
    ret = 0 ∧ (0 ≤ regIndex.toInt ∧ regIndex.toInt < pagingMaxSymtblSz) ∧
      ((∃ r, getFreeVmrgLoop vma.vmFreergList size.toInt = some r ∧
        s' = s.setMm p { s.mm p with
          mmap := [{ vma with vmFreergList := r.2 }]
          symrgtbl := Function.update (s.mm p).symrgtbl regIndex.toInt.toNat r.1 }) ∨
      (getFreeVmrgLoop vma.vmFreergList size.toInt = none ∧
        ∃ code s₁, incVmaLimit s p 0 (pagingPageAlignsz size.toInt) = some (code, s₁) ∧
          s' = s₁.setMm p { s₁.mm p with
            symrgtbl := Function.update (s₁.mm p).symrgtbl regIndex.toInt.toNat
              ⟨toULong (toInt vma.sbrk),
                toULong (toInt (toInt vma.sbrk + pagingPageAlignsz size.toInt))⟩ })) := by
  rw [liballoc, Option.map_eq_some_iff] at h
  obtain ⟨⟨code, addr, s₂⟩, halloc, heq⟩ := h
  obtain ⟨rfl, rfl⟩ := Prod.mk.inj heq
  rw [alloc, getFreeVmrgArea_of_oneArea harea] at halloc
  simp only [Option.bind_eq_bind, Option.bind_some] at halloc
  have hsymrg {mm mm' : Mm} {rg : VmRg} (hset : mm.setSymrg regIndex.toInt rg = some mm') :
      (0 ≤ regIndex.toInt ∧ regIndex.toInt < pagingMaxSymtblSz) ∧
        mm' = { mm with symrgtbl := Function.update mm.symrgtbl regIndex.toInt.toNat rg } := by
    rw [Mm.setSymrg] at hset
    split at hset
    · rename_i hid
      exact ⟨hid, (Option.some.inj hset).symm⟩
    · simp at hset
  rcases hloop : getFreeVmrgLoop vma.vmFreergList size.toInt with _ | r
  · simp only [hloop, Option.map_none, harea.derefVma le_rfl, Option.bind_some,
      sysMemmap_grow] at halloc
    obtain ⟨r, hr, hret⟩ := Option.bind_eq_some_iff.mp halloc
    obtain ⟨⟨code', s₁⟩, hinc, rfl⟩ := Option.map_eq_some_iff.mp hr
    simp only [ne_eq, not_true_eq_false, if_false] at hret
    obtain ⟨mm, hset, hres⟩ := Option.bind_eq_some_iff.mp hret
    obtain ⟨hid, rfl⟩ := hsymrg hset
    simp only [Option.pure_def, Option.some.injEq, Prod.mk.injEq] at hres
    obtain ⟨rfl, -, rfl⟩ := hres
    exact ⟨rfl, hid, Or.inr ⟨rfl, code', s₁, hinc, rfl⟩⟩
  · simp only [hloop, Option.map_some] at halloc
    obtain ⟨mm, hset, hres⟩ := Option.bind_eq_some_iff.mp halloc
    obtain ⟨hid, rfl⟩ := hsymrg hset
    simp only [Option.pure_def, Option.some.injEq, Prod.mk.injEq] at hres
    obtain ⟨rfl, -, rfl⟩ := hres
    exact ⟨rfl, hid, Or.inl ⟨r, rfl, rfl⟩⟩

/-- An allocation that reuses a free region: the region is recorded, and the list is what the walk
has left. -/
theorem liballoc_of_reuse {s : Sys ι} {p : ι} {vma : VmArea} (harea : OneArea (s.mm p) vma)
    {size regIndex : BitVec 32}
    (hid : 0 ≤ regIndex.toInt ∧ regIndex.toInt < pagingMaxSymtblSz) {r : VmRg × List VmRg}
    (hloop : getFreeVmrgLoop vma.vmFreergList size.toInt = some r) :
    liballoc s p size regIndex = some (0, s.setMm p { s.mm p with
      mmap := [{ vma with vmFreergList := r.2 }]
      symrgtbl := Function.update (s.mm p).symrgtbl regIndex.toInt.toNat r.1 }) := by
  rw [liballoc, alloc, getFreeVmrgArea_of_oneArea harea, hloop]
  simp only [Option.bind_eq_bind, Option.bind_some, Option.map_some, Mm.setSymrg, if_pos hid]
  rfl

/-- An allocation that grows the area, whatever the growth comes to. -/
theorem liballoc_of_growth {s s₁ : Sys ι} {p : ι} {vma : VmArea} (harea : OneArea (s.mm p) vma)
    {size regIndex : BitVec 32} {code : ℤ}
    (hid : 0 ≤ regIndex.toInt ∧ regIndex.toInt < pagingMaxSymtblSz)
    (hloop : getFreeVmrgLoop vma.vmFreergList size.toInt = none)
    (hinc : incVmaLimit s p 0 (pagingPageAlignsz size.toInt) = some (code, s₁)) :
    liballoc s p size regIndex = some (0, s₁.setMm p { s₁.mm p with
      symrgtbl := Function.update (s₁.mm p).symrgtbl regIndex.toInt.toNat
        ⟨toULong (toInt vma.sbrk),
          toULong (toInt (toInt vma.sbrk + pagingPageAlignsz size.toInt))⟩ }) := by
  rw [liballoc, alloc, getFreeVmrgArea_of_oneArea harea, hloop]
  simp only [Option.bind_eq_bind, Option.bind_some, Option.map_none, harea.derefVma le_rfl,
    sysMemmap_grow, hinc, Option.map_some, ne_eq, not_true_eq_false, if_false, Mm.setSymrg,
    if_pos hid]
  rfl

/-- **What `libfree` does**: it refuses the id and changes nothing, or puts another list in the
place of the free list. -/
theorem libfree_cases {s s' : Sys ι} {p : ι} {vma : VmArea} (harea : OneArea (s.mm p) vma)
    {regIndex : BitVec 32} {ret : ℤ} (h : libfree s p regIndex = some (ret, s')) :
    s' = s ∨ ∃ fl, s' = s.setMm p { s.mm p with mmap := [{ vma with vmFreergList := fl }] } := by
  rw [libfree, free] at h
  split at h
  · left
    exact (congrArg Prod.snd (Option.some.inj h)).symm
  · right
    rw [harea.mmap] at h
    exact ⟨_, (congrArg Prod.snd (Option.some.inj h)).symm⟩

/-! ### Access to a page -/

/-- The byte RAM delivers at a physical address; a refused read leaves the uninitialised
local. -/
def Memphy.byteAt (mp : Memphy ι) (addr : ℕ) : Byte :=
  ((memphyRead mp addr).getD (0, mp)).1

/-- RAM after a byte was stored at a physical address, if it could be. -/
def Memphy.storeAt (mp : Memphy ι) (addr : ℕ) (b : Byte) : Memphy ι :=
  (memphyWrite mp addr b).getD mp

/-- With one area, of id 0, `get_vma_by_num` finds it for the id 0. -/
theorem OneArea.getVmaByNum {mm : Mm} {vma : VmArea} (h : OneArea mm vma) :
    getVmaByNum mm 0 = some (some 0) := by
  rw [OsSim.getVmaByNum, h.mmap]
  simp only [getVmaLoop, h.vmId]
  rw [if_neg (by simp [toInt])]
  rfl

/-- The system call for reading a byte of RAM. -/
theorem sysMemmap_ioRead (s : Sys ι) (p : ι) (a2 a3 : BitVec 32) :
    sysMemmap s p ⟨sysmemIoRead, a2, a3⟩ =
      let r := (memphyRead s.mram a2.toInt).getD (0, s.mram)
      some (0, { s with mram := r.2 }, ⟨sysmemIoRead, a2, r.1.signExtend 32⟩) := by
  simp [sysMemmap, sysmemMapOp, sysmemIncOp, sysmemSwpOp, sysmemIoRead]

/-- The system call for writing a byte of RAM. -/
theorem sysMemmap_ioWrite (s : Sys ι) (p : ι) (a2 a3 : BitVec 32) :
    sysMemmap s p ⟨sysmemIoWrite, a2, a3⟩ =
      some (0, { s with mram := (memphyWrite s.mram a2.toInt (a3.setWidth 8)).getD s.mram },
        ⟨sysmemIoWrite, a2, a3⟩) := by
  simp [sysMemmap, sysmemMapOp, sysmemIncOp, sysmemSwpOp, sysmemIoRead, sysmemIoWrite]

/-- A byte that goes through a 32-bit register comes back as it was. -/
theorem setWidth_signExtend (b : Byte) : (b.signExtend 32).setWidth 8 = b := by
  revert b
  decide +kernel

/-- The physical address of a frame that an entry can name is an `int`. -/
theorem toInt_pagingPhyaddr {fpn : ℕ} (hfpn : fpn < 8192) (a : BitVec 32) :
    (BitVec.ofNat 32 (pagingPhyaddr fpn (pagingOffst a))).toInt =
      (pagingPhyaddr fpn (pagingOffst a) : ℕ) := by
  have hoff : pagingOffst a < 256 := by
    rw [pagingOffst_eq]
    omega
  have hlt : pagingPhyaddr fpn (pagingOffst a) < 2097152 := by
    rw [pagingPhyaddr_eq]
    omega
  have hmod : (BitVec.ofNat 32 (pagingPhyaddr fpn (pagingOffst a))).toNat =
      pagingPhyaddr fpn (pagingOffst a) := by
    rw [BitVec.toNat_ofNat]
    omega
  rw [BitVec.toInt_eq_toNat_of_lt (by omega), hmod]

/-- `pg_getval` once `pg_getpage` has delivered a frame: the byte at the physical address, as RAM
delivers it. -/
theorem pgGetval_of_page {s s₁ : Sys ι} {p : ι} {a : BitVec 32} {fpn : ℕ} (hfpn : fpn < 8192)
    (hpage : pgGetpage s p (pagingPgn a) = some (0, fpn, s₁)) :
    pgGetval s p a =
      some (0, some (s₁.mram.byteAt (pagingPhyaddr fpn (pagingOffst a))), s₁) := by
  have hsnd (addr : ℤ) : ((memphyRead s₁.mram addr).getD (0, s₁.mram)).2 = s₁.mram := by
    rcases hread : memphyRead s₁.mram addr with _ | ⟨b, mp'⟩
    · rfl
    · exact memphyRead_snd hread
  rw [pgGetval, hpage]
  simp only [Option.bind_eq_bind, Option.bind_some, ne_eq, not_true_eq_false, if_false]
  rw [sysMemmap_ioRead, toInt_pagingPhyaddr hfpn]
  simp only [hsnd, Option.bind_some, not_true_eq_false, if_false, setWidth_signExtend]
  rfl

/-- `pg_setval` once `pg_getpage` has delivered a frame. -/
theorem pgSetval_of_page {s s₁ : Sys ι} {p : ι} {a : BitVec 32} {fpn : ℕ} (hfpn : fpn < 8192)
    (hpage : pgGetpage s p (pagingPgn a) = some (0, fpn, s₁)) (b : Byte) :
    pgSetval s p a b = some (0, { s₁ with
      mram := s₁.mram.storeAt (pagingPhyaddr fpn (pagingOffst a)) b }) := by
  rw [pgSetval, hpage]
  simp only [Option.bind_eq_bind, Option.bind_some, ne_eq, not_true_eq_false, if_false]
  rw [sysMemmap_ioWrite, toInt_pagingPhyaddr hfpn, setWidth_signExtend]
  rfl

/-- The address an access of process `p` to region `rgid` at `offset` goes to; `none` when
there is no such region. -/
def Sys.accessAddr (s : Sys ι) (p : ι) (rgid offset : BitVec 32) : Option (BitVec 32) :=
  (getSymrgByid rgid.toInt).map fun i => regionAddr (s.mm p) i offset.toInt

/-- **Reading** delivers the byte at the frame `pg_getpage` found, and the code 0. -/
theorem libread_of_page {s s₁ : Sys ι} {p : ι} {vma : VmArea} (harea : OneArea (s.mm p) vma)
    {source offset a : BitVec 32} (ha : s.accessAddr p source offset = some a) {fpn : ℕ}
    (hfpn : fpn < 8192) (hpage : pgGetpage s p (pagingPgn a) = some (0, fpn, s₁)) :
    libread s p source offset = some (0,
      some ((s₁.mram.byteAt (pagingPhyaddr fpn (pagingOffst a))).signExtend 32), s₁) := by
  obtain ⟨i, hi, rfl⟩ := Option.map_eq_some_iff.mp ha
  rw [libread, read, harea.getVmaByNum]
  simp only [Option.bind_eq_bind, Option.bind_some, hi]
  rw [pgGetval_of_page hfpn hpage]
  rfl

/-- **Writing** stores the byte at the frame `pg_getpage` found, and returns the code 0. -/
theorem libwrite_of_page {s s₁ : Sys ι} {p : ι} {vma : VmArea} (harea : OneArea (s.mm p) vma)
    {destination offset a : BitVec 32} (ha : s.accessAddr p destination offset = some a)
    {fpn : ℕ} (hfpn : fpn < 8192)
    (hpage : pgGetpage s p (pagingPgn a) = some (0, fpn, s₁)) (data : Byte) :
    libwrite s p data destination offset = some (0, { s₁ with
      mram := s₁.mram.storeAt (pagingPhyaddr fpn (pagingOffst a)) data }) := by
  obtain ⟨i, hi, rfl⟩ := Option.map_eq_some_iff.mp ha
  rw [libwrite, write, harea.getVmaByNum]
  simp only [Option.bind_eq_bind, Option.bind_some, hi]
  rw [pgSetval_of_page hfpn hpage]
  rfl

/-- Access to a region that does not exist is refused: the code is -1, and nothing is stored or
changed. -/
theorem libread_of_none {s : Sys ι} {p : ι} {vma : VmArea} (harea : OneArea (s.mm p) vma)
    {source offset : BitVec 32} (ha : s.accessAddr p source offset = none) :
    libread s p source offset = some (-1, none, s) := by
  rw [libread, read, harea.getVmaByNum]
  simp only [Option.bind_eq_bind, Option.bind_some, Option.map_eq_none_iff.mp ha]
  rfl

/-- The same for a write. -/
theorem libwrite_of_none {s : Sys ι} {p : ι} {vma : VmArea} (harea : OneArea (s.mm p) vma)
    {destination offset : BitVec 32} (ha : s.accessAddr p destination offset = none)
    (data : Byte) : libwrite s p data destination offset = some (-1, s) := by
  rw [libwrite, write, harea.getVmaByNum]
  simp only [Option.bind_eq_bind, Option.bind_some, Option.map_eq_none_iff.mp ha]
  rfl

/-! ### Bytes inside random-access RAM -/

omit [DecidableEq ι] in
/-- Inside the device the byte is the one stored there. -/
theorem Memphy.byteAt_of_lt {mp : Memphy ι} {addr : ℕ} (hr : mp.rdmflg = true)
    (hlt : (addr : ℤ) < mp.maxsz) : mp.byteAt addr = mp.storage addr := by
  rw [Memphy.byteAt, memphyRead_of_mem hr (Int.natCast_nonneg _) hlt]
  rfl

omit [DecidableEq ι] in
/-- Inside the device the byte is stored. -/
theorem Memphy.storeAt_of_lt {mp : Memphy ι} {addr : ℕ} (hr : mp.rdmflg = true)
    (hlt : (addr : ℤ) < mp.maxsz) (b : Byte) : mp.storeAt addr b = mp.setCell addr b := by
  rw [Memphy.storeAt, memphyWrite_of_mem hr (Int.natCast_nonneg _) hlt]
  rfl

omit [DecidableEq ι] in
/-- Storing a byte leaves the device's lists and size alone. -/
theorem Memphy.sameShape_storeAt (mp : Memphy ι) (addr : ℕ) (b : Byte) :
    mp.SameShape (mp.storeAt addr b) := by
  rw [Memphy.storeAt]
  rcases h : memphyWrite mp addr b with _ | mp'
  · exact Memphy.SameShape.refl mp
  · exact sameShape_memphyWrite h

end OsSim
