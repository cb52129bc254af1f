import OsSim.Memphy

/-!
# Processes and Paging

The memory part of `common.h` and `os-mm.h`, and `mm.c`: the state of all processes over one
RAM and its swap devices, page replacement, and the two halves of a growth request —
obtaining frames (`allocPagesRange`) and mapping them (`vmapPageRange`).

Linked lists are taken by value, head first. Two of them need a word:

* `fifo_pgn` is pushed at the head and popped at the tail, so the oldest page is last.
* The frame list built by `alloc_pages_range` and the device's `used_fp_list` share nodes.
  A node's `fp_next` is set once, before the node is linked, and never again, so both can be
  lists of values; but a frame from the free list has its `fp_next` overwritten by
  `used_fp_list`, so what follows it is the device's used list and not the list built so far.

Pointers to processes and their `mm_struct` are elements of a type `ι`; a pointer to one of
the caller's four swap devices is an index. Functions return `none` where the C program has
no defined behaviour (a `NULL` link followed, a page table indexed past its end).

The growth request is modelled with everything it leaves behind when it fails: frames that were
obtained are not given back, and pages that were evicted stay on their swap device. The code that
`alloc_pages_range` returns therefore comes with a state in all cases (`AllocState`), and its
callers go on with that state. The two loops are recursive functions on the number of rounds left,
one round of the first being a function of its own (`allocPage`), so that a proof about the loop
needs to know only what one round can do.

The page table is a function on page numbers of which the first 16384 are the table. The lemmas
after the definitions say which field each writer changes; later modules use them by `simp` and do
not unfold the writers.

## Main definitions

* `Sys`: RAM, the swap devices and all processes.
* `findVictimPage`: the oldest page of a FIFO.
* `allocPagesRange`, `vmapPageRange`, `vmMapRam`: obtaining frames, and mapping them.
-/

namespace OsSim

/-! ### State -/

/-- `struct vm_rg_struct`, taken by value: the bounds of a region, of which some functions take the
second one for its last byte and others for the byte after it. -/
structure VmRg where
  rgStart : ℕ
  rgEnd : ℕ
  deriving DecidableEq, Repr

/-- `struct vm_area_struct`, taken by value, with its list of free regions from head to tail. The
links `vm_mm` and `vm_next` are left out, as the areas of a process are a list. -/
structure VmArea where
  vmId : ℕ
  vmStart : ℕ
  vmEnd : ℕ
  sbrk : ℕ
  vmFreergList : List VmRg
  deriving DecidableEq, Repr

/-- `PAGING_MAX_MMSWP`, the number of swap devices that `main` sets up. -/
abbrev pagingMaxMmswp : ℕ := 4

instance : NeZero pagingMaxMmswp := ⟨by decide⟩

/-- `PAGING_MAX_SYMTBL_SZ`, the number of regions that a process can name. -/
abbrev pagingMaxSymtblSz : ℕ := 30

/-- `struct mm_struct`. Only the first `pagingMaxSymtblSz` regions of `symrgtbl` are the
table; the region at index `pagingMaxSymtblSz` stands for the words that follow the table
in memory, which the code can read but which C gives no value. -/
structure Mm where
  pgd : ℕ → BitVec 32
  mmap : List VmArea
  symrgtbl : ℕ → VmRg
  fifoPgn : List ℕ

/-- The memory part of `struct pcb_t`; `mram` and `mswp` point to the same devices in every process,
and so are parts of the system instead. -/
structure Pcb where
  mm : Mm
  activeMswp : Fin pagingMaxMmswp
  activeMswpId : ℕ

/-- RAM, the swap devices and all processes. The devices are shared, and each process has its own
`mm`, which no other process's calls reach. -/
structure Sys (ι : Type) where
  mram : Memphy ι
  mswp : Fin pagingMaxMmswp → Memphy ι
  procs : ι → Pcb

variable {ι : Type}

/-- The `mm` of process `p`: its page table, areas, regions and pages in use. -/
def Sys.mm (s : Sys ι) (p : ι) : Mm := (s.procs p).mm

/-- The device `active_mswp` of process `p` points to, which is where its pages are swapped to
first. -/
def Sys.active (s : Sys ι) (p : ι) : Fin pagingMaxMmswp := (s.procs p).activeMswp

/-- The system with another swap device `i`, and everything else as it was. -/
def Sys.setMswp (s : Sys ι) (i : Fin pagingMaxMmswp) (mp : Memphy ι) : Sys ι :=
  { s with mswp := Function.update s.mswp i mp }

/-- The `mm` with another entry for page `pgn`, and everything else as it was. -/
def Mm.setPte (mm : Mm) (pgn : ℕ) (pte : BitVec 32) : Mm :=
  { mm with pgd := Function.update mm.pgd pgn pte }

section Projections

variable (s : Sys ι) (p q : ι) (mm : Mm) (i : Fin pagingMaxMmswp) (mp : Memphy ι)

@[simp] theorem Sys.mram_setMswp : (s.setMswp i mp).mram = s.mram := rfl
@[simp] theorem Sys.procs_setMswp : (s.setMswp i mp).procs = s.procs := rfl
@[simp] theorem Sys.mm_setMswp : (s.setMswp i mp).mm p = s.mm p := rfl
@[simp] theorem Sys.active_setMswp : (s.setMswp i mp).active p = s.active p := rfl

/-- The devices after one of them is replaced. -/
theorem Sys.mswp_setMswp (j : Fin pagingMaxMmswp) :
    (s.setMswp i mp).mswp j = if j = i then mp else s.mswp j := by
  simp [Sys.setMswp, Function.update_apply]

@[simp] theorem Mm.mmap_setPte (pgn : ℕ) (pte : BitVec 32) :
    (mm.setPte pgn pte).mmap = mm.mmap := rfl
@[simp] theorem Mm.fifoPgn_setPte (pgn : ℕ) (pte : BitVec 32) :
    (mm.setPte pgn pte).fifoPgn = mm.fifoPgn := rfl

/-- The page table after one entry is written. -/
theorem Mm.pgd_setPte (pgn : ℕ) (pte : BitVec 32) (g : ℕ) :
    (mm.setPte pgn pte).pgd g = if g = pgn then pte else mm.pgd g := by
  simp [Mm.setPte, Function.update_apply]

variable [DecidableEq ι]

/-- The system with another `mm` of process `p`, and everything else as it was. -/
def Sys.setMm : Sys ι :=
  { s with procs := Function.update s.procs p { s.procs p with mm := mm } }

/-- The `mm` of every process, after that of one of them is replaced. -/
theorem Sys.mm_setMm : (s.setMm p mm).mm q = if q = p then mm else s.mm q := by
  by_cases h : q = p
  · subst h
    simp [Sys.setMm, Sys.mm]
  · simp [Sys.setMm, Sys.mm, h]

@[simp] theorem Sys.procs_setMm_self :
    (s.setMm p mm).procs p = { s.procs p with mm := mm } := by
  simp [Sys.setMm]

/-- The other processes stay as they are. -/
theorem Sys.procs_setMm_of_ne {q : ι} (h : q ≠ p) : (s.setMm p mm).procs q = s.procs q := by
  simp [Sys.setMm, h]

@[simp] theorem Sys.setMm_mm : s.setMm p (s.mm p) = s := by
  rw [Sys.setMm, Sys.mm, Function.update_eq_self]

@[simp] theorem Sys.mm_setMm_self : (s.setMm p mm).mm p = mm := by
  rw [Sys.mm_setMm, if_pos rfl]

/-- The `mm` of another process stays as it is. -/
theorem Sys.mm_setMm_of_ne {q : ι} (h : q ≠ p) : (s.setMm p mm).mm q = s.mm q := by
  rw [Sys.mm_setMm, if_neg h]

@[simp] theorem Sys.active_setMm : (s.setMm p mm).active q = s.active q := by
  by_cases h : q = p
  · subst h
    simp [Sys.setMm, Sys.active]
  · simp [Sys.setMm, Sys.active, h]

@[simp] theorem Sys.activeMswpId_setMm :
    ((s.setMm p mm).procs q).activeMswpId = (s.procs q).activeMswpId := by
  by_cases h : q = p
  · subst h
    simp [Sys.setMm]
  · simp [Sys.setMm, h]

@[simp] theorem Sys.mram_setMm : (s.setMm p mm).mram = s.mram := rfl
@[simp] theorem Sys.mswp_setMm : (s.setMm p mm).mswp = s.mswp := rfl

end Projections

variable [DecidableEq ι]

/-! ### A fresh process -/

/-- `init_vm_rg`: the bounds are stored as `unsigned long`s. -/
def initVmRg (rgStart rgEnd : ℤ) : VmRg := ⟨toULong rgStart, toULong rgEnd⟩

/-- `enlist_vm_rg_node`: the node becomes the head of the list, whatever its bounds are. -/
def enlistVmRgNode (rglist : List VmRg) (rgnode : VmRg) : List VmRg := rgnode :: rglist

/-- `init_mm` on a structure that is zero before: one area, empty, whose free list holds
one region from its start to its end. -/
def initMm : Mm :=
  let vma0 : VmArea := { vmId := 0, vmStart := 0, vmEnd := 0, sbrk := 0, vmFreergList := [] }
  let firstRg := initVmRg vma0.vmStart vma0.vmEnd
  { pgd := fun _ => 0
    mmap := [{ vma0 with vmFreergList := enlistVmRgNode vma0.vmFreergList firstRg }]
    symrgtbl := fun _ => ⟨0, 0⟩
    fifoPgn := [] }

/-! ### Page replacement -/

/-- `enlist_pgn_node`: the page becomes the head of the list, and so the last one to be found. -/
def enlistPgnNode (plist : List ℕ) (pgn : ℕ) : List ℕ := pgn :: plist

/-- `find_victim_page` (`libmem.c`): walk to the last node and unlink it. `none` is the code
`-1` for an empty list. -/
def findVictimPage : List ℕ → Option (ℕ × List ℕ)
  | [] => none
  | [pgn] => some (pgn, [])
  | pgn :: next :: rest =>
      (findVictimPage (next :: rest)).map fun r => (r.1, pgn :: r.2)

/-! ### Obtaining frames -/

/-- The search of `alloc_pages_range` for the index of the active device among the
caller's devices: `i` runs up to `PAGING_MAX_MMSWP` and stops at the first match. -/
def mswpIndex (active : Fin pagingMaxMmswp) : ℕ :=
  ((List.finRange pagingMaxMmswp).find? fun i => i = active).elim pagingMaxMmswp Fin.val

/-- The part of `alloc_pages_range` that finds a swap frame for the victim and copies the
victim's bytes there: the active device first, else the first device with a free frame.
Returns the device index, the swap frame and the state; `none` is `swpfpn == -1`. -/
def swapOut (s : Sys ι) (p : ι) (victimFpn : ℕ) : Option (ℕ × ℕ × Sys ι) :=
  match memphyGetFreefp (s.mswp (s.active p)) with
  | some r =>
      some (mswpIndex (s.active p), r.1,
        s.setMswp (s.active p) (swapCpPage s.mram victimFpn r.2 r.1).2)
  | none =>
      (List.finRange pagingMaxMmswp).findSome? fun i =>
        (memphyGetFreefp (s.mswp i)).map fun r =>
          (i.val, r.1, s.setMswp i (swapCpPage s.mram victimFpn r.2 r.1).2)

/-- What the loop of `alloc_pages_range` carries: the system and the list `*frm_lst`, which shares
its nodes with RAM's used-frame list. -/
structure AllocState (ι : Type) where
  sys : Sys ι
  frmLst : List (Framephy ι)

/-- One iteration of the loop of `alloc_pages_range`. The code 0 means that the loop goes on;
every other code is returned. -/
def allocPage (st : AllocState ι) (p : ι) : ℤ × AllocState ι :=
  match memphyGetFreefp st.sys.mram with
  | some r =>
      -- the new node's `fp_next` ends up as the old `used_fp_list`
      let lst := ⟨r.1, p⟩ :: r.2.usedFpList
      (0, { sys := { st.sys with mram := { r.2 with usedFpList := lst } }, frmLst := lst })
  | none =>
      match findVictimPage (st.sys.mm p).fifoPgn with
      | none => (-1, st)
      | some v =>
          let s := st.sys.setMm p { st.sys.mm p with fifoPgn := v.2 }
          let victimFpn := pagingFpn ((s.mm p).pgd v.1)
          let frmLst := ⟨victimFpn, p⟩ :: st.frmLst
          match swapOut s p victimFpn with
          -- the victim has left the FIFO but stays mapped
          | none => (-3000, { sys := s, frmLst := frmLst })
          | some r =>
              let pte := pteSetSwap ((r.2.2.mm p).pgd v.1) r.1 r.2.1
              (0, { sys := r.2.2.setMm p ((r.2.2.mm p).setPte v.1 pte), frmLst := frmLst })

/-- The loop of `alloc_pages_range` with `n` frames still to obtain: it ends at the first code other
than 0, and what it has obtained until then stays as it is. -/
def allocPages (p : ι) : ℕ → AllocState ι → ℤ × AllocState ι
  | 0, st => (0, st)
  | n + 1, st =>
      if (allocPage st p).1 = 0 then allocPages p n (allocPage st p).2 else allocPage st p

/-- `alloc_pages_range`: the code, and what the loop has come to, whichever code that is. A number
of pages below 1 is none. -/
def allocPagesRange (s : Sys ι) (p : ι) (reqPgnum : ℤ) (frmLst : List (Framephy ι)) :
    ℤ × AllocState ι :=
  allocPages p reqPgnum.toNat { sys := s, frmLst := frmLst }

/-! ### Mapping frames -/

/-- The loop of `vmap_page_range` from page `pgn` on, with `n` pages left: it stops when either runs
out, the pages or the frames. An entry behind the page table is undefined. -/
def vmapPages : ℕ → ℕ → List (Framephy ι) → Mm → Option Mm
  | 0, _, _, mm => some mm
  | _ + 1, _, [], mm => some mm
  | n + 1, pgn, fp :: fps, mm =>
      if pgn < pagingMaxPgn then
        let mm := mm.setPte pgn (pteSetFpn (mm.pgd pgn) fp.fpn)
        vmapPages n (pgn + 1) fps { mm with fifoPgn := enlistPgnNode mm.fifoPgn pgn }
      else none

/-- `vmap_page_range`: the pages from that of `addr` on get the frames of the list, as many as there
are. The region that is said to be mapped, and the system. -/
def vmapPageRange (s : Sys ι) (p : ι) (addr pgnum : ℤ) (frames : List (Framephy ι)) :
    Option (VmRg × Sys ι) :=
  let pgn := pagingPgn (BitVec.ofInt 32 addr)
  let retRg : VmRg :=
    ⟨toULong addr, toULong (toInt (addr + toInt (pgnum * pagingPagesz) - 1))⟩
  (vmapPages pgnum.toNat pgn frames (s.mm p)).map fun mm => (retRg, s.setMm p mm)

/-- `vm_map_ram`: the code, the region stored through `ret_rg`, and the system. The bounds
of the area are not used. -/
def vmMapRam (s : Sys ι) (p : ι) (_astart _aend mapstart incpgnum : ℤ) (retRg : VmRg) :
    Option (ℤ × VmRg × Sys ι) :=
  let r := allocPagesRange s p incpgnum []
  if r.1 < 0 ∧ r.1 ≠ -3000 then some (-1, retRg, r.2.sys)
  else if r.1 = -3000 then some (-1, retRg, r.2.sys)
  else
    (vmapPageRange r.2.sys p mapstart incpgnum r.2.frmLst).map fun x => (0, x.1, x.2)

end OsSim
