import OsSim.FlatMemory
import OsSim.AllocSize
import OsSim.Exchange
import OsSim.Rgnode

/-!
# Private Memory

What one process should see of its memory, whatever the others do: pages from address 0 up to the
break, the regions it has allocated and freed in them, and the bytes it has written. There are no
frames here, no swap and nobody else. Such memories are backed by RAM as long as their pages
together fit into it: nothing is ever evicted then. A free that puts its local on the list ends the
allocations of the process: the next one would read through a dangling pointer.

## The memory of one process

`AddressSpace.exec` is one instruction on it. An allocation takes the front of the first free
region, or new pages; a read or a write is at the address that the code computes, if it is below the
break; and an instruction is `none` where the code would leave the pages of the process, or read a
list that is dangling. What an instruction shows is its code, and for a read the byte that the
process has last written there; nothing is said about a byte that it has not written.

## Backing

`Backed` relates a system to the memories of all processes: the page tables map their pages to
different frames of RAM, which hold the bytes written, and the frames in use are the first ones. The
first part is `Holds` of `Runs` with no page swapped out. As long as the pages of all memories fit,
a growth request finds its frames free, and evicts nothing (`Growth.of_room`).

Each call is shown to do on the system what the instruction does on the memory of its process
(`Backed.alloc` and its siblings), and nothing to the others. `StackBacked` has the marks of
`Rgnode` besides, so that it says that the calls are defined.

## Main results

* `Growth.of_room`: a growth request that finds enough free frames.
* `Backed.grow`: a growth request while the pages of all fit into RAM.
* `Backed.exec`: **one instruction of a process does to its private memory what it should**, and
  nothing to the others'.
* `StackBacked.exec`: none of them is undefined.
-/

namespace OsSim

open TransitionSystem

/-! ### One process -/

/-- The memory of one process: `pages` pages, the free regions, the region table, the bytes
written so far, and whether the head of the list of free regions is dangling. The page table has
16384 entries. -/
structure AddressSpace where
  pages : ℕ
  pages_le : pages ≤ pagingMaxPgn
  vmFreergList : List VmRg
  symrgtbl : ℕ → VmRg
  written : BitVec 32 → Option Byte
  dangles : Bool

namespace AddressSpace

/-- The memory as `init_mm` leaves it: no page, and one byte on the list of free regions. -/
def empty : AddressSpace where
  pages := 0
  pages_le := Nat.zero_le _
  vmFreergList := [⟨0, 0⟩]
  symrgtbl _ := ⟨0, 0⟩
  written _ := none
  dangles := false

/-- The area: its end is the break. -/
def vma (v : AddressSpace) : VmArea := ⟨0, 0, 256 * v.pages, 256 * v.pages, v.vmFreergList⟩

/-- The index of a region id, if it is one inside the table. -/
def rgIndex (rgid : BitVec 32) : Option ℕ :=
  if 0 ≤ rgid.toInt ∧ rgid.toInt < pagingMaxSymtblSz then some rgid.toInt.toNat else none

/-- The address of an access, if it is below the break. -/
def access (v : AddressSpace) (rgid offset : BitVec 32) : Option (BitVec 32) := do
  let i ← rgIndex rgid
  let a := BitVec.ofInt 32 ((v.symrgtbl i).rgStart + offset.toInt)
  if a.toNat < 256 * v.pages then some a else none

/-- The memory with region `rg` recorded at index `i`. -/
def setSymrg (v : AddressSpace) (i : ℕ) (rg : VmRg) : AddressSpace :=
  { v with symrgtbl := Function.update v.symrgtbl i rg }

/-- The number of pages that `size` bytes take, the last one in part. -/
def sizePages (size : BitVec 32) : ℕ := (size.toNat + 255) / 256

/-- `ALLOC`: the front of a free region, or new pages if there is room for them. The list of free
regions must not be dangling. -/
def alloc (v : AddressSpace) (size regIndex : BitVec 32) : Option AddressSpace := do
  let i ← rgIndex regIndex
  if v.dangles then none else
  match getFreeVmrgLoop v.vmFreergList size.toInt with
  | some r => some { v.setSymrg i r.1 with vmFreergList := r.2 }
  | none =>
      if h : v.pages + sizePages size ≤ pagingMaxPgn then
        some { v.setSymrg i ⟨256 * v.pages, 256 * (v.pages + sizePages size)⟩ with
          pages := v.pages + sizePages size
          pages_le := h }
      else none

/-- `FREE`: the region goes to the free ones, and stays in the table. When the list takes it, its
head is dangling from then on. -/
def free (v : AddressSpace) (regIndex : BitVec 32) : Option AddressSpace :=
  (rgIndex regIndex).map fun i =>
    { v with
      vmFreergList := (enlistVmFreergList v.vmFreergList (v.symrgtbl i)).2
      dangles := v.dangles || decide ((v.symrgtbl i).rgStart < (v.symrgtbl i).rgEnd) }

/-- One instruction; `none` where it would leave the pages of the process. -/
def exec (v : AddressSpace) : Inst → Option AddressSpace
  | .calc => some v
  | .alloc size regIndex => v.alloc size regIndex
  | .free regIndex => v.free regIndex
  | .read source offset => (v.access source offset).map fun _ => v
  | .write data destination offset => (v.access destination offset).map fun a =>
      { v with written := Function.update v.written a (some (data.setWidth 8)) }
  | .memmap _ => none

/-- What an instruction may show: the code 0 and, if it is a `READ`, the byte last written to its
address, if there is one. -/
def Shows (v : AddressSpace) : Inst → Out → Prop
  | .read source offset, out => out.stat = 0 ∧ ∃ w, out.destination = some w ∧
      ∀ a ∈ v.access source offset, ∀ b ∈ v.written a, w = b.signExtend 32
  | _, out => out = { stat := 0 }

end AddressSpace

/-! ### Growing where there is room -/

section Growth

variable {ι : Type} [DecidableEq ι] {s s' : Sys ι} {p : ι}

/-- **A growth request that finds enough free frames** takes the first of them and evicts
nothing. -/
theorem Growth.of_room {pgn n : ℕ} {code : ℤ} (h : Growth s p pgn n code s')
    (hroom : n ≤ s.mram.freeFpList.length) :
    code = 0 ∧ s'.mram.freeFpList = s.mram.freeFpList.drop n ∧
      ∀ g, ¬ (pgn ≤ g ∧ g < pgn + n) → (s'.mm p).pgd g = (s.mm p).pgd g := by
  have hstop {taken : List ℕ} {evs : List Eviction} {st : AllocState ι}
      (hob : Obtained s p taken evs st) (hfree : st.sys.mram.freeFpList = [])
      (hlen : taken.length + evs.length < n) : False := by
    have hall := congrArg List.length hob.free
    rw [hfree, List.append_nil] at hall
    omega
  cases h with
  | mapped taken evs st mm hlen hob hmap =>
      have hevs : evs = [] := by
        by_contra hne
        have hall := congrArg List.length hob.free
        rw [hob.exhausted hne, List.append_nil] at hall
        have hpos := List.length_pos_iff.mpr hne
        omega
      subst hevs
      have htaken : taken.length = n := by simpa using hlen
      refine ⟨rfl, ?_, ?_⟩
      · rw [Sys.mram_setMm, hob.free, ← htaken, List.drop_left]
      · intro g hg
        rw [Sys.mm_setMm_self, hmap.pgd_out g (by simpa [htaken] using hg)]
        exact hob.pgd_other g (by simp)
  | noVictim taken evs st hlen hob hfree hfifo => exact (hstop hob hfree hlen).elim
  | noSwap taken evs st v fifo hlen hob hfree hfifo hswap => exact (hstop hob hfree hlen).elim

end Growth

/-! ### Backing -/

/-- The page table, the area and the region table of `mm` are those of the memory `v`: its pages
are resident, and no others are mapped. -/
structure Mm.Backs (mm : Mm) (v : AddressSpace) : Prop where
  area : OneArea mm v.vma
  symrgtbl : ∀ i < pagingMaxSymtblSz, mm.symrgtbl i = v.symrgtbl i
  resident : ∀ g < v.pages, Resident (mm.pgd g)
  absent : ∀ g, v.pages ≤ g → pagingPagePresent (mm.pgd g) = false

section Backed

variable {ι : Type} [DecidableEq ι] {s s' : Sys ι} {v : ι → AddressSpace} {v' : AddressSpace}
  {p : ι} {total : ℕ}

/-- The bytes written by all when one writes nothing. -/
theorem written_update (hwritten : v'.written = (v p).written) :
    (fun q => (Function.update v p v' q).written) = fun q => (v q).written := by
  funext q
  by_cases hq : q = p
  · subst hq
    rw [Function.update_self, hwritten]
  · rw [Function.update_of_ne hq]

variable [Fintype ι]

/-- **RAM of `total` frames backs the memories `v`**: the bytes written are in the frames of their
pages, and the first frames are in use, as many as there are pages. -/
structure Backed (total : ℕ) (s : Sys ι) (v : ι → AddressSpace) : Prop where
  holds : Holds s fun p => (v p).written
  each : ∀ p, (s.mm p).Backs (v p)
  free : s.mram.freeFpList = (List.range total).drop (∑ p, (v p).pages)

/-- The pages of all when those of one change. -/
theorem sum_pages_update (v : ι → AddressSpace) (p : ι) (v' : AddressSpace) :
    ∑ q, (Function.update v p v' q).pages + (v p).pages = ∑ q, (v q).pages + v'.pages := by
  have hupdate (q : ι) : (Function.update v p v' q).pages =
      Function.update (fun q => (v q).pages) p v'.pages q :=
    Function.apply_update (fun _ => AddressSpace.pages) v p v' q
  simp only [hupdate]
  rw [Finset.sum_update_of_mem (Finset.mem_univ p), Finset.sdiff_singleton_eq_erase,
    ← Finset.add_sum_erase _ (fun q => (v q).pages) (Finset.mem_univ p)]
  omega

/-- With a page table of the process and its bytes, the rest stays. -/
theorem Backed.of_one (h : Backed total s v)
    (hholds : Holds s' fun q => (Function.update v p v' q).written)
    (hother : ∀ q, q ≠ p → s'.mm q = s.mm q) (hp : (s'.mm p).Backs v')
    (hfree : s'.mram.freeFpList = (List.range total).drop (∑ q, (Function.update v p v' q).pages)) :
    Backed total s' (Function.update v p v') where
  holds := hholds
  each q := by
    by_cases hq : q = p
    · subst hq
      rwa [Function.update_self]
    · rw [Function.update_of_ne hq, hother q hq]
      exact h.each q
  free := hfree

/-- Regions are moved around, and pages and bytes stay where they are. -/
theorem Backed.setMm (h : Backed total s v) {mm : Mm} (hwritten : v'.written = (v p).written)
    (hpages : v'.pages = (v p).pages) (hpgd : mm.pgd = (s.mm p).pgd)
    (hfifo : mm.fifoPgn = (s.mm p).fifoPgn) (harea : OneArea mm v'.vma)
    (hsym : ∀ i < pagingMaxSymtblSz, mm.symrgtbl i = v'.symrgtbl i) :
    Backed total (s.setMm p mm) (Function.update v p v') := by
  have hinv : MemInv (s.setMm p mm) := by
    exact h.holds.inv.congr (sameFrames_setMm hpgd hfifo) rfl (oneArea_setMm harea)
  refine h.of_one ?_ (fun q hq => Sys.mm_setMm_of_ne _ _ _ hq) ?_ ?_
  · rw [written_update hwritten]
    exact h.holds.of_effect hinv (effect_setMm hpgd) rfl
  · rw [Sys.mm_setMm_self]
    refine ⟨harea, hsym, ?_, ?_⟩
    · rw [hpgd, hpages]
      exact (h.each p).resident
    · rw [hpgd, hpages]
      exact (h.each p).absent
  · have hsum := sum_pages_update v p v'
    rw [hpages] at hsum
    rw [Nat.add_right_cancel hsum]
    exact h.free

/-- The words behind a region table are nobody's. -/
theorem Backed.setBehind (h : Backed total s v) (p : ι) (behind : VmRg) :
    Backed total (s.setBehind p behind) v := by
  have harea := (h.each p).area
  have hsym (i : ℕ) (hi : i < pagingMaxSymtblSz) :
      Function.update (s.mm p).symrgtbl pagingMaxSymtblSz behind i = (v p).symrgtbl i := by
    rw [Function.update_of_ne (by omega)]
    exact (h.each p).symrgtbl i hi
  have hback : Backed total (s.setBehind p behind) (Function.update v p (v p)) :=
    h.setMm rfl rfl rfl rfl ⟨harea.mmap, harea.vmId⟩ hsym
  rwa [Function.update_eq_self] at hback

omit [DecidableEq ι] in
/-- The devices as `main` sets them up back empty memories. -/
theorem backed_bootSys (memramsz : BitVec 32) (memswpsz : Fin pagingMaxMmswp → BitVec 32) :
    Backed (memramsz.toInt.tdiv pagingPagesz).toNat (bootSys memramsz memswpsz : Sys ι)
      fun _ => .empty where
  holds :=
    { inv := memInv_of_booted (booted_bootSys memramsz memswpsz)
      lt := fun p a b hb => by cases hb
      mapped := fun p a b hb => by cases hb
      byte := fun p a b hb => by cases hb }
  each p :=
    { area := ⟨rfl, rfl⟩
      symrgtbl := fun i _ => rfl
      resident := fun g hg => absurd hg (Nat.not_lt_zero g)
      absent := fun g _ => pagingPagePresent_zero }
  free := by
    rw [bootSys, initMemphy_eq]
    simp [AddressSpace.empty]

end Backed

/-! ### Addresses and areas -/

section Areas

variable {w w' : AddressSpace}

/-- An id of the table, as an index. -/
theorem AddressSpace.rgIndex_eq_some {rgid : BitVec 32} {i : ℕ} (h : rgIndex rgid = some i) :
    (0 ≤ rgid.toInt ∧ rgid.toInt < pagingMaxSymtblSz) ∧ rgid.toInt.toNat = i ∧
      i < pagingMaxSymtblSz := by
  rw [rgIndex] at h
  split_ifs at h with hid
  obtain rfl := Option.some.inj h
  exact ⟨hid, rfl, by omega⟩

/-- **An access below the break** goes to the address that the code computes, in a page that is
there. -/
theorem Mm.Backs.access {ι : Type} {s : Sys ι} {p : ι} (h : (s.mm p).Backs w)
    {rgid offset a : BitVec 32} (ha : w.access rgid offset = some a) :
    s.accessAddr p rgid offset = some a ∧ a.toNat < 4194304 ∧ s.ResidentAt p (pagingPgn a) := by
  obtain ⟨i, hi, ha⟩ := Option.bind_eq_some_iff.mp ha
  obtain ⟨hid, rfl, hlt⟩ := AddressSpace.rgIndex_eq_some hi
  simp only at ha
  split_ifs at ha with hbrk
  obtain rfl := Option.some.inj ha
  have hpages : w.pages ≤ 16384 := w.pages_le
  refine ⟨?_, by omega, h.resident _ ?_⟩
  · rw [Sys.accessAddr, getSymrgByid, if_neg (by omega), Option.map_some, regionAddr,
      h.symrgtbl _ hlt]
  · rw [pagingPgn_eq]
    omega

/-- The size of a growth request, and the pages it maps. -/
theorem AddressSpace.growth_eq {size : BitVec 32} (h : w.pages + sizePages size ≤ pagingMaxPgn) :
    pagingPageAlignsz size.toInt = 256 * sizePages size ∧
      growPages (pagingPageAlignsz size.toInt) = sizePages size ∧
      ∀ g, (w.vma.growPgn ≤ g ∧ g < w.vma.growPgn + sizePages size) ↔
        w.pages ≤ g ∧ g < w.pages + sizePages size := by
  have hpages : sizePages size = (size.toNat + 255) / 256 := rfl
  have hmax : pagingMaxPgn = 16384 := rfl
  have hint : size.toInt = size.toNat := BitVec.toInt_eq_toNat_of_lt (by omega)
  have halign : pagingPageAlignsz size.toInt = 256 * sizePages size := by
    rw [hint, pagingPageAlignsz_eq (by omega) (by omega)]
    omega
  have hgrow : growPages (pagingPageAlignsz size.toInt) = sizePages size := by
    have hcount : (growPages (pagingPageAlignsz size.toInt) : ℤ) =
        (pagingPageAlignsz size.toInt + 255) / 256 := growPages_eq (by omega) (by omega)
    omega
  refine ⟨halign, hgrow, fun g => ?_⟩
  have hend : w.vma.vmEnd = 256 * w.pages := rfl
  have hlo : 0 ≤ pagingPageAlignsz size.toInt := by omega
  have hrange := w.vma.mem_range ⟨w.pages, hend⟩ hlo (by omega) g
  rw [hgrow] at hrange
  rw [hrange]
  omega

end Areas

/-! ### One instruction -/

section Exec

variable {ι : Type} [DecidableEq ι] [Fintype ι] {s : Sys ι} {v : ι → AddressSpace}
  {v' : AddressSpace} {p : ι} {total : ℕ}

/-- The memory with `k` more pages. -/
def AddressSpace.addPages (w : AddressSpace) (k : ℕ) (h : w.pages + k ≤ pagingMaxPgn) :
    AddressSpace :=
  { w with pages := w.pages + k, pages_le := h }

omit [DecidableEq ι] [Fintype ι] in
/-- The area grows by as many pages as the memory. -/
theorem AddressSpace.vma_addPages {w : AddressSpace} {k : ℕ} (hle : w.pages + k ≤ pagingMaxPgn)
    {inc : ℤ} (hinc : inc = 256 * k) : w.vma.grow inc = (w.addPages k hle).vma := by
  have hmax : pagingMaxPgn = 16384 := rfl
  have hend : ((256 * w.pages : ℕ) : ℤ) + 256 * (k : ℤ) = ((256 * (w.pages + k) : ℕ) : ℤ) := by
    push_cast
    ring
  have hcast : (toULong ((256 * (w.pages + k) : ℕ) : ℤ) : ℤ) = ((256 * (w.pages + k) : ℕ) : ℤ) :=
    toULong_of_range (Int.natCast_nonneg _) (by omega)
  have hnat : toULong ((256 * (w.pages + k) : ℕ) : ℤ) = 256 * (w.pages + k) := by
    exact_mod_cast hcast
  simp only [VmArea.grow, AddressSpace.vma, AddressSpace.addPages, hinc, hend, hnat]

omit [DecidableEq ι] in
/-- New pages are not mapped yet, and the first free frames are in reach of their entries. -/
theorem Backed.growthFits (h : Backed total s v) {inc : ℤ} {k : ℕ} (hgrow : growPages inc = k)
    (hpages : ∀ g, (v p).vma.growPgn ≤ g → g < (v p).vma.growPgn + k → (v p).pages ≤ g)
    (hlow : ∑ q, (v q).pages + k ≤ 8192) : s.GrowthFits p (v p).vma inc := by
  rw [Sys.GrowthFits, hgrow]
  refine ⟨fun g hlo hhi => (h.each p).absent g (hpages g hlo hhi), fun f hf => ?_⟩
  rw [h.free] at hf
  obtain ⟨j, hj, rfl⟩ := List.mem_take_iff_getElem.mp hf
  simp only [List.getElem_drop, List.getElem_range]
  omega

omit [DecidableEq ι] [Fintype ι] in
/-- An allocation reads the list of free regions, and does not change whether it is dangling. -/
theorem AddressSpace.dangles_of_alloc {w w' : AddressSpace} {size regIndex : BitVec 32}
    (h : w.alloc size regIndex = some w') : w.dangles = false ∧ w'.dangles = w.dangles := by
  obtain ⟨i, -, h⟩ := Option.bind_eq_some_iff.mp h
  cases hdangles : w.dangles
  · rw [hdangles, if_neg Bool.false_ne_true] at h
    refine ⟨rfl, ?_⟩
    rcases hloop : getFreeVmrgLoop w.vmFreergList size.toInt with _ | r
    · simp only [hloop] at h
      split_ifs at h
      obtain rfl := Option.some.inj h
      exact hdangles
    · simp only [hloop, Option.some.injEq] at h
      subst h
      exact hdangles
  · simp [hdangles] at h

/-- **A growth request** for which there are frames: the memory has its pages. -/
theorem Backed.grow (h : Backed total s v) {size : BitVec 32} {k : ℕ}
    (hk : AddressSpace.sizePages size = k) (hle : (v p).pages + k ≤ pagingMaxPgn)
    (htotal : ∑ q, (v q).pages + k ≤ total) (hlow : ∑ q, (v q).pages + k ≤ 8192) :
    ∃ s₁, incVmaLimit s p 0 (pagingPageAlignsz size.toInt) = some (0, s₁) ∧
      Backed total s₁ (Function.update v p ((v p).addPages k hle)) := by
  obtain ⟨halign, hgrow, hrange⟩ := AddressSpace.growth_eq (w := v p) (hk ▸ hle)
  rw [hk] at halign hgrow hrange
  have hback := h.each p
  have hlen : k ≤ s.mram.freeFpList.length := by
    rw [h.free, List.length_drop, List.length_range]
    omega
  -- the request comes to something, and fits
  have hin : growPages (pagingPageAlignsz size.toInt) ≠ 0 →
      (v p).vma.growPgn + growPages (pagingPageAlignsz size.toInt) ≤ pagingMaxPgn := by
    rw [hgrow]
    intro hne
    have hlast := (hrange ((v p).vma.growPgn + k - 1)).mp (by omega)
    omega
  obtain ⟨code, s₁, hinc⟩ := incVmaLimit_defined hback.area hin
  have hfits : s.GrowthFits p (v p).vma (pagingPageAlignsz size.toInt) :=
    h.growthFits hgrow (fun g hlo hhi => ((hrange g).mp ⟨hlo, hhi⟩).1) hlow
  have hgrowth := incVmaLimit_cases hback.area le_rfl hinc
  rw [← VmArea.growPgn, ← growPages, hgrow] at hgrowth
  obtain ⟨rfl, hfree, hsame⟩ := hgrowth.of_room hlen
  obtain ⟨hinv, heff, harea⟩ := h.holds.inv.grow hback.area le_rfl hfits hinc
  have honly := hgrowth.onlyPages
  have hentry (g : ℕ) (hg : ¬ ((v p).pages ≤ g ∧ g < (v p).pages + k)) :
      (s₁.mm p).pgd g = (s.mm p).pgd g := by
    rw [hsame g (mt (hrange g).mp hg), Sys.moveBrk, Sys.mm_setMm_self]
  refine ⟨s₁, hinc, h.of_one ?_ heff.other ?_ ?_⟩
  · have hwritten : ((v p).addPages k hle).written = (v p).written := rfl
    rw [written_update hwritten]
    exact h.holds.of_effect hinv heff (storage_incVmaLimit hback.area le_rfl hinc)
  · refine
      { area := ?_
        symrgtbl := ?_
        resident := ?_
        absent := ?_ }
    · rwa [AddressSpace.vma_addPages hle halign] at harea
    · intro i hi
      rw [honly.symrgtbl, Sys.moveBrk, Sys.mm_setMm_self]
      exact hback.symrgtbl i hi
    · intro g hg
      by_cases hnew : (v p).pages ≤ g
      · have hin := (hrange g).mpr ⟨hnew, hg⟩
        exact hgrowth.resident_of_mem hin.1 hin.2
      · rw [hentry g (by omega)]
        exact hback.resident g (by omega)
    · intro g hg
      have hout : (v p).pages + k ≤ g := hg
      rw [hentry g (by omega)]
      exact hback.absent g (by omega)
  · have hsum := sum_pages_update v p ((v p).addPages k hle)
    have hpages : ((v p).addPages k hle).pages = (v p).pages + k := rfl
    rw [hfree, show (s.moveBrk p (v p).vma (pagingPageAlignsz size.toInt)).mram = s.mram from rfl,
      h.free, List.drop_drop]
    congr 1
    omega

omit [DecidableEq ι] [Fintype ι] in
/-- Recording one region in two tables that agree inside keeps them so. -/
theorem symrgtbl_update {f g : ℕ → VmRg} (h : ∀ j < pagingMaxSymtblSz, f j = g j) (i : ℕ)
    (rg : VmRg) : ∀ j < pagingMaxSymtblSz,
      Function.update f i rg j = Function.update g i rg j := by
  intro j hj
  by_cases hji : j = i
  · rw [hji, Function.update_self, Function.update_self]
  · rw [Function.update_of_ne hji, Function.update_of_ne hji, h j hj]

omit [DecidableEq ι] [Fintype ι] in
/-- What `liballoc` records for new pages. -/
theorem AddressSpace.grown_eq {w : AddressSpace} {size : BitVec 32}
    (hle : w.pages + sizePages size ≤ pagingMaxPgn) :
    (⟨toULong (toInt w.vma.sbrk),
      toULong (toInt (toInt w.vma.sbrk + pagingPageAlignsz size.toInt))⟩ : VmRg) =
      ⟨256 * w.pages, 256 * (w.pages + sizePages size)⟩ := by
  have halign := (growth_eq hle).1
  have hmax : pagingMaxPgn = 16384 := rfl
  have hend : (w.vma.vmEnd : ℤ) = 256 * w.pages := by
    simp only [vma]
    push_cast
    ring
  have hlo : (0 : ℤ) ≤ 256 * sizePages size := by omega
  obtain ⟨hstart, hlast⟩ :=
    @VmArea.grown_eq w.vma (256 * sizePages size) hlo (by omega) rfl _ halign
  rw [hend] at hstart hlast
  have hgrown : w.vma.grown size.toInt = ⟨256 * w.pages, 256 * (w.pages + sizePages size)⟩ := by
    rw [VmRg.mk.injEq]
    omega
  exact hgrown

/-- **An allocation** from a free region, or of new pages. -/
theorem Backed.alloc (h : Backed total s v) {size regIndex : BitVec 32}
    (halloc : (v p).alloc size regIndex = some v')
    (htotal : ∑ q, (Function.update v p v' q).pages ≤ total)
    (hlow : ∑ q, (Function.update v p v' q).pages ≤ 8192) :
    ∃ s', liballoc s p size regIndex = some (0, s') ∧
      Backed total s' (Function.update v p v') := by
  have hback := h.each p
  have hsum := sum_pages_update v p v'
  obtain ⟨i, hi, hexec⟩ := Option.bind_eq_some_iff.mp halloc
  obtain ⟨hid, rfl, hlt⟩ := AddressSpace.rgIndex_eq_some hi
  rw [(AddressSpace.dangles_of_alloc halloc).1, if_neg Bool.false_ne_true] at hexec
  rcases hloop : getFreeVmrgLoop (v p).vmFreergList size.toInt with _ | r
  · simp only [hloop] at hexec
    split_ifs at hexec with hle
    obtain rfl := Option.some.inj hexec
    have hpages : (v p).pages ≤ pagingMaxPgn := (v p).pages_le
    simp only at hsum
    obtain ⟨s₁, hinc, hback₁⟩ := h.grow rfl hle (by omega) (by omega)
    refine ⟨_, liballoc_of_growth hback.area hid hloop hinc, ?_⟩
    have hnew := hback₁.each p
    rw [Function.update_self] at hnew
    rw [AddressSpace.grown_eq hle, ← Function.update_idem ((v p).addPages _ hle) _ v]
    refine hback₁.setMm ?_ ?_ rfl rfl ⟨hnew.area.mmap, rfl⟩ (symrgtbl_update hnew.symrgtbl _ _)
    · rw [Function.update_self]
      rfl
    · rw [Function.update_self]
      rfl
  · simp only [hloop, Option.some.injEq] at hexec
    subst hexec
    refine ⟨_, liballoc_of_reuse hback.area hid hloop, ?_⟩
    exact h.setMm rfl rfl rfl rfl ⟨rfl, rfl⟩ (symrgtbl_update hback.symrgtbl _ _)

/-- **Freeing** a region moves it to the list, and leaves pages and bytes alone. -/
theorem Backed.libfree (h : Backed total s v) {regIndex : BitVec 32}
    (hexec : (v p).free regIndex = some v') :
    ∃ s', libfree s p regIndex = some (0, s') ∧ Backed total s' (Function.update v p v') := by
  have hback := h.each p
  obtain ⟨i, hi, rfl⟩ := Option.map_eq_some_iff.mp hexec
  obtain ⟨hid, rfl, hlt⟩ := AddressSpace.rgIndex_eq_some hi
  let rgs := (enlistVmFreergList (v p).vmFreergList ((v p).symrgtbl regIndex.toInt.toNat)).2
  refine ⟨s.setMm p { s.mm p with mmap := [{ (v p).vma with vmFreergList := rgs }] }, ?_,
    h.setMm rfl rfl rfl rfl ⟨rfl, rfl⟩ hback.symrgtbl⟩
  rw [OsSim.libfree, OsSim.free, if_neg (by omega), hback.area.mmap,
    hback.symrgtbl _ hlt]
  rfl

/-- **A write** to the process's own pages, in the frame that the page has. -/
theorem Backed.libwrite (h : Backed total s v) {destination offset a : BitVec 32}
    (ha : (v p).access destination offset = some a) (data : Byte)
    (hv' : v' = { v p with written := Function.update (v p).written a (some data) }) :
    ∃ s', libwrite s p data destination offset = some (0, s') ∧
      Backed total s' (Function.update v p v') := by
  have hback := h.each p
  have hinv := h.holds.inv
  obtain ⟨haddr, halt, hres⟩ := hback.access ha
  have hlt := hinv.phyAddr_lt hres
  have hwrite := libwrite_of_page hback.area haddr (pagingFpn_lt _)
    (pgGetpage_of_present hres.1) data
  have hshape := s.mram.sameShape_storeAt (s.phyAddr p a) data
  have hinv' : MemInv { s with mram := s.mram.storeAt (s.phyAddr p a) data } :=
    hinv.congr ⟨hshape.free, hshape.used, hshape.maxsz, fun _ => rfl, fun _ => rfl⟩
      hshape.rdmflg fun _ vma hvma => ⟨vma, hvma⟩
  refine ⟨_, hwrite, h.of_one ?_ (fun _ _ => rfl) ?_ ?_⟩
  · have hstore := Memphy.storeAt_of_lt hinv.ram hlt data
    have hholds := h.holds.write halt hres
      (congrArg (fun mram => { s with mram := mram }) hstore) hinv'
    have hfun : (fun q => (Function.update v p v' q).written) =
        Function.update (fun q => (v q).written) p
          (Function.update (v p).written a (some data)) := by
      funext q
      by_cases hq : q = p
      · subst hq
        rw [Function.update_self, Function.update_self, hv']
      · rw [Function.update_of_ne hq, Function.update_of_ne hq]
    rw [hfun]
    exact hholds
  · subst hv'
    exact ⟨hback.area, hback.symrgtbl, hback.resident, hback.absent⟩
  · have hsum := sum_pages_update v p v'
    rw [hv'] at hsum
    rw [hv', Nat.add_right_cancel hsum]
    exact hshape.free.trans h.free

/-- **A read** of the process's own pages delivers the byte last written, if there is one. -/
theorem Backed.libread (h : Backed total s v) {source offset a : BitVec 32}
    (ha : (v p).access source offset = some a) :
    ∃ w, libread s p source offset = some (0, some w, s) ∧
      ∀ b, (v p).written a = some b → w = b.signExtend 32 := by
  have hback := h.each p
  have hinv := h.holds.inv
  obtain ⟨haddr, -, hres⟩ := hback.access ha
  obtain ⟨s₁, hread, -, -, -, hsame⟩ := hinv.read haddr (Or.inl hres)
  obtain rfl := hsame hres
  refine ⟨_, hread, fun b hb => ?_⟩
  rw [h.holds.byte p a b hb hres]

/-- **One instruction.** It does to the memory of its process what it should, and nothing to the
memories of the others. -/
theorem Backed.exec (h : Backed total s v) {inst : Inst} (hexec : (v p).exec inst = some v')
    (htotal : ∑ q, (Function.update v p v' q).pages ≤ total)
    (hlow : ∑ q, (Function.update v p v' q).pages ≤ 8192) :
    ∃ out s', run s p inst = some (out, s') ∧ (v p).Shows inst out ∧
      Backed total s' (Function.update v p v') := by
  cases inst with
  | «calc» =>
      obtain rfl := Option.some.inj hexec
      rw [Function.update_eq_self]
      exact ⟨_, s, rfl, rfl, h⟩
  | alloc size regIndex =>
      obtain ⟨s', hs', hback⟩ := h.alloc hexec htotal hlow
      exact ⟨_, s', by rw [run, hs', Option.map_some], rfl, hback⟩
  | free regIndex =>
      obtain ⟨s', hs', hback⟩ := h.libfree hexec
      exact ⟨_, s', by rw [run, hs', Option.map_some], rfl, hback⟩
  | read source offset =>
      obtain ⟨a, ha, rfl⟩ := Option.map_eq_some_iff.mp hexec
      obtain ⟨w, hread, hbyte⟩ := h.libread ha
      rw [Function.update_eq_self]
      refine ⟨_, s, by rw [run, hread, Option.map_some], ⟨rfl, w, rfl, ?_⟩, h⟩
      intro a' ha' b hb
      obtain rfl : a = a' := Option.some.inj (ha.symm.trans ha')
      exact hbyte b hb
  | write data destination offset =>
      obtain ⟨a, ha, hv'⟩ := Option.map_eq_some_iff.mp hexec
      obtain ⟨s', hs', hback⟩ := h.libwrite ha (data.setWidth 8) hv'.symm
      exact ⟨_, s', by rw [run, hs', Option.map_some], rfl, hback⟩
  | memmap regs => cases hexec

/-- RAM backs the memories, and the lists that are dangling are those of the memories. -/
structure StackBacked (total : ℕ) (x : StackSys ι) (v : ι → AddressSpace) : Prop
    extends Backed total x.sys v where
  dangles : ∀ p, x.dangles p = (v p).dangles

/-- The words behind a region table are nobody's. -/
theorem StackBacked.setBehind {x : StackSys ι} (h : StackBacked total x v) (p : ι)
    (behind : VmRg) : StackBacked total (x.setBehind p behind) v where
  toBacked := h.toBacked.setBehind p behind
  dangles := h.dangles

/-- The marks after an instruction are those of the memory that it makes. -/
theorem StackBacked.dangles_exec {x : StackSys ι} (h : StackBacked total x v) {inst : Inst}
    (hexec : (v p).exec inst = some v') (q : ι) :
    x.danglesAfter p inst q = (Function.update v p v' q).dangles := by
  have hsame (hmark : v'.dangles = (v p).dangles) :
      x.dangles q = (Function.update v p v' q).dangles := by
    by_cases hq : q = p
    · subst hq
      rw [Function.update_self, hmark, h.dangles]
    · rw [Function.update_of_ne hq, h.dangles]
  cases inst with
  | alloc size regIndex => exact hsame (AddressSpace.dangles_of_alloc hexec).2
  | free regIndex =>
      obtain ⟨i, hi, rfl⟩ := Option.map_eq_some_iff.mp hexec
      obtain ⟨hid, rfl, hlt⟩ := AddressSpace.rgIndex_eq_some hi
      have htakes : (x.sys.mm p).Enlists regIndex.toInt ↔
          ((v p).symrgtbl regIndex.toInt.toNat).rgStart <
            ((v p).symrgtbl regIndex.toInt.toNat).rgEnd := by
        rw [Mm.Enlists, (h.each p).symrgtbl _ hlt]
        exact and_iff_right ⟨hid.1, hid.2.le⟩
      rw [StackSys.danglesAfter, StackSys.danglesAfterFree]
      by_cases hq : q = p
      · subst hq
        by_cases hord : ((v q).symrgtbl regIndex.toInt.toNat).rgStart <
            ((v q).symrgtbl regIndex.toInt.toNat).rgEnd
        · simp [htakes, hord]
        · simp [htakes, hord, h.dangles]
      · split_ifs
        · rw [Function.update_of_ne hq, Function.update_of_ne hq, h.dangles]
        · rw [Function.update_of_ne hq, h.dangles]
  | «calc» =>
      obtain rfl := Option.some.inj hexec
      exact hsame rfl
  | read source offset =>
      obtain ⟨a, -, rfl⟩ := Option.map_eq_some_iff.mp hexec
      exact hsame rfl
  | write data destination offset =>
      obtain ⟨a, -, rfl⟩ := Option.map_eq_some_iff.mp hexec
      exact hsame rfl
  | memmap regs => cases hexec

/-- **One instruction is defined**: an allocation of the memory finds a list that can be read. -/
theorem StackBacked.exec {x : StackSys ι} (h : StackBacked total x v) {inst : Inst}
    (hexec : (v p).exec inst = some v')
    (htotal : ∑ q, (Function.update v p v' q).pages ≤ total)
    (hlow : ∑ q, (Function.update v p v' q).pages ≤ 8192) :
    ∃ out y, x.run p inst = some (out, y) ∧ (v p).Shows inst out ∧
      StackBacked total y (Function.update v p v') := by
  obtain ⟨out, s', hrun, hshows, hback⟩ := h.toBacked.exec hexec htotal hlow
  have hdefined : (x.run p inst).isSome := by
    rw [StackSys.run_isSome_iff, hrun]
    refine ⟨rfl, ?_⟩
    rintro size regIndex rfl
    rw [h.dangles]
    exact (AddressSpace.dangles_of_alloc hexec).1
  obtain ⟨⟨out', y⟩, hy⟩ := Option.isSome_iff_exists.mp hdefined
  obtain ⟨hsys, hmarks⟩ := StackSys.sys_of_run hy
  obtain ⟨rfl, rfl⟩ := Prod.mk.inj (Option.some.inj (hrun.symm.trans hsys))
  refine ⟨out, y, hy, hshows, hback, fun q => ?_⟩
  rw [hmarks]
  exact h.dangles_exec hexec q

end Exec

end OsSim
