import OsSim.FreeList
import OsSim.Rgnode

/-!
# Freeing and Allocating Again

Freeing a region and allocating as many bytes under the same id should change nothing. It cannot
do so for a region that the free list takes: the node is the local of `__free`, and the allocation
that follows reads through the head of the list when that call has returned. So the law is left
with the regions that the list rejects, those without a byte between their bounds; of these it
holds where the allocation changes nothing either, which takes a request of no byte.

## How the argument goes

The state is that of `Rgnode`: the system, with a flag for each process whose free list has the dead
local as its head. An allocation is undefined while the flag is set. A free that the list takes sets
it, so the two calls in a row are defined only if the list rejects the region
(`freeRealloc_iff_restores`), and then the free has no effect and only the allocation counts.

An allocation changes nothing when it cuts nothing out of the head of the list, or grows the area by
nothing (`restores_iff`). What that means for the region under the id depends on how it was
obtained, from the list or from growth, and `RoundTrips` says it for both.

## Main results

* `freeRealloc_iff_restores`: the free must be one that the list rejects.
* `restores_iff`: allocating again after a free that the list has rejected.
* `freeRealloc_iff`: **when freeing and allocating again changes nothing**, for a region obtained
  either way.
* `freeRealloc_fails`: a region of one page.
-/

namespace OsSim

variable {ι : Type} [DecidableEq ι]

/-! ### The law -/

/-- The two ways `__alloc` obtains a region: from the free list, and by growing the area. -/
inductive AllocPath where
  | reuse
  | growth

/-- `rg` is what an allocation of process `p` recorded under `regIndex`, and it was granted
`n` bytes: the size asked for on reuse, the aligned size on growth. -/
inductive Granted (p : ι) (regIndex : BitVec 32) : AllocPath → VmRg → ℤ → Prop
  | reuse {x y : StackSys ι} {vma : VmArea} {size : BitVec 32} {ret : ℤ}
      {r : VmRg × List VmRg} (harea : OneArea (x.sys.mm p) vma)
      (hlt : ∀ rg ∈ vma.vmFreergList, rg.rgEnd < 18446744073709551616)
      (hfound : getFreeVmrgLoop vma.vmFreergList size.toInt = some r)
      (h : x.liballoc p size regIndex = some (ret, y)) :
      Granted p regIndex .reuse ((y.sys.mm p).symrgtbl regIndex.toInt.toNat) size.toInt
  | growth {x y : StackSys ι} {vma : VmArea} {size : BitVec 32} {ret : ℤ}
      (harea : OneArea (x.sys.mm p) vma)
      (hnone : getFreeVmrgLoop vma.vmFreergList size.toInt = none)
      (h : x.liballoc p size regIndex = some (ret, y)) :
      Granted p regIndex .growth ((y.sys.mm p).symrgtbl regIndex.toInt.toNat)
        (pagingPageAlignsz size.toInt)

/-- `s'` is the state `s` with region `regIndex` of process `p` as it was, and with the free list,
the ends of the area and the page table as they were. -/
def SameMemory (s s' : Sys ι) (p : ι) (vma : VmArea) (regIndex : BitVec 32) : Prop :=
  (s'.mm p).symrgtbl regIndex.toInt.toNat = (s.mm p).symrgtbl regIndex.toInt.toNat ∧
    ∃ vma', OneArea (s'.mm p) vma' ∧ vma'.vmFreergList = vma.vmFreergList ∧
      vma'.vmEnd = vma.vmEnd ∧ vma'.sbrk = vma.sbrk ∧ (s'.mm p).pgd = (s.mm p).pgd

/-- Freeing `regIndex` and allocating `n` bytes under it succeeds, and changes neither its
region nor the free list, the ends of the area or the page table. -/
def FreeRealloc (x : StackSys ι) (p : ι) (vma : VmArea) (regIndex : BitVec 32) (n : ℤ) : Prop :=
  ∃ y z, x.libfree p regIndex = some (0, y) ∧
    y.liballoc p (BitVec.ofInt 32 n) regIndex = some (0, z) ∧
    SameMemory x.sys z.sys p vma regIndex

/-- Allocating `n` bytes under `regIndex` succeeds and changes nothing. -/
def Restores (s : Sys ι) (p : ι) (vma : VmArea) (regIndex : BitVec 32) (n : ℤ) : Prop :=
  ∃ s', liballoc s p (BitVec.ofInt 32 n) regIndex = some (0, s') ∧ SameMemory s s' p vma regIndex

/-- An area whose fields, and those of its free regions, are `unsigned long`s. -/
structure VmArea.Words (vma : VmArea) : Prop where
  vmEnd_lt : vma.vmEnd < 18446744073709551616
  sbrk_lt : vma.sbrk < 18446744073709551616
  start_lt : ∀ rg ∈ vma.vmFreergList, rg.rgStart < 18446744073709551616
  end_lt : ∀ rg ∈ vma.vmFreergList, rg.rgEnd < 18446744073709551616

/-! ### Allocating without a change -/

/-- What is recorded when the area grows by the aligned size of `size`. -/
def VmArea.grown (vma : VmArea) (size : ℤ) : VmRg :=
  ⟨toULong (toInt vma.sbrk), toULong (toInt (toInt vma.sbrk + pagingPageAlignsz size))⟩

/-- Moving the break by nothing leaves the area as it is. -/
theorem VmArea.Words.grow_zero {vma : VmArea} (h : vma.Words) : vma.grow 0 = vma := by
  have hend := h.vmEnd_lt
  have hsbrk := h.sbrk_lt
  have hend' : toULong ((vma.vmEnd : ℤ) + 0) = vma.vmEnd := by
    rw [toULong]
    omega
  have hsbrk' : toULong ((vma.sbrk : ℤ) + 0) = vma.sbrk := by
    rw [toULong]
    omega
  rw [VmArea.grow, hend', hsbrk']

/-- A growth by nothing succeeds and does nothing: it maps no page. -/
theorem incVmaLimit_zero {s : Sys ι} {p : ι} {vma : VmArea} (harea : OneArea (s.mm p) vma)
    (hw : vma.Words) : incVmaLimit s p 0 0 = some (0, s) := by
  have hval : validateOverlapVmArea (s.mm p) 0 (toInt vma.sbrk)
      (toInt (toULong ((vma.sbrk : ℤ) + 0))) = some 0 := by
    rw [validateOverlapVmArea, harea.mmap]
  have hgrow := hw.grow_zero
  have hsame : s.setMm p { s.mm p with mmap := [vma] } = s := by
    rw [← harea.mmap, Sys.setMm_mm]
  have hinc : pagingPageAlignsz 0 = 0 := by decide
  rw [VmArea.grow] at hgrow
  simp only [incVmaLimit, getVmAreaNodeAtBrk, harea.derefVma le_rfl, Option.bind_eq_bind,
    Option.bind_some, Option.pure_def, hval, lt_irrefl, if_false, harea.mmap, List.set_cons_zero,
    hgrow, hsame, hinc]
  rw [vmMapRam, allocPagesRange]
  simp [allocPages, vmapPageRange, vmapPages]

/-- Cutting leaves the list as it was only when nothing is cut. -/
theorem remains_append_eq {curr : VmRg} {next : List VmRg} {n : ℤ}
    (hstart : curr.rgStart < 18446744073709551616) (hlo : -2147483648 ≤ n)
    (hhi : n < 2147483648) :
    curr.remains n ++ next = curr :: next ↔
      n = 0 ∧ toULong ((curr.rgEnd : ℤ) - curr.rgStart + 1) ≠ 0 := by
  have hzero : toULong 0 = 0 := rfl
  rw [VmRg.remains]
  split
  · rename_i hmore
    have hmove : toULong ((curr.rgStart : ℤ) + n) = curr.rgStart ↔ n = 0 := by
      rw [toULong]
      omega
    rw [List.singleton_append, List.cons_eq_cons, and_iff_left rfl, VmRg.mk.injEq,
      and_iff_left rfl, hmove]
    constructor
    · rintro rfl
      exact ⟨rfl, by omega⟩
    · exact And.left
  · rename_i hexact
    rw [List.nil_append]
    constructor
    · intro heq
      exact absurd (congrArg List.length heq) (by simp)
    · rintro ⟨rfl, hne⟩
      omega

/-- The area and the region recorded after an allocation, for each of the two ways. -/
theorem liballoc_area {s s₂ : Sys ι} {p : ι} {vma vma₂ : VmArea} (harea : OneArea (s.mm p) vma)
    {size regIndex : BitVec 32} {ret : ℤ} (h : liballoc s p size regIndex = some (ret, s₂))
    (harea₂ : OneArea (s₂.mm p) vma₂) :
    (∃ r, getFreeVmrgLoop vma.vmFreergList size.toInt = some r ∧
      vma₂ = { vma with vmFreergList := r.2 } ∧
      (s₂.mm p).symrgtbl regIndex.toInt.toNat = r.1) ∨
    (getFreeVmrgLoop vma.vmFreergList size.toInt = none ∧
      vma₂ = vma.grow (pagingPageAlignsz size.toInt) ∧
      (s₂.mm p).symrgtbl regIndex.toInt.toNat = vma.grown size.toInt) := by
  obtain ⟨-, -, ⟨r, hloop, rfl⟩ | ⟨hloop, code, s₁, hinc, rfl⟩⟩ := liballoc_cases harea h
  · left
    have hmmap := harea₂.mmap
    rw [Sys.mm_setMm_self] at hmmap ⊢
    exact ⟨r, hloop, (List.cons.inj hmmap).1.symm, Function.update_self _ _ _⟩
  · right
    have honly := (incVmaLimit_cases harea le_rfl hinc).onlyPages.mmap
    have hmmap := harea₂.mmap
    rw [Sys.moveBrk, Sys.mm_setMm_self] at honly
    rw [Sys.mm_setMm_self] at hmmap ⊢
    have heq := honly.symm.trans hmmap
    exact ⟨hloop, (List.cons.inj heq).1.symm, Function.update_self _ _ _⟩

/-- The list and the end of the area stay as they were only when nothing is cut out or the
area grows by nothing. -/
theorem VmArea.Words.grow_eq {vma : VmArea} (h : vma.Words) {size : ℤ}
    (hend : (vma.grow (pagingPageAlignsz size)).vmEnd = vma.vmEnd) :
    pagingPageAlignsz size = 0 := by
  have hlt := pagingPageAlignsz_lt size
  have hword := h.vmEnd_lt
  rw [VmArea.grow] at hend
  simp only [toULong] at hend
  omega

/-! ### A region that the list rejects -/

section Law

variable {s : Sys ι} {p : ι} {vma : VmArea} {regIndex : BitVec 32} {n : ℤ} {rg : VmRg}

/-- `libfree` on an id that `get_symrg_byid` lets through. -/
theorem libfree_of_id (harea : OneArea (s.mm p) vma)
    (hid : 0 ≤ regIndex.toInt ∧ regIndex.toInt ≤ pagingMaxSymtblSz)
    (hrg : (s.mm p).symrgtbl regIndex.toInt.toNat = rg) :
    libfree s p regIndex = some (0, s.setMm p { s.mm p with
      mmap := [{ vma with vmFreergList := (enlistVmFreergList vma.vmFreergList rg).2 }] }) := by
  rw [libfree, free, if_neg (by omega), harea.mmap, hrg]

/-- A free that the list rejects succeeds and does nothing. -/
theorem libfree_of_ge (harea : OneArea (s.mm p) vma)
    (hid : 0 ≤ regIndex.toInt ∧ regIndex.toInt ≤ pagingMaxSymtblSz)
    (hrg : (s.mm p).symrgtbl regIndex.toInt.toNat = rg) (hge : rg.rgEnd ≤ rg.rgStart) :
    libfree s p regIndex = some (0, s) := by
  rw [libfree_of_id harea hid hrg, enlistVmFreergList, if_pos hge, ← harea.mmap, Sys.setMm_mm]

/-- **An allocation that changes nothing**: nothing is cut out of the head of the list, or the area
grows by nothing. -/
theorem restores_iff (harea : OneArea (s.mm p) vma) (hw : vma.Words)
    (hid : 0 ≤ regIndex.toInt ∧ regIndex.toInt < pagingMaxSymtblSz)
    (hrg : (s.mm p).symrgtbl regIndex.toInt.toNat = rg) (hlo : -2147483648 ≤ n)
    (hhi : n < 2147483648) :
    Restores s p vma regIndex n ↔
      (n = 0 ∧ ∃ curr ∈ vma.vmFreergList.head?, curr.rgStart ≤ curr.rgEnd ∧
        toULong ((curr.rgEnd : ℤ) - curr.rgStart + 1) ≠ 0 ∧ rg = curr.front 0) ∨
      (getFreeVmrgLoop vma.vmFreergList n = none ∧ pagingPageAlignsz n = 0 ∧
        rg = vma.grown n) := by
  have hn : (BitVec.ofInt 32 n).toInt = n := toInt_ofInt hlo hhi
  constructor
  · rintro ⟨s₂, hs₂, hentry, vma₂, harea₂, hlist, hend, -⟩
    rw [hrg] at hentry
    rcases liballoc_area harea hs₂ harea₂ with ⟨r, hloop, rfl, hr⟩ | ⟨hloop, rfl, hr⟩
    · left
      obtain ⟨curr, next, hl, ⟨-, hle⟩, rfl⟩ := getFreeVmrgLoop_eq_some hloop
      have hmem : curr ∈ vma.vmFreergList := by simp [hl]
      rw [hn] at hlist hr
      simp only [hl] at hlist
      obtain ⟨rfl, hne⟩ := (remains_append_eq (hw.start_lt curr hmem) hlo hhi).mp hlist
      exact ⟨rfl, curr, by simp [hl], hle, hne, hentry.symm.trans hr⟩
    · right
      rw [hn] at hloop hr hend
      exact ⟨hloop, hw.grow_eq hend, hentry.symm.trans hr⟩
  · rintro (⟨rfl, curr, hhead, hle, hne, rfl⟩ | ⟨hloop, hinc, rfl⟩)
    · obtain ⟨next, hl⟩ := List.head?_eq_some_iff.mp hhead
      have hmem : curr ∈ vma.vmFreergList := by simp [hl]
      have hkeep : curr.remains 0 ++ next = curr :: next :=
        (remains_append_eq (hw.start_lt curr hmem) hlo hhi).mpr ⟨rfl, hne⟩
      have hloop : getFreeVmrgLoop vma.vmFreergList (BitVec.ofInt 32 0).toInt =
          some (curr.front 0, vma.vmFreergList) := by
        have hsuits : curr.Suits 0 := ⟨Nat.zero_le _, hle⟩
        rw [hn, hl, getFreeVmrgLoop_cons, if_pos hsuits, hkeep]
      refine ⟨_, liballoc_of_reuse harea hid hloop, ?_, vma, ⟨?_, harea.vmId⟩, rfl, rfl, rfl, ?_⟩
      · simp [hrg]
      · simp
      · simp
    · have hinc' : incVmaLimit s p 0 (pagingPageAlignsz (BitVec.ofInt 32 n).toInt) =
          some (0, s) := by
        rw [hn, hinc]
        exact incVmaLimit_zero harea hw
      rw [← hn] at hloop
      refine ⟨_, liballoc_of_growth harea hid hloop hinc', ?_, vma, ⟨?_, harea.vmId⟩, rfl, rfl, rfl,
        ?_⟩
      · rw [Sys.mm_setMm_self, hrg, hn]
        exact Function.update_self _ _ _
      · rw [Sys.mm_setMm_self]
        exact harea.mmap
      · rw [Sys.mm_setMm_self]

/-- **Freeing leaves a list that can be read** when its head was no dangling one and the list
rejects the region; then only the allocation counts. -/
theorem freeRealloc_iff_restores {x : StackSys ι} (harea : OneArea (x.sys.mm p) vma)
    (hid : 0 ≤ regIndex.toInt ∧ regIndex.toInt ≤ pagingMaxSymtblSz)
    (hrg : (x.sys.mm p).symrgtbl regIndex.toInt.toNat = rg) :
    FreeRealloc x p vma regIndex n ↔
      x.dangles p = false ∧ rg.rgEnd ≤ rg.rgStart ∧ Restores x.sys p vma regIndex n := by
  constructor
  · rintro ⟨y, z, hfree, halloc, hsame⟩
    obtain ⟨hsys, hmarks⟩ := StackSys.sys_of_libfree hfree
    obtain ⟨hread, halloc', -⟩ := StackSys.sys_of_liballoc halloc
    rw [hmarks] at hread
    have hrejects : ¬ (x.sys.mm p).Enlists regIndex.toInt := by
      intro htakes
      rw [StackSys.danglesAfterFree_of_enlists htakes] at hread
      cases hread
    rw [StackSys.danglesAfterFree_of_not hrejects] at hread
    have hge : rg.rgEnd ≤ rg.rgStart := by
      by_contra hlt
      exact hrejects ⟨hid, by rw [hrg]; omega⟩
    have hs : y.sys = x.sys :=
      (congrArg Prod.snd (Option.some.inj ((libfree_of_ge harea hid hrg hge).symm.trans hsys))).symm
    rw [hs] at halloc'
    exact ⟨hread, hge, z.sys, halloc', hsame⟩
  · rintro ⟨hread, hge, s', halloc, hsame⟩
    have hrejects : ¬ (x.sys.mm p).Enlists regIndex.toInt := by
      rintro ⟨-, hlt⟩
      rw [hrg] at hlt
      omega
    have hfree : x.libfree p regIndex = some (0, x) := by
      rw [StackSys.libfree, libfree_of_ge harea hid hrg hge,
        StackSys.danglesAfterFree_of_not hrejects, Option.map_some]
    refine ⟨x, { x with sys := s' }, hfree, ?_, hsame⟩
    rw [StackSys.liballoc, hread, halloc]
    rfl

end Law

/-! ### Regions obtained either way -/

/-- The id an allocation was for, and the bounds of what it was granted. -/
theorem Granted.bounds {p : ι} {regIndex : BitVec 32} {path : AllocPath} {rg : VmRg} {n : ℤ}
    (h : Granted p regIndex path rg n) :
    (0 ≤ regIndex.toInt ∧ regIndex.toInt < pagingMaxSymtblSz) ∧ -2147483648 ≤ n ∧
      n < 2147483648 := by
  cases h with
  | @reuse _ _ _ size _ _ harea hlt hfound h =>
      obtain ⟨-, halloc, -⟩ := StackSys.sys_of_liballoc h
      obtain ⟨-, hid, -⟩ := liballoc_cases harea halloc
      exact ⟨hid, BitVec.le_toInt size, BitVec.toInt_lt⟩
  | growth harea hnone h =>
      obtain ⟨-, halloc, -⟩ := StackSys.sys_of_liballoc h
      obtain ⟨-, hid, -⟩ := liballoc_cases harea halloc
      exact ⟨hid, pagingPageAlignsz_lt _⟩

/-- A region obtained by reuse is the front of a node that suited. -/
theorem Granted.reuse_eq {p : ι} {regIndex : BitVec 32} {rg : VmRg} {n : ℤ}
    (h : Granted p regIndex .reuse rg n) :
    ∃ curr : VmRg, curr.rgEnd < 18446744073709551616 ∧ curr.Suits n ∧ rg = curr.front n := by
  cases h with
  | @reuse _ _ vma _ _ _ harea hlt hfound h =>
      obtain ⟨-, halloc, -⟩ := StackSys.sys_of_liballoc h
      obtain ⟨-, -, ⟨r, hloop, hs⟩ | ⟨hloop, -⟩⟩ := liballoc_cases harea halloc
      · obtain ⟨curr, next, hl, hsuits, rfl⟩ := getFreeVmrgLoop_eq_some hloop
        refine ⟨curr, hlt curr (by simp [hl]), hsuits, ?_⟩
        rw [hs]
        simp
      · rw [hfound] at hloop
        simp at hloop

/-- A region obtained by growth starts at a break and ends the aligned size behind it. -/
theorem Granted.growth_eq {p : ι} {regIndex : BitVec 32} {rg : VmRg} {n : ℤ}
    (h : Granted p regIndex .growth rg n) :
    ∃ x : ℤ, -2147483648 ≤ x ∧ x < 2147483648 ∧ rg = ⟨toULong x, toULong (toInt (x + n))⟩ := by
  cases h with
  | @growth _ _ vma _ _ harea hnone h =>
      obtain ⟨-, halloc, -⟩ := StackSys.sys_of_liballoc h
      obtain ⟨-, -, ⟨r, hloop, -⟩ | ⟨-, code, s₁, -, hs⟩⟩ := liballoc_cases harea halloc
      · rw [hnone] at hloop
        simp at hloop
      · refine ⟨toInt vma.sbrk, (toInt_lt _).1, (toInt_lt _).2, ?_⟩
        rw [hs]
        simp

/-- When freeing and allocating again changes nothing, where the list can be read: no byte was
granted; on reuse the list rejects the region, and the head of the list, which starts where the
region does, can be cut at its start; on growth the region starts at the break, and no node is
there that could be cut. -/
def RoundTrips (vma : VmArea) : AllocPath → VmRg → ℤ → Prop
  | .reuse, rg, n => n = 0 ∧ rg.rgEnd ≤ rg.rgStart ∧
      ∃ curr ∈ vma.vmFreergList.head?, curr.rgStart = rg.rgStart ∧ curr.rgStart ≤ curr.rgEnd
  | .growth, rg, n => n = 0 ∧ rg.rgStart = toULong (toInt vma.sbrk) ∧
      ∀ curr ∈ vma.vmFreergList.head?, curr.rgEnd < curr.rgStart

/-- An allocation of no byte grows the area by none. -/
theorem pagingPageAlignsz_zero : pagingPageAlignsz 0 = 0 := by
  decide

section Paths

variable {s : Sys ι} {p : ι} {vma : VmArea} {regIndex : BitVec 32} {n : ℤ} {rg : VmRg}
  (harea : OneArea (s.mm p) vma) (hw : vma.Words)
  (hrg : (s.mm p).symrgtbl regIndex.toInt.toNat = rg)

include harea hw hrg

/-- **Reuse**: the region was cut out of a node of the list. -/
theorem restores_reuse (hg : Granted p regIndex .reuse rg n) :
    (rg.rgEnd ≤ rg.rgStart ∧ Restores s p vma regIndex n) ↔ RoundTrips vma .reuse rg n := by
  obtain ⟨hid, hlo, hhi⟩ := hg.bounds
  obtain ⟨old, hold, ⟨hsuits, hle⟩, hfront⟩ := hg.reuse_eq
  have hstart : rg.rgStart = old.rgStart := by rw [hfront, VmRg.front]
  have hend : rg.rgEnd = toULong ((old.rgStart : ℤ) + n - 1) := by rw [hfront, VmRg.front]
  simp only [toULong] at hsuits hend
  rw [restores_iff harea hw hid hrg hlo hhi, RoundTrips]
  constructor
  · rintro ⟨hge, ⟨hzero, curr, hhead, hle', -, hcurr⟩ | ⟨-, hinc, hgrown⟩⟩
    · exact ⟨hzero, hge, curr, hhead, by rw [hcurr, VmRg.front], hle'⟩
    · -- no more than one byte, and the record of a growth by nothing starts where it ends
      have hn : n = 0 ∨ n = 1 := by omega
      rcases hn with rfl | rfl
      · have hstart' := congrArg VmRg.rgStart hgrown
        have hend' := congrArg VmRg.rgEnd hgrown
        have hbrk := toInt_lt vma.sbrk
        simp only [VmArea.grown, hinc, add_zero, toInt_of_range hbrk.1 hbrk.2] at hstart' hend'
        omega
      · exact absurd hinc (by decide)
  · rintro ⟨rfl, hge, curr, hhead, hcurr, hle'⟩
    obtain ⟨next, hl⟩ := List.head?_eq_some_iff.mp hhead
    have hword := hw.end_lt curr (by simp [hl])
    refine ⟨hge, Or.inl ⟨rfl, curr, hhead, hle', ?_, ?_⟩⟩
    · simp only [toULong]
      omega
    · rw [hfront, VmRg.front, VmRg.front, hcurr, hstart]

/-- **Growth**: the region is what the area has grown by. -/
theorem restores_growth (hg : Granted p regIndex .growth rg n) :
    (rg.rgEnd ≤ rg.rgStart ∧ Restores s p vma regIndex n) ↔ RoundTrips vma .growth rg n := by
  obtain ⟨hid, hlo, hhi⟩ := hg.bounds
  obtain ⟨x, hxlo, hxhi, hx⟩ := hg.growth_eq
  have hstart : rg.rgStart = toULong x := by rw [hx]
  have hend : rg.rgEnd = toULong (toInt (x + n)) := by rw [hx]
  have hbrk := toInt_lt vma.sbrk
  rw [restores_iff harea hw hid hrg hlo hhi, RoundTrips]
  constructor
  · rintro ⟨hge, ⟨rfl, curr, hhead, -, -, hcurr⟩ | ⟨hloop, hinc, hgrown⟩⟩
    · -- the front of no byte does not end where it starts
      have hstart' := congrArg VmRg.rgStart hcurr
      have hend' := congrArg VmRg.rgEnd hcurr
      rw [add_zero, toInt_of_range hxlo hxhi] at hend
      simp only [VmRg.front, toULong] at hstart hend hstart' hend'
      omega
    · have hstart' := congrArg VmRg.rgStart hgrown
      have hend' := congrArg VmRg.rgEnd hgrown
      obtain ⟨k, hk⟩ := exists_toInt_eq (x + n)
      have hrange := toInt_lt (x + n)
      simp only [VmArea.grown, hinc, add_zero, toInt_of_range hbrk.1 hbrk.2] at hstart' hend'
      have hsame := hend'.trans hstart'.symm
      rw [hend, hstart] at hsame
      simp only [toULong] at hsame
      obtain rfl : n = 0 := by omega
      refine ⟨rfl, hstart', fun curr hhead => ?_⟩
      obtain ⟨next, hl⟩ := List.head?_eq_some_iff.mp hhead
      by_contra hle
      have hsuits : curr.Suits 0 := ⟨Nat.zero_le _, by omega⟩
      rw [hl, getFreeVmrgLoop_cons, if_pos hsuits] at hloop
      simp at hloop
  · rintro ⟨rfl, hstart', hhead⟩
    rw [add_zero, toInt_of_range hxlo hxhi] at hend
    refine ⟨(hend.trans hstart.symm).le, Or.inr ⟨?_, pagingPageAlignsz_zero, ?_⟩⟩
    · rw [Option.eq_none_iff_forall_ne_some]
      intro r hr
      obtain ⟨curr, next, hl, ⟨-, hle⟩, -⟩ := getFreeVmrgLoop_eq_some hr
      have := hhead curr (by simp [hl])
      omega
    · rw [hx] at hstart' ⊢
      simp only [VmArea.grown, pagingPageAlignsz_zero, add_zero, toInt_of_range hbrk.1 hbrk.2,
        toInt_of_range hxlo hxhi] at hstart' ⊢
      rw [hstart']

end Paths

/-- **When freeing and allocating again changes nothing**: the list of the process is no dangling
one, and the region and the list are such that neither call changes anything. -/
theorem freeRealloc_iff {x : StackSys ι} {p : ι} {vma : VmArea} (harea : OneArea (x.sys.mm p) vma)
    (hw : vma.Words) {regIndex : BitVec 32} {path : AllocPath} {n : ℤ}
    (hg : Granted p regIndex path ((x.sys.mm p).symrgtbl regIndex.toInt.toNat) n) :
    FreeRealloc x p vma regIndex n ↔ x.dangles p = false ∧
      RoundTrips vma path ((x.sys.mm p).symrgtbl regIndex.toInt.toNat) n := by
  obtain ⟨hid, -⟩ := hg.bounds
  rw [freeRealloc_iff_restores harea ⟨hid.1, hid.2.le⟩ rfl]
  refine and_congr_right fun _ => ?_
  cases path with
  | reuse => exact restores_reuse harea hw rfl hg
  | growth => exact restores_growth harea hw rfl hg

/-- A process as the loader leaves it, with `memramsz` bytes of RAM. -/
def freshStack (memramsz : BitVec 32) : StackSys Unit where
  sys := bootSys memramsz fun _ => 512
  dangles _ := false

/-- A process has allocated the byte that it starts with and a page. It allocates no byte; this
region can be freed and allocated again. -/
theorem freeRealloc_iff_noByte : ∃ y x : StackSys Unit, y.liballoc () 0 1 = some (0, x) ∧
    FreeRealloc x () ⟨0, 0, 256, 256, []⟩ 1 0 := by
  have hpage : (((freshStack 512).liballoc () 1 0).bind fun y => y.2.liballoc () 256 2).map
      (fun y => (y.2.sys.mm ()).mmap) = some [⟨0, 0, 256, 256, []⟩] := by
    decide +kernel
  have hnone : ((((freshStack 512).liballoc () 1 0).bind fun y => y.2.liballoc () 256 2).bind
      fun y => y.2.liballoc () 0 1).map (fun y => (y.1, (y.2.sys.mm ()).mmap,
        (y.2.sys.mm ()).symrgtbl 1, y.2.dangles ())) =
      some (0, [⟨0, 0, 256, 256, []⟩], ⟨256, 256⟩, false) := by
    decide +kernel
  obtain ⟨⟨ret, y⟩, hy, hmmap⟩ := Option.map_eq_some_iff.mp hpage
  rw [hy, Option.bind_some] at hnone
  obtain ⟨⟨ret', x⟩, hx, hvals⟩ := Option.map_eq_some_iff.mp hnone
  obtain ⟨rfl, hrest⟩ := Prod.mk.inj hvals
  obtain ⟨hmmap', hrest⟩ := Prod.mk.inj hrest
  obtain ⟨hrg, hread⟩ := Prod.mk.inj hrest
  have harea : OneArea (y.sys.mm ()) ⟨0, 0, 256, 256, []⟩ := ⟨hmmap, rfl⟩
  have hw : VmArea.Words ⟨0, 0, 256, 256, []⟩ :=
    ⟨by decide, by decide, by decide, by decide⟩
  have hrounds := (freeRealloc_iff ⟨hmmap', rfl⟩ hw (Granted.growth harea rfl hx)).mpr
  refine ⟨y, x, hx, hrounds ⟨hread, rfl, ?_, by simp⟩⟩
  have hid : (1 : BitVec 32).toInt.toNat = 1 := by decide
  rw [hid, hrg]
  decide

/-- One page, obtained by growth: the list takes it, and the allocation reads a dead local. -/
theorem freeRealloc_fails : ¬ ∀ (x : StackSys Unit) (vma : VmArea) (regIndex : BitVec 32)
    (path : AllocPath) (n : ℤ), OneArea (x.sys.mm ()) vma → vma.Words →
      Granted () regIndex path ((x.sys.mm ()).symrgtbl regIndex.toInt.toNat) n →
      FreeRealloc x () vma regIndex n := by
  intro hinverse
  have hcalc : ((freshStack 256).liballoc () 256 0).map (fun r =>
      ((r.2.sys.mm ()).mmap, (r.2.sys.mm ()).symrgtbl 0)) =
      some ([⟨0, 0, 256, 256, [⟨0, 0⟩]⟩], ⟨0, 256⟩) := by
    decide +kernel
  obtain ⟨⟨ret, x⟩, hx, hvals⟩ := Option.map_eq_some_iff.mp hcalc
  obtain ⟨hmmap, hrg⟩ := Prod.mk.inj hvals
  have harea : OneArea (x.sys.mm ()) ⟨0, 0, 256, 256, [⟨0, 0⟩]⟩ := ⟨hmmap, rfl⟩
  have hstart : OneArea ((freshStack 256).sys.mm ()) ⟨0, 0, 0, 0, [⟨0, 0⟩]⟩ := ⟨rfl, rfl⟩
  have hw : VmArea.Words ⟨0, 0, 256, 256, [⟨0, 0⟩]⟩ :=
    ⟨by decide, by decide, by decide, by decide⟩
  have hboth := hinverse x _ 0 .growth _ harea hw (Granted.growth hstart (by decide) hx)
  -- the list takes the region, so that the allocation is undefined
  have hid : (0 : BitVec 32).toInt.toNat = 0 := by decide
  have hrejects := ((freeRealloc_iff_restores harea (by decide) rfl).mp hboth).2.1
  rw [hid, hrg] at hrejects
  exact absurd hrejects (by decide)

end OsSim
