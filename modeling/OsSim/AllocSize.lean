import OsSim.MemInv
import OsSim.Realloc

/-!
# Sizes of Allocations

The size of an `ALLOC` is unsigned in the instruction, signed from `liballoc` on, rounded up and
divided as an `int`, and added to `unsigned long`s. An allocation that reuses a free region is
safe for every size; one that grows the area is safe only while the aligned size, taken as an
unsigned number, fits the 4 MB behind the area, which nothing checks.

## The property

A size should be provided for or refused. `SizeSafe` asks for a defined result: an allocation whose
pages run out of the page table writes behind it, and no state follows. It asks of a refusal that it
changes nothing, and of a success that the area has grown inside the address space, with the pages
mapped that lie behind its old end, and that the region recorded has the bytes asked for
(`Provided`).

## How the argument goes

There are two ways, and each is looked at by itself. Cutting a region out of the head of the list
compares and subtracts the size as the same unsigned word, so nothing can go wrong. Growing the area
rounds the size up to whole pages, which overflows at `2 ^ 31 - 255`, and moves the end of the area
by it: every growth whose pages are in the table is defined (`incVmaLimit_defined`), and it is safe
if the break is the end of the area and the aligned size fits (`SizeFits`).

## Main results

* `incVmaLimit_defined`: a growth request whose pages are in the page table.
* `sizeSafe_iff`: **which sizes are safe in which states**.
* `sizeSafe_fails`: a size whose alignment overflows.
-/

namespace OsSim

variable {ι : Type} [DecidableEq ι]

/-! ### The property -/

/-- The area and the region `rg` recorded by an allocation of `size` bytes: the region has that
many bytes, the area has only grown, inside the address space, and the pages mapped are those
of the addresses behind its old end. -/
structure Provided (vma : VmArea) (size : BitVec 32) (rg : VmRg) (vma' : VmArea) : Prop where
  bytes : (size.toNat : ℤ) ≤ rg.size
  sbrk_eq : vma'.sbrk = vma'.vmEnd
  vmEnd_le : vma.vmEnd ≤ vma'.vmEnd
  sbrk_le : vma.sbrk ≤ vma'.sbrk
  space : vma'.vmEnd ≤ 4194304
  pages : getFreeVmrgLoop vma.vmFreergList size.toInt = none →
    ∀ k < growPages (pagingPageAlignsz size.toInt),
      vma.growPgn + k < pagingMaxPgn ∧ vma.growPgn + k = (vma.vmEnd + 256 * k) / 256

/-- An allocation is refused without a change, or provides what was asked for. -/
def SizeSafe (s : Sys ι) (p : ι) (vma : VmArea) (size regIndex : BitVec 32) : Prop :=
  ∃ ret s', liballoc s p size regIndex = some (ret, s') ∧
    (ret ≠ 0 ∧ s' = s ∨ ∃ vma', OneArea (s'.mm p) vma' ∧
      Provided vma size ((s'.mm p).symrgtbl regIndex.toInt.toNat) vma')

/-- **The condition**: the end of the area is its break, inside the address space, and the head
of the free list suits or the size, rounded up to whole pages, fits behind it. -/
def SizeFits (vma : VmArea) (size : BitVec 32) : Prop :=
  vma.sbrk = vma.vmEnd ∧ vma.vmEnd ≤ 4194304 ∧
    ((∃ curr ∈ vma.vmFreergList.head?, curr.Suits size.toInt) ∨
      vma.vmEnd + (size.toNat + 255) / 256 * 256 ≤ 4194304)

/-! ### Growing is defined -/

omit [DecidableEq ι] in
/-- Pages inside the table can be mapped, however many frames there are. -/
theorem vmapPages_defined {n pgn : ℕ} {fs : List (Framephy ι)} {mm : Mm}
    (h : n ≠ 0 → pgn + n ≤ pagingMaxPgn) : ∃ mm', vmapPages n pgn fs mm = some mm' := by
  induction n generalizing pgn fs mm with
  | zero => exact ⟨mm, rfl⟩
  | succ n ih =>
      have hle := h (Nat.succ_ne_zero n)
      rcases fs with _ | ⟨fp, fps⟩
      · exact ⟨mm, rfl⟩
      · rw [vmapPages, if_pos (by omega)]
        exact ih fun _ => by omega

/-- A growth request whose pages are in the page table comes to something. -/
theorem incVmaLimit_defined {s : Sys ι} {p : ι} {vma : VmArea} (harea : OneArea (s.mm p) vma)
    {incSz : ℤ} (h : growPages incSz ≠ 0 → vma.growPgn + growPages incSz ≤ pagingMaxPgn) :
    ∃ code s', incVmaLimit s p 0 incSz = some (code, s') := by
  have hval : validateOverlapVmArea (s.mm p) 0 (toInt vma.sbrk)
      (toInt (toULong (vma.sbrk + incSz))) = some 0 := by
    rw [validateOverlapVmArea, harea.mmap]
  simp only [incVmaLimit, getVmAreaNodeAtBrk, harea.derefVma le_rfl, Option.bind_eq_bind,
    Option.bind_some, Option.pure_def, hval, lt_irrefl, if_false]
  rw [vmMapRam]
  split_ifs
  · exact ⟨_, _, rfl⟩
  · exact ⟨_, _, rfl⟩
  · rw [vmapPageRange]
    obtain ⟨mm', hmm'⟩ := vmapPages_defined h
    rw [VmArea.growPgn, growPages] at hmm'
    rw [hmm']
    exact ⟨_, _, rfl⟩

/-! ### The two ways an allocation goes -/

omit [DecidableEq ι] in
/-- A size as an `int`: itself, or `2 ^ 32` less from `2 ^ 31` on. -/
theorem toInt_size (size : BitVec 32) :
    (size.toInt = size.toNat ∧ size.toNat < 2147483648) ∨
      (size.toInt = (size.toNat : ℤ) - 4294967296 ∧ 2147483648 ≤ size.toNat) := by
  have hlt := size.isLt
  rw [BitVec.toInt_eq_toNat_cond]
  split
  · exact Or.inl ⟨rfl, by omega⟩
  · refine Or.inr ⟨?_, by omega⟩
    push_cast
    omega

omit [DecidableEq ι] in
/-- A region that is cut out of a node has the bytes asked for, whatever the size. -/
theorem VmRg.Suits.size_front {curr : VmRg} (hlt : curr.rgEnd < 18446744073709551616)
    {size : BitVec 32} (hsuits : curr.Suits size.toInt) :
    (size.toNat : ℤ) ≤ (curr.front size.toInt).size := by
  have hint := toInt_size size
  have hstart : (curr.front size.toInt).rgStart = curr.rgStart := rfl
  rw [VmRg.size, hstart]
  rcases Nat.eq_zero_or_pos (toULong size.toInt) with hzero | hpos
  · have hle := hsuits.2
    have hend : (curr.front size.toInt).rgEnd =
        toULong ((curr.rgStart : ℤ) + size.toInt - 1) := rfl
    simp only [toULong] at hzero hend
    omega
  · have hend := hsuits.front_end hlt hpos
    simp only [toULong] at hend
    omega

omit [DecidableEq ι] in
/-- **Reuse** is safe for every size: the head of the list is cut where it should be. -/
theorem provided_reuse {vma : VmArea} (hsbrk : vma.sbrk = vma.vmEnd) (hle : vma.vmEnd ≤ 4194304)
    {curr : VmRg} {next : List VmRg} (hl : vma.vmFreergList = curr :: next)
    (hlt : curr.rgEnd < 18446744073709551616) {size : BitVec 32}
    (hsuits : curr.Suits size.toInt) (l : List VmRg) :
    Provided vma size (curr.front size.toInt) { vma with vmFreergList := l } where
  bytes := hsuits.size_front hlt
  sbrk_eq := hsbrk
  vmEnd_le := le_refl _
  sbrk_le := le_refl _
  space := hle
  pages hnone := by
    rw [hl, getFreeVmrgLoop_cons, if_pos hsuits] at hnone
    simp at hnone

section Growth

variable {vma : VmArea} {inc : ℤ} (hlo : 0 ≤ inc) (hhi : vma.vmEnd + inc ≤ 4194304)

include hlo hhi

/-- The area grows as it should, by the increment, and its break stays its end. -/
theorem VmArea.grow_eq (hsbrk : vma.sbrk = vma.vmEnd) :
    ((vma.grow inc).vmEnd : ℤ) = vma.vmEnd + inc ∧
      (vma.grow inc).sbrk = (vma.grow inc).vmEnd := by
  have hend : ((vma.grow inc).vmEnd : ℤ) = vma.vmEnd + inc :=
    toULong_of_range (by omega) (by omega)
  have hbrk : (vma.grow inc).sbrk = (vma.grow inc).vmEnd := by
    rw [VmArea.grow, hsbrk]
  exact ⟨hend, hbrk⟩

/-- The region recorded lies between the old end and the new one. -/
theorem VmArea.grown_eq (hsbrk : vma.sbrk = vma.vmEnd) {size : ℤ}
    (hinc : pagingPageAlignsz size = inc) :
    ((vma.grown size).rgStart : ℤ) = vma.vmEnd ∧
      ((vma.grown size).rgEnd : ℤ) = vma.vmEnd + inc := by
  have hbrk : toInt vma.vmEnd = vma.vmEnd := toInt_of_range (by omega) (by omega)
  have hsum : toInt (vma.vmEnd + inc) = vma.vmEnd + inc :=
    toInt_of_range (by omega) (by omega)
  have hstart : (toULong vma.vmEnd : ℤ) = vma.vmEnd := toULong_of_range (by omega) (by omega)
  have hlast : (toULong (vma.vmEnd + inc) : ℤ) = vma.vmEnd + inc :=
    toULong_of_range (by omega) (by omega)
  rw [VmArea.grown, hinc, hsbrk, hbrk, hsum]
  exact ⟨hstart, hlast⟩

/-- The pages mapped are in the table, and are those of the addresses behind the old end. -/
theorem VmArea.growPgn_add {k : ℕ} (hk : k < growPages inc) :
    vma.growPgn + k < pagingMaxPgn ∧ vma.growPgn + k = (vma.vmEnd + 256 * k) / 256 := by
  have hpages := growPages_eq hlo (by omega)
  rw [VmArea.growPgn, pagingPgn_ofInt (by omega)]
  simp only [pagingMaxPgn]
  omega

end Growth

/-- **Growth** is safe inside the address space, where nothing wraps around. -/
theorem provided_growth {vma : VmArea} (hsbrk : vma.sbrk = vma.vmEnd) {size : BitVec 32}
    (hle : vma.vmEnd + (size.toNat + 255) / 256 * 256 ≤ 4194304) :
    Provided vma size (vma.grown size.toInt) (vma.grow (pagingPageAlignsz size.toInt)) ∧
      (growPages (pagingPageAlignsz size.toInt) ≠ 0 →
        vma.growPgn + growPages (pagingPageAlignsz size.toInt) ≤ pagingMaxPgn) := by
  have hint : size.toInt = size.toNat := BitVec.toInt_eq_toNat_of_lt (by omega)
  obtain ⟨inc, hinc⟩ : ∃ inc, pagingPageAlignsz size.toInt = inc := ⟨_, rfl⟩
  have hround : inc = ((size.toNat : ℤ) + 255) / 256 * 256 := by
    rw [← hinc, hint]
    exact pagingPageAlignsz_eq (by omega) (by omega)
  have hlo : 0 ≤ inc := by omega
  have hhi : vma.vmEnd + inc ≤ 4194304 := by omega
  obtain ⟨hend, hbrk⟩ := VmArea.grow_eq hlo hhi hsbrk
  obtain ⟨hstart, hlast⟩ := VmArea.grown_eq hlo hhi hsbrk hinc
  rw [hinc]
  refine ⟨⟨?_, hbrk, by omega, by omega, by omega, ?_⟩, ?_⟩
  · rw [VmRg.size]
    omega
  · intro _ k hk
    rw [hinc] at hk
    exact VmArea.growPgn_add hlo hhi hk
  · intro hne
    have hlast := VmArea.growPgn_add hlo hhi (k := growPages inc - 1) (by omega)
    omega

/-- Where an allocation is safe, the condition holds. -/
theorem SizeFits.of_provided {s s' : Sys ι} {p : ι} {vma vma' : VmArea}
    (harea : OneArea (s.mm p) vma) (hw : vma.Words) {size regIndex : BitVec 32} {ret : ℤ}
    (h : liballoc s p size regIndex = some (ret, s')) (harea' : OneArea (s'.mm p) vma')
    (hprov : Provided vma size ((s'.mm p).symrgtbl regIndex.toInt.toNat) vma') :
    SizeFits vma size := by
  have hend_lt := hw.vmEnd_lt
  have hsbrk_lt := hw.sbrk_lt
  obtain ⟨hbytes, hsbrk, hend, -, hspace, -⟩ := hprov
  rcases liballoc_area harea h harea' with ⟨r, hloop, rfl, -⟩ | ⟨-, rfl, hrg⟩
  · obtain ⟨curr, next, hl, hsuits, -⟩ := getFreeVmrgLoop_eq_some hloop
    exact ⟨hsbrk, hspace, Or.inl ⟨curr, by simp [hl], hsuits⟩⟩
  · have hint := toInt_size size
    have hinc := pagingPageAlignsz_lt size.toInt
    rw [hrg, VmRg.size] at hbytes
    simp only [VmArea.grow, VmArea.grown, toULong] at hsbrk hend hspace hbytes
    have hbrk : toInt vma.sbrk = vma.vmEnd := by
      rw [show vma.sbrk = vma.vmEnd by omega]
      exact toInt_of_range (by omega) (by omega)
    rw [hbrk, toInt_of_range (by omega) (by omega)] at hbytes
    -- the increment is not negative, so the size is small and was rounded up
    have hsmall : size.toNat ≤ 4194305 := by omega
    have hround : pagingPageAlignsz size.toInt = (size.toNat + 255) / 256 * 256 := by
      rw [show size.toInt = size.toNat by omega]
      exact pagingPageAlignsz_eq (by omega) (by omega)
    exact ⟨by omega, by omega, Or.inr (by omega)⟩

/-- **Which sizes are safe in which states.** -/
theorem sizeSafe_iff {s : Sys ι} {p : ι} {vma : VmArea} (harea : OneArea (s.mm p) vma)
    (hw : vma.Words) (size : BitVec 32) {regIndex : BitVec 32}
    (hid : 0 ≤ regIndex.toInt ∧ regIndex.toInt < pagingMaxSymtblSz) :
    SizeSafe s p vma size regIndex ↔ SizeFits vma size := by
  constructor
  · rintro ⟨ret, s', h, ⟨hret, -⟩ | ⟨vma', harea', hprov⟩⟩
    · obtain ⟨hzero, -⟩ := liballoc_cases harea h
      exact absurd hzero hret
    · exact SizeFits.of_provided harea hw h harea' hprov
  · rintro ⟨hsbrk, hle, hfits⟩
    rcases hloop : getFreeVmrgLoop vma.vmFreergList size.toInt with _ | r
    · have hgrow : vma.vmEnd + (size.toNat + 255) / 256 * 256 ≤ 4194304 := by
        rcases hfits with ⟨curr, hhead, hsuits⟩ | hgrow
        · obtain ⟨next, hl⟩ := List.head?_eq_some_iff.mp hhead
          rw [hl, getFreeVmrgLoop_cons, if_pos hsuits] at hloop
          simp at hloop
        · exact hgrow
      obtain ⟨hprov, hpages⟩ := provided_growth hsbrk hgrow
      obtain ⟨code, s₁, hinc⟩ := incVmaLimit_defined harea hpages
      have honly := (incVmaLimit_cases harea le_rfl hinc).onlyPages.mmap
      rw [Sys.moveBrk, Sys.mm_setMm_self] at honly
      refine ⟨_, _, liballoc_of_growth harea hid hloop hinc,
        Or.inr ⟨vma.grow (pagingPageAlignsz size.toInt), ⟨?_, harea.vmId⟩, ?_⟩⟩
      · rw [Sys.mm_setMm_self]
        exact honly
      · rw [Sys.mm_setMm_self]
        simp only [Function.update_self]
        exact hprov
    · obtain ⟨curr, next, hl, hsuits, rfl⟩ := getFreeVmrgLoop_eq_some hloop
      refine ⟨_, _, liballoc_of_reuse harea hid hloop,
        Or.inr ⟨{ vma with vmFreergList := curr.remains size.toInt ++ next },
          ⟨?_, harea.vmId⟩, ?_⟩⟩
      · rw [Sys.mm_setMm_self]
      · rw [Sys.mm_setMm_self]
        simp only [Function.update_self]
        exact provided_reuse hsbrk hle hl (hw.end_lt curr (by simp [hl])) hsuits _

/-- The area of a fresh process, which is empty, with one byte on the free list. -/
theorem oneArea_bootSys (memramsz : BitVec 32) (memswpsz : Fin pagingMaxMmswp → BitVec 32) :
    OneArea ((bootSys memramsz memswpsz : Sys Unit).mm ()) ⟨0, 0, 0, 0, [⟨0, 0⟩]⟩ :=
  ⟨rfl, rfl⟩

/-- 300 bytes of a fresh process, which take two pages. -/
theorem sizeSafe_iff_firstRegion :
    SizeSafe (bootSys 512 fun _ => 512 : Sys Unit) () ⟨0, 0, 0, 0, [⟨0, 0⟩]⟩ 300 0 :=
  (sizeSafe_iff (oneArea_bootSys 512 fun _ => 512)
    ⟨by decide, by decide, by decide, by decide⟩ 300 (by decide)).mpr
    ⟨rfl, by decide, Or.inr (by decide)⟩

/-- `2 ^ 32 - 1` bytes are granted, as a region of one byte. -/
theorem sizeSafe_fails : ¬ ∀ (as : List (Event Unit)) (s : Sys Unit) (vma : VmArea)
    (size regIndex : BitVec 32), memSystem.Run as s → OneArea (s.mm ()) vma →
      0 ≤ regIndex.toInt ∧ regIndex.toInt < pagingMaxSymtblSz →
      SizeSafe s () vma size regIndex := by
  intro hallSafe
  have hcalc : (liballoc (bootSys 512 fun _ => 512 : Sys Unit) () 4294967295 0).map
      (fun r => (r.1, (r.2.mm ()).symrgtbl 0)) = some (0, ⟨0, 0⟩) := by
    decide +kernel
  obtain ⟨⟨ret, s'⟩, hs', hvals⟩ := Option.map_eq_some_iff.mp hcalc
  obtain ⟨hret, hrg⟩ := Prod.mk.inj hvals
  have hstart : memSystem.Run [] (bootSys 512 fun _ => 512 : Sys Unit) :=
    TransitionSystem.Run.init (booted_bootSys 512 fun _ => 512)
  obtain ⟨ret₁, s₁, hs₁, hsafe⟩ :=
    hallSafe [] _ _ 4294967295 0 hstart (oneArea_bootSys 512 fun _ => 512) (by decide)
  obtain ⟨rfl, rfl⟩ := Prod.mk.inj (Option.some.inj (hs'.symm.trans hs₁))
  rcases hsafe with ⟨hne, -⟩ | ⟨vma', -, hprov⟩
  · exact hne hret
  · have hid : (0 : BitVec 32).toInt.toNat = 0 := by decide
    have hbytes := hprov.bytes
    rw [hid, hrg] at hbytes
    exact absurd hbytes (by decide)

end OsSim
