import OsSim.Mm

/-!
# Frames in Page-Table Entries

A page-table entry has 13 bits for a RAM frame and 21 for a swap frame, which is why `mm.h` has
`PAGING_MEMRAMSZ` and `PAGING_MEMSWPSZ`. Nothing compares the sizes of the configuration with
them.

## How the argument goes

`init_memphy` makes the list of the frames of a device from its size: those that lie inside it
(`mem_freeFpList_initMemphy`). Writing a frame number into an entry keeps as many of its bits as the
field has, so that a frame is read back from an entry if and only if it is below `2 ^ 13`, or
`2 ^ 21` on a swap device. A device gives only such frames if its size is below that many frames and
one more, since the bytes behind its last whole frame belong to none.

The addresses are no further restriction: a frame that a device hands out lies inside it, whatever
its size (`toInt_pagingPhyaddr_of_mem`).

## Main results

* `mem_freeFpList_initMemphy`: the frames a device of a given size hands out.
* `ramRepresentable_iff`, `swapRepresentable_iff`: the two devices.
* `representable_iff`: **which sizes give only frames that an entry can hold**.
* `representable_fails`: RAM of one frame too many.
-/

namespace OsSim

variable {ι : Type}

/-- The frames a fresh device hands out are those that lie inside it. -/
theorem mem_freeFpList_initMemphy {maxSize : BitVec 32} {randomflg : Bool} {f : ℕ} :
    f ∈ (initMemphy maxSize randomflg : Memphy ι).freeFpList ↔
      ((f : ℤ) + 1) * 256 ≤ maxSize.toInt := by
  constructor
  · intro hf
    have hframe := hasFrame_initMemphy hf
    rwa [Memphy.HasFrame, initMemphy_eq] at hframe
  · intro hle
    rw [initMemphy_eq, List.mem_range, Int.tdiv_eq_ediv_of_nonneg (by omega)]
    simp only [pagingPagesz]
    omega

/-! ### The property -/

/-- Every frame RAM hands out is read back from every entry it was written to, and its bytes
have addresses inside RAM. -/
structure RamRepresentable (mp : Memphy ι) : Prop where
  fpn : ∀ f ∈ mp.freeFpList, ∀ pte, pagingFpn (pteSetFpn pte f) = f
  phyaddr : ∀ f ∈ mp.freeFpList, ∀ off < 256,
    0 ≤ toInt (pagingPhyaddr f off) ∧ toInt (pagingPhyaddr f off) < mp.maxsz

/-- Every frame swap device `typ` hands out is read back, and so is the device. -/
structure SwapRepresentable (typ : Fin pagingMaxMmswp) (mp : Memphy ι) : Prop where
  swp : ∀ f ∈ mp.freeFpList, ∀ pte, pagingPteSwp (pteSetSwap pte typ f) = f
  swptyp : ∀ f ∈ mp.freeFpList, ∀ pte, pagingSwptyp (pteSetSwap pte typ f) = typ

/-- A swap frame read from an entry fits the field. -/
theorem pagingPteSwp_lt (pte : BitVec 32) : pagingPteSwp pte < 2097152 := by
  have h := BitField.get_toNat_lt (w := 32) (h := 25) (l := 5) (by norm_num) (by norm_num) pte
  simpa [pagingPteSwp, getval, pagingPteSwpoffMask, genmask] using h

section Sizes

variable {maxSize : BitVec 32} {randomflg : Bool}

/-- The addresses of a frame are inside the device, whatever its size. -/
theorem toInt_pagingPhyaddr_of_mem {f off : ℕ}
    (hf : f ∈ (initMemphy maxSize randomflg : Memphy ι).freeFpList) (hoff : off < 256) :
    0 ≤ toInt (pagingPhyaddr f off) ∧ toInt (pagingPhyaddr f off) < maxSize.toInt := by
  have hle := mem_freeFpList_initMemphy.mp hf
  have hlt := BitVec.toInt_lt (x := maxSize)
  have haddr : toInt (pagingPhyaddr f off) = (f * 256 + off : ℕ) := by
    rw [pagingPhyaddr_eq]
    exact toInt_of_range (by omega) (by push_cast; omega)
  rw [haddr]
  push_cast
  omega

/-- **RAM**: 8192 frames can be told apart, and what is left behind the last whole frame is none. -/
theorem ramRepresentable_iff :
    RamRepresentable (initMemphy maxSize randomflg : Memphy ι) ↔
      maxSize.toInt < 2097152 + 256 := by
  constructor
  · intro h
    by_contra hge
    have hmem : 8192 ∈ (initMemphy maxSize randomflg : Memphy ι).freeFpList :=
      mem_freeFpList_initMemphy.mpr (by push_cast; omega)
    have hlt := pagingFpn_lt (pteSetFpn 0 8192)
    rw [h.fpn 8192 hmem 0] at hlt
    exact lt_irrefl _ hlt
  · intro hlt
    refine ⟨?_, ?_⟩
    · intro f hf pte
      have hle := mem_freeFpList_initMemphy.mp hf
      exact pagingFpn_pteSetFpn pte (by omega)
    · intro f hf off hoff
      rw [initMemphy_eq]
      exact toInt_pagingPhyaddr_of_mem hf hoff

/-- **Swap**: `2 ^ 21` frames can be told apart, whatever the device. -/
theorem swapRepresentable_iff (typ : Fin pagingMaxMmswp) :
    SwapRepresentable typ (initMemphy maxSize randomflg : Memphy ι) ↔
      maxSize.toInt < 536870912 + 256 := by
  constructor
  · intro h
    by_contra hge
    have hmem : 2097152 ∈ (initMemphy maxSize randomflg : Memphy ι).freeFpList :=
      mem_freeFpList_initMemphy.mpr (by push_cast; omega)
    have hlt := pagingPteSwp_lt (pteSetSwap 0 typ 2097152)
    rw [h.swp 2097152 hmem 0] at hlt
    exact lt_irrefl _ hlt
  · intro hlt
    refine ⟨?_, ?_⟩
    · intro f hf pte
      have hle := mem_freeFpList_initMemphy.mp hf
      exact pagingPteSwp_pteSetSwap pte typ (by omega)
    · intro f _ pte
      have htyp : (typ : ℕ) < 4 := typ.isLt
      exact pagingSwptyp_pteSetSwap pte f (by omega)

end Sizes

/-- **Which sizes give only frames that an entry can hold.** -/
theorem representable_iff (maxSize : BitVec 32) (randomflg : Bool) (typ : Fin pagingMaxMmswp) :
    (RamRepresentable (initMemphy maxSize randomflg : Memphy ι) ↔
      maxSize.toInt < 2097152 + 256) ∧
    (SwapRepresentable typ (initMemphy maxSize randomflg : Memphy ι) ↔
      maxSize.toInt < 536870912 + 256) :=
  ⟨ramRepresentable_iff, swapRepresentable_iff typ⟩

/-- RAM of 8193 frames: the last one is read back as frame 0. -/
theorem representable_fails :
    pagingFpn (pteSetFpn 0 8192) = 0 ∧
      ¬ ∀ maxSize : BitVec 32, RamRepresentable (initMemphy maxSize true : Memphy Unit) := by
  refine ⟨by decide, ?_⟩
  intro hrepresented
  have hlt := ramRepresentable_iff.mp (hrepresented 2097408)
  exact absurd hlt (by decide)

end OsSim
