import OsSim.Pte

/-!
# Physical Devices

`mm-memphy.c`: RAM and the swap devices. A device is an array of bytes with a list of its
free frames and a list of its used ones; a frame is 256 consecutive bytes. Frame lists are
taken by value, head first. `ι` is the type of the memory-management structures that own
frames (one for each process).

A function that returns an error code and otherwise stores a result returns an `Option`
here: `none` stands for the code `-1`, which every one of them returns without having
changed anything. Storage that `malloc` returns and locals on the stack are taken as
zero-filled.

A device is either random access, which all of them are that `main` makes, or sequential. The
sequential functions are the ones a sequential device is sent to, and they refuse it; the cursor
that they would move is modelled with them. Sizes are `int`s and may be negative, in which case no
address is inside the device and it has no frame.

`__swap_cp_page` copies a frame byte by byte with the device functions and drops their codes. Where
both frames lie in their devices (`HasFrame`) the copy is exact (`swapCpPage_storage`); where one
does not, the bytes that could not be read are zero and those that could not be written are lost,
and what is said of every copy is only that the source and the lists stay (`swapCpPage_shape`).

## Main results

* `memphyRead_of_mem`, `memphyWrite_of_mem`: reading and writing inside a random-access device.
* `swapCpPage_storage`: **copying a page** between frames that lie in their devices.
-/

namespace OsSim

/-- `BYTE`, a signed 8-bit `char`: a byte that becomes an `int` is sign extended. -/
abbrev Byte := BitVec 8

/-- `struct framephy_struct` on a used-frame list: a frame and the owner it was given to. On the
free list the owner is not looked at, so that list has frame numbers only. -/
structure Framephy (ι : Type) where
  fpn : ℕ
  owner : ι
  deriving DecidableEq, Repr

/-- `struct memphy_struct`: the bytes, the size, the kind of access, the cursor of a sequential
device, and the two frame lists. The array is a function; the tests against `maxsz` keep the calls
inside of it. -/
structure Memphy (ι : Type) where
  storage : ℕ → Byte
  maxsz : ℤ
  /-- `maxsz` is an `int`. -/
  maxsz_lt : maxsz < 2147483648
  rdmflg : Bool
  cursor : ℤ
  freeFpList : List ℕ
  usedFpList : List (Framephy ι)

variable {ι : Type}

/-! ### Reading and writing bytes -/

/-- The loop of `MEMPHY_mv_csr`, with `n` steps left: the cursor goes on by one, and around at the
end. -/
def mvCsrLoop (maxsz : ℤ) : ℕ → ℤ → ℤ
  | 0, cursor => cursor
  | n + 1, cursor => mvCsrLoop maxsz n ((cursor + 1).tmod maxsz)

/-- `MEMPHY_mv_csr`: the cursor walks from 0, one cell a step, up to `offset` or around the device
once. It returns 0 in every case. -/
def memphyMvCsr (mp : Memphy ι) (offset : ℤ) : Memphy ι :=
  { mp with cursor := mvCsrLoop mp.maxsz (min offset mp.maxsz).toNat 0 }

/-- `MEMPHY_seq_read`: refused for a device that is not random access, which is the kind it is
called for. -/
def memphySeqRead (mp : Memphy ι) (addr : ℤ) : Option (Byte × Memphy ι) :=
  if addr < 0 ∨ addr ≥ mp.maxsz then none
  else if !mp.rdmflg then none
  else
    let mp := memphyMvCsr mp addr
    some (mp.storage addr.toNat, mp)

/-- `MEMPHY_read`: the byte at `addr`, if it is inside the device. `none` is the code -1, where
`value` is not stored to. -/
def memphyRead (mp : Memphy ι) (addr : ℤ) : Option (Byte × Memphy ι) :=
  if addr < 0 ∨ addr ≥ mp.maxsz then none
  else if mp.rdmflg then some (mp.storage addr.toNat, mp)
  else memphySeqRead mp addr

/-- The device with another byte at `addr`; the array itself has no bounds here. -/
def Memphy.setCell (mp : Memphy ι) (addr : ℕ) (value : Byte) : Memphy ι :=
  { mp with storage := Function.update mp.storage addr value }

/-- `MEMPHY_seq_write`, refused as the reads of such a device are: for the devices that
`MEMPHY_write` calls it for. -/
def memphySeqWrite (mp : Memphy ι) (addr : ℤ) (value : Byte) : Option (Memphy ι) :=
  if addr < 0 ∨ addr ≥ mp.maxsz then none
  else if !mp.rdmflg then none
  else some ((memphyMvCsr mp addr).setCell addr.toNat value)

/-- `MEMPHY_write`: storing a byte at `addr`, if it is inside the device. `none` is the code -1,
where the device stays as it is. -/
def memphyWrite (mp : Memphy ι) (addr : ℤ) (data : Byte) : Option (Memphy ι) :=
  if addr < 0 ∨ addr ≥ mp.maxsz then none
  else if mp.rdmflg then some (mp.setCell addr.toNat data)
  else memphySeqWrite mp addr data

/-! ### Frames -/

/-- `MEMPHY_format`: the free list is rebuilt as `0, 1, …, numfp - 1`; a device smaller than one
frame is left alone. Bytes behind the last whole frame are in no frame. -/
def memphyFormat (mp : Memphy ι) (pagesz : ℤ) : Memphy ι :=
  let numfp := mp.maxsz.tdiv pagesz
  if numfp ≤ 0 then mp else { mp with freeFpList := List.range numfp.toNat }

/-- `init_memphy` on a structure that is zero before: the size, the mode, and the list of frames
that `MEMPHY_format` makes, in ascending order. -/
def initMemphy (maxSize : BitVec 32) (randomflg : Bool) : Memphy ι :=
  let mp : Memphy ι :=
    { storage := fun _ => 0
      maxsz := maxSize.toInt
      maxsz_lt := by have := BitVec.toInt_lt (x := maxSize); omega
      rdmflg := false
      cursor := 0
      freeFpList := []
      usedFpList := [] }
  { memphyFormat mp pagingPagesz with rdmflg := randomflg }

/-- `MEMPHY_get_freefp`: the head of the free list, and the device without it. The code is -1, and
`retfpn` not set, where the list is empty. -/
def memphyGetFreefp (mp : Memphy ι) : Option (ℕ × Memphy ι) :=
  match mp.freeFpList with
  | [] => none
  | fpn :: rest => some (fpn, { mp with freeFpList := rest })

/-- `MEMPHY_put_freefp`: the frame becomes the head of the free list, whatever it is and whether it
is there already. -/
def memphyPutFreefp (mp : Memphy ι) (fpn : ℕ) : Memphy ι :=
  { mp with freeFpList := fpn :: mp.freeFpList }

/-- The loop of `__swap_cp_page` from cell `cellidx` on, with `n` cells left. The byte is
a local of the loop body, so a refused read leaves it zero; both status codes are
dropped. -/
def swapCpLoop (srcfpn dstfpn : ℤ) : ℕ → ℤ → Memphy ι → Memphy ι → Memphy ι × Memphy ι
  | 0, _, mpsrc, mpdst => (mpsrc, mpdst)
  | n + 1, cellidx, mpsrc, mpdst =>
      let addrsrc := toInt (toInt (srcfpn * pagingPagesz) + cellidx)
      let addrdst := toInt (toInt (dstfpn * pagingPagesz) + cellidx)
      let read := (memphyRead mpsrc addrsrc).getD (0, mpsrc)
      let mpdst := (memphyWrite mpdst addrdst read.1).getD mpdst
      swapCpLoop srcfpn dstfpn n (cellidx + 1) read.2 mpdst

/-- `__swap_cp_page` (`mm.c`) between two different devices: both devices afterwards. The codes of
the reads and writes are dropped, so that it always returns 0. -/
def swapCpPage (mpsrc : Memphy ι) (srcfpn : ℤ) (mpdst : Memphy ι) (dstfpn : ℤ) :
    Memphy ι × Memphy ι :=
  swapCpLoop srcfpn dstfpn 256 0 mpsrc mpdst

/-! ### A fresh device -/

/-- A fresh device: zero bytes, all frames free in ascending order, nothing used. -/
theorem initMemphy_eq (maxSize : BitVec 32) (randomflg : Bool) :
    (initMemphy maxSize randomflg : Memphy ι) =
      { storage := fun _ => 0
        maxsz := maxSize.toInt
        maxsz_lt := by have := BitVec.toInt_lt (x := maxSize); omega
        rdmflg := randomflg
        cursor := 0
        freeFpList := List.range (maxSize.toInt.tdiv pagingPagesz).toNat
        usedFpList := [] } := by
  rw [initMemphy, memphyFormat]
  by_cases hnum : maxSize.toInt.tdiv pagingPagesz ≤ 0
  · simp only [if_pos hnum, Int.toNat_of_nonpos hnum, List.range_zero]
  · simp only [if_neg hnum]

/-! ### What the byte operations do -/

/-- Reading a random-access device leaves it as it was. -/
theorem memphyRead_snd {mp mp' : Memphy ι} {addr : ℤ} {b : Byte}
    (h : memphyRead mp addr = some (b, mp')) : mp' = mp := by
  simp only [memphyRead, memphySeqRead] at h
  split_ifs at h <;> simp_all

/-- On a random-access device every address inside it can be read. -/
theorem memphyRead_of_mem {mp : Memphy ι} {addr : ℤ} (hr : mp.rdmflg = true) (h0 : 0 ≤ addr)
    (h1 : addr < mp.maxsz) : memphyRead mp addr = some (mp.storage addr.toNat, mp) := by
  rw [memphyRead, if_neg (by omega), if_pos hr]

/-- On a random-access device every address inside it can be written. -/
theorem memphyWrite_of_mem {mp : Memphy ι} {addr : ℤ} (hr : mp.rdmflg = true) (h0 : 0 ≤ addr)
    (h1 : addr < mp.maxsz) (d : Byte) : memphyWrite mp addr d = some (mp.setCell addr.toNat d) := by
  rw [memphyWrite, if_neg (by omega), if_pos hr]

/-- A write that is accepted stores one byte and changes nothing else that a read could see. -/
theorem memphyWrite_eq_some {mp mp' : Memphy ι} {addr : ℤ} {d : Byte}
    (h : memphyWrite mp addr d = some mp') : mp' = mp.setCell addr.toNat d := by
  simp only [memphyWrite, memphySeqWrite] at h
  split_ifs at h <;> simp_all

/-- Two devices that differ at most in the bytes they hold and in the cursor. -/
structure Memphy.SameShape (mp mp' : Memphy ι) : Prop where
  maxsz : mp'.maxsz = mp.maxsz
  rdmflg : mp'.rdmflg = mp.rdmflg
  free : mp'.freeFpList = mp.freeFpList
  used : mp'.usedFpList = mp.usedFpList

/-- A device has its own shape. -/
theorem Memphy.SameShape.refl (mp : Memphy ι) : mp.SameShape mp := ⟨rfl, rfl, rfl, rfl⟩

/-- Keeping the shape twice is keeping it. -/
theorem Memphy.SameShape.trans {a b c : Memphy ι} (h₁ : a.SameShape b) (h₂ : b.SameShape c) :
    a.SameShape c :=
  ⟨h₂.maxsz.trans h₁.maxsz, h₂.rdmflg.trans h₁.rdmflg, h₂.free.trans h₁.free,
    h₂.used.trans h₁.used⟩

/-- Writing a byte keeps the shape. -/
theorem sameShape_memphyWrite {mp mp' : Memphy ι} {addr : ℤ} {d : Byte}
    (h : memphyWrite mp addr d = some mp') : mp.SameShape mp' := by
  rw [memphyWrite_eq_some h]
  exact ⟨rfl, rfl, rfl, rfl⟩

/-! ### Copying a frame -/

/-- Byte `c` of frame `fpn`, whether the frame lies inside the device or not. -/
def Memphy.cell (mp : Memphy ι) (fpn c : ℕ) : Byte := mp.storage (fpn * 256 + c)

/-- Frame `fpn` lies wholly inside the device: all its addresses are below `maxsz`. -/
def Memphy.HasFrame (mp : Memphy ι) (fpn : ℕ) : Prop := ((fpn : ℤ) + 1) * 256 ≤ mp.maxsz

/-- The free frames of a fresh device lie inside it. -/
theorem hasFrame_initMemphy {maxSize : BitVec 32} {randomflg : Bool} {f : ℕ}
    (hf : f ∈ (initMemphy maxSize randomflg : Memphy ι).freeFpList) :
    (initMemphy maxSize randomflg : Memphy ι).HasFrame f := by
  rw [initMemphy_eq] at hf ⊢
  have hlt := List.mem_range.mp hf
  simp only [pagingPagesz] at hlt
  rw [Memphy.HasFrame]
  have hdiv : maxSize.toInt.tdiv 256 * 256 ≤ maxSize.toInt := by
    rcases le_or_gt 0 maxSize.toInt with hpos | hneg
    · rw [Int.tdiv_eq_ediv_of_nonneg hpos]
      omega
    · have hneg' : maxSize.toInt.tdiv 256 = -((-maxSize.toInt).tdiv 256) := by
        rw [Int.neg_tdiv, neg_neg]
      have hpos : (-maxSize.toInt).tdiv 256 = -maxSize.toInt / 256 :=
        Int.tdiv_eq_ediv_of_nonneg (by omega)
      omega
  simp only
  omega

/-- Which frames lie in a device is a matter of its size. -/
theorem Memphy.HasFrame.of_maxsz {mp mp' : Memphy ι} {fpn : ℕ} (h : mp.HasFrame fpn)
    (hmax : mp'.maxsz = mp.maxsz) : mp'.HasFrame fpn := by
  rw [Memphy.HasFrame, hmax]
  exact h

/-- The address of a cell of a frame inside a device is computed without overflow. -/
theorem toInt_cellAddr {mp : Memphy ι} {fpn c : ℕ} (hf : mp.HasFrame fpn) (hc : c < 256) :
    toInt (toInt ((fpn : ℤ) * pagingPagesz) + c) = ((fpn * 256 + c : ℕ) : ℤ) := by
  have hm := mp.maxsz_lt
  have hf' : ((fpn : ℤ) + 1) * 256 ≤ mp.maxsz := hf
  have hin : toInt ((fpn : ℤ) * pagingPagesz) = fpn * 256 := by
    simp only [pagingPagesz]
    exact toInt_of_range (by omega) (by omega)
  rw [hin, toInt_of_range (by omega) (by omega)]
  push_cast
  rfl

/-- Every cell of a frame inside a device has its address inside the device. -/
theorem Memphy.HasFrame.cellAddr_lt {mp : Memphy ι} {fpn c : ℕ} (hf : mp.HasFrame fpn)
    (hc : c < 256) : ((fpn * 256 + c : ℕ) : ℤ) < mp.maxsz := by
  have hf' : ((fpn : ℤ) + 1) * 256 ≤ mp.maxsz := hf
  push_cast
  omega

/-- The source of a copy is left alone, and the destination keeps its lists. -/
theorem swapCpLoop_shape (srcfpn dstfpn : ℤ) (n : ℕ) (cellidx : ℤ) (mpsrc mpdst : Memphy ι) :
    (swapCpLoop srcfpn dstfpn n cellidx mpsrc mpdst).1 = mpsrc ∧
      mpdst.SameShape (swapCpLoop srcfpn dstfpn n cellidx mpsrc mpdst).2 := by
  induction n generalizing cellidx mpdst with
  | zero => exact ⟨rfl, Memphy.SameShape.refl _⟩
  | succ n ih =>
      rw [swapCpLoop]
      set addrsrc := toInt (toInt (srcfpn * pagingPagesz) + cellidx)
      set addrdst := toInt (toInt (dstfpn * pagingPagesz) + cellidx)
      have hsrc : ((memphyRead mpsrc addrsrc).getD (0, mpsrc)).2 = mpsrc := by
        rcases hread : memphyRead mpsrc addrsrc with _ | ⟨b, mp'⟩
        · rfl
        · exact memphyRead_snd hread
      have hdst (d : Byte) : mpdst.SameShape ((memphyWrite mpdst addrdst d).getD mpdst) := by
        rcases hwrite : memphyWrite mpdst addrdst d with _ | mp'
        · exact Memphy.SameShape.refl _
        · exact sameShape_memphyWrite hwrite
      simp only [hsrc]
      obtain ⟨h1, h2⟩ := ih (cellidx + 1) ((memphyWrite mpdst addrdst
        ((memphyRead mpsrc addrsrc).getD (0, mpsrc)).1).getD mpdst)
      exact ⟨h1, (hdst _).trans h2⟩

/-- A copy leaves the lists and the size of its destination as they are, whichever frames it is
between. -/
theorem swapCpPage_shape (mpsrc mpdst : Memphy ι) (srcfpn dstfpn : ℤ) :
    mpdst.SameShape (swapCpPage mpsrc srcfpn mpdst dstfpn).2 :=
  (swapCpLoop_shape srcfpn dstfpn _ 0 mpsrc mpdst).2

/-- The cells copied so far: between frames inside random-access devices the loop copies
cell by cell. -/
theorem swapCpLoop_storage {srcfpn dstfpn : ℕ} {mpsrc : Memphy ι}
    (hsr : mpsrc.rdmflg = true) (hsf : mpsrc.HasFrame srcfpn) (n c : ℕ) (cellidx : ℤ)
    (hc : cellidx = c) (hn : c + n = 256) (mpdst : Memphy ι) (hdr : mpdst.rdmflg = true)
    (hdf : mpdst.HasFrame dstfpn) (a : ℕ) :
    (swapCpLoop srcfpn dstfpn n cellidx mpsrc mpdst).2.storage a =
      if dstfpn * 256 + c ≤ a ∧ a < (dstfpn + 1) * 256 then
        mpsrc.cell srcfpn (a - dstfpn * 256)
      else mpdst.storage a := by
  subst hc
  induction n generalizing c mpdst with
  | zero =>
      rw [if_neg (by omega)]
      rfl
  | succ n ih =>
      have hread := memphyRead_of_mem hsr (Int.natCast_nonneg _)
        (hsf.cellAddr_lt (c := c) (by omega))
      have hwrite := memphyWrite_of_mem hdr (Int.natCast_nonneg _)
        (hdf.cellAddr_lt (c := c) (by omega))
      rw [swapCpLoop, toInt_cellAddr hsf (by omega), toInt_cellAddr hdf (by omega), hread]
      simp only [Option.getD_some, hwrite, Int.toNat_natCast]
      have hstep := ih (c + 1) (by omega)
        (mpdst.setCell (dstfpn * 256 + c) (mpsrc.cell srcfpn c)) hdr hdf
      rw [Nat.cast_add, Nat.cast_one] at hstep
      refine hstep.trans ?_
      by_cases ha : a = dstfpn * 256 + c
      · subst ha
        rw [if_neg (by omega), if_pos (by omega)]
        simp [Memphy.setCell]
      · have hcell : (mpdst.setCell (dstfpn * 256 + c)
            (mpsrc.cell srcfpn c)).storage a = mpdst.storage a := by
          simp [Memphy.setCell, ha]
        rw [hcell]
        by_cases hlo : dstfpn * 256 + (c + 1) ≤ a ∧ a < (dstfpn + 1) * 256
        · rw [if_pos hlo, if_pos (by omega)]
        · rw [if_neg hlo, if_neg (by omega)]

/-- **Copying a page**: between frames inside random-access devices the destination frame
gets the source frame's bytes, and every other byte stays. -/
theorem swapCpPage_storage {srcfpn dstfpn : ℕ} {mpsrc mpdst : Memphy ι}
    (hsr : mpsrc.rdmflg = true) (hsf : mpsrc.HasFrame srcfpn) (hdr : mpdst.rdmflg = true)
    (hdf : mpdst.HasFrame dstfpn) (a : ℕ) :
    (swapCpPage mpsrc srcfpn mpdst dstfpn).2.storage a =
      if dstfpn * 256 ≤ a ∧ a < (dstfpn + 1) * 256 then mpsrc.cell srcfpn (a - dstfpn * 256)
      else mpdst.storage a := by
  rw [swapCpPage, swapCpLoop_storage hsr hsf 256 0 0 rfl rfl mpdst hdr hdf a, Nat.add_zero]

end OsSim
