import OsSim.Lib.BitField

/-!
# Machine Words and Page-Table Entries

The macros of `bitops.h` and `mm.h` and the two writers of a page-table entry (`mm.c`).

An entry is one 32-bit word. Bit 31 is PRESENT and bit 30 is SWAPPED; a resident page
keeps its RAM frame in bits 0–12, a swapped page keeps the swap device in bits 0–4 and
the swap frame in bits 5–25. Both writers set PRESENT, so it is SWAPPED that tells the two
encodings apart. The fields of the two encodings overlap: reading the frame number of a
swapped page gives some bits of its device and its swap frame, which is a number like any
other.

C's `int` is modelled by `ℤ` and `unsigned long` by `ℕ`; `toInt` and `toULong` are the
conversions, which wrap. A `uint32_t` is a `BitVec 32` and the signed `char` type `BYTE` is
a `BitVec 8`. Arithmetic in `int` is done in `ℤ` with `toInt` around every operation that may
leave the range, and a lemma with bounds takes it away where it does not (`toInt_of_range`).

The entry macros are instances of `BitField`, and their lemmas are instances of its laws: what a
writer has stored is read back if it fits the field, PRESENT and SWAPPED are as the writer leaves
them, and the bits above the field are those of the entry before. An address of 22 bits is a page
number and an offset (`pagingPgn_eq`, `pagingOffst_eq`); the bits above are not looked at, so that
addresses from 4 MB on wrap into the page table.

## Main definitions

* `toInt`, `toULong`: the conversions between C's integer types.
* `pteSetSwap`, `pteSetFpn`: the writers of an entry.
* `pagingPagePresent`, `pagingFpn`, `pagingSwptyp`, `pagingPteSwp`: its fields.
* `Resident`: an entry that names a RAM frame.
-/

namespace OsSim

/-! ### Conversions between the integer types -/

/-- `(int) x`: the value in the range of a 32-bit `int` that is congruent to `x`. -/
def toInt (x : ℤ) : ℤ := Int.bmod x 4294967296

/-- `(unsigned long) x`: the value below `2 ^ 64` that is congruent to `x`. -/
def toULong (x : ℤ) : ℕ := (x % 18446744073709551616).toNat

/-- A value in the range of `int` is converted to itself. -/
theorem toInt_of_range {x : ℤ} (hlo : -2147483648 ≤ x) (hhi : x < 2147483648) : toInt x = x := by
  exact Int.bmod_eq_of_le_mul_two (by norm_num; omega) (by norm_num; omega)

/-- A value in the range of `unsigned long` is converted to itself. -/
theorem toULong_of_range {x : ℤ} (hlo : 0 ≤ x) (hhi : x < 18446744073709551616) :
    (toULong x : ℤ) = x := by
  simp only [toULong]
  omega

/-! ### `bitops.h` -/

/-- `BIT(nr)`: the word with bit `nr` set. -/
def bit (nr : ℕ) : BitVec 32 := 1#32 <<< nr

/-- `GENMASK(h, l)`: the bits from `l` to `h`; `BITS_PER_LONG` is 32. -/
def genmask (h l : ℕ) : BitVec 32 := BitField.mask 32 h l

/-! ### `mm.h`: value operators and field layout -/

/-- `SETVAL(v, value, mask, offst)`: the new value of `v`, whose bits outside of the mask stay. -/
def setval (v value mask : BitVec 32) (offst : ℕ) : BitVec 32 := BitField.set v value mask offst

/-- `GETVAL(v, mask, offst)`: the field under the mask, shifted down. -/
def getval (v mask : BitVec 32) (offst : ℕ) : BitVec 32 := BitField.get v mask offst

/-- `PAGING_PAGESZ`, the 256 bytes of a page, as an `int`. -/
abbrev pagingPagesz : ℤ := 256

/-- `PAGING_MAX_PGN`, the number of entries of a page table: `2 ^ 22` bytes of 256 each. -/
abbrev pagingMaxPgn : ℕ := 16384

/-- `PAGING_PAGE_ALIGNSZ(sz)` in `int` arithmetic: C's division rounds towards zero. -/
def pagingPageAlignsz (sz : ℤ) : ℤ :=
  toInt ((toInt (sz + pagingPagesz - 1)).tdiv pagingPagesz * pagingPagesz)

/-- `PAGING_PTE_PRESENT_MASK`: bit 31, set where an entry is in use. -/
def pagingPtePresentMask : BitVec 32 := bit 31

/-- `PAGING_PTE_SWAPPED_MASK`: bit 30, set where the page is on a swap device. -/
def pagingPteSwappedMask : BitVec 32 := bit 30

/-- `PAGING_PTE_FPN_MASK`: bits 0–12, the frame of a page in RAM. -/
def pagingPteFpnMask : BitVec 32 := genmask 12 0

/-- `PAGING_PTE_SWPTYP_MASK`: bits 0–4, the swap device of a page. -/
def pagingPteSwptypMask : BitVec 32 := genmask 4 0

/-- `PAGING_PTE_SWPOFF_MASK`: bits 5–25, the frame of a page on its swap device. -/
def pagingPteSwpoffMask : BitVec 32 := genmask 25 5

/-- `PAGING_PAGE_PRESENT(pte)`, as a test. -/
def pagingPagePresent (pte : BitVec 32) : Bool := pte &&& pagingPtePresentMask != 0

/-- The SWAPPED bit of an entry, which no function of the source tests. -/
def pagingPageSwapped (pte : BitVec 32) : Bool := pte &&& pagingPteSwappedMask != 0

/-- `PAGING_FPN(pte)`, which is also `PAGING_PTE_FPN(pte)`. -/
def pagingFpn (pte : BitVec 32) : ℕ := (getval pte pagingPteFpnMask 0).toNat

/-- `PAGING_SWPTYP(pte)`: the swap device that the entry names. -/
def pagingSwptyp (pte : BitVec 32) : ℕ := (getval pte pagingPteSwptypMask 0).toNat

/-- `PAGING_PTE_SWP(pte)`: the frame on the swap device. -/
def pagingPteSwp (pte : BitVec 32) : ℕ := (getval pte pagingPteSwpoffMask 5).toNat

/-- `PAGING_PGN(addr)`: bits 8–21 of the address, so that addresses repeat after 4 MB. -/
def pagingPgn (addr : BitVec 32) : ℕ := (getval addr (genmask 21 8) 8).toNat

/-- `PAGING_OFFST(addr)`: bits 0–7 of the address, the byte in its page. -/
def pagingOffst (addr : BitVec 32) : ℕ := (getval addr (genmask 7 0) 0).toNat

/-- `PAGING_PHYADDR(fpn, offst)`: the byte at `offst` in frame `fpn`. -/
def pagingPhyaddr (fpn offst : ℕ) : ℕ := fpn <<< 8 + offst

/-! ### `mm.c`: the writers of an entry -/

/-- `pte_set_swap`: PRESENT and SWAPPED are set, and the device and the swap frame are stored in
their fields. -/
def pteSetSwap (pte : BitVec 32) (swptyp swpoff : ℕ) : BitVec 32 :=
  let pte := pte ||| pagingPtePresentMask
  let pte := pte ||| pagingPteSwappedMask
  let pte := setval pte (BitVec.ofNat 32 swptyp) pagingPteSwptypMask 0
  setval pte (BitVec.ofNat 32 swpoff) pagingPteSwpoffMask 5

/-- `pte_set_fpn`: PRESENT is set, SWAPPED is cleared, and the frame is stored in its field. -/
def pteSetFpn (pte : BitVec 32) (fpn : ℕ) : BitVec 32 :=
  let pte := pte ||| pagingPtePresentMask
  let pte := pte &&& ~~~pagingPteSwappedMask
  setval pte (BitVec.ofNat 32 fpn) pagingPteFpnMask 0

/-! ### Reading an entry bit by bit -/

/-- Testing a mask of one bit reads that bit. -/
theorem bit_and_ne_zero (v : BitVec 32) {nr : ℕ} (hnr : nr < 32) :
    (v &&& bit nr != 0) = v.getLsbD nr := by
  have hbit : bit nr = BitVec.twoPow 32 nr := by
    simp [bit, BitVec.twoPow_eq]
  rw [hbit, BitVec.and_twoPow]
  cases v.getLsbD nr
  · simp
  · have hne : BitVec.twoPow 32 nr ≠ 0#32 := by
      intro h
      have := congrArg (BitVec.getLsbD · nr) h
      simp [hnr] at this
    simpa using hne

/-- PRESENT is bit 31. -/
theorem pagingPagePresent_eq (pte : BitVec 32) : pagingPagePresent pte = pte.getLsbD 31 :=
  bit_and_ne_zero pte (by norm_num)

/-- SWAPPED is bit 30. -/
theorem pagingPageSwapped_eq (pte : BitVec 32) : pagingPageSwapped pte = pte.getLsbD 30 :=
  bit_and_ne_zero pte (by norm_num)

@[simp] theorem pagingPagePresent_zero : pagingPagePresent 0 = false := by
  simp [pagingPagePresent_eq]

/-- The bits of a mask of one bit. -/
theorem getLsbD_bit {nr : ℕ} (i : ℕ) :
    (bit nr).getLsbD i = (decide (i < 32) && decide (nr = i)) := by
  have hbit : bit nr = BitVec.twoPow 32 nr := by
    simp [bit, BitVec.twoPow_eq]
  rw [hbit, BitVec.getLsbD_twoPow]
  by_cases h : nr = i <;> simp [h]

/-! ### What the writers leave behind -/

/-- The bits above the frame field: PRESENT is set and SWAPPED is cleared. -/
theorem getLsbD_pteSetFpn (pte : BitVec 32) (fpn : ℕ) {i : ℕ} (hlo : 13 ≤ i) (hhi : i < 32) :
    (pteSetFpn pte fpn).getLsbD i =
      ((pte.getLsbD i || decide (31 = i)) && !decide (30 = i)) := by
  rw [pteSetFpn, setval, pagingPteFpnMask, genmask,
    BitField.getLsbD_set_of_outside (by norm_num) (by omega)]
  simp only [pagingPtePresentMask, pagingPteSwappedMask, BitVec.getLsbD_and,
    BitVec.getLsbD_or, BitVec.getLsbD_not, getLsbD_bit]
  simp [hhi]

@[simp] theorem pagingPagePresent_pteSetFpn (pte : BitVec 32) (fpn : ℕ) :
    pagingPagePresent (pteSetFpn pte fpn) = true := by
  rw [pagingPagePresent_eq, getLsbD_pteSetFpn pte fpn (by norm_num) (by norm_num)]
  simp

@[simp] theorem pagingPageSwapped_pteSetFpn (pte : BitVec 32) (fpn : ℕ) :
    pagingPageSwapped (pteSetFpn pte fpn) = false := by
  rw [pagingPageSwapped_eq, getLsbD_pteSetFpn pte fpn (by norm_num) (by norm_num)]
  simp

/-- The frame just written is read back when it fits the 13-bit field. -/
theorem pagingFpn_pteSetFpn (pte : BitVec 32) {fpn : ℕ} (hf : fpn < 8192) :
    pagingFpn (pteSetFpn pte fpn) = fpn := by
  have hx : (BitVec.ofNat 32 fpn).toNat = fpn := by
    simp only [BitVec.toNat_ofNat]
    omega
  rw [pagingFpn, getval, pteSetFpn, setval, pagingPteFpnMask, genmask,
    BitField.get_set (by norm_num) (by rw [hx]; omega), hx]

/-- The bits above the swap fields: PRESENT and SWAPPED are set. -/
theorem getLsbD_pteSetSwap (pte : BitVec 32) (swptyp swpoff : ℕ) {i : ℕ} (hlo : 26 ≤ i)
    (hhi : i < 32) :
    (pteSetSwap pte swptyp swpoff).getLsbD i =
      (pte.getLsbD i || decide (31 = i) || decide (30 = i)) := by
  simp only [pteSetSwap, setval, pagingPteSwptypMask, pagingPteSwpoffMask, genmask]
  rw [BitField.getLsbD_set_of_outside (by norm_num) (by omega),
    BitField.getLsbD_set_of_outside (by norm_num) (by omega)]
  simp only [pagingPtePresentMask, pagingPteSwappedMask, BitVec.getLsbD_or, getLsbD_bit]
  simp [hhi]

@[simp] theorem pagingPagePresent_pteSetSwap (pte : BitVec 32) (swptyp swpoff : ℕ) :
    pagingPagePresent (pteSetSwap pte swptyp swpoff) = true := by
  rw [pagingPagePresent_eq, getLsbD_pteSetSwap pte swptyp swpoff (by norm_num) (by norm_num)]
  simp

@[simp] theorem pagingPageSwapped_pteSetSwap (pte : BitVec 32) (swptyp swpoff : ℕ) :
    pagingPageSwapped (pteSetSwap pte swptyp swpoff) = true := by
  rw [pagingPageSwapped_eq, getLsbD_pteSetSwap pte swptyp swpoff (by norm_num) (by norm_num)]
  simp

/-- The swap device just written is read back when it fits the 5-bit field. -/
theorem pagingSwptyp_pteSetSwap (pte : BitVec 32) {swptyp : ℕ} (swpoff : ℕ)
    (ht : swptyp < 32) : pagingSwptyp (pteSetSwap pte swptyp swpoff) = swptyp := by
  have hx : (BitVec.ofNat 32 swptyp).toNat = swptyp := by
    simp only [BitVec.toNat_ofNat]
    omega
  simp only [pagingSwptyp, getval, pteSetSwap, setval, pagingPteSwptypMask,
    pagingPteSwpoffMask, genmask]
  rw [BitField.get_set_of_disjoint (by norm_num) (by norm_num) (by norm_num),
    BitField.get_set (by norm_num) (by rw [hx]; omega), hx]

/-- The swap frame just written is read back when it fits the 21-bit field. -/
theorem pagingPteSwp_pteSetSwap (pte : BitVec 32) (swptyp : ℕ) {swpoff : ℕ}
    (ho : swpoff < 2 ^ 21) : pagingPteSwp (pteSetSwap pte swptyp swpoff) = swpoff := by
  have hx : (BitVec.ofNat 32 swpoff).toNat = swpoff := by
    simp only [BitVec.toNat_ofNat]
    omega
  simp only [pagingPteSwp, getval, pteSetSwap, setval, pagingPteSwpoffMask, genmask]
  rw [BitField.get_set (by norm_num) (by rw [hx]; omega), hx]

/-- A frame read from an entry fits the field, whatever the entry is. -/
theorem pagingFpn_lt (pte : BitVec 32) : pagingFpn pte < 8192 := by
  have h := BitField.get_toNat_lt (w := 32) (h := 12) (l := 0) (by norm_num) (by norm_num) pte
  simpa [pagingFpn, getval, pagingPteFpnMask, genmask] using h

/-! ### Splitting an address -/

/-- The page number of an address, as a quotient; what lies above 4 MB wraps. -/
theorem pagingPgn_eq (addr : BitVec 32) : pagingPgn addr = addr.toNat / 256 % 16384 :=
  BitField.get_toNat (by norm_num) (by norm_num) addr

/-- The offset of an address, as a remainder. -/
theorem pagingOffst_eq (addr : BitVec 32) : pagingOffst addr = addr.toNat % 256 := by
  rw [pagingOffst, getval, genmask, BitField.get_toNat (by norm_num) (by norm_num)]
  norm_num

/-- The shift of a physical address, as a product. -/
theorem pagingPhyaddr_eq (fpn offst : ℕ) : pagingPhyaddr fpn offst = fpn * 256 + offst := by
  rw [pagingPhyaddr, Nat.shiftLeft_eq]

/-! ### Resident pages -/

/-- An entry that names a RAM frame: PRESENT is set and SWAPPED is clear. The source tests PRESENT
only. -/
def Resident (pte : BitVec 32) : Prop :=
  pagingPagePresent pte = true ∧ pagingPageSwapped pte = false

instance (pte : BitVec 32) : Decidable (Resident pte) :=
  inferInstanceAs (Decidable (_ ∧ _))

/-- A page without PRESENT is not resident, whatever its other bits are. -/
theorem not_resident_of_absent {pte : BitVec 32} (h : pagingPagePresent pte = false) :
    ¬ Resident pte := by
  intro hres
  rw [Resident, h] at hres
  exact Bool.false_ne_true hres.1

@[simp] theorem resident_pteSetFpn (pte : BitVec 32) (fpn : ℕ) : Resident (pteSetFpn pte fpn) :=
  ⟨pagingPagePresent_pteSetFpn pte fpn, pagingPageSwapped_pteSetFpn pte fpn⟩

@[simp] theorem not_resident_pteSetSwap (pte : BitVec 32) (swptyp swpoff : ℕ) :
    ¬ Resident (pteSetSwap pte swptyp swpoff) := by
  intro h
  have := h.2
  simp at this

end OsSim
