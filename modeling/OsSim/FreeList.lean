import OsSim.Regions
import OsSim.Lib.Cover

/-!
# The Free List

`get_free_vmrg_area` cuts a new region out of the free list. What it cuts is neither lost nor
doubled; but its walk stops at the first node that does not suit, where it should go on.

## One look at the head

The loop of the source has an `else` that takes the next node and then leaves the loop, so it looks
at the head only. `getFreeVmrgLoop_eq_some` says so: what it returns is the front of the head, and
the list has what remains of it in its place. Everything here is derived from that.

A node suits when its size, as an `unsigned long`, is at least the size asked for, and its ends are
in order. For well-formed nodes this is the comparison of the sizes; a node that spans all addresses
has a size that wraps to 0.

## Two properties

The first is about the bytes: the region that is cut out and what remains are disjoint and together
the node, and the other nodes stay as they are (`CutOut`). It holds whenever the walk finds
something. The second is completeness: where some node has room, the walk should find one and the
area should not grow (`FirstFit`). It holds where the head has room or no node has, and not
otherwise.

## Main results

* `getFreeVmrgArea_conserves`: **no byte is lost or doubled** when a region is cut out.
* `firstFit_iff`: the search is a first fit exactly when no free region is large enough or
  the head of the list is.
* `firstFit_fails`: a large region behind a small one is not found.
-/

namespace OsSim

/-! ### Regions on the list -/

/-- The bytes from `rg_start` to `rg_end`, counted, both ends included. -/
def VmRg.size (rg : VmRg) : ℤ := (rg.rgEnd : ℤ) - rg.rgStart + 1

/-- A region whose ends are in order and whose size is an `unsigned long`. -/
structure VmRg.WellFormed (rg : VmRg) : Prop where
  le : rg.rgStart ≤ rg.rgEnd
  end_lt : rg.rgEnd < 18446744073709551616
  size_lt : rg.size < 18446744073709551616

/-- A region with its ends in order has as many bytes as its size says. -/
theorem VmRg.ncard_bytes {rg : VmRg} (h : rg.rgStart ≤ rg.rgEnd) :
    (rg.bytes.ncard : ℤ) = rg.size := by
  have hIcc : rg.bytes = (Finset.Icc rg.rgStart rg.rgEnd : Finset ℕ) := by
    ext a
    simp
  rw [hIcc, Set.ncard_coe_finset, Nat.card_Icc, VmRg.size]
  omega

/-! ### One look at the head -/

/-- The region that is cut out of the front of `curr`, of `size` bytes. -/
def VmRg.front (curr : VmRg) (size : ℤ) : VmRg :=
  ⟨curr.rgStart, toULong ((curr.rgStart : ℤ) + size - 1)⟩

/-- What stays on the list of `curr`: nothing after an exact fit. -/
def VmRg.remains (curr : VmRg) (size : ℤ) : List VmRg :=
  if toULong ((curr.rgEnd : ℤ) - curr.rgStart + 1) > toULong size then
    [{ curr with rgStart := toULong ((curr.rgStart : ℤ) + size) }]
  else []

/-- A node `get_free_vmrg_area` cuts from: it is large enough as an `unsigned long`, and its ends
are in order. -/
def VmRg.Suits (curr : VmRg) (size : ℤ) : Prop :=
  toULong size ≤ toULong ((curr.rgEnd : ℤ) - curr.rgStart + 1) ∧ curr.rgStart ≤ curr.rgEnd

instance (curr : VmRg) (size : ℤ) : Decidable (curr.Suits size) :=
  inferInstanceAs (Decidable (_ ∧ _))

/-- **The walk never gets past the head**: every node either suits or ends it. -/
theorem getFreeVmrgLoop_cons (curr : VmRg) (next : List VmRg) (size : ℤ) :
    getFreeVmrgLoop (curr :: next) size =
      if curr.Suits size then some (curr.front size, curr.remains size ++ next) else none := by
  rw [getFreeVmrgLoop]
  by_cases hsuits : curr.Suits size
  · obtain ⟨hsize, hle⟩ := hsuits
    rw [if_neg (by omega), if_pos (show curr.Suits size from ⟨hsize, hle⟩)]
    simp only [if_pos hsize, VmRg.remains, VmRg.front]
    split <;> rfl
  · rw [if_neg hsuits, if_pos]
    rw [VmRg.Suits] at hsuits
    omega

/-- **What the walk finds** is the front of the head of the list. -/
theorem getFreeVmrgLoop_eq_some {l : List VmRg} {size : ℤ} {r : VmRg × List VmRg}
    (h : getFreeVmrgLoop l size = some r) :
    ∃ curr next, l = curr :: next ∧ curr.Suits size ∧
      r = (curr.front size, curr.remains size ++ next) := by
  cases l with
  | nil => simp [getFreeVmrgLoop] at h
  | cons curr next =>
      rw [getFreeVmrgLoop_cons] at h
      split at h
      · rename_i hsuits
        exact ⟨curr, next, rfl, hsuits, (Option.some.inj h).symm⟩
      · simp at h

/-- Adding an `int` to an `unsigned long`, where the sum does not wrap. -/
theorem toULong_add {a : ℕ} {x : ℤ} (h : a + toULong x < 18446744073709551616) :
    toULong ((a : ℤ) + x) = a + toULong x := by
  simp only [toULong] at h ⊢
  omega

section Suits

variable {curr : VmRg} {size : ℤ} (hlt : curr.rgEnd < 18446744073709551616)
  (hsuits : curr.Suits size)

include hlt hsuits

/-- The front of a node that suits, as far as `size` goes, is inside the node. -/
theorem VmRg.Suits.front_le : curr.rgStart + toULong size ≤ curr.rgEnd + 1 := by
  obtain ⟨hsize, hle⟩ := hsuits
  simp only [toULong] at hsize ⊢
  omega

/-- Where something remains, it starts behind the front. -/
theorem VmRg.Suits.remains_eq {rg : VmRg} (hrg : rg ∈ curr.remains size) :
    rg.rgStart = curr.rgStart + toULong size ∧ rg.rgEnd = curr.rgEnd ∧ rg.rgStart ≤ rg.rgEnd := by
  obtain ⟨hsize, hle⟩ := hsuits
  rw [VmRg.remains] at hrg
  split at hrg
  · rename_i hmore
    obtain rfl := List.mem_singleton.mp hrg
    have hlen : curr.rgStart + toULong ((curr.rgEnd : ℤ) - curr.rgStart + 1) ≤
        curr.rgEnd + 1 := by
      simp only [toULong]
      omega
    have hadd : toULong ((curr.rgStart : ℤ) + size) = curr.rgStart + toULong size :=
      toULong_add (by omega)
    refine ⟨hadd, rfl, ?_⟩
    simp only [hadd]
    omega
  · simp at hrg

/-- The region that is cut out ends where the front does, if it has any byte. -/
theorem VmRg.Suits.front_end (hpos : 0 < toULong size) :
    (curr.front size).rgEnd + 1 = curr.rgStart + toULong size := by
  have hle := hsuits.front_le hlt
  rw [VmRg.front]
  simp only [toULong] at hle hpos ⊢
  omega

end Suits

/-- `get_free_vmrg_area` on the area it looks up. -/
theorem getFreeVmrgArea_eq {mm : Mm} {vmaid : ℤ} {i : ℕ} {vma : VmArea}
    (hnum : getVmaByNum mm vmaid = some (some i)) (hvma : mm.mmap[i]? = some vma) (size : ℤ) :
    getFreeVmrgArea mm vmaid size =
      some ((getFreeVmrgLoop vma.vmFreergList size).map fun r =>
        (r.1, { mm with mmap := mm.mmap.set i { vma with vmFreergList := r.2 } })) := by
  rw [getFreeVmrgArea, hnum]
  simp only [Option.bind_eq_bind, Option.bind_some, hvma]
  cases getFreeVmrgLoop vma.vmFreergList size <;> rfl

/-! ### No byte is lost or doubled -/

/-- A free list `l'` after a region `newrg` of `size` bytes has been cut out of `l`. -/
structure CutOut (l : List VmRg) (size : ℤ) (newrg : VmRg) (l' : List VmRg) : Prop where
  size_eq : (newrg.bytes.ncard : ℤ) = size
  /-- One node was cut; what remains of it stands in its place. -/
  order : ∃ pre curr rest post, l = pre ++ curr :: post ∧ l' = pre ++ (rest ++ post) ∧
    newrg.bytes ⊆ curr.bytes ∧ rest.length ≤ 1 ∧ ∀ rg ∈ rest, rg.bytes ⊆ curr.bytes
  wellFormed : ∀ rg ∈ l', rg.WellFormed
  apart : Separate VmRg.bytes l'
  cover_eq : cover VmRg.bytes l' = cover VmRg.bytes l \ newrg.bytes

section Cut

variable {curr : VmRg} {size : ℤ}

/-- On a well-formed region the tests compare the sizes themselves. -/
theorem VmRg.WellFormed.toULong_size (h : curr.WellFormed) :
    (toULong ((curr.rgEnd : ℤ) - curr.rgStart + 1) : ℤ) = curr.size := by
  have hle := h.le
  exact toULong_of_range (by omega) h.size_lt

/-- The region cut out of a node that suits ends inside the node. -/
theorem VmRg.WellFormed.front_eq (h : curr.WellFormed) (hsize : 1 ≤ size)
    (hle : size ≤ curr.size) :
    ((curr.front size).rgEnd : ℤ) = curr.rgStart + size - 1 := by
  have hlt := h.end_lt
  rw [VmRg.size] at hle
  exact toULong_of_range (by omega) (by omega)

/-- A node is cut in two: the new region and what remains. -/
theorem VmRg.WellFormed.cut (h : curr.WellFormed) (hsize : 1 ≤ size) (hle : size ≤ curr.size) :
    Cut VmRg.bytes curr (curr.front size).bytes (curr.remains size) ∧
      (curr.remains size).length ≤ 1 ∧ ∀ rg ∈ curr.remains size, rg.WellFormed := by
  have hfree := h.toULong_size
  have hend := h.front_eq hsize hle
  have hlt := h.end_lt
  have hlen := h.size_lt
  have hreq : (toULong size : ℤ) = size := toULong_of_range (by omega) (by omega)
  have hstart : (curr.front size).rgStart = curr.rgStart := rfl
  rw [VmRg.size] at hle hfree hlen
  have hsub : (curr.front size).bytes ⊆ curr.bytes := by
    intro a ha
    rw [VmRg.mem_bytes] at ha ⊢
    omega
  by_cases hrest : toULong ((curr.rgEnd : ℤ) - curr.rgStart + 1) > toULong size
  · have hnew : (toULong ((curr.rgStart : ℤ) + size) : ℤ) = curr.rgStart + size :=
      toULong_of_range (by omega) (by omega)
    rw [VmRg.remains, if_pos hrest]
    refine ⟨⟨hsub, List.pairwise_singleton _ _, ?_⟩, le_refl 1, ?_⟩
    · ext a
      simp only [cover_cons, cover_nil, Set.union_empty, Set.mem_sdiff, VmRg.mem_bytes]
      omega
    · intro rg hrg
      obtain rfl := List.mem_singleton.mp hrg
      exact ⟨by simp only; omega, hlt, by simp only [VmRg.size]; omega⟩
  · rw [VmRg.remains, if_neg hrest]
    refine ⟨⟨hsub, List.Pairwise.nil, ?_⟩, Nat.zero_le 1, by simp⟩
    ext a
    simp only [cover_nil, Set.mem_sdiff, VmRg.mem_bytes, Set.mem_empty_iff_false, false_iff]
    omega

end Cut

/-- **No byte is lost or doubled.** On a list of disjoint regions `get_free_vmrg_area` either
changes nothing or cuts exactly `size` bytes out of one region. -/
theorem getFreeVmrgArea_conserves {mm : Mm} {vmaid : ℤ} {i : ℕ} {vma : VmArea}
    (hnum : getVmaByNum mm vmaid = some (some i)) (hvma : mm.mmap[i]? = some vma)
    (hwf : ∀ rg ∈ vma.vmFreergList, rg.WellFormed) (hapart : Separate VmRg.bytes vma.vmFreergList)
    {size : BitVec 32} (hsize : 1 ≤ size.toInt) :
    getFreeVmrgArea mm vmaid size.toInt = some none ∨
      ∃ newrg l', CutOut vma.vmFreergList size.toInt newrg l' ∧
        getFreeVmrgArea mm vmaid size.toInt = some (some (newrg,
          { mm with mmap := mm.mmap.set i { vma with vmFreergList := l' } })) := by
  rw [getFreeVmrgArea_eq hnum hvma]
  rcases hloop : getFreeVmrgLoop vma.vmFreergList size.toInt with _ | r
  · exact Or.inl rfl
  · right
    obtain ⟨curr, next, hl, ⟨hsuits, -⟩, rfl⟩ := getFreeVmrgLoop_eq_some hloop
    rw [hl] at hwf hapart ⊢
    have hcurr := hwf curr (by simp)
    have hle : size.toInt ≤ curr.size := by
      have hfree := hcurr.toULong_size
      have hlt := BitVec.toInt_lt (x := size)
      have hreq : (toULong size.toInt : ℤ) = size.toInt :=
        toULong_of_range (by omega) (by omega)
      omega
    obtain ⟨hcut, hlen, hrest⟩ := hcurr.cut hsize hle
    have hhead : Separate VmRg.bytes ([] ++ curr :: next) := hapart
    obtain ⟨hapart', hcover⟩ := hhead.cut hcut
    have hend := hcurr.front_eq hsize hle
    have hstart : (curr.front size.toInt).rgStart = curr.rgStart := rfl
    refine ⟨_, _, ⟨?_, ?_, ?_, hapart', hcover⟩, rfl⟩
    · rw [VmRg.ncard_bytes (by omega), VmRg.size]
      omega
    · refine ⟨[], curr, curr.remains size.toInt, next, rfl, rfl, hcut.subset, hlen, ?_⟩
      intro rg hrg a ha
      have hmem : a ∈ cover VmRg.bytes (curr.remains size.toInt) := ⟨rg, hrg, ha⟩
      rw [hcut.cover_eq] at hmem
      exact hmem.1
    · intro rg (hrg : rg ∈ curr.remains size.toInt ++ next)
      rcases List.mem_append.mp hrg with hin | hin
      · exact hrest rg hin
      · exact hwf rg (List.mem_cons_of_mem _ hin)

/-- Four bytes of the first of two regions. -/
theorem getFreeVmrgArea_conserves_twoRegions :
    ∃ newrg l', CutOut [⟨0, 9⟩, ⟨20, 29⟩] 4 newrg l' := by
  have hwf : ∀ rg ∈ ([⟨0, 9⟩, ⟨20, 29⟩] : List VmRg), rg.WellFormed := by
    intro rg hrg
    simp only [List.mem_cons, List.not_mem_nil, or_false] at hrg
    rcases hrg with rfl | rfl
    · exact ⟨by decide, by decide, by decide⟩
    · exact ⟨by decide, by decide, by decide⟩
  have hapart : Separate VmRg.bytes ([⟨0, 9⟩, ⟨20, 29⟩] : List VmRg) := by
    refine List.pairwise_pair.mpr (Set.disjoint_left.mpr ?_)
    intro a ha hb
    have hend : a ≤ 9 := ha.2
    have hstart : 20 ≤ a := hb.1
    omega
  have hnum : getVmaByNum { initMm with mmap := [⟨0, 0, 30, 30, [⟨0, 9⟩, ⟨20, 29⟩]⟩] } 0 =
      some (some 0) := rfl
  have hsize : 1 ≤ (4 : BitVec 32).toInt := by decide
  rcases getFreeVmrgArea_conserves hnum rfl hwf hapart hsize with hnone | ⟨newrg, l', hcons, -⟩
  · exact absurd (congrArg (Option.map Option.isSome) hnone) (by decide)
  · exact ⟨newrg, l', hcons⟩

/-! ### The first fit -/

/-- A region with room for `size` bytes, as numbers. -/
def VmRg.Fits (rg : VmRg) (size : ℤ) : Prop := size ≤ rg.size

instance (rg : VmRg) (size : ℤ) : Decidable (rg.Fits size) :=
  inferInstanceAs (Decidable (_ ≤ _))

/-- A node is cut from when it fits, unless its size wraps to 0. -/
theorem VmRg.suits_iff {rg : VmRg} (hlt : rg.rgEnd < 18446744073709551616) {size : ℤ}
    (hsize : 1 ≤ size) (hint : size < 2147483648) :
    rg.Suits size ↔ rg.Fits size ∧ rg.size < 18446744073709551616 := by
  have hreq : (toULong size : ℤ) = size := toULong_of_range (by omega) (by omega)
  rw [VmRg.Suits, VmRg.Fits, VmRg.size]
  by_cases hle : rg.rgStart ≤ rg.rgEnd
  · by_cases hwrap : (rg.rgEnd : ℤ) - rg.rgStart + 1 < 18446744073709551616
    · have hfree := toULong_of_range (x := (rg.rgEnd : ℤ) - rg.rgStart + 1) (by omega) hwrap
      omega
    · have hzero : toULong ((rg.rgEnd : ℤ) - rg.rgStart + 1) = 0 := by
        rw [show (rg.rgEnd : ℤ) - rg.rgStart + 1 = 18446744073709551616 by omega]
        rfl
      omega
  · omega

variable {ι : Type} [DecidableEq ι]

/-- `get_free_vmrg_area` finds the first region of area `i` that fits whenever there is one, and
`__alloc` moves the end of the area only when there is none. -/
structure FirstFit (s : Sys ι) (p : ι) (vmaid : ℤ) (i : ℕ) (vma : VmArea) (size : ℤ) : Prop where
  found : (∃ r, getFreeVmrgArea (s.mm p) vmaid size = some (some r)) ↔
    ∃ rg ∈ vma.vmFreergList, rg.Fits size
  first : ∀ r, getFreeVmrgArea (s.mm p) vmaid size = some (some r) →
    ∃ pre curr post, vma.vmFreergList = pre ++ curr :: post ∧
      (∀ rg ∈ pre, ¬ rg.Fits size) ∧ curr.Fits size ∧ r.1 = curr.front size ∧
      r.2 = { s.mm p with
        mmap := (s.mm p).mmap.set i
          { vma with vmFreergList := pre ++ (curr.remains size ++ post) } }
  grows : ∀ rgid ret addr s' vma', alloc s p vmaid rgid size = some (ret, addr, s') →
    (s'.mm p).mmap[i]? = some vma' → vma'.vmEnd ≠ vma.vmEnd →
      ∀ rg ∈ vma.vmFreergList, ¬ rg.Fits size

/-- An allocation that is cut out of the free list leaves the end of the area alone. -/
theorem vmEnd_alloc_of_found {s s' : Sys ι} {p : ι} {vmaid rgid size ret addr : ℤ} {i : ℕ}
    {vma vma' : VmArea} (hnum : getVmaByNum (s.mm p) vmaid = some (some i))
    (hvma : (s.mm p).mmap[i]? = some vma) {r : VmRg × List VmRg}
    (hloop : getFreeVmrgLoop vma.vmFreergList size = some r)
    (h : alloc s p vmaid rgid size = some (ret, addr, s'))
    (hvma' : (s'.mm p).mmap[i]? = some vma') : vma'.vmEnd = vma.vmEnd := by
  rw [alloc, getFreeVmrgArea_eq hnum hvma, hloop] at h
  simp only [Option.bind_eq_bind, Option.bind_some, Option.map_some] at h
  obtain ⟨mm, hset, hres⟩ := Option.bind_eq_some_iff.mp h
  simp only [Option.pure_def, Option.some.injEq, Prod.mk.injEq] at hres
  obtain ⟨-, -, rfl⟩ := hres
  rw [Mm.setSymrg] at hset
  split at hset
  · obtain rfl := Option.some.inj hset
    have hi : i < (s.mm p).mmap.length := (List.getElem?_eq_some_iff.mp hvma).1
    rw [Sys.mm_setMm_self] at hvma'
    simp only [List.getElem?_set_self hi, Option.some.injEq] at hvma'
    rw [← hvma']
  · simp at hset

/-- **When the search is a first fit**: when no free region is large enough, or the head of the
list is, and does not span all addresses. -/
theorem firstFit_iff {s : Sys ι} {p : ι} {vmaid : ℤ} {i : ℕ} {vma : VmArea}
    (hnum : getVmaByNum (s.mm p) vmaid = some (some i)) (hvma : (s.mm p).mmap[i]? = some vma)
    (hlt : ∀ rg ∈ vma.vmFreergList, rg.rgEnd < 18446744073709551616) {size : BitVec 32}
    (hsize : 1 ≤ size.toInt) :
    FirstFit s p vmaid i vma size.toInt ↔
      (∀ rg ∈ vma.vmFreergList, ¬ rg.Fits size.toInt) ∨
        ∃ rg ∈ vma.vmFreergList.head?, rg.Fits size.toInt ∧ rg.size < 18446744073709551616 := by
  have hint := BitVec.toInt_lt (x := size)
  have hsuits {rg : VmRg} (hrg : rg ∈ vma.vmFreergList) :
      rg.Suits size.toInt ↔ rg.Fits size.toInt ∧ rg.size < 18446744073709551616 :=
    VmRg.suits_iff (hlt rg hrg) hsize (by omega)
  constructor
  · intro hfirst
    by_cases hfit : ∃ rg ∈ vma.vmFreergList, rg.Fits size.toInt
    · right
      obtain ⟨r, hr⟩ := hfirst.found.mpr hfit
      rw [getFreeVmrgArea_eq hnum hvma] at hr
      obtain ⟨r', hloop, -⟩ := Option.map_eq_some_iff.mp (Option.some.inj hr)
      obtain ⟨curr, next, hl, hcurr, -⟩ := getFreeVmrgLoop_eq_some hloop
      exact ⟨curr, by simp [hl], (hsuits (by simp [hl])).mp hcurr⟩
    · left
      intro rg hrg hfits
      exact hfit ⟨rg, hrg, hfits⟩
  · rintro (hnone | ⟨curr, hhead, hcurr⟩)
    · have hloop : getFreeVmrgLoop vma.vmFreergList size.toInt = none := by
        rw [Option.eq_none_iff_forall_ne_some]
        intro r hr
        obtain ⟨curr, next, hl, hcurr, -⟩ := getFreeVmrgLoop_eq_some hr
        have hmem : curr ∈ vma.vmFreergList := by simp [hl]
        exact hnone curr hmem ((hsuits hmem).mp hcurr).1
      have harea : getFreeVmrgArea (s.mm p) vmaid size.toInt = some none := by
        rw [getFreeVmrgArea_eq hnum hvma, hloop]
        rfl
      refine ⟨⟨?_, ?_⟩, ?_, ?_⟩
      · rintro ⟨r, hr⟩
        rw [harea] at hr
        simp at hr
      · rintro ⟨rg, hrg, hfits⟩
        exact absurd hfits (hnone rg hrg)
      · intro r hr
        rw [harea] at hr
        simp at hr
      · intro _ _ _ _ _ _ _ _
        exact hnone
    · obtain ⟨next, hl⟩ := List.head?_eq_some_iff.mp hhead
      have hloop : getFreeVmrgLoop vma.vmFreergList size.toInt =
          some (curr.front size.toInt, curr.remains size.toInt ++ next) := by
        rw [hl, getFreeVmrgLoop_cons, if_pos ((hsuits (by simp [hl])).mpr hcurr)]
      have harea := getFreeVmrgArea_eq hnum hvma size.toInt
      rw [hloop] at harea
      refine ⟨⟨?_, ?_⟩, ?_, ?_⟩
      · intro _
        exact ⟨curr, by simp [hl], hcurr.1⟩
      · intro _
        exact ⟨_, harea⟩
      · intro r hr
        rw [harea] at hr
        obtain rfl := Option.some.inj (Option.some.inj hr)
        exact ⟨[], curr, next, hl, by simp, hcurr.1, rfl, rfl⟩
      · intro rgid ret addr s' vma' halloc hvma' hmoved
        exact absurd (vmEnd_alloc_of_found hnum hvma hloop halloc hvma') hmoved

/-- The one-byte free region a process starts with suits a request for one byte. -/
theorem firstFit_iff_oneByte :
    FirstFit (bootSys 256 fun _ => 512 : Sys Unit) () 0 0 ⟨0, 0, 0, 0, [⟨0, 0⟩]⟩ 1 := by
  have hsize : 1 ≤ (1 : BitVec 32).toInt := by decide
  exact (firstFit_iff rfl rfl (by decide) hsize).mpr
    (Or.inr ⟨⟨0, 0⟩, by simp, by decide, by decide⟩)

/-- A process whose area has the free list `l`. -/
def areaSys (l : List VmRg) : Sys Unit :=
  (bootSys 1024 fun _ => 512 : Sys Unit).setMm () { initMm with mmap := [⟨0, 0, 768, 768, l⟩] }

/-- 257 free bytes stand before 513 free ones: 400 bytes are not found. -/
theorem firstFit_fails : ¬ ∀ (l : List VmRg) (size : BitVec 32),
    (∀ rg ∈ l, rg.rgEnd < 18446744073709551616) → 1 ≤ size.toInt →
      FirstFit (areaSys l) () 0 0 ⟨0, 0, 768, 768, l⟩ size.toInt := by
  intro hfirstFit
  have hfirst := hfirstFit [⟨512, 768⟩, ⟨0, 512⟩] 400 (by decide) (by decide)
  obtain ⟨r, hr⟩ := hfirst.found.mpr ⟨⟨0, 512⟩, by simp, by decide⟩
  have hnone : getFreeVmrgLoop [⟨512, 768⟩, ⟨0, 512⟩] (400 : BitVec 32).toInt = none := by
    decide
  rw [getFreeVmrgArea_eq rfl rfl, hnone] at hr
  simp at hr

end OsSim
