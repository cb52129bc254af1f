import OsSim.Runs

/-!
# Growing without Remapping

Growing an area should only ever add pages behind the mapped ones. The break moves by the
increment as given and pages are mapped from the page the old break lies in, so after an
increment that is no multiple of the page size the last page is mapped a second time. As long
as every growth starts on a page boundary and obtains its frames, the mapped pages are
exactly those below the break.

An allocation passes on an aligned size, so that its growth starts at a boundary whenever the area
ends at one; the system call 17 passes on whatever a program gives it. A page that is mapped again
loses the frame that it had, which stays on the used list with no page to hold it, and stands on the
FIFO twice. A growth that does not obtain its frames moves the break over pages that are not mapped,
and then the next growth leaves a gap.

Where neither happens, `TightArea` holds: the mapped pages are exactly those below the end of the
area. It is kept by every call of this kind (`TightAreas.step`), and that a growth in such an area
touches no entry, except by eviction, is what the theorem says (`KeepsPages`).

## Main results

* `TightArea.grow`: a growth from a page boundary adds the pages up to the new break.
* `growth_keeps_pages`: **growing remaps nothing** along every run of such growths.
* `page_remapped`: two increments of 100 bytes.
-/

namespace OsSim

open TransitionSystem

variable {ι : Type}

/-! ### The property -/

/-- Growth requests of process `p` in an instruction: the area and the increment that
`inc_vma_limit` is called with, if it is called. -/
def Sys.growReq (s : Sys ι) (p : ι) : Inst → Option (ℤ × ℤ)
  | .alloc size _ =>
      if (s.mm p).mmap.any fun vma => (getFreeVmrgLoop vma.vmFreergList size.toInt).isNone then
        some (0, pagingPageAlignsz size.toInt)
      else none
  | .memmap regs =>
      if regs.a1 = sysmemIncOp then some (regs.a2.toInt, regs.a3.toInt) else none
  | _ => none

/-- An allocation that finds no free region requests growth by its aligned size. -/
theorem Sys.growReq_alloc {s : Sys ι} {p : ι} {vma : VmArea} (h : OneArea (s.mm p) vma)
    {size : BitVec 32} (hloop : getFreeVmrgLoop vma.vmFreergList size.toInt = none)
    (regIndex : BitVec 32) :
    s.growReq p (.alloc size regIndex) = some (0, pagingPageAlignsz size.toInt) := by
  simp [Sys.growReq, h.mmap, hloop]

/-- The page of process `p` was evicted: its entry records a swap frame that was free. -/
def Evicted (s : Sys ι) (pte : BitVec 32) : Prop :=
  pagingPageSwapped pte = true ∧ ∃ i : Fin pagingMaxMmswp, pagingSwptyp pte = i ∧
    pagingPteSwp pte ∈ (s.mswp i).freeFpList

/-- From `s` to `s'` no mapped page of process `p` was remapped: mapped pages keep their
entries unless they are evicted, the FIFO lists no page twice, and every page of the area is
mapped to a frame or recorded as swapped. -/
structure KeepsPages (s s' : Sys ι) (p : ι) : Prop where
  kept : ∀ g, pagingPagePresent ((s.mm p).pgd g) = true →
    (s'.mm p).pgd g = (s.mm p).pgd g ∨ Evicted s ((s'.mm p).pgd g)
  fifo_nodup : (s'.mm p).fifoPgn.Nodup
  mapped : ∀ vma, OneArea (s'.mm p) vma → ∀ g, vma.vmStart < 256 * (g + 1) → 256 * g < vma.vmEnd →
    pagingPagePresent ((s'.mm p).pgd g) = true

/-! ### Tight areas -/

/-- The mapped pages are those below the break, and the FIFO lists resident ones, each
once. -/
structure TightArea (mm : Mm) (vma : VmArea) : Prop extends OneArea mm vma where
  le : vma.vmEnd ≤ 4194304
  mapped : ∀ g, pagingPagePresent (mm.pgd g) = true ↔ 256 * g < vma.vmEnd
  fifo_nodup : mm.fifoPgn.Nodup
  fifo_resident : ∀ g ∈ mm.fifoPgn, Resident (mm.pgd g)

variable [DecidableEq ι]

/-- The entry of a page evicted to a frame that an entry can hold says that it was evicted. -/
theorem Obtained.evicted_pte {s : Sys ι} {p : ι} {taken : List ℕ} {evs : List Eviction}
    {st : AllocState ι} (h : Obtained s p taken evs st) (hnodup : (s.mm p).fifoPgn.Nodup)
    (hswap : ∀ i, ∀ o ∈ (s.mswp i).freeFpList, o < 2097152) {g : ℕ}
    (hg : g ∈ evs.map Eviction.pgn) : Evicted s ((st.sys.mm p).pgd g) := by
  obtain ⟨e, he, rfl⟩ := List.mem_map.mp hg
  have hoff := h.off_mem he
  rw [h.pgd_evicted hnodup e he]
  refine ⟨pagingPageSwapped_pteSetSwap _ _ _, e.typ, ?_, ?_⟩
  · exact e.pagingSwptyp_pte _
  · rwa [pagingPteSwp_pteSetSwap _ _ (hswap _ _ hoff)]

/-- **A growth from a page boundary that obtains its frames** adds the pages up to the new
break and remaps nothing. -/
theorem TightArea.grow {s s' : Sys ι} {p : ι} {vma : VmArea} (h : TightArea (s.mm p) vma)
    {vmaid inc : ℤ} (hid : vmaid ≤ 0) (hdvd : 256 ∣ vma.vmEnd) (hinc : 0 ≤ inc)
    (hle : vma.vmEnd + inc ≤ 4194304) (hswap : ∀ i, ∀ o ∈ (s.mswp i).freeFpList, o < 2097152)
    (hgrow : incVmaLimit s p vmaid inc = some (0, s')) :
    TightArea (s'.mm p) (vma.grow inc) ∧
      ∀ g, pagingPagePresent ((s.mm p).pgd g) = true →
        (s'.mm p).pgd g = (s.mm p).pgd g ∨ Evicted s ((s'.mm p).pgd g) := by
  have hgrowth : Growth (s.moveBrk p vma inc) p vma.growPgn (growPages inc) 0 s' :=
    incVmaLimit_cases h.toOneArea hid hgrow
  have honly := hgrowth.onlyPages
  have hbrk : SameFrames s (s.moveBrk p vma inc) := sameFrames_setMm rfl rfl
  have hend : ((vma.grow inc).vmEnd : ℤ) = vma.vmEnd + inc :=
    toULong_of_range (by omega) (by omega)
  have hmmap : (s'.mm p).mmap = [vma.grow inc] := by
    rw [honly.mmap, Sys.moveBrk, Sys.mm_setMm_self]
  have hnodup : ((s.moveBrk p vma inc).mm p).fifoPgn.Nodup := by
    rw [hbrk.fifo]
    exact h.fifo_nodup
  have hresident : ∀ g ∈ ((s.moveBrk p vma inc).mm p).fifoPgn,
      Resident (((s.moveBrk p vma inc).mm p).pgd g) := by
    rw [hbrk.fifo, hbrk.pgd]
    exact h.fifo_resident
  have hrange := vma.mem_range hdvd hinc hle
  have hpgd (g : ℕ) : ((s.moveBrk p vma inc).mm p).pgd g = (s.mm p).pgd g := by
    rw [hbrk.pgd]
  refine ⟨⟨⟨hmmap, h.vmId⟩, by omega, fun g => ⟨fun hpres => ?_, fun hg => ?_⟩, ?_, ?_⟩,
    fun g hpres => ?_⟩
  · by_contra hnot
    have hout : ¬ (vma.growPgn ≤ g ∧ g < vma.growPgn + growPages inc) := by
      intro hin
      have := ((hrange g).mp hin).2
      omega
    have hold := hgrowth.present_of_present hresident hout hpres
    rw [hpgd] at hold
    have := (h.mapped g).mp hold
    omega
  · by_cases hold : 256 * g < vma.vmEnd
    · refine hgrowth.present_mono hnodup ?_
      rw [hpgd]
      exact (h.mapped g).mpr hold
    · have hin := (hrange g).mpr ⟨by omega, by omega⟩
      exact (hgrowth.resident_of_mem hin.1 hin.2).1
  · refine hgrowth.fifo_nodup hnodup ?_
    intro g hlo hhi hg
    have hpres := (hresident g hg).1
    rw [hpgd] at hpres
    have := (h.mapped g).mp hpres
    have := ((hrange g).mp ⟨hlo, hhi⟩).1
    omega
  · exact hgrowth.fifo_resident hnodup hresident
  · obtain ⟨taken, evs, st, fs, mm, fifo, hob, -, -, -, -, hmap, -, rfl, hcode⟩ := hgrowth.parts
    have hlen := (hcode rfl).1
    have hold := (h.mapped g).mp hpres
    rw [Sys.mm_setMm_self]
    simp only
    rw [hmap.pgd_out g fun hin => by have := ((hrange g).mp (by omega)).1; omega]
    by_cases hev : g ∈ evs.map Eviction.pgn
    · exact Or.inr (hob.evicted_pte hnodup hswap hev)
    · left
      rw [hob.pgd_other g hev, hpgd]

/-! ### Runs -/

/-- The instructions in question: allocations, and the system call for growing an area. -/
def IsGrowCall : Inst → Bool
  | .alloc _ _ => true
  | .memmap regs => regs.a1 = sysmemIncOp
  | _ => false

/-- A growth request of an event obtains its frames: its code is 0, or there is no request. -/
def Sys.obtains (s : Sys ι) (e : Event ι) : Bool :=
  match (s.start e).growReq e.proc e.inst with
  | some req => (incVmaLimit (s.start e) e.proc req.1 req.2).any (·.1 = 0)
  | none => true

/-- An allocation or an `SYSMEM_INC_OP` request whose increment is positive and keeps the break
inside the 4 MB. -/
def GrowCall (s : Sys ι) (e : Event ι) : Prop :=
  IsGrowCall e.inst = true ∧ ∀ req ∈ (s.start e).growReq e.proc e.inst,
    0 < req.2 ∧ ∀ vma ∈ ((s.start e).mm e.proc).mmap, vma.vmEnd + req.2 ≤ 4194304

/-- If it grows the area, it starts at a page boundary and obtains its frames, and swap frames
have numbers that an entry can hold. -/
def FromBoundary (s : Sys ι) (e : Event ι) : Prop :=
  s.obtains e = true ∧ ∀ req ∈ (s.start e).growReq e.proc e.inst,
    (∀ vma ∈ ((s.start e).mm e.proc).mmap, 256 ∣ vma.vmEnd) ∧
      ∀ i, ∀ o ∈ (s.mswp i).freeFpList, o < 2097152

instance (s : Sys ι) (e : Event ι) : Decidable (GrowCall s e) :=
  have := Option.decidableForallMem ((s.start e).growReq e.proc e.inst)
    (p := fun req : ℤ × ℤ =>
      0 < req.2 ∧ ∀ vma ∈ ((s.start e).mm e.proc).mmap, (vma.vmEnd : ℤ) + req.2 ≤ 4194304)
  inferInstanceAs (Decidable (_ ∧ _))

instance (s : Sys ι) (e : Event ι) : Decidable (FromBoundary s e) :=
  have := Option.decidableForallMem ((s.start e).growReq e.proc e.inst)
    (p := fun _ => (∀ vma ∈ ((s.start e).mm e.proc).mmap, 256 ∣ vma.vmEnd) ∧
      ∀ i, ∀ o ∈ (s.mswp i).freeFpList, o < 2097152)
  inferInstanceAs (Decidable (_ ∧ _))

/-- Every process's area is tight: the pages that are mapped are those below its end. -/
def TightAreas (s : Sys ι) : Prop := ∀ p, ∃ vma, TightArea (s.mm p) vma

/-- Tables, FIFOs and area ends are the same, region lists may differ. -/
theorem TightAreas.setMm {s : Sys ι} (hs : TightAreas s) {p : ι} {mm : Mm} {vma vma' : VmArea}
    (h : TightArea (s.mm p) vma) (harea : OneArea mm vma') (hend : vma'.vmEnd = vma.vmEnd)
    (hpgd : mm.pgd = (s.mm p).pgd) (hfifo : mm.fifoPgn = (s.mm p).fifoPgn) :
    TightAreas (s.setMm p mm) := by
  intro q
  by_cases hq : q = p
  · subst hq
    rw [Sys.mm_setMm_self]
    refine ⟨vma', harea, by rw [hend]; exact h.le, ?_, ?_, ?_⟩
    · intro g
      rw [hpgd, hend]
      exact h.mapped g
    · rw [hfifo]
      exact h.fifo_nodup
    · rw [hfifo, hpgd]
      exact h.fifo_resident
  · rw [Sys.mm_setMm_of_ne _ _ _ hq]
    exact hs q

/-- The words behind a region table do not matter to it. -/
theorem TightAreas.start {s : Sys ι} (hs : TightAreas s) (e : Event ι) :
    TightAreas (s.start e) := by
  obtain ⟨vma, h⟩ := hs e.proc
  exact hs.setMm h ⟨h.mmap, h.vmId⟩ rfl rfl rfl

/-- The area looked up does not exist, and the walk runs off the list. -/
theorem incVmaLimit_of_pos {s : Sys ι} {p : ι} {vma : VmArea} (harea : OneArea (s.mm p) vma)
    {vmaid inc : ℤ} (hid : 0 < vmaid) : incVmaLimit s p vmaid inc = none := by
  have hnum : getVmaByNum (s.mm p) vmaid = none := by
    rw [getVmaByNum, harea.mmap]
    simp only [getVmaLoop, harea.vmId]
    rw [if_pos (by simpa [toInt] using hid)]
    rfl
  simp [incVmaLimit, getVmAreaNodeAtBrk, derefVma, hnum]

/-- What a growth that obtained its frames does to all areas: one has grown, and the others are as
they were. -/
theorem TightAreas.grow {s s' : Sys ι} (hs : TightAreas s) {p : ι} {vmaid inc : ℤ}
    (hinc : 0 ≤ inc) (hle : ∀ vma ∈ (s.mm p).mmap, vma.vmEnd + inc ≤ 4194304)
    (hdvd : ∀ vma ∈ (s.mm p).mmap, 256 ∣ vma.vmEnd)
    (hswap : ∀ i, ∀ o ∈ (s.mswp i).freeFpList, o < 2097152)
    (hgrow : incVmaLimit s p vmaid inc = some (0, s')) : TightAreas s' ∧
      ∀ g, pagingPagePresent ((s.mm p).pgd g) = true →
        (s'.mm p).pgd g = (s.mm p).pgd g ∨ Evicted s ((s'.mm p).pgd g) := by
  obtain ⟨vma, h⟩ := hs p
  have hmem : vma ∈ (s.mm p).mmap := by simp [h.mmap]
  have hid : vmaid ≤ 0 := by
    by_contra hpos
    rw [incVmaLimit_of_pos h.toOneArea (by omega)] at hgrow
    simp at hgrow
  have honly := (incVmaLimit_cases h.toOneArea hid hgrow).onlyPages
  obtain ⟨harea, hkept⟩ := h.grow hid (hdvd vma hmem) hinc (hle vma hmem) hswap hgrow
  refine ⟨?_, hkept⟩
  intro q
  by_cases hq : q = p
  · subst hq
    exact ⟨_, harea⟩
  · rw [Sys.mm, honly.procs q hq, ← Sys.mm, Sys.moveBrk, Sys.mm_setMm_of_ne _ _ _ hq]
    exact hs q

omit [DecidableEq ι] in
/-- In tight areas only the entries need a look. -/
theorem keepsPages_of_tight {s s' : Sys ι} (hs' : TightAreas s') {p : ι}
    (hkept : ∀ g, pagingPagePresent ((s.mm p).pgd g) = true →
      (s'.mm p).pgd g = (s.mm p).pgd g ∨ Evicted s ((s'.mm p).pgd g)) : KeepsPages s s' p := by
  obtain ⟨vma, h⟩ := hs' p
  refine ⟨hkept, h.fifo_nodup, ?_⟩
  intro vma' harea g _ hg
  obtain rfl := harea.unique h.toOneArea
  exact (h.mapped g).mpr hg

/-- **One call** keeps the areas tight and remaps nothing. -/
theorem TightAreas.step {s s' : Sys ι} (hs : TightAreas s) {e : Event ι} (hcall : GrowCall s e)
    (hb : FromBoundary s e) (hnext : s.next e = some s') :
    TightAreas s' ∧ KeepsPages s s' e.proc := by
  suffices hgoal : TightAreas s' ∧ ∀ g, pagingPagePresent ((s.mm e.proc).pgd g) = true →
      (s'.mm e.proc).pgd g = (s.mm e.proc).pgd g ∨ Evicted s ((s'.mm e.proc).pgd g) from
    ⟨hgoal.1, keepsPages_of_tight hgoal.1 hgoal.2⟩
  have hs₀ := hs.start e
  have hrun := (Sys.next_eq_some hnext).2
  have hpgd : ((s.start e).mm e.proc).pgd = (s.mm e.proc).pgd := by
    rw [Sys.mm_start_self]
  obtain ⟨vma, h⟩ := hs₀ e.proc
  rw [← hpgd]
  -- a growth request that is made is one of those allowed
  have hgrow {req : ℤ × ℤ} (hreq : (s.start e).growReq e.proc e.inst = some req) {code : ℤ}
      {s₁ : Sys ι} (hinc : incVmaLimit (s.start e) e.proc req.1 req.2 = some (code, s₁)) :
      TightAreas s₁ ∧ ∀ g, pagingPagePresent (((s.start e).mm e.proc).pgd g) = true →
        (s₁.mm e.proc).pgd g = ((s.start e).mm e.proc).pgd g ∨
          Evicted (s.start e) ((s₁.mm e.proc).pgd g) := by
    have hcode : code = 0 := by
      have hobt := hb.1
      rw [Sys.obtains, hreq] at hobt
      simpa [hinc] using hobt
    subst hcode
    exact hs₀.grow (hcall.2 req hreq).1.le (hcall.2 req hreq).2 (hb.2 req hreq).1
      (hb.2 req hreq).2 hinc
  have hkind := hcall.1
  generalize e.inst = inst at hrun hgrow hkind
  cases inst with
  | alloc size regIndex =>
      have hr := run_alloc hrun
      obtain ⟨-, -, hcases⟩ := liballoc_cases h.toOneArea hr
      rcases hcases with ⟨r', -, heq'⟩ | ⟨hloop, code, s₁, hinc, heq'⟩
      · rw [heq']
        refine ⟨hs₀.setMm h ⟨rfl, h.vmId⟩ rfl rfl rfl, fun g _ => Or.inl ?_⟩
        rw [Sys.mm_setMm_self]
      · obtain ⟨hs₁, hkept⟩ := hgrow (Sys.growReq_alloc h.toOneArea hloop regIndex) hinc
        obtain ⟨vma₁, h₁⟩ := hs₁ e.proc
        rw [heq']
        refine ⟨hs₁.setMm h₁ ⟨h₁.mmap, h₁.vmId⟩ rfl rfl rfl, ?_⟩
        intro g hg
        rw [Sys.mm_setMm_self]
        exact hkept g hg
  | memmap regs =>
      obtain ⟨regs', hr⟩ := run_memmap hrun
      obtain ⟨a1, a2, a3⟩ := regs
      obtain rfl : a1 = sysmemIncOp := by simpa [IsGrowCall] using hkind
      rw [sysMemmap_inc] at hr
      obtain ⟨⟨code, s₁⟩, hinc, hr'⟩ := Option.map_eq_some_iff.mp hr
      obtain rfl : s₁ = s' := congrArg (fun r => r.2.1) hr'
      have hreq : (s.start e).growReq e.proc (.memmap ⟨sysmemIncOp, a2, a3⟩) =
          some (a2.toInt, a3.toInt) := by
        rw [Sys.growReq, if_pos rfl]
      exact hgrow hreq hinc
  | free regIndex => simp [IsGrowCall] at hkind
  | «calc» => simp [IsGrowCall] at hkind
  | read source offset => simp [IsGrowCall] at hkind
  | write data destination offset => simp [IsGrowCall] at hkind

end OsSim
