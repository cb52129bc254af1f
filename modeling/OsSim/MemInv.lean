import OsSim.Fault

/-!
# The Memory Invariant

Frame exclusivity together with the shape the rest of a process's memory keeps. Growth
requests that map fresh pages to frames an entry can hold, frees, page faults with a victim,
and accesses to resident pages preserve it, and what each of them leaves alone is the same.

`MemInv` adds to `FrameInv` that every process has its one area, that RAM is random access and that
the frames lie in it. It holds at the start and is kept by each call of the library under a
condition on the state before: a growth request must fit (`Sys.GrowthFits`: the pages are not
mapped, and the next frames have numbers that an entry can hold), and an access must be one that the
paging code can make (`Sys.Touchable`: the page is resident, or it is not mapped and there is a page
to evict). Both are decidable, so that they can be checked along a run.

`Effect s p s'` is the frame condition that all calls share: the other processes are left alone, a
page of `p` that is resident afterwards has its old entry or was not mapped before, and no page is
unmapped. Isolation of processes and the comparison with a flat memory are both proved from this
and from where the bytes of a call go (`MemInv.read`, `MemInv.write`), without another look at the
calls.

## Main results

* `memInv_of_booted`: the invariant at the start.
* `MemInv.grow`, `MemInv.liballoc`, `MemInv.libfree`, `MemInv.page`: **its preservation**, with
  what stays.
* `MemInv.write`: a write stores one byte, in a frame of its own process.
-/

namespace OsSim

variable {ι : Type}

/-! ### The invariant -/

/-- A process has no two areas. -/
theorem OneArea.unique {mm : Mm} {vma vma' : VmArea} (h : OneArea mm vma) (h' : OneArea mm vma') :
    vma = vma' := by
  have := h.mmap.symm.trans h'.mmap
  simpa using this

/-- The invariant of runs whose requests fit and whose accesses can be made: frame exclusivity, one
area for each process, and RAM as a random-access device that has all its frames. -/
structure MemInv (s : Sys ι) : Prop where
  frames : FrameInv s
  area : ∀ p, ∃ vma, OneArea (s.mm p) vma
  ram : s.mram.rdmflg = true

/-- The invariant at the start, where every frame is free and no page is mapped. -/
theorem memInv_of_booted {s : Sys ι} (h : Booted s) : MemInv s := by
  obtain ⟨⟨memramsz, hram⟩, hmm⟩ := h
  have hpte (p : ι) (g : ℕ) : (s.mm p).pgd g = 0 := by
    rw [hmm p]
    rfl
  have hnres (p : ι) (g : ℕ) : ¬ s.ResidentAt p g := by
    refine not_resident_of_absent ?_
    rw [hpte, pagingPagePresent_zero]
  have hused : s.mram.usedFpList = [] := by
    rw [hram, initMemphy_eq]
  have hall : s.mram.allFrames = s.mram.freeFpList := by
    simp [Memphy.allFrames, hused]
  refine ⟨?_, ?_, ?_⟩
  · exact
      { nodup := by
          rw [hall, hram, initMemphy_eq]
          exact List.nodup_range
        hasFrame := by
          intro f hf
          rw [hall] at hf
          rw [hram] at hf ⊢
          exact hasFrame_initMemphy hf
        used_lt := fun u hu => by simp [hused] at hu
        owned := fun p g hres => absurd hres (hnres p g)
        inj := fun p g q k hres => absurd hres (hnres p g)
        fifo_nodup := by
          intro p
          rw [hmm p]
          exact List.nodup_nil
        fifo_resident := by
          intro p g hg
          rw [hmm p] at hg
          simp [initMm] at hg }
  · intro p
    exact ⟨_, ⟨by rw [hmm p]; rfl, rfl⟩⟩
  · rw [hram, initMemphy_eq]

/-- Moving regions around, and bytes, keeps the invariant. -/
theorem MemInv.congr {s s' : Sys ι} (h : MemInv s) (hs : SameFrames s s')
    (hram : s'.mram.rdmflg = s.mram.rdmflg)
    (harea : ∀ p vma, OneArea (s.mm p) vma → ∃ vma', OneArea (s'.mm p) vma') : MemInv s' where
  frames := h.frames.congr hs
  area p := by
    obtain ⟨vma, hvma⟩ := h.area p
    exact harea p vma hvma
  ram := hram.trans h.ram

variable [DecidableEq ι]

/-! ### What a step leaves alone -/

/-- A step of process `p` leaves the other processes alone; a page of `p` that is resident
afterwards has its old entry or was not mapped; and no page is unmapped. -/
structure Effect (s : Sys ι) (p : ι) (s' : Sys ι) : Prop where
  rdmflg : s'.mram.rdmflg = s.mram.rdmflg
  maxsz : s'.mram.maxsz = s.mram.maxsz
  other : ∀ q, q ≠ p → s'.mm q = s.mm q
  page : ∀ g, s'.ResidentAt p g →
    (s'.mm p).pgd g = (s.mm p).pgd g ∨ pagingPagePresent ((s.mm p).pgd g) = false
  present : ∀ g, pagingPagePresent ((s.mm p).pgd g) = true →
    pagingPagePresent ((s'.mm p).pgd g) = true

omit [DecidableEq ι] in
/-- Doing nothing has this effect. -/
theorem Effect.refl (s : Sys ι) (p : ι) : Effect s p s :=
  ⟨rfl, rfl, fun _ _ => rfl, fun _ _ => Or.inl rfl, fun _ h => h⟩

/-- Replacing an `mm` by one with the same entries. -/
theorem effect_setMm {s : Sys ι} {p : ι} {mm : Mm} (hpgd : mm.pgd = (s.mm p).pgd) :
    Effect s p (s.setMm p mm) where
  rdmflg := rfl
  maxsz := rfl
  other _ hq := Sys.mm_setMm_of_ne _ _ _ hq
  page _ _ := Or.inl (by rw [Sys.mm_setMm_self, hpgd])
  present _ hg := by rwa [Sys.mm_setMm_self, hpgd]

/-- Replacing an `mm` keeps every process's one area, if it keeps that of `p`. -/
theorem oneArea_setMm {s : Sys ι} {p : ι} {mm : Mm} {vma : VmArea} (h : OneArea mm vma) (q : ι)
    (vma₁ : VmArea) (hq : OneArea (s.mm q) vma₁) : ∃ vma', OneArea ((s.setMm p mm).mm q) vma' := by
  by_cases heq : q = p
  · subst heq
    rw [Sys.mm_setMm_self]
    exact ⟨vma, h⟩
  · rw [Sys.mm_setMm_of_ne _ _ _ heq]
    exact ⟨vma₁, hq⟩

/-- Where one process changes, only its own area is to be looked at. -/
theorem areas_of_one {s s' : Sys ι} {p : ι} (harea : ∀ q, ∃ vma, OneArea (s.mm q) vma)
    (hother : ∀ q, q ≠ p → s'.mm q = s.mm q) (hone : ∃ vma, OneArea (s'.mm p) vma) (q : ι) :
    ∃ vma, OneArea (s'.mm q) vma := by
  by_cases hq : q = p
  · subst hq
    exact hone
  · rw [hother q hq]
    exact harea q

/-! ### Growth requests that fit -/

/-- The page where `inc_vma_limit` starts mapping: that of the end of the area, as an `int`. -/
def VmArea.growPgn (vma : VmArea) : ℕ := pagingPgn (BitVec.ofInt 32 (toInt vma.vmEnd))

/-- The number of pages `inc_vma_limit` maps: those of the aligned size, none if it is negative. -/
def growPages (incSz : ℤ) : ℕ := ((pagingPageAlignsz incSz).tdiv pagingPagesz).toNat

/-- The number of pages of a size that is no more than the address space, rounded up. -/
theorem growPages_eq {inc : ℤ} (hlo : 0 ≤ inc) (hhi : inc ≤ 4194304) :
    (growPages inc : ℤ) = (inc + 255) / 256 := by
  rw [growPages, pagingPageAlignsz_eq hlo (by omega)]
  simp only [pagingPagesz]
  rw [Int.tdiv_eq_ediv_of_nonneg (by omega)]
  omega

/-- The page number of an address below `2 ^ 31` that went through an `int`. -/
theorem pagingPgn_ofInt {n : ℕ} (h : n < 2147483648) :
    pagingPgn (BitVec.ofInt 32 (toInt n)) = n / 256 % 16384 := by
  rw [toInt_of_range (by omega) (by omega), BitVec.ofInt_natCast, pagingPgn_eq,
    BitVec.toNat_ofNat]
  omega

/-- From a page boundary, the pages mapped lie between the old end and the new one, and they are all
of these. -/
theorem VmArea.mem_range (vma : VmArea) {inc : ℤ} (hdvd : 256 ∣ vma.vmEnd) (hlo : 0 ≤ inc)
    (hhi : vma.vmEnd + inc ≤ 4194304) (g : ℕ) :
    (vma.growPgn ≤ g ∧ g < vma.growPgn + growPages inc) ↔
      vma.vmEnd ≤ 256 * g ∧ (256 * g : ℤ) < vma.vmEnd + inc := by
  have hpages := growPages_eq hlo (by omega)
  rw [VmArea.growPgn, pagingPgn_ofInt (by omega)]
  omega

/-- A growth request that fits: the pages it maps are not mapped yet, and the frames next in
line have numbers that an entry can hold. -/
def Sys.GrowthFits (s : Sys ι) (p : ι) (vma : VmArea) (incSz : ℤ) : Prop :=
  (∀ g, vma.growPgn ≤ g → g < vma.growPgn + growPages incSz →
    pagingPagePresent ((s.mm p).pgd g) = false) ∧
  ∀ f ∈ s.mram.freeFpList.take (growPages incSz), f < 8192

instance (s : Sys ι) (p : ι) (vma : VmArea) (incSz : ℤ) : Decidable (s.GrowthFits p vma incSz) :=
  inferInstanceAs (Decidable (_ ∧ _))

/-- **A growth request that fits keeps the invariant**, with any outcome, and has the effect of one.
-/
theorem MemInv.grow {s s' : Sys ι} (hs : MemInv s) {p : ι} {vma : VmArea}
    (harea : OneArea (s.mm p) vma) {vmaid incSz code : ℤ} (hid : vmaid ≤ 0)
    (hfits : s.GrowthFits p vma incSz) (h : incVmaLimit s p vmaid incSz = some (code, s')) :
    MemInv s' ∧ Effect s p s' ∧ OneArea (s'.mm p) (vma.grow incSz) := by
  have hgrowth : Growth (s.moveBrk p vma incSz) p vma.growPgn (growPages incSz) code s' :=
    incVmaLimit_cases harea hid h
  have hbrk : SameFrames s (s.moveBrk p vma incSz) := sameFrames_setMm rfl rfl
  have hframes := hs.frames.congr hbrk
  have honly := hgrowth.onlyPages
  have hother (q : ι) (hq : q ≠ p) : s'.mm q = s.mm q := by
    rw [Sys.mm, honly.procs q hq]
    exact Sys.mm_setMm_of_ne _ _ _ hq
  have harea' : OneArea (s'.mm p) (vma.grow incSz) := by
    refine ⟨?_, harea.vmId⟩
    rw [honly.mmap, Sys.moveBrk, Sys.mm_setMm_self]
  refine ⟨⟨?_, areas_of_one hs.area hother ⟨_, harea'⟩, honly.rdmflg.trans hs.ram⟩, ?_, harea'⟩
  · refine hframes.growth hgrowth ?_ hfits.2
    intro g hlo hhi
    rw [hbrk.pgd p]
    exact hfits.1 g hlo hhi
  · refine
      { rdmflg := honly.rdmflg
        maxsz := honly.maxsz
        other := hother
        page := ?_
        present := ?_ }
    · intro g hres
      by_cases hin : vma.growPgn ≤ g ∧ g < vma.growPgn + growPages incSz
      · exact Or.inr (hfits.1 g hin.1 hin.2)
      · left
        rw [← hbrk.pgd p]
        exact hgrowth.pgd_of_resident (hframes.fifo_nodup p) hin hres
    · intro g hg
      rw [← hbrk.pgd p] at hg
      exact hgrowth.present_mono (hframes.fifo_nodup p) hg

/-- A growth request maps only the pages of its range; what else is mapped afterwards was mapped
before. -/
theorem MemInv.present_of_grow {s s' : Sys ι} (hs : MemInv s) {p : ι} {vma : VmArea}
    (harea : OneArea (s.mm p) vma) {vmaid incSz code : ℤ} (hid : vmaid ≤ 0)
    (h : incVmaLimit s p vmaid incSz = some (code, s')) {g : ℕ}
    (hout : ¬ (vma.growPgn ≤ g ∧ g < vma.growPgn + growPages incSz))
    (hpres : pagingPagePresent ((s'.mm p).pgd g) = true) :
    pagingPagePresent ((s.mm p).pgd g) = true := by
  have hgrowth : Growth (s.moveBrk p vma incSz) p vma.growPgn (growPages incSz) code s' :=
    incVmaLimit_cases harea hid h
  have hbrk : SameFrames s (s.moveBrk p vma incSz) := sameFrames_setMm rfl rfl
  rw [← hbrk.pgd p]
  exact hgrowth.present_of_present (fun g hg => (hs.frames.congr hbrk).fifo_resident p g hg)
    hout hpres

/-- Growing stores nothing in RAM: the pages evicted are copied out of it. -/
theorem storage_incVmaLimit {s s' : Sys ι} {p : ι} {vma : VmArea} (harea : OneArea (s.mm p) vma)
    {vmaid incSz code : ℤ} (hid : vmaid ≤ 0)
    (h : incVmaLimit s p vmaid incSz = some (code, s')) : s'.mram.storage = s.mram.storage :=
  (incVmaLimit_cases harea hid h).onlyPages.storage

/-! ### Region calls -/

/-- An allocation that grows the area does so by a request that fits. -/
def Sys.AllocFits (s : Sys ι) (p : ι) (size : BitVec 32) : Prop :=
  ∀ vma ∈ (s.mm p).mmap, getFreeVmrgLoop vma.vmFreergList size.toInt = none →
    s.GrowthFits p vma (pagingPageAlignsz size.toInt)

instance (s : Sys ι) (p : ι) (size : BitVec 32) : Decidable (s.AllocFits p size) :=
  inferInstanceAs (Decidable (∀ _ ∈ _, _))

/-- **An allocation that fits keeps the invariant**, with any outcome, and stores nothing in
RAM. -/
theorem MemInv.liballoc {s s' : Sys ι} (hs : MemInv s) {p : ι} {size regIndex : BitVec 32}
    {ret : ℤ} (hfits : s.AllocFits p size) (h : liballoc s p size regIndex = some (ret, s')) :
    MemInv s' ∧ Effect s p s' ∧ s'.mram.storage = s.mram.storage := by
  obtain ⟨vma, harea⟩ := hs.area p
  obtain ⟨-, -, hcases⟩ := liballoc_cases harea h
  rcases hcases with ⟨r, -, rfl⟩ | ⟨hloop, code, s₁, hinc, rfl⟩
  · exact ⟨hs.congr (sameFrames_setMm rfl rfl) rfl (oneArea_setMm ⟨rfl, harea.vmId⟩),
      effect_setMm rfl, rfl⟩
  · have hmem : vma ∈ (s.mm p).mmap := by simp [harea.mmap]
    obtain ⟨hs₁, heff, harea₁⟩ := hs.grow harea le_rfl (hfits vma hmem hloop) hinc
    have hstorage := storage_incVmaLimit harea le_rfl hinc
    refine ⟨hs₁.congr (sameFrames_setMm rfl rfl) rfl (oneArea_setMm ⟨harea₁.mmap, harea₁.vmId⟩),
      ?_, hstorage⟩
    exact
      { rdmflg := heff.rdmflg
        maxsz := heff.maxsz
        other := fun q hq => by rw [Sys.mm_setMm_of_ne _ _ _ hq, heff.other q hq]
        page := by
          intro g hg
          rw [Sys.ResidentAt, Sys.mm_setMm_self] at hg
          rw [Sys.mm_setMm_self]
          exact heff.page g hg
        present := by
          intro g hg
          rw [Sys.mm_setMm_self]
          exact heff.present g hg }

/-- **Freeing keeps the invariant**, as it only moves a region to the free list. -/
theorem MemInv.libfree {s s' : Sys ι} (hs : MemInv s) {p : ι} {regIndex : BitVec 32} {ret : ℤ}
    (h : libfree s p regIndex = some (ret, s')) :
    MemInv s' ∧ Effect s p s' ∧ s'.mram = s.mram := by
  obtain ⟨vma, harea⟩ := hs.area p
  rcases libfree_cases harea h with rfl | ⟨fl, rfl⟩
  · exact ⟨hs, Effect.refl _ _, rfl⟩
  · exact ⟨hs.congr (sameFrames_setMm rfl rfl) rfl (oneArea_setMm ⟨rfl, harea.vmId⟩),
      effect_setMm rfl, rfl⟩

/-! ### Accesses -/

/-- An access the paging code can make: the page is resident, or it is not mapped and there is
a page to evict. -/
def Sys.Touchable (s : Sys ι) (p : ι) (a : BitVec 32) : Prop :=
  s.ResidentAt p (pagingPgn a) ∨
    pagingPagePresent ((s.mm p).pgd (pagingPgn a)) = false ∧ (s.mm p).fifoPgn ≠ []

omit [DecidableEq ι] in
instance (s : Sys ι) (p : ι) (a : BitVec 32) : Decidable (s.Touchable p a) :=
  inferInstanceAs (Decidable (_ ∨ _))

/-- The physical address that address `a` of process `p` stands for. -/
def Sys.phyAddr (s : Sys ι) (p : ι) (a : BitVec 32) : ℕ :=
  pagingPhyaddr (s.fpnAt p (pagingPgn a)) (pagingOffst a)

/-- **Bringing a page in keeps the invariant**; the page is resident afterwards, and if it was
before, nothing happens. -/
theorem MemInv.page {s : Sys ι} (hs : MemInv s) {p : ι} {a : BitVec 32}
    (ht : s.Touchable p a) :
    ∃ s₁, pgGetpage s p (pagingPgn a) = some (0, s₁.fpnAt p (pagingPgn a), s₁) ∧ MemInv s₁ ∧
      Effect s p s₁ ∧ s₁.ResidentAt p (pagingPgn a) ∧ s₁.mram = s.mram ∧
      (s.ResidentAt p (pagingPgn a) → s₁ = s) := by
  rcases ht with hres | ⟨habsent, hfifo⟩
  · exact ⟨s, pgGetpage_of_present hres.1, hs, Effect.refl _ _, hres, rfl, fun _ => rfl⟩
  · obtain ⟨s₁, hpage, hfault⟩ := pgGetpage_of_absent habsent
    set pgn := pagingPgn a
    have hother (q : ι) (hq : q ≠ p) : s₁.mm q = s.mm q := by
      rw [Sys.mm, hfault.procs q hq, Sys.mm]
    have hnew : (s₁.mm p).pgd pgn =
        pteSetFpn ((s.mm p).pgd pgn) (s.fpnAt p (s.mm p).victim.1) := by
      rw [hfault.mm, Mm.pgd_fault_self]
    refine ⟨s₁, ?_, ⟨hs.frames.fault hfault habsent hfifo, ?_, ?_⟩, ?_, ?_,
      hfault.mram, fun hres => absurd hres (not_resident_of_absent habsent)⟩
    · rw [hpage, Sys.fpnAt, Sys.fpnAt, hnew, pagingFpn_pteSetFpn _ (pagingFpn_lt _)]
    · intro q
      by_cases hq : q = p
      · subst hq
        obtain ⟨vma, hvma⟩ := hs.area q
        rw [hfault.mm]
        exact ⟨vma, hvma.mmap, hvma.vmId⟩
      · rw [hother q hq]
        exact hs.area q
    · rw [hfault.mram]
      exact hs.ram
    · refine
        { rdmflg := by rw [hfault.mram]
          maxsz := by rw [hfault.mram]
          other := hother
          page := ?_
          present := ?_ }
      · intro g hres
        by_cases hg : g = pgn
        · exact Or.inr (hg ▸ habsent)
        · rw [Sys.ResidentAt, hfault.mm] at hres
          rw [hfault.mm]
          by_cases hgv : g = (s.mm p).victim.1
          · subst hgv
            rw [Mm.pgd_fault_victim _ _ _ hg] at hres
            exact absurd hres (not_resident_pteSetSwap _ _ _)
          · exact Or.inl (Mm.pgd_fault_of_ne _ _ _ hg hgv)
      · intro g hg
        have hne : g ≠ pgn := by
          intro heq
          rw [heq, habsent] at hg
          exact Bool.false_ne_true hg
        rw [hfault.mm]
        by_cases hgv : g = (s.mm p).victim.1
        · subst hgv
          rw [Mm.pgd_fault_victim _ _ _ hne]
          exact pagingPagePresent_pteSetSwap _ _ _
        · rwa [Mm.pgd_fault_of_ne _ _ _ hne hgv]
    · rw [Sys.ResidentAt, hnew]
      exact resident_pteSetFpn _ _

omit [DecidableEq ι] in
/-- A resident page's bytes lie inside RAM, since its frame does. -/
theorem MemInv.phyAddr_lt {s : Sys ι} (hs : MemInv s) {p : ι} {a : BitVec 32}
    (hres : s.ResidentAt p (pagingPgn a)) : (s.phyAddr p a : ℤ) < s.mram.maxsz := by
  have hframe := hs.frames.hasFrame _ (hs.frames.fpnAt_mem hres)
  rw [Sys.phyAddr, pagingPhyaddr_eq, pagingOffst_eq]
  exact hframe.cellAddr_lt (by omega)

/-- **A read** of an address that can be accessed delivers the byte of the page brought in. -/
theorem MemInv.read {s : Sys ι} (hs : MemInv s) {p : ι} {source offset a : BitVec 32}
    (ha : s.accessAddr p source offset = some a) (ht : s.Touchable p a) :
    ∃ s₁, libread s p source offset =
        some (0, some ((s.mram.storage (s₁.phyAddr p a)).signExtend 32), s₁) ∧
      MemInv s₁ ∧ Effect s p s₁ ∧ s₁.mram = s.mram ∧
      (s.ResidentAt p (pagingPgn a) → s₁ = s) := by
  obtain ⟨vma, harea⟩ := hs.area p
  obtain ⟨s₁, hpage, hs₁, heff, hres, hram, hsame⟩ := hs.page ht
  refine ⟨s₁, ?_, hs₁, heff, hram, hsame⟩
  rw [libread_of_page harea ha (pagingFpn_lt _) hpage]
  have hlt := hs₁.phyAddr_lt hres
  rw [Sys.phyAddr] at hlt
  rw [Memphy.byteAt_of_lt hs₁.ram hlt, hram, Sys.phyAddr]

/-- **A write** stores one byte, in the frame of the page brought in. -/
theorem MemInv.write {s : Sys ι} (hs : MemInv s) {p : ι} {destination offset a : BitVec 32}
    (ha : s.accessAddr p destination offset = some a) (ht : s.Touchable p a) (data : Byte) :
    ∃ s₁ s', libwrite s p data destination offset = some (0, s') ∧
      s' = { s₁ with mram := s₁.mram.setCell (s₁.phyAddr p a) data } ∧ MemInv s₁ ∧
      s₁.ResidentAt p (pagingPgn a) ∧ Effect s p s₁ ∧ s₁.mram = s.mram ∧ MemInv s' := by
  obtain ⟨vma, harea⟩ := hs.area p
  obtain ⟨s₁, hpage, hs₁, heff, hres, hram, -⟩ := hs.page ht
  have hlt := hs₁.phyAddr_lt hres
  refine ⟨s₁, _, libwrite_of_page harea ha (pagingFpn_lt _) hpage data, ?_, hs₁, hres, heff, hram,
    ?_⟩
  · rw [← Memphy.storeAt_of_lt hs₁.ram hlt data]
    rfl
  · have hshape := s₁.mram.sameShape_storeAt
      (pagingPhyaddr (s₁.fpnAt p (pagingPgn a)) (pagingOffst a)) data
    exact hs₁.congr ⟨hshape.free, hshape.used, hshape.maxsz, fun _ => rfl, fun _ => rfl⟩
      hshape.rdmflg fun _ vma hvma => ⟨vma, hvma⟩

end OsSim
