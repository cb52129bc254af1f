import OsSim.AllocPages
import OsSim.MmVm

/-!
# Growing an Area

What a growth request does, from the loop of `vmap_page_range` up to `inc_vma_limit`: the
frames obtained are mapped one page after the other from the old end of the area on, the
newest frame at the lowest page; when they cannot all be obtained, none is mapped, and what
was taken and evicted on the way stays so.

`Growth s p pgn n code s'` is the inversion of the whole request. It has three cases: the frames
were obtained and mapped (code 0), there was no page left to evict, or a page but no swap frame for
it (code -1). In the two failing cases the state is that of the loop of `alloc_pages_range` where it
stopped. All that is said of growth requests further on is derived from these three cases, mostly by
`Growth.parts`, which has them in one form: some frames were obtained, the frames `fs` were mapped,
which are all of them or none, and the FIFO may have lost its last page.

The second part lists what every request leaves alone: the other processes, the regions, RAM's
bytes, and the pages outside the range, except that some of them may have been evicted. A page on
the FIFO may be in the range itself when a mapped page is mapped again, so that the lemmas about the
FIFO ask that it is not.

## Main results

* `vmapPages_mapped`: the entries and the FIFO after mapping.
* `vmMapRam_cases`, `incVmaLimit_cases`: **the outcomes of a growth request** (`Growth`).
* `pagingPageAlignsz_eq`: the aligned size.
-/

namespace OsSim

variable {ι : Type}

/-! ### Aligned sizes -/

/-- A conversion to `int` takes away a multiple of `2 ^ 32`. In this form it can be given to
`omega`. -/
theorem exists_toInt_eq (x : ℤ) : ∃ k : ℤ, toInt x = x - 4294967296 * k := by
  exact ⟨Int.bdiv x 4294967296, Int.bmod_eq_self_sub_mul_bdiv x 4294967296⟩

/-- What is converted to `int` is in its range, whatever it was before. -/
theorem toInt_lt (x : ℤ) : -2147483648 ≤ toInt x ∧ toInt x < 2147483648 := by
  have hlo := Int.le_bmod (x := x) (m := 4294967296) (by decide)
  have hhi := Int.bmod_lt (x := x) (m := 4294967296) (by decide)
  rw [toInt]
  omega

/-- An aligned size is a multiple of the page size, also where the addition in it overflows. -/
theorem dvd_pagingPageAlignsz (sz : ℤ) : (256 : ℤ) ∣ pagingPageAlignsz sz := by
  obtain ⟨k, hk⟩ :=
    exists_toInt_eq ((toInt (sz + pagingPagesz - 1)).tdiv pagingPagesz * pagingPagesz)
  rw [pagingPageAlignsz, hk]
  simp only [pagingPagesz]
  omega

/-- An aligned size is an `int`. -/
theorem pagingPageAlignsz_lt (sz : ℤ) :
    -2147483648 ≤ pagingPageAlignsz sz ∧ pagingPageAlignsz sz < 2147483648 :=
  toInt_lt _

/-- Without overflow the aligned size rounds up to the next page boundary. -/
theorem pagingPageAlignsz_eq {sz : ℤ} (hlo : 0 ≤ sz) (hhi : sz < 2147483136) :
    pagingPageAlignsz sz = (sz + 255) / 256 * 256 := by
  have hin : toInt (sz + pagingPagesz - 1) = sz + 255 := by
    simp only [pagingPagesz]
    rw [toInt_of_range (by omega) (by omega)]
    omega
  rw [pagingPageAlignsz, hin]
  simp only [pagingPagesz]
  rw [Int.tdiv_eq_ediv_of_nonneg (by omega), toInt_of_range (by omega) (by omega)]

/-! ### Mapping the frames -/

/-- `mm'` is `mm` with the frames `fs` mapped at the pages from `pgn` on. -/
structure Mapped (mm : Mm) (pgn : ℕ) (fs : List ℕ) (mm' : Mm) : Prop where
  pgd_in : ∀ j (hj : j < fs.length), mm'.pgd (pgn + j) = pteSetFpn (mm.pgd (pgn + j)) fs[j]
  pgd_out : ∀ g, ¬ (pgn ≤ g ∧ g < pgn + fs.length) → mm'.pgd g = mm.pgd g
  fifo : mm'.fifoPgn = (List.range' pgn fs.length).reverse ++ mm.fifoPgn
  rest : mm' = { mm with pgd := mm'.pgd, fifoPgn := mm'.fifoPgn }
  bound : fs ≠ [] → pgn + fs.length ≤ pagingMaxPgn

/-- Mapping no frame changes nothing: the list of frames has run out at once. -/
theorem mapped_nil (mm : Mm) (pgn : ℕ) : Mapped mm pgn [] mm where
  pgd_in _ hj := by simp at hj
  pgd_out _ _ := rfl
  fifo := by simp
  rest := rfl
  bound hne := absurd rfl hne

/-- The pages of the range are resident afterwards, whatever their entries were. -/
theorem Mapped.resident {mm mm' : Mm} {pgn : ℕ} {fs : List ℕ} (h : Mapped mm pgn fs mm') {g : ℕ}
    (hlo : pgn ≤ g) (hhi : g < pgn + fs.length) : Resident (mm'.pgd g) := by
  have hg := h.pgd_in (g - pgn) (by omega)
  rw [show pgn + (g - pgn) = g by omega] at hg
  rw [hg]
  exact resident_pteSetFpn _ _

/-- The loop of `vmap_page_range` maps the first `n` nodes of the list, which has to be long enough.
By induction on the pages left. -/
theorem vmapPages_mapped {n pgn : ℕ} {fs : List (Framephy ι)} {mm mm' : Mm}
    (hlen : n ≤ fs.length) (h : vmapPages n pgn fs mm = some mm') :
    Mapped mm pgn ((fs.take n).map Framephy.fpn) mm' := by
  induction n generalizing pgn fs mm with
  | zero =>
      obtain rfl : mm = mm' := Option.some.inj h
      exact
        { pgd_in := fun j hj => by simp at hj
          pgd_out := fun _ _ => rfl
          fifo := by simp
          rest := rfl
          bound := fun hne => by simp at hne }
  | succ n ih =>
      rcases fs with _ | ⟨fp, fps⟩
      · simp at hlen
      · rw [vmapPages] at h
        split at h
        · rename_i hpgn
          have hrec := ih (by simpa using hlen) h
          have hlen' : (List.map Framephy.fpn (List.take n fps)).length = n := by
            simpa using hlen
          have hlen'' : (List.map Framephy.fpn (List.take (n + 1) (fp :: fps))).length = n + 1 := by
            simpa using hlen
          refine
            { pgd_in := ?_
              pgd_out := ?_
              fifo := ?_
              rest := ?_
              bound := ?_ }
          · intro j hj
            rw [hlen''] at hj
            rcases j with _ | j
            · have hout := hrec.pgd_out pgn (by omega)
              simpa [Mm.pgd_setPte] using hout
            · have hin := hrec.pgd_in j (by omega)
              rw [show pgn + (j + 1) = pgn + 1 + j by omega]
              simpa [Mm.pgd_setPte, show pgn + 1 + j ≠ pgn by omega] using hin
          · intro g hg
            rw [hlen''] at hg
            have hout := hrec.pgd_out g (by omega)
            simpa [Mm.pgd_setPte, show g ≠ pgn by omega] using hout
          · rw [hrec.fifo, hlen', hlen'', List.range'_succ]
            simp [enlistPgnNode]
          · rw [hrec.rest]
            rfl
          · intro _
            rw [hlen'']
            rcases Nat.eq_zero_or_pos n with rfl | hpos
            · omega
            · have := hrec.bound (by
                intro hnil
                rw [hnil] at hlen'
                simp at hlen'
                omega)
              omega
        · simp at h

/-! ### Outcomes -/

variable [DecidableEq ι]

/-- The frame list of a request that succeeded, as `vmap_page_range` uses it. -/
theorem Obtained.mapped {s : Sys ι} {p : ι} {taken : List ℕ} {evs : List Eviction}
    {st : AllocState ι} (h : Obtained s p taken evs st) {pgn : ℕ} {mm mm' : Mm}
    (hmap : vmapPages (taken.length + evs.length) pgn st.frmLst mm = some mm') :
    Mapped mm pgn (frames taken evs).reverse mm' := by
  obtain ⟨tail, htail⟩ := h.nodes
  have htake : (st.frmLst.take (taken.length + evs.length)).map Framephy.fpn =
      (frames taken evs).reverse := by
    rw [htail, List.take_left' (by simp)]
    simp [Function.comp_def]
  rw [← htake]
  refine vmapPages_mapped ?_ hmap
  rw [htail]
  simp

/-- What a request to map `n` pages from page `pgn` on can come to. -/
inductive Growth (s : Sys ι) (p : ι) (pgn n : ℕ) : ℤ → Sys ι → Prop
  /-- The frames were obtained and mapped, the newest at the lowest page. -/
  | mapped (taken : List ℕ) (evs : List Eviction) (st : AllocState ι) (mm : Mm)
      (hlen : taken.length + evs.length = n) (hob : Obtained s p taken evs st)
      (hmap : Mapped (st.sys.mm p) pgn (frames taken evs).reverse mm) :
      Growth s p pgn n 0 (st.sys.setMm p mm)
  /-- There was no frame and no victim left. -/
  | noVictim (taken : List ℕ) (evs : List Eviction) (st : AllocState ι)
      (hlen : taken.length + evs.length < n) (hob : Obtained s p taken evs st)
      (hfree : st.sys.mram.freeFpList = []) (hfifo : (st.sys.mm p).fifoPgn = []) :
      Growth s p pgn n (-1) st.sys
  /-- There was no swap frame left; the victim `v` has left the FIFO. -/
  | noSwap (taken : List ℕ) (evs : List Eviction) (st : AllocState ι) (v : ℕ) (fifo : List ℕ)
      (hlen : taken.length + evs.length < n) (hob : Obtained s p taken evs st)
      (hfree : st.sys.mram.freeFpList = []) (hfifo : (st.sys.mm p).fifoPgn = fifo ++ [v])
      (hswap : ∀ i, (st.sys.mswp i).freeFpList = []) :
      Growth s p pgn n (-1) (st.sys.setMm p { st.sys.mm p with fifoPgn := fifo })

/-- The codes that a request can come to: 0, or -1 where no frames were obtained. -/
theorem Growth.code_eq {s s' : Sys ι} {p : ι} {pgn n : ℕ} {code : ℤ}
    (h : Growth s p pgn n code s') : code = 0 ∨ code = -1 := by
  cases h <;> simp

/-- **The outcomes of `vm_map_ram`**, for any number of pages. Its arguments about the area are not
used. -/
theorem vmMapRam_cases {s s' : Sys ι} {p : ι} {astart aend mapstart incpgnum code : ℤ}
    {rg rg' : VmRg}
    (h : vmMapRam s p astart aend mapstart incpgnum rg = some (code, rg', s')) :
    Growth s p (pagingPgn (BitVec.ofInt 32 mapstart)) incpgnum.toNat code s' := by
  rw [vmMapRam, allocPagesRange] at h
  rcases allocPages_obtained s p incpgnum.toNat with
    ⟨taken, evs, st, hlen, hob, hret⟩ | ⟨taken, evs, st, hlen, hob, hstop⟩
  · simp only [hret] at h
    rw [if_neg (by omega), if_neg (by omega), Option.map_eq_some_iff] at h
    obtain ⟨x, hx, heq⟩ := h
    rw [vmapPageRange, Option.map_eq_some_iff] at hx
    obtain ⟨mm, hmm, rfl⟩ := hx
    simp only [Prod.mk.injEq] at heq
    obtain ⟨rfl, -, rfl⟩ := heq
    exact Growth.mapped taken evs st mm hlen hob (hob.mapped (hlen ▸ hmm))
  · generalize hr : allocPages p incpgnum.toNat { sys := s, frmLst := [] } = r at h hstop
    cases hstop with
    | noVictim hfree hfifo =>
        rw [if_pos (by omega)] at h
        simp only [Option.some.injEq, Prod.mk.injEq] at h
        obtain ⟨rfl, -, rfl⟩ := h
        exact Growth.noVictim taken evs st hlen hob hfree hfifo
    | noSwap v fifo hfree hfifo hswap =>
        rw [if_neg (by omega), if_pos rfl] at h
        simp only [Option.some.injEq, Prod.mk.injEq] at h
        obtain ⟨rfl, -, rfl⟩ := h
        exact Growth.noSwap taken evs st v fifo hlen hob hfree hfifo hswap

/-! ### What a request leaves alone -/

/-- All outcomes in one form: frames were obtained, the frames `fs` (all of them or none)
were mapped, and the FIFO may have lost its last page. -/
theorem Growth.parts {s s' : Sys ι} {p : ι} {pgn n : ℕ} {code : ℤ}
    (h : Growth s p pgn n code s') :
    ∃ taken evs st fs mm fifo, Obtained s p taken evs st ∧
      taken.length + evs.length ≤ n ∧ fs.length ≤ n ∧
      (∀ f ∈ fs, f ∈ frames taken evs) ∧ ((frames taken evs).Nodup → fs.Nodup) ∧
      Mapped (st.sys.mm p) pgn fs mm ∧ fifo.Sublist mm.fifoPgn ∧
      s' = st.sys.setMm p { mm with fifoPgn := fifo } ∧
      (code = 0 → fs.length = n ∧ fifo = mm.fifoPgn) := by
  cases h with
  | mapped taken evs st mm hlen hob hmap =>
      refine ⟨taken, evs, st, (frames taken evs).reverse, mm, mm.fifoPgn, hob, hlen.le,
        by simp [hlen], fun f hf => List.mem_reverse.mp hf, List.nodup_reverse.mpr, hmap,
        List.Sublist.refl _, rfl, fun _ => ⟨by simp [hlen], rfl⟩⟩
  | noVictim taken evs st hlen hob hfree hfifo =>
      refine ⟨taken, evs, st, [], st.sys.mm p, (st.sys.mm p).fifoPgn, hob, hlen.le, by simp,
        by simp, by simp, mapped_nil _ _, List.Sublist.refl _, (Sys.setMm_mm _ _).symm, by simp⟩
  | noSwap taken evs st v fifo hlen hob hfree hfifo hswap =>
      refine ⟨taken, evs, st, [], st.sys.mm p, fifo, hob, hlen.le, by simp, by simp, by simp,
        mapped_nil _ _, ?_, rfl, by simp⟩
      rw [hfifo]
      exact List.sublist_append_left fifo [v]

/-- `s'` differs from `s` at most in the page table and the FIFO of process `p`, in RAM's two
frame lists, and in the swap devices. -/
structure OnlyPages (s : Sys ι) (p : ι) (s' : Sys ι) : Prop where
  storage : s'.mram.storage = s.mram.storage
  rdmflg : s'.mram.rdmflg = s.mram.rdmflg
  maxsz : s'.mram.maxsz = s.mram.maxsz
  procs : ∀ q, q ≠ p → s'.procs q = s.procs q
  mmap : (s'.mm p).mmap = (s.mm p).mmap
  symrgtbl : (s'.mm p).symrgtbl = (s.mm p).symrgtbl
  active : s'.active p = s.active p
  activeMswpId : (s'.procs p).activeMswpId = (s.procs p).activeMswpId

/-- A request has no other effects, whatever it comes to. -/
theorem Growth.onlyPages {s s' : Sys ι} {p : ι} {pgn n : ℕ} {code : ℤ}
    (h : Growth s p pgn n code s') : OnlyPages s p s' := by
  obtain ⟨taken, evs, st, fs, mm, fifo, hob, -, -, -, -, hmap, -, rfl, -⟩ := h.parts
  have hproc : st.sys.procs p = { s.procs p with mm := st.sys.mm p } := by
    rw [hob.procs, Function.update_self]
  exact
    { storage := by rw [Sys.mram_setMm, hob.mram]
      rdmflg := by rw [Sys.mram_setMm, hob.mram]
      maxsz := by rw [Sys.mram_setMm, hob.mram]
      procs := by
        intro q hq
        rw [Sys.procs_setMm_of_ne _ _ _ hq, hob.procs, Function.update_of_ne hq]
      mmap := by rw [Sys.mm_setMm_self, hmap.rest, hob.mm]
      symrgtbl := by rw [Sys.mm_setMm_self, hmap.rest, hob.mm]
      active := by rw [Sys.active_setMm, Sys.active, hproc, Sys.active]
      activeMswpId := by rw [Sys.activeMswpId_setMm, hproc] }

section Pages

variable {s s' : Sys ι} {p : ι} {pgn n : ℕ} {code : ℤ}

/-- A page outside the range that is resident afterwards has its old entry: an eviction would have
set SWAPPED. -/
theorem Growth.pgd_of_resident (h : Growth s p pgn n code s') (hnodup : (s.mm p).fifoPgn.Nodup)
    {g : ℕ} (hout : ¬ (pgn ≤ g ∧ g < pgn + n)) (hres : Resident ((s'.mm p).pgd g)) :
    (s'.mm p).pgd g = (s.mm p).pgd g := by
  obtain ⟨taken, evs, st, fs, mm, fifo, hob, -, hfs, -, -, hmap, -, rfl, -⟩ := h.parts
  simp only [Sys.mm_setMm_self] at hres ⊢
  rw [hmap.pgd_out g (by omega)] at hres ⊢
  by_cases hev : g ∈ evs.map Eviction.pgn
  · obtain ⟨e, he, rfl⟩ := List.mem_map.mp hev
    rw [hob.pgd_evicted hnodup e he] at hres
    exact absurd hres (not_resident_pteSetSwap _ _ _)
  · exact hob.pgd_other g hev

/-- A page outside the range that is mapped afterwards was mapped before: evictions are of mapped
pages. -/
theorem Growth.present_of_present (h : Growth s p pgn n code s')
    (hres : ∀ g ∈ (s.mm p).fifoPgn, Resident ((s.mm p).pgd g)) {g : ℕ}
    (hout : ¬ (pgn ≤ g ∧ g < pgn + n)) (hpres : pagingPagePresent ((s'.mm p).pgd g) = true) :
    pagingPagePresent ((s.mm p).pgd g) = true := by
  obtain ⟨taken, evs, st, fs, mm, fifo, hob, -, hfs, -, -, hmap, -, rfl, -⟩ := h.parts
  simp only [Sys.mm_setMm_self] at hpres
  rw [hmap.pgd_out g (by omega)] at hpres
  by_cases hev : g ∈ evs.map Eviction.pgn
  · refine (hres g ?_).1
    rw [hob.fifo]
    exact List.mem_append_right _ (List.mem_reverse.mpr hev)
  · rwa [hob.pgd_other g hev] at hpres

/-- A mapped page stays mapped, to a frame or to its swap frame. -/
theorem Growth.present_mono (h : Growth s p pgn n code s') (hnodup : (s.mm p).fifoPgn.Nodup)
    {g : ℕ} (hpres : pagingPagePresent ((s.mm p).pgd g) = true) :
    pagingPagePresent ((s'.mm p).pgd g) = true := by
  obtain ⟨taken, evs, st, fs, mm, fifo, hob, -, -, -, -, hmap, -, rfl, -⟩ := h.parts
  simp only [Sys.mm_setMm_self]
  by_cases hin : pgn ≤ g ∧ g < pgn + fs.length
  · exact (hmap.resident hin.1 hin.2).1
  · rw [hmap.pgd_out g hin]
    by_cases hev : g ∈ evs.map Eviction.pgn
    · obtain ⟨e, he, rfl⟩ := List.mem_map.mp hev
      rw [hob.pgd_evicted hnodup e he, pagingPagePresent_pteSetSwap]
    · rwa [hob.pgd_other g hev]

/-- After a growth that succeeded its pages are resident. -/
theorem Growth.resident_of_mem (h : Growth s p pgn n 0 s') {g : ℕ} (hlo : pgn ≤ g)
    (hhi : g < pgn + n) : Resident ((s'.mm p).pgd g) := by
  obtain ⟨taken, evs, st, fs, mm, fifo, -, -, -, -, -, hmap, -, rfl, hcode⟩ := h.parts
  rw [Sys.mm_setMm_self]
  exact hmap.resident hlo (by have := (hcode rfl).1; omega)

/-- The FIFO lists the new pages and old ones, each once, if none of the new ones was on it. -/
theorem Growth.fifo_nodup (h : Growth s p pgn n code s') (hnodup : (s.mm p).fifoPgn.Nodup)
    (hclear : ∀ g, pgn ≤ g → g < pgn + n → g ∉ (s.mm p).fifoPgn) :
    (s'.mm p).fifoPgn.Nodup := by
  obtain ⟨taken, evs, st, fs, mm, fifo, hob, -, hfs, -, -, hmap, hsub, rfl, -⟩ := h.parts
  rw [Sys.mm_setMm_self]
  refine List.Nodup.sublist hsub ?_
  rw [hob.fifo] at hnodup hclear
  rw [hmap.fifo, List.nodup_append]
  refine ⟨List.nodup_reverse.mpr List.nodup_range', (List.nodup_append.mp hnodup).1, ?_⟩
  rintro g hg _ hg' rfl
  rw [List.mem_reverse, List.mem_range'_1] at hg
  exact hclear g hg.1 (by omega) (List.mem_append_left _ hg')

/-- The pages on the FIFO are resident, if they were before: those evicted have left it. -/
theorem Growth.fifo_resident (h : Growth s p pgn n code s') (hnodup : (s.mm p).fifoPgn.Nodup)
    (hres : ∀ g ∈ (s.mm p).fifoPgn, Resident ((s.mm p).pgd g)) :
    ∀ g ∈ (s'.mm p).fifoPgn, Resident ((s'.mm p).pgd g) := by
  obtain ⟨taken, evs, st, fs, mm, fifo, hob, -, -, -, -, hmap, hsub, rfl, -⟩ := h.parts
  intro g hg
  rw [Sys.mm_setMm_self] at hg ⊢
  by_cases hin : pgn ≤ g ∧ g < pgn + fs.length
  · exact hmap.resident hin.1 hin.2
  · have hmem := hsub.subset hg
    rw [hmap.fifo, List.mem_append, List.mem_reverse, List.mem_range'_1] at hmem
    have hold := hmem.resolve_left hin
    rw [hob.fifo] at hnodup hres
    have hev : g ∉ evs.map Eviction.pgn := fun hev =>
      (List.nodup_append.mp hnodup).2.2 g hold g (List.mem_reverse.mpr hev) rfl
    simp only [hmap.pgd_out g hin, hob.pgd_other g hev]
    exact hres g (List.mem_append_left _ hold)

end Pages

/-! ### The area -/

/-- The one area of a process, which `init_mm` makes. No function adds another one. -/
structure OneArea (mm : Mm) (vma : VmArea) : Prop where
  mmap : mm.mmap = [vma]
  vmId : vma.vmId = 0

/-- The area is found for its id, and for every smaller one, since the walk stops at the first area
whose id is not below the one asked for. -/
theorem OneArea.derefVma {mm : Mm} {vma : VmArea} (h : OneArea mm vma) {vmaid : ℤ}
    (hid : vmaid ≤ 0) : derefVma mm vmaid = some (0, vma) := by
  have hnum : getVmaByNum mm vmaid = some (some 0) := by
    rw [getVmaByNum, h.mmap]
    simp only [getVmaLoop, h.vmId]
    rw [if_neg (by simp [toInt]; omega)]
    rfl
  simp [OsSim.derefVma, hnum, h.mmap]

/-- The area after its break has moved. Both ends wrap at `2 ^ 64`, and nothing bounds them. -/
def VmArea.grow (vma : VmArea) (incSz : ℤ) : VmArea :=
  { vma with vmEnd := toULong (vma.vmEnd + incSz), sbrk := toULong (vma.sbrk + incSz) }

/-- The system in which the frames are obtained: only the break has moved. -/
def Sys.moveBrk (s : Sys ι) (p : ι) (vma : VmArea) (incSz : ℤ) : Sys ι :=
  s.setMm p { s.mm p with mmap := [vma.grow incSz] }

/-- **The outcomes of `inc_vma_limit`**: those of the mapping, with the break moved before, whatever
the mapping comes to. -/
theorem incVmaLimit_cases {s s' : Sys ι} {p : ι} {vma : VmArea} (harea : OneArea (s.mm p) vma)
    {vmaid incSz code : ℤ} (hid : vmaid ≤ 0)
    (h : incVmaLimit s p vmaid incSz = some (code, s')) :
    Growth (s.moveBrk p vma incSz) p (pagingPgn (BitVec.ofInt 32 (toInt vma.vmEnd)))
      ((pagingPageAlignsz incSz).tdiv pagingPagesz).toNat code s' := by
  have hval : validateOverlapVmArea (s.mm p) vmaid (toInt vma.sbrk)
      (toInt (toULong (vma.sbrk + incSz))) = some 0 := by
    rw [validateOverlapVmArea, harea.mmap]
  simp only [incVmaLimit, getVmAreaNodeAtBrk, harea.derefVma hid, Option.bind_eq_bind,
    Option.bind_some, Option.pure_def, hval, lt_irrefl, if_false, harea.mmap] at h
  obtain ⟨⟨code', rg, s₁⟩, hr, hret⟩ := Option.bind_eq_some_iff.mp h
  have hgrowth := vmMapRam_cases hr
  have hs' : s' = s₁ ∧ code = if code' < 0 then -1 else 0 := by
    split_ifs at hret ⊢ <;> simp_all
  obtain ⟨rfl, hcode⟩ := hs'
  have hcode' : code = code' := by
    rcases hgrowth.code_eq with hr1 | hr1 <;> simp [hcode, hr1]
  rw [hcode']
  exact hgrowth

end OsSim
