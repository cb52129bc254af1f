import OsSim.Frames
import OsSim.Cpu

/-!
# Page Faults

What `pg_getpage` does for a page whose PRESENT bit is clear, in every state: the victim's
frame is given to the page, both copies go from RAM to the active swap device, and no code on
the way is looked at. With a page to evict, this keeps frame exclusivity.

A fault should bring the page in from where its entry says it is, and put the victim there where the
victim's entry then says it is. In the code it goes wrong in three ways. The second of the two
copies is to go from swap to RAM and goes from RAM to swap like the first one, as `__mm_swap_page`
knows no other direction. The victim's entry is written by `pte_set_swap`, which sets PRESENT, so
that the test for a fault never finds the victim missing. And the victim and the swap frame are used
whether or not there was one, with locals that nobody has set.

`Faulted s p pgn s'` describes the state after a fault completely, and `pgGetpage_of_absent` says
that every fault leads there, with code 0. What a correct fault would be is stated beside it
(`Serviceable` and `Served`, `Starved` and `Refused`), with the test that the code makes, so that it
is the code's own notion of a present page that is not met.

Frame exclusivity survives: a frame has changed hands between two pages of one process
(`FrameInv.fault`), provided that there was a page to evict.

## Main results

* `pgGetpage_of_present`, `pgGetpage_of_absent`: the two branches of `pg_getpage`.
* `FrameInv.fault`: a fault with a victim keeps the frame invariant.
* `pgGetpage_not_faultCorrect`: **no page fault is handled correctly**: whatever the state, the
  code is 0, and the victim still counts as present.
-/

namespace OsSim

variable {ι : Type} [DecidableEq ι]

/-- Setting PRESENT again after `pte_set_fpn` changes nothing. -/
theorem pteSetFpn_or_present (pte : BitVec 32) (fpn : ℕ) :
    pteSetFpn pte fpn ||| pagingPtePresentMask = pteSetFpn pte fpn := by
  have hpres := pagingPagePresent_pteSetFpn pte fpn
  rw [pagingPagePresent_eq] at hpres
  ext i hi
  rw [BitVec.getElem_or, ← BitVec.getLsbD_eq_getElem, ← BitVec.getLsbD_eq_getElem,
    pagingPtePresentMask, getLsbD_bit]
  by_cases h31 : i = 31
  · subst h31
    simp [hpres]
  · simp [Ne.symm h31]

/-! ### The two branches -/

/-- A page whose PRESENT bit is set is taken to be in the frame that its entry names, and nothing
happens. -/
theorem pgGetpage_of_present {s : Sys ι} {p : ι} {pgn : ℕ}
    (h : pagingPagePresent ((s.mm p).pgd pgn) = true) :
    pgGetpage s p pgn = some (0, s.fpnAt p pgn, s) := by
  rw [pgGetpage]
  simp only [h, if_true]
  rfl

/-- The page `find_victim_page` takes and the FIFO it leaves; page 0, an uninitialised local,
if there is none. -/
def Mm.victim (mm : Mm) : ℕ × List ℕ := (findVictimPage mm.fifoPgn).getD (0, mm.fifoPgn)

/-- The swap frame a fault takes; frame 0, an uninitialised local, if there is none. -/
def Sys.faultSlot (s : Sys ι) (p : ι) : ℕ := (s.mswp (s.active p)).freeFpList.head?.getD 0

/-- The `mm` after a fault on page `pgn`: the victim's entry names the swap frame `off`, the page's
has the victim's frame, and the page is the newest one in use. -/
def Mm.fault (mm : Mm) (pgn typ off : ℕ) : Mm :=
  { pgd := Function.update
      (Function.update mm.pgd mm.victim.1 (pteSetSwap (mm.pgd mm.victim.1) typ off))
      pgn (pteSetFpn (mm.pgd pgn) (pagingFpn (mm.pgd mm.victim.1)))
    mmap := mm.mmap
    symrgtbl := mm.symrgtbl
    fifoPgn := pgn :: mm.victim.2 }

section

variable (mm : Mm) {pgn : ℕ} (typ off : ℕ)

/-- The page's entry has the victim's frame. -/
theorem Mm.pgd_fault_self : (mm.fault pgn typ off).pgd pgn =
    pteSetFpn (mm.pgd pgn) (pagingFpn (mm.pgd mm.victim.1)) := by
  simp [Mm.fault]

/-- The victim's entry names the device and the swap frame, if the victim is another page. -/
theorem Mm.pgd_fault_victim (h : mm.victim.1 ≠ pgn) : (mm.fault pgn typ off).pgd mm.victim.1 =
    pteSetSwap (mm.pgd mm.victim.1) typ off := by
  simp [Mm.fault, h]

/-- The other entries are as they were. -/
theorem Mm.pgd_fault_of_ne {g : ℕ} (h : g ≠ pgn) (hv : g ≠ mm.victim.1) :
    (mm.fault pgn typ off).pgd g = mm.pgd g := by
  simp [Mm.fault, h, hv]

end

/-- `s'` is `s` after a fault of process `p` on page `pgn`. -/
structure Faulted (s : Sys ι) (p : ι) (pgn : ℕ) (s' : Sys ι) : Prop where
  mram : s'.mram = s.mram
  procs : ∀ q, q ≠ p → s'.procs q = s.procs q
  mm : s'.mm p = (s.mm p).fault pgn (s.procs p).activeMswpId (s.faultSlot p)
  active : s'.active p = s.active p
  activeMswpId : (s'.procs p).activeMswpId = (s.procs p).activeMswpId
  free : ∀ i, (s'.mswp i).freeFpList =
    if i = s.active p then (s.mswp i).freeFpList.tail else (s.mswp i).freeFpList
  maxsz : ∀ i, (s'.mswp i).maxsz = (s.mswp i).maxsz

/-- The system call for a copy to swap drops its code, too. -/
theorem sysMemmap_swp (s : Sys ι) (p : ι) (vicfpn swpfpn : BitVec 32) :
    sysMemmap s p ⟨sysmemSwpOp, vicfpn, swpfpn⟩ =
      some (0, mmSwapPage s p vicfpn.toInt swpfpn.toInt, ⟨sysmemSwpOp, vicfpn, swpfpn⟩) := by
  simp [sysMemmap, sysmemMapOp, sysmemIncOp, sysmemSwpOp]

section

variable (s : Sys ι) (p : ι) (vicfpn swpfpn : ℤ)

omit [DecidableEq ι] in
@[simp] theorem mram_mmSwapPage : (mmSwapPage s p vicfpn swpfpn).mram = s.mram := rfl

omit [DecidableEq ι] in
@[simp] theorem procs_mmSwapPage : (mmSwapPage s p vicfpn swpfpn).procs = s.procs := rfl

omit [DecidableEq ι] in
@[simp] theorem mm_mmSwapPage (q : ι) : (mmSwapPage s p vicfpn swpfpn).mm q = s.mm q := rfl

omit [DecidableEq ι] in
@[simp] theorem free_mmSwapPage (i : Fin pagingMaxMmswp) :
    ((mmSwapPage s p vicfpn swpfpn).mswp i).freeFpList = (s.mswp i).freeFpList := by
  rw [mmSwapPage, Sys.mswp_setMswp]
  split
  · rename_i hi
    subst hi
    exact (swapCpPage_shape _ _ _ _).free
  · rfl

omit [DecidableEq ι] in
@[simp] theorem maxsz_mmSwapPage (i : Fin pagingMaxMmswp) :
    ((mmSwapPage s p vicfpn swpfpn).mswp i).maxsz = (s.mswp i).maxsz := by
  rw [mmSwapPage, Sys.mswp_setMswp]
  split
  · rename_i hi
    subst hi
    exact (swapCpPage_shape _ _ _ _).maxsz
  · rfl

end

/-- The result of the call for a free swap frame, as `pg_getpage` uses it. -/
def Sys.faultSwp (s : Sys ι) (p : ι) : ℕ × Memphy ι :=
  (memphyGetFreefp (s.mswp (s.active p))).getD (0, s.mswp (s.active p))

omit [DecidableEq ι] in
/-- The swap frame of a fault, and what is left of the device: the frame is off its free list, and
the size is the same. -/
theorem Sys.faultSwp_eq (s : Sys ι) (p : ι) : (s.faultSwp p).1 = s.faultSlot p ∧
    (s.faultSwp p).2.freeFpList = (s.mswp (s.active p)).freeFpList.tail ∧
    (s.faultSwp p).2.maxsz = (s.mswp (s.active p)).maxsz := by
  rw [Sys.faultSwp, Sys.faultSlot]
  rcases hfree : (s.mswp (s.active p)).freeFpList with _ | ⟨off, rest⟩
  · simp [memphyGetFreefp, hfree]
  · simp [memphyGetFreefp, hfree]

/-- The system after the two copies of a fault: the victim has left the FIFO, and the swap
frame is taken. -/
def Sys.faultCopied (s : Sys ι) (p : ι) (pgn : ℕ) : Sys ι :=
  let s₁ := (s.setMm p { s.mm p with fifoPgn := (s.mm p).victim.2 }).setMswp (s.active p)
    (s.faultSwp p).2
  let vicfpn := BitVec.ofNat 32 (s.fpnAt p (s.mm p).victim.1)
  let s₂ := mmSwapPage s₁ p vicfpn.toInt (BitVec.ofNat 32 (s.faultSwp p).1).toInt
  mmSwapPage s₂ p (BitVec.ofNat 32 (pagingPteSwp ((s.mm p).pgd pgn))).toInt vicfpn.toInt

/-- **The fault branch**: it always succeeds, with the victim's frame. The two copies, the entries
and the FIFO are as `Faulted` says. -/
theorem pgGetpage_of_absent {s : Sys ι} {p : ι} {pgn : ℕ}
    (h : pagingPagePresent ((s.mm p).pgd pgn) = false) :
    ∃ s', pgGetpage s p pgn = some (0, s.fpnAt p (s.mm p).victim.1, s') ∧
      Faulted s p pgn s' := by
  have hfpn := pagingFpn_pteSetFpn ((s.mm p).pgd pgn)
    (pagingFpn_lt ((s.mm p).pgd (s.mm p).victim.1))
  refine ⟨(s.faultCopied p pgn).setMm p
    ((s.mm p).fault pgn (s.procs p).activeMswpId (s.faultSlot p)), ?_, ?_⟩
  · rw [← (s.faultSwp_eq p).1, pgGetpage]
    simp only [h, Bool.false_eq_true, if_false, sysMemmap_swp, Option.bind_eq_bind,
      Option.bind_some, ne_eq, not_true_eq_false, Sys.active_setMm, Sys.mswp_setMm,
      Sys.mm_setMswp, Sys.mm_setMm_self, mm_mmSwapPage, procs_mmSwapPage, Sys.procs_setMswp,
      Sys.activeMswpId_setMm, pteSetFpn_or_present, Option.pure_def]
    rw [← Mm.victim, ← Sys.faultSwp, hfpn]
    rfl
  · exact
      { mram := rfl
        procs := by
          intro q hq
          rw [Sys.procs_setMm_of_ne _ _ _ hq]
          exact Sys.procs_setMm_of_ne _ _ _ hq
        mm := Sys.mm_setMm_self _ _ _
        active := by
          rw [Sys.active_setMm]
          exact Sys.active_setMm _ _ _ _
        activeMswpId := by
          rw [Sys.activeMswpId_setMm]
          exact Sys.activeMswpId_setMm _ _ _ _
        free := by
          intro i
          rw [Sys.mswp_setMm, Sys.faultCopied]
          simp only [free_mmSwapPage, Sys.mswp_setMswp, Sys.mswp_setMm]
          split
          · rename_i hi
            rw [hi, (s.faultSwp_eq p).2.1]
          · rfl
        maxsz := by
          intro i
          rw [Sys.mswp_setMm, Sys.faultCopied]
          simp only [maxsz_mmSwapPage, Sys.mswp_setMswp, Sys.mswp_setMm]
          split
          · rename_i hi
            rw [hi, (s.faultSwp_eq p).2.2]
          · rfl }

/-! ### Frame exclusivity -/

/-- The victim, when there is one, is the last page of the FIFO, which is the one that was mapped
first. -/
theorem Mm.fifoPgn_eq {mm : Mm} (h : mm.fifoPgn ≠ []) :
    mm.fifoPgn = mm.victim.2 ++ [mm.victim.1] := by
  rw [Mm.victim]
  rcases hvic : findVictimPage mm.fifoPgn with _ | r
  · exact absurd (findVictimPage_eq_none.mp hvic) h
  · exact findVictimPage_eq_some hvic

/-- **A fault with a victim keeps the invariant**: the victim is not resident any more, and its
frame goes to the page, which was not. -/
theorem FrameInv.fault {s s' : Sys ι} {p : ι} {pgn : ℕ} (hs : FrameInv s)
    (h : Faulted s p pgn s') (habsent : pagingPagePresent ((s.mm p).pgd pgn) = false)
    (hfifo : (s.mm p).fifoPgn ≠ []) : FrameInv s' := by
  have hsplit := Mm.fifoPgn_eq hfifo
  have hvic : s.ResidentAt p (s.mm p).victim.1 := by
    refine hs.fifo_resident p _ ?_
    rw [hsplit]
    exact List.mem_append_right _ (List.mem_singleton_self _)
  set v := (s.mm p).victim.1
  have hne : v ≠ pgn := by
    intro heq
    rw [heq] at hvic
    exact not_resident_of_absent habsent hvic
  have hmm (q : ι) (hq : q ≠ p) : s'.mm q = s.mm q := by
    rw [Sys.mm, h.procs q hq, Sys.mm]
  have hnew : s'.fpnAt p pgn = s.fpnAt p v := by
    rw [Sys.fpnAt, h.mm, Mm.pgd_fault_self]
    exact pagingFpn_pteSetFpn _ (pagingFpn_lt _)
  -- a resident page is the faulted one or an old one other than the victim
  have hcases {q : ι} {g : ℕ} (hres : s'.ResidentAt q g) : (q = p ∧ g = pgn) ∨
      ((s'.mm q).pgd g = (s.mm q).pgd g ∧ ¬ (q = p ∧ g = v)) := by
    by_cases hq : q = p
    · subst hq
      by_cases hg : g = pgn
      · exact Or.inl ⟨rfl, hg⟩
      · right
        rw [Sys.ResidentAt, h.mm] at hres
        rw [h.mm]
        by_cases hgv : g = v
        · subst hgv
          rw [Mm.pgd_fault_victim _ _ _ hne] at hres
          exact absurd hres (not_resident_pteSetSwap _ _ _)
        · exact ⟨Mm.pgd_fault_of_ne _ _ _ hg hgv, fun hand => hgv hand.2⟩
    · exact Or.inr ⟨by rw [hmm q hq], fun hand => hq hand.1⟩
  have hnotmem : pgn ∉ (s.mm p).victim.2 := by
    intro hmem
    have hres := hs.fifo_resident p pgn (by rw [hsplit]; exact List.mem_append_left _ hmem)
    exact not_resident_of_absent habsent hres
  have hnodup := hs.fifo_nodup p
  rw [hsplit, List.nodup_append] at hnodup
  obtain ⟨howned, hinj⟩ := hs.holders (fun q g hres => (hcases hres).imp_right And.left)
    (by
      rintro q g ⟨rfl, rfl⟩
      rw [hnew]
      exact hs.owned q v hvic)
    (by
      rintro q g q' g' ⟨rfl, rfl⟩ hres' heq
      rcases hcases hres' with ⟨rfl, rfl⟩ | ⟨hold', hnv'⟩
      · exact ⟨rfl, rfl⟩
      · rw [Sys.ResidentAt, hold'] at hres'
        rw [hnew, Sys.fpnAt, Sys.fpnAt, hold'] at heq
        obtain ⟨rfl, rfl⟩ := hs.inj q v q' g' hvic hres' heq
        exact absurd ⟨rfl, rfl⟩ hnv')
  have hone : (s'.mm p).fifoPgn.Nodup := by
    rw [h.mm]
    exact List.nodup_cons.mpr ⟨hnotmem, hnodup.1⟩
  have hresident : ∀ g ∈ (s'.mm p).fifoPgn, s'.ResidentAt p g := by
    intro g hg
    rw [Sys.ResidentAt]
    rw [h.mm] at hg ⊢
    rcases List.mem_cons.mp hg with rfl | hg
    · rw [Mm.pgd_fault_self]
      exact resident_pteSetFpn _ _
    · have hgp : g ≠ pgn := ne_of_mem_of_not_mem hg hnotmem
      have hgv : g ≠ v := fun heq =>
        hnodup.2.2 g hg v (List.mem_singleton_self _) heq
      rw [Mm.pgd_fault_of_ne _ _ _ hgp hgv]
      exact hs.fifo_resident p g (by rw [hsplit]; exact List.mem_append_left _ hg)
  obtain ⟨hfifoNodup, hfifoResident⟩ := hs.fifo_of_one hmm hone hresident
  exact
    { nodup := h.mram ▸ hs.nodup
      hasFrame := h.mram ▸ hs.hasFrame
      used_lt := h.mram ▸ hs.used_lt
      owned := h.mram ▸ howned
      inj := hinj
      fifo_nodup := hfifoNodup
      fifo_resident := hfifoResident }

/-! ### What a page fault should do -/

/-- A fault that can be served: page `pgn` is not present, its entry names frame `off` of swap
device `typ`, the FIFO lists distinct resident pages, `v` being the oldest, and the active
device has a free frame. -/
structure Serviceable (s : Sys ι) (p : ι) (pgn : ℕ) (typ : Fin pagingMaxMmswp) (off v : ℕ)
    (fifo : List ℕ) : Prop where
  absent : pagingPagePresent ((s.mm p).pgd pgn) = false
  swptyp : pagingSwptyp ((s.mm p).pgd pgn) = typ
  swpoff : pagingPteSwp ((s.mm p).pgd pgn) = off
  stored : (s.mswp typ).HasFrame off
  oldest : (s.mm p).fifoPgn = fifo ++ [v]
  nodup : (s.mm p).fifoPgn.Nodup
  resident : ∀ g ∈ (s.mm p).fifoPgn, s.ResidentAt p g
  slot : (s.mswp (s.active p)).freeFpList ≠ []

/-- It is served: the page's bytes are in RAM frame `fpn` and the victim's in the swap frame
its entry names, the entries say so to the test that `pg_getpage` makes, and nothing happens
to any other page. -/
structure Served (s : Sys ι) (p : ι) (pgn : ℕ) (typ : Fin pagingMaxMmswp) (off v : ℕ)
    (fifo : List ℕ) (fpn : ℕ) (s' : Sys ι) : Prop where
  code : pgGetpage s p pgn = some (0, fpn, s')
  loaded : ∀ c < 256, s'.mram.cell fpn c = (s.mswp typ).cell off c
  victim_absent : pagingPagePresent ((s'.mm p).pgd v) = false
  victim_stored : ∃ i : Fin pagingMaxMmswp, pagingSwptyp ((s'.mm p).pgd v) = i ∧
    ∀ c < 256, (s'.mswp i).cell (pagingPteSwp ((s'.mm p).pgd v)) c =
      s.mram.cell (s.fpnAt p v) c
  resident : s'.ResidentAt p pgn ∧ s'.fpnAt p pgn = fpn
  other_pte : ∀ q g, ¬ (q = p ∧ (g = pgn ∨ g = v)) → (s'.mm q).pgd g = (s.mm q).pgd g
  other_ram : ∀ q g, ¬ (q = p ∧ (g = pgn ∨ g = v)) → s.ResidentAt q g →
    ∀ c < 256, s'.mram.cell (s.fpnAt q g) c = s.mram.cell (s.fpnAt q g) c
  other_swap : ∀ q g (i : Fin pagingMaxMmswp), ¬ (q = p ∧ (g = pgn ∨ g = v)) →
    pagingPageSwapped ((s.mm q).pgd g) = true → pagingSwptyp ((s.mm q).pgd g) = i →
    ∀ c < 256, (s'.mswp i).cell (pagingPteSwp ((s.mm q).pgd g)) c =
      (s.mswp i).cell (pagingPteSwp ((s.mm q).pgd g)) c
  fifo : (s'.mm p).fifoPgn = pgn :: fifo

/-- A fault that cannot be served: there is no page to evict, or no free frame on the active
device. -/
structure Starved (s : Sys ι) (p : ι) (pgn : ℕ) : Prop where
  absent : pagingPagePresent ((s.mm p).pgd pgn) = false
  short : (s.mm p).fifoPgn = [] ∨ (s.mswp (s.active p)).freeFpList = []

/-- It is refused: a code other than 0, and no change of the state. -/
def Refused (s : Sys ι) (p : ι) (pgn : ℕ) : Prop :=
  ∃ code fpn, pgGetpage s p pgn = some (code, fpn, s) ∧ code ≠ 0

/-- A page fault handled correctly: served when it can be, refused when it cannot. -/
structure FaultCorrect (s : Sys ι) (p : ι) (pgn : ℕ) : Prop where
  served : ∀ typ off v fifo, Serviceable s p pgn typ off v fifo →
    ∃ fpn s', Served s p pgn typ off v fifo fpn s'
  refused : Starved s p pgn → Refused s p pgn

/-- The victim's entry keeps PRESENT, so `pg_getpage` never faults on it again. One field of
`Served` is enough to see that. -/
theorem Serviceable.not_served {s s' : Sys ι} {p : ι} {pgn off v fpn : ℕ}
    {typ : Fin pagingMaxMmswp} {fifo : List ℕ} (h : Serviceable s p pgn typ off v fifo) :
    ¬ Served s p pgn typ off v fifo fpn s' := by
  intro hserved
  obtain ⟨s₁, hpage, hfault⟩ := pgGetpage_of_absent h.absent
  have hs' : s' = s₁ := by
    have := hserved.code.symm.trans hpage
    simp only [Option.some.injEq, Prod.mk.injEq] at this
    exact this.2.2
  have hv : (s.mm p).victim.1 = v := by
    rw [Mm.victim, h.oldest, findVictimPage_concat]
    rfl
  have hne : v ≠ pgn := by
    rintro rfl
    refine not_resident_of_absent h.absent (h.resident v ?_)
    rw [h.oldest]
    exact List.mem_append_right _ (List.mem_singleton_self _)
  have hpte := hserved.victim_absent
  rw [hs', hfault.mm, ← hv, Mm.pgd_fault_victim _ _ _ (by rwa [hv]),
    pagingPagePresent_pteSetSwap] at hpte
  exact Bool.false_ne_true hpte.symm

/-- The codes of `find_victim_page` and `MEMPHY_get_freefp` are not looked at, so that such a fault
returns 0 as well. -/
theorem Starved.not_refused {s : Sys ι} {p : ι} {pgn : ℕ} (h : Starved s p pgn) :
    ¬ Refused s p pgn := by
  rintro ⟨code, fpn, hcode, hne⟩
  obtain ⟨s₁, hpage, -⟩ := pgGetpage_of_absent h.absent
  rw [hpage] at hcode
  simp only [Option.some.injEq, Prod.mk.injEq] at hcode
  exact hne hcode.1.symm

/-- **No page fault is handled correctly**: one that could be served is not, and one that
could not is not refused. -/
theorem pgGetpage_not_faultCorrect {s : Sys ι} {p : ι} {pgn : ℕ}
    (h : (∃ typ off v fifo, Serviceable s p pgn typ off v fifo) ∨ Starved s p pgn) :
    ¬ FaultCorrect s p pgn := by
  intro hcorrect
  rcases h with ⟨typ, off, v, fifo, h⟩ | h
  · obtain ⟨fpn, s', hserved⟩ := hcorrect.served typ off v fifo h
    exact h.not_served hserved
  · exact h.not_refused (hcorrect.refused h)

/-- One process with page 0 resident and page 1 in frame 1 of the first swap device. -/
def faultDemo : Sys Unit where
  mram := initMemphy 256 true
  mswp _ := initMemphy 512 true
  procs _ :=
    { mm := { initMm with
        pgd := fun g => if g = 0 then 0x80000000 else if g = 1 then 0x40000020 else 0
        fifoPgn := [0] }
      activeMswp := 0
      activeMswpId := 0 }

/-- Page 1 of the demo could be served: there are a victim and a free swap frame for it. -/
theorem faultDemo_serviceable : Serviceable faultDemo () 1 0 1 0 [] where
  absent := by decide +kernel
  swptyp := by decide +kernel
  swpoff := by decide +kernel
  stored := by
    rw [Memphy.HasFrame]
    decide +kernel
  oldest := rfl
  nodup := by decide +kernel
  resident := by decide +kernel
  slot := by decide +kernel

/-- The theorem at a fault that could be served and at one without a page to evict. -/
theorem pgGetpage_not_faultCorrect_demo :
    ¬ FaultCorrect faultDemo () 1 ∧
      ¬ FaultCorrect (bootSys 256 (fun _ => 512) : Sys Unit) () 0 :=
  ⟨pgGetpage_not_faultCorrect (Or.inl ⟨0, 1, 0, [], faultDemo_serviceable⟩),
    pgGetpage_not_faultCorrect (Or.inr ⟨by decide +kernel, Or.inl rfl⟩)⟩

/-- The second page of the demo can be served and is not: its victim stays present. -/
theorem faultDemo_not_served : Serviceable faultDemo () 1 0 1 0 [] ∧
    ¬ ∃ fpn s', Served faultDemo () 1 0 1 0 [] fpn s' :=
  ⟨faultDemo_serviceable, fun ⟨_, _, h⟩ => faultDemo_serviceable.not_served h⟩

end OsSim
