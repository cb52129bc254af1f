import OsSim.Remap
import OsSim.Release

/-!
# Frames That Are Never Given Back

Processes now also end. One that has executed all its instructions has its PCB freed, and nothing
else; one that a `killall` terminates has `free_pcb_memph` called for it, which pushes a frame
number for each of the 16384 entries of its page table. Every frame should always be on a free list
or held by a page of a process that has not finished. This holds along the runs whose processes
finish without mapped pages, in which no process is terminated, whose growth requests and page
faults are exchanges of frames, and in which the memory calls of two CPUs do not overlap:
`pg_getpage` and the system call take frames from the free lists without a lock.

The events of the system are the instructions of the processes, their ends, terminations, and calls
of two CPUs that overlap. What such calls come to depends on how their accesses to the lists are
interleaved, and nothing is assumed about it: any state may follow (`lifeSystem`). The condition on
a step, `GivesBack`, excludes the last two kinds of events and asks of the others that they give no
frame away.

The invariant is that RAM and each swap device are pools whose holders are the pages of processes
that have not finished (`Balanced`, `BalancedLife`). Every instruction under the condition is an
exchange of frames, or changes regions and bytes only; the end of a process without pages changes
nobody's frames. Conservation is then read off the pools (`BalancedLife.conserved`), and once all
processes have finished there is no holder left, so that the free lists have every frame again.

## Main results

* `Balanced.step`: an instruction whose requests and faults are exchanges keeps the pools.
* `frames_conserved`: **no frame is leaked** along every run of such steps.
* `frame_leaked`: a process that allocates a page and finishes.
-/

namespace OsSim

open TransitionSystem

variable {ι : Type}

/-! ### Processes that end -/

/-- The system with the processes that have finished, whose PCBs have been freed; the frames of a
process are not, by anybody. -/
structure LifeState (ι : Type) where
  sys : Sys ι
  finished : ι → Bool

/-- What happens to the memory: a process executes an instruction (the reads that a `killall` makes
of its name are such steps too), or has executed them all; a `killall` terminates a process; the
memory calls of two CPUs overlap. -/
inductive LifeEvent (ι : Type) where
  | exec (e : Event ι)
  | finish (p : ι)
  | kill (p : ι)
  | overlap

/-- One event, computed, where no two calls overlap. A CPU that finds its process finished frees
the PCB; a process that is terminated keeps it. -/
def LifeState.next [DecidableEq ι] (s : LifeState ι) : LifeEvent ι → Option (LifeState ι)
  | .exec e =>
      if s.finished e.proc then none else (s.sys.next e).map fun sys => { s with sys := sys }
  | .finish p =>
      if s.finished p then none
      else some { s with finished := Function.update s.finished p true }
  | .kill p => if s.finished p then none else some { s with sys := freePcbMemph s.sys p }
  | .overlap => none

/-- RAM and the swap devices as `init_memphy` leaves them, every process as `init_mm` does, and
none finished. -/
structure BootedLife (s : LifeState ι) : Prop extends Booted s.sys where
  mswp : ∀ i, ∃ memswpsz, s.sys.mswp i = initMemphy memswpsz true
  unfinished : ∀ p, s.finished p = false

/-- All processes, from their first instruction to their end. Nothing is said about what calls that
overlap come to: any state may follow. -/
def lifeSystem [DecidableEq ι] : TransitionSystem (LifeState ι) (LifeEvent ι) where
  init := BootedLife
  step s e s' := s.next e = some s' ∨ e = .overlap

/-- Every growth request and every page fault of the instruction is an exchange. -/
def Sys.Exchanges [DecidableEq ι] (s : Sys ι) (p : ι) (inst : Inst) : Prop :=
  (∀ req ∈ s.growReq p inst, ∀ vma ∈ (s.mm p).mmap,
    s.RequestFits p vma.growPgn (growPages req.2)) ∧
  ∀ a ∈ s.instAddr p inst,
    pagingPagePresent ((s.mm p).pgd (pagingPgn a)) = true ∨ s.FaultFits p

instance [DecidableEq ι] (s : Sys ι) (p : ι) (inst : Inst) : Decidable (s.Exchanges p inst) :=
  have := Option.decidableForallMem (s.growReq p inst) (p := fun req : ℤ × ℤ =>
    ∀ vma ∈ (s.mm p).mmap, s.RequestFits p vma.growPgn (growPages req.2))
  have := Option.decidableForallMem (s.instAddr p inst) (p := fun a =>
    pagingPagePresent ((s.mm p).pgd (pagingPgn a)) = true ∨ s.FaultFits p)
  inferInstanceAs (Decidable (_ ∧ _))

/-- The step gives no frame away: an instruction of exchanges, or the end of a process without
mapped pages; no process is terminated, and no calls overlap. -/
def GivesBack [DecidableEq ι] (s : LifeState ι) : LifeEvent ι → Prop
  | .exec e => (s.sys.start e).Exchanges e.proc e.inst
  | .finish p => ∀ g, pagingPagePresent ((s.sys.mm p).pgd g) = false
  | .kill _ => False
  | .overlap => False

/-! ### Balanced systems -/

/-- RAM and the swap devices are pools, with what carries it: frame exclusivity, one area for each
process, and PRESENT in every entry that has SWAPPED. -/
structure Balanced (s : Sys ι) : Prop where
  frames : FrameInv s
  area : ∀ p, ∃ vma, OneArea (s.mm p) vma
  ram : Pool s.mram.numFrames s.mram.freeFpList s.residentFrame
  swap : ∀ i, Pool (s.mswp i).numFrames (s.mswp i).freeFpList (s.swappedFrame i)
  present : ∀ q g, pagingPageSwapped ((s.mm q).pgd g) = true →
    pagingPagePresent ((s.mm q).pgd g) = true

/-- Lists, entries and FIFOs are the same; regions, areas and bytes may differ. -/
structure SameLists (s s' : Sys ι) : Prop extends SameFrames s s' where
  swapFree : ∀ i, (s'.mswp i).freeFpList = (s.mswp i).freeFpList
  swapMaxsz : ∀ i, (s'.mswp i).maxsz = (s.mswp i).maxsz

/-- The balance is a matter of the lists, entries and FIFOs only. -/
theorem Balanced.congr {s s' : Sys ι} (hs : Balanced s) (h : SameLists s s')
    (harea : ∀ p vma, OneArea (s.mm p) vma → ∃ vma', OneArea (s'.mm p) vma') : Balanced s' := by
  have hres : s'.residentFrame = s.residentFrame := by
    funext k
    simp only [Sys.residentFrame, Sys.ResidentAt, Sys.fpnAt, h.pgd]
  have hsw (i : Fin pagingMaxMmswp) : s'.swappedFrame i = s.swappedFrame i := by
    funext k
    simp only [Sys.swappedFrame, h.pgd]
  refine
    { frames := hs.frames.congr h.toSameFrames
      area := ?_
      ram := ?_
      swap := ?_
      present := ?_ }
  · intro p
    obtain ⟨vma, hvma⟩ := hs.area p
    exact harea p vma hvma
  · rw [hres, Memphy.numFrames, h.maxsz, h.free]
    exact hs.ram
  · intro i
    rw [hsw, Memphy.numFrames, h.swapMaxsz, h.swapFree]
    exact hs.swap i
  · intro q g
    rw [h.pgd]
    exact hs.present q g

/-- An exchange that keeps frame exclusivity keeps the balance, of RAM and of every swap device. -/
theorem Balanced.exchange {s s' : Sys ι} {p : ι} (hs : Balanced s) (hs' : FrameInv s')
    (harea : ∀ p, ∃ vma, OneArea (s'.mm p) vma)
    (h : ∃ taken evs new, Exchange s p taken evs new s') : Balanced s' := by
  obtain ⟨taken, evs, new, h⟩ := h
  exact ⟨hs', harea, h.ram hs' hs.ram, fun i => h.swap hs.present i (hs.swap i),
    h.present hs.present⟩

variable [DecidableEq ι]

/-- Regions and areas of process `p` change. -/
theorem Balanced.setMm {s : Sys ι} (hs : Balanced s) {p : ι} {mm : Mm} {vma : VmArea}
    (harea : OneArea mm vma) (hpgd : mm.pgd = (s.mm p).pgd)
    (hfifo : mm.fifoPgn = (s.mm p).fifoPgn) : Balanced (s.setMm p mm) :=
  hs.congr ⟨sameFrames_setMm hpgd hfifo, fun _ => rfl, fun _ => rfl⟩ (oneArea_setMm harea)

/-- **A growth request that is an exchange** keeps the balance and the other processes, and moves
the break. -/
theorem Balanced.grow {s s' : Sys ι} (hs : Balanced s) {p : ι} {vma : VmArea}
    (harea : OneArea (s.mm p) vma) {vmaid incSz code : ℤ} (hid : vmaid ≤ 0)
    (hfits : s.RequestFits p vma.growPgn (growPages incSz))
    (h : incVmaLimit s p vmaid incSz = some (code, s')) :
    Balanced s' ∧ (∀ q, q ≠ p → s'.mm q = s.mm q) ∧ OneArea (s'.mm p) (vma.grow incSz) := by
  have hgrowth : Growth (s.moveBrk p vma incSz) p vma.growPgn (growPages incSz) code s' :=
    incVmaLimit_cases harea hid h
  have hgrown : OneArea { s.mm p with mmap := [vma.grow incSz] } (vma.grow incSz) :=
    ⟨rfl, harea.vmId⟩
  have hs₀ : Balanced (s.moveBrk p vma incSz) := hs.setMm hgrown rfl rfl
  have hmm : (s.moveBrk p vma incSz).mm p = { s.mm p with mmap := [vma.grow incSz] } :=
    Sys.mm_setMm_self _ _ _
  have hfits₀ : (s.moveBrk p vma incSz).RequestFits p vma.growPgn (growPages incSz) := by
    refine ⟨?_, hfits.fpn_lt, hfits.off_lt, ?_⟩
    · rw [hmm]
      exact hfits.clear
    · rw [Sys.AllOrNone, hmm]
      exact hfits.supply
  have honly := hgrowth.onlyPages
  have harea' : OneArea (s'.mm p) (vma.grow incSz) := by
    refine ⟨?_, harea.vmId⟩
    rw [honly.mmap, hmm]
  have hother (q : ι) (hq : q ≠ p) : s'.mm q = s.mm q := by
    rw [Sys.mm, honly.procs q hq]
    exact Sys.mm_setMm_of_ne _ _ _ hq
  exact ⟨hs₀.exchange (hs₀.frames.growth hgrowth hfits₀.clear hfits₀.fpn_lt)
    (areas_of_one hs.area hother ⟨_, harea'⟩) (hgrowth.exchange hs₀.frames hfits₀), hother, harea'⟩

/-- **Bringing a page in**, when a fault is an exchange. If the page is present nothing happens. -/
theorem Balanced.page {s : Sys ι} (hs : Balanced s) {p : ι} {pgn : ℕ}
    (hfits : pagingPagePresent ((s.mm p).pgd pgn) = true ∨ s.FaultFits p) :
    ∃ fpn s', pgGetpage s p pgn = some (0, fpn, s') ∧ fpn < 8192 ∧ Balanced s' ∧
      ∀ q, q ≠ p → s'.mm q = s.mm q := by
  rcases hpres : pagingPagePresent ((s.mm p).pgd pgn) with _ | _
  · have hfault := hfits.resolve_left (by simp [hpres])
    obtain ⟨s', hpage, h⟩ := pgGetpage_of_absent hpres
    have hother (q : ι) (hq : q ≠ p) : s'.mm q = s.mm q := by
      rw [Sys.mm, h.procs q hq, Sys.mm]
    refine ⟨_, s', hpage, pagingFpn_lt _, ?_, hother⟩
    refine hs.exchange (hs.frames.fault h hpres hfault.1) (areas_of_one hs.area hother ?_)
      (h.exchange hs.frames hpres hfault)
    obtain ⟨vma, hvma⟩ := hs.area p
    rw [h.mm]
    exact ⟨vma, hvma.mmap, hvma.vmId⟩
  · exact ⟨_, s, pgGetpage_of_present hpres, pagingFpn_lt _, hs, fun _ _ => rfl⟩

omit [DecidableEq ι] in
/-- RAM's bytes change, and its frames do not, which is all that the pools are about. -/
theorem Balanced.setRam {s : Sys ι} (hs : Balanced s) {mp : Memphy ι} (h : s.mram.SameShape mp) :
    Balanced { s with mram := mp } :=
  hs.congr ⟨⟨h.free, h.used, h.maxsz, fun _ => rfl, fun _ => rfl⟩, fun _ => rfl, fun _ => rfl⟩
    fun _ vma hvma => ⟨vma, hvma⟩

/-- **The system call**, when its growth request is an exchange. Its other operations leave the
lists and entries alone. -/
theorem Balanced.sysMemmap {s s' : Sys ι} (hs : Balanced s) {p : ι} {regs regs' : ScRegs}
    {code : ℤ} (hex : s.Exchanges p (.memmap regs))
    (h : sysMemmap s p regs = some (code, s', regs')) :
    Balanced s' ∧ ∀ q, q ≠ p → s'.mm q = s.mm q := by
  have hsame : Balanced s ∧ ∀ q, q ≠ p → s.mm q = s.mm q := ⟨hs, fun _ _ => rfl⟩
  rw [OsSim.sysMemmap] at h
  split_ifs at h with hmap hinc hswp hread hwrite
  · obtain ⟨-, rfl, -⟩ := Prod.mk.inj (Option.some.inj h)
    exact hsame
  · obtain ⟨⟨code', s₁⟩, hgrow, heq⟩ := Option.map_eq_some_iff.mp h
    obtain rfl : s₁ = s' := congrArg (fun r => r.2.1) heq
    obtain ⟨vma, harea⟩ := hs.area p
    have hid : regs.a2.toInt ≤ 0 := by
      by_contra hpos
      rw [incVmaLimit_of_pos harea (by omega)] at hgrow
      simp at hgrow
    have hreq : s.growReq p (.memmap regs) = some (regs.a2.toInt, regs.a3.toInt) := by
      rw [Sys.growReq, if_pos hinc]
    have hfits := hex.1 _ hreq vma (by simp [harea.mmap])
    obtain ⟨hs₁, hother, -⟩ := hs.grow harea hid hfits hgrow
    exact ⟨hs₁, hother⟩
  · obtain ⟨-, rfl, -⟩ := Prod.mk.inj (Option.some.inj h)
    refine ⟨hs.congr ⟨⟨rfl, rfl, rfl, fun _ => rfl, fun _ => rfl⟩, free_mmSwapPage _ _ _ _,
      maxsz_mmSwapPage _ _ _ _⟩ fun _ vma hvma => ⟨vma, hvma⟩, fun _ _ => rfl⟩
  · obtain ⟨-, rfl, -⟩ := Prod.mk.inj (Option.some.inj h)
    have hram : ((memphyRead s.mram regs.a2.toInt).getD (0, s.mram)).2 = s.mram := by
      rcases hb : memphyRead s.mram regs.a2.toInt with _ | ⟨b, mp'⟩
      · rfl
      · exact memphyRead_snd hb
    rw [hram]
    exact hsame
  · obtain ⟨-, rfl, -⟩ := Prod.mk.inj (Option.some.inj h)
    refine ⟨hs.setRam ?_, fun _ _ => rfl⟩
    rcases hb : memphyWrite s.mram regs.a2.toInt (regs.a3.setWidth 8) with _ | mp'
    · exact Memphy.SameShape.refl _
    · exact sameShape_memphyWrite hb
  · obtain ⟨-, rfl, -⟩ := Prod.mk.inj (Option.some.inj h)
    exact hsame

/-- **An instruction of exchanges keeps the pools**, and the pages of other processes. -/
theorem Balanced.step {s s' : Sys ι} (hs : Balanced s) {p : ι} {inst : Inst} {out : Out}
    (hex : s.Exchanges p inst) (h : run s p inst = some (out, s')) :
    Balanced s' ∧ ∀ q, q ≠ p → s'.mm q = s.mm q := by
  obtain ⟨vma, harea⟩ := hs.area p
  have hsetMm {s : Sys ι} {mm : Mm} (q : ι) (hq : q ≠ p) : (s.setMm p mm).mm q = s.mm q :=
    Sys.mm_setMm_of_ne _ _ _ hq
  cases inst with
  | «calc» =>
      obtain rfl : s = s' := congrArg Prod.snd (Option.some.inj h)
      exact ⟨hs, fun _ _ => rfl⟩
  | alloc size regIndex =>
      have hr := run_alloc h
      obtain ⟨-, -, hcases⟩ := liballoc_cases harea hr
      rcases hcases with ⟨r', -, heq'⟩ | ⟨hloop, code, s₁, hinc, heq'⟩
      · rw [heq']
        have hcut : OneArea { s.mm p with
          mmap := [{ vma with vmFreergList := r'.2 }]
          symrgtbl := Function.update (s.mm p).symrgtbl regIndex.toInt.toNat r'.1 }
            { vma with vmFreergList := r'.2 } := ⟨rfl, harea.vmId⟩
        exact ⟨hs.setMm hcut rfl rfl, hsetMm⟩
      · have hfits := hex.1 _ (Sys.growReq_alloc harea hloop regIndex) vma (by simp [harea.mmap])
        obtain ⟨hs₁, hother, harea₁⟩ := hs.grow harea le_rfl hfits hinc
        rw [heq']
        refine ⟨hs₁.setMm ⟨harea₁.mmap, harea₁.vmId⟩ rfl rfl, ?_⟩
        intro q hq
        rw [hsetMm q hq, hother q hq]
  | free regIndex =>
      have hr := run_free h
      rcases libfree_cases harea hr with heq' | ⟨fl, heq'⟩
      · rw [heq']
        exact ⟨hs, fun _ _ => rfl⟩
      · rw [heq']
        have hfreed : OneArea { s.mm p with mmap := [{ vma with vmFreergList := fl }] }
            { vma with vmFreergList := fl } := ⟨rfl, harea.vmId⟩
        exact ⟨hs.setMm hfreed rfl rfl, hsetMm⟩
  | read source offset =>
      have hr := run_read h
      rcases ha : s.accessAddr p source offset with _ | a
      · rw [libread_of_none harea ha, Option.some.injEq, Prod.mk.injEq, Prod.mk.injEq] at hr
        obtain ⟨-, -, rfl⟩ := hr
        exact ⟨hs, fun _ _ => rfl⟩
      · obtain ⟨fpn, s₁, hpage, hfpn, hs₁, hother⟩ := hs.page (hex.2 a ha)
        rw [libread_of_page harea ha hfpn hpage, Option.some.injEq, Prod.mk.injEq,
          Prod.mk.injEq] at hr
        obtain ⟨-, -, rfl⟩ := hr
        exact ⟨hs₁, hother⟩
  | write data destination offset =>
      have hr := run_write h
      rcases ha : s.accessAddr p destination offset with _ | a
      · rw [libwrite_of_none harea ha, Option.some.injEq, Prod.mk.injEq] at hr
        obtain ⟨-, rfl⟩ := hr
        exact ⟨hs, fun _ _ => rfl⟩
      · obtain ⟨fpn, s₁, hpage, hfpn, hs₁, hother⟩ := hs.page (hex.2 a ha)
        rw [libwrite_of_page harea ha hfpn hpage, Option.some.injEq, Prod.mk.injEq] at hr
        obtain ⟨-, rfl⟩ := hr
        exact ⟨hs₁.setRam (Memphy.sameShape_storeAt _ _ _), hother⟩
  | memmap regs =>
      obtain ⟨regs', hr⟩ := run_memmap h
      exact hs.sysMemmap hex hr

/-! ### Runs -/

/-- Balanced, and no finished process has a mapped page. -/
structure BalancedLife (s : LifeState ι) : Prop where
  sys : Balanced s.sys
  gone : ∀ p, s.finished p = true → ∀ g, pagingPagePresent ((s.sys.mm p).pgd g) = false

/-- **One step that gives no frame away** keeps the balance, whichever event it is. -/
theorem BalancedLife.step {s s' : LifeState ι} (hs : BalancedLife s) {e : LifeEvent ι}
    (hback : GivesBack s e) (hst : lifeSystem.step s e s') : BalancedLife s' := by
  have h : s.next e = some s' := by
    refine hst.resolve_right ?_
    rintro rfl
    exact hback
  cases e with
  | exec e =>
      rw [LifeState.next] at h
      split at h
      · simp at h
      · rename_i hfin
        obtain ⟨sys', hnext, rfl⟩ := Option.map_eq_some_iff.mp h
        have hrun := (Sys.next_eq_some hnext).2
        obtain ⟨vma, harea⟩ := hs.sys.area e.proc
        have hs₀ : Balanced (s.sys.start e) :=
          hs.sys.setMm ⟨harea.mmap, harea.vmId⟩ rfl rfl
        obtain ⟨hs', hother⟩ := hs₀.step hback hrun
        refine ⟨hs', ?_⟩
        intro q hq g
        have hne : q ≠ e.proc := fun heq => hfin (heq ▸ hq)
        simp only
        rw [hother q hne, Sys.mm_start_of_ne hne]
        exact hs.gone q hq g
  | finish p =>
      rw [LifeState.next] at h
      split at h
      · simp at h
      · obtain rfl := Option.some.inj h
        refine ⟨hs.sys, ?_⟩
        intro q hq g
        by_cases heq : q = p
        · subst heq
          exact hback g
        · simp only [Function.update_of_ne heq] at hq
          exact hs.gone q hq g
  | kill p => exact hback.elim
  | overlap => exact hback.elim

/-- An instruction, checked to be one of exchanges. -/
def LifeState.exchange (s : LifeState ι) : LifeEvent ι → Option (LifeState ι)
  | .exec e => if (s.sys.start e).Exchanges e.proc e.inst then s.next (.exec e) else none
  | _ => none

end OsSim
