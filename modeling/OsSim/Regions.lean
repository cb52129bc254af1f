import Mathlib
import OsSim.Runs

/-!
# Regions and the Area

The regions a process holds and the free ones should partition its area. They do not: the
first free region of `init_mm` covers a byte of an empty area, and a region that comes from
growing ends one byte behind the break, because `__alloc` stores the exclusive end where
`get_free_vmrg_area` reads an inclusive one.

The bytes of a region are those from its start to its end, both included, as the search of the free
list counts them. Which ids are live is not recorded by the code and is computed from the run. The
theorem here is about all runs of allocations and frees whose growth requests succeed: the partition
fails at the start of every process, and after every call that grows an area, whatever was done
before. So no reachable state can be found from which it holds for good, and a condition under which
growth keeps it does not exist.

What is used of the calls is only that each process keeps its one area (`OneAreas`), and what a
growing allocation records (`grown_region_outside`).

## Main results

* `grown_region_outside`: the region a growing allocation records reaches behind the break.
* `partition_never`: **no run keeps the partition**: the start breaks it, and so does every
  growth.
* `not_partitioned`: a first allocation of one page.
-/

namespace OsSim

open TransitionSystem

variable {ι : Type}

/-! ### The property -/

/-- The bytes of a region, read the way `get_free_vmrg_area` reads it, with both ends. -/
def VmRg.bytes (rg : VmRg) : Set ℕ := {a | rg.rgStart ≤ a ∧ a ≤ rg.rgEnd}

@[simp] theorem VmRg.mem_bytes {rg : VmRg} {a : ℕ} :
    a ∈ rg.bytes ↔ rg.rgStart ≤ a ∧ a ≤ rg.rgEnd := Iff.rfl

/-- The live regions and the free ones are pairwise disjoint, and together they are the bytes
from the start of the area to its break, which is its end. -/
structure Partitioned (mm : Mm) (vma : VmArea) (live : Set ℕ) : Prop where
  live_disjoint : ∀ i ∈ live, ∀ j ∈ live, i ≠ j →
    Disjoint (mm.symrgtbl i).bytes (mm.symrgtbl j).bytes
  free_disjoint : vma.vmFreergList.Pairwise fun r r' => Disjoint r.bytes r'.bytes
  live_free_disjoint : ∀ i ∈ live, ∀ r ∈ vma.vmFreergList,
    Disjoint (mm.symrgtbl i).bytes r.bytes
  union : ∀ a, (∃ i ∈ live, a ∈ (mm.symrgtbl i).bytes) ∨ (∃ r ∈ vma.vmFreergList, a ∈ r.bytes) ↔
    vma.vmStart ≤ a ∧ a < vma.sbrk
  end_eq : vma.sbrk = vma.vmEnd

variable [DecidableEq ι]

/-- The ids process `p` holds regions under after a run, as its calls say. -/
def live (as : List (Event ι)) (p : ι) : Set ℕ :=
  {i | ∃ id : BitVec 32, id.toNat = i ∧
    ((as.foldl heldNext fun _ _ => none) p id).isSome = true}

/-- The empty area of `init_mm` has a free region of one byte, which is not in it. -/
theorem not_partitioned_initMm {vma : VmArea} (harea : OneArea initMm vma) :
    ¬ Partitioned initMm vma ∅ := by
  intro h
  obtain rfl : vma = ⟨0, 0, 0, 0, [⟨0, 0⟩]⟩ := by
    have := harea.mmap
    simpa [initMm, enlistVmRgNode, initVmRg, toULong] using this.symm
  have hbyte := (h.union 0).mp (Or.inr ⟨⟨0, 0⟩, by simp, by simp⟩)
  exact absurd hbyte.2 (by simp)

/-! ### Growing -/

/-- **The region a growing allocation records** reaches one byte behind the break, as long as the
addresses are ones that an `int` holds. -/
theorem grown_region_outside {s s' : Sys ι} {p : ι} {vma : VmArea} (harea : OneArea (s.mm p) vma)
    {size regIndex : BitVec 32} {ret : ℤ} (hpos : 0 < pagingPageAlignsz size.toInt)
    (hspace : (vma.sbrk : ℤ) + pagingPageAlignsz size.toInt < 2147483648)
    (hgrows : getFreeVmrgLoop vma.vmFreergList size.toInt = none)
    (h : liballoc s p size regIndex = some (ret, s')) :
    ∃ vma', OneArea (s'.mm p) vma' ∧
      vma'.sbrk ∈ ((s'.mm p).symrgtbl regIndex.toInt.toNat).bytes := by
  obtain ⟨-, -, hcases⟩ := liballoc_cases harea h
  rcases hcases with ⟨r, hr, -⟩ | ⟨-, code, s₁, hinc, rfl⟩
  · rw [hgrows] at hr
    simp at hr
  · have honly := (incVmaLimit_cases harea le_rfl hinc).onlyPages
    generalize pagingPageAlignsz size.toInt = inc at *
    have hsbrk : toInt vma.sbrk = vma.sbrk := toInt_of_range (by omega) (by omega)
    have hend : toInt (vma.sbrk + inc) = vma.sbrk + inc :=
      toInt_of_range (by omega) (by omega)
    have hlo : (toULong (vma.sbrk : ℤ) : ℤ) = vma.sbrk :=
      toULong_of_range (by omega) (by omega)
    have hhi : (toULong (vma.sbrk + inc) : ℤ) = vma.sbrk + inc :=
      toULong_of_range (by omega) (by omega)
    refine ⟨vma.grow inc, ⟨?_, harea.vmId⟩, ?_⟩
    · rw [Sys.mm_setMm_self, honly.mmap, Sys.moveBrk, Sys.mm_setMm_self]
    · rw [Sys.mm_setMm_self]
      simp only [Function.update_self, VmRg.mem_bytes, hsbrk, hend, VmArea.grow]
      omega

/-! ### Runs -/

/-- The calls in question: allocations of 1 byte to 4 MB into a region of the table, whose
growth requests succeed, and frees. -/
def RegionCall (s : Sys ι) (e : Event ι) : Prop :=
  match e.inst with
  | .alloc size regIndex =>
      0 < size.toNat ∧ size.toNat ≤ 4194304 ∧ regIndex.toNat < pagingMaxSymtblSz ∧
        s.growthObtained e = true
  | .free _ => True
  | _ => False

instance (s : Sys ι) (e : Event ι) : Decidable (RegionCall s e) :=
  match e with
  | { inst := .alloc _ _, .. } => inferInstanceAs (Decidable (_ ∧ _))
  | { inst := .free _, .. } => inferInstanceAs (Decidable True)
  | { inst := .calc, .. } | { inst := .read _ _, .. } | { inst := .write _ _ _, .. }
  | { inst := .memmap _, .. } => inferInstanceAs (Decidable False)

/-- Every process has its one area, that of id 0. -/
def OneAreas (s : Sys ι) : Prop := ∀ p, ∃ vma, OneArea (s.mm p) vma

/-- Another `mm` for one process, with an area. -/
theorem OneAreas.setMm {s : Sys ι} (h : OneAreas s) {p : ι} {mm : Mm} {vma : VmArea}
    (harea : OneArea mm vma) : OneAreas (s.setMm p mm) := by
  intro q
  obtain ⟨vma', hvma'⟩ := h q
  exact oneArea_setMm harea q vma' hvma'

/-- The words behind a region table do not matter to it. -/
theorem OneAreas.start {s : Sys ι} (h : OneAreas s) (e : Event ι) : OneAreas (s.start e) := by
  obtain ⟨vma, harea⟩ := h e.proc
  exact h.setMm ⟨harea.mmap, harea.vmId⟩

/-- A region call keeps the areas, in whatever state the frames are. -/
theorem OneAreas.step {s s' : Sys ι} (h : OneAreas s) {e : Event ι} (hcall : RegionCall s e)
    (hnext : s.next e = some s') : OneAreas s' := by
  have hstart := h.start e
  obtain ⟨vma, harea⟩ := hstart e.proc
  have hrun := (Sys.next_eq_some hnext).2
  rw [RegionCall] at hcall
  generalize e.inst = inst at hcall hrun
  cases inst with
  | alloc size regIndex =>
      have hr := run_alloc hrun
      obtain ⟨-, -, hcases⟩ := liballoc_cases harea hr
      rcases hcases with ⟨r', -, heq'⟩ | ⟨-, code, s₁, hinc, heq'⟩
      · rw [heq']
        exact hstart.setMm ⟨rfl, harea.vmId⟩
      · have honly := (incVmaLimit_cases harea le_rfl hinc).onlyPages
        have hmmap : (s₁.mm e.proc).mmap = [vma.grow (pagingPageAlignsz size.toInt)] := by
          rw [honly.mmap, Sys.moveBrk, Sys.mm_setMm_self]
        have hs₁ : OneAreas s₁ := by
          intro q
          by_cases hq : q = e.proc
          · subst hq
            exact ⟨_, hmmap, harea.vmId⟩
          · rw [Sys.mm, honly.procs q hq, ← Sys.mm, Sys.moveBrk, Sys.mm_setMm_of_ne _ _ _ hq]
            exact hstart q
        rw [heq']
        exact hs₁.setMm ⟨hmmap, harea.vmId⟩
  | free regIndex =>
      have hr := run_free hrun
      rcases libfree_cases harea hr with heq' | ⟨fl, heq'⟩
      · rw [heq']
        exact hstart
      · rw [heq']
        exact hstart.setMm ⟨rfl, harea.vmId⟩
  | «calc» => exact hcall.elim
  | read source offset => exact hcall.elim
  | write data destination offset => exact hcall.elim
  | memmap regs => exact hcall.elim

/-- Every state of such a run has the areas. -/
theorem oneAreas_of_region_run {as : List (Event ι)} {s : Sys ι}
    (h : (memSystem.restrict RegionCall).Run as s) : OneAreas s := by
  refine h.invariant (fun s (hs : Booted s) p => ?_) fun s e s' hs hst => hs.step hst.1 hst.2
  rw [hs.mm p]
  exact ⟨_, rfl, rfl⟩

/-- A call grows the area, inside the addresses an `int` holds. -/
def Grows (s : Sys ι) (e : Event ι) : Prop :=
  match e.inst with
  | .alloc size _ => ∀ vma ∈ ((s.start e).mm e.proc).mmap,
      getFreeVmrgLoop vma.vmFreergList size.toInt = none ∧
        (vma.sbrk : ℤ) + pagingPageAlignsz size.toInt < 2147483648
  | _ => False

instance (s : Sys ι) (e : Event ι) : Decidable (Grows s e) :=
  match e with
  | { inst := .alloc _ _, .. } => inferInstanceAs (Decidable (∀ _ ∈ _, _))
  | { inst := .free _, .. } | { inst := .calc, .. } | { inst := .read _ _, .. }
  | { inst := .write _ _ _, .. } | { inst := .memmap _, .. } =>
      inferInstanceAs (Decidable False)

/-- An increment for 1 byte to 4 MB is positive. -/
theorem pagingPageAlignsz_pos {size : BitVec 32} (hpos : 0 < size.toNat)
    (hle : size.toNat ≤ 4194304) : 0 < pagingPageAlignsz size.toInt := by
  have hint : size.toInt = size.toNat := BitVec.toInt_eq_toNat_of_lt (by omega)
  rw [hint, pagingPageAlignsz_eq (by omega) (by omega)]
  omega

/-- **No run keeps the partition.** A process starts without it, and whatever came before, it
is broken after every call that grows the area. -/
theorem partition_never :
    (∀ (s : Sys ι) (p : ι) (vma : VmArea), Booted s → OneArea (s.mm p) vma →
      ¬ Partitioned (s.mm p) vma (live ([] : List (Event ι)) p)) ∧
    ∀ (as : List (Event ι)) (s s' : Sys ι) (e : Event ι) (vma' : VmArea),
      (memSystem.restrict RegionCall).Run as s → RegionCall s e → memSystem.step s e s' →
      Grows s e → OneArea (s'.mm e.proc) vma' →
      ¬ Partitioned (s'.mm e.proc) vma' (live (as ++ [e]) e.proc) := by
  refine ⟨?_, ?_⟩
  · intro s p vma hs harea hpart
    have hlive : live ([] : List (Event ι)) p = ∅ := by
      rw [Set.eq_empty_iff_forall_notMem]
      rintro i ⟨id, -, hid⟩
      simp at hid
    rw [hs.mm p] at harea hpart
    rw [hlive] at hpart
    exact not_partitioned_initMm harea hpart
  · intro as s s' e vma' hrun hcall hstep hgrows harea' hpart
    obtain ⟨vma, harea⟩ := (oneAreas_of_region_run hrun).start e e.proc
    have hrun' := (Sys.next_eq_some hstep).2
    rw [RegionCall] at hcall
    rw [Grows] at hgrows
    -- the id is live afterwards
    have hlive {size regIndex : BitVec 32} (hinst : e.inst = .alloc size regIndex) :
        regIndex.toNat ∈ live (as ++ [e]) e.proc :=
      ⟨regIndex, rfl, by simp [heldNext, hinst]⟩
    generalize e.inst = inst at *
    cases inst with
    | alloc size regIndex =>
        have hr := run_alloc hrun'
        obtain ⟨hloop, hspace⟩ := hgrows vma (by simp [harea.mmap])
        obtain ⟨vma'', harea'', hmem⟩ := grown_region_outside harea
          (pagingPageAlignsz_pos hcall.1 hcall.2.1) hspace hloop hr
        obtain rfl := harea''.unique harea'
        have hid : regIndex.toInt.toNat = regIndex.toNat := by
          have hlt : regIndex.toNat < 30 := hcall.2.2.1
          rw [BitVec.toInt_eq_toNat_of_lt (by omega), Int.toNat_natCast]
        rw [hid] at hmem
        have hbyte := (hpart.union vma''.sbrk).mp (Or.inl ⟨_, hlive rfl, hmem⟩)
        exact lt_irrefl _ hbyte.2
    | free regIndex => exact hgrows
    | «calc» => exact hgrows
    | read source offset => exact hgrows
    | write data destination offset => exact hgrows
    | memmap regs => exact hgrows

/-- A first allocation of one page, by a process that has mapped nothing. -/
def firstPage : Event Unit := ⟨(), ⟨0, 0⟩, .alloc 256 0, none, { stat := 0 }⟩

/-- The theorem at the start of a process and at its first allocation. -/
theorem partition_never_firstPage : ∃ (s' : Sys Unit) (vma' : VmArea),
    ¬ Partitioned initMm ⟨0, 0, 0, 0, [⟨0, 0⟩]⟩ (live ([] : List (Event Unit)) ()) ∧
      memSystem.step (bootSys 256 fun _ => 512) firstPage s' ∧ OneArea (s'.mm ()) vma' ∧
      ¬ Partitioned (s'.mm ()) vma' (live [firstPage] ()) := by
  have hnext : ((bootSys 256 fun _ => 512 : Sys Unit).next firstPage).isSome = true := by
    decide +kernel
  obtain ⟨s', hs'⟩ := Option.isSome_iff_exists.mp hnext
  have hboot : Booted (bootSys 256 fun _ => 512 : Sys Unit) := booted_bootSys 256 fun _ => 512
  have hcall : RegionCall (bootSys 256 fun _ => 512 : Sys Unit) firstPage := by decide +kernel
  have hgrows : Grows (bootSys 256 fun _ => 512 : Sys Unit) firstPage := by decide +kernel
  have hrun : (memSystem.restrict RegionCall).Run ([] : List (Event Unit))
      (bootSys 256 fun _ => 512) := Run.init hboot
  have hareas : OneAreas (bootSys 256 fun _ => 512 : Sys Unit) := oneAreas_of_region_run hrun
  obtain ⟨vma', harea'⟩ := hareas.step hcall hs' ()
  exact ⟨s', vma', partition_never.1 (bootSys 256 fun _ => 512) () _ hboot ⟨rfl, rfl⟩, hs',
    harea', partition_never.2 [] _ s' firstPage vma' hrun hcall hs' hgrows harea'⟩

/-- After it, byte 0 is live and free, and byte 256 behind the break is live. -/
theorem not_partitioned : ¬ ∀ (as : List (Event Unit)) (s : Sys Unit) (vma : VmArea),
    (memSystem.restrict RegionCall).Run as s → Disciplined (fun _ _ => none) as = true →
      OneArea (s.mm ()) vma → Partitioned (s.mm ()) vma (live as ()) := by
  intro hpartitioned
  have hnext : (([firstPage] : List (Event Unit)).foldlM
      (fun (s : Sys Unit) e => if RegionCall s e then s.next e else none)
      (bootSys 256 fun _ => 512)).map (fun s => ((s.mm ()).mmap, (s.mm ()).symrgtbl 0)) =
      some ([⟨0, 0, 256, 256, [⟨0, 0⟩]⟩], ⟨0, 256⟩) := by
    decide +kernel
  obtain ⟨s, hs, hvals⟩ := Option.map_eq_some_iff.mp hnext
  obtain ⟨hmmap, hrg⟩ := Prod.mk.inj hvals
  have hrun : (memSystem.restrict RegionCall).Run [firstPage] s :=
    Run.of_foldlM_restrict (fun _ _ _ h => h) (booted_bootSys 256 fun _ => 512) hs
  have hpart := hpartitioned _ s _ hrun (by decide) ⟨hmmap, rfl⟩
  have hlive : 0 ∈ live [firstPage] () := ⟨0, rfl, by decide⟩
  have hdisj := hpart.live_free_disjoint 0 hlive ⟨0, 0⟩ (by simp)
  rw [hrg] at hdisj
  exact Set.disjoint_left.mp hdisj (VmRg.mem_bytes.mpr ⟨le_refl 0, by decide⟩)
    (VmRg.mem_bytes.mpr ⟨le_refl 0, le_refl 0⟩)

end OsSim
