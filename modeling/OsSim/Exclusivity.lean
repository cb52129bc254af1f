import OsSim.Runs

/-!
# Frame Exclusivity

Allocating and freeing should never give one frame to two pages. Sizes are unsigned in
`liballoc` and signed below it, so a huge size moves the break back, and the next growth maps
pages that are mapped already; without such sizes every area only grows, over pages that are
not mapped yet.

`FrameInv.growth` keeps frame exclusivity where the pages to be mapped are not mapped. That they are
not is a matter of the area: if its break has only ever moved forward, by whole pages, then every
mapped page lies below its end (`AreaInv`), and a growth maps pages from the end on. The size of an
allocation is aligned in `int` arithmetic, so that its aligned value is negative for the sizes from
`2 ^ 31 - 255` to `2 ^ 32 - 511`; these are the ones that `Forward` excludes. The other bound, on
the size of RAM, is that frame numbers fit the field of an entry.

Exclusivity is stated with all its parts (`Exclusive`): no frame is free twice, or free and held, or
held twice; the FIFOs list resident pages, each once; and a frame that is held stands on the used
list once, with its holder as owner. All of them are read off the invariant.

## Main results

* `AreaInv.liballoc`: the shape of an area whose break only moves forward.
* `frame_exclusivity`: **frame exclusivity** along every run of forward allocations.
* `not_exclusive`: a run of three allocations after which one page is listed twice.
-/

namespace OsSim

open TransitionSystem

variable {ι : Type}

/-! ### The property -/

/-- No frame is listed free twice, or free and held; no frame is held twice; the FIFOs list
resident pages, each once; and every held frame is listed used once, by its holder. -/
structure Exclusive (s : Sys ι) : Prop where
  free_nodup : s.mram.freeFpList.Nodup
  not_free : ∀ p g, s.ResidentAt p g → s.fpnAt p g ∉ s.mram.freeFpList
  not_shared : ∀ p g q h, s.ResidentAt p g → s.ResidentAt q h → s.fpnAt p g = s.fpnAt q h →
    p = q ∧ g = h
  fifo_nodup : ∀ p, (s.mm p).fifoPgn.Nodup
  fifo_resident : ∀ p, ∀ g ∈ (s.mm p).fifoPgn, s.ResidentAt p g
  used_once : ∀ p g, s.ResidentAt p g →
    (s.mram.usedFpList.map Framephy.fpn).count (s.fpnAt p g) = 1
  owner : ∀ p g, s.ResidentAt p g → ⟨s.fpnAt p g, p⟩ ∈ s.mram.usedFpList

/-- The frame invariant has all of this, as its parts are stated of the same maps of frames. -/
theorem FrameInv.exclusive {s : Sys ι} (h : FrameInv s) : Exclusive s where
  free_nodup := (List.nodup_append.mp h.nodup).1
  not_free _ _ hres := h.fpnAt_not_free hres
  not_shared := h.inj
  fifo_nodup := h.fifo_nodup
  fifo_resident := h.fifo_resident
  used_once p g hres := List.count_eq_one_of_mem (List.nodup_append.mp h.nodup).2.1
    (List.mem_map.mpr ⟨_, h.owned p g hres, rfl⟩)
  owner := h.owned

/-! ### Areas that only grow -/

/-- The one area of a process whose break has only moved forward, by whole pages: no page
behind its end is mapped. -/
structure AreaInv (mm : Mm) (vma : VmArea) : Prop extends OneArea mm vma where
  aligned : 256 ∣ vma.vmEnd
  le : vma.vmEnd ≤ 4194304
  unmapped : ∀ g, vma.vmEnd ≤ 256 * g → pagingPagePresent (mm.pgd g) = false

/-- An allocation of `size` bytes that grows the area keeps the break inside the 4 MB. -/
def Sys.StaysInSpace (s : Sys ι) (p : ι) (size : BitVec 32) : Prop :=
  ∀ vma ∈ (s.mm p).mmap, getFreeVmrgLoop vma.vmFreergList size.toInt = none →
    0 ≤ vma.vmEnd + pagingPageAlignsz size.toInt ∧
      vma.vmEnd + pagingPageAlignsz size.toInt ≤ 4194304

/-- If it grows the area, it does so forward: the size is not negative as an `int`, up to
alignment. -/
def Sys.MovesForward (s : Sys ι) (p : ι) (size : BitVec 32) : Prop :=
  ∀ vma ∈ (s.mm p).mmap, getFreeVmrgLoop vma.vmFreergList size.toInt = none →
    0 ≤ pagingPageAlignsz size.toInt

instance (s : Sys ι) (p : ι) (size : BitVec 32) : Decidable (s.StaysInSpace p size) :=
  inferInstanceAs (Decidable (∀ _ ∈ _, _))

instance (s : Sys ι) (p : ι) (size : BitVec 32) : Decidable (s.MovesForward p size) :=
  inferInstanceAs (Decidable (∀ _ ∈ _, _))

variable [DecidableEq ι]

omit [DecidableEq ι] in
/-- A forward allocation inside the space fits, in a RAM of at most 2 MB: its pages lie behind the
mapped ones. -/
theorem AreaInv.allocFits {s : Sys ι} (hs : MemInv s) (hram : s.mram.maxsz ≤ 2097152) {p : ι}
    {vma : VmArea} (harea : AreaInv (s.mm p) vma) {size : BitVec 32}
    (hspace : s.StaysInSpace p size) (hfwd : s.MovesForward p size) : s.AllocFits p size := by
  intro vma' hmem hloop
  obtain rfl : vma' = vma := by simpa [harea.mmap] using hmem
  refine ⟨?_, ?_⟩
  · intro g hlo hhi
    refine harea.unmapped g ?_
    exact ((vma'.mem_range harea.aligned (hfwd vma' hmem hloop) (hspace vma' hmem hloop).2 g).mp
      ⟨hlo, hhi⟩).1
  · intro f hf
    have hframe := hs.frames.hasFrame f (List.mem_append_left _ (List.mem_of_mem_take hf))
    rw [Memphy.HasFrame] at hframe
    omega

/-- The area after a forward allocation: its break has moved forward, by whole pages, and what is
mapped lies below it. -/
theorem AreaInv.liballoc {s s' : Sys ι} (hs : MemInv s) {p : ι} {vma : VmArea}
    (harea : AreaInv (s.mm p) vma) {size regIndex : BitVec 32} {ret : ℤ}
    (hspace : s.StaysInSpace p size) (hfwd : s.MovesForward p size) (hfits : s.AllocFits p size)
    (h : liballoc s p size regIndex = some (ret, s')) : ∃ vma', AreaInv (s'.mm p) vma' := by
  have hmem : vma ∈ (s.mm p).mmap := by simp [harea.mmap]
  obtain ⟨-, -, hcases⟩ := liballoc_cases harea.toOneArea h
  rcases hcases with ⟨r, -, rfl⟩ | ⟨hloop, code, s₁, hinc, rfl⟩
  · rw [Sys.mm_setMm_self]
    exact ⟨_, ⟨rfl, harea.vmId⟩, harea.aligned, harea.le, harea.unmapped⟩
  · have hinc0 := hfwd vma hmem hloop
    have hle := (hspace vma hmem hloop).2
    have hdvd := dvd_pagingPageAlignsz size.toInt
    have hfits' := hfits vma hmem
    generalize pagingPageAlignsz size.toInt = inc at *
    have hal := harea.aligned
    have hend : ((vma.grow inc).vmEnd : ℤ) = vma.vmEnd + inc :=
      toULong_of_range (by omega) (by omega)
    obtain ⟨-, -, harea₁⟩ := hs.grow harea.toOneArea le_rfl (hfits' hloop) hinc
    rw [Sys.mm_setMm_self]
    refine ⟨vma.grow inc, ⟨harea₁.mmap, harea₁.vmId⟩, by omega, by omega, ?_⟩
    intro g hg
    by_contra hpres
    rw [Bool.not_eq_false] at hpres
    have hout : ¬ (vma.growPgn ≤ g ∧ g < vma.growPgn + growPages inc) := by
      intro hin
      have := ((vma.mem_range harea.aligned hinc0 hle g).mp hin).2
      omega
    have hold := hs.present_of_grow harea.toOneArea le_rfl hinc hout hpres
    rw [harea.unmapped g (by omega)] at hold
    exact Bool.false_ne_true hold

/-! ### Runs -/

/-- Every process's area has only grown, and the memory invariant holds: the invariant of the runs
that meet the condition. -/
structure ForwardInv (s : Sys ι) : Prop where
  mem : MemInv s
  area : ∀ p, ∃ vma, AreaInv (s.mm p) vma

/-- RAM has at most 2 MB, which is 8192 frames: as many as an entry can tell apart. -/
def SmallRam (s : Sys ι) : Prop := s.mram.maxsz ≤ 2097152

/-- The calls in question: allocations of a positive size into a region of the table that
keep the break inside the space, and frees. -/
def AllocOrFree (s : Sys ι) (e : Event ι) : Prop :=
  match e.inst with
  | .alloc size regIndex =>
      0 < size ∧ regIndex.toNat < pagingMaxSymtblSz ∧ (s.start e).StaysInSpace e.proc size
  | .free _ => True
  | _ => False

/-- An allocation that grows the area does so forward: its aligned size, as an `int`, is not
negative. -/
def Forward (s : Sys ι) (e : Event ι) : Prop :=
  match e.inst with
  | .alloc size _ => (s.start e).MovesForward e.proc size
  | _ => True

instance (s : Sys ι) : Decidable (SmallRam s) := inferInstanceAs (Decidable (_ ≤ _))

instance (s : Sys ι) (e : Event ι) : Decidable (AllocOrFree s e) := by
  rw [AllocOrFree]
  split <;> infer_instance

instance (s : Sys ι) (e : Event ι) : Decidable (Forward s e) := by
  rw [Forward]
  split <;> infer_instance

omit [DecidableEq ι] in
/-- At the start the areas are empty and nothing is mapped. -/
theorem forwardInv_of_booted {s : Sys ι} (h : Booted s) : ForwardInv s := by
  refine ⟨memInv_of_booted h, ?_⟩
  intro p
  rw [h.mm p]
  exact ⟨_, ⟨rfl, rfl⟩, dvd_zero 256, Nat.zero_le _, fun _ _ => pagingPagePresent_zero⟩

/-- The words behind a region table do not matter to it. -/
theorem ForwardInv.start {s : Sys ι} (hs : ForwardInv s) (e : Event ι) :
    ForwardInv (s.start e) := by
  refine ⟨hs.mem.setBehind e.proc e.behind, ?_⟩
  intro q
  obtain ⟨vma, harea⟩ := hs.area q
  by_cases hq : q = e.proc
  · subst hq
    rw [Sys.mm_start_self]
    exact ⟨vma, ⟨harea.mmap, harea.vmId⟩, harea.aligned, harea.le, harea.unmapped⟩
  · rw [Sys.mm_start_of_ne hq]
    exact ⟨vma, harea⟩

/-- **One call** in a small RAM that grows areas forward only keeps the invariant. -/
theorem ForwardInv.step {s s' : Sys ι} (hs : ForwardInv s) {e : Event ι} (hram : SmallRam s)
    (hcall : AllocOrFree s e) (hfwd : Forward s e) (hnext : s.next e = some s') :
    ForwardInv s' := by
  have hs₀ := hs.start e
  have hrun := (Sys.next_eq_some hnext).2
  obtain ⟨vma, harea⟩ := hs₀.area e.proc
  rw [AllocOrFree] at hcall
  rw [Forward] at hfwd
  generalize e.inst = inst at hcall hfwd hrun
  cases inst with
  | alloc size regIndex =>
      have hfits := harea.allocFits hs₀.mem hram hcall.2.2 hfwd
      have hsafe : (s.start e).Safe e.proc (.alloc size regIndex) := hfits
      obtain ⟨hmem, heff, -⟩ := hs₀.mem.step hsafe hrun
      refine ⟨hmem, ?_⟩
      intro q
      by_cases hq : q = e.proc
      · subst hq
        have hr := run_alloc hrun
        exact harea.liballoc hs₀.mem hcall.2.2 hfwd hfits hr
      · rw [heff.other q hq]
        exact hs₀.area q
  | free regIndex =>
      have hsafe : (s.start e).Safe e.proc (.free regIndex) := trivial
      obtain ⟨hmem, heff, -⟩ := hs₀.mem.step hsafe hrun
      refine ⟨hmem, ?_⟩
      intro q
      by_cases hq : q = e.proc
      · subst hq
        have hr := run_free hrun
        rcases libfree_cases harea.toOneArea hr with heq' | ⟨fl, heq'⟩
        · rw [heq']
          exact ⟨vma, harea⟩
        · rw [heq', Sys.mm_setMm_self]
          exact ⟨_, ⟨rfl, harea.vmId⟩, harea.aligned, harea.le, harea.unmapped⟩
      · rw [heff.other q hq]
        exact hs₀.area q
  | «calc» => exact hcall.elim
  | read source offset => exact hcall.elim
  | write data destination offset => exact hcall.elim
  | memmap regs => exact hcall.elim

/-- **Frame exclusivity** in every state of every run of allocations and frees, by any number
of processes in any order, whose growing allocations go forward. -/
theorem frame_exclusivity {as : List (Event ι)} {s : Sys ι}
    (h : (memSystem.restrict fun s e => SmallRam s ∧ AllocOrFree s e ∧ Forward s e).Run as s) :
    Exclusive s := by
  have hinv : ForwardInv s := by
    refine h.invariant (fun s (hs : Booted s) => forwardInv_of_booted hs) ?_
    rintro s e s' hs ⟨⟨hram, hcall, hfwd⟩, hnext⟩
    exact hs.step hram hcall hfwd hnext
  exact hinv.mem.frames.exclusive

/-- Two processes fill a RAM of two frames; the second frees its region, and the first allocates
another page, for which its own first page is evicted. -/
def evictAfterFree : List (Event Bool) :=
  [ ⟨false, ⟨0, 0⟩, .alloc 256 0, none, { stat := 0 }⟩,
    ⟨true, ⟨0, 0⟩, .alloc 256 0, none, { stat := 0 }⟩,
    ⟨true, ⟨0, 0⟩, .free 0, none, { stat := 0 }⟩,
    ⟨false, ⟨0, 0⟩, .alloc 256 1, none, { stat := 0 }⟩ ]

/-- In the last state the first process has its second page only, in the frame of the first one, and
every part of exclusivity holds. -/
theorem frame_exclusivity_evictAfterFree : ∃ s : Sys Bool,
    (memSystem.restrict fun s e => SmallRam s ∧ AllocOrFree s e ∧ Forward s e).Run
      evictAfterFree s ∧ (s.mm false).fifoPgn = [1] ∧ Exclusive s := by
  have hruns : (evictAfterFree.foldlM (fun (s : Sys Bool) e =>
      if SmallRam s ∧ AllocOrFree s e ∧ Forward s e then s.next e else none)
      (bootSys 512 fun _ => 512)).map (fun s => (s.mm false).fifoPgn) = some [1] := by
    decide +kernel
  obtain ⟨s, hs, hfifo⟩ := Option.map_eq_some_iff.mp hruns
  have hrun : (memSystem.restrict fun s e => SmallRam s ∧ AllocOrFree s e ∧ Forward s e).Run
      evictAfterFree s :=
    Run.of_foldlM_restrict (fun _ _ _ h => h) (booted_bootSys 512 fun _ => 512) hs
  exact ⟨s, hrun, hfifo, frame_exclusivity hrun⟩

/-! ### A size that is negative as an `int` -/

/-- Allocate a page, move the break back by it, and allocate a page again. -/
def backAndForth : List (Event Unit) :=
  [ ⟨(), ⟨0, 0⟩, .alloc 256 0, none, { stat := 0 }⟩,
    ⟨(), ⟨0, 0⟩, .alloc 4294966784 1, none, { stat := 0 }⟩,
    ⟨(), ⟨0, 0⟩, .alloc 256 2, none, { stat := 0 }⟩ ]

/-- The break has moved back, so that page 0 is mapped again and is on the FIFO twice. -/
theorem not_exclusive : ¬ ∀ (as : List (Event Unit)) (s : Sys Unit),
    (memSystem.restrict fun s e => SmallRam s ∧ AllocOrFree s e).Run as s → Exclusive s := by
  intro hexclusive
  have hfifo : (backAndForth.foldlM (fun (s : Sys Unit) e =>
      if SmallRam s ∧ AllocOrFree s e then s.next e else none)
      (bootSys 512 fun _ => 512)).map (fun s => (s.mm ()).fifoPgn) = some [0, 0] := by
    decide +kernel
  obtain ⟨s, hs, hpgn⟩ := Option.map_eq_some_iff.mp hfifo
  have hrun : (memSystem.restrict fun s e => SmallRam s ∧ AllocOrFree s e).Run backAndForth s :=
    Run.of_foldlM_restrict (fun _ _ _ h => h) (booted_bootSys 512 fun _ => 512) hs
  have hnodup := (hexclusive backAndForth s hrun).fifo_nodup ()
  rw [hpgn] at hnodup
  exact absurd hnodup (by decide)

end OsSim
