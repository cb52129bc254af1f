import OsSim.AllocPages

/-!
# Eviction Keeps Contents

A request that obtains its frames may evict pages of the caller. Their bytes arrive in the
swap frames their entries name, and nothing else changes: no byte of RAM, no other swap
frame, no other entry.

`AllocPages` says which frames a request takes and which pages it evicts; this module adds what is
in the frames. `Copied` says of the evictions made so far that the swap frame of each has the bytes
that the RAM frame of its page had at the start, and that no other byte of a device has changed.
One more eviction keeps this, since its swap frame is none of the ones before: it was still free,
and no free list has a frame twice (`Copied.evict`).

What a caller has to bring is in `EvictionReady`: the pages on the FIFO are resident in frames of
their own that are not free, all frames lie in their devices, and the numbers fit the fields of an
entry. A number that is too large for its field would be cut off when the entry is written, and the
page could not be found again; nothing in the code prevents that on a large device.

## Main results

* `Copied.evict`: one eviction keeps what the earlier ones stored.
* `allocPagesRange_supplied`: **eviction during allocation preserves every page's contents**.
-/

namespace OsSim

variable {ι : Type}

/-! ### The bytes of one copy -/

/-- Address `a` lies in frame `off` of a device, of 256 bytes. -/
def InFrame (off a : ℕ) : Prop := off * 256 ≤ a ∧ a < (off + 1) * 256

instance (off a : ℕ) : Decidable (InFrame off a) := inferInstanceAs (Decidable (_ ∧ _))

/-- A cell of a frame lies in it. -/
theorem inFrame_cell {off c : ℕ} (hc : c < 256) : InFrame off (off * 256 + c) :=
  ⟨by omega, by omega⟩

/-- An address lies in one frame only. -/
theorem InFrame.unique {off off' a : ℕ} (h : InFrame off a) (h' : InFrame off' a) :
    off = off' := by
  obtain ⟨h1, h2⟩ := h
  obtain ⟨h3, h4⟩ := h'
  omega

/-- Swapping out stores the RAM frame's bytes and touches no other address. -/
theorem Sys.storage_swapTo {s : Sys ι} {fpn : ℕ} {typ : Fin pagingMaxMmswp} {off : ℕ}
    {rest : List ℕ} (hram : s.mram.rdmflg = true) (hfpn : s.mram.HasFrame fpn)
    (hswp : (s.mswp typ).rdmflg = true) (hoff : (s.mswp typ).HasFrame off)
    (i : Fin pagingMaxMmswp) (a : ℕ) :
    ((s.swapTo fpn typ off rest).mswp i).storage a =
      if i = typ ∧ InFrame off a then s.mram.cell fpn (a - off * 256)
      else (s.mswp i).storage a := by
  by_cases hi : i = typ
  · subst hi
    rw [Sys.mswp_swapTo_self]
    have hswp' : ((s.mswp i).setFree rest).rdmflg = true := hswp
    refine (swapCpPage_storage hram hfpn hswp' hoff a).trans ?_
    simp only [true_and, InFrame, Memphy.setFree]
  · rw [Sys.mswp_swapTo_of_ne _ _ _ _ _ hi, if_neg fun h => hi h.1]

/-! ### The bytes of all copies -/

/-- The evictions of `evs`, from `s` to `st`, have stored the bytes of the victims' RAM frames
in their swap frames and no other byte. -/
structure Copied (s : Sys ι) (evs : List Eviction) (st : AllocState ι) : Prop where
  stored : ∀ e ∈ evs, ∀ c < 256, (st.sys.mswp e.typ).cell e.off c = s.mram.cell e.fpn c
  other : ∀ i a, (∀ e ∈ evs, e.typ = i → ¬ InFrame e.off a) →
    (st.sys.mswp i).storage a = (s.mswp i).storage a

variable [DecidableEq ι]

/-- What an eviction needs: the caller's FIFO lists distinct resident pages with distinct
frames inside RAM that are not free, and the swap devices are random access with lists of
distinct free frames that a page-table entry can hold. -/
structure EvictionReady (s : Sys ι) (p : ι) : Prop where
  fifo_nodup : (s.mm p).fifoPgn.Nodup
  fifo_resident : ∀ g ∈ (s.mm p).fifoPgn, Resident ((s.mm p).pgd g)
  fpn_nodup : ((s.mm p).fifoPgn.map fun g => pagingFpn ((s.mm p).pgd g)).Nodup
  fpn_mem : ∀ g ∈ (s.mm p).fifoPgn, s.mram.HasFrame (pagingFpn ((s.mm p).pgd g))
  free_nodup : s.mram.freeFpList.Nodup
  fpn_not_free : ∀ g ∈ (s.mm p).fifoPgn, pagingFpn ((s.mm p).pgd g) ∉ s.mram.freeFpList
  ram : s.mram.rdmflg = true
  swap : ∀ i, (s.mswp i).rdmflg = true
  swap_nodup : ∀ i, (s.mswp i).freeFpList.Nodup
  swap_mem : ∀ i, ∀ o ∈ (s.mswp i).freeFpList, (s.mswp i).HasFrame o ∧ o < 2097152

section

variable {s : Sys ι} {p : ι} {taken : List ℕ} {evs : List Eviction} {st : AllocState ι}

/-- One more eviction leaves the swap frames filled before alone, since the frame that it takes was
still free then. -/
theorem Copied.evict (h : Copied s evs st) (hob : Obtained s p taken evs st)
    (hs : EvictionReady s p) {pgn : ℕ} {fifo : List ℕ} {typ : Fin pagingMaxMmswp} {off : ℕ}
    {rest : List ℕ} (hfree : st.sys.mram.freeFpList = [])
    (hfifo : (st.sys.mm p).fifoPgn = fifo ++ [pgn])
    (hswap : (st.sys.mswp typ).freeFpList = off :: rest) :
    Copied s (evs ++ [⟨pgn, pagingFpn ((st.sys.mm p).pgd pgn), typ, off⟩])
      (st.evict p pgn fifo typ off rest) := by
  have hpgn : pgn ∈ (s.mm p).fifoPgn := by
    rw [hob.fifo, hfifo]
    simp
  have hfpn : pagingFpn ((st.sys.mm p).pgd pgn) = pagingFpn ((s.mm p).pgd pgn) :=
    (hob.evict hfree hfifo hswap).fpn hs.fifo_nodup _
      (List.mem_append_right _ (List.mem_singleton_self _))
  have hram : st.sys.mram.storage = s.mram.storage ∧ st.sys.mram.rdmflg = s.mram.rdmflg ∧
      st.sys.mram.maxsz = s.mram.maxsz := by
    rw [hob.mram]
    exact ⟨rfl, rfl, rfl⟩
  have hoff : off ∈ (s.mswp typ).freeFpList := by
    rw [hob.swapFree, hswap]
    simp
  have hframe := (hs.swap_mem typ off hoff).1
  have hbytes (i : Fin pagingMaxMmswp) (a : ℕ) :
      ((st.evict p pgn fifo typ off rest).sys.mswp i).storage a =
        if i = typ ∧ InFrame off a then
          s.mram.cell (pagingFpn ((s.mm p).pgd pgn)) (a - off * 256)
        else (st.sys.mswp i).storage a := by
    refine (Sys.storage_swapTo (s := (st.unlink p pgn fifo).sys) ?_ ?_ ?_ ?_ i a).trans ?_
    · exact hram.2.1.trans hs.ram
    · rw [hfpn]
      exact (hs.fpn_mem pgn hpgn).of_maxsz hram.2.2
    · exact (hob.rdmflg typ).trans (hs.swap typ)
    · exact hframe.of_maxsz (hob.maxsz typ)
    · rw [hfpn]
      simp only [Memphy.cell, AllocState.unlink, Sys.mram_setMm, Sys.mswp_setMm, hram.1]
  -- the frame taken is none of those filled before
  have hfresh : ∀ e ∈ evs, e.typ = typ → e.off ≠ off := by
    intro e he htyp hoffeq
    have hnot := hob.off_not_mem he (hs.swap_nodup _)
    rw [htyp, hswap, hoffeq] at hnot
    simp at hnot
  refine ⟨?_, ?_⟩
  · intro e he c hc
    rw [Memphy.cell, hbytes]
    rcases List.mem_append.mp he with he | he
    · rw [if_neg, ← Memphy.cell, h.stored e he c hc]
      rintro ⟨htyp, hin⟩
      exact hfresh e he htyp ((inFrame_cell hc).unique hin)
    · obtain rfl := List.mem_singleton.mp he
      rw [if_pos ⟨rfl, inFrame_cell hc⟩, hfpn, Nat.add_sub_cancel_left]
  · intro i a hout
    rw [hbytes, if_neg, h.other i a fun e he => hout e (List.mem_append_left _ he)]
    rintro ⟨rfl, hin⟩
    exact hout _ (List.mem_append_right _ (List.mem_singleton_self _)) rfl hin

/-- The swap frames of the evictions are pairwise distinct: each was free when it was taken. -/
theorem Obtained.slots_nodup (h : Obtained s p taken evs st) (hs : EvictionReady s p) :
    (evs.map fun e => (e.typ, e.off)).Nodup := by
  have hdev (i : Fin pagingMaxMmswp) : (swapFrames evs i).Nodup := by
    have hi := hs.swap_nodup i
    rw [h.swapFree i] at hi
    exact (List.nodup_append.mp hi).1
  rw [List.Nodup, List.pairwise_map]
  clear h
  induction evs with
  | nil => exact List.Pairwise.nil
  | cons e evs ih =>
      refine List.Pairwise.cons ?_ (ih ?_)
      · intro e' he' heq
        obtain ⟨htyp, hoff⟩ := Prod.mk.inj heq
        have hcons := hdev e.typ
        simp only [swapFrames, List.filter_cons, decide_true, if_true, List.map_cons,
          List.nodup_cons] at hcons
        exact hcons.1 (hoff ▸ mem_swapFrames.mpr ⟨e', he', htyp.symm, rfl⟩)
      · intro i
        refine (hdev i).sublist ?_
        exact ((List.sublist_cons_self e evs).filter _).map _

end

/-! ### The request -/

/-- Every outcome of the loop has copied the pages it evicted, also one that failed in the end. -/
theorem allocPages_copied {s : Sys ι} {p : ι} (hs : EvictionReady s p) {n : ℕ}
    {st : AllocState ι} (hret : allocPages p n { sys := s, frmLst := [] } = (0, st)) :
    ∃ taken evs, taken.length + evs.length = n ∧ Obtained s p taken evs st ∧
      Copied s evs st := by
  have hrule := allocPages_rule (p := p)
    (I := fun k st => ∃ taken evs, taken.length + evs.length = k ∧ Obtained s p taken evs st ∧
      Copied s evs st)
    (by
      rintro k st st' ⟨taken, evs, hk, hob, hcp⟩ hst
      cases hst with
      | take fpn rest hfree =>
          exact ⟨_, _, by simp; omega, hob.take hfree, ⟨hcp.stored, hcp.other⟩⟩
      | evict pgn fifo typ off rest hfree hfifo hswap =>
          exact ⟨_, _, by simp; omega, hob.evict hfree hfifo hswap,
            hcp.evict hob hs hfree hfifo hswap⟩)
    n 0 { sys := s, frmLst := [] }
    ⟨[], [], rfl, Obtained.refl s p, ⟨fun e he => absurd he List.not_mem_nil, fun _ _ _ => rfl⟩⟩
  rcases hrule with ⟨st', ⟨taken, evs, hk, hob, hcp⟩, hok⟩ | ⟨m, -, st', -, hstop⟩
  · obtain rfl : st' = st := congrArg Prod.snd (hok.symm.trans hret)
    exact ⟨taken, evs, by omega, hob, hcp⟩
  · have hneg := hstop.code_neg
    rw [hret] at hneg
    exact absurd hneg (lt_irrefl 0)

/-- What a request for `n` frames that succeeds has done: it took the frames `taken` and
evicted the pages of `evs`. -/
structure Supplied (s : Sys ι) (p : ι) (n : ℕ) (st : AllocState ι) (taken : List ℕ)
    (evs : List Eviction) : Prop where
  /-- The first `n` nodes of the list carry the frames, each taken or evicted. -/
  nodes : (st.frmLst.take n).map Framephy.fpn = (taken ++ evs.map Eviction.fpn).reverse
  length : (st.frmLst.take n).length = n
  distinct : ((st.frmLst.take n).map Framephy.fpn).Nodup
  removed : s.mram.freeFpList = taken ++ st.sys.mram.freeFpList
  /-- The evicted pages are the oldest ones, oldest first. -/
  oldest : (s.mm p).fifoPgn = (st.sys.mm p).fifoPgn ++ (evs.map Eviction.pgn).reverse
  frame : ∀ e ∈ evs, e.fpn = pagingFpn ((s.mm p).pgd e.pgn)
  swapped : ∀ e ∈ evs, pagingPageSwapped ((st.sys.mm p).pgd e.pgn) = true
  device : ∀ e ∈ evs, pagingSwptyp ((st.sys.mm p).pgd e.pgn) = e.typ
  slot : ∀ e ∈ evs, pagingPteSwp ((st.sys.mm p).pgd e.pgn) = e.off
  slot_free : ∀ e ∈ evs, e.off ∈ (s.mswp e.typ).freeFpList
  slot_taken : ∀ e ∈ evs, e.off ∉ (st.sys.mswp e.typ).freeFpList
  slots_distinct : (evs.map fun e => (e.typ, e.off)).Nodup
  bytes : ∀ e ∈ evs, ∀ c < 256, (st.sys.mswp e.typ).cell e.off c = s.mram.cell e.fpn c
  ram : st.sys.mram.storage = s.mram.storage
  /-- Every swap byte outside the frames of the evictions stays. -/
  swap_other : ∀ i a, (∀ e ∈ evs, e.typ = i → ¬ InFrame e.off a) →
    (st.sys.mswp i).storage a = (s.mswp i).storage a
  /-- Every entry but those of the evicted pages stays. -/
  pte_other : ∀ q g, ¬ (q = p ∧ g ∈ evs.map Eviction.pgn) →
    (st.sys.mm q).pgd g = (s.mm q).pgd g

/-- **Eviction during allocation preserves every page's contents**: a request that succeeds has
taken and evicted exactly as many frames as were asked for, and what it evicted is where the entries
say. -/
theorem allocPagesRange_supplied {s : Sys ι} {p : ι} {n : ℤ} {st : AllocState ι}
    (hs : EvictionReady s p) (hret : allocPagesRange s p n [] = (0, st)) :
    ∃ taken evs, Supplied s p n.toNat st taken evs := by
  obtain ⟨taken, evs, hlen, hob, hcp⟩ := allocPages_copied hs hret
  obtain ⟨tail, htail⟩ := hob.nodes
  have hcount : (frames taken evs).length = n.toNat := by
    rw [length_frames, hlen]
  have hnodes : (st.frmLst.take n.toNat).map Framephy.fpn = (frames taken evs).reverse := by
    rw [htail, List.take_left' (by simp [hcount])]
    simp [Function.comp_def]
  have hpte := hob.pgd_evicted hs.fifo_nodup
  refine ⟨taken, evs, ?_⟩
  exact
    { nodes := hnodes
      length := by
        have := congrArg List.length hnodes
        simpa [hcount] using this
      distinct := by
        rw [hnodes]
        exact List.nodup_reverse.mpr
          (hob.frames_nodup hs.fifo_nodup hs.fpn_nodup hs.free_nodup hs.fpn_not_free)
      removed := hob.free
      oldest := hob.fifo
      frame := hob.fpn hs.fifo_nodup
      swapped := fun e he => by rw [hpte e he, pagingPageSwapped_pteSetSwap]
      device := by
        intro e he
        rw [hpte e he, e.pagingSwptyp_pte]
      slot := by
        intro e he
        rw [hpte e he, pagingPteSwp_pteSetSwap _ _ (hs.swap_mem e.typ e.off (hob.off_mem he)).2]
      slot_free := fun e he => hob.off_mem he
      slot_taken := fun e he => hob.off_not_mem he (hs.swap_nodup _)
      slots_distinct := hob.slots_nodup hs
      bytes := hcp.stored
      ram := by rw [hob.mram]
      swap_other := hcp.other
      pte_other := by
        intro q g hne
        by_cases hq : q = p
        · subst hq
          exact hob.pgd_other g fun hmem => hne ⟨rfl, hmem⟩
        · rw [Sys.mm, hob.procs, Function.update_of_ne hq, Sys.mm] }

/-- Page 0 of the one process is resident in frame 0, whose bytes count from 1 on, and frame 1 is
free. -/
def evictDemo : Sys Unit where
  mram := { (initMemphy 512 true).setFree [1] with storage := fun a => BitVec.ofNat 8 (a + 1) }
  mswp _ := initMemphy 512 true
  procs _ :=
    { mm := { initMm with
        pgd := fun g => if g = 0 then 0x80000000 else 0
        fifoPgn := [0] }
      activeMswp := 0
      activeMswpId := 0 }

/-- The demo meets the condition. -/
theorem evictDemo_ready : EvictionReady evictDemo () where
  fifo_nodup := by decide
  fifo_resident := by decide +kernel
  fpn_nodup := by decide +kernel
  fpn_mem := by
    simp only [Memphy.HasFrame]
    decide +kernel
  free_nodup := by decide
  fpn_not_free := by decide +kernel
  ram := rfl
  swap _ := rfl
  swap_nodup := by decide +kernel
  swap_mem := by
    simp only [Memphy.HasFrame]
    decide +kernel

/-- Two frames for the demo: one is free, and page 0 has to go for the other. Its bytes are on the
swap device afterwards. -/
theorem allocPagesRange_supplied_demo :
    (∃ taken evs, Supplied evictDemo () 2 (allocPagesRange evictDemo () 2 []).2 taken evs) ∧
      ((allocPagesRange evictDemo () 2 []).2.sys.mswp 0).cell 0 41 = 42 := by
  have hret : allocPagesRange evictDemo () 2 [] = (0, (allocPagesRange evictDemo () 2 []).2) :=
    Prod.ext (by decide +kernel) rfl
  exact ⟨allocPagesRange_supplied evictDemo_ready hret, by decide +kernel⟩

end OsSim
