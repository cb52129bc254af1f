import OsSim.Mm

/-!
# Obtaining Frames

What `allocPagesRange` does, said once: what each iteration can do (`AllocStep`), how the loop
can end (`AllocStop`), and what a number of iterations amount to (`Obtained`). A frame
comes from the free list while there is one, and from the oldest page of the caller's FIFO
after that; the page's bytes go to a free swap frame.

An iteration that goes on takes a free frame or evicts a page; one that ends the loop has found no
page to evict, or a page but no swap frame for it, and then the page has left the FIFO and stays
resident in its frame. The two inductive types list these cases with the state that each leaves, and
`allocPage_cases` says that there are no others. Nothing after this module unfolds `allocPage`.

`Obtained s p taken evs st` describes the way from `s` to `st` as data: the frames taken from the
free list, and the evictions with their pages, frames, devices and swap frames, each in the order in
which they were made. Everything that changes on the way is a field of it, lists, entries, FIFO and
used list, and so is what does not. The loop rule (`allocPages_rule`) carries it through any number
of iterations, and `allocPages_obtained` says it of the loop, whichever way it ends; the fields are
what later modules rewrite with.

## Main results

* `allocPages_rule`: the loop rule.
* `allocPages_obtained`: the frames taken and the pages evicted, for every outcome.
* `Obtained.nodes`: the first nodes of the returned list carry the frames obtained, last
  first.
-/

namespace OsSim

variable {ι : Type}

/-! ### The oldest page -/

@[simp] theorem findVictimPage_concat (fifo : List ℕ) (pgn : ℕ) :
    findVictimPage (fifo ++ [pgn]) = some (pgn, fifo) := by
  induction fifo with
  | nil => rfl
  | cons head fifo ih =>
      rcases hrest : fifo ++ [pgn] with _ | ⟨next, rest⟩
      · simp at hrest
      · rw [hrest] at ih
        rw [List.cons_append, hrest, findVictimPage, ih]
        rfl

/-- The page found is the last one of the list, which keeps the others. -/
theorem findVictimPage_eq_some {fifo : List ℕ} {r : ℕ × List ℕ}
    (h : findVictimPage fifo = some r) : fifo = r.2 ++ [r.1] := by
  rcases List.eq_nil_or_concat fifo with rfl | ⟨rest, pgn, rfl⟩
  · simp [findVictimPage] at h
  · rw [List.concat_eq_append, findVictimPage_concat, Option.some.injEq] at h
    simp [← h]

/-- `find_victim_page` finds no page only where the process has none in use. -/
theorem findVictimPage_eq_none {fifo : List ℕ} : findVictimPage fifo = none ↔ fifo = [] := by
  rcases List.eq_nil_or_concat fifo with rfl | ⟨rest, pgn, rfl⟩
  · simp [findVictimPage]
  · simp [List.concat_eq_append]

/-! ### The free lists -/

/-- A free frame is the head of the list, which keeps the others. -/
theorem memphyGetFreefp_eq_some {mp : Memphy ι} {r : ℕ × Memphy ι}
    (h : memphyGetFreefp mp = some r) :
    ∃ rest, mp.freeFpList = r.1 :: rest ∧ r.2 = { mp with freeFpList := rest } := by
  rcases hfree : mp.freeFpList with _ | ⟨fpn, rest⟩
  · simp [memphyGetFreefp, hfree] at h
  · simp only [memphyGetFreefp, hfree, Option.some.injEq] at h
    exact ⟨rest, by rw [← h], by rw [← h]⟩

/-- `MEMPHY_get_freefp` finds no frame only where the device has none left. -/
theorem memphyGetFreefp_eq_none {mp : Memphy ι} :
    memphyGetFreefp mp = none ↔ mp.freeFpList = [] := by
  rcases hfree : mp.freeFpList with _ | ⟨fpn, rest⟩ <;> simp [memphyGetFreefp, hfree]

/-- The search by pointer finds the index of the active device. -/
@[simp] theorem mswpIndex_eq (active : Fin pagingMaxMmswp) : mswpIndex active = active := by
  revert active
  decide

/-! ### Swapping out -/

/-- A device with another free list and everything else as it is. -/
def Memphy.setFree (mp : Memphy ι) (freeFpList : List ℕ) : Memphy ι :=
  { mp with freeFpList := freeFpList }

/-- Taking swap frame `off`, the head of the free list of device `typ`, and copying RAM
frame `fpn` there. -/
def Sys.swapTo (s : Sys ι) (fpn : ℕ) (typ : Fin pagingMaxMmswp) (off : ℕ) (rest : List ℕ) :
    Sys ι :=
  s.setMswp typ (swapCpPage s.mram fpn ((s.mswp typ).setFree rest) off).2

section SwapTo

variable (s : Sys ι) (fpn : ℕ) (typ : Fin pagingMaxMmswp) (off : ℕ) (rest : List ℕ)

@[simp] theorem Sys.mram_swapTo : (s.swapTo fpn typ off rest).mram = s.mram := rfl
@[simp] theorem Sys.procs_swapTo : (s.swapTo fpn typ off rest).procs = s.procs := rfl
@[simp] theorem Sys.mm_swapTo (p : ι) : (s.swapTo fpn typ off rest).mm p = s.mm p := rfl

/-- The devices that the page is not copied to stay as they are. -/
theorem Sys.mswp_swapTo_of_ne {i : Fin pagingMaxMmswp} (h : i ≠ typ) :
    (s.swapTo fpn typ off rest).mswp i = s.mswp i := by
  rw [Sys.swapTo, Sys.mswp_setMswp, if_neg h]

/-- The device has lost the frame, and has the bytes of the RAM frame there. -/
theorem Sys.mswp_swapTo_self :
    (s.swapTo fpn typ off rest).mswp typ =
      (swapCpPage s.mram fpn ((s.mswp typ).setFree rest) off).2 := by
  rw [Sys.swapTo, Sys.mswp_setMswp, if_pos rfl]

/-- The free lists after a swap-out: one device has lost the head of its list. -/
theorem Sys.freeFpList_swapTo (i : Fin pagingMaxMmswp) :
    ((s.swapTo fpn typ off rest).mswp i).freeFpList =
      if i = typ then rest else (s.mswp i).freeFpList := by
  by_cases h : i = typ
  · subst h
    rw [if_pos rfl, s.mswp_swapTo_self]
    exact (swapCpPage_shape _ _ _ _).free
  · rw [if_neg h, s.mswp_swapTo_of_ne fpn typ off rest h]

/-- No device changes its kind of access. -/
theorem Sys.rdmflg_swapTo (i : Fin pagingMaxMmswp) :
    ((s.swapTo fpn typ off rest).mswp i).rdmflg = (s.mswp i).rdmflg := by
  by_cases h : i = typ
  · subst h
    rw [s.mswp_swapTo_self]
    exact (swapCpPage_shape _ _ _ _).rdmflg
  · rw [s.mswp_swapTo_of_ne fpn typ off rest h]

/-- No device changes its size. -/
theorem Sys.maxsz_swapTo (i : Fin pagingMaxMmswp) :
    ((s.swapTo fpn typ off rest).mswp i).maxsz = (s.mswp i).maxsz := by
  by_cases h : i = typ
  · subst h
    rw [s.mswp_swapTo_self]
    exact (swapCpPage_shape _ _ _ _).maxsz
  · rw [s.mswp_swapTo_of_ne fpn typ off rest h]

end SwapTo

/-- A swap-out takes the first free frame of one of the devices, the active one if that has any. -/
theorem swapOut_eq_some {s : Sys ι} {p : ι} {fpn : ℕ} {r : ℕ × ℕ × Sys ι}
    (h : swapOut s p fpn = some r) :
    ∃ (typ : Fin pagingMaxMmswp) (off : ℕ) (rest : List ℕ),
      (s.mswp typ).freeFpList = off :: rest ∧ r = (typ.val, off, s.swapTo fpn typ off rest) := by
  rw [swapOut] at h
  split at h
  · rename_i r' hget
    obtain ⟨rest, hfree, hmp⟩ := memphyGetFreefp_eq_some hget
    refine ⟨s.active p, r'.1, rest, hfree, ?_⟩
    rw [← Option.some.inj h, hmp, mswpIndex_eq, Sys.swapTo, Memphy.setFree]
  · obtain ⟨typ, -, hmap⟩ := List.exists_of_findSome?_eq_some h
    obtain ⟨r', hget, hr⟩ := Option.map_eq_some_iff.mp hmap
    obtain ⟨rest, hfree, hmp⟩ := memphyGetFreefp_eq_some hget
    refine ⟨typ, r'.1, rest, hfree, ?_⟩
    rw [← hr, hmp, Sys.swapTo, Memphy.setFree]

/-- A swap-out fails only when no device has a free frame. -/
theorem swapOut_eq_none {s : Sys ι} {p : ι} {fpn : ℕ} (h : swapOut s p fpn = none)
    (i : Fin pagingMaxMmswp) : (s.mswp i).freeFpList = [] := by
  rw [swapOut] at h
  split at h
  · simp at h
  · have hi := List.findSome?_eq_none_iff.mp h i (List.mem_finRange i)
    rw [Option.map_eq_none_iff] at hi
    exact memphyGetFreefp_eq_none.mp hi

/-! ### One iteration -/

variable [DecidableEq ι]

/-- Taking the head `fpn` of RAM's free list for process `p`. -/
def AllocState.take (st : AllocState ι) (p : ι) (fpn : ℕ) (rest : List ℕ) : AllocState ι :=
  let lst := ⟨fpn, p⟩ :: st.sys.mram.usedFpList
  { sys := { st.sys with mram := { st.sys.mram with freeFpList := rest, usedFpList := lst } }
    frmLst := lst }

/-- The victim `pgn` has left the FIFO and its frame is on the frame list. -/
def AllocState.unlink (st : AllocState ι) (p : ι) (pgn : ℕ) (fifo : List ℕ) : AllocState ι :=
  { sys := st.sys.setMm p { st.sys.mm p with fifoPgn := fifo }
    frmLst := ⟨pagingFpn ((st.sys.mm p).pgd pgn), p⟩ :: st.frmLst }

/-- The victim `pgn` goes to frame `off` of swap device `typ`. -/
def AllocState.evict (st : AllocState ι) (p : ι) (pgn : ℕ) (fifo : List ℕ)
    (typ : Fin pagingMaxMmswp) (off : ℕ) (rest : List ℕ) : AllocState ι :=
  let fpn := pagingFpn ((st.sys.mm p).pgd pgn)
  let s := (st.unlink p pgn fifo).sys.swapTo fpn typ off rest
  { sys := s.setMm p ((s.mm p).setPte pgn (pteSetSwap ((st.sys.mm p).pgd pgn) typ off))
    frmLst := (st.unlink p pgn fifo).frmLst }

/-- What an iteration that goes on does: it takes a free frame, or evicts the oldest page. -/
inductive AllocStep (p : ι) (st : AllocState ι) : AllocState ι → Prop
  | take (fpn : ℕ) (rest : List ℕ) (hfree : st.sys.mram.freeFpList = fpn :: rest) :
      AllocStep p st (st.take p fpn rest)
  | evict (pgn : ℕ) (fifo : List ℕ) (typ : Fin pagingMaxMmswp) (off : ℕ) (rest : List ℕ)
      (hfree : st.sys.mram.freeFpList = [])
      (hfifo : (st.sys.mm p).fifoPgn = fifo ++ [pgn])
      (hswap : (st.sys.mswp typ).freeFpList = off :: rest) :
      AllocStep p st (st.evict p pgn fifo typ off rest)

/-- What an iteration that ends the loop returns: nothing has changed, or a page has left the FIFO
for nothing. -/
inductive AllocStop (p : ι) (st : AllocState ι) : ℤ × AllocState ι → Prop
  | noVictim (hfree : st.sys.mram.freeFpList = []) (hfifo : (st.sys.mm p).fifoPgn = []) :
      AllocStop p st (-1, st)
  | noSwap (pgn : ℕ) (fifo : List ℕ) (hfree : st.sys.mram.freeFpList = [])
      (hfifo : (st.sys.mm p).fifoPgn = fifo ++ [pgn])
      (hswap : ∀ i, (st.sys.mswp i).freeFpList = []) :
      AllocStop p st (-3000, st.unlink p pgn fifo)

/-- Where the loop of `alloc_pages_range` ends early, its code is negative. -/
theorem AllocStop.code_neg {p : ι} {st : AllocState ι} {r : ℤ × AllocState ι}
    (h : AllocStop p st r) : r.1 < 0 := by
  cases h <;> simp

/-- An iteration goes on or ends the loop, and does nothing but what is listed. -/
theorem allocPage_cases (st : AllocState ι) (p : ι) :
    (∃ st', AllocStep p st st' ∧ allocPage st p = (0, st')) ∨ AllocStop p st (allocPage st p) := by
  rw [allocPage]
  split
  · rename_i r hget
    obtain ⟨rest, hfree, hmp⟩ := memphyGetFreefp_eq_some hget
    refine Or.inl ⟨_, AllocStep.take r.1 rest hfree, ?_⟩
    rw [hmp]
    rfl
  · rename_i hget
    have hfree := memphyGetFreefp_eq_none.mp hget
    split
    · rename_i hvic
      exact Or.inr (AllocStop.noVictim hfree (findVictimPage_eq_none.mp hvic))
    · rename_i v hvic
      have hfifo := findVictimPage_eq_some hvic
      have hfpn : pagingFpn (((st.sys.setMm p { st.sys.mm p with fifoPgn := v.2 }).mm p).pgd v.1) =
          pagingFpn ((st.sys.mm p).pgd v.1) := by
        rw [Sys.mm_setMm_self]
      simp only [hfpn]
      split
      · rename_i hout
        exact Or.inr (AllocStop.noSwap v.1 v.2 hfree hfifo fun i => swapOut_eq_none hout i)
      · rename_i r hout
        obtain ⟨typ, off, rest, hswap, hr⟩ := swapOut_eq_some hout
        refine Or.inl ⟨_, AllocStep.evict v.1 v.2 typ off rest hfree hfifo hswap, ?_⟩
        rw [hr, AllocState.evict, AllocState.unlink]
        simp only [Sys.mm_swapTo, Sys.mm_setMm_self]

/-! ### The loop -/

/-- **The loop rule.** What every iteration that goes on preserves holds where the loop ends,
after all `n` frames or at an iteration that ends it. -/
theorem allocPages_rule {p : ι} {I : ℕ → AllocState ι → Prop}
    (hstep : ∀ k st st', I k st → AllocStep p st st' → I (k + 1) st') (n k : ℕ)
    (st : AllocState ι) (h : I k st) :
    (∃ st', I (k + n) st' ∧ allocPages p n st = (0, st')) ∨
      ∃ m < n, ∃ st', I (k + m) st' ∧ AllocStop p st' (allocPages p n st) := by
  induction n generalizing k st with
  | zero => exact Or.inl ⟨st, h, rfl⟩
  | succ n ih =>
      rw [allocPages]
      rcases allocPage_cases st p with ⟨st', hst', heq⟩ | hstop
      · simp only [heq, if_true]
        rcases ih (k + 1) st' (hstep k st st' h hst') with
          ⟨st'', hI, hret⟩ | ⟨m, hm, st'', hI, hret⟩
        · exact Or.inl ⟨st'', by rwa [show k + (n + 1) = k + 1 + n by omega], hret⟩
        · exact Or.inr ⟨m + 1, by omega, st'', by rwa [show k + (m + 1) = k + 1 + m by omega], hret⟩
      · rw [if_neg (by have := hstop.code_neg; omega)]
        exact Or.inr ⟨0, by omega, st, h, hstop⟩

/-! ### What the iterations amount to -/

/-- One page evicted: it was in RAM frame `fpn` and is in frame `off` of swap device `typ`. -/
structure Eviction where
  pgn : ℕ
  fpn : ℕ
  typ : Fin pagingMaxMmswp
  off : ℕ
  deriving DecidableEq

/-- The evicted page's entry names the device. -/
theorem Eviction.pagingSwptyp_pte (e : Eviction) (pte : BitVec 32) :
    pagingSwptyp (pteSetSwap pte e.typ e.off) = e.typ := by
  have hlt : (e.typ : ℕ) < 4 := e.typ.isLt
  exact pagingSwptyp_pteSetSwap _ _ (by omega)

/-- The swap frames of device `i` among those the evictions took. -/
def swapFrames (evs : List Eviction) (i : Fin pagingMaxMmswp) : List ℕ :=
  (evs.filter (·.typ = i)).map Eviction.off

/-- A swap frame was taken by one of the evictions to its device. -/
theorem mem_swapFrames {evs : List Eviction} {i : Fin pagingMaxMmswp} {off : ℕ} :
    off ∈ swapFrames evs i ↔ ∃ e ∈ evs, e.typ = i ∧ e.off = off := by
  simp [swapFrames, and_assoc]

/-- No device gives more frames than pages are evicted. -/
theorem length_swapFrames_le (evs : List Eviction) (i : Fin pagingMaxMmswp) :
    (swapFrames evs i).length ≤ evs.length := by
  rw [swapFrames, List.length_map]
  exact List.length_filter_le _ _

/-- The frames obtained, oldest first: those taken, and those of the pages evicted. -/
def frames (taken : List ℕ) (evs : List Eviction) : List ℕ := taken ++ evs.map Eviction.fpn

@[simp] theorem length_frames (taken : List ℕ) (evs : List Eviction) :
    (frames taken evs).length = taken.length + evs.length := by
  simp [frames]

/-- From `s`, process `p` has taken the frames `taken` from the free list and evicted the
pages of `evs`, in this order, and is in `st`. What page-table entries hold is said for a
FIFO that lists no page twice. -/
structure Obtained (s : Sys ι) (p : ι) (taken : List ℕ) (evs : List Eviction)
    (st : AllocState ι) : Prop where
  free : s.mram.freeFpList = taken ++ st.sys.mram.freeFpList
  exhausted : evs ≠ [] → st.sys.mram.freeFpList = []
  mram : st.sys.mram = { s.mram with
    freeFpList := st.sys.mram.freeFpList
    usedFpList := (taken.map fun f => ⟨f, p⟩).reverse ++ s.mram.usedFpList }
  fifo : (s.mm p).fifoPgn = (st.sys.mm p).fifoPgn ++ (evs.map Eviction.pgn).reverse
  procs : st.sys.procs = Function.update s.procs p { s.procs p with mm := st.sys.mm p }
  mm : st.sys.mm p = { s.mm p with
    pgd := (st.sys.mm p).pgd
    fifoPgn := (st.sys.mm p).fifoPgn }
  fpn : (s.mm p).fifoPgn.Nodup → ∀ e ∈ evs, e.fpn = pagingFpn ((s.mm p).pgd e.pgn)
  pgd_evicted : (s.mm p).fifoPgn.Nodup → ∀ e ∈ evs,
    (st.sys.mm p).pgd e.pgn = pteSetSwap ((s.mm p).pgd e.pgn) e.typ e.off
  pgd_other : ∀ g, g ∉ evs.map Eviction.pgn → (st.sys.mm p).pgd g = (s.mm p).pgd g
  swapFree : ∀ i, (s.mswp i).freeFpList = swapFrames evs i ++ (st.sys.mswp i).freeFpList
  rdmflg : ∀ i, (st.sys.mswp i).rdmflg = (s.mswp i).rdmflg
  maxsz : ∀ i, (st.sys.mswp i).maxsz = (s.mswp i).maxsz
  frmLst : st.frmLst = (evs.map fun e => ⟨e.fpn, p⟩).reverse ++
    if taken = [] then [] else st.sys.mram.usedFpList

namespace Obtained

variable {s : Sys ι} {p : ι} {taken : List ℕ} {evs : List Eviction} {st : AllocState ι}

/-- Before the first iteration nothing has been obtained. -/
theorem refl (s : Sys ι) (p : ι) : Obtained s p [] [] { sys := s, frmLst := [] } where
  free := rfl
  exhausted h := absurd rfl h
  mram := rfl
  fifo := (List.append_nil _).symm
  procs := by
    change s.procs = Function.update s.procs p (s.procs p)
    rw [Function.update_eq_self]
  mm := rfl
  fpn _ e he := absurd he (List.not_mem_nil)
  pgd_evicted _ e he := absurd he (List.not_mem_nil)
  pgd_other _ _ := rfl
  swapFree _ := rfl
  rdmflg _ := rfl
  maxsz _ := rfl
  frmLst := rfl

/-- A frame from the free list joins those taken, and evicts nobody. -/
protected theorem take (h : Obtained s p taken evs st) {fpn : ℕ} {rest : List ℕ}
    (hfree : st.sys.mram.freeFpList = fpn :: rest) :
    Obtained s p (taken ++ [fpn]) evs (st.take p fpn rest) := by
  -- no page has been evicted while the free list had frames
  have hevs : evs = [] := by
    by_contra hne
    simp [h.exhausted hne] at hfree
  subst hevs
  have hused : st.sys.mram.usedFpList =
      (taken.map fun f => ⟨f, p⟩).reverse ++ s.mram.usedFpList := by rw [h.mram]
  exact
    { free := by rw [h.free, hfree]; simp [AllocState.take]
      exhausted := fun hne => absurd rfl hne
      mram := by
        rw [AllocState.take, hused, h.mram]
        simp
      fifo := h.fifo
      procs := h.procs
      mm := h.mm
      fpn := h.fpn
      pgd_evicted := h.pgd_evicted
      pgd_other := h.pgd_other
      swapFree := h.swapFree
      rdmflg := h.rdmflg
      maxsz := h.maxsz
      frmLst := by simp [AllocState.take] }

/-- A page evicted joins the evictions. It was the oldest one on the FIFO, and its frame goes on the
list. -/
protected theorem evict (h : Obtained s p taken evs st) {pgn : ℕ} {fifo : List ℕ}
    {typ : Fin pagingMaxMmswp} {off : ℕ} {rest : List ℕ}
    (hfree : st.sys.mram.freeFpList = [])
    (hfifo : (st.sys.mm p).fifoPgn = fifo ++ [pgn])
    (hswap : (st.sys.mswp typ).freeFpList = off :: rest) :
    Obtained s p taken
      (evs ++ [⟨pgn, pagingFpn ((st.sys.mm p).pgd pgn), typ, off⟩])
      (st.evict p pgn fifo typ off rest) := by
  have hmm : (st.evict p pgn fifo typ off rest).sys.mm p =
      { st.sys.mm p with
        pgd := Function.update (st.sys.mm p).pgd pgn
          (pteSetSwap ((st.sys.mm p).pgd pgn) typ off)
        fifoPgn := fifo } := by
    simp [AllocState.evict, AllocState.unlink, Mm.setPte]
  have hold : (s.mm p).fifoPgn = fifo ++ pgn :: (evs.map Eviction.pgn).reverse := by
    rw [h.fifo, hfifo]
    simp
  -- the victim is none of the pages evicted before
  have hfresh : (s.mm p).fifoPgn.Nodup → pgn ∉ evs.map Eviction.pgn := by
    intro hnodup hmem
    rw [hold, List.nodup_append] at hnodup
    exact (List.nodup_cons.mp hnodup.2.1).1 (by simpa using hmem)
  exact
    { free := h.free
      exhausted := fun _ => hfree
      mram := h.mram
      fifo := by rw [hold, hmm]; simp
      procs := by
        rw [hmm]
        funext q
        by_cases hq : q = p
        · subst hq
          have hproc : st.sys.procs q = { s.procs q with mm := st.sys.mm q } := by
            rw [h.procs, Function.update_self]
          rw [Function.update_self, ← hmm, AllocState.evict, Sys.procs_setMm_self,
            Sys.mm_setMm_self, Sys.procs_swapTo, AllocState.unlink, Sys.procs_setMm_self, hproc]
        · rw [Function.update_of_ne hq, AllocState.evict, Sys.procs_setMm_of_ne _ _ _ hq,
            Sys.procs_swapTo, AllocState.unlink, Sys.procs_setMm_of_ne _ _ _ hq, h.procs,
            Function.update_of_ne hq]
      mm := by rw [hmm, h.mm]
      fpn := by
        intro hnodup e he
        rcases List.mem_append.mp he with he | he
        · exact h.fpn hnodup e he
        · obtain rfl := List.mem_singleton.mp he
          rw [h.pgd_other _ (hfresh hnodup)]
      pgd_evicted := by
        intro hnodup e he
        rw [hmm]
        rcases List.mem_append.mp he with he | he
        · have hne : e.pgn ≠ pgn :=
            ne_of_mem_of_not_mem (List.mem_map_of_mem he) (hfresh hnodup)
          simpa [hne] using h.pgd_evicted hnodup e he
        · obtain rfl := List.mem_singleton.mp he
          simp [h.pgd_other _ (hfresh hnodup)]
      pgd_other := by
        intro g hg
        have hne : g ≠ pgn := by
          rintro rfl
          simp at hg
        rw [hmm]
        simpa [hne] using h.pgd_other g fun hmem => hg (by simp at hmem ⊢; exact Or.inl hmem)
      swapFree := by
        intro i
        have hfreeList : ((st.evict p pgn fifo typ off rest).sys.mswp i).freeFpList =
            if i = typ then rest else (st.sys.mswp i).freeFpList :=
          Sys.freeFpList_swapTo _ _ _ _ _ i
        rw [h.swapFree i, hfreeList]
        by_cases hi : i = typ
        · subst hi
          simp [swapFrames, hswap]
        · simp [swapFrames, hi, Ne.symm hi]
      rdmflg := fun i => (Sys.rdmflg_swapTo _ _ _ _ _ i).trans (h.rdmflg i)
      maxsz := fun i => (Sys.maxsz_swapTo _ _ _ _ _ i).trans (h.maxsz i)
      frmLst := by
        change _ :: st.frmLst = _ ++ if taken = [] then [] else st.sys.mram.usedFpList
        rw [h.frmLst]
        simp }

/-- Whatever one iteration does adds to what was obtained. -/
theorem step (h : Obtained s p taken evs st) {st' : AllocState ι} (hst : AllocStep p st st') :
    ∃ taken' evs', taken'.length + evs'.length = taken.length + evs.length + 1 ∧
      Obtained s p taken' evs' st' := by
  cases hst with
  | take fpn rest hfree => exact ⟨_, _, by simp; omega, h.take hfree⟩
  | evict pgn fifo typ off rest hfree hfifo hswap =>
      exact ⟨_, _, by simp; omega, h.evict hfree hfifo hswap⟩

/-- **The returned list.** Its first nodes carry the frames obtained, last first; what
follows them is RAM's used list. -/
theorem nodes (h : Obtained s p taken evs st) :
    ∃ tail, st.frmLst = (frames taken evs).reverse.map (⟨·, p⟩) ++ tail := by
  have hused : st.sys.mram.usedFpList =
      (taken.map fun f => ⟨f, p⟩).reverse ++ s.mram.usedFpList := by rw [h.mram]
  rw [h.frmLst]
  by_cases htaken : taken = []
  · exact ⟨[], by simp [htaken, frames, List.map_reverse, Function.comp_def]⟩
  · exact ⟨s.mram.usedFpList, by
      simp [htaken, hused, frames, List.map_reverse, Function.comp_def]⟩

/-- A page evicted was on the caller's FIFO before: only its own pages are evicted. -/
theorem pgn_mem (h : Obtained s p taken evs st) {e : Eviction} (he : e ∈ evs) :
    e.pgn ∈ (s.mm p).fifoPgn := by
  rw [h.fifo]
  exact List.mem_append_right _ (List.mem_reverse.mpr (List.mem_map_of_mem he))

/-- The swap frames taken were free before, on the device that the entry names. -/
theorem off_mem (h : Obtained s p taken evs st) {e : Eviction} (he : e ∈ evs) :
    e.off ∈ (s.mswp e.typ).freeFpList := by
  rw [h.swapFree]
  exact List.mem_append_left _ (mem_swapFrames.mpr ⟨e, he, rfl, rfl⟩)

/-- A swap frame that was taken is not free any more, if no list has it twice. -/
theorem off_not_mem (h : Obtained s p taken evs st) {e : Eviction} (he : e ∈ evs)
    (hnodup : (s.mswp e.typ).freeFpList.Nodup) :
    e.off ∉ (st.sys.mswp e.typ).freeFpList := by
  rw [h.swapFree] at hnodup
  intro hmem
  exact (List.nodup_append.mp hnodup).2.2 _ (mem_swapFrames.mpr ⟨e, he, rfl, rfl⟩) _ hmem rfl

/-- The frames obtained are pairwise distinct if the pages of the FIFO are, their frames
are, and none of these is free. -/
theorem frames_nodup (h : Obtained s p taken evs st) (hfifo : (s.mm p).fifoPgn.Nodup)
    (hfpn : ((s.mm p).fifoPgn.map fun g => pagingFpn ((s.mm p).pgd g)).Nodup)
    (hfree : s.mram.freeFpList.Nodup)
    (hdisj : ∀ g ∈ (s.mm p).fifoPgn, pagingFpn ((s.mm p).pgd g) ∉ s.mram.freeFpList) :
    (frames taken evs).Nodup := by
  rw [h.free] at hfree
  rw [h.fifo, List.map_append, List.map_reverse, List.map_map] at hfpn
  have hevs : evs.map Eviction.fpn =
      evs.map ((fun g => pagingFpn ((s.mm p).pgd g)) ∘ Eviction.pgn) :=
    List.map_congr_left fun e he => h.fpn hfifo e he
  rw [frames, List.nodup_append]
  refine ⟨(List.nodup_append.mp hfree).1, ?_, ?_⟩
  · rw [hevs]
    exact List.nodup_reverse.mp (List.nodup_append.mp hfpn).2.1
  · rintro f hf _ hf' rfl
    obtain ⟨e, he, rfl⟩ := List.mem_map.mp hf'
    refine hdisj e.pgn (h.pgn_mem he) ?_
    rw [← h.fpn hfifo e he, h.free]
    exact List.mem_append_left _ hf

end Obtained

/-- **What the loop obtains**, whether it gets all `n` frames or stops on the way. -/
theorem allocPages_obtained (s : Sys ι) (p : ι) (n : ℕ) :
    (∃ taken evs st, taken.length + evs.length = n ∧ Obtained s p taken evs st ∧
        allocPages p n { sys := s, frmLst := [] } = (0, st)) ∨
      ∃ taken evs st, taken.length + evs.length < n ∧ Obtained s p taken evs st ∧
        AllocStop p st (allocPages p n { sys := s, frmLst := [] }) := by
  have hrule := allocPages_rule (p := p)
    (I := fun k st => ∃ taken evs, taken.length + evs.length = k ∧ Obtained s p taken evs st)
    (by
      rintro k st st' ⟨taken, evs, hk, hob⟩ hst
      obtain ⟨taken', evs', hlen, hob'⟩ := hob.step hst
      exact ⟨taken', evs', by omega, hob'⟩)
    n 0 { sys := s, frmLst := [] } ⟨[], [], rfl, Obtained.refl s p⟩
  rcases hrule with ⟨st, ⟨taken, evs, hk, hob⟩, hret⟩ | ⟨m, hm, st, ⟨taken, evs, hk, hob⟩, hstop⟩
  · exact Or.inl ⟨taken, evs, st, by omega, hob, hret⟩
  · exact Or.inr ⟨taken, evs, st, by omega, hob, hstop⟩

end OsSim
