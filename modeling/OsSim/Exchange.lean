import OsSim.Lib.Pool
import OsSim.MemInv
import Mathlib.Algebra.BigOperators.Fin

/-!
# Frames and Swap Slots Changing Hands

RAM and each swap device as a pool of frames: a RAM frame is held by the resident page it
backs, a swap frame by the page evicted to it. A growth request that obtains all its frames
or none, and a page fault with a page to evict and a free swap frame, are exchanges of frames
between the free lists and pages, and keep the pools.

`Exchange s p taken evs new s'` has in one structure what both do: the process took the frames
`taken` off RAM's free list, evicted the pages of `evs`, and mapped the page `g` to the frame `f`
where `new g = some f`. The frames that came in are those that were mapped, so that none is left
over. That RAM stays a pool then is an instance of the general lemma on pools, with resident pages
as the holders, and so is it for each swap device, where the holders are the pages whose entries
name it.

The conditions are what makes a request one of these. All of its frames have to be there, or not
even one, since a request that fails on the way keeps what it has obtained; how many a process can
get is `Sys.supply`: the free ones, and those of the pages on its FIFO as far as there are free swap
frames for them. For a fault the code takes a frame of the device that `active_mswp` points to, and
records the number in `active_mswp_id`; the loader sets the former and never the latter, so that
they have to agree by chance.

## Main results

* `Exchange.ram`, `Exchange.swap`: **an exchange keeps the pools**.
* `Growth.exchange`, `Faulted.exchange`: what makes a growth request and a fault one.
-/

namespace OsSim

variable {ι : Type}

/-! ### The pools -/

/-- The number of frames `MEMPHY_format` makes: what is left over of the size is in no frame. -/
def Memphy.numFrames (mp : Memphy ι) : ℕ := (mp.maxsz.tdiv pagingPagesz).toNat

/-- The RAM frame that a page, given by its process and number, is resident in. -/
def Sys.residentFrame (s : Sys ι) (k : ι × ℕ) : Option ℕ :=
  if s.ResidentAt k.1 k.2 then some (s.fpnAt k.1 k.2) else none

/-- The frame of swap device `i` that the entry of a page records. -/
def Sys.swappedFrame (s : Sys ι) (i : Fin pagingMaxMmswp) (k : ι × ℕ) : Option ℕ :=
  let pte := (s.mm k.1).pgd k.2
  if pagingPageSwapped pte = true ∧ pagingSwptyp pte = i then some (pagingPteSwp pte) else none

/-- A page holds the RAM frame that its entry names, if it is resident. -/
theorem Sys.residentFrame_eq_some {s : Sys ι} {k : ι × ℕ} {f : ℕ} :
    s.residentFrame k = some f ↔ s.ResidentAt k.1 k.2 ∧ s.fpnAt k.1 k.2 = f := by
  rw [Sys.residentFrame]
  split <;> simp_all

/-- A page holds a frame of a swap device if its entry has SWAPPED and names the device and the
frame. -/
theorem Sys.swappedFrame_eq_some {s : Sys ι} {i : Fin pagingMaxMmswp} {k : ι × ℕ} {f : ℕ} :
    s.swappedFrame i k = some f ↔ pagingPageSwapped ((s.mm k.1).pgd k.2) = true ∧
      pagingSwptyp ((s.mm k.1).pgd k.2) = i ∧ pagingPteSwp ((s.mm k.1).pgd k.2) = f := by
  rw [Sys.swappedFrame]
  by_cases h : pagingPageSwapped ((s.mm k.1).pgd k.2) = true ∧
      pagingSwptyp ((s.mm k.1).pgd k.2) = i
  · simp [h]
  · simp only [h, if_false]
    simpa using fun h1 h2 => absurd ⟨h1, h2⟩ h

/-! ### Exchanges -/

/-- From `s` to `s'` process `p` took the RAM frames `taken`, evicted the pages of `evs`, and
mapped page `g` to frame `f` where `new g = some f`, which used up all these frames. -/
structure Exchange (s : Sys ι) (p : ι) (taken : List ℕ) (evs : List Eviction)
    (new : ℕ → Option ℕ) (s' : Sys ι) : Prop where
  free : s.mram.freeFpList = taken ++ s'.mram.freeFpList
  maxsz : s'.mram.maxsz = s.mram.maxsz
  swapFree : ∀ i, (s.mswp i).freeFpList = swapFrames evs i ++ (s'.mswp i).freeFpList
  swapMaxsz : ∀ i, (s'.mswp i).maxsz = (s.mswp i).maxsz
  victim : ∀ e ∈ evs, s.ResidentAt p e.pgn ∧ e.fpn = s.fpnAt p e.pgn ∧ e.off < 2097152
  evicted : ∀ e ∈ evs, (s'.mm p).pgd e.pgn = pteSetSwap ((s.mm p).pgd e.pgn) e.typ e.off
  clear : ∀ g f, new g = some f → pagingPagePresent ((s.mm p).pgd g) = false
  mapped : ∀ g f, new g = some f → f ∈ frames taken evs ∧ f < 8192 ∧
    ∃ pte, (s'.mm p).pgd g = pteSetFpn pte f
  used : ∀ f ∈ frames taken evs, ∃ g, new g = some f
  other : ∀ q g, ¬ (q = p ∧ (g ∈ evs.map Eviction.pgn ∨ (new g).isSome = true)) →
    (s'.mm q).pgd g = (s.mm q).pgd g

namespace Exchange

variable {s s' : Sys ι} {p : ι} {taken : List ℕ} {evs : List Eviction} {new : ℕ → Option ℕ}

/-- What has become of an entry: it is a new page's, an evicted page's, or the one it was. -/
theorem pgd_cases (h : Exchange s p taken evs new s') (q : ι) (g : ℕ) :
    (q = p ∧ ∃ f, new g = some f) ∨ (q = p ∧ ∃ e ∈ evs, e.pgn = g) ∨
      (s'.mm q).pgd g = (s.mm q).pgd g := by
  by_cases hq : q = p
  · rcases hnew : new g with _ | f
    · by_cases hg : g ∈ evs.map Eviction.pgn
      · exact Or.inr (Or.inl ⟨hq, List.mem_map.mp hg⟩)
      · exact Or.inr (Or.inr (h.other q g (by simp [hg, hnew])))
    · exact Or.inl ⟨hq, f, rfl⟩
  · exact Or.inr (Or.inr (h.other q g fun hand => hq hand.1))

/-- A new page is resident, in the frame that it was given. -/
theorem resident_new (h : Exchange s p taken evs new s') {g f : ℕ} (hg : new g = some f) :
    s'.ResidentAt p g ∧ s'.fpnAt p g = f := by
  obtain ⟨-, hlt, pte, hpte⟩ := h.mapped g f hg
  rw [Sys.ResidentAt, Sys.fpnAt, hpte]
  exact ⟨resident_pteSetFpn _ _, pagingFpn_pteSetFpn _ hlt⟩

/-- An evicted page holds the swap frame that its eviction names. -/
theorem swapped_evicted (h : Exchange s p taken evs new s') {e : Eviction} (he : e ∈ evs) :
    s'.swappedFrame e.typ (p, e.pgn) = some e.off := by
  rw [Sys.swappedFrame_eq_some]
  simp only [h.evicted e he]
  exact ⟨pagingPageSwapped_pteSetSwap _ _ _, e.pagingSwptyp_pte _,
    pagingPteSwp_pteSetSwap _ _ (h.victim e he).2.2⟩

/-- **RAM stays a pool**: the frames exchanged come from the free list or from the pages evicted,
and the new pages hold them. -/
theorem ram (h : Exchange s p taken evs new s') (hs' : FrameInv s')
    (hpool : Pool s.mram.numFrames s.mram.freeFpList s.residentFrame) :
    Pool s'.mram.numFrames s'.mram.freeFpList s'.residentFrame := by
  rw [Memphy.numFrames, h.maxsz, ← Memphy.numFrames]
  rw [h.free] at hpool
  refine hpool.reassign (frames taken evs) (fun f hf => List.mem_append_left _ hf)
    ?_ ?_ ?_ ?_
  · intro f hf
    refine (List.mem_append.mp hf).imp_right ?_
    intro hf
    obtain ⟨e, he, rfl⟩ := List.mem_map.mp hf
    obtain ⟨hres, hfpn, -⟩ := h.victim e he
    exact ⟨(p, e.pgn), Sys.residentFrame_eq_some.mpr ⟨hres, hfpn.symm⟩⟩
  · intro k f hk
    obtain ⟨hres, hfpn⟩ := Sys.residentFrame_eq_some.mp hk
    rcases h.pgd_cases k.1 k.2 with ⟨hq, f', hnew⟩ | ⟨hq, e, he, hg⟩ | hold
    · left
      rw [← hfpn, hq, (h.resident_new hnew).2]
      exact (h.mapped _ _ hnew).1
    · rw [Sys.ResidentAt, hq, ← hg, h.evicted e he] at hres
      exact absurd hres (not_resident_pteSetSwap _ _ _)
    · right
      rw [Sys.ResidentAt, hold] at hres
      rw [Sys.fpnAt, hold] at hfpn
      exact Sys.residentFrame_eq_some.mpr ⟨hres, hfpn⟩
  · intro k f hk hf
    obtain ⟨hres, hfpn⟩ := Sys.residentFrame_eq_some.mp hk
    rcases h.pgd_cases k.1 k.2 with ⟨hq, f', hnew⟩ | ⟨hq, e, he, hg⟩ | hold
    · rw [Sys.ResidentAt, hq] at hres
      exact absurd hres (not_resident_of_absent (h.clear _ _ hnew))
    · refine absurd (List.mem_append_right _ (List.mem_map.mpr ⟨e, he, ?_⟩)) hf
      rw [(h.victim e he).2.1, ← hfpn, hq, hg]
    · rw [Sys.ResidentAt, ← hold] at hres
      rw [Sys.fpnAt, ← hold] at hfpn
      exact Sys.residentFrame_eq_some.mpr ⟨hres, hfpn⟩
  · intro f hf
    obtain ⟨g, hnew⟩ := h.used f hf
    have hg := h.resident_new hnew
    refine ⟨(p, g), Sys.residentFrame_eq_some.mpr hg, ?_⟩
    intro k hk
    obtain ⟨hres, hfpn⟩ := Sys.residentFrame_eq_some.mp hk
    obtain ⟨hp, hg'⟩ := hs'.inj _ _ _ _ hres hg.1 (hfpn.trans hg.2.symm)
    exact Prod.ext hp hg'

/-- **Each swap device stays a pool**: the frames taken off its list are held by the pages evicted
to it. -/
theorem swap (h : Exchange s p taken evs new s')
    (hpres : ∀ q g, pagingPageSwapped ((s.mm q).pgd g) = true →
      pagingPagePresent ((s.mm q).pgd g) = true) (i : Fin pagingMaxMmswp)
    (hpool : Pool (s.mswp i).numFrames (s.mswp i).freeFpList (s.swappedFrame i)) :
    Pool (s'.mswp i).numFrames (s'.mswp i).freeFpList (s'.swappedFrame i) := by
  rw [Memphy.numFrames, h.swapMaxsz, ← Memphy.numFrames]
  have hnodup := hpool.nodup
  have hnot {k : ι × ℕ} {f : ℕ} (hk : s.swappedFrame i k = some f) : f ∉ swapFrames evs i :=
    fun hf => hpool.held_not_free hk (by rw [h.swapFree]; exact List.mem_append_left _ hf)
  rw [h.swapFree] at hpool hnodup
  -- an entry that records a swap frame afterwards is a victim's or recorded it before
  have hcases {k : ι × ℕ} {f : ℕ} (hk : s'.swappedFrame i k = some f) :
      (∃ e ∈ evs, e.typ = i ∧ e.off = f ∧ k = (p, e.pgn)) ∨ s.swappedFrame i k = some f := by
    rcases h.pgd_cases k.1 k.2 with ⟨hq, f', hnew⟩ | ⟨hq, e, he, hg⟩ | hold
    · have hsw := (Sys.swappedFrame_eq_some.mp hk).1
      rw [hq, (h.resident_new hnew).1.2] at hsw
      exact absurd hsw Bool.false_ne_true
    · left
      have heq : k = (p, e.pgn) := Prod.ext hq hg.symm
      rw [heq] at hk
      have hev := Sys.swappedFrame_eq_some.mp (h.swapped_evicted he)
      obtain ⟨-, htyp, hoff⟩ := Sys.swappedFrame_eq_some.mp hk
      exact ⟨e, he, Fin.ext (hev.2.1.symm.trans htyp), hev.2.2.symm.trans hoff, heq⟩
    · right
      rw [Sys.swappedFrame_eq_some, ← hold]
      exact Sys.swappedFrame_eq_some.mp hk
  refine hpool.reassign (swapFrames evs i) (fun f hf => hf) (fun f hf => Or.inl hf)
    ?_ ?_ ?_
  · intro k f hk
    exact (hcases hk).imp_left fun ⟨e, he, htyp, hoff, _⟩ =>
      mem_swapFrames.mpr ⟨e, he, htyp, hoff⟩
  · intro k f hk _
    have hsw := Sys.swappedFrame_eq_some.mp hk
    rcases h.pgd_cases k.1 k.2 with ⟨hq, f', hnew⟩ | ⟨hq, e, he, hg⟩ | hold
    · have hmem := hpres _ _ hsw.1
      rw [hq, h.clear _ _ hnew] at hmem
      exact absurd hmem Bool.false_ne_true
    · have hres := (h.victim e he).1.2
      rw [hg, ← hq, hsw.1] at hres
      exact absurd hres.symm Bool.false_ne_true
    · rw [Sys.swappedFrame_eq_some, hold]
      exact hsw
  · intro f hf
    obtain ⟨e, he, rfl, rfl⟩ := mem_swapFrames.mp hf
    refine ⟨(p, e.pgn), h.swapped_evicted he, ?_⟩
    intro k hk
    rcases hcases hk with ⟨e', he', htyp, hoff, hkeq⟩ | hold
    · have heq : e' = e := List.inj_on_of_nodup_map (List.nodup_append.mp hnodup).1
        (List.mem_filter.mpr ⟨he', by simpa using htyp⟩) (List.mem_filter.mpr ⟨he, by simp⟩) hoff
      rw [hkeq, heq]
    · exact absurd hf (hnot hold)

/-- Only a page that is present records a swap frame, before and after. -/
theorem present (h : Exchange s p taken evs new s')
    (hpres : ∀ q g, pagingPageSwapped ((s.mm q).pgd g) = true →
      pagingPagePresent ((s.mm q).pgd g) = true) (q : ι) (g : ℕ)
    (hsw : pagingPageSwapped ((s'.mm q).pgd g) = true) :
    pagingPagePresent ((s'.mm q).pgd g) = true := by
  rcases h.pgd_cases q g with ⟨rfl, f, hnew⟩ | ⟨rfl, e, he, rfl⟩ | hold
  · exact (h.resident_new hnew).1.1
  · rw [h.evicted e he, pagingPagePresent_pteSetSwap]
  · rw [hold] at hsw ⊢
    exact hpres q g hsw

end Exchange

/-! ### Growth requests -/

/-- Process `p` can obtain `n` frames, or not even one. -/
def Sys.AllOrNone (s : Sys ι) (p : ι) (n : ℕ) : Prop :=
  n ≤ s.mram.freeFpList.length ∨
    (n - s.mram.freeFpList.length ≤ (s.mm p).fifoPgn.length ∧
      n - s.mram.freeFpList.length ≤ ∑ i, (s.mswp i).freeFpList.length) ∨
    (s.mram.freeFpList = [] ∧
      ((s.mm p).fifoPgn = [] ∨ ∀ i, (s.mswp i).freeFpList = []))

instance (s : Sys ι) (p : ι) (n : ℕ) : Decidable (s.AllOrNone p n) :=
  inferInstanceAs (Decidable (_ ∨ _))

/-- A request for `n` pages from `pgn` on that exchanges frames: the pages are not mapped yet,
the frames next in line have numbers that an entry can hold, and all of them can be
obtained or none. -/
structure Sys.RequestFits (s : Sys ι) (p : ι) (pgn n : ℕ) : Prop where
  clear : ∀ g, pgn ≤ g → g < pgn + n → pagingPagePresent ((s.mm p).pgd g) = false
  fpn_lt : ∀ f ∈ s.mram.freeFpList.take n, f < 8192
  off_lt : ∀ i, ∀ o ∈ (s.mswp i).freeFpList.take n, o < 2097152
  supply : s.AllOrNone p n

instance (s : Sys ι) (p : ι) (pgn n : ℕ) : Decidable (s.RequestFits p pgn n) :=
  decidable_of_iff ((∀ g, pgn ≤ g → g < pgn + n → pagingPagePresent ((s.mm p).pgd g) = false) ∧
      (∀ f ∈ s.mram.freeFpList.take n, f < 8192) ∧
      (∀ i, ∀ o ∈ (s.mswp i).freeFpList.take n, o < 2097152) ∧ s.AllOrNone p n)
    ⟨fun ⟨h1, h2, h3, h4⟩ => ⟨h1, h2, h3, h4⟩, fun ⟨h1, h2, h3, h4⟩ => ⟨h1, h2, h3, h4⟩⟩

/-- Every eviction took one swap frame, from one of the devices. -/
theorem sum_length_swapFrames (evs : List Eviction) :
    ∑ i, (swapFrames evs i).length = evs.length := by
  induction evs with
  | nil => simp [swapFrames]
  | cons e evs ih =>
      have hcons (i : Fin pagingMaxMmswp) : (swapFrames (e :: evs) i).length =
          (if e.typ = i then 1 else 0) + (swapFrames evs i).length := by
        by_cases hi : e.typ = i
        · simp [swapFrames, hi, Nat.add_comm]
        · simp [swapFrames, hi]
      simp only [hcons, Finset.sum_add_distrib, ih, List.length_cons]
      simp [Nat.add_comm]

/-- How many frames process `p` can obtain: the free ones, and those of the pages on its FIFO, as
far as there are free swap frames for them. -/
def Sys.supply (s : Sys ι) (p : ι) : ℕ :=
  s.mram.freeFpList.length + min (s.mm p).fifoPgn.length (∑ i, (s.mswp i).freeFpList.length)

variable [DecidableEq ι]

/-- What has been obtained is within the supply, and all of it when the loop had to stop. -/
theorem Obtained.le_supply {s : Sys ι} {p : ι} {taken : List ℕ} {evs : List Eviction}
    {st : AllocState ι} (hob : Obtained s p taken evs st) :
    taken.length + evs.length ≤ s.supply p ∧
      (st.sys.mram.freeFpList = [] →
        ((st.sys.mm p).fifoPgn = [] ∨ ∀ i, (st.sys.mswp i).freeFpList = []) →
        taken.length + evs.length = s.supply p) := by
  have hfree := congrArg List.length hob.free
  have hfifo := congrArg List.length hob.fifo
  have hswap (i : Fin pagingMaxMmswp) := congrArg List.length (hob.swapFree i)
  simp only [List.length_append, List.length_reverse, List.length_map] at hfree hfifo hswap
  have hslots : ∑ i, (s.mswp i).freeFpList.length =
      evs.length + ∑ i, (st.sys.mswp i).freeFpList.length := by
    simp only [hswap, Finset.sum_add_distrib, sum_length_swapFrames]
  rw [Sys.supply]
  refine ⟨by omega, fun hnone hstop => ?_⟩
  rw [hnone] at hfree
  rcases hstop with hnovic | hnoslot
  · rw [hnovic] at hfifo
    simp only [List.length_nil] at hfree hfifo
    omega
  · simp only [hnoslot, List.length_nil, Finset.sum_const_zero] at hfree hslots
    omega

/-- **Which requests are met**: those within the supply, and no others. -/
theorem allocPages_eq_zero_iff (s : Sys ι) (p : ι) (n : ℕ) :
    (allocPages p n { sys := s, frmLst := [] }).1 = 0 ↔ n ≤ s.supply p := by
  rcases allocPages_obtained s p n with
    ⟨taken, evs, st, hlen, hob, hret⟩ | ⟨taken, evs, st, hlen, hob, hstop⟩
  · have hle := hob.le_supply.1
    rw [hret]
    exact iff_of_true rfl (by omega)
  · have hneg := hstop.code_neg
    have hall : taken.length + evs.length = s.supply p := by
      generalize allocPages p n { sys := s, frmLst := [] } = r at hstop
      cases hstop with
      | noVictim hfree hfifo => exact hob.le_supply.2 hfree (Or.inl hfifo)
      | noSwap v fifo hfree hfifo hswap => exact hob.le_supply.2 hfree (Or.inr hswap)
    exact iff_of_false (by omega) (by omega)

/-- A loop that stopped short although all frames or none can be obtained has obtained
none. -/
theorem Sys.AllOrNone.obtained_nil {s : Sys ι} {p : ι} {n : ℕ} (h : s.AllOrNone p n)
    {taken : List ℕ} {evs : List Eviction} {st : AllocState ι} (hob : Obtained s p taken evs st)
    (hlen : taken.length + evs.length < n) (hfree : st.sys.mram.freeFpList = [])
    (hstop : (st.sys.mm p).fifoPgn = [] ∨ ∀ i, (st.sys.mswp i).freeFpList = []) :
    taken = [] ∧ evs = [] := by
  have htaken : s.mram.freeFpList = taken := by
    rw [hob.free, hfree, List.append_nil]
  have hfifo := congrArg List.length hob.fifo
  have hswap (i : Fin pagingMaxMmswp) := congrArg List.length (hob.swapFree i)
  simp only [List.length_append, List.length_reverse, List.length_map] at hfifo hswap
  rcases h with hall | ⟨hvic, hslot⟩ | ⟨hnone, hnil⟩
  · rw [htaken] at hall
    omega
  · rw [htaken] at hvic hslot
    rcases hstop with hnovic | hnoslot
    · rw [hnovic] at hfifo
      simp only [List.length_nil] at hfifo
      omega
    · simp only [hswap, hnoslot, List.length_nil, Nat.add_zero, sum_length_swapFrames] at hslot
      omega
  · refine ⟨htaken ▸ hnone, ?_⟩
    rcases hnil with hnovic | hnoslot
    · rw [hnovic] at hfifo
      exact List.length_eq_zero_iff.mp (by simp at hfifo; omega)
    · refine List.eq_nil_iff_forall_not_mem.mpr ?_
      intro e he
      have hmem := hob.off_mem he
      rw [hnoslot] at hmem
      cases hmem

/-- All outcomes of a growth request that fits in one form: the frames obtained are mapped, and the
FIFO may be shorter. -/
theorem Growth.obtained_mapped {s s' : Sys ι} {p : ι} {pgn n : ℕ} {code : ℤ}
    (h : Growth s p pgn n code s') (hsupply : s.AllOrNone p n) : ∃ taken evs st mm fifo,
      Obtained s p taken evs st ∧ taken.length + evs.length ≤ n ∧
      Mapped (st.sys.mm p) pgn (frames taken evs).reverse mm ∧
      s' = st.sys.setMm p { mm with fifoPgn := fifo } := by
  cases h with
  | mapped taken evs st mm hlen hob hmap =>
      exact ⟨taken, evs, st, mm, mm.fifoPgn, hob, hlen.le, hmap, rfl⟩
  | noVictim taken evs st hlen hob hfree hfifo =>
      obtain ⟨rfl, rfl⟩ := hsupply.obtained_nil hob hlen hfree (Or.inl hfifo)
      exact ⟨[], [], st, st.sys.mm p, (st.sys.mm p).fifoPgn, hob, hlen.le, mapped_nil _ _,
        (Sys.setMm_mm _ _).symm⟩
  | noSwap taken evs st v fifo hlen hob hfree hfifo hswap =>
      obtain ⟨rfl, rfl⟩ := hsupply.obtained_nil hob hlen hfree (Or.inr hswap)
      exact ⟨[], [], st, st.sys.mm p, fifo, hob, hlen.le, mapped_nil _ _, rfl⟩

/-- Which of the frames `fs` page `g` gets, mapped from page `pgn` on in their order. -/
def placed (pgn : ℕ) (fs : List ℕ) (g : ℕ) : Option ℕ := if pgn ≤ g then fs[g - pgn]? else none

/-- A page of the range gets the frame at its place. -/
theorem placed_eq_some_iff {pgn g f : ℕ} {fs : List ℕ} :
    placed pgn fs g = some f ↔ pgn ≤ g ∧ g < pgn + fs.length ∧ fs[g - pgn]? = some f := by
  rw [placed]
  split_ifs with hle
  · refine ⟨fun hget => ?_, fun h => h.2.2⟩
    have hlt := (List.getElem?_eq_some_iff.mp hget).1
    exact ⟨hle, by omega, hget⟩
  · exact iff_of_false not_false fun h => hle h.1

/-- **A growth request that fits is an exchange**, whatever its outcome: of all its frames, or of
none. -/
theorem Growth.exchange {s s' : Sys ι} {p : ι} {pgn n : ℕ} {code : ℤ} (hs : FrameInv s)
    (h : Growth s p pgn n code s') (hfits : s.RequestFits p pgn n) :
    ∃ taken evs new, Exchange s p taken evs new s' := by
  obtain ⟨taken, evs, st, mm, fifo, hob, hlen, hmap, rfl⟩ := h.obtained_mapped hfits.supply
  have hnodup := hs.fifo_nodup p
  have htaken : ∀ f ∈ taken, f < 8192 := by
    intro f hf
    refine hfits.fpn_lt f ?_
    rw [hob.free, List.take_append]
    exact List.mem_append_left _ (by rwa [List.take_of_length_le (by omega)])
  have hoff : ∀ e ∈ evs, e.off < 2097152 := by
    intro e he
    have hslots := length_swapFrames_le evs e.typ
    refine hfits.off_lt e.typ e.off ?_
    rw [hob.swapFree, List.take_append, List.take_of_length_le (by omega)]
    exact List.mem_append_left _ (mem_swapFrames.mpr ⟨e, he, rfl, rfl⟩)
  have hvictim : ∀ e ∈ evs, s.ResidentAt p e.pgn ∧ e.fpn = s.fpnAt p e.pgn ∧ e.off < 2097152 :=
    fun e he => ⟨(hob.evicted hs he).1, (hob.evicted hs he).2, hoff e he⟩
  refine ⟨taken, evs, placed pgn (frames taken evs).reverse, ?_⟩
  exact
    { free := hob.free
      maxsz := by rw [Sys.mram_setMm, hob.mram]
      swapFree := hob.swapFree
      swapMaxsz := hob.maxsz
      victim := hvictim
      evicted := by
        intro e he
        rw [Sys.mm_setMm_self]
        simp only
        rw [hmap.pgd_out _ fun hmem => ?_, hob.pgd_evicted hnodup e he]
        have hclear := hfits.clear e.pgn hmem.1 (by simp at hmem; omega)
        exact not_resident_of_absent hclear (hvictim e he).1
      clear := by
        intro g f hg
        obtain ⟨hlo, hhi, -⟩ := placed_eq_some_iff.mp hg
        exact hfits.clear g hlo (by simp at hhi; omega)
      mapped := by
        intro g f hg
        obtain ⟨hlo, hhi, hf⟩ := placed_eq_some_iff.mp hg
        obtain ⟨hj, hget⟩ := List.getElem?_eq_some_iff.mp hf
        have hmem : f ∈ frames taken evs := List.mem_reverse.mp (hget ▸ List.getElem_mem hj)
        refine ⟨hmem, ?_, (st.sys.mm p).pgd g, ?_⟩
        · rcases List.mem_append.mp hmem with hf' | hf'
          · exact htaken f hf'
          · obtain ⟨e, he, rfl⟩ := List.mem_map.mp hf'
            rw [(hvictim e he).2.1]
            exact pagingFpn_lt _
        · have hpte := hmap.pgd_in (g - pgn) hj
          rw [show pgn + (g - pgn) = g by omega, hget] at hpte
          rw [Sys.mm_setMm_self]
          exact hpte
      used := by
        intro f hf
        obtain ⟨j, hj, hget⟩ := List.mem_iff_getElem.mp (List.mem_reverse.mpr hf)
        refine ⟨pgn + j, placed_eq_some_iff.mpr ⟨by omega, by omega, ?_⟩⟩
        rw [Nat.add_sub_cancel_left]
        exact List.getElem?_eq_some_iff.mpr ⟨hj, hget⟩
      other := by
        intro q g hnot
        by_cases hq : q = p
        · subst hq
          rw [Sys.mm_setMm_self]
          simp only [true_and, not_or] at hnot
          have hout : ¬ (pgn ≤ g ∧ g < pgn + (frames taken evs).reverse.length) := by
            rintro ⟨hlo, hhi⟩
            have hlt : g - pgn < (frames taken evs).reverse.length := by omega
            exact hnot.2 (Option.isSome_iff_exists.mpr
              ⟨_, placed_eq_some_iff.mpr ⟨hlo, hhi, List.getElem?_eq_getElem hlt⟩⟩)
          simp only
          rw [hmap.pgd_out g hout, hob.pgd_other g hnot.1]
        · rw [Sys.mm_setMm_of_ne _ _ _ hq, hob.mm_of_ne hq] }

/-! ### Page faults -/

/-- A fault of process `p` is an exchange: there is a page to evict, the active device has a
free frame that an entry can record, and the process records its index. -/
def Sys.FaultFits (s : Sys ι) (p : ι) : Prop :=
  (s.mm p).fifoPgn ≠ [] ∧ (s.procs p).activeMswpId = s.active p ∧
    (s.mswp (s.active p)).freeFpList.head?.any (· < 2097152) = true

omit [DecidableEq ι] in
instance (s : Sys ι) (p : ι) : Decidable (s.FaultFits p) :=
  inferInstanceAs (Decidable (_ ∧ _ ∧ _))

/-- **Such a fault is an exchange** of one frame and one swap frame: the page evicted gives its
frame to the page that is brought in. -/
theorem Faulted.exchange {s s' : Sys ι} {p : ι} {pgn : ℕ} (hs : FrameInv s)
    (h : Faulted s p pgn s') (habsent : pagingPagePresent ((s.mm p).pgd pgn) = false)
    (hfits : s.FaultFits p) : ∃ taken evs new, Exchange s p taken evs new s' := by
  obtain ⟨hfifo, hid, hslot⟩ := hfits
  obtain ⟨off, hhead, hlt⟩ := (Option.any_eq_true _ _).mp hslot
  have hoff : s.faultSlot p = off := by rw [Sys.faultSlot, hhead, Option.getD_some]
  have hfree : (s.mswp (s.active p)).freeFpList =
      off :: (s.mswp (s.active p)).freeFpList.tail := (List.cons_head?_tail hhead).symm
  have hvic : s.ResidentAt p (s.mm p).victim.1 := by
    refine hs.fifo_resident p _ ?_
    rw [Mm.fifoPgn_eq hfifo]
    exact List.mem_append_right _ (List.mem_singleton_self _)
  set v := (s.mm p).victim.1 with hv
  have hne : v ≠ pgn := fun heq => not_resident_of_absent habsent (heq ▸ hvic)
  have hnew {g f : ℕ} (hg : (if g = pgn then some (s.fpnAt p v) else none) = some f) :
      g = pgn ∧ f = s.fpnAt p v := by
    split at hg
    · rename_i heq
      exact ⟨heq, (Option.some.inj hg).symm⟩
    · simp at hg
  refine ⟨[], [⟨v, s.fpnAt p v, s.active p, off⟩],
    fun g => if g = pgn then some (s.fpnAt p v) else none, ?_⟩
  exact
    { free := by rw [h.mram]; rfl
      maxsz := by rw [h.mram]
      swapFree := by
        intro i
        rw [h.free]
        by_cases hi : i = s.active p
        · rw [if_pos hi, hi]
          simpa [swapFrames] using hfree
        · rw [if_neg hi]
          simp [swapFrames, Ne.symm hi]
      swapMaxsz := h.maxsz
      victim := by
        intro e he
        obtain rfl := List.mem_singleton.mp he
        exact ⟨hvic, rfl, by simpa using hlt⟩
      evicted := by
        intro e he
        obtain rfl := List.mem_singleton.mp he
        rw [h.mm, hid, hoff]
        exact Mm.pgd_fault_victim _ _ _ hne
      clear := by
        intro g f hg
        rw [(hnew hg).1]
        exact habsent
      mapped := by
        intro g f hg
        obtain ⟨rfl, rfl⟩ := hnew hg
        refine ⟨by simp [frames], pagingFpn_lt _, (s.mm p).pgd g, ?_⟩
        rw [h.mm, Mm.pgd_fault_self]
      used := by
        intro f hf
        obtain rfl : f = s.fpnAt p v := by simpa [frames] using hf
        exact ⟨pgn, if_pos rfl⟩
      other := by
        intro q g hnot
        by_cases hq : q = p
        · subst hq
          simp only [true_and, not_or, List.map_cons, List.map_nil, List.mem_singleton] at hnot
          have hg : g ≠ pgn := fun heq => hnot.2 (by rw [if_pos heq]; rfl)
          rw [h.mm, Mm.pgd_fault_of_ne _ _ _ hg hnot.1]
        · rw [Sys.mm, h.procs q hq, Sys.mm] }

end OsSim
