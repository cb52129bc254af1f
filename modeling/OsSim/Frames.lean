import OsSim.GrowArea

/-!
# Who Holds Which Frame

The invariant that ties RAM's two frame lists to the page tables and FIFOs of all processes,
and its preservation by a growth request with any outcome, as long as the request maps
pages that are not mapped yet and takes frame numbers that an entry can hold.

A frame is free, or on the used list with its owner, and at most one resident page of the owner
holds it. The invariant does not say that every used frame is held: a request that fails on the way
leaves frames on the used list which no page has. It does say that the pages on a FIFO are resident
and distinct, since these are the pages that the next request may evict.

The proof follows the two halves of a request. Obtaining frames (`Obtained.frameInv`) moves frames
from the free list to the used one and takes the pages evicted off their frames; the frames obtained
are then pending, owned by the process and held by nobody (`Pending`). Mapping them
(`FrameInv.map`) gives each of them to one page. What both steps share is `FrameInv.holders`: if
every page that is resident afterwards has its old entry or is a new one with a frame of its own,
then resident pages still have frames of their own.

The two conditions cannot be dropped. A page that is mapped already would lose its frame without
giving it back, and stand on the FIFO twice; a frame number from 8192 on would be cut off in the
entry and name another frame.

## Main results

* `Obtained.frameInv`: obtaining frames keeps the invariant, and nothing holds the frames
  obtained.
* `FrameInv.map`: mapping them keeps it.
* `FrameInv.growth`: **a growth request keeps the invariant**, whatever its outcome.
-/

namespace OsSim

variable {ι : Type}

/-- Page `g` of process `p` is resident: its entry names a RAM frame. -/
abbrev Sys.ResidentAt (s : Sys ι) (p : ι) (g : ℕ) : Prop := Resident ((s.mm p).pgd g)

/-- The frame the entry of page `g` of process `p` names, which means something for a resident page
only. -/
abbrev Sys.fpnAt (s : Sys ι) (p : ι) (g : ℕ) : ℕ := pagingFpn ((s.mm p).pgd g)

/-- RAM's frame numbers, free ones first, and then the used ones. -/
def Memphy.allFrames (mp : Memphy ι) : List ℕ :=
  mp.freeFpList ++ mp.usedFpList.map Framephy.fpn

/-- **Frame exclusivity**, with what carries it: no frame number is listed twice, free or
used; a resident page's frame is used by its process; no two resident pages share a frame;
and the FIFOs list resident pages, each once. -/
structure FrameInv (s : Sys ι) : Prop where
  nodup : s.mram.allFrames.Nodup
  hasFrame : ∀ f ∈ s.mram.allFrames, s.mram.HasFrame f
  used_lt : ∀ u ∈ s.mram.usedFpList, u.fpn < 8192
  owned : ∀ p g, s.ResidentAt p g → ⟨s.fpnAt p g, p⟩ ∈ s.mram.usedFpList
  inj : ∀ p g q h, s.ResidentAt p g → s.ResidentAt q h → s.fpnAt p g = s.fpnAt q h →
    p = q ∧ g = h
  fifo_nodup : ∀ p, (s.mm p).fifoPgn.Nodup
  fifo_resident : ∀ p, ∀ g ∈ (s.mm p).fifoPgn, s.ResidentAt p g

/-- Only regions, areas and bytes may differ, which the invariant does not speak of. -/
structure SameFrames (s s' : Sys ι) : Prop where
  free : s'.mram.freeFpList = s.mram.freeFpList
  used : s'.mram.usedFpList = s.mram.usedFpList
  maxsz : s'.mram.maxsz = s.mram.maxsz
  pgd : ∀ q, (s'.mm q).pgd = (s.mm q).pgd
  fifo : ∀ q, (s'.mm q).fifoPgn = (s.mm q).fifoPgn

/-- Replacing an `mm` by one with the same entries and FIFO. -/
theorem sameFrames_setMm [DecidableEq ι] {s : Sys ι} {p : ι} {mm : Mm}
    (hpgd : mm.pgd = (s.mm p).pgd) (hfifo : mm.fifoPgn = (s.mm p).fifoPgn) :
    SameFrames s (s.setMm p mm) := by
  refine ⟨rfl, rfl, rfl, fun q => ?_, fun q => ?_⟩ <;>
  · rw [Sys.mm_setMm]
    split
    · rename_i hq
      subst hq
      assumption
    · rfl

namespace FrameInv

variable {s s' : Sys ι}

/-- **Frames changing hands.** Where every page resident afterwards has its old entry or is a
new one, whose process owns its frame and which shares it with no other page, resident pages
still have frames of their own. -/
theorem holders (h : FrameInv s) {new : ι → ℕ → Prop}
    (hcases : ∀ q g, s'.ResidentAt q g → new q g ∨ (s'.mm q).pgd g = (s.mm q).pgd g)
    (howned : ∀ q g, new q g → ⟨s'.fpnAt q g, q⟩ ∈ s.mram.usedFpList)
    (hapart : ∀ q g q' g', new q g → s'.ResidentAt q' g' → s'.fpnAt q g = s'.fpnAt q' g' →
      q = q' ∧ g = g') :
    (∀ q g, s'.ResidentAt q g → ⟨s'.fpnAt q g, q⟩ ∈ s.mram.usedFpList) ∧
      ∀ q g q' g', s'.ResidentAt q g → s'.ResidentAt q' g' → s'.fpnAt q g = s'.fpnAt q' g' →
        q = q' ∧ g = g' := by
  constructor
  · intro q g hres
    rcases hcases q g hres with hnew | hold
    · exact howned q g hnew
    · rw [Sys.ResidentAt, hold] at hres
      rw [Sys.fpnAt, hold]
      exact h.owned q g hres
  · intro q g q' g' hres hres' heq
    rcases hcases q g hres with hnew | hold
    · exact hapart q g q' g' hnew hres' heq
    · rcases hcases q' g' hres' with hnew' | hold'
      · obtain ⟨rfl, rfl⟩ := hapart q' g' q g hnew' hres heq.symm
        exact ⟨rfl, rfl⟩
      · rw [Sys.ResidentAt, hold] at hres
        rw [Sys.ResidentAt, hold'] at hres'
        rw [Sys.fpnAt, hold, Sys.fpnAt, hold'] at heq
        exact h.inj q g q' g' hres hres' heq

/-- Where one process changes, only its own FIFO is to be looked at. -/
theorem fifo_of_one (h : FrameInv s) {p : ι} (hother : ∀ q, q ≠ p → s'.mm q = s.mm q)
    (hnodup : (s'.mm p).fifoPgn.Nodup) (hres : ∀ g ∈ (s'.mm p).fifoPgn, s'.ResidentAt p g) :
    (∀ q, (s'.mm q).fifoPgn.Nodup) ∧ ∀ q, ∀ g ∈ (s'.mm q).fifoPgn, s'.ResidentAt q g := by
  refine forall_and.mp fun q => ?_
  by_cases hq : q = p
  · subst hq
    exact ⟨hnodup, hres⟩
  · simp only [Sys.ResidentAt, hother q hq]
    exact ⟨h.fifo_nodup q, h.fifo_resident q⟩

/-- The invariant is a matter of the frame lists, the entries and the FIFOs. -/
theorem congr (h : FrameInv s) (hs : SameFrames s s') : FrameInv s' := by
  have hall : s'.mram.allFrames = s.mram.allFrames := by
    rw [Memphy.allFrames, hs.free, hs.used, Memphy.allFrames]
  have hcases (q : ι) (g : ℕ) (_ : s'.ResidentAt q g) :
      False ∨ (s'.mm q).pgd g = (s.mm q).pgd g := Or.inr (congrFun (hs.pgd q) g)
  obtain ⟨howned, hinj⟩ := h.holders hcases (fun _ _ => False.elim) fun _ _ _ _ => False.elim
  refine
    { nodup := hall ▸ h.nodup
      hasFrame := fun f hf => (h.hasFrame f (hall ▸ hf)).of_maxsz hs.maxsz
      used_lt := hs.used ▸ h.used_lt
      owned := hs.used ▸ howned
      inj := hinj
      fifo_nodup := fun p => hs.fifo p ▸ h.fifo_nodup p
      fifo_resident := ?_ }
  intro p g hg
  rw [hs.fifo] at hg
  rw [Sys.ResidentAt, hs.pgd]
  exact h.fifo_resident p g hg

/-- A resident page's frame is one of RAM's frames, free or in use. -/
theorem fpnAt_mem (h : FrameInv s) {p : ι} {g : ℕ} (hres : s.ResidentAt p g) :
    s.fpnAt p g ∈ s.mram.allFrames :=
  List.mem_append_right _ (List.mem_map.mpr ⟨_, h.owned p g hres, rfl⟩)

/-- A resident page's frame is not free: it is on the used list, and no number is on both. -/
theorem fpnAt_not_free (h : FrameInv s) {p : ι} {g : ℕ} (hres : s.ResidentAt p g) :
    s.fpnAt p g ∉ s.mram.freeFpList := by
  intro hfree
  have hdisj := (List.nodup_append.mp h.nodup).2.2
  exact hdisj _ hfree _ (List.mem_map.mpr ⟨_, h.owned p g hres, rfl⟩) rfl

end FrameInv

/-! ### Frames obtained and not mapped yet -/

variable [DecidableEq ι]

/-- Process `p` owns the frames `fs`, and no resident page holds one of them. -/
structure Pending (s : Sys ι) (p : ι) (fs : List ℕ) : Prop where
  nodup : fs.Nodup
  owned : ∀ f ∈ fs, ⟨f, p⟩ ∈ s.mram.usedFpList
  unheld : ∀ f ∈ fs, ∀ q g, s.ResidentAt q g → s.fpnAt q g ≠ f

section

variable {s : Sys ι} {p : ι} {taken : List ℕ} {evs : List Eviction} {st : AllocState ι}

/-- A page resident after frames were obtained was not evicted and has its old entry. -/
theorem Obtained.resident_old (h : Obtained s p taken evs st)
    (hnodup : (s.mm p).fifoPgn.Nodup) {q : ι} {g : ℕ} (hres : st.sys.ResidentAt q g) :
    (st.sys.mm q).pgd g = (s.mm q).pgd g ∧ ¬ (q = p ∧ g ∈ evs.map Eviction.pgn) := by
  by_cases hq : q = p
  · subst hq
    have hev : g ∉ evs.map Eviction.pgn := by
      intro hmem
      obtain ⟨e, he, rfl⟩ := List.mem_map.mp hmem
      rw [Sys.ResidentAt, h.pgd_evicted hnodup e he] at hres
      exact not_resident_pteSetSwap _ _ _ hres
    exact ⟨h.pgd_other g hev, fun hmem => hev hmem.2⟩
  · refine ⟨?_, fun hmem => hq hmem.1⟩
    rw [Sys.mm, h.procs, Function.update_of_ne hq, Sys.mm]

/-- An evicted page was resident, and its frame is the one obtained. -/
theorem Obtained.evicted (h : Obtained s p taken evs st) (hs : FrameInv s) {e : Eviction}
    (he : e ∈ evs) : s.ResidentAt p e.pgn ∧ e.fpn = s.fpnAt p e.pgn :=
  ⟨hs.fifo_resident p e.pgn (h.pgn_mem he), h.fpn (hs.fifo_nodup p) e he⟩

/-- The frames taken are at the head of the used list, the last one first, with the process as
owner. -/
theorem Obtained.used (h : Obtained s p taken evs st) :
    st.sys.mram.usedFpList = (taken.map fun f => ⟨f, p⟩).reverse ++ s.mram.usedFpList := by
  rw [h.mram]

/-- The other processes are left alone: eviction is from the caller's own pages. -/
theorem Obtained.mm_of_ne (h : Obtained s p taken evs st) {q : ι} (hq : q ≠ p) :
    st.sys.mm q = s.mm q := by
  rw [Sys.mm, h.procs, Function.update_of_ne hq, Sys.mm]

/-- Frames move from the free list to the used one, and none is lost on the way. -/
theorem Obtained.allFrames_perm (h : Obtained s p taken evs st) :
    st.sys.mram.allFrames.Perm s.mram.allFrames := by
  rw [Memphy.allFrames, Memphy.allFrames, h.free, h.used]
  simp only [List.map_append, List.map_reverse, List.map_map, Function.comp_def, List.map_id']
  rw [← List.append_assoc]
  refine List.Perm.append_right _ ?_
  exact (List.Perm.append_left _ (List.reverse_perm taken)).trans List.perm_append_comm

/-- **Obtaining frames keeps the invariant**: the pages evicted are not resident any more, and all
others have their old entries. -/
theorem Obtained.frameInv (h : Obtained s p taken evs st) (hs : FrameInv s)
    (hlt : ∀ f ∈ taken, f < 8192) : FrameInv st.sys := by
  have hperm := h.allFrames_perm
  have hcases (q : ι) (g : ℕ) (hres : st.sys.ResidentAt q g) :
      False ∨ (st.sys.mm q).pgd g = (s.mm q).pgd g :=
    Or.inr (h.resident_old (hs.fifo_nodup p) hres).1
  obtain ⟨howned, hinj⟩ := hs.holders hcases (fun _ _ => False.elim) fun _ _ _ _ => False.elim
  have hsplit := h.fifo ▸ hs.fifo_nodup p
  have hfifo : ∀ g ∈ (st.sys.mm p).fifoPgn, st.sys.ResidentAt p g := by
    intro g hg
    have hmem : g ∈ (s.mm p).fifoPgn := by
      rw [h.fifo]
      exact List.mem_append_left _ hg
    have hev : g ∉ evs.map Eviction.pgn := fun hev =>
      (List.nodup_append.mp hsplit).2.2 g hg g (List.mem_reverse.mpr hev) rfl
    rw [Sys.ResidentAt, h.pgd_other g hev]
    exact hs.fifo_resident p g hmem
  obtain ⟨hfifoNodup, hfifoResident⟩ :=
    hs.fifo_of_one (fun q hq => h.mm_of_ne hq) (List.nodup_append.mp hsplit).1 hfifo
  refine
    { nodup := hperm.nodup_iff.mpr hs.nodup
      hasFrame := fun f hf => (hs.hasFrame f (hperm.mem_iff.mp hf)).of_maxsz (by rw [h.mram])
      used_lt := ?_
      owned := ?_
      inj := hinj
      fifo_nodup := hfifoNodup
      fifo_resident := hfifoResident }
  · intro u hu
    rw [h.used] at hu
    rcases List.mem_append.mp hu with hu | hu
    · obtain ⟨f, hf, rfl⟩ := List.mem_map.mp (List.mem_reverse.mp hu)
      exact hlt f hf
    · exact hs.used_lt u hu
  · intro q g hres
    rw [h.used]
    exact List.mem_append_right _ (howned q g hres)

/-- Nothing holds the frames just obtained: those taken were free, and the pages that had the others
are evicted. -/
theorem Obtained.pending (h : Obtained s p taken evs st) (hs : FrameInv s) :
    Pending st.sys p (frames taken evs) := by
  have hfree {f : ℕ} (hf : f ∈ taken) : f ∈ s.mram.freeFpList := by
    rw [h.free]
    exact List.mem_append_left _ hf
  refine { nodup := ?_, owned := ?_, unheld := ?_ }
  · refine h.frames_nodup (hs.fifo_nodup p) ?_ (List.nodup_append.mp hs.nodup).1
      fun g hg => hs.fpnAt_not_free (hs.fifo_resident p g hg)
    refine (List.nodup_map_iff_inj_on (hs.fifo_nodup p)).mpr ?_
    intro g hg g' hg' heq
    exact (hs.inj p g p g' (hs.fifo_resident p g hg) (hs.fifo_resident p g' hg') heq).2
  · intro f hf
    rw [h.used]
    rcases List.mem_append.mp hf with hf | hf
    · exact List.mem_append_left _ (List.mem_reverse.mpr (List.mem_map_of_mem hf))
    · obtain ⟨e, he, rfl⟩ := List.mem_map.mp hf
      obtain ⟨hres, heq⟩ := h.evicted hs he
      rw [heq]
      exact List.mem_append_right _ (hs.owned p e.pgn hres)
  · intro f hf q g hres heq
    obtain ⟨hpte, hev⟩ := h.resident_old (hs.fifo_nodup p) hres
    rw [Sys.ResidentAt, hpte] at hres
    rw [Sys.fpnAt, hpte] at heq
    rcases List.mem_append.mp hf with hf | hf
    · refine hs.fpnAt_not_free hres ?_
      rw [Sys.fpnAt, heq]
      exact hfree hf
    · obtain ⟨e, he, rfl⟩ := List.mem_map.mp hf
      obtain ⟨hres', heq'⟩ := h.evicted hs he
      obtain ⟨rfl, rfl⟩ := hs.inj q g p e.pgn hres hres' (heq.trans heq')
      exact hev ⟨rfl, List.mem_map_of_mem he⟩

end

/-! ### Mapping the frames -/

/-- The pages of a range on which nothing is resident become resident; every other page of
any process keeps its entry. -/
theorem FrameInv.map {s : Sys ι} {p : ι} {pgn : ℕ} {fs fifo : List ℕ} {mm : Mm}
    (h : FrameInv s) (hp : Pending s p fs) (hmap : Mapped (s.mm p) pgn fs mm)
    (hclear : ∀ g, pgn ≤ g → g < pgn + fs.length → g ∉ (s.mm p).fifoPgn)
    (hsub : fifo.Sublist mm.fifoPgn) :
    FrameInv (s.setMm p { mm with fifoPgn := fifo }) := by
  set s' := s.setMm p { mm with fifoPgn := fifo } with hs'
  -- an entry afterwards is an old one or names one of the new frames
  have hcases (q : ι) (g : ℕ) :
      (q = p ∧ ∃ j, ∃ hj : j < fs.length, g = pgn + j ∧ s'.fpnAt p g = fs[j]) ∨
        (s'.mm q).pgd g = (s.mm q).pgd g := by
    by_cases hq : q = p
    · subst hq
      by_cases hin : pgn ≤ g ∧ g < pgn + fs.length
      · have hj : g - pgn < fs.length := by omega
        have hg : g = pgn + (g - pgn) := by omega
        refine Or.inl ⟨rfl, g - pgn, hj, hg, ?_⟩
        have hfs := h.used_lt _ (hp.owned _ (List.getElem_mem hj))
        have hin' := hmap.pgd_in (g - pgn) hj
        rw [← hg] at hin'
        rw [Sys.fpnAt, hs', Sys.mm_setMm_self]
        simp only [hin', pagingFpn_pteSetFpn _ hfs]
      · right
        rw [hs', Sys.mm_setMm_self]
        exact hmap.pgd_out g hin
    · right
      rw [hs', Sys.mm_setMm_of_ne _ _ _ hq]
  obtain ⟨howned, hinj⟩ := h.holders (fun q g _ => hcases q g)
    (by
      rintro q g ⟨rfl, j, hj, rfl, hfpn⟩
      rw [hfpn]
      exact hp.owned _ (List.getElem_mem hj))
    (by
      rintro q g q' g' ⟨rfl, j, hj, rfl, hfpn⟩ hres' heq
      rw [hfpn] at heq
      rcases hcases q' g' with ⟨rfl, j', hj', rfl, hfpn'⟩ | hold'
      · rw [hfpn'] at heq
        obtain rfl := (List.Nodup.getElem_inj_iff hp.nodup).mp heq
        exact ⟨rfl, rfl⟩
      · rw [Sys.ResidentAt, hold'] at hres'
        rw [Sys.fpnAt, hold'] at heq
        exact absurd heq.symm (hp.unheld _ (List.getElem_mem hj) q' g' hres'))
  have hnodup : (s'.mm p).fifoPgn.Nodup := by
    rw [hs', Sys.mm_setMm_self]
    refine List.Nodup.sublist hsub ?_
    rw [hmap.fifo, List.nodup_append]
    refine ⟨List.nodup_reverse.mpr List.nodup_range', h.fifo_nodup p, ?_⟩
    rintro g hg _ hg' rfl
    rw [List.mem_reverse, List.mem_range'_1] at hg
    exact hclear g hg.1 hg.2 hg'
  have hresident : ∀ g ∈ (s'.mm p).fifoPgn, s'.ResidentAt p g := by
    intro g hg
    rw [Sys.ResidentAt]
    rw [hs', Sys.mm_setMm_self] at hg ⊢
    have hmem := hsub.subset hg
    rw [hmap.fifo, List.mem_append, List.mem_reverse, List.mem_range'_1] at hmem
    by_cases hin : pgn ≤ g ∧ g < pgn + fs.length
    · exact hmap.resident hin.1 hin.2
    · rcases hmem with hmem | hmem
      · exact absurd hmem hin
      · simp only [hmap.pgd_out g hin]
        exact h.fifo_resident p g hmem
  obtain ⟨hfifoNodup, hfifoResident⟩ :=
    h.fifo_of_one (fun q hq => Sys.mm_setMm_of_ne _ _ _ hq) hnodup hresident
  exact
    { nodup := h.nodup
      hasFrame := h.hasFrame
      used_lt := h.used_lt
      owned := howned
      inj := hinj
      fifo_nodup := hfifoNodup
      fifo_resident := hfifoResident }

/-- **A growth request keeps the invariant**, whatever its outcome: on pages that are not
mapped, with frames an entry can hold. -/
theorem FrameInv.growth {s s' : Sys ι} {p : ι} {pgn n : ℕ} {code : ℤ} (hs : FrameInv s)
    (h : Growth s p pgn n code s')
    (hclear : ∀ g, pgn ≤ g → g < pgn + n → pagingPagePresent ((s.mm p).pgd g) = false)
    (hlt : ∀ f ∈ s.mram.freeFpList.take n, f < 8192) : FrameInv s' := by
  obtain ⟨taken, evs, st, fs, mm, fifo, hob, hlen, hfs, hmem, hnodup, hmap, hsub, rfl, -⟩ := h.parts
  have htaken : ∀ f ∈ taken, f < 8192 := by
    intro f hf
    refine hlt f ?_
    rw [hob.free, List.take_append]
    exact List.mem_append_left _ (by rwa [List.take_of_length_le (by omega)])
  have hpend := hob.pending hs
  refine (hob.frameInv hs htaken).map ⟨hnodup hpend.nodup, fun f hf => hpend.owned f (hmem f hf),
    fun f hf => hpend.unheld f (hmem f hf)⟩ hmap ?_ hsub
  intro g hlo hhi hg
  have hfifo : g ∈ (s.mm p).fifoPgn := by
    rw [hob.fifo]
    exact List.mem_append_left _ hg
  exact not_resident_of_absent (hclear g hlo (by omega)) (hs.fifo_resident p g hfifo)

end OsSim
