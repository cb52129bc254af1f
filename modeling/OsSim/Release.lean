import OsSim.Exchange

/-!
# Giving the Frames of a Process Back

`free_pcb_memph` (`libmem.c`) goes over all entries of the page table. It takes an entry without
PRESENT for that of a page in RAM, and every other entry for that of a page on the active swap
device.

## How the argument goes

The loop changes free lists and no entry, so that every page is looked at in the table of the start,
and what it puts on the two lists is a function of the table (`freePcbLoop_spec`): the FPN field of
every entry without PRESENT on that of RAM, and the SWPOFF field of every other entry on that of the
active swap device.

`ReleasesMemory` is what should happen: exactly the frames of the process are given back, each once
and to its own device. An entry that is empty counts for the loop as a page in frame 0 of RAM. So a
process with a page that is not mapped, or resident, gives back a frame it does not have; and of a
swapped page the entry has PRESENT set, so that its frame is given back rightly. Only a process all
of whose 16384 pages are swapped out, to distinct frames of the active device, is released as it
should be (`AllSwapped`).

## Main results

* `freePcbLoop_spec`: what the loop puts on the free lists.
* `releasesMemory_iff`: **when exactly the frames of the process are given back**.
* `releasesMemory_fails`: a process that has mapped nothing.
-/

namespace OsSim

variable {ι : Type} {s s' : Sys ι} {p : ι}

/-! ### The loop -/

/-- The loop of `free_pcb_memph` from page `pagenum` on, with `n` pages left. -/
def freePcbLoop (p : ι) : ℕ → ℕ → Sys ι → Sys ι
  | 0, _, s => s
  | n + 1, pagenum, s =>
      let pte := (s.mm p).pgd pagenum
      if !pagingPagePresent pte then
        freePcbLoop p n (pagenum + 1) { s with mram := memphyPutFreefp s.mram (pagingFpn pte) }
      else
        freePcbLoop p n (pagenum + 1)
          (s.setMswp (s.active p) (memphyPutFreefp (s.mswp (s.active p)) (pagingPteSwp pte)))

/-- `free_pcb_memph`: the loop over all pages of the table. -/
def freePcbMemph (s : Sys ι) (p : ι) : Sys ι := freePcbLoop p pagingMaxPgn 0 s

/-- The frames the loop puts on the free list of RAM for these pages, first to last. -/
def Sys.ramPuts (s : Sys ι) (p : ι) (pages : List ℕ) : List ℕ :=
  (pages.filter fun g => !pagingPagePresent ((s.mm p).pgd g)).map fun g =>
    pagingFpn ((s.mm p).pgd g)

/-- The frames the loop puts on the free list of the active swap device. -/
def Sys.swapPuts (s : Sys ι) (p : ι) (pages : List ℕ) : List ℕ :=
  (pages.filter fun g => pagingPagePresent ((s.mm p).pgd g)).map fun g =>
    pagingPteSwp ((s.mm p).pgd g)

section Puts

variable {g f : ℕ} {pages : List ℕ}

/-- A frame goes to RAM's list where an entry without PRESENT has it in its FPN field. -/
theorem mem_ramPuts : f ∈ s.ramPuts p pages ↔
    ∃ g ∈ pages, pagingPagePresent ((s.mm p).pgd g) = false ∧ pagingFpn ((s.mm p).pgd g) = f := by
  simp [Sys.ramPuts, and_assoc]

/-- A frame goes to the swap device's list where an entry with PRESENT has it in its SWPOFF field.
-/
theorem mem_swapPuts : f ∈ s.swapPuts p pages ↔
    ∃ g ∈ pages, pagingPagePresent ((s.mm p).pgd g) = true ∧ pagingPteSwp ((s.mm p).pgd g) = f := by
  simp [Sys.swapPuts, and_assoc]

/-- The first page, and the others after it. -/
theorem ramPuts_cons : s.ramPuts p (g :: pages) =
    if pagingPagePresent ((s.mm p).pgd g) then s.ramPuts p pages
    else pagingFpn ((s.mm p).pgd g) :: s.ramPuts p pages := by
  cases hpres : pagingPagePresent ((s.mm p).pgd g) <;> simp [Sys.ramPuts, hpres]

/-- The same for the swap device. -/
theorem swapPuts_cons : s.swapPuts p (g :: pages) =
    if pagingPagePresent ((s.mm p).pgd g) then pagingPteSwp ((s.mm p).pgd g) :: s.swapPuts p pages
    else s.swapPuts p pages := by
  cases hpres : pagingPagePresent ((s.mm p).pgd g) <;> simp [Sys.swapPuts, hpres]

end Puts

/-- **What the loop puts on the free lists.** The entries stay as they are, so each page is
looked at in the table of the start. -/
theorem freePcbLoop_spec (n pagenum : ℕ) (s : Sys ι) :
    (freePcbLoop p n pagenum s).mram.freeFpList =
        (s.ramPuts p (List.range' pagenum n)).reverse ++ s.mram.freeFpList ∧
      ∀ i, ((freePcbLoop p n pagenum s).mswp i).freeFpList =
        if i = s.active p then
          (s.swapPuts p (List.range' pagenum n)).reverse ++ (s.mswp i).freeFpList
        else (s.mswp i).freeFpList := by
  induction n generalizing pagenum s with
  | zero => simp [freePcbLoop, Sys.ramPuts, Sys.swapPuts]
  | succ n ih =>
      rw [freePcbLoop, List.range'_succ, ramPuts_cons, swapPuts_cons]
      cases hpres : pagingPagePresent ((s.mm p).pgd pagenum) with
      | false =>
          -- the frame goes to RAM
          obtain ⟨hram, hswap⟩ := ih (pagenum + 1)
            { s with mram := memphyPutFreefp s.mram (pagingFpn ((s.mm p).pgd pagenum)) }
          refine ⟨hram.trans ?_, hswap⟩
          rw [if_neg Bool.false_ne_true, List.reverse_cons, List.append_assoc]
          rfl
      | true =>
          obtain ⟨hram, hswap⟩ := ih (pagenum + 1) (s.setMswp (s.active p)
            (memphyPutFreefp (s.mswp (s.active p)) (pagingPteSwp ((s.mm p).pgd pagenum))))
          refine ⟨hram, ?_⟩
          rintro i
          refine (hswap i).trans ?_
          rw [Sys.mswp_setMswp, Sys.active_setMswp, if_pos rfl]
          by_cases hi : i = s.active p
          · subst hi
            rw [if_pos rfl, if_pos rfl, if_pos rfl, List.reverse_cons, List.append_assoc]
            rfl
          · rw [if_neg hi, if_neg hi, if_neg hi]

/-- What `free_pcb_memph` puts on the free lists, over all pages of the table. -/
theorem freePcbMemph_spec (s : Sys ι) (p : ι) :
    (freePcbMemph s p).mram.freeFpList =
        (s.ramPuts p (List.range pagingMaxPgn)).reverse ++ s.mram.freeFpList ∧
      ∀ i, ((freePcbMemph s p).mswp i).freeFpList =
        if i = s.active p then
          (s.swapPuts p (List.range pagingMaxPgn)).reverse ++ (s.mswp i).freeFpList
        else (s.mswp i).freeFpList := by
  rw [List.range_eq_range']
  exact freePcbLoop_spec pagingMaxPgn 0 s

/-! ### What should be given back -/

/-- The frames of RAM that pages of the process are resident in. -/
def Sys.residentFrames (s : Sys ι) (p : ι) : Set ℕ :=
  {f | ∃ g < pagingMaxPgn, s.residentFrame (p, g) = some f}

/-- The frames of swap device `i` that present entries of the process record. -/
def Sys.swappedFrames (s : Sys ι) (p : ι) (i : Fin pagingMaxMmswp) : Set ℕ :=
  {f | ∃ g < pagingMaxPgn,
    pagingPagePresent ((s.mm p).pgd g) = true ∧ s.swappedFrame i (p, g) = some f}

/-- Exactly the frames of `held` are put on a free list, each once. -/
def GivenBack (held : Set ℕ) (before after : List ℕ) : Prop :=
  ∃ fs, after = fs ++ before ∧ fs.Nodup ∧ ∀ f, f ∈ fs ↔ f ∈ held

/-- A list without duplicates that had none of the frames has no duplicates after. -/
theorem GivenBack.nodup {held : Set ℕ} {before after : List ℕ} (h : GivenBack held before after)
    (hbefore : before.Nodup) (hout : ∀ f ∈ before, f ∉ held) : after.Nodup := by
  obtain ⟨fs, rfl, hfs, hmem⟩ := h
  refine List.nodup_append.mpr ⟨hfs, hbefore, ?_⟩
  rintro f hf f' hf' rfl
  exact hout f hf' ((hmem f).mp hf)

/-- From `s` to `s'`, exactly the frames of process `p` are given back, each once to its device,
so that free lists without duplicates, which had none of them, have no duplicates. -/
structure ReleasesMemory (s s' : Sys ι) (p : ι) : Prop where
  ram : GivenBack (s.residentFrames p) s.mram.freeFpList s'.mram.freeFpList
  swap : ∀ i, GivenBack (s.swappedFrames p i) (s.mswp i).freeFpList (s'.mswp i).freeFpList
  ram_nodup : s.mram.freeFpList.Nodup → (∀ f ∈ s.mram.freeFpList, f ∉ s.residentFrames p) →
    s'.mram.freeFpList.Nodup
  swap_nodup : ∀ i, (s.mswp i).freeFpList.Nodup →
    (∀ f ∈ (s.mswp i).freeFpList, f ∉ s.swappedFrames p i) → (s'.mswp i).freeFpList.Nodup

/-- Every page of the process is swapped out to its active device, no two to the same frame. -/
structure AllSwapped (s : Sys ι) (p : ι) : Prop where
  present : ∀ g < pagingMaxPgn, pagingPagePresent ((s.mm p).pgd g) = true
  swapped : ∀ g < pagingMaxPgn, pagingPageSwapped ((s.mm p).pgd g) = true
  active : ∀ g < pagingMaxPgn, pagingSwptyp ((s.mm p).pgd g) = s.active p
  inj : ∀ g < pagingMaxPgn, ∀ g' < pagingMaxPgn,
    pagingPteSwp ((s.mm p).pgd g) = pagingPteSwp ((s.mm p).pgd g') → g = g'

/-- Frames that are given back tell what the list got. -/
theorem GivenBack.of_append {held : Set ℕ} {before fs : List ℕ}
    (h : GivenBack held before (fs.reverse ++ before)) :
    fs.Nodup ∧ ∀ f, f ∈ fs ↔ f ∈ held := by
  obtain ⟨fs', heq, hnodup, hmem⟩ := h
  obtain rfl := List.append_cancel_right heq
  exact ⟨List.nodup_reverse.mp hnodup, fun f => by rw [← hmem, List.mem_reverse]⟩

/-- A present page is swapped out to the active device, where it alone has its frame. -/
theorem ReleasesMemory.swapped (h : ReleasesMemory s (freePcbMemph s p) p) :
    (∀ g < pagingMaxPgn, pagingPagePresent ((s.mm p).pgd g) = true →
      pagingPageSwapped ((s.mm p).pgd g) = true ∧ pagingSwptyp ((s.mm p).pgd g) = s.active p) ∧
    ∀ g < pagingMaxPgn, ∀ g' < pagingMaxPgn, pagingPagePresent ((s.mm p).pgd g) = true →
      pagingPagePresent ((s.mm p).pgd g') = true →
      pagingPteSwp ((s.mm p).pgd g) = pagingPteSwp ((s.mm p).pgd g') → g = g' := by
  have hback := h.swap (s.active p)
  rw [(freePcbMemph_spec s p).2, if_pos rfl] at hback
  obtain ⟨hnodup, hmem⟩ := hback.of_append
  have hinj : ∀ g < pagingMaxPgn, ∀ g' < pagingMaxPgn,
      pagingPagePresent ((s.mm p).pgd g) = true → pagingPagePresent ((s.mm p).pgd g') = true →
      pagingPteSwp ((s.mm p).pgd g) = pagingPteSwp ((s.mm p).pgd g') → g = g' := by
    rintro g hg g' hg' hpres hpres' heq
    exact List.inj_on_of_nodup_map hnodup (List.mem_filter.mpr ⟨List.mem_range.mpr hg, hpres⟩)
      (List.mem_filter.mpr ⟨List.mem_range.mpr hg', hpres'⟩) heq
  refine ⟨?_, hinj⟩
  rintro g hg hpres
  obtain ⟨g', hg', hpres', hframe⟩ := (hmem (pagingPteSwp ((s.mm p).pgd g))).mp
    (mem_swapPuts.mpr ⟨g, List.mem_range.mpr hg, hpres, rfl⟩)
  obtain ⟨hswapped, htyp, heq⟩ := Sys.swappedFrame_eq_some.mp hframe
  obtain rfl := hinj g hg g' hg' hpres hpres' heq.symm
  exact ⟨hswapped, htyp⟩

/-- No page of the process is left out: the loop would give the frame that its entry seems to have
to RAM. -/
theorem ReleasesMemory.present (h : ReleasesMemory s (freePcbMemph s p) p) {g : ℕ}
    (hg : g < pagingMaxPgn) : pagingPagePresent ((s.mm p).pgd g) = true := by
  by_contra hne
  have hback := h.ram
  rw [(freePcbMemph_spec s p).1] at hback
  obtain ⟨g', hg', hframe⟩ := (hback.of_append.2 _).mp
    (mem_ramPuts.mpr ⟨g, List.mem_range.mpr hg, by simpa using hne, rfl⟩)
  -- the page whose frame that is would be resident, and swapped out
  obtain ⟨⟨hpres, hnot⟩, -⟩ := Sys.residentFrame_eq_some.mp hframe
  rw [(h.swapped.1 g' hg' hpres).1] at hnot
  exact Bool.false_ne_true hnot.symm

/-- With all pages swapped out, RAM gets nothing back, and nothing is due to it. -/
theorem AllSwapped.givenBack_ram (h : AllSwapped s p) :
    GivenBack (s.residentFrames p) s.mram.freeFpList (freePcbMemph s p).mram.freeFpList := by
  refine ⟨[], ?_, List.nodup_nil, ?_⟩
  · have hnil : s.ramPuts p (List.range pagingMaxPgn) = [] := by
      refine List.eq_nil_iff_forall_not_mem.mpr ?_
      rintro f hf
      obtain ⟨g, hg, hpres, -⟩ := mem_ramPuts.mp hf
      rw [h.present g (List.mem_range.mp hg)] at hpres
      exact Bool.false_ne_true hpres.symm
    rw [(freePcbMemph_spec s p).1, hnil, List.reverse_nil]
  · rintro f
    refine iff_of_false List.not_mem_nil ?_
    rintro ⟨g, hg, hframe⟩
    have hnot := (Sys.residentFrame_eq_some.mp hframe).1.2
    rw [h.swapped g hg] at hnot
    exact Bool.false_ne_true hnot.symm

/-- The active device gets the frames of all pages back, and no other device is due any. -/
theorem AllSwapped.givenBack_swap (h : AllSwapped s p) (i : Fin pagingMaxMmswp) :
    GivenBack (s.swappedFrames p i) (s.mswp i).freeFpList
      ((freePcbMemph s p).mswp i).freeFpList := by
  rw [(freePcbMemph_spec s p).2 i]
  by_cases hi : i = s.active p
  · subst hi
    rw [if_pos rfl]
    refine ⟨_, rfl, List.nodup_reverse.mpr (List.Nodup.map_on ?_
      (List.nodup_range.filter _)), ?_⟩
    · rintro g hg g' hg' heq
      exact h.inj g (List.mem_range.mp (List.mem_filter.mp hg).1) g'
        (List.mem_range.mp (List.mem_filter.mp hg').1) heq
    · rintro f
      rw [List.mem_reverse, mem_swapPuts]
      constructor
      · rintro ⟨g, hg, hpres, hf⟩
        have hlt := List.mem_range.mp hg
        exact ⟨g, hlt, hpres, Sys.swappedFrame_eq_some.mpr ⟨h.swapped g hlt, h.active g hlt, hf⟩⟩
      · rintro ⟨g, hg, hpres, hframe⟩
        exact ⟨g, List.mem_range.mpr hg, hpres, (Sys.swappedFrame_eq_some.mp hframe).2.2⟩
  · rw [if_neg hi]
    refine ⟨[], rfl, List.nodup_nil, ?_⟩
    rintro f
    refine iff_of_false List.not_mem_nil ?_
    rintro ⟨g, hg, -, hframe⟩
    have htyp := (Sys.swappedFrame_eq_some.mp hframe).2.1
    rw [h.active g hg] at htyp
    exact hi (Fin.ext htyp.symm)

/-- **When exactly the frames of the process are given back**: `free_pcb_memph` does so only for a
process that has all its pages on the active swap device. -/
theorem releasesMemory_iff : ReleasesMemory s (freePcbMemph s p) p ↔ AllSwapped s p := by
  constructor
  · intro h
    exact
      { present := fun g hg => h.present hg
        swapped := fun g hg => (h.swapped.1 g hg (h.present hg)).1
        active := fun g hg => (h.swapped.1 g hg (h.present hg)).2
        inj := fun g hg g' hg' => h.swapped.2 g hg g' hg' (h.present hg) (h.present hg') }
  · intro h
    exact
      { ram := h.givenBack_ram
        swap := h.givenBack_swap
        ram_nodup := h.givenBack_ram.nodup
        swap_nodup := fun i => (h.givenBack_swap i).nodup }

/-- A process that has mapped nothing: frame 0 is given to RAM for each of its pages. -/
theorem releasesMemory_fails : ¬ ReleasesMemory (bootSys 256 (fun _ => 512) : Sys Unit)
    (freePcbMemph (bootSys 256 (fun _ => 512) : Sys Unit) ()) () := by
  intro h
  have hpres : pagingPagePresent 0 = true := h.present (g := 0) (by norm_num)
  rw [pagingPagePresent_zero] at hpres
  exact Bool.false_ne_true hpres

end OsSim
