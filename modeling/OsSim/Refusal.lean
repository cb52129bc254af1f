import OsSim.Fault
import OsSim.Runs

/-!
# Access Outside Regions

An access should be refused where no live region has the byte. The code looks at the id only,
and only at whether it is one of the region table: with such an id every access is made, at
whatever address the region's start and the offset add up to.

## How the argument goes

`libread` and `libwrite` ask `get_symrg_byid` for the region, which tests `rgid < 0` and
`rgid > PAGING_MAX_SYMTBL_SZ`. From then on nothing can fail: the address is an unsigned sum, its
page is one of the page table, and `pg_getpage` brings it in or drops the codes of what it calls, in
every state (`pgGetpage_defined`). So the access is made, and returns 0.

An access is refused, then, exactly when the id is outside the table (`refusedAccess_iff`). Which
regions are live and how large they are makes no difference. With two neighbouring regions of one
page each, offset 256 of the first is the first byte of the second.

## Main results

* `pgGetpage_defined`: every page can be brought in, in every state.
* `refusedAccess_iff`: **an access is refused exactly when its id is outside the table**.
* `refusedAccess_fails`: a write behind one region that changes another.
-/

namespace OsSim

open TransitionSystem

variable {ι : Type} [DecidableEq ι]

/-! ### Every access is made -/

omit [DecidableEq ι] in
/-- `s'` has the areas and the region tables of `s`. -/
def SameRegions (s s' : Sys ι) : Prop :=
  ∀ q, (s'.mm q).mmap = (s.mm q).mmap ∧ (s'.mm q).symrgtbl = (s.mm q).symrgtbl

omit [DecidableEq ι] in
/-- Nothing has changed. -/
theorem SameRegions.refl (s : Sys ι) : SameRegions s s := fun _ => ⟨rfl, rfl⟩

/-- Bringing a page in moves frames, and no regions. -/
theorem Faulted.sameRegions {s s' : Sys ι} {p : ι} {pgn : ℕ} (h : Faulted s p pgn s') :
    SameRegions s s' := by
  intro q
  by_cases hq : q = p
  · subst hq
    rw [h.mm]
    exact ⟨rfl, rfl⟩
  · rw [Sys.mm, h.procs q hq]
    exact ⟨rfl, rfl⟩

/-- **Every page can be brought in**, and the code is 0. -/
theorem pgGetpage_defined (s : Sys ι) (p : ι) (pgn : ℕ) :
    ∃ fpn s', pgGetpage s p pgn = some (0, fpn, s') ∧ fpn < 8192 ∧ SameRegions s s' := by
  rcases hpres : pagingPagePresent ((s.mm p).pgd pgn) with _ | _
  · obtain ⟨s', hpage, h⟩ := pgGetpage_of_absent hpres
    exact ⟨_, s', hpage, pagingFpn_lt _, h.sameRegions⟩
  · exact ⟨_, s, pgGetpage_of_present hpres, pagingFpn_lt _, SameRegions.refl s⟩

section Access

variable {s : Sys ι} {p : ι} {vma : VmArea} (harea : OneArea (s.mm p) vma)

include harea

/-- A read through an id of the table delivers some byte. -/
theorem libread_defined {source offset a : BitVec 32}
    (ha : s.accessAddr p source offset = some a) :
    ∃ w s', libread s p source offset = some (0, some w, s') ∧ SameRegions s s' := by
  obtain ⟨fpn, s', hpage, hfpn, hsame⟩ := pgGetpage_defined s p (pagingPgn a)
  exact ⟨_, s', libread_of_page harea ha hfpn hpage, hsame⟩

/-- A write through an id of the table succeeds, in every state. -/
theorem libwrite_defined {destination offset a : BitVec 32}
    (ha : s.accessAddr p destination offset = some a) (data : Byte) :
    ∃ s', libwrite s p data destination offset = some (0, s') ∧ SameRegions s s' := by
  obtain ⟨fpn, s', hpage, hfpn, hsame⟩ := pgGetpage_defined s p (pagingPgn a)
  exact ⟨_, libwrite_of_page harea ha hfpn hpage data, fun q => hsame q⟩

/-- No access changes the areas or the region tables. -/
theorem sameRegions_of_libread {s' : Sys ι} {source offset : BitVec 32} {code : ℤ}
    {w : Option (BitVec 32)} (h : libread s p source offset = some (code, w, s')) :
    SameRegions s s' := by
  rcases ha : s.accessAddr p source offset with _ | a
  · rw [libread_of_none harea ha, Option.some.injEq, Prod.mk.injEq, Prod.mk.injEq] at h
    obtain ⟨-, -, rfl⟩ := h
    exact SameRegions.refl s
  · obtain ⟨w', s₁, hread, hsame⟩ := libread_defined harea ha
    rw [hread, Option.some.injEq, Prod.mk.injEq, Prod.mk.injEq] at h
    obtain ⟨-, -, rfl⟩ := h
    exact hsame

/-- No write changes the areas or the region tables. -/
theorem sameRegions_of_libwrite {s' : Sys ι} {destination offset : BitVec 32} {code : ℤ}
    {data : Byte} (h : libwrite s p data destination offset = some (code, s')) :
    SameRegions s s' := by
  rcases ha : s.accessAddr p destination offset with _ | a
  · rw [libwrite_of_none harea ha, Option.some.injEq, Prod.mk.injEq] at h
    obtain ⟨-, rfl⟩ := h
    exact SameRegions.refl s
  · obtain ⟨s₁, hwrite, hsame⟩ := libwrite_defined harea ha data
    rw [hwrite, Option.some.injEq, Prod.mk.injEq] at h
    obtain ⟨-, rfl⟩ := h
    exact hsame

end Access

omit [DecidableEq ι] in
/-- The ids `get_symrg_byid` lets through: one more than the table has. -/
theorem accessAddr_eq_none (s : Sys ι) (p : ι) (id offset : BitVec 32) :
    s.accessAddr p id offset = none ↔ id.toInt < 0 ∨ 30 < id.toInt := by
  rw [Sys.accessAddr, Option.map_eq_none_iff, getSymrgByid]
  split
  · rename_i hid
    exact iff_of_true rfl hid
  · rename_i hid
    exact iff_of_false (Option.some_ne_none _) hid

/-! ### Refusal -/

/-- No live region of the process has byte `offset` under `id`; `held` has the sizes of the live
ones. -/
def OutOfRegion (held : BitVec 32 → Option (BitVec 32)) (id offset : BitVec 32) : Prop :=
  ∀ size ∈ held id, size ≤ offset

instance (held : BitVec 32 → Option (BitVec 32)) (id offset : BitVec 32) :
    Decidable (OutOfRegion held id offset) :=
  Option.decidableForallMem (held id)

/-- Reading and writing at `offset` of region `id` are refused and change nothing, and the
write leaves alone what can be read in the other live regions. -/
structure RefusedAccess (s : Sys ι) (p : ι) (held : BitVec 32 → Option (BitVec 32))
    (id offset : BitVec 32) (data : Byte) : Prop where
  read : ∃ code, code ≠ 0 ∧ libread s p id offset = some (code, none, s)
  write : ∃ code, code ≠ 0 ∧ libwrite s p data id offset = some (code, s)
  others : ∀ code s', libwrite s p data id offset = some (code, s') →
    ∀ id' offset', id' ≠ id → ¬ OutOfRegion held id' offset' →
      (libread s' p id' offset').map (fun r => r.2.1) =
        (libread s p id' offset').map fun r => r.2.1

/-- **An access is refused exactly when its id is outside the table**, whatever regions are live
and wherever the offset lies. -/
theorem refusedAccess_iff {s : Sys ι} {p : ι} {vma : VmArea} (harea : OneArea (s.mm p) vma)
    (held : BitVec 32 → Option (BitVec 32)) (id offset : BitVec 32) (data : Byte) :
    RefusedAccess s p held id offset data ↔ id.toInt < 0 ∨ 30 < id.toInt := by
  rw [← accessAddr_eq_none s p id offset]
  constructor
  · intro h
    rcases ha : s.accessAddr p id offset with _ | a
    · rfl
    · obtain ⟨code, hcode, hread⟩ := h.read
      obtain ⟨w, s', hread', -⟩ := libread_defined harea ha
      rw [hread'] at hread
      exact absurd (Prod.mk.inj (Option.some.inj hread)).1.symm hcode
  · intro ha
    have hwrite := libwrite_of_none harea ha data
    refine ⟨⟨-1, by decide, libread_of_none harea ha⟩, ⟨-1, by decide, hwrite⟩, ?_⟩
    intro code s' hwrite' id' offset' _ _
    obtain rfl := (Prod.mk.inj (Option.some.inj (hwrite.symm.trans hwrite'))).2
    rfl

/-- An id outside the table, in a system that has just been started. -/
theorem refusedAccess_iff_idOutside :
    RefusedAccess (bootSys 256 fun _ => 512 : Sys Unit) () (fun _ => none) 31 0 7 := by
  have harea : OneArea ((bootSys 256 fun _ => 512 : Sys Unit).mm ()) ⟨0, 0, 0, 0, [⟨0, 0⟩]⟩ :=
    ⟨rfl, rfl⟩
  exact (refusedAccess_iff harea (fun _ => none) 31 0 7).mpr (Or.inr (by decide))

/-- Two regions of one page each, and 5 written at the start of the second. -/
def neighbours : List (Event Unit) :=
  [⟨(), ⟨0, 0⟩, .alloc 256 0, none, { stat := 0 }⟩,
    ⟨(), ⟨0, 0⟩, .alloc 256 1, none, { stat := 0 }⟩,
    ⟨(), ⟨0, 0⟩, .write 5 1 0, some 256, { stat := 0 }⟩]

/-- Offset 256 of the first region, which has 256 bytes, is the first byte of the second. -/
theorem refusedAccess_fails : ¬ ∀ (as : List (Event Unit)) (s : Sys Unit)
    (id offset : BitVec 32) (data : Byte), memSystem.Run as s →
      Disciplined (fun _ _ => none) as = true →
      OutOfRegion (as.foldl heldNext (fun _ _ => none) ()) id offset →
      RefusedAccess s () (as.foldl heldNext (fun _ _ => none) ()) id offset data := by
  intro hrefused
  have hcalc : ((neighbours.foldlM Sys.next (bootSys 512 fun _ => 512 : Sys Unit)).bind fun s =>
      (libwrite s () 9 0 256).map fun r =>
        ((libread s () 1 0).map (fun r => r.2.1), (libread r.2 () 1 0).map (fun r => r.2.1))) =
      some (some (some 5), some (some 9)) := by
    decide +kernel
  obtain ⟨s, hs, hrest⟩ := Option.bind_eq_some_iff.mp hcalc
  obtain ⟨⟨code, s'⟩, hwrite, hreads⟩ := Option.map_eq_some_iff.mp hrest
  obtain ⟨hbefore, hafter⟩ := Prod.mk.inj hreads
  have hrun : memSystem.Run neighbours s :=
    Run.of_foldlM (fun _ _ _ h => h) (booted_bootSys 512 fun _ => 512) hs
  have hout : OutOfRegion (neighbours.foldl heldNext (fun _ _ => none) ()) 0 256 := by
    decide
  have hlive : ¬ OutOfRegion (neighbours.foldl heldNext (fun _ _ => none) ()) 1 0 := by
    decide
  have hsame := (hrefused neighbours s 0 256 9 hrun (by decide) hout).others code s' hwrite 1 0
    (by decide) hlive
  rw [hbefore, hafter] at hsame
  exact absurd hsame (by decide)

end OsSim
