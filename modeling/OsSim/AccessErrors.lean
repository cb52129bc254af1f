import OsSim.Refusal

/-!
# Errors of an Access

A failed access should be reported: no page could be evicted for it, or no swap frame was free, or
RAM refused the byte. `pg_getpage` drops the codes of `find_victim_page` and `MEMPHY_get_freefp`,
`__sys_memmap` those of `MEMPHY_read` and `MEMPHY_write`, and `__read` and `__write` those of
`pg_getval` and `pg_setval`, so an id of the region table is all it takes for code 0.

## How the argument goes

What should be reported is said on the state before the access. `Sys.obtained` is the frame that the
page has, or the victim's where one can be evicted; `Sys.translated` is the physical address, where
there is one. `ErrorsReach` asks that code 0 means that RAM made the access at this address.

In every state an access through an id of the table returns 0, and its RAM operation is at the
translated address if there is one (`libread_of_access`, `libwrite_of_access`). RAM makes an
operation when it is a random-access device and the address is inside it. So errors reach the caller
where nothing goes wrong, and through ids outside the table, which are refused.

## Main results

* `libread_of_access`, `libwrite_of_access`: what an access does, in every state.
* `errorsReach_iff`: **errors reach the caller exactly when there are none**, or the id is outside
  the table.
* `errorsReach_fails`: a fresh process reads a byte of a page it does not have.
-/

namespace OsSim

variable {ι : Type} [DecidableEq ι]

/-- The RAM frame an access to page `pgn` goes through: its own if the page is present, the
victim's if it can be brought in, `none` if there is no victim or no free swap frame. -/
def Sys.obtained (s : Sys ι) (p : ι) (pgn : ℕ) : Option ℕ :=
  if pagingPagePresent ((s.mm p).pgd pgn) then some (s.fpnAt p pgn)
  else if (s.mm p).fifoPgn = [] ∨ (s.mswp (s.active p)).freeFpList = [] then none
  else some (s.fpnAt p (s.mm p).victim.1)

/-- The physical address an access translates to, if its region and its page can be found. -/
def Sys.translated (s : Sys ι) (p : ι) (rgid offset : BitVec 32) : Option ℕ := do
  let a ← s.accessAddr p rgid offset
  let fpn ← s.obtained p (pagingPgn a)
  return pagingPhyaddr fpn (pagingOffst a)

/-- Code 0 of an access means that RAM made it at the translated address; every other code of a
read leaves the destination alone. -/
structure ErrorsReach (s : Sys ι) (p : ι) (rgid offset : BitVec 32) (data : Byte) : Prop where
  read : ∃ code w s', libread s p rgid offset = some (code, w, s') ∧
    (code = 0 → ∃ addr b, s.translated p rgid offset = some addr ∧
      memphyRead s.mram addr = some (b, s'.mram) ∧ w = some (b.signExtend 32)) ∧
    (code ≠ 0 → w = none)
  write : ∃ code s', libwrite s p data rgid offset = some (code, s') ∧
    (code = 0 → ∃ addr, s.translated p rgid offset = some addr ∧
      memphyWrite s.mram addr data = some s'.mram)

/-! ### What an access does -/

/-- The page an access needs is brought in whether or not it can be. -/
theorem pgGetpage_obtained (s : Sys ι) (p : ι) (pgn : ℕ) :
    ∃ fpn s', pgGetpage s p pgn = some (0, fpn, s') ∧ fpn < 8192 ∧ s'.mram = s.mram ∧
      ∀ f ∈ s.obtained p pgn, f = fpn := by
  rcases hpres : pagingPagePresent ((s.mm p).pgd pgn) with _ | _
  · obtain ⟨s', hpage, hfault⟩ := pgGetpage_of_absent hpres
    refine ⟨_, s', hpage, pagingFpn_lt _, hfault.mram, ?_⟩
    rintro f hf
    rw [Sys.obtained, hpres, if_neg Bool.false_ne_true] at hf
    split at hf
    · cases hf
    · exact (Option.some.inj hf).symm
  · refine ⟨_, s, pgGetpage_of_present hpres, pagingFpn_lt _, rfl, ?_⟩
    rintro f hf
    rw [Sys.obtained, if_pos hpres] at hf
    exact (Option.some.inj hf).symm

omit [DecidableEq ι] in
/-- An access translates to its offset in the frame it goes through. -/
theorem translated_eq {s : Sys ι} {p : ι} {rgid offset a : BitVec 32}
    (ha : s.accessAddr p rgid offset = some a) {fpn : ℕ}
    (hframe : ∀ f ∈ s.obtained p (pagingPgn a), f = fpn) {addr : ℕ}
    (haddr : s.translated p rgid offset = some addr) :
    addr = pagingPhyaddr fpn (pagingOffst a) := by
  obtain ⟨a', ha', haddr⟩ := Option.bind_eq_some_iff.mp haddr
  obtain rfl := Option.some.inj (ha.symm.trans ha')
  obtain ⟨f, hf, haddr⟩ := Option.bind_eq_some_iff.mp haddr
  obtain rfl := hframe f hf
  exact (Option.some.inj haddr).symm

section Access

variable {s : Sys ι} {p : ι} {vma : VmArea} (harea : OneArea (s.mm p) vma)

include harea

/-- A read through an id of the table succeeds, with what RAM delivers at the translated
address. -/
theorem libread_of_access {source offset a : BitVec 32}
    (ha : s.accessAddr p source offset = some a) :
    ∃ w s', libread s p source offset = some (0, some w, s') ∧ s'.mram = s.mram ∧
      ∀ addr ∈ s.translated p source offset, w = (s.mram.byteAt addr).signExtend 32 := by
  obtain ⟨fpn, s', hpage, hfpn, hram, hframe⟩ := pgGetpage_obtained s p (pagingPgn a)
  refine ⟨_, s', libread_of_page harea ha hfpn hpage, hram, ?_⟩
  rintro addr haddr
  rw [translated_eq ha hframe haddr, hram]

/-- A write through an id of the table succeeds. -/
theorem libwrite_of_access {destination offset a : BitVec 32}
    (ha : s.accessAddr p destination offset = some a) (data : Byte) :
    ∃ s', libwrite s p data destination offset = some (0, s') ∧
      ∀ addr ∈ s.translated p destination offset, s'.mram = s.mram.storeAt addr data := by
  obtain ⟨fpn, s', hpage, hfpn, hram, hframe⟩ := pgGetpage_obtained s p (pagingPgn a)
  refine ⟨_, libwrite_of_page harea ha hfpn hpage data, ?_⟩
  rintro addr haddr
  rw [translated_eq ha hframe haddr, hram]

end Access

/-! ### What RAM makes -/

omit [DecidableEq ι] in
/-- A device makes the reads inside it when it is a random-access device, and no others. -/
theorem memphyRead_ne_none_iff {mp : Memphy ι} {addr : ℕ} :
    memphyRead mp addr ≠ none ↔ mp.rdmflg = true ∧ (addr : ℤ) < mp.maxsz := by
  rw [memphyRead, memphySeqRead]
  split_ifs <;> grind

/-! ### Errors that reach the caller -/

/-- **Errors reach the caller exactly when there are none**, or the id is outside the table. -/
theorem errorsReach_iff {s : Sys ι} {p : ι} {vma : VmArea} (harea : OneArea (s.mm p) vma)
    (rgid offset : BitVec 32) (data : Byte) :
    ErrorsReach s p rgid offset data ↔ (rgid.toInt < 0 ∨ 30 < rgid.toInt) ∨
      s.mram.rdmflg = true ∧ ∃ addr, s.translated p rgid offset = some addr ∧
        (addr : ℤ) < s.mram.maxsz := by
  rw [← accessAddr_eq_none s p rgid offset]
  constructor
  · intro h
    rw [or_iff_not_imp_left]
    intro ha
    obtain ⟨a, ha⟩ := Option.ne_none_iff_exists'.mp ha
    obtain ⟨code, w, s', hread, hcode, -⟩ := h.read
    obtain ⟨w', s₁, hread', -⟩ := libread_of_access harea ha
    rw [hread', Option.some.injEq, Prod.mk.injEq] at hread
    obtain ⟨addr, b, haddr, hram, -⟩ := hcode hread.1.symm
    obtain ⟨hr, hlt⟩ := memphyRead_ne_none_iff.mp (by rw [hram]; exact Option.some_ne_none _)
    exact ⟨hr, addr, haddr, hlt⟩
  · rintro (ha | ⟨hr, addr, haddr, hlt⟩)
    · exact
        { read := ⟨-1, none, s, libread_of_none harea ha, by omega, fun _ => rfl⟩
          write := ⟨-1, s, libwrite_of_none harea ha data, by omega⟩ }
    · obtain ⟨a, ha, -⟩ := Option.bind_eq_some_iff.mp haddr
      obtain ⟨w, s₁, hread, hram, hw⟩ := libread_of_access harea ha
      obtain ⟨s₂, hwrite, hstore⟩ := libwrite_of_access harea ha data
      have h0 : (0 : ℤ) ≤ addr := Int.natCast_nonneg addr
      have hbyte := memphyRead_of_mem hr h0 hlt
      have hstored := memphyWrite_of_mem hr h0 hlt data
      refine ⟨⟨0, some w, s₁, hread, fun _ => ⟨addr, s.mram.storage addr, haddr, ?_, ?_⟩, ?_⟩,
        ⟨0, s₂, hwrite, fun _ => ⟨addr, haddr, ?_⟩⟩⟩
      · rw [hram]
        exact hbyte
      · rw [hw addr haddr, Memphy.byteAt_of_lt hr hlt]
      · exact absurd rfl
      · rw [hstore addr haddr, Memphy.storeAt, hstored]
        rfl

/-- A fresh process reads and writes as it should through an id outside the table. -/
theorem errorsReach_iff_idOutside :
    ErrorsReach (bootSys 256 fun _ => 512 : Sys Unit) () 31 0 7 := by
  have harea : OneArea ((bootSys 256 fun _ => 512 : Sys Unit).mm ()) ⟨0, 0, 0, 0, [⟨0, 0⟩]⟩ :=
    ⟨rfl, rfl⟩
  exact (errorsReach_iff harea 31 0 7).mpr (Or.inl (Or.inr (by decide)))

/-- A fresh process has no page, and none to evict: it reads byte 0 of region 0 with code 0. -/
theorem errorsReach_fails :
    ¬ ErrorsReach (bootSys 256 fun _ => 512 : Sys Unit) () 0 0 7 := by
  intro h
  have harea : OneArea ((bootSys 256 fun _ => 512 : Sys Unit).mm ()) ⟨0, 0, 0, 0, [⟨0, 0⟩]⟩ :=
    ⟨rfl, rfl⟩
  obtain ⟨code, w, s', hread, hcode, -⟩ := h.read
  have ha : (bootSys 256 fun _ => 512 : Sys Unit).accessAddr () 0 0 = some 0 := by
    decide +kernel
  obtain ⟨w', s₁, hread', -⟩ := libread_of_access harea ha
  rw [hread', Option.some.injEq, Prod.mk.injEq] at hread
  obtain ⟨addr, b, haddr, -⟩ := hcode hread.1.symm
  have hnone : (bootSys 256 fun _ => 512 : Sys Unit).translated () 0 0 = none := by
    decide +kernel
  rw [hnone] at haddr
  cases haddr

end OsSim
