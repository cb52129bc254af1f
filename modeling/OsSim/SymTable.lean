import OsSim.Lib.Logged
import OsSim.Refusal
import OsSim.AllocSize
import OsSim.Exchange

/-!
# The Bounds of the Region Table

The calls of the memory library with a log of the places in `symrgtbl` they look at or change.
`__alloc` takes any id. The others refuse an id by the test of `get_symrg_byid`, which lets the
first id behind the table through. A call has to come to something to count as safe: an allocation
that grows the area first maps the new pages, and one that gets frames for pages behind the end of
the page table has left all bounds before it comes to its id.

## The log

A place behind the table is part of `mm_struct` all the same: `symrgtbl[30]` is where `fifo_pgn` is,
and reading or writing it can go well. So the places that a call touches have to be recorded to say
that it stays inside. `Lib.Logged` has computations with a log; the calls are written with it again,
and `result_allocLogged` and its siblings show that without the log they are the calls of `Libmem`.

## How the argument goes

The calls other than allocations look at one place, that of their id, unless the id is refused; they
have a result in every state. So they are safe for every id but the first one behind the table
(`tableSafe_of_tested`). An allocation comes to its id when it has a region for it: one that is cut
out of the head of the list, or one that the area grows by. Growing has a result when it maps no
page, when there are no frames to map, or when the last page is in the page table
(`incVmaLimit_isSome_iff`).

## Main results

* `result_allocLogged`, `result_freeLogged`, `result_readLogged`, `result_writeLogged`: the log does
  not change what the calls do.
* `incVmaLimit_isSome_iff`: which growth requests stay in the page table.
* `tableSafe_iff`: **which calls stay inside the table, or are refused**.
* `tableSafe_fails`: an allocation under the id 30.
-/

namespace OsSim

variable {ι : Type} [DecidableEq ι]

/-! ### The calls with a log -/

/-- `__alloc`, logging the index at which it changes `symrgtbl`. -/
def allocLogged (s : Sys ι) (p : ι) (vmaid rgid size : ℤ) : Logged ℤ (ℤ × ℤ × Sys ι) := do
  match ← Logged.lift (getFreeVmrgArea (s.mm p) vmaid size) with
  | some r =>
      Logged.tell rgid do
        let mm ← Logged.lift (r.2.setSymrg rgid r.1)
        return (0, toInt r.1.rgStart, s.setMm p mm)
  | none =>
      let curVma ← Logged.lift (derefVma (s.mm p) vmaid)
      let incSz := pagingPageAlignsz size
      let oldSbrk := toInt curVma.2.sbrk
      let r ← Logged.lift
        (sysMemmap s p ⟨sysmemIncOp, BitVec.ofInt 32 vmaid, BitVec.ofInt 32 incSz⟩)
      if r.1 ≠ 0 then return (-1, 0, r.2.1)
      else
        Logged.tell rgid do
          let mm ← Logged.lift ((r.2.1.mm p).setSymrg rgid
            ⟨toULong oldSbrk, toULong (toInt (oldSbrk + incSz))⟩)
          return (0, oldSbrk, r.2.1.setMm p mm)

/-- `__free`, logging the index at which it looks at `symrgtbl`. -/
def freeLogged (s : Sys ι) (p : ι) (_vmaid rgid : ℤ) : Logged ℤ (ℤ × Sys ι) :=
  if rgid < 0 ∨ rgid > pagingMaxSymtblSz then return (-1, s)
  else
    Logged.tell rgid
      (let rgnode := (s.mm p).symrgtbl rgid.toNat
      match (s.mm p).mmap with
      | [] => Logged.lift none
      | vma :: next =>
          let vma := { vma with vmFreergList := (enlistVmFreergList vma.vmFreergList rgnode).2 }
          return (0, s.setMm p { s.mm p with mmap := vma :: next }))

/-- What `__read` and `__write` share: they look the id up and then the region at that index, and
are refused when there is none. -/
def accessLogged {γ : Type} (mm : Mm) (vmaid rgid : ℤ) (refused : γ) (page : ℕ → Option γ) :
    Logged ℤ γ := do
  let curVma ← Logged.lift (getVmaByNum mm vmaid)
  match getSymrgByid rgid, curVma with
  | some currg, some _ => Logged.tell (currg : ℤ) (Logged.lift (page currg))
  | _, _ => return refused

/-- `__read`, logging the index at which it looks at `symrgtbl`. -/
def readLogged (s : Sys ι) (p : ι) (vmaid rgid offset : ℤ) :
    Logged ℤ (ℤ × Option Byte × Sys ι) :=
  accessLogged (s.mm p) vmaid rgid (-1, none, s) fun currg =>
    (pgGetval s p (regionAddr (s.mm p) currg offset)).map fun r => (0, r.2.1, r.2.2)

/-- `__write`, logging the index at which it looks at `symrgtbl`. -/
def writeLogged (s : Sys ι) (p : ι) (vmaid rgid offset : ℤ) (value : Byte) :
    Logged ℤ (ℤ × Sys ι) :=
  accessLogged (s.mm p) vmaid rgid (-1, s) fun currg =>
    (pgSetval s p (regionAddr (s.mm p) currg offset) value).map fun r => (0, r.2)

/-! ### The log does not change what the calls do -/

section

variable (s : Sys ι) (p : ι) (vmaid rgid : ℤ)

/-- Without its log, the call is `__alloc`. -/
theorem result_allocLogged (size : ℤ) :
    (allocLogged s p vmaid rgid size).result = alloc s p vmaid rgid size := by
  rw [allocLogged, alloc, Logged.result_bind, Logged.result_lift]
  rcases getFreeVmrgArea (s.mm p) vmaid size with _ | _ | r
  · rfl
  · simp only [Option.bind_some, Logged.result_bind, Logged.result_lift]
    refine congrArg _ (funext fun curVma => congrArg _ (funext fun r => ?_))
    split
    · rfl
    · simp
  · simp

/-- Without its log, the call is `__free`. -/
theorem result_freeLogged : (freeLogged s p vmaid rgid).result = free s p vmaid rgid := by
  rw [freeLogged, free]
  split
  · rfl
  · rw [Logged.result_tell]
    rcases (s.mm p).mmap with _ | ⟨vma, next⟩
    · rfl
    · rfl

omit [DecidableEq ι] in
theorem result_accessLogged {γ : Type} (mm : Mm) (refused : γ) (page : ℕ → Option γ) :
    (accessLogged mm vmaid rgid refused page).result =
      (getVmaByNum mm vmaid).bind fun curVma =>
        match getSymrgByid rgid, curVma with
        | some currg, some _ => page currg
        | _, _ => some refused := by
  rw [accessLogged, Logged.result_bind, Logged.result_lift]
  refine congrArg _ (funext fun curVma => ?_)
  rcases getSymrgByid rgid with _ | currg
  · rfl
  · rcases curVma with _ | i
    · rfl
    · rfl

/-- Without its log, the call is `__read`. -/
theorem result_readLogged (offset : ℤ) :
    (readLogged s p vmaid rgid offset).result = read s p vmaid rgid offset := by
  rw [readLogged, result_accessLogged, read]
  simp only [Option.map_eq_bind]
  rfl

/-- Without its log, the call is `__write`. -/
theorem result_writeLogged (offset : ℤ) (value : Byte) :
    (writeLogged s p vmaid rgid offset value).result = write s p vmaid rgid offset value := by
  rw [writeLogged, result_accessLogged, write]
  simp only [Option.map_eq_bind]
  rfl

end

/-! ### Calls -/

/-- A call of the memory library. -/
inductive LibCall where
  | alloc (size regIndex : BitVec 32)
  | free (regIndex : BitVec 32)
  | read (source offset : BitVec 32)
  | write (data : Byte) (destination offset : BitVec 32)
  deriving DecidableEq, Repr

namespace LibCall

/-- What a call does: the code, the word stored through `destination` (if any) and the system. -/
def result (s : Sys ι) (p : ι) : LibCall → Option (ℤ × Option (BitVec 32) × Sys ι)
  | alloc size regIndex => (liballoc s p size regIndex).map fun r => (r.1, none, r.2)
  | free regIndex => (libfree s p regIndex).map fun r => (r.1, none, r.2)
  | read source offset => libread s p source offset
  | write data destination offset =>
      (libwrite s p data destination offset).map fun r => (r.1, none, r.2)

/-- The places in `symrgtbl` that a call looks at or changes, first to last. -/
def indices (s : Sys ι) (p : ι) : LibCall → List ℤ
  | alloc size regIndex => (allocLogged s p 0 regIndex.toInt size.toInt).log
  | free regIndex => (freeLogged s p 0 regIndex.toInt).log
  | read source offset => (readLogged s p 0 source.toInt offset.toInt).log
  | write data destination offset =>
      (writeLogged s p 0 destination.toInt offset.toInt data).log

/-- The id of a call, as the `int` it is passed on as. -/
def rgid : LibCall → ℤ
  | alloc _ regIndex => regIndex.toInt
  | free regIndex => regIndex.toInt
  | read source _ => source.toInt
  | write _ destination _ => destination.toInt

end LibCall

/-- The call comes to something, and it stays inside `symrgtbl`, or is refused and nothing
changes. -/
def TableSafe (s : Sys ι) (p : ι) (c : LibCall) : Prop :=
  ∃ code w s', c.result s p = some (code, w, s') ∧
    ((∀ i ∈ c.indices s p, 0 ≤ i ∧ i < pagingMaxSymtblSz) ∨ code ≠ 0 ∧ w = none ∧ s' = s)

/-! ### Growing in the page table -/

/-- Growing the area by `incSz` stays in the page table: it maps no page, there are not frames
enough to map any, or the last page mapped has an entry. -/
def Sys.GrowsInTable (s : Sys ι) (p : ι) (vma : VmArea) (incSz : ℤ) : Prop :=
  growPages incSz = 0 ∨ s.supply p < growPages incSz ∨
    vma.growPgn + growPages incSz ≤ pagingMaxPgn

omit [DecidableEq ι] in
/-- Pages for which there are frames can be mapped when the last of them is in the table. -/
theorem vmapPages_isSome_iff {n pgn : ℕ} {fs : List (Framephy ι)} {mm : Mm}
    (hlen : n ≤ fs.length) :
    (vmapPages n pgn fs mm).isSome ↔ n = 0 ∨ pgn + n ≤ pagingMaxPgn := by
  induction n generalizing pgn fs mm with
  | zero => simp [vmapPages]
  | succ n ih =>
      rcases fs with _ | ⟨fp, fps⟩
      · simp at hlen
      · rw [List.length_cons] at hlen
        rw [vmapPages]
        split_ifs with hlt
        · rw [ih (by omega)]
          constructor
          · rintro (rfl | hle)
            · exact Or.inr hlt
            · exact Or.inr (by omega)
          · rintro (hzero | hle)
            · exact hzero.elim
            · exact Or.inr (by omega)
        · simp only [Option.isSome_none, Bool.false_eq_true, false_iff, false_or]
          omega

/-- **When mapping new frames comes to something.** -/
theorem vmMapRam_isSome_iff (s : Sys ι) (p : ι) (astart aend mapstart incpgnum : ℤ) (rg : VmRg) :
    (vmMapRam s p astart aend mapstart incpgnum rg).isSome ↔
      incpgnum.toNat = 0 ∨ s.supply p < incpgnum.toNat ∨
        pagingPgn (BitVec.ofInt 32 mapstart) + incpgnum.toNat ≤ pagingMaxPgn := by
  have hzero := allocPages_eq_zero_iff s p incpgnum.toNat
  rw [vmMapRam, allocPagesRange]
  rcases allocPages_obtained s p incpgnum.toNat with
    ⟨taken, evs, st, hlen, hob, hret⟩ | ⟨taken, evs, st, hlen, hob, hstop⟩
  · obtain ⟨tail, htail⟩ := hob.nodes
    have hnodes : incpgnum.toNat ≤ st.frmLst.length := by
      rw [htail, List.length_append, List.length_map, List.length_reverse, length_frames]
      omega
    rw [hret] at hzero
    have hmet : incpgnum.toNat ≤ s.supply p := hzero.mp rfl
    simp only [hret]
    rw [if_neg (by omega), if_neg (by omega), Option.isSome_map, vmapPageRange,
      Option.isSome_map, vmapPages_isSome_iff hnodes]
    omega
  · -- the loop stops, and no page is mapped
    have hneg := hstop.code_neg
    refine iff_of_true ?_ (Or.inr (Or.inl ?_))
    · split_ifs with hother hswap
      · rfl
      · rfl
      · exact absurd ⟨hneg, hswap⟩ hother
    · by_contra hle
      have := hzero.mpr (by omega)
      omega

/-- **Which growth requests come to something.** -/
theorem incVmaLimit_isSome_iff {s : Sys ι} {p : ι} {vma : VmArea} (harea : OneArea (s.mm p) vma)
    (incSz : ℤ) : (incVmaLimit s p 0 incSz).isSome ↔ s.GrowsInTable p vma incSz := by
  have hval : validateOverlapVmArea (s.mm p) 0 (toInt vma.sbrk)
      (toInt (toULong (vma.sbrk + incSz))) = some 0 := by
    rw [validateOverlapVmArea, harea.mmap]
  have hsupply : (s.moveBrk p vma incSz).supply p = s.supply p := by
    rw [Sys.supply, Sys.supply, Sys.moveBrk, Sys.mm_setMm_self]
    rfl
  have hmap := vmMapRam_isSome_iff (s.moveBrk p vma incSz) p (toInt vma.sbrk)
    (toInt (toULong (vma.sbrk + incSz))) (toInt vma.vmEnd)
    ((pagingPageAlignsz incSz).tdiv pagingPagesz) ⟨0, 0⟩
  rw [hsupply] at hmap
  rw [Sys.GrowsInTable, growPages, VmArea.growPgn, ← hmap]
  simp only [incVmaLimit, getVmAreaNodeAtBrk, harea.derefVma le_rfl, Option.bind_eq_bind,
    Option.bind_some, Option.pure_def, hval, lt_irrefl, if_false, harea.mmap,
    List.set_cons_zero, Option.isSome_bind]
  rw [Sys.moveBrk, VmArea.grow]
  rcases vmMapRam _ p _ _ _ _ _ with _ | r
  · simp
  · simp only [Option.any_some, Option.isSome_some, iff_true]
    split_ifs
    · rfl
    · rfl

section

variable {s : Sys ι} {p : ι} {vma : VmArea} (harea : OneArea (s.mm p) vma)

/-- The calls that stay inside the table or are refused. An allocation has to have an id of the
table, and a free region that suits or room in the page table; the others may have any id but the
first one behind the table. -/
def LibCall.InBounds (s : Sys ι) (p : ι) (vma : VmArea) : LibCall → Prop
  | alloc size regIndex => (0 ≤ regIndex.toInt ∧ regIndex.toInt < pagingMaxSymtblSz) ∧
      ((∃ curr ∈ vma.vmFreergList.head?, curr.Suits size.toInt) ∨
        s.GrowsInTable p vma (pagingPageAlignsz size.toInt))
  | c => c.rgid ≠ pagingMaxSymtblSz

/-! ### The places each call looks at -/

include harea

/-- An allocation comes to its id unless the growth has no result. -/
theorem log_allocLogged (rgid : ℤ) (size : BitVec 32) :
    (allocLogged s p 0 rgid size.toInt).log =
      if getFreeVmrgLoop vma.vmFreergList size.toInt = none ∧
        incVmaLimit s p 0 (pagingPageAlignsz size.toInt) = none then [] else [rgid] := by
  have hfree : (Logged.lift (getFreeVmrgArea (s.mm p) 0 size.toInt) : Logged ℤ _).result = _ :=
    getFreeVmrgArea_of_oneArea harea size.toInt
  have hderef : (Logged.lift (derefVma (s.mm p) 0) : Logged ℤ _).result = some (0, vma) :=
    harea.derefVma le_rfl
  rw [allocLogged, Logged.log_bind_of_some hfree, Logged.log_lift, List.nil_append]
  rcases hloop : getFreeVmrgLoop vma.vmFreergList size.toInt with _ | r
  · simp only [Option.map_none, true_and]
    rw [Logged.log_bind_of_some hderef, Logged.log_lift, List.nil_append, sysMemmap_grow]
    rcases incVmaLimit s p 0 (pagingPageAlignsz size.toInt) with _ | r
    · rw [if_pos rfl, Logged.log_bind_of_none rfl]
      rfl
    · rw [if_neg (Option.some_ne_none r), Logged.log_bind_of_some rfl, Logged.log_lift,
        List.nil_append, if_neg (fun hne => hne rfl), Logged.log_tell, Logged.log_lift_bind_pure]
  · simp only [Option.map_some, reduceCtorEq, false_and, if_false]
    rw [Logged.log_tell, Logged.log_lift_bind_pure]

omit harea in
/-- A free looks at the place of its id, if `get_symrg_byid` lets the id through. -/
theorem log_freeLogged (rgid : ℤ) :
    (freeLogged s p 0 rgid).log = if rgid < 0 ∨ rgid > pagingMaxSymtblSz then [] else [rgid] := by
  rw [freeLogged]
  split
  · rfl
  · rw [Logged.log_tell]
    rcases (s.mm p).mmap with _ | ⟨vma, next⟩
    · rfl
    · rfl

omit [DecidableEq ι] harea in
/-- So does an access. -/
theorem log_accessLogged {γ : Type} {mm : Mm} (hnum : getVmaByNum mm 0 = some (some 0)) (rgid : ℤ)
    (refused : γ) (page : ℕ → Option γ) : (accessLogged mm 0 rgid refused page).log =
      if rgid < 0 ∨ rgid > pagingMaxSymtblSz then [] else [rgid] := by
  have hlift : (Logged.lift (getVmaByNum mm 0) : Logged ℤ _).result = some (some 0) := hnum
  rw [accessLogged, Logged.log_bind_of_some hlift, Logged.log_lift, List.nil_append, getSymrgByid]
  split_ifs with hid
  · rfl
  · rw [Logged.log_tell, Logged.log_lift, Int.toNat_of_nonneg (by omega)]

/-! ### The bounds -/

omit [DecidableEq ι] harea in
/-- The first id behind the table has an address to access. -/
theorem accessAddr_of_behind (s : Sys ι) (p : ι) {id : BitVec 32} (offset : BitVec 32)
    (hid : id.toInt = pagingMaxSymtblSz) : ∃ a, s.accessAddr p id offset = some a := by
  have hid : id.toInt = 30 := hid
  rw [← Option.ne_none_iff_exists', Ne, accessAddr_eq_none]
  omega

omit harea in
/-- A call that tests its id by `get_symrg_byid` goes wrong at just the first id behind the table,
where it has nothing to return but 0. -/
theorem tableSafe_of_tested {c : LibCall}
    (hlog : c.indices s p = if c.rgid < 0 ∨ c.rgid > pagingMaxSymtblSz then [] else [c.rgid])
    (hdefined : (c.result s p).isSome)
    (hcode : c.rgid = pagingMaxSymtblSz → ∀ code w s', c.result s p = some (code, w, s') →
      code = 0) : TableSafe s p c ↔ c.rgid ≠ pagingMaxSymtblSz := by
  rw [TableSafe, hlog]
  constructor
  · rintro ⟨code, w, s', hres, hin | ⟨hne, -⟩⟩ heq
    · rw [if_neg (by omega)] at hin
      have hlt := (hin c.rgid (List.mem_singleton_self _)).2
      omega
    · exact hne (hcode heq code w s' hres)
  · intro hne
    obtain ⟨⟨code, w, s'⟩, hres⟩ := Option.isSome_iff_exists.mp hdefined
    refine ⟨code, w, s', hres, Or.inl fun i hi => ?_⟩
    split at hi
    · cases hi
    · obtain rfl := List.mem_singleton.mp hi
      omega

/-- An allocation that comes to something has an id of the table, and reuses a region or grows the
area in the page table. -/
theorem inBounds_of_liballoc {size regIndex : BitVec 32} {ret : ℤ} {s' : Sys ι}
    (h : liballoc s p size regIndex = some (ret, s')) :
    (LibCall.alloc size regIndex).InBounds s p vma := by
  obtain ⟨-, hid, ⟨r, hloop, -⟩ | ⟨-, code, s₁, hinc, -⟩⟩ := liballoc_cases harea h
  · obtain ⟨curr, next, hl, hsuits, -⟩ := getFreeVmrgLoop_eq_some hloop
    exact ⟨hid, Or.inl ⟨curr, by simp [hl], hsuits⟩⟩
  · refine ⟨hid, Or.inr ?_⟩
    rw [← incVmaLimit_isSome_iff harea, hinc]
    rfl

/-- An allocation in bounds comes to something, and to its id. -/
theorem liballoc_of_inBounds {size regIndex : BitVec 32}
    (h : (LibCall.alloc size regIndex).InBounds s p vma) :
    ∃ s', liballoc s p size regIndex = some (0, s') ∧
      (allocLogged s p 0 regIndex.toInt size.toInt).log = [regIndex.toInt] := by
  obtain ⟨hid, hspace⟩ := h
  rw [log_allocLogged harea]
  rcases hloop : getFreeVmrgLoop vma.vmFreergList size.toInt with _ | r
  · have htable : s.GrowsInTable p vma (pagingPageAlignsz size.toInt) := by
      refine hspace.resolve_left ?_
      rintro ⟨curr, hhead, hsuits⟩
      obtain ⟨next, hl⟩ := List.head?_eq_some_iff.mp hhead
      rw [hl, getFreeVmrgLoop_cons, if_pos hsuits] at hloop
      simp at hloop
    obtain ⟨⟨code, s₁⟩, hinc⟩ :=
      Option.isSome_iff_exists.mp ((incVmaLimit_isSome_iff harea _).mpr htable)
    refine ⟨_, liballoc_of_growth harea hid hloop hinc, if_neg ?_⟩
    rw [hinc]
    simp
  · exact ⟨_, liballoc_of_reuse harea hid hloop, if_neg (by simp)⟩

/-- A read has a result, in every state. -/
theorem libread_isSome (source offset : BitVec 32) : (libread s p source offset).isSome := by
  rcases ha : s.accessAddr p source offset with _ | a
  · rw [libread_of_none harea ha]
    rfl
  · obtain ⟨w, s₁, hread, -⟩ := libread_defined harea ha
    rw [hread]
    rfl

/-- A write has a result, in every state. -/
theorem libwrite_isSome (data : Byte) (destination offset : BitVec 32) :
    (libwrite s p data destination offset).isSome := by
  rcases ha : s.accessAddr p destination offset with _ | a
  · rw [libwrite_of_none harea ha]
    rfl
  · obtain ⟨s₁, hwrite, -⟩ := libwrite_defined harea ha data
    rw [hwrite]
    rfl

/-- **Which calls stay inside the table, or are refused.** -/
theorem tableSafe_iff (c : LibCall) : TableSafe s p c ↔ c.InBounds s p vma := by
  cases c with
  | alloc size regIndex =>
      constructor
      · rintro ⟨code, w, s', hres, -⟩
        obtain ⟨⟨code', s₁⟩, halloc, -⟩ := Option.map_eq_some_iff.mp hres
        exact inBounds_of_liballoc harea halloc
      · intro hin
        obtain ⟨s', halloc, hlog⟩ := liballoc_of_inBounds harea hin
        refine ⟨0, none, s', by rw [LibCall.result, halloc, Option.map_some], Or.inl fun i hi => ?_⟩
        rw [LibCall.indices, hlog] at hi
        obtain rfl := List.mem_singleton.mp hi
        exact hin.1
  | free regIndex =>
      have hfree : ∀ code w s', (LibCall.free regIndex).result s p = some (code, w, s') →
          regIndex.toInt = pagingMaxSymtblSz → code = 0 := by
        rintro code w s' hres heq
        obtain ⟨⟨code', s₁⟩, hfree, hret⟩ := Option.map_eq_some_iff.mp hres
        obtain ⟨rfl, -⟩ := Prod.mk.inj hret
        have hid : ¬(regIndex.toInt < 0 ∨ regIndex.toInt > pagingMaxSymtblSz) := by omega
        rw [libfree, free, if_neg hid, harea.mmap, Option.some.injEq, Prod.mk.injEq] at hfree
        exact hfree.1.symm
      refine tableSafe_of_tested (log_freeLogged _) ?_ fun heq code w s' hres =>
        hfree code w s' hres heq
      rw [LibCall.result, Option.isSome_map, libfree, free, harea.mmap]
      split_ifs
      · rfl
      · rfl
  | read source offset =>
      refine tableSafe_of_tested (log_accessLogged harea.getVmaByNum _ _ _)
        (libread_isSome harea source offset) ?_
      intro heq code w s' hres
      obtain ⟨a, ha⟩ := accessAddr_of_behind s p offset heq
      obtain ⟨w', s₁, hread, -⟩ := libread_defined harea ha
      have hsame := hread.symm.trans hres
      rw [Option.some.injEq, Prod.mk.injEq] at hsame
      exact hsame.1.symm
  | write data destination offset =>
      refine tableSafe_of_tested (log_accessLogged harea.getVmaByNum _ _ _) ?_ ?_
      · rw [LibCall.result, Option.isSome_map]
        exact libwrite_isSome harea data destination offset
      intro heq code w s' hres
      obtain ⟨a, ha⟩ := accessAddr_of_behind s p offset heq
      obtain ⟨s₁, hwrite, -⟩ := libwrite_defined harea ha data
      obtain ⟨⟨code', s₂⟩, hwrite', hret⟩ := Option.map_eq_some_iff.mp hres
      obtain ⟨rfl, -⟩ := Prod.mk.inj hret
      have hsame := hwrite.symm.trans hwrite'
      rw [Option.some.injEq, Prod.mk.injEq] at hsame
      exact hsame.1.symm

end

/-- An allocation that grows the area of a fresh process, a read through an id of the table and the
release of an id far behind it. -/
theorem tableSafe_iff_fresh :
    TableSafe (bootSys 256 fun _ => 512 : Sys Unit) () (.alloc 100 29) ∧
      TableSafe (bootSys 256 fun _ => 512 : Sys Unit) () (.read 0 0) ∧
      TableSafe (bootSys 256 fun _ => 512 : Sys Unit) () (.free 31) := by
  have harea : OneArea ((bootSys 256 fun _ => 512 : Sys Unit).mm ()) ⟨0, 0, 0, 0, [⟨0, 0⟩]⟩ :=
    ⟨rfl, rfl⟩
  refine ⟨(tableSafe_iff harea (.alloc 100 29)).mpr ⟨by decide, Or.inr (Or.inr (by decide))⟩,
    (tableSafe_iff harea (.read 0 0)).mpr (show (0 : BitVec 32).toInt ≠ 30 by decide),
    (tableSafe_iff harea (.free 31)).mpr (show (31 : BitVec 32).toInt ≠ 30 by decide)⟩

/-- Allocating under id 30 writes behind the table, where `fifo_pgn` is. -/
theorem tableSafe_fails :
    (30 : ℤ) ∈ (LibCall.alloc 100 30).indices (bootSys 256 fun _ => 512 : Sys Unit) () ∧
      ¬ TableSafe (bootSys 256 fun _ => 512 : Sys Unit) () (.alloc 100 30) := by
  have harea : OneArea ((bootSys 256 fun _ => 512 : Sys Unit).mm ()) ⟨0, 0, 0, 0, [⟨0, 0⟩]⟩ :=
    ⟨rfl, rfl⟩
  have hgrown : (incVmaLimit (bootSys 256 fun _ => 512 : Sys Unit) () 0
      (pagingPageAlignsz (100 : BitVec 32).toInt)).isSome = true := by
    decide +kernel
  refine ⟨?_, ?_⟩
  · rw [LibCall.indices, log_allocLogged harea, if_neg]
    · exact List.mem_singleton_self _
    · rintro ⟨-, hnone⟩
      rw [hnone] at hgrown
      cases hgrown
  · rintro ⟨code, w, s', hres, -⟩
    simp only [LibCall.result] at hres
    obtain ⟨⟨code', s₁⟩, halloc, -⟩ := Option.map_eq_some_iff.mp hres
    obtain ⟨-, hid, -⟩ := liballoc_cases harea halloc
    exact absurd hid.2 (show ¬ (30 : ℤ) < 30 by omega)

end OsSim
