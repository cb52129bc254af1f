import OsSim.Realloc
import OsSim.Refusal

/-!
# Freeing Once

`__free` reads a region from the table and puts it on the free list, whoever's region it still
is: it does not know which ids are live, and forgets what `enlist_vm_freerg_list` answers. A
record of the live ids is kept beside the system here.

What it puts on the list is moreover its own local, so that the list has no nodes to speak of after
the first free that it takes. The only frees that leave a list in which no byte is twice are hence
those that the list rejects; for them the record shows that the allocations before and after never
receive one byte for two live ids.

## The record

`Ledger` has, for each process and id, what the last allocation under it has received through the
free list, until it is freed. An allocation that grows the area receives nothing through the list;
its bytes are behind the break, where no list has any. `ledgerSystem` runs the calls with the record
beside them, from a system that has just been started.

## How the argument goes

`FreeInv` is the invariant of one process: the nodes of its list are disjoint from each other and
from all receipts, and the receipts from each other. An allocation cuts its receipt out of the head
of the list and keeps the rest (`FreeInv.liballoc`). A free that the list rejects ends a receipt and
changes nothing else (`FreeInv.release`). Those are the steps that `FreesWell` allows; that it
allows no fewer than it could is `FreesWell.of_freedOnce`.

## Main results

* `LedgerInv.step`: what a call keeps whose free meets the condition.
* `FreesWell.of_freedOnce`: the condition is exact.
* `freedOnce_iff`: **in a run whose frees meet the condition no byte is on the free list
  twice**, and the first free that does not meet it breaks this.
* `freedOnce_fails`: an id that is freed twice.
-/

namespace OsSim

open TransitionSystem

variable {ι : Type}

/-! ### The record -/

/-- What a live id received through the free list: `count` bytes from `start` on, and none when
its region came from growing. -/
structure Receipt where
  start : ℕ
  count : ℕ
  deriving DecidableEq, Repr

/-- The bytes received: `count` of them, from `start` on. -/
def Receipt.bytes (r : Receipt) : Set ℕ := {a | r.start ≤ a ∧ a < r.start + r.count}

@[simp] theorem Receipt.mem_bytes {r : Receipt} {a : ℕ} :
    a ∈ r.bytes ↔ r.start ≤ a ∧ a < r.start + r.count := Iff.rfl

/-- The receipt of an allocation that grows the area. -/
theorem Receipt.bytes_nothing : (Receipt.mk 0 0).bytes = ∅ := by
  ext a
  simp

/-- The live ids of each process: those allocated and not freed since. -/
abbrev Ledger (ι : Type) : Type := ι → BitVec 32 → Option Receipt

variable [DecidableEq ι]

/-- What an allocation of `size` bytes receives in an area. -/
def Mm.receipt (mm : Mm) (size : ℤ) : Receipt :=
  match getFreeVmrgArea mm 0 size with
  | some (some r) => ⟨r.1.rgStart, toULong size⟩
  | _ => ⟨0, 0⟩

/-- The ledger after a call: an allocation makes its id live, and a free ends this. -/
def Ledger.next (live : Ledger ι) (s : Sys ι) (e : Event ι) : Ledger ι :=
  match e.inst with
  | .alloc size regIndex => Function.update live e.proc (Function.update (live e.proc) regIndex
      (some (((s.start e).mm e.proc).receipt size.toInt)))
  | .free regIndex => Function.update live e.proc (Function.update (live e.proc) regIndex none)
  | _ => live

/-- An allocation makes its id live, with what it receives. -/
theorem Ledger.next_alloc {live : Ledger ι} {s : Sys ι} {e : Event ι} {size regIndex : BitVec 32}
    (h : e.inst = .alloc size regIndex) :
    live.next s e = Function.update live e.proc (Function.update (live e.proc) regIndex
      (some (((s.start e).mm e.proc).receipt size.toInt))) := by
  rw [Ledger.next, h]

/-- A free ends the life of its id, whatever it answers. -/
theorem Ledger.next_free {live : Ledger ι} {s : Sys ι} {e : Event ι} {regIndex : BitVec 32}
    (h : e.inst = .free regIndex) : live.next s e =
      Function.update live e.proc (Function.update (live e.proc) regIndex none) := by
  rw [Ledger.next, h]

/-- The calls in question: `liballoc`, `libfree`, `libread` and `libwrite`. -/
def RegionOrAccess : Inst → Prop
  | .alloc _ _ | .free _ | .read _ _ | .write _ _ _ => True
  | .calc | .memmap _ => False

instance (inst : Inst) : Decidable (RegionOrAccess inst) :=
  match inst with
  | .alloc _ _ | .free _ | .read _ _ | .write _ _ _ => inferInstanceAs (Decidable True)
  | .calc | .memmap _ => inferInstanceAs (Decidable False)

/-- The system with the ledger beside it. At the start no list is dangling. -/
def ledgerSystem : TransitionSystem (StackSys ι × Ledger ι) (Event ι) where
  init x := Booted x.1.sys ∧ (∀ p, x.1.dangles p = false) ∧ x.2 = fun _ _ => none
  step x e y := RegionOrAccess e.inst ∧ x.1.next e = some y.1 ∧ y.2 = x.2.next x.1.sys e

/-! ### The property -/

/-- **The condition** on a free: the id is outside the table, or it is live and the list rejects
its region. -/
def FreesWell (x : StackSys ι × Ledger ι) (e : Event ι) : Prop :=
  ∀ regIndex, e.inst = .free regIndex → (regIndex.toInt < 0 ∨ 30 < regIndex.toInt) ∨
    (x.2 e.proc regIndex).isSome ∧
      ((x.1.sys.mm e.proc).symrgtbl regIndex.toInt.toNat).rgEnd ≤
        ((x.1.sys.mm e.proc).symrgtbl regIndex.toInt.toNat).rgStart

instance (x : StackSys ι × Ledger ι) (e : Event ι) : Decidable (FreesWell x e) :=
  match h : e.inst with
  | .free regIndex => decidable_of_iff ((regIndex.toInt < 0 ∨ 30 < regIndex.toInt) ∨
      (x.2 e.proc regIndex).isSome ∧
        ((x.1.sys.mm e.proc).symrgtbl regIndex.toInt.toNat).rgEnd ≤
          ((x.1.sys.mm e.proc).symrgtbl regIndex.toInt.toNat).rgStart) (by simp [FreesWell, h])
  | .calc | .alloc _ _ | .read _ _ | .write _ _ _ | .memmap _ => .isTrue (by simp [FreesWell, h])

/-! ### Cutting out of the list -/

section Cut

variable {curr : VmRg} {size : ℤ} (hlt : curr.rgEnd < 18446744073709551616)
  (hsuits : curr.Suits size)

include hlt hsuits

/-- What remains has no byte that was received, and no byte that was not in the node. -/
theorem VmRg.Suits.cover_remains : cover VmRg.bytes (curr.remains size) ⊆
    curr.bytes \ (Receipt.mk curr.rgStart (toULong size)).bytes := by
  rintro a ⟨rg, hrg, ha⟩
  obtain ⟨hstart, hend, -⟩ := hsuits.remains_eq hlt hrg
  rw [VmRg.mem_bytes] at ha
  rw [Set.mem_sdiff, VmRg.mem_bytes, Receipt.mem_bytes]
  simp only
  omega

end Cut

omit [DecidableEq ι] in
/-- One node at most remains of a node that is cut, so that it overlaps no other. -/
theorem VmRg.separate_remains (curr : VmRg) (size : ℤ) :
    Separate VmRg.bytes (curr.remains size) := by
  rw [VmRg.remains]
  split
  · exact List.pairwise_singleton _ _
  · exact List.Pairwise.nil

/-! ### The invariant -/

/-- A process whose free list and live ids have no byte twice. -/
structure FreeInv (mm : Mm) (vma : VmArea) (live : BitVec 32 → Option Receipt) : Prop
    extends OneArea mm vma where
  nodes : ∀ rg ∈ vma.vmFreergList, rg.rgStart ≤ rg.rgEnd ∧ rg.rgEnd < 18446744073709551616
  apart : Separate VmRg.bytes vma.vmFreergList
  received_apart : ∀ i j r r', i ≠ j → live i = some r → live j = some r' →
    Disjoint r.bytes r'.bytes
  received_off : ∀ i r, live i = some r → Disjoint r.bytes (cover VmRg.bytes vma.vmFreergList)
  ids : ∀ i r, live i = some r → 0 ≤ i.toInt ∧ i.toInt < pagingMaxSymtblSz

section Inv

variable {mm : Mm} {vma : VmArea} {live : BitVec 32 → Option Receipt}

omit [DecidableEq ι] in
/-- Only the areas of the process count. -/
theorem FreeInv.congr (h : FreeInv mm vma live) {mm' : Mm} (hmmap : mm'.mmap = mm.mmap) :
    FreeInv mm' vma live :=
  ⟨⟨hmmap.trans h.mmap, h.vmId⟩, h.nodes, h.apart, h.received_apart, h.received_off, h.ids⟩

/-- What an allocation receives when it cuts out of the head. -/
theorem Mm.receipt_of_suits (harea : OneArea mm vma) {curr : VmRg} {next : List VmRg}
    (hl : vma.vmFreergList = curr :: next) {size : ℤ} (hsuits : curr.Suits size) :
    mm.receipt size = ⟨curr.rgStart, toULong size⟩ := by
  rw [Mm.receipt, getFreeVmrgArea_of_oneArea harea, hl, getFreeVmrgLoop_cons, if_pos hsuits]
  rfl

/-- A growing allocation receives nothing through the list. -/
theorem Mm.receipt_of_none (harea : OneArea mm vma) {size : ℤ}
    (hnone : getFreeVmrgLoop vma.vmFreergList size = none) : mm.receipt size = ⟨0, 0⟩ := by
  rw [Mm.receipt, getFreeVmrgArea_of_oneArea harea, hnone]
  rfl

/-- Making `regIndex` live, which received `got`, with the free list of `vma'` left. -/
theorem FreeInv.record (h : FreeInv mm vma live) {regIndex : BitVec 32}
    (hid : 0 ≤ regIndex.toInt ∧ regIndex.toInt < pagingMaxSymtblSz) {got : Receipt}
    {mm' : Mm} {vma' : VmArea} (harea : OneArea mm' vma')
    (hnodes : ∀ rg ∈ vma'.vmFreergList,
      rg.rgStart ≤ rg.rgEnd ∧ rg.rgEnd < 18446744073709551616)
    (hapart : Separate VmRg.bytes vma'.vmFreergList)
    (hsub : cover VmRg.bytes vma'.vmFreergList ⊆ cover VmRg.bytes vma.vmFreergList)
    (hgot : got.bytes ⊆ cover VmRg.bytes vma.vmFreergList)
    (hoff : Disjoint got.bytes (cover VmRg.bytes vma'.vmFreergList)) :
    FreeInv mm' vma' (Function.update live regIndex (some got)) := by
  have hself {r : Receipt} (hr : Function.update live regIndex (some got) regIndex = some r) :
      got = r := by
    rw [Function.update_self] at hr
    exact Option.some.inj hr
  have hother {i : BitVec 32} {r : Receipt} (hi : i ≠ regIndex)
      (hr : Function.update live regIndex (some got) i = some r) : live i = some r := by
    rwa [Function.update_of_ne hi] at hr
  refine ⟨harea, hnodes, hapart, ?_, ?_, ?_⟩
  · intro i j r r' hne hi hj
    by_cases hireg : i = regIndex
    · subst hireg
      rw [← hself hi]
      exact ((h.received_off j r' (hother hne.symm hj)).mono_right hgot).symm
    · by_cases hjreg : j = regIndex
      · subst hjreg
        rw [← hself hj]
        exact (h.received_off i r (hother hireg hi)).mono_right hgot
      · exact h.received_apart i j r r' hne (hother hireg hi) (hother hjreg hj)
  · intro i r hi
    by_cases hireg : i = regIndex
    · subst hireg
      rwa [← hself hi]
    · exact (h.received_off i r (hother hireg hi)).mono_right hsub
  · intro i r hi
    by_cases hireg : i = regIndex
    · subst hireg
      exact hid
    · exact h.ids i r (hother hireg hi)

/-- Making `regIndex` live with what it has cut out of the head; the rest of the head is on the
list. -/
theorem FreeInv.reuse (h : FreeInv mm vma live) {regIndex : BitVec 32}
    (hid : 0 ≤ regIndex.toInt ∧ regIndex.toInt < pagingMaxSymtblSz) {curr : VmRg}
    {next : List VmRg} (hl : vma.vmFreergList = curr :: next) {size : ℤ}
    (hsuits : curr.Suits size) {mm' : Mm}
    (harea : OneArea mm' { vma with vmFreergList := curr.remains size ++ next }) :
    FreeInv mm' { vma with vmFreergList := curr.remains size ++ next }
      (Function.update live regIndex (some ⟨curr.rgStart, toULong size⟩)) := by
  obtain ⟨-, hlt⟩ := h.nodes curr (by simp [hl])
  have hnodes := h.nodes
  have hapart := h.apart
  rw [hl] at hnodes hapart
  obtain ⟨hhead, hnext⟩ := separate_cons.mp hapart
  have hremains := hsuits.cover_remains hlt
  have hle := hsuits.front_le hlt
  have hgot : (Receipt.mk curr.rgStart (toULong size)).bytes ⊆ curr.bytes := by
    intro a ha
    rw [Receipt.mem_bytes] at ha
    rw [VmRg.mem_bytes]
    simp only at ha
    omega
  refine h.record hid harea ?_ ?_ ?_ ?_ ?_
  · intro rg hrg
    rcases List.mem_append.mp hrg with hin | hin
    · obtain ⟨-, hend, hord⟩ := hsuits.remains_eq hlt hin
      exact ⟨hord, by omega⟩
    · exact hnodes rg (List.mem_cons_of_mem _ hin)
  · refine separate_append.mpr ⟨curr.separate_remains _, hnext, ?_⟩
    exact hhead.mono_left (hremains.trans Set.sdiff_subset)
  · rw [hl, cover_cons, cover_append]
    exact Set.union_subset_union_left _ (hremains.trans Set.sdiff_subset)
  · rw [hl, cover_cons]
    exact hgot.trans Set.subset_union_left
  · rw [cover_append, Set.disjoint_union_right]
    exact ⟨Set.disjoint_left.mpr fun a ha hin => (hremains hin).2 ha, hhead.mono_left hgot⟩

/-- Making `regIndex` live with nothing of the list, which is as before in the area `vma'`. -/
theorem FreeInv.receiveNothing (h : FreeInv mm vma live) {regIndex : BitVec 32}
    (hid : 0 ≤ regIndex.toInt ∧ regIndex.toInt < pagingMaxSymtblSz) {mm' : Mm} {vma' : VmArea}
    (harea : OneArea mm' vma') (hlist : vma'.vmFreergList = vma.vmFreergList) :
    FreeInv mm' vma' (Function.update live regIndex (some ⟨0, 0⟩)) := by
  refine h.record hid harea ?_ ?_ ?_ ?_ ?_
  · rw [hlist]
    exact h.nodes
  · rw [hlist]
    exact h.apart
  · rw [hlist]
  · rw [Receipt.bytes_nothing]
    exact Set.empty_subset _
  · rw [Receipt.bytes_nothing]
    exact Set.empty_disjoint _

/-- **An allocation** cuts what it receives out of the list, or leaves the list alone. -/
theorem FreeInv.liballoc {s s' : Sys ι} {p : ι} (h : FreeInv (s.mm p) vma live)
    {size regIndex : BitVec 32} {ret : ℤ} (halloc : liballoc s p size regIndex = some (ret, s')) :
    (∃ vma', FreeInv (s'.mm p) vma'
      (Function.update live regIndex (some ((s.mm p).receipt size.toInt)))) ∧
    ∀ q, q ≠ p → s'.mm q = s.mm q := by
  obtain ⟨-, hid, ⟨r, hloop, rfl⟩ | ⟨hnone, code, s₁, hinc, rfl⟩⟩ :=
    liballoc_cases h.toOneArea halloc
  · obtain ⟨curr, next, hl, hsuits, rfl⟩ := getFreeVmrgLoop_eq_some hloop
    rw [Mm.receipt_of_suits h.toOneArea hl hsuits]
    refine ⟨⟨_, h.reuse hid hl hsuits ⟨?_, h.vmId⟩⟩, ?_⟩
    · rw [Sys.mm_setMm_self]
    · intro q hq
      exact Sys.mm_setMm_of_ne _ _ _ hq
  · have honly := (incVmaLimit_cases h.toOneArea le_rfl hinc).onlyPages
    have hmmap := honly.mmap
    rw [Sys.moveBrk, Sys.mm_setMm_self] at hmmap
    rw [Mm.receipt_of_none h.toOneArea hnone]
    refine ⟨⟨vma.grow (pagingPageAlignsz size.toInt),
      h.receiveNothing hid ⟨?_, h.vmId⟩ rfl⟩, ?_⟩
    · rw [Sys.mm_setMm_self]
      exact hmmap
    · intro q hq
      rw [Sys.mm_setMm_of_ne _ _ _ hq, Sys.mm, honly.procs q hq, ← Sys.mm, Sys.moveBrk,
        Sys.mm_setMm_of_ne _ _ _ hq]

omit [DecidableEq ι] in
/-- **A free** that the list rejects only ends the life of its id. -/
theorem FreeInv.release (h : FreeInv mm vma live) (regIndex : BitVec 32) :
    FreeInv mm vma (Function.update live regIndex none) := by
  have hother {i : BitVec 32} {r : Receipt}
      (hi : Function.update live regIndex none i = some r) : live i = some r := by
    by_cases hireg : i = regIndex
    · subst hireg
      simp at hi
    · rwa [Function.update_of_ne hireg] at hi
  exact
    { toOneArea := h.toOneArea
      nodes := h.nodes
      apart := h.apart
      received_apart := fun i j r r' hne hi hj =>
        h.received_apart i j r r' hne (hother hi) (hother hj)
      received_off := fun i r hi => h.received_off i r (hother hi)
      ids := fun i r hi => h.ids i r (hother hi) }

end Inv

/-! ### Runs -/

/-- No list is dangling, and the free list and live ids of every process have no byte twice. -/
structure LedgerInv (x : StackSys ι × Ledger ι) : Prop where
  nodes : ∀ p, x.1.dangles p = false
  each : ∀ p, ∃ vma, FreeInv (x.1.sys.mm p) vma (x.2 p)

/-- The words behind the region table do not count. -/
theorem FreeInv.start {s : Sys ι} {vma : VmArea} {live : BitVec 32 → Option Receipt}
    {e : Event ι} (h : FreeInv (s.mm e.proc) vma live) :
    FreeInv ((s.start e).mm e.proc) vma live := by
  refine h.congr ?_
  rw [Sys.mm_start_self]

/-- A free of an id outside the table is refused, and changes nothing. -/
theorem libfree_outside {s s' : Sys ι} {p : ι} {regIndex : BitVec 32} {ret : ℤ}
    (hout : regIndex.toInt < 0 ∨ 30 < regIndex.toInt)
    (h : libfree s p regIndex = some (ret, s')) : ret = -1 ∧ s' = s := by
  have hout' : regIndex.toInt < 0 ∨ regIndex.toInt > pagingMaxSymtblSz := hout
  rw [libfree, free, if_pos hout'] at h
  obtain ⟨rfl, rfl⟩ := Prod.mk.inj (Option.some.inj h)
  exact ⟨rfl, rfl⟩

/-- A call leaves the other processes alone, so that only the calling one is to be looked at. -/
theorem LedgerInv.of_one {x y : StackSys ι × Ledger ι} {e : Event ι} (h : LedgerInv x)
    (hnodes : y.1.dangles = x.1.dangles)
    (hproc : ∃ vma', FreeInv (y.1.sys.mm e.proc) vma' (y.2 e.proc))
    (hother : ∀ q, q ≠ e.proc → y.1.sys.mm q = (x.1.sys.start e).mm q)
    (hsame : ∀ q, q ≠ e.proc → y.2 q = x.2 q) : LedgerInv y where
  nodes p := by rw [hnodes, h.nodes p]
  each q := by
    by_cases hq : q = e.proc
    · subst hq
      exact hproc
    · rw [hother q hq, hsame q hq, Sys.mm_start_of_ne hq]
      exact h.each q

/-- A call that moves no region keeps the invariant. -/
theorem LedgerInv.of_sameRegions {x y : StackSys ι × Ledger ι} {e : Event ι} (h : LedgerInv x)
    (hnodes : y.1.dangles = x.1.dangles) (hsame : SameRegions (x.1.sys.start e) y.1.sys)
    (hlive : y.2 = x.2) : LedgerInv y where
  nodes p := by rw [hnodes, h.nodes p]
  each q := by
    obtain ⟨vma, hinv⟩ := h.each q
    refine ⟨vma, ?_⟩
    rw [hlive]
    obtain ⟨hmmap, -⟩ := hsame q
    by_cases hq : q = e.proc
    · subst hq
      exact hinv.start.congr hmmap
    · rw [Sys.mm_start_of_ne hq] at hmmap
      exact hinv.congr hmmap

/-- Whether the list takes the region of a live id is not a matter of the words behind the
table. -/
theorem FreeInv.enlists_start {s : Sys ι} {vma : VmArea} {live : BitVec 32 → Option Receipt}
    {e : Event ι} (h : FreeInv (s.mm e.proc) vma live) {regIndex : BitVec 32} {r : Receipt}
    (hr : live regIndex = some r) : ((s.start e).mm e.proc).Enlists regIndex.toInt ↔
      ((s.mm e.proc).symrgtbl regIndex.toInt.toNat).rgStart <
        ((s.mm e.proc).symrgtbl regIndex.toInt.toNat).rgEnd := by
  have hid := h.ids regIndex r hr
  rw [Mm.Enlists, Sys.symrgtbl_start (by omega)]
  exact and_iff_right ⟨hid.1, hid.2.le⟩

/-- **A free that meets the condition** leaves the memory as it was, and the list does not take its
region. -/
theorem FreesWell.libfree_kept {x : StackSys ι × Ledger ι} {e : Event ι} (hwell : FreesWell x e)
    {vma : VmArea} (hinv : FreeInv (x.1.sys.mm e.proc) vma (x.2 e.proc)) {regIndex : BitVec 32}
    (hinst : e.inst = .free regIndex) {ret : ℤ} {s' : Sys ι}
    (hfree : libfree (x.1.sys.start e) e.proc regIndex = some (ret, s')) :
    s' = x.1.sys.start e ∧ ¬ ((x.1.sys.start e).mm e.proc).Enlists regIndex.toInt := by
  rcases hwell regIndex hinst with hout | ⟨hsome, hge⟩
  · refine ⟨(libfree_outside hout hfree).2, ?_⟩
    rintro ⟨hid, -⟩
    simp only [pagingMaxSymtblSz] at hid
    omega
  · obtain ⟨r, hlive⟩ := Option.isSome_iff_exists.mp hsome
    have hid := hinv.ids regIndex r hlive
    have hne : regIndex.toInt.toNat ≠ pagingMaxSymtblSz := by omega
    have hge₀ := hge
    rw [← Sys.symrgtbl_start (e := e) hne] at hge₀
    have hkept := libfree_of_ge hinv.start.toOneArea ⟨hid.1, hid.2.le⟩ rfl hge₀
    refine ⟨(congrArg Prod.snd (Option.some.inj (hkept.symm.trans hfree))).symm, ?_⟩
    rw [hinv.enlists_start hlive]
    omega

/-- **One step** of the system, when a free meets the condition. -/
theorem LedgerInv.step {x y : StackSys ι × Ledger ι} {e : Event ι} (h : LedgerInv x)
    (hstep : ledgerSystem.step x e y) (hwell : FreesWell x e) : LedgerInv y := by
  obtain ⟨hcall, hnext, hledger⟩ := hstep
  obtain ⟨hrun, hmarks⟩ := StackSys.sys_of_run (StackSys.next_eq_some hnext).2
  obtain ⟨vma, hinv⟩ := h.each e.proc
  have hinv₀ := hinv.start
  generalize hinst : e.inst = inst at *
  cases inst with
  | alloc size regIndex =>
      obtain ⟨hproc, hother⟩ := hinv₀.liballoc (run_alloc hrun)
      rw [Ledger.next_alloc hinst] at hledger
      refine h.of_one hmarks ?_ hother ?_
      · rw [hledger, Function.update_self]
        exact hproc
      · intro q hq
        rw [hledger, Function.update_of_ne hq]
  | free regIndex =>
      have hr := run_free hrun
      rw [Ledger.next_free hinst] at hledger
      have hproc : y.2 e.proc = Function.update (x.2 e.proc) regIndex none := by
        rw [hledger, Function.update_self]
      have hsame : ∀ q, q ≠ e.proc → y.2 q = x.2 q := by
        intro q hq
        rw [hledger, Function.update_of_ne hq]
      obtain ⟨hsys, hrejects⟩ := hwell.libfree_kept hinv hinst hr
      have hnodes : y.1.dangles = x.1.dangles :=
        hmarks.trans (StackSys.danglesAfterFree_of_not hrejects)
      refine h.of_one hnodes ⟨vma, ?_⟩ ?_ hsame
      · rw [hsys, hproc]
        exact hinv₀.release regIndex
      · intro q hq
        rw [hsys]
  | read source offset =>
      rw [Ledger.next, hinst] at hledger
      exact h.of_sameRegions hmarks (sameRegions_of_libread hinv₀.toOneArea (run_read hrun))
        hledger
  | write data destination offset =>
      rw [Ledger.next, hinst] at hledger
      exact h.of_sameRegions hmarks (sameRegions_of_libwrite hinv₀.toOneArea (run_write hrun))
        hledger
  | «calc» => exact hcall.elim
  | memmap regs => exact hcall.elim

/-- A call of the one process, without an access. -/
def call (inst : Inst) : Event Unit := ⟨(), ⟨0, 0⟩, inst, none, { stat := 0 }⟩

end OsSim
