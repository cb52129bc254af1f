import OsSim.MmVm

/-!
# Looking an Area Up

`get_vma_by_num` walks down the list of areas as long as the id at hand is smaller than the one it
looks for. It tests for the end of the list before it goes on, not after, and it does not test
whether the id it stops at is the one it looks for.

## How the argument goes

The walk is a search for the first area that stops it, one whose id is not smaller, and the lemmas
say what it comes to: that area, `NULL` for the empty list, and a read through a `NULL` link where
every id is smaller (`getVmaByNum_eq_some_iff` and its siblings). They do not need the areas to be
in order.

In ascending order the first area whose id is not smaller than the one looked for is the area of
that id, if there is one. If there is none, the walk stops at a later area, or runs over the end. So
the lookup is right for the ids that are there, and when there is no area at all. A process has area
0 only; a system call that grows area 1 reads through the link.

## Main results

* `getVmaByNum_eq_some_iff`: the walk ends at the first area whose id is not smaller.
* `getVmaByNum_eq_none_iff`: when it reads through a `NULL` link.
* `lookupCorrect_iff`: **the lookup is right exactly when the id is there**, or there is no area.
* `lookupCorrect_fails`: area 1 of a fresh process.
-/

namespace OsSim

/-! ### The walk -/

/-- The walk stops at this area: its id, as an `int`, is not smaller than `vmaid`. -/
def VmArea.Stops (vmaid : ℤ) (vma : VmArea) : Bool := vmaid ≤ toInt vma.vmId

/-- The walk finds the first area that stops it. -/
theorem getVmaLoop_eq (l : List VmArea) (vmaid : ℤ) (i : ℕ) :
    getVmaLoop l vmaid i = (l.findIdx? (VmArea.Stops vmaid)).map (· + i) := by
  induction l generalizing i with
  | nil => rfl
  | cons vma next ih =>
      rw [getVmaLoop, List.findIdx?_cons]
      by_cases hlt : toInt vma.vmId < vmaid
      · have hstops : vma.Stops vmaid = false := decide_eq_false (by omega)
        rw [if_pos hlt, ih, hstops, if_neg Bool.false_ne_true, Option.map_map]
        refine congrArg (Option.map · _) (funext fun j => ?_)
        rw [Function.comp_apply]
        omega
      · have hstops : vma.Stops vmaid = true := decide_eq_true (by omega)
        rw [if_neg hlt, hstops, if_pos rfl, Option.map_some, Nat.zero_add]

section

variable {mm : Mm} {vmaid : ℤ}

/-- Of no areas, the result is `NULL`. -/
theorem getVmaByNum_of_nil (h : mm.mmap = []) : getVmaByNum mm vmaid = some none := by
  rw [getVmaByNum, h]

/-- Of some areas, it is the first that stops the walk. -/
theorem getVmaByNum_of_ne_nil (h : mm.mmap ≠ []) :
    getVmaByNum mm vmaid = (mm.mmap.findIdx? (VmArea.Stops vmaid)).map some := by
  obtain ⟨vma, next, hmmap⟩ := List.exists_cons_of_ne_nil h
  rw [getVmaByNum, hmmap]
  simp only [getVmaLoop_eq, Nat.add_zero, Option.map_id']

/-- **Past the last area** the walk reads an id through a `NULL` link. -/
theorem getVmaByNum_eq_none_iff : getVmaByNum mm vmaid = none ↔
    mm.mmap ≠ [] ∧ ∀ vma ∈ mm.mmap, toInt vma.vmId < vmaid := by
  by_cases hnil : mm.mmap = []
  · rw [getVmaByNum_of_nil hnil]
    exact iff_of_false (Option.some_ne_none _) fun h => h.1 hnil
  · rw [getVmaByNum_of_ne_nil hnil, Option.map_eq_none_iff, List.findIdx?_eq_none_iff]
    simp only [VmArea.Stops, decide_eq_false_iff_not, not_le, ne_eq, hnil, not_false_eq_true,
      true_and]

/-- It returns `NULL` for the empty list only. -/
theorem getVmaByNum_eq_null_iff : getVmaByNum mm vmaid = some none ↔ mm.mmap = [] := by
  refine ⟨fun h => ?_, getVmaByNum_of_nil⟩
  by_contra hne
  rw [getVmaByNum_of_ne_nil hne] at h
  obtain ⟨i, -, hi⟩ := Option.map_eq_some_iff.mp h
  exact Option.some_ne_none i hi

/-- **Where the walk stops**: at the first area whose id is not smaller than `vmaid`. -/
theorem getVmaByNum_eq_some_iff {i : ℕ} : getVmaByNum mm vmaid = some (some i) ↔
    ∃ h : i < mm.mmap.length, vmaid ≤ toInt mm.mmap[i].vmId ∧
      ∀ j (hj : j < i), toInt mm.mmap[j].vmId < vmaid := by
  have hfind : getVmaByNum mm vmaid = some (some i) ↔
      mm.mmap.findIdx? (VmArea.Stops vmaid) = some i := by
    by_cases hnil : mm.mmap = []
    · rw [getVmaByNum_of_nil hnil, hnil]
      simp
    · rw [getVmaByNum_of_ne_nil hnil, Option.map_eq_some_iff]
      simp
  rw [hfind, List.findIdx?_eq_some_iff_getElem]
  simp only [VmArea.Stops, decide_eq_true_eq, not_le]

/-- A caller that reads through the result comes to an area exactly when one stops the walk. -/
theorem derefVma_eq_none_iff :
    derefVma mm vmaid = none ↔ ∀ vma ∈ mm.mmap, toInt vma.vmId < vmaid := by
  rw [derefVma]
  rcases hnum : getVmaByNum mm vmaid with _ | _ | i
  · exact iff_of_true rfl (getVmaByNum_eq_none_iff.mp hnum).2
  · rw [getVmaByNum_eq_null_iff.mp hnum]
    exact iff_of_true rfl fun vma hvma => absurd hvma List.not_mem_nil
  · obtain ⟨hi, hstops, -⟩ := getVmaByNum_eq_some_iff.mp hnum
    simp only [Option.bind_eq_bind, Option.bind_some, List.getElem?_eq_getElem hi]
    refine iff_of_false (Option.some_ne_none _) fun hall => ?_
    exact absurd (hall _ (List.getElem_mem hi)) (by omega)

end

/-- **Growing an area that is past the last** has no defined behaviour: a request of a program with
such an id is not refused. -/
theorem incVmaLimit_of_past {ι : Type} [DecidableEq ι] {s : Sys ι} {p : ι} {vmaid : ℤ}
    (h : ∀ vma ∈ (s.mm p).mmap, toInt vma.vmId < vmaid) (incSz : ℤ) :
    incVmaLimit s p vmaid incSz = none := by
  have hderef := derefVma_eq_none_iff.mpr h
  simp only [incVmaLimit, getVmAreaNodeAtBrk, hderef, Option.bind_eq_bind, Option.bind_none]

/-! ### What a lookup should do -/

/-- The areas come in strictly ascending order of their ids. -/
def Mm.Ascending (mm : Mm) : Prop := mm.mmap.Pairwise fun vma vma' => vma.vmId < vma'.vmId

/-- The lookup gives the area that has the id, `NULL` if none has, and reads through no `NULL`
link. -/
structure LookupCorrect (mm : Mm) (vmaid : ℤ) : Prop where
  found : ∀ i vma, mm.mmap[i]? = some vma → (vma.vmId : ℤ) = vmaid →
    getVmaByNum mm vmaid = some (some i)
  missing : (∀ vma ∈ mm.mmap, (vma.vmId : ℤ) ≠ vmaid) → getVmaByNum mm vmaid = some none
  defined : getVmaByNum mm vmaid ≠ none

/-- In ascending order the area of an id is found, if there is one. -/
theorem Mm.Ascending.getVmaByNum {mm : Mm} (h : mm.Ascending) {vmaid : BitVec 32} {i : ℕ}
    {vma : VmArea} (hi : mm.mmap[i]? = some vma) (hid : (vma.vmId : ℤ) = vmaid.toInt) :
    getVmaByNum mm vmaid.toInt = some (some i) := by
  obtain ⟨hlt, rfl⟩ := List.getElem?_eq_some_iff.mp hi
  have hrange : vmaid.toInt < 2147483648 := BitVec.toInt_lt
  refine getVmaByNum_eq_some_iff.mpr ⟨hlt, ?_, ?_⟩
  · rw [toInt_of_range (by omega) (by omega), hid]
  · intro j hj
    have hord := List.pairwise_iff_getElem.mp h j i (by omega) hlt hj
    rw [toInt_of_range (by omega) (by omega)]
    omega

/-- **The lookup is right exactly when the id is there**, or there is no area at all. -/
theorem lookupCorrect_iff {mm : Mm} (h : mm.Ascending) (vmaid : BitVec 32) :
    LookupCorrect mm vmaid.toInt ↔
      mm.mmap = [] ∨ ∃ vma ∈ mm.mmap, (vma.vmId : ℤ) = vmaid.toInt := by
  constructor
  · intro hcorrect
    rw [or_iff_not_imp_right]
    intro hnone
    push Not at hnone
    exact getVmaByNum_eq_null_iff.mp (hcorrect.missing hnone)
  · rintro (hnil | ⟨vma, hvma, hid⟩)
    · have hnull : getVmaByNum mm vmaid.toInt = some none := getVmaByNum_eq_null_iff.mpr hnil
      exact
        { found := by
            intro i vma hi
            rw [hnil] at hi
            cases hi
          missing := fun _ => hnull
          defined := by
            rw [hnull]
            exact Option.some_ne_none _ }
    · obtain ⟨i, hi⟩ := List.mem_iff_getElem?.mp hvma
      exact
        { found := fun _ _ => h.getVmaByNum
          missing := fun hnone => absurd hid (hnone vma hvma)
          defined := by
            rw [h.getVmaByNum hi hid]
            exact Option.some_ne_none _ }

/-- Areas 0 and 2, between which one is missing. -/
def areasWithGap : Mm where
  pgd _ := 0
  mmap := [⟨0, 0, 256, 256, []⟩, ⟨2, 512, 768, 768, []⟩]
  symrgtbl _ := ⟨0, 0⟩
  fifoPgn := []

/-- The id 2 is there, so that it is looked up rightly. -/
theorem lookupCorrect_iff_gap : LookupCorrect areasWithGap 2 ↔
    areasWithGap.mmap = [] ∨ ∃ vma ∈ areasWithGap.mmap, (vma.vmId : ℤ) = 2 :=
  lookupCorrect_iff (show areasWithGap.Ascending by simp [Mm.Ascending, areasWithGap]) 2

/-- A fresh process has area 0 only, and looking area 1 up reads through a `NULL` link. -/
theorem lookupCorrect_fails : ¬ LookupCorrect initMm 1 := by
  intro h
  have hne : initMm.mmap ≠ [] := List.cons_ne_nil _ _
  have hsmaller : ∀ vma ∈ initMm.mmap, toInt vma.vmId < 1 := by decide
  exact h.defined (getVmaByNum_eq_none_iff.mpr ⟨hne, hsmaller⟩)

end OsSim
