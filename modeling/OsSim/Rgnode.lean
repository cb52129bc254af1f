import OsSim.Runs

/-!
# The Node of a Call That Has Returned

`__free` copies the region it gives back into its own local `rgnode`, and hands the address of
that local to `enlist_vm_freerg_list`. When the list takes it, its head points into the stack frame
of `__free`, and as soon as `__free` is left there is no node there any more: the head is dangling,
and whatever is called next overwrites what it points to. Only `get_free_vmrg_area` reads through
the head; `enlist_vm_freerg_list` copies the pointer, and the other functions do not look at the
list.

`libfree` and `liballoc` of `Libmem` keep the free list by value: they compute what the calls would
do if a node outlived the call that made it. Here a mark for every process stands beside the
system, telling that the head of its list is such a local. A call that reads through the head is
then undefined, and the other calls do what they do by value.

## Which results need it

A run in which no allocation of a process follows one of its frees that the list has taken is the
same here and by value. So a statement of the form "whatever is defined does this" carries over from
the values, and a statement that something is defined has to be made here. Results about freeing and
allocating again, and about private memories, are of the second kind and use this module; those on
which address an allocation gets make no difference use `Libmem` as it is.

## Main results

* `StackSys.sys_of_run`: **a call that is defined does what it does by value**.
* `StackSys.run_isSome_iff`: only an allocation of a process whose list is dangling becomes
  undefined.
-/

namespace OsSim

variable {ι : Type} [DecidableEq ι]

/-! ### The calls -/

/-- The system, and for every process whether the head of its free list is the local `rgnode` of a
`__free` that has returned. -/
structure StackSys (ι : Type) where
  sys : Sys ι
  dangles : ι → Bool

/-- `__free` of `rgid` puts its local on the free list: it finds a region under the id, and
`enlist_vm_freerg_list` does not reject it. -/
def Mm.Enlists (mm : Mm) (rgid : ℤ) : Prop :=
  (0 ≤ rgid ∧ rgid ≤ pagingMaxSymtblSz) ∧
    (mm.symrgtbl rgid.toNat).rgStart < (mm.symrgtbl rgid.toNat).rgEnd

instance (mm : Mm) (rgid : ℤ) : Decidable (mm.Enlists rgid) :=
  inferInstanceAs (Decidable (_ ∧ _))

namespace StackSys

/-- The marks after a `__free` of `rgid`: that of its process is set if the list takes the region.
-/
def danglesAfterFree (x : StackSys ι) (p : ι) (rgid : ℤ) : ι → Bool :=
  if (x.sys.mm p).Enlists rgid then Function.update x.dangles p true else x.dangles

/-- The marks after an instruction: only a `FREE` changes any. -/
def danglesAfter (x : StackSys ι) (p : ι) : Inst → ι → Bool
  | .free regIndex => x.danglesAfterFree p regIndex.toInt
  | _ => x.dangles

/-- `libfree`, which leaves a dangling head behind when the list takes the region. -/
def libfree (x : StackSys ι) (p : ι) (regIndex : BitVec 32) : Option (ℤ × StackSys ι) :=
  (OsSim.libfree x.sys p regIndex).map fun r =>
    (r.1, { sys := r.2, dangles := x.danglesAfterFree p regIndex.toInt })

/-- `liballoc`, where `get_free_vmrg_area` reads the head of the free list first: this is undefined
when the head is dangling. -/
def liballoc (x : StackSys ι) (p : ι) (size regIndex : BitVec 32) : Option (ℤ × StackSys ι) :=
  if x.dangles p then none
  else (OsSim.liballoc x.sys p size regIndex).map fun r => (r.1, { x with sys := r.2 })

/-- `run` on one instruction of process `p`. -/
def run (x : StackSys ι) (p : ι) : Inst → Option (Out × StackSys ι)
  | .alloc size regIndex => (x.liballoc p size regIndex).map fun r => ({ stat := r.1 }, r.2)
  | .free regIndex => (x.libfree p regIndex).map fun r => ({ stat := r.1 }, r.2)
  | inst => (OsSim.run x.sys p inst).map fun r => (r.1, { x with sys := r.2 })

/-- The system with other words behind the region table of process `p`. -/
def setBehind (x : StackSys ι) (p : ι) (behind : VmRg) : StackSys ι :=
  { x with sys := x.sys.setBehind p behind }

/-- One event, computed; `none` where it is not defined or is another than the event says. -/
def next (x : StackSys ι) (e : Event ι) : Option (StackSys ι) :=
  if (x.sys.start e).instAddr e.proc e.inst = e.addr then
    ((x.setBehind e.proc e.behind).run e.proc e.inst).bind fun r =>
      if r.1 = e.out then some r.2 else none
  else none

/-! ### What they do by value -/

section Run

variable {x y : StackSys ι} {p : ι} {inst : Inst} {out : Out}

/-- An allocation that is defined does what it does by value, and its process's list can be read. -/
theorem sys_of_liballoc {size regIndex : BitVec 32} {ret : ℤ}
    (h : x.liballoc p size regIndex = some (ret, y)) : x.dangles p = false ∧
      OsSim.liballoc x.sys p size regIndex = some (ret, y.sys) ∧ y.dangles = x.dangles := by
  rw [liballoc] at h
  split_ifs at h with hdead
  obtain ⟨r, hr, heq⟩ := Option.map_eq_some_iff.mp h
  obtain ⟨rfl, rfl⟩ := Prod.mk.inj heq
  exact ⟨Bool.eq_false_iff.mpr hdead, hr, rfl⟩

/-- A free that is defined does what it does by value, and sets the mark that it should. -/
theorem sys_of_libfree {regIndex : BitVec 32} {ret : ℤ}
    (h : x.libfree p regIndex = some (ret, y)) :
    OsSim.libfree x.sys p regIndex = some (ret, y.sys) ∧
      y.dangles = x.danglesAfterFree p regIndex.toInt := by
  obtain ⟨r, hr, heq⟩ := Option.map_eq_some_iff.mp h
  obtain ⟨rfl, rfl⟩ := Prod.mk.inj heq
  exact ⟨hr, rfl⟩

/-- **A call that is defined does what it does by value**, and makes of the marks what it
should: a free that puts its local on the list sets that of its process, and nothing takes a mark
away. -/
theorem sys_of_run (h : x.run p inst = some (out, y)) :
    OsSim.run x.sys p inst = some (out, y.sys) ∧ y.dangles = x.danglesAfter p inst := by
  cases inst with
  | alloc size regIndex =>
      obtain ⟨r, hr, heq⟩ := Option.map_eq_some_iff.mp h
      obtain ⟨rfl, rfl⟩ := Prod.mk.inj heq
      obtain ⟨-, hsys, hmarks⟩ := sys_of_liballoc hr
      exact ⟨by rw [OsSim.run, hsys, Option.map_some], hmarks⟩
  | free regIndex =>
      obtain ⟨r, hr, heq⟩ := Option.map_eq_some_iff.mp h
      obtain ⟨rfl, rfl⟩ := Prod.mk.inj heq
      obtain ⟨hsys, hmarks⟩ := sys_of_libfree hr
      exact ⟨by rw [OsSim.run, hsys, Option.map_some], hmarks⟩
  | _ =>
      rw [run] at h
      · obtain ⟨r, hr, heq⟩ := Option.map_eq_some_iff.mp h
        obtain ⟨rfl, rfl⟩ := Prod.mk.inj heq
        exact ⟨hr, rfl⟩
      all_goals simp

/-- Only an allocation of a process whose list is dangling becomes undefined. -/
theorem run_isSome_iff : (x.run p inst).isSome ↔ (OsSim.run x.sys p inst).isSome ∧
    ∀ size regIndex, inst = .alloc size regIndex → x.dangles p = false := by
  cases inst with
  | alloc size regIndex =>
      rw [run, liballoc, OsSim.run]
      cases hdead : x.dangles p <;> simp
  | free regIndex =>
      rw [run, libfree, OsSim.run]
      simp
  | _ => simp [run]

/-- A free of a region that the list rejects leaves the marks alone. -/
theorem danglesAfterFree_of_not {rgid : ℤ} (h : ¬ (x.sys.mm p).Enlists rgid) :
    x.danglesAfterFree p rgid = x.dangles := if_neg h

/-- A free of a region that the list takes leaves a dangling head. -/
theorem danglesAfterFree_of_enlists {rgid : ℤ} (h : (x.sys.mm p).Enlists rgid) :
    x.danglesAfterFree p rgid p = true := by
  rw [danglesAfterFree, if_pos h, Function.update_self]

end Run

section Next

variable {x y : StackSys ι} {e : Event ι}

/-- An event that takes place. -/
theorem next_eq_some (h : x.next e = some y) :
    (x.sys.start e).instAddr e.proc e.inst = e.addr ∧
      (x.setBehind e.proc e.behind).run e.proc e.inst = some (e.out, y) := by
  rw [next] at h
  split at h
  · rename_i haddr
    obtain ⟨r, hrun, hout⟩ := Option.bind_eq_some_iff.mp h
    split at hout
    · rename_i hr
      obtain rfl := Option.some.inj hout
      exact ⟨haddr, by rw [hrun, ← hr]⟩
    · simp at hout
  · simp at h

/-- An event that is defined does what it does by value. -/
theorem sys_of_next (h : x.next e = some y) : x.sys.next e = some y.sys := by
  obtain ⟨haddr, hrun⟩ := next_eq_some h
  have hsys : OsSim.run (x.sys.start e) e.proc e.inst = some (e.out, y.sys) := (sys_of_run hrun).1
  rw [Sys.next, if_pos haddr, hsys, Option.bind_some, if_pos rfl]

end Next

end StackSys

end OsSim
