import Mathlib.Data.List.TakeWhile
import OsSim.Names
import OsSim.Refusal
import OsSim.Release

/-!
# The Loop That Reads the Name

`__sys_killall` reads the name of the program to kill byte by byte from a region of the caller,
into a buffer of 100 characters. The loop looks for a byte -1 and for nothing else: neither at the
code of `libread`, nor at the size of the region, nor at the end of the buffer.

## How the argument goes

`readNameLoop` (`Names`) has an argument for the room that is left in the buffer, and no result when
it is used up: a character stored behind the buffer has no defined behaviour. So a call that never
ends and one that runs over its buffer are both `none` here.

Three cases are told apart by what the region holds. With a byte -1 within the first 100 bytes, the
loop ends there (`readNameLoop_of_spells`). Without one, it takes all the room and then more
(`readNameLoop_of_endless`). Through an id outside the table nothing is read, `data` keeps its
value, and the loop does the same (`readNameLoop_of_refused`). There is no case in which the call is
rejected: its code is a count, which is not negative (`killallCall_nonneg`). What is not there is
never reported.

## Main results

* `readNameLoop_of_spells`: with a byte -1 in reach, the loop ends and leaves the name.
* `readNameLoop_of_refused`, `readNameLoop_of_endless`: without one, it runs over the buffer.
* `nameEnds_iff`: **the name is read as it should be exactly when it is there**: nothing is ever
  rejected.
-/

namespace OsSim

variable {ι : Type} [DecidableEq ι]

/-! ### The call -/

/-- `__sys_killall`, with the name's region in `a1`: the code, the memory system, the `pid` fields
and the queues. -/
def killallCall (path : ι → CStr) (s : Sys ι) (caller : ι) (memrg : BitVec 32) (pid : ι → ℕ)
    (q : SchedState ι) : Option (ℤ × Sys ι × (ι → ℕ) × SchedState ι) :=
  (readName s caller memrg).map fun r =>
    let k := sysKillall path r.1 pid q
    (k.1.count, k.1.freed.foldl freePcbMemph r.2, k.1.pid, k.2)

/-- A live region holds these bytes and then a byte -1, the first, all of it within the buffer;
`held` has the sizes of the live regions. -/
def NameIn (held : BitVec 32 → Option (BitVec 32)) (s : Sys ι) (caller : ι) (memrg : BitVec 32)
    (bs : List Byte) : Prop :=
  (∃ size ∈ held memrg, bs.length < size.toNat) ∧ bs.length < 100 ∧ 255 ∉ bs ∧
    Spells caller memrg s 0 (bs ++ [255])

/-- The loop ends with the name in the buffer if there is one, and the call is rejected if not. -/
structure NameEnds (path : ι → CStr) (held : BitVec 32 → Option (BitVec 32)) (s : Sys ι)
    (caller : ι) (memrg : BitVec 32) (pid : ι → ℕ) (q : SchedState ι) : Prop where
  named : ∀ bs, NameIn held s caller memrg bs →
    ∃ s', readNameLoop caller memrg 100 s 0 0 = some (bs ++ [0], s')
  rejected : (¬ ∃ bs, NameIn held s caller memrg bs) →
    ∃ code s', killallCall path s caller memrg pid q = some (code, s', pid, q) ∧ code < 0

/-! ### The loop over the end of the buffer -/

/-- Through an id outside the table nothing is read, and the loop goes on whatever room it has. -/
theorem readNameLoop_of_refused {s : Sys ι} {caller : ι} {vma : VmArea}
    (harea : OneArea (s.mm caller) vma) {memrg : BitVec 32}
    (hid : memrg.toInt < 0 ∨ 30 < memrg.toInt) {data : BitVec 32} (hdata : data ≠ -1)
    (room i : ℕ) : readNameLoop caller memrg room s i data = none := by
  induction room generalizing i with
  | zero => rfl
  | succ room ih =>
      have hread := libread_of_none harea
        ((accessAddr_eq_none s caller memrg (BitVec.ofNat 32 i)).mpr hid)
      rw [readNameLoop, hread]
      simp only [Option.bind_eq_bind, Option.bind_some, Option.getD_none, if_neg hdata, ih]
      rfl

/-- Without a byte -1 the loop takes all the room it has, and then more. -/
theorem readNameLoop_of_endless {caller : ι} {memrg : BitVec 32} {s : Sys ι} {i : ℕ}
    (data : BitVec 32) {bs : List Byte} (hend : 255 ∉ bs) (h : Spells caller memrg s i bs) :
    readNameLoop caller memrg bs.length s i data = none := by
  induction bs generalizing s i data with
  | nil => rfl
  | cons b bs ih =>
      obtain ⟨s', hread, hrest⟩ := h
      have hb : b ≠ 255 := fun heq => hend (heq ▸ List.mem_cons_self)
      rw [List.length_cons, readNameLoop_succ hread, if_neg hb,
        ih _ (fun hmem => hend (List.mem_cons_of_mem b hmem)) hrest]
      rfl

/-! ### The code -/

/-- The code of the call is a count: it is never negative. -/
theorem killallCall_nonneg {path : ι → CStr} {s s' : Sys ι} {caller : ι} {memrg : BitVec 32}
    {pid pid' : ι → ℕ} {q q' : SchedState ι} {code : ℤ}
    (h : killallCall path s caller memrg pid q = some (code, s', pid', q')) : 0 ≤ code := by
  obtain ⟨r, -, hr⟩ := Option.map_eq_some_iff.mp h
  obtain ⟨rfl, -⟩ := Prod.mk.inj hr
  exact Int.natCast_nonneg _

/-- **The name is read as it should be exactly when it is there**: when the region is live and one
of its bytes within the buffer is -1. -/
theorem nameEnds_iff (path : ι → CStr) (held : BitVec 32 → Option (BitVec 32)) (s : Sys ι)
    (caller : ι) (memrg : BitVec 32) (pid : ι → ℕ) (q : SchedState ι) :
    NameEnds path held s caller memrg pid q ↔ ∃ bs, NameIn held s caller memrg bs := by
  constructor
  · intro h
    by_contra hname
    obtain ⟨code, s', hcall, hneg⟩ := h.rejected hname
    exact absurd (killallCall_nonneg hcall) (by omega)
  · intro hname
    refine ⟨?_, fun hnone => absurd hname hnone⟩
    rintro bs ⟨-, hroom, hend, hspells⟩
    obtain ⟨s', hloop⟩ := readNameLoop_of_spells 0 hroom hspells
    refine ⟨s', ?_⟩
    have hall : bs.takeWhile (· ≠ 255) = bs := by
      refine List.takeWhile_eq_self_iff.mpr ?_
      intro b hb
      exact decide_eq_true (ne_of_mem_of_not_mem hb hend)
    rw [hloop, hall]

/-- A fresh process that calls with region id 31 is not rejected: the loop never ends. -/
theorem nameEnds_fails : ¬ NameEnds (fun _ => cstr "input/proc/P0") (fun _ => none)
    (bootSys 256 fun _ => 512 : Sys Unit) () 31 (fun _ => 1) initScheduler := by
  intro h
  have harea : OneArea ((bootSys 256 fun _ => 512 : Sys Unit).mm ()) ⟨0, 0, 0, 0, [⟨0, 0⟩]⟩ :=
    ⟨rfl, rfl⟩
  have hnone : ¬ ∃ bs, NameIn (fun _ => none) (bootSys 256 fun _ => 512 : Sys Unit) () 31 bs := by
    rintro ⟨bs, ⟨size, hsize, -⟩, -⟩
    cases hsize
  obtain ⟨code, s', hcall, -⟩ := h.rejected hnone
  have hid : (31 : BitVec 32).toInt < 0 ∨ 30 < (31 : BitVec 32).toInt := Or.inr (by decide)
  have hdata : (0 : BitVec 32) ≠ -1 := by decide
  have hloop := readNameLoop_of_refused harea hid hdata 100 0
  rw [killallCall, readName, hloop] at hcall
  cases hcall

end OsSim
