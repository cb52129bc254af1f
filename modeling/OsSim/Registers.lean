import OsSim.Runs
import OsSim.Simulation

/-!
# Registers

`run` copies the instruction at the program counter into a local, and `libread` stores the word it
has loaded through a pointer to a field of that local. `proc->regs` is never written. The programs
are compared with a reference interpreter, which loads into the register file.

## The reference interpreter

`RefState` is what the instructions of a process should do, by themselves: a program counter, a
register file, and the byte last written at each offset of each region. A `READ` of a byte that has
been written loads it into its destination register, and a `READ` of anything else leaves the
registers alone, as nothing says what it should find.

`lockstep` runs the processes and their reference interpreters together, in any order of the
processes. The two agree while no `READ` has anything to load that is not in its register already,
and part at the first one that has; this is exact, in every run, for whatever is in the registers at
the start.

## Main results

* `Machine.run_cpu`: a call of `run` moves a program counter and writes no register.
* `RefState.exec_regs_eq_iff`: when the reference interpreter changes no register.
* `Lockstep.next_agrees_iff`: a call of `run` keeps the register files equal, or does not.
* `registers_iff`: **what is loaded reaches the registers only where it is there already**.
* `registers_fail`: a program that reads back what it has written.
-/

namespace OsSim

open TransitionSystem

variable {ι : Type} [DecidableEq ι]

/-! ### `run` -/

/-- `regs` of `struct pcb_t`, ten registers of a word. -/
abbrev RegFile : Type := Fin 10 → BitVec 32

/-- The fields of `struct pcb_t` that `run` uses itself: `code`, `pc` and `regs`. -/
structure PcbCpu where
  text : List InstT
  pc : ℕ
  regs : RegFile

/-- Memory, and what else `run` uses of the processes. -/
structure Machine (ι : Type) where
  sys : Sys ι
  cpu : ι → PcbCpu

/-- The call that `run` makes for an instruction; of the system calls, number 17 is in the model of
memory. -/
def InstT.call (ins : InstT) : Option Inst :=
  match ins.opcode with
  | .calc => some .calc
  | .alloc => some (.alloc ins.arg0 ins.arg1)
  | .free => some (.free ins.arg0)
  | .read => some (.read ins.arg0 ins.arg1)
  | .write => some (.write ins.arg0 ins.arg1 ins.arg2)
  | .syscall => if ins.arg0 = 17 then some (.memmap ⟨ins.arg1, ins.arg2, ins.arg3⟩) else none

/-- `run` for process `p`: the code, the local `ins` when it returns, and the processes. -/
def Machine.run (m : Machine ι) (p : ι) : Option (ℤ × Option InstT × Machine ι) :=
  let proc := m.cpu p
  match proc.text[proc.pc]? with
  | none => some (1, none, m)
  | some ins => do
      let r ← OsSim.run m.sys p (← ins.call)
      -- `libread` has been given `&ins.arg_2`
      let ins := { ins with arg2 := r.1.destination.getD ins.arg2 }
      return (r.1.stat, some ins,
        { sys := r.2, cpu := Function.update m.cpu p { proc with pc := proc.pc + 1 } })

/-- A call of `run` moves the program counter of its process, and nothing else that `run` itself
uses. -/
theorem Machine.run_cpu {m m' : Machine ι} {p : ι} {stat : ℤ} {ins : Option InstT}
    (h : m.run p = some (stat, ins, m')) : m'.cpu = Function.update m.cpu p
      { m.cpu p with pc := runPc (m.cpu p).text.length (m.cpu p).pc } := by
  rw [Machine.run] at h
  simp only at h
  split at h
  · rename_i hnone
    obtain ⟨-, -, rfl⟩ := by simpa using h
    rw [runPc, if_pos (List.getElem?_eq_none_iff.mp hnone), Function.update_eq_self]
  · rename_i fetched hsome
    obtain ⟨inst, -, h⟩ := Option.bind_eq_some_iff.mp h
    obtain ⟨r, -, h⟩ := Option.bind_eq_some_iff.mp h
    obtain ⟨-, -, rfl⟩ := by simpa using h
    have hlt := (List.getElem?_eq_some_iff.mp hsome).1
    rw [runPc, if_neg (not_le.mpr hlt)]

/-! ### The reference interpreter -/

/-- The state of the reference interpreter: the program counter, the register file, and the byte
last written at each offset of each region. -/
structure RefState where
  pc : ℕ
  regs : RegFile
  written : BitVec 32 → BitVec 32 → Option Byte

/-- The register file after the byte `b` has been loaded into register `d`. -/
def RegFile.load (regs : RegFile) (d : BitVec 32) (b : Byte) : RegFile := fun i =>
  if (i : ℕ) = d.toNat then b.signExtend 32 else regs i

/-- One instruction. A region is empty when it has been allocated, and gone when it has been freed;
a read where nothing has been written leaves the registers alone. -/
def RefState.exec (r : RefState) (ins : InstT) : RefState :=
  match ins.opcode with
  | .read =>
      match r.written ins.arg0 ins.arg1 with
      | some b => { r with regs := RegFile.load r.regs ins.arg2 b }
      | none => r
  | .write =>
      { r with
        written := Function.update r.written ins.arg1
          (Function.update (r.written ins.arg1) ins.arg2 (some (ins.arg0.setWidth 8))) }
  | .alloc => { r with written := Function.update r.written ins.arg1 fun _ => none }
  | .free => { r with written := Function.update r.written ins.arg0 fun _ => none }
  | .calc | .syscall => r

/-- The instruction at the program counter, and `pc++`; nothing at the end of the program. -/
def RefState.run (text : List InstT) (r : RefState) : RefState :=
  match text[r.pc]? with
  | none => r
  | some ins => { r.exec ins with pc := r.pc + 1 }

/-- The process has the program counter and the registers of the reference interpreter. -/
def PcbCpu.Agrees (proc : PcbCpu) (r : RefState) : Prop := proc.pc = r.pc ∧ proc.regs = r.regs

/-- If the next instruction is a `READ` of a byte that has been written, the destination register
holds this byte already. -/
def PcbCpu.LoadsHeld (proc : PcbCpu) (r : RefState) : Prop :=
  ∀ ins ∈ proc.text[proc.pc]?, ins.opcode = .read → ∀ b ∈ r.written ins.arg0 ins.arg1,
    ∀ d : Fin 10, (d : ℕ) = ins.arg2.toNat → proc.regs d = b.signExtend 32

instance (proc : PcbCpu) (r : RefState) : Decidable (proc.Agrees r) :=
  inferInstanceAs (Decidable (_ ∧ _))

instance (proc : PcbCpu) (r : RefState) : Decidable (proc.LoadsHeld r) :=
  have (ins : InstT) : Decidable (ins.opcode = .read → ∀ b ∈ r.written ins.arg0 ins.arg1,
      ∀ d : Fin 10, (d : ℕ) = ins.arg2.toNat → proc.regs d = b.signExtend 32) :=
    have : Decidable (∀ b ∈ r.written ins.arg0 ins.arg1, ∀ d : Fin 10,
        (d : ℕ) = ins.arg2.toNat → proc.regs d = b.signExtend 32) :=
      Option.decidableForallMem (r.written ins.arg0 ins.arg1)
    inferInstance
  Option.decidableForallMem proc.text[proc.pc]?

/-- A byte loaded where it is already changes no register. -/
theorem RegFile.load_eq_iff (regs : RegFile) (d : BitVec 32) (b : Byte) :
    regs.load d b = regs ↔ ∀ i : Fin 10, (i : ℕ) = d.toNat → regs i = b.signExtend 32 := by
  constructor
  · intro h i hi
    have := congrFun h i
    rwa [RegFile.load, if_pos hi, eq_comm] at this
  · intro h
    funext i
    rw [RegFile.load]
    split
    · rename_i hi
      exact (h i hi).symm
    · rfl

/-- **When the reference interpreter changes no register.** -/
theorem RefState.exec_regs_eq_iff (r : RefState) (ins : InstT) :
    (r.exec ins).regs = r.regs ↔ (ins.opcode = .read → ∀ b ∈ r.written ins.arg0 ins.arg1,
      ∀ d : Fin 10, (d : ℕ) = ins.arg2.toNat → r.regs d = b.signExtend 32) := by
  rw [RefState.exec]
  cases hop : ins.opcode with
  | read =>
      rcases hb : r.written ins.arg0 ins.arg1 with _ | b
      · simp
      · simpa using RegFile.load_eq_iff r.regs ins.arg2 b
  | _ => simp

/-- The program counter of the reference interpreter moves as that of the process does. -/
theorem RefState.run_pc (text : List InstT) (r : RefState) :
    (r.run text).pc = runPc text.length r.pc := by
  rw [RefState.run, runPc]
  rcases hins : text[r.pc]? with _ | ins
  · rw [if_pos (List.getElem?_eq_none_iff.mp hins)]
  · rw [if_neg (not_le.mpr (List.getElem?_eq_some_iff.mp hins).1)]

/-- The reference interpreter keeps its registers where the process loads what it holds. -/
theorem PcbCpu.Agrees.run_regs_iff {proc : PcbCpu} {r : RefState} (h : proc.Agrees r) :
    (r.run proc.text).regs = r.regs ↔ proc.LoadsHeld r := by
  rw [RefState.run, PcbCpu.LoadsHeld, h.1, h.2]
  rcases proc.text[r.pc]? with _ | ins
  · simp
  · simpa using r.exec_regs_eq_iff ins

/-! ### In lockstep -/

/-- The processes, and a reference interpreter for each. -/
structure Lockstep (ι : Type) where
  machine : Machine ι
  ref : ι → RefState

/-- A call of `run` for a process, where the words behind its region table are given, and an
instruction of its reference interpreter. -/
def Lockstep.next (s : Lockstep ι) (e : ι × VmRg) : Option (Lockstep ι) :=
  (Machine.run ⟨s.machine.sys.setBehind e.1 e.2, s.machine.cpu⟩ e.1).map fun r =>
    { machine := r.2.2
      ref := Function.update s.ref e.1 ((s.ref e.1).run (s.machine.cpu e.1).text) }

/-- Calls of `run` for the processes in any order, from the start of their programs on. The
registers of a PCB are as `malloc` leaves them. -/
def lockstep : TransitionSystem (Lockstep ι) (ι × VmRg) where
  init s := Booted s.machine.sys ∧
    ∀ p, (s.machine.cpu p).pc = 0 ∧ s.ref p = ⟨0, (s.machine.cpu p).regs, fun _ _ => none⟩
  step s e s' := s.next e = some s'

/-- Every process has the registers of its reference interpreter. -/
def Lockstep.Agrees (s : Lockstep ι) : Prop := ∀ p, (s.machine.cpu p).Agrees (s.ref p)

/-- A step loads only what the destination register holds already. -/
def Lockstep.LoadsHeld (s : Lockstep ι) (e : ι × VmRg) : Prop :=
  (s.machine.cpu e.1).LoadsHeld (s.ref e.1)

instance (s : Lockstep ι) (e : ι × VmRg) : Decidable (s.LoadsHeld e) :=
  inferInstanceAs (Decidable (PcbCpu.LoadsHeld _ _))

/-- What a call of `run` makes of the pair: the process has its program counter moved, and its
registers as before. -/
theorem Lockstep.next_eq_some {s s' : Lockstep ι} {e : ι × VmRg} (h : s.next e = some s') :
    s'.machine.cpu = Function.update s.machine.cpu e.1 { s.machine.cpu e.1 with
      pc := runPc (s.machine.cpu e.1).text.length (s.machine.cpu e.1).pc } ∧
      s'.ref = Function.update s.ref e.1 ((s.ref e.1).run (s.machine.cpu e.1).text) := by
  obtain ⟨⟨stat, ins, m'⟩, hrun, rfl⟩ := Option.map_eq_some_iff.mp h
  have hcpu := Machine.run_cpu hrun
  exact ⟨hcpu, rfl⟩

/-- **A call of `run` keeps the register files equal, or does not.** -/
theorem Lockstep.next_agrees_iff {s s' : Lockstep ι} {e : ι × VmRg} (hagrees : s.Agrees)
    (h : s.next e = some s') : s'.Agrees ↔ s.LoadsHeld e := by
  obtain ⟨hcpu, href⟩ := s.next_eq_some h
  have hown := hagrees e.1
  rw [Lockstep.LoadsHeld, ← hown.run_regs_iff]
  constructor
  · intro h'
    have hregs := (h' e.1).2
    rw [hcpu, href, Function.update_self, Function.update_self] at hregs
    exact hregs.symm.trans hown.2
  · intro hregs p
    rw [hcpu, href]
    by_cases hp : p = e.1
    · subst hp
      rw [Function.update_self, Function.update_self]
      refine ⟨?_, hown.2.trans hregs.symm⟩
      rw [RefState.run_pc, ← hown.1]
    · rw [Function.update_of_ne hp, Function.update_of_ne hp]
      exact hagrees p

/-- **What is loaded reaches the registers only where it is there already.** While every `READ` of a
byte that has been written finds it in its destination register, the processes have the registers
and the program counters of the reference interpreter; and the first call of `run` for which this is
not so makes the register files differ. The program counter advances in any case. -/
theorem registers_iff {es : List (ι × VmRg)} {s : Lockstep ι}
    (hrun : (lockstep.restrict Lockstep.LoadsHeld).Run es s) :
    s.Agrees ∧ ∀ e s', s.next e = some s' → (s'.Agrees ↔ s.LoadsHeld e) ∧
      ((s.machine.cpu e.1).pc < (s.machine.cpu e.1).text.length →
        (s'.machine.cpu e.1).pc = (s.machine.cpu e.1).pc + 1) := by
  have hagrees : s.Agrees := by
    refine hrun.invariant (fun s hs p => ?_) fun s e s' h hst => ?_
    · obtain ⟨hpc, href⟩ := hs.2 p
      rw [href]
      exact ⟨hpc, rfl⟩
    · exact (Lockstep.next_agrees_iff h hst.2).mpr hst.1
  refine ⟨hagrees, fun e s' hst => ⟨Lockstep.next_agrees_iff hagrees hst, fun hlt => ?_⟩⟩
  rw [(s.next_eq_some hst).1, Function.update_self, runPc, if_neg (not_le.mpr hlt)]

/-! ### A program that reads back what it has written -/

/-- A program of memory instructions that keeps to its regions and registers: it allocates under
ids that are not live, frees live ones, and stays inside their sizes, `live`. -/
def KeepsToRegions (live : BitVec 32 → Option (BitVec 32)) : List InstT → Bool
  | [] => true
  | ins :: rest =>
      match ins.opcode with
      | .calc => KeepsToRegions live rest
      | .alloc => decide (ins.arg1.toNat < pagingMaxSymtblSz) && (live ins.arg1).isNone &&
          KeepsToRegions (Function.update live ins.arg1 (some ins.arg0)) rest
      | .free => (live ins.arg0).isSome &&
          KeepsToRegions (Function.update live ins.arg0 none) rest
      | .read => (live ins.arg0).any (ins.arg1 < ·) && decide (ins.arg2.toNat < 10) &&
          KeepsToRegions live rest
      | .write => (live ins.arg1).any (ins.arg2 < ·) && KeepsToRegions live rest
      | .syscall => false

/-- One process, on a RAM of sixteen frames. -/
def startLockstep (text : List InstT) : Lockstep Unit where
  machine :=
    { sys := bootSys 4096 fun _ => 4096
      cpu _ := { text := text, pc := 0, regs := fun _ => 0 } }
  ref _ := ⟨0, fun _ => 0, fun _ _ => none⟩

/-- It is a start of the two together. -/
theorem init_startLockstep (text : List InstT) :
    (lockstep : TransitionSystem (Lockstep Unit) _).init (startLockstep text) :=
  ⟨booted_bootSys _ _, fun _ => ⟨rfl, rfl⟩⟩

/-- Allocate 300 bytes, write a byte and read it into register 1. -/
def readBack (data : BitVec 32) : List InstT :=
  [ { opcode := .alloc, arg0 := 300, arg1 := 0 },
    { opcode := .write, arg0 := data, arg1 := 0, arg2 := 20 },
    { opcode := .read, arg0 := 0, arg1 := 20, arg2 := 1 } ]

/-- Its three calls of `run`. -/
def readBackCalls : List (Unit × VmRg) := List.replicate 3 ((), ⟨0, 0⟩)

/-- The byte 0 is loaded into a register that holds 0. -/
theorem registers_iff_readBack : ∃ s : Lockstep Unit,
    (lockstep.restrict Lockstep.LoadsHeld).Run readBackCalls s ∧ s.Agrees := by
  have hruns : (readBackCalls.foldlM
      (fun (s : Lockstep Unit) e => if s.LoadsHeld e then s.next e else none)
      (startLockstep (readBack 0))).isSome = true := by
    decide +kernel
  obtain ⟨s, hs⟩ := Option.isSome_iff_exists.mp hruns
  have hrun : (lockstep.restrict Lockstep.LoadsHeld).Run readBackCalls s :=
    Run.of_foldlM_restrict (fun _ _ _ h => h) (init_startLockstep (readBack 0)) hs
  exact ⟨s, hrun, (registers_iff hrun).1⟩

/-- The byte 7 reaches no register, although the program keeps to its region and registers and RAM
has free frames. -/
theorem registers_fail : ¬ ∀ (es : List (Unit × VmRg)) (s : Lockstep Unit), lockstep.Run es s →
    (∀ p, KeepsToRegions (fun _ => none) (s.machine.cpu p).text = true) →
      s.machine.sys.mram.freeFpList ≠ [] → s.Agrees := by
  intro hkept
  have hstate : (readBackCalls.foldlM Lockstep.next (startLockstep (readBack 7))).map
      (fun s => (KeepsToRegions (fun _ => none) (s.machine.cpu ()).text,
        s.machine.sys.mram.freeFpList.isEmpty, (s.machine.cpu ()).regs 1, (s.ref ()).regs 1)) =
      some (true, false, 0, 7) := by
    decide +kernel
  obtain ⟨s, hs, hvalues⟩ := Option.map_eq_some_iff.mp hstate
  simp only [Prod.mk.injEq] at hvalues
  obtain ⟨hkeeps, hfree, hregs, href⟩ := hvalues
  have hrun : lockstep.Run readBackCalls s :=
    Run.of_foldlM (fun _ _ _ h => h) (init_startLockstep (readBack 7)) hs
  have hagrees := hkept readBackCalls s hrun (fun _ => hkeeps) (by simpa using hfree) ()
  rw [hagrees.2, href] at hregs
  cases hregs

end OsSim
