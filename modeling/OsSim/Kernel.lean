import OsSim.AddressSpace
import OsSim.NameLoop
import OsSim.Registers

/-!
# Threads over Memory

All of the simulation: the threads of `Sim` with the memory that their programs work on. A call of
`run` is one step here, so that the memory calls of two CPUs do not overlap and a `killall` is over
before another thread goes on; the name that it looks for is the one its caller has written, and the
processes that it terminates have their frames given back. An instruction that the code leaves
undefined has no step: one that leaves the page table, an allocation of a process whose free list
is dangling, a `killall` whose name loop does not end.

## What is left out

In the code two CPUs may be inside of memory calls at the same time: `mmvm_lock` covers the library
functions but not the system calls, and `get_free_fp` of a device takes no lock. Results over
`kernelSystem` are about programs whose calls of `run` do not overlap.

## Connection to the threads

What the threads do does not depend on memory, but for the name that a `killall` finds, which is a
label of `simSystem`. So every step over memory is a step of the threads, for the name that was
found (`simStep_of_kernelStep`), and what holds of all runs of the threads holds of all runs over
memory. The other direction, that memory holds no thread up, needs programs that fit
(`Computation`).

## Main results

* `syscall_killall`: `__sys_killall` on the scheduler's arrays and on the lists of the threads.
* `simStep_of_kernelStep`: **the threads do what they do without memory**, for the names found.
-/

namespace OsSim

open TransitionSystem

/-! ### System calls -/

section Syscall

variable {ι : Type} [DecidableEq ι]

/-- What executing an instruction comes to: what it shows, the name that a `killall` has found, and
the memory. -/
structure Executed (ι : Type) where
  out : Out
  name : CStr
  sys : StackSys ι

/-- `syscall`, by the table `syscalltbl.lst`; `q` and `l` are the ready queues and the running
list. -/
def syscall (path : ι → CStr) (q : Fin maxPrio → List ι) (l : List ι) (x : StackSys ι) (caller : ι)
    (nr : BitVec 32) (regs : ScRegs) : Option (Executed ι) :=
  -- `__sys_listsyscall` prints the table
  if nr = 0 then some { out := { stat := 0 }, name := [], sys := x }
  else if nr = 17 then
    (sysMemmap x.sys caller regs).map fun r =>
      { out := { stat := r.1 }, name := [], sys := { x with sys := r.2.1 } }
  else if nr = 101 then
    (readName x.sys caller regs.a1).map fun r =>
      let procs := victims path r.1 q l
      { out := { stat := procs.length }, name := r.1,
        sys := { x with sys := procs.foldl freePcbMemph r.2 } }
  -- `__sys_ni_syscall`
  else some { out := { stat := 0 }, name := [], sys := x }

/-- **`__sys_killall`**, on arrays that hold these queues: the call is that of `syscall`, and the
arrays hold what is left. -/
theorem syscall_killall (path : ι → CStr) {q : Fin maxPrio → List ι} {l : List ι} {a : SchedState ι}
    (h : a.Holds q l) (x : StackSys ι) (caller : ι) (regs : ScRegs) (pid : ι → ℕ) :
    (killallCall path x.sys caller regs.a1 pid a = none ↔
      syscall path q l x caller 101 regs = none) ∧
    ∀ r ∈ syscall path q l x caller 101 regs, ∃ a',
      killallCall path x.sys caller regs.a1 pid a = some (r.out.stat, r.sys.sys,
        fun p => if p ∈ victims path r.name q l then 0 else pid p, a') ∧
      a'.Holds (fun prio => (q prio).filter fun proc => path proc ≠ r.name)
        (l.filter fun proc => path proc ≠ r.name) := by
  rw [syscall, if_neg (by decide), if_neg (by decide), if_pos rfl, killallCall]
  rcases readName x.sys caller regs.a1 with _ | r
  · simp
  · obtain ⟨hkill, hleft⟩ := sysKillall_holds path r.1 h pid
    obtain ⟨hcount, hfreed, hpid⟩ := foldl_terminate { count := 0, pid := pid, freed := [] }
      (victims path r.1 q l)
    refine ⟨by simp, ?_⟩
    rintro _ ⟨⟩
    refine ⟨_, ?_, hleft⟩
    simp only [Option.map_some, hkill, hcount, hfreed, Nat.zero_add, List.nil_append]
    congr 3
    exact Prod.ext (funext hpid) rfl

end Syscall

/-! ### All of it -/

/-- The configuration with the sizes of the devices. -/
structure KernelConfig extends SimConfig where
  memramsz : BitVec 32
  memswpsz : Fin pagingMaxMmswp → BitVec 32

/-- The processes of the configuration. -/
abbrev KernelConfig.Proc (cfg : KernelConfig) : Type := cfg.toSimConfig.Proc

/-- The threads and the memory; `shown` records the instructions executed for each process with
what they have shown. -/
structure Kernel (cfg : KernelConfig) where
  sim : Sim cfg.toSimConfig
  sys : StackSys cfg.Proc
  shown : cfg.Proc → List (InstT × Out)

variable {cfg : KernelConfig}

/-- The instruction `ins` of process `proc`, where the words behind its region table are
`behind`. -/
def Kernel.execute (k : Kernel cfg) (proc : cfg.Proc) (behind : VmRg) (ins : InstT) :
    Option (Executed cfg.Proc) :=
  let sys := k.sys.setBehind proc behind
  match ins.opcode with
  | .syscall => syscall cfg.path k.sim.os.mlqReadyQueue k.sim.os.runningList sys proc ins.arg0
      ⟨ins.arg1, ins.arg2, ins.arg3⟩
  | _ => ins.call.bind fun inst =>
      (sys.run proc inst).map fun r => { out := r.1, name := [], sys := r.2 }

/-- One step of `cpu_routine`: an instruction that is fetched is executed over memory, and the other
steps are those of `Sim`. -/
def kernelCpuStep (k : Kernel cfg) (id : Fin cfg.numCpus) (behind : VmRg) : Option (Kernel cfg) :=
  match k.sim.os.cpu id, k.sim.fetched id with
  | ⟨.run, some proc, timeLeft⟩, some ins =>
      (k.execute proc behind ins).map fun r =>
        { sim := k.sim.exec id proc timeLeft ins r.name
          sys := r.sys
          shown := Function.update k.shown proc (k.shown proc ++ [(ins, r.out)]) }
  | _, _ => (simCpuStep k.sim id []).map fun sim => { k with sim := sim }

/-- One step of a thread; those other than CPUs do not look at memory. -/
def kernelStep (k : Kernel cfg) : Thread cfg.numCpus × VmRg → Option (Kernel cfg)
  | (.cpu id, behind) => kernelCpuStep k id behind
  | (t, _) => (simStep k.sim (t, [])).map fun sim => { k with sim := sim }

/-- The start: the threads and the devices as `main` sets them up. -/
def bootKernel (cfg : KernelConfig) : Kernel cfg where
  sim := bootSim cfg.toSimConfig
  sys := { sys := bootSys cfg.memramsz cfg.memswpsz, dangles := fun _ => false }
  shown _ := []

/-- All threads over memory, in any order, with the words behind the region tables as labels. -/
def kernelSystem (cfg : KernelConfig) :
    TransitionSystem (Kernel cfg) (Thread cfg.numCpus × VmRg) where
  init k := k = bootKernel cfg
  step k t k' := kernelStep k t = some k'

/-! ### What a step can do -/

/-- A step of a thread: an instruction is executed, or memory is left alone. -/
inductive KernelStep (k : Kernel cfg) (t : Thread cfg.numCpus) (behind : VmRg) : Kernel cfg → Prop
  | exec (id : Fin cfg.numCpus) (proc : cfg.Proc) (timeLeft : ℤ) (ins : InstT)
      (r : Executed cfg.Proc) (ht : t = .cpu id)
      (hx : k.sim.os.cpu id = ⟨.run, some proc, timeLeft⟩)
      (hins : k.sim.fetched id = some ins) (hr : k.execute proc behind ins = some r) :
      KernelStep k t behind
        { sim := k.sim.exec id proc timeLeft ins r.name
          sys := r.sys
          shown := Function.update k.shown proc (k.shown proc ++ [(ins, r.out)]) }
  | other (sim : Sim cfg.toSimConfig) (hst : simStep k.sim (t, []) = some sim)
      (hexecuted : sim.executed = k.sim.executed) : KernelStep k t behind { k with sim := sim }

section Step

variable {k k' : Kernel cfg} {t : Thread cfg.numCpus} {behind : VmRg}

/-- A step of a thread that executes nothing. -/
theorem executed_of_simStep {s s' : Sim cfg.toSimConfig} {name : CStr}
    (h : simStep s (t, name) = some s')
    (hnot : ∀ id proc timeLeft ins, t = .cpu id → s.os.cpu id = ⟨.run, some proc, timeLeft⟩ →
      s.fetched id ≠ some ins) : s'.executed = s.executed := by
  rcases simStep_cases h with
    ⟨id, rfl, hcpu⟩ | ⟨rfl, os, -, rfl⟩ | ⟨rfl, clock, -, rfl⟩ | ⟨rfl, rfl⟩
  · cases hcpu with
    | exec proc timeLeft ins hx hins => exact absurd hins (hnot id proc timeLeft ins rfl hx)
    | _ => rfl
  all_goals rfl

/-- **What a step of a thread can do**: `kernelStep` takes no step but those. -/
theorem kernelStep_cases (h : kernelStep k (t, behind) = some k') : KernelStep k t behind k' := by
  have hother (hnot : ∀ id proc timeLeft ins, t = .cpu id →
      k.sim.os.cpu id = ⟨.run, some proc, timeLeft⟩ → k.sim.fetched id ≠ some ins)
      (hst : (simStep k.sim (t, [])).map (fun sim => { k with sim := sim }) = some k') :
      KernelStep k t behind k' := by
    obtain ⟨sim, hsim, rfl⟩ := Option.map_eq_some_iff.mp hst
    exact .other sim hsim (executed_of_simStep hsim hnot)
  cases t with
  | cpu id =>
      rw [kernelStep, kernelCpuStep] at h
      split at h
      · rename_i proc timeLeft ins hx hins
        obtain ⟨r, hr, rfl⟩ := Option.map_eq_some_iff.mp h
        exact .exec id proc timeLeft ins r rfl hx hins hr
      · rename_i hnot
        refine hother (fun id' proc timeLeft ins ht hx hins => ?_) h
        obtain rfl := Thread.cpu.inj ht
        exact hnot proc timeLeft ins hx hins
  | ld => exact hother (fun _ _ _ _ ht => nomatch ht) h
  | timer => exact hother (fun _ _ _ _ ht => nomatch ht) h
  | main => exact hother (fun _ _ _ _ ht => nomatch ht) h

/-- **The threads do what they do without memory**, for the name that is found. -/
theorem simStep_of_kernelStep (h : kernelStep k (t, behind) = some k') :
    ∃ name, simStep k.sim (t, name) = some k'.sim := by
  cases kernelStep_cases h with
  | exec id proc timeLeft ins r ht hx hins hr =>
      refine ⟨r.name, ?_⟩
      rw [ht, simStep, simCpuStep, hx, hins]
  | other sim hst hexecuted => exact ⟨[], hst⟩

/-- A run over memory is a run of the threads, by the same threads in the same order. -/
theorem sim_of_kernel {k₀ : Kernel cfg} {ts : List (Thread cfg.numCpus × VmRg)}
    (hrun : ((kernelSystem cfg).startingAt k₀).Run ts k) :
    ∃ ts', ts'.map Prod.fst = ts.map Prod.fst ∧
      ((simSystem cfg.toSimConfig).startingAt k₀.sim).Run ts' k.sim := by
  induction hrun with
  | init hk =>
      obtain rfl : _ = k₀ := hk
      exact ⟨[], rfl, Run.init rfl⟩
  | @step ts k t k' hrun hst ih =>
      obtain ⟨ts', hts', hrun'⟩ := ih
      obtain ⟨name, hname⟩ := simStep_of_kernelStep hst
      exact ⟨ts' ++ [(t.1, name)], by simp [hts'], hrun'.step hname⟩

/-- From the start on. -/
theorem sim_of_kernel_run {ts : List (Thread cfg.numCpus × VmRg)}
    (hrun : (kernelSystem cfg).Run ts k) : ∃ ts', (simSystem cfg.toSimConfig).Run ts' k.sim := by
  have hboot : ((kernelSystem cfg).startingAt (bootKernel cfg)).Run ts k := hrun
  obtain ⟨ts', -, hsim⟩ := sim_of_kernel hboot
  exact ⟨ts', hsim⟩

end Step

end OsSim
