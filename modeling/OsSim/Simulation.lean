import OsSim.Killall
import OsSim.Os

/-!
# Programs That Run and Kill

The threads of `Os` with what they do to the processes. In `Os` a call of `run` moves a program
counter and nothing else. Here it fetches the instruction at the program counter in one step, and
in the next it moves the counter and executes the instruction, so that two CPUs which had the same
process could both fetch before either of them moves on. What the instructions other than `killall`
do to memory is left out: no thread of the scheduler looks at it, and `Kernel` adds it.

## `killall` instructions

`__sys_killall` reads a name from the memory of its caller, and then goes over `running_list` and
the ready queues. Memory is left out, so the name is any name, given by the label of the step; a
call whose loop over the name never ends is a call that takes no further step, and no label stands
for it. The two loops over the lists are one step of `simSystem`, which filters them. In the code
they take no lock and many steps, while other CPUs and the loader go on: `KillSteps` has them so,
and `Settling` shows that the two agree as long as no `killall` overlaps another one or a section
under `queue_lock`. Results over `simSystem` are about `killall` instructions that are one step, or
about programs that have none (`SimConfig.NoKillall`).

A PCB that was freed stays as it was: nothing in the model writes to it, and `running_list` keeps
its entry.

## Main results

* `simSystem`: all threads, in any order.
* `simCpuStep_cases`, `simStep_cases`: **what a step of a CPU, and of a thread, can do**.
-/

namespace OsSim

open TransitionSystem

/-! ### Programs -/

/-- `enum ins_opcode_t`: the six kinds of instruction a program can have. -/
inductive Opcode where
  | calc
  | alloc
  | free
  | read
  | write
  | syscall
  deriving DecidableEq, Repr

/-- `struct inst_t`: an opcode and four arguments, which an instruction of fewer leaves at 0. -/
structure InstT where
  opcode : Opcode
  arg0 : BitVec 32 := 0
  arg1 : BitVec 32 := 0
  arg2 : BitVec 32 := 0
  arg3 : BitVec 32 := 0
  deriving DecidableEq, Repr

/-- The instruction is a system call of number 101, `sys_killall`. -/
def InstT.isKillall (ins : InstT) : Bool := ins.opcode == .syscall && ins.arg0 == 101

/-- The configuration with the processes' paths and programs, where `codeSize` is `code->size`. -/
structure SimConfig extends OsConfig where
  path : Fin numProcesses → CStr
  text : Fin numProcesses → List InstT
  text_length : ∀ p, (text p).length = codeSize p

/-- The processes, numbered as `ld_processes` has them. -/
abbrev SimConfig.Proc (cfg : SimConfig) : Type := cfg.toOsConfig.Proc

/-! ### The state -/

/-- The threads, the instruction that each CPU has fetched and not executed, the processes' `pid`
fields, and whether their PCBs are freed; `executed` records what has been executed for each. -/
structure Sim (cfg : SimConfig) where
  os : Os cfg.toOsConfig
  fetched : Fin cfg.numCpus → Option InstT
  pid : cfg.Proc → ℕ
  freed : cfg.Proc → Bool
  executed : cfg.Proc → List InstT

variable {cfg : SimConfig}

/-- The loops of `__sys_killall` for `name` as one step: the lists without the processes that have
`name` as their path, whose `pid` becomes 0. `Killing.killStep` has the loops in their steps. -/
def Sim.killall (s : Sim cfg) (name : CStr) : Sim cfg :=
  { s with
    os := { s.os with
      runningList := s.os.runningList.filter fun p => cfg.path p ≠ name
      mlqReadyQueue := fun prio => (s.os.mlqReadyQueue prio).filter fun p => cfg.path p ≠ name }
    pid := fun p =>
      if p ∈ victims cfg.path name s.os.mlqReadyQueue s.os.runningList then 0 else s.pid p }

/-- Executing the instruction that CPU `id` has fetched for `proc`: `pc++`, then the instruction,
then `time_left--`. A `killall` instruction is executed as a whole, once the loop over its name has
ended with `name`; where that loop does not end (`NameLoop`), the CPU takes no such step. -/
def Sim.exec (s : Sim cfg) (id : Fin cfg.numCpus) (proc : cfg.Proc) (timeLeft : ℤ) (ins : InstT)
    (name : CStr) : Sim cfg :=
  let s' : Sim cfg :=
    { s with
      os := { s.os with pc := Function.update s.os.pc proc (s.os.pc proc + 1) }.setCpu id
        ⟨.slotSet, some proc, timeLeft - 1⟩
      fetched := Function.update s.fetched id none
      executed := Function.update s.executed proc (s.executed proc ++ [ins]) }
  if ins.isKillall then s'.killall name else s'

/-- One step of `cpu_routine`; `name` is what a `killall` finds, which is used where the instruction
is one. `run` returns at once where the program counter is at the end, and a process found at its
end is freed. -/
def simCpuStep (s : Sim cfg) (id : Fin cfg.numCpus) (name : CStr) : Option (Sim cfg) :=
  match s.os.cpu id with
  | ⟨.run, some proc, timeLeft⟩ =>
      match s.fetched id with
      | some ins => some (s.exec id proc timeLeft ins name)
      | none =>
          match (cfg.text proc)[s.os.pc proc]? with
          | some ins => some { s with fetched := Function.update s.fetched id (some ins) }
          | none => some { s with os := s.os.setCpu id ⟨.slotSet, some proc, timeLeft - 1⟩ }
  | ⟨.top, some proc, timeLeft⟩ =>
      if s.os.pc proc = cfg.codeSize proc then
        some { s with
          os := s.os.setCpu id ⟨.getFinished, some proc, timeLeft⟩
          freed := Function.update s.freed proc true }
      else (cpuStep s.os id).map fun os => { s with os := os }
  | _ => (cpuStep s.os id).map fun os => { s with os := os }

/-- One step of a thread: of a CPU, or of the loader, the timer or `main`, which do what they do in
`Os`. -/
def simStep (s : Sim cfg) : Thread cfg.numCpus × CStr → Option (Sim cfg)
  | (.cpu id, name) => simCpuStep s id name
  | (t, _) => (osStep s.os t).map fun os => { s with os := os }

/-- The start: no thread has taken a step. `load` numbers the processes from 1 on. -/
def bootSim (cfg : SimConfig) : Sim cfg where
  os := bootOs cfg.toOsConfig
  fetched _ := none
  pid p := p + 1
  freed _ := false
  executed _ := []

/-- All threads, in any order, with the name that a `killall` finds as a part of the label. -/
def simSystem (cfg : SimConfig) : TransitionSystem (Sim cfg) (Thread cfg.numCpus × CStr) where
  init s := s = bootSim cfg
  step s t s' := simStep s t = some s'

/-- A time slot with one CPU: the steps of the loader and of the CPU up to their `next_slot`, the
round of the timer, and their steps once it lets them continue. -/
def slotOf (cpu : Thread cfg.numCpus) (ldSteps cpuSteps ldAfter : ℕ) :
    List (Thread cfg.numCpus × CStr) :=
  (List.replicate ldSteps Thread.ld ++ List.replicate cpuSteps cpu ++
    List.replicate 8 Thread.timer ++ List.replicate ldAfter Thread.ld ++ [cpu]).map
      fun t => (t, [])

/-- The loader has called `add_proc` for `p`, which may be half done. -/
def Sim.Added (s : Sim cfg) (p : cfg.Proc) : Prop :=
  (p : ℕ) < s.os.i ∨ (s.os.ld = .addReady ∧ s.os.i = p)

instance (s : Sim cfg) (p : cfg.Proc) : Decidable (s.Added p) :=
  inferInstanceAs (Decidable (_ ∨ _ ∧ _))

/-- No program has a `killall` instruction, so that no process is ever terminated. -/
def SimConfig.NoKillall (cfg : SimConfig) : Prop := ∀ p, ∀ ins ∈ cfg.text p, ins.isKillall = false

/-! ### What a step can do -/

/-- The steps of CPU `id`: a fetch, an instruction, `run` at the end of a program, a process found
at its end, and the steps of `Os`. -/
inductive SimCpuStep (s : Sim cfg) (id : Fin cfg.numCpus) (name : CStr) : Sim cfg → Prop
  | fetch (proc : cfg.Proc) (t : ℤ) (ins : InstT) (hx : s.os.cpu id = ⟨.run, some proc, t⟩)
      (hnone : s.fetched id = none) (hins : (cfg.text proc)[s.os.pc proc]? = some ins) :
      SimCpuStep s id name { s with fetched := Function.update s.fetched id (some ins) }
  | ended (proc : cfg.Proc) (t : ℤ) (hx : s.os.cpu id = ⟨.run, some proc, t⟩)
      (hnone : s.fetched id = none) (hpc : (cfg.text proc)[s.os.pc proc]? = none) :
      SimCpuStep s id name { s with os := s.os.setCpu id ⟨.slotSet, some proc, t - 1⟩ }
  | exec (proc : cfg.Proc) (t : ℤ) (ins : InstT) (hx : s.os.cpu id = ⟨.run, some proc, t⟩)
      (hins : s.fetched id = some ins) : SimCpuStep s id name (s.exec id proc t ins name)
  | finish (proc : cfg.Proc) (t : ℤ) (hx : s.os.cpu id = ⟨.top, some proc, t⟩)
      (hpc : s.os.pc proc = cfg.codeSize proc) :
      SimCpuStep s id name
        { s with
          os := s.os.setCpu id ⟨.getFinished, some proc, t⟩
          freed := Function.update s.freed proc true }
  | other (os : Os cfg.toOsConfig) (hst : CpuStep s.os id os) (hrun : (s.os.cpu id).label ≠ .run)
      (hend : ∀ proc t, s.os.cpu id = ⟨.top, some proc, t⟩ → s.os.pc proc ≠ cfg.codeSize proc) :
      SimCpuStep s id name { s with os := os }

/-- **What a step of a CPU can do.** -/
theorem simCpuStep_cases {s s' : Sim cfg} {id : Fin cfg.numCpus} {name : CStr}
    (h : simCpuStep s id name = some s') : SimCpuStep s id name s' := by
  rw [simCpuStep] at h
  split at h
  · rename_i proc t hx
    split at h
    · rename_i ins hins
      exact Option.some.inj h ▸ .exec proc t ins hx hins
    · rename_i hnone
      split at h
      · rename_i ins hins
        exact Option.some.inj h ▸ .fetch proc t ins hx hnone hins
      · rename_i hpc
        exact Option.some.inj h ▸ .ended proc t hx hnone hpc
  · rename_i proc t hx
    split at h
    · rename_i hpc
      exact Option.some.inj h ▸ .finish proc t hx hpc
    · rename_i hpc
      obtain ⟨os, hos, rfl⟩ := Option.map_eq_some_iff.mp h
      refine .other os (cpuStep_cases hos) (by simp [hx]) ?_
      intro proc' t' hx'
      rw [hx] at hx'
      obtain rfl : proc = proc' := by simpa using congrArg Cpu.proc hx'
      exact hpc
  · rename_i hrun htop
    obtain ⟨os, hos, rfl⟩ := Option.map_eq_some_iff.mp h
    refine .other os (cpuStep_cases hos) ?_ ?_
    · intro hlabel
      rcases hx : s.os.cpu id with ⟨label, _ | proc, t⟩
      · obtain rfl : label = .run := by simpa [hx] using hlabel
        simp [cpuStep, hx] at hos
      · obtain rfl : label = .run := by simpa [hx] using hlabel
        exact hrun proc t hx
    · intro proc t hx
      exact absurd hx (htop proc t)

section Exec

variable (s : Sim cfg) (id : Fin cfg.numCpus) (proc : cfg.Proc) (t : ℤ) (ins : InstT)
  (name : CStr)

@[simp] theorem Sim.cpu_exec : (s.exec id proc t ins name).os.cpu =
    Function.update s.os.cpu id ⟨.slotSet, some proc, t - 1⟩ := by
  rw [Sim.exec]
  split <;> rfl

@[simp] theorem Sim.ld_exec : (s.exec id proc t ins name).os.ld = s.os.ld := by
  rw [Sim.exec]
  split <;> rfl

@[simp] theorem Sim.i_exec : (s.exec id proc t ins name).os.i = s.os.i := by
  rw [Sim.exec]
  split <;> rfl

@[simp] theorem Sim.done_exec : (s.exec id proc t ins name).os.done = s.os.done := by
  rw [Sim.exec]
  split <;> rfl

@[simp] theorem Sim.clock_exec : (s.exec id proc t ins name).os.clock = s.os.clock := by
  rw [Sim.exec]
  split <;> rfl

@[simp] theorem Sim.pc_exec : (s.exec id proc t ins name).os.pc =
    Function.update s.os.pc proc (s.os.pc proc + 1) := by
  rw [Sim.exec]
  split <;> rfl

@[simp] theorem Sim.fetched_exec : (s.exec id proc t ins name).fetched =
    Function.update s.fetched id none := by
  rw [Sim.exec]
  split <;> rfl

@[simp] theorem Sim.freed_exec : (s.exec id proc t ins name).freed = s.freed := by
  rw [Sim.exec]
  split <;> rfl

@[simp] theorem Sim.executed_exec : (s.exec id proc t ins name).executed =
    Function.update s.executed proc (s.executed proc ++ [ins]) := by
  rw [Sim.exec]
  split <;> rfl

/-- What an instruction does to the ready queues: a `killall` filters them. -/
theorem Sim.mlqReadyQueue_exec : (s.exec id proc t ins name).os.mlqReadyQueue =
    if ins.isKillall then
      fun prio => (s.os.mlqReadyQueue prio).filter fun p => cfg.path p ≠ name
    else s.os.mlqReadyQueue := by
  rw [Sim.exec]
  split <;> rfl

/-- What an instruction does to `running_list`: a `killall` filters it. -/
theorem Sim.runningList_exec : (s.exec id proc t ins name).os.runningList =
    if ins.isKillall then s.os.runningList.filter fun p => cfg.path p ≠ name
    else s.os.runningList := by
  rw [Sim.exec]
  split <;> rfl

/-- What an instruction does to the `pid` fields: a `killall` sets those of the entries it finds to
0. -/
theorem Sim.pid_exec : (s.exec id proc t ins name).pid =
    if ins.isKillall then fun p =>
      if p ∈ victims cfg.path name s.os.mlqReadyQueue s.os.runningList then 0 else s.pid p
    else s.pid := by
  rw [Sim.exec]
  split <;> rfl

end Exec

/-- A step of CPU `id` leaves the other CPUs, the loader and the flags of the others alone. -/
theorem SimCpuStep.frame {s s' : Sim cfg} {id : Fin cfg.numCpus} {name : CStr}
    (h : SimCpuStep s id name s') :
    s'.os.ld = s.os.ld ∧ s'.os.i = s.os.i ∧ s'.os.done = s.os.done ∧
      ∀ id', id' ≠ id → s'.os.cpu id' = s.os.cpu id' := by
  cases h with
  | fetch proc t ins hx hnone hins => exact ⟨rfl, rfl, rfl, fun _ _ => rfl⟩
  | ended proc t hx hnone hpc =>
      exact ⟨rfl, rfl, rfl, fun id' hid => Os.cpu_setCpu_of_ne _ _ _ hid⟩
  | exec proc t ins hx hins => simp +contextual
  | finish proc t hx hpc =>
      exact ⟨rfl, rfl, rfl, fun id' hid => Os.cpu_setCpu_of_ne _ _ _ hid⟩
  | other os hst hrun hend =>
      obtain ⟨hld, hi, hdone, hother, -⟩ := hst.frame
      exact ⟨hld, hi, hdone, hother⟩

/-- A step of a thread: one of a CPU, or one of the loader, the timer or `main`, which leaves the
processes alone. -/
theorem simStep_cases {s s' : Sim cfg} {t : Thread cfg.numCpus} {name : CStr}
    (h : simStep s (t, name) = some s') :
    (∃ id, t = .cpu id ∧ SimCpuStep s id name s') ∨
      (t = .ld ∧ ∃ os, LdStep s.os os ∧ s' = { s with os := os }) ∨
      (t = .timer ∧ ∃ clock, timerStep cfg.devList s.os.timerStop s.os.clock = some clock ∧
        s' = { s with os := { s.os with clock := clock } }) ∨
      (t = .main ∧ s' = { s with os := { s.os with timerStop := true } }) := by
  cases t with
  | cpu id => exact Or.inl ⟨id, rfl, simCpuStep_cases h⟩
  | ld =>
      obtain ⟨os, hos, rfl⟩ := Option.map_eq_some_iff.mp h
      exact Or.inr (Or.inl ⟨rfl, os, ldStep_cases hos, rfl⟩)
  | timer =>
      obtain ⟨os, hos, rfl⟩ := Option.map_eq_some_iff.mp h
      obtain ⟨clock, hclock, rfl⟩ := Option.map_eq_some_iff.mp hos
      exact Or.inr (Or.inr (Or.inl ⟨rfl, clock, hclock, rfl⟩))
  | main =>
      obtain ⟨os, hos, rfl⟩ := Option.map_eq_some_iff.mp h
      rw [osStep] at hos
      split at hos
      · obtain rfl := Option.some.inj hos
        exact Or.inr (Or.inr (Or.inr ⟨rfl, rfl⟩))
      · simp at hos

end OsSim
