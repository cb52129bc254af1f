import OsSim.Lib.Transition
import OsSim.Sched
import OsSim.Timer
import Mathlib.Data.List.FinRange

/-!
# The Whole Simulation

`os.c`: the CPU threads, the loader and the timer over the scheduler's queues. A step of a
thread is a section under one lock or one access to a shared variable. Programs have no
`SYSCALL`: `run` then moves the process's program counter, and what its instruction does to
memory is read by nothing here.

Each thread is where its label says, with its locals, and one function computes its next step, or
`none` while it waits and once it has left. The labels of `cpu_routine` are the places between two
accesses to what the threads share: the three calls of `get_proc`, the test of the program counter,
the two sections of `put_proc`, the call of `run`, and the sections of `next_slot` and
`detach_event`. A step computes everything up to the next such place, since nothing that happens in
between can be seen by another thread. Which thread goes next is left open (`osSystem`), and so
every order of the sections is a run.

Later modules go by the inversion lemmas: `CpuStep` and `LdStep` list what a step can do, each with
the conditions under which it does so, and with the state afterwards written out. The steps that
change nothing but the locals of a CPU, or the label of the loader, are gathered in one case
(`CpuGoto`, `LdGoto`), as most invariants need only one argument for all of them.

## Main results

* `cpuStep_cases`, `ldStep_cases`: **what a step of a CPU, and of the loader, can do**.
* `osSystem`: all threads, in any order.
-/

namespace OsSim

/-! ### The configuration -/

/-- What `read_config` and the loader read: the processes' start times and priorities, and
the lengths of their programs. -/
structure OsConfig where
  numCpus : ℕ
  timeSlot : ℤ
  numProcesses : ℕ
  startTime : Fin numProcesses → ℕ
  prio : Fin numProcesses → Fin maxPrio
  codeSize : Fin numProcesses → ℕ

/-- The devices attached to the timer: one for each CPU, and the loader's. -/
inductive Device (numCpus : ℕ) where
  | cpu (id : Fin numCpus)
  | ld
  deriving DecidableEq

/-- The processes, by their index in the configuration, in whose order the loader adds them. -/
abbrev OsConfig.Proc (cfg : OsConfig) : Type := Fin cfg.numProcesses

/-- `attach_event` puts the device at the head of the list, which the timer goes through from the
head on. -/
def attachEvent {n : ℕ} (devList : List (Device n)) (d : Device n) : List (Device n) :=
  d :: devList

/-- `dev_list` as `main` builds it: the CPUs are attached in turn, the loader last. -/
def OsConfig.devList (cfg : OsConfig) : List (Device cfg.numCpus) :=
  attachEvent
    ((List.finRange cfg.numCpus).foldl (fun devList id => attachEvent devList (.cpu id)) []) .ld

/-! ### The state -/

/-- Where `cpu_routine` is. `get_proc` is called in three places and `put_proc` in one; `next_slot`
sets the flag and waits. -/
inductive CpuLabel where
  | top
  | getFirst
  | getFinished
  | putRunning
  | putReady
  | getPut
  | recheck
  | run
  | slotSet
  | slotWait
  | detach
  | exited
  deriving DecidableEq, Repr

/-- The locals of `cpu_routine`: the place, the pointer `proc`, and `time_left`. The pointer keeps
its value after the process was freed or put back. -/
structure Cpu (P : Type) where
  label : CpuLabel
  proc : Option P
  timeLeft : ℤ

/-- Where `ld_routine` is. It calls `next_slot` while it waits for a start time, and after each
process. -/
inductive LdLabel where
  | top
  | checkTime
  | waitSet
  | waitSlot
  | addRunning
  | addReady
  | nextSet
  | nextSlot
  | setDone
  | detach
  | exited
  deriving DecidableEq, Repr

/-- All threads and what they share: the places of the CPUs with their locals, that of the loader,
the timer's clock, the scheduler's queues, and the program counters. -/
structure Os (cfg : OsConfig) where
  cpu : Fin cfg.numCpus → Cpu cfg.Proc
  ld : LdLabel
  /-- The loader's `i`. -/
  i : ℕ
  clock : Clock (Device cfg.numCpus)
  timerStop : Bool
  done : Bool
  pc : cfg.Proc → ℕ
  mlqReadyQueue : Fin maxPrio → List cfg.Proc
  runningList : List cfg.Proc

variable {cfg : OsConfig}

/-- Replacing the locals of one CPU, which no other thread reads. -/
def Os.setCpu (s : Os cfg) (id : Fin cfg.numCpus) (x : Cpu cfg.Proc) : Os cfg :=
  { s with cpu := Function.update s.cpu id x }

section SetCpu

variable (s : Os cfg) (id : Fin cfg.numCpus) (x : Cpu cfg.Proc)

@[simp] theorem Os.cpu_setCpu_self : (s.setCpu id x).cpu id = x := by simp [Os.setCpu]
@[simp] theorem Os.ld_setCpu : (s.setCpu id x).ld = s.ld := rfl
@[simp] theorem Os.i_setCpu : (s.setCpu id x).i = s.i := rfl
@[simp] theorem Os.clock_setCpu : (s.setCpu id x).clock = s.clock := rfl
@[simp] theorem Os.done_setCpu : (s.setCpu id x).done = s.done := rfl
@[simp] theorem Os.pc_setCpu : (s.setCpu id x).pc = s.pc := rfl
@[simp] theorem Os.mlqReadyQueue_setCpu : (s.setCpu id x).mlqReadyQueue = s.mlqReadyQueue := rfl

/-- The other CPUs are where they were. -/
theorem Os.cpu_setCpu_of_ne {id' : Fin cfg.numCpus} (h : id' ≠ id) :
    (s.setCpu id x).cpu id' = s.cpu id' := by
  simp [Os.setCpu, h]

end SetCpu

/-! ### `cpu_routine` -/

/-- What `run` makes of the program counter, which stays at the end of the program, where it returns
1. -/
def runPc (codeSize pc : ℕ) : ℕ := if pc ≥ codeSize then pc else pc + 1

/-- The locals after `get_proc` has returned `r`. The first call skips the recheck when it has
found nothing; the call after a process has finished also clears `time_left`. -/
def Cpu.got {P : Type} (x : Cpu P) (r : Option P) : Cpu P :=
  match x.label with
  | .getFirst => { x with proc := r, label := if r.isNone then .slotSet else .recheck }
  | .getFinished => { proc := r, timeLeft := 0, label := .recheck }
  | _ => { x with proc := r, label := .recheck }

/-- One step of `cpu_routine` on CPU `id`; `none` while it waits, and when it is gone. A finished
process is freed on the way to `getFinished`. -/
def cpuStep (s : Os cfg) (id : Fin cfg.numCpus) : Option (Os cfg) :=
  let x := s.cpu id
  match x.label, x.proc with
  | .top, none => some (s.setCpu id { x with label := .getFirst })
  | .top, some proc =>
      if s.pc proc = cfg.codeSize proc then some (s.setCpu id { x with label := .getFinished })
      else if x.timeLeft = 0 then some (s.setCpu id { x with label := .putRunning })
      else some (s.setCpu id { x with label := .recheck })
  | .getFirst, _ | .getFinished, _ | .getPut, _ =>
      let r := getMlqProc s.mlqReadyQueue
      some ({ s with mlqReadyQueue := r.2 }.setCpu id (x.got r.1))
  | .putRunning, some proc =>
      some ({ s with runningList := enqueue s.runningList proc }.setCpu id
        { x with label := .putReady })
  | .putReady, some proc =>
      some ({ s with mlqReadyQueue := putMlqProc s.mlqReadyQueue (cfg.prio proc) proc }.setCpu id
        { x with label := .getPut })
  | .recheck, none =>
      if s.done then some (s.setCpu id { x with label := .detach })
      else some (s.setCpu id { x with label := .slotSet })
  | .recheck, some _ =>
      let timeLeft := if x.timeLeft = 0 then cfg.timeSlot else x.timeLeft
      some (s.setCpu id { x with timeLeft := timeLeft, label := .run })
  | .run, some proc =>
      let pc := Function.update s.pc proc (runPc (cfg.codeSize proc) (s.pc proc))
      some ({ s with pc := pc }.setCpu id { x with timeLeft := x.timeLeft - 1, label := .slotSet })
  | .slotSet, _ =>
      some ({ s with clock := s.clock.signal (.cpu id) }.setCpu id { x with label := .slotWait })
  | .slotWait, _ =>
      if (s.clock.dev (.cpu id)).done then none else some (s.setCpu id { x with label := .top })
  | .detach, _ =>
      some ({ s with clock := s.clock.detachEvent (.cpu id) }.setCpu id { x with label := .exited })
  | .putRunning, none | .putReady, none | .run, none | .exited, _ => none

/-! ### `ld_routine` -/

/-- One step of `ld_routine`; `none` while it waits, and when it is gone. -/
def ldStep (s : Os cfg) : Option (Os cfg) :=
  match s.ld with
  | .top =>
      if s.i < cfg.numProcesses then some { s with ld := .checkTime }
      else some { s with ld := .setDone }
  | .checkTime =>
      if h : s.i < cfg.numProcesses then
        if s.clock.time < cfg.startTime ⟨s.i, h⟩ then some { s with ld := .waitSet }
        else some { s with ld := .addRunning }
      else none
  | .waitSet => some { s with clock := s.clock.signal .ld, ld := .waitSlot }
  | .waitSlot =>
      if (s.clock.dev .ld).done then none else some { s with ld := .checkTime }
  | .addRunning =>
      if h : s.i < cfg.numProcesses then
        some { s with runningList := enqueue s.runningList ⟨s.i, h⟩, ld := .addReady }
      else none
  | .addReady =>
      if h : s.i < cfg.numProcesses then
        some { s with
          mlqReadyQueue := putMlqProc s.mlqReadyQueue (cfg.prio ⟨s.i, h⟩) ⟨s.i, h⟩
          i := s.i + 1
          ld := .nextSet }
      else none
  | .nextSet => some { s with clock := s.clock.signal .ld, ld := .nextSlot }
  | .nextSlot =>
      if (s.clock.dev .ld).done then none else some { s with ld := .top }
  | .setDone => some { s with done := true, ld := .detach }
  | .detach => some { s with clock := s.clock.detachEvent .ld, ld := .exited }
  | .exited => none

/-! ### All threads -/

/-- The threads; `main` calls `stop_timer` once it has joined the others. -/
inductive Thread (numCpus : ℕ) where
  | cpu (id : Fin numCpus)
  | ld
  | timer
  | main
  deriving DecidableEq

/-- One step of a thread; `none` while it waits or when it has left. -/
def osStep (s : Os cfg) : Thread cfg.numCpus → Option (Os cfg)
  | .cpu id => cpuStep s id
  | .ld => ldStep s
  | .timer => (timerStep cfg.devList s.timerStop s.clock).map fun clock => { s with clock := clock }
  | .main =>
      if (∀ id, (s.cpu id).label = .exited) ∧ s.ld = .exited then some { s with timerStop := true }
      else none

/-- The start: no thread has done anything, `_time` is 0, and the queues are empty. -/
def bootOs (cfg : OsConfig) : Os cfg where
  cpu _ := { label := .top, proc := none, timeLeft := 0 }
  ld := .top
  i := 0
  clock := { label := .top, dev := fun _ => { done := false, fsh := false }, time := 0 }
  timerStop := false
  done := false
  pc _ := 0
  mlqReadyQueue _ := []
  runningList := []

/-- All threads, in any order of their steps, from the start of the simulation on. -/
def osSystem (cfg : OsConfig) : TransitionSystem (Os cfg) (Thread cfg.numCpus) where
  init s := s = bootOs cfg
  step s t s' := osStep s t = some s'

/-! ### What a step of a CPU can do -/

/-- The process a CPU has in hand: `proc`, but not while it calls `get_proc` after that process
was freed or put back. -/
def Cpu.holds {P : Type} (x : Cpu P) : Option P :=
  match x.label with
  | .getFinished | .getPut => none
  | _ => x.proc

/-- After `get_proc`, a CPU has in hand what the call returned, or nothing. -/
theorem Cpu.holds_got {P : Type} (x : Cpu P) (r : Option P) : (x.got r).holds = r := by
  rw [Cpu.got]
  split
  · cases r <;> rfl
  · rfl
  · rfl

/-- The steps of a CPU that change its locals only: `CpuGoto s id x x'` goes from `x` to `x'`. -/
inductive CpuGoto (s : Os cfg) (id : Fin cfg.numCpus) : Cpu cfg.Proc → Cpu cfg.Proc → Prop
  | load (t : ℤ) : CpuGoto s id ⟨.top, none, t⟩ ⟨.getFirst, none, t⟩
  | finish (proc : cfg.Proc) (t : ℤ) (hpc : s.pc proc = cfg.codeSize proc) :
      CpuGoto s id ⟨.top, some proc, t⟩ ⟨.getFinished, some proc, t⟩
  | expire (proc : cfg.Proc) (hpc : s.pc proc ≠ cfg.codeSize proc) :
      CpuGoto s id ⟨.top, some proc, 0⟩ ⟨.putRunning, some proc, 0⟩
  | resume (proc : cfg.Proc) (t : ℤ) (hpc : s.pc proc ≠ cfg.codeSize proc) (ht : t ≠ 0) :
      CpuGoto s id ⟨.top, some proc, t⟩ ⟨.recheck, some proc, t⟩
  | leave (t : ℤ) (hdone : s.done = true) : CpuGoto s id ⟨.recheck, none, t⟩ ⟨.detach, none, t⟩
  | skip (t : ℤ) (hdone : s.done = false) :
      CpuGoto s id ⟨.recheck, none, t⟩ ⟨.slotSet, none, t⟩
  | dispatch (proc : cfg.Proc) (t : ℤ) :
      CpuGoto s id ⟨.recheck, some proc, t⟩
        ⟨.run, some proc, if t = 0 then cfg.timeSlot else t⟩
  | wake (proc : Option cfg.Proc) (t : ℤ) (hflag : (s.clock.dev (.cpu id)).done = false) :
      CpuGoto s id ⟨.slotWait, proc, t⟩ ⟨.top, proc, t⟩

/-- The steps of CPU `id` from `s`, one constructor for each thing that a CPU does to what is
shared. -/
inductive CpuStep (s : Os cfg) (id : Fin cfg.numCpus) : Os cfg → Prop
  | goto (x x' : Cpu cfg.Proc) (hx : s.cpu id = x) (hgo : CpuGoto s id x x') :
      CpuStep s id (s.setCpu id x')
  | get (x : Cpu cfg.Proc) (hx : s.cpu id = x)
      (hlabel : x.label = .getFirst ∨ x.label = .getFinished ∨ x.label = .getPut) :
      CpuStep s id ({ s with mlqReadyQueue := (getMlqProc s.mlqReadyQueue).2 }.setCpu id
        (x.got (getMlqProc s.mlqReadyQueue).1))
  | putRunning (proc : cfg.Proc) (t : ℤ) (hx : s.cpu id = ⟨.putRunning, some proc, t⟩) :
      CpuStep s id ({ s with runningList := enqueue s.runningList proc }.setCpu id
        ⟨.putReady, some proc, t⟩)
  | putReady (proc : cfg.Proc) (t : ℤ) (hx : s.cpu id = ⟨.putReady, some proc, t⟩) :
      CpuStep s id
        ({ s with mlqReadyQueue := putMlqProc s.mlqReadyQueue (cfg.prio proc) proc }.setCpu id
          ⟨.getPut, some proc, t⟩)
  | run (proc : cfg.Proc) (t : ℤ) (hx : s.cpu id = ⟨.run, some proc, t⟩) :
      CpuStep s id ({ s with
        pc := Function.update s.pc proc (runPc (cfg.codeSize proc) (s.pc proc)) }.setCpu id
          ⟨.slotSet, some proc, t - 1⟩)
  | slotSet (proc : Option cfg.Proc) (t : ℤ) (hx : s.cpu id = ⟨.slotSet, proc, t⟩) :
      CpuStep s id ({ s with clock := s.clock.signal (.cpu id) }.setCpu id ⟨.slotWait, proc, t⟩)
  | detach (proc : Option cfg.Proc) (t : ℤ) (hx : s.cpu id = ⟨.detach, proc, t⟩) :
      CpuStep s id ({ s with clock := s.clock.detachEvent (.cpu id) }.setCpu id
        ⟨.exited, proc, t⟩)

/-- **What a step of a CPU can do.** Nothing else is used of `cpuStep` later. -/
theorem cpuStep_cases {s s' : Os cfg} {id : Fin cfg.numCpus} (h : cpuStep s id = some s') :
    CpuStep s id s' := by
  have hgoto {x x' : Cpu cfg.Proc} (hx : s.cpu id = x) (hgo : CpuGoto s id x x') :
      CpuStep s id (s.setCpu id x') := CpuStep.goto x x' hx hgo
  rw [cpuStep] at h
  rcases hx : s.cpu id with ⟨label, proc, t⟩
  simp only [hx] at h
  cases label with
  | top =>
      rcases proc with _ | proc
      · exact Option.some.inj h ▸ hgoto hx (.load t)
      · simp only at h
        split_ifs at h with hpc ht
        · exact Option.some.inj h ▸ hgoto hx (.finish proc t hpc)
        · exact Option.some.inj h ▸ hgoto hx (ht ▸ .expire proc hpc)
        · exact Option.some.inj h ▸ hgoto hx (.resume proc t hpc ht)
  | getFirst => exact Option.some.inj h ▸ .get _ hx (by simp)
  | getFinished => exact Option.some.inj h ▸ .get _ hx (by simp)
  | getPut => exact Option.some.inj h ▸ .get _ hx (by simp)
  | putRunning =>
      rcases proc with _ | proc
      · simp at h
      · exact Option.some.inj h ▸ .putRunning proc t hx
  | putReady =>
      rcases proc with _ | proc
      · simp at h
      · exact Option.some.inj h ▸ .putReady proc t hx
  | recheck =>
      rcases proc with _ | proc
      · simp only at h
        split_ifs at h with hdone
        · exact Option.some.inj h ▸ hgoto hx (.leave t hdone)
        · exact Option.some.inj h ▸ hgoto hx (.skip t (by simpa using hdone))
      · exact Option.some.inj h ▸ hgoto hx (.dispatch proc t)
  | run =>
      rcases proc with _ | proc
      · simp at h
      · exact Option.some.inj h ▸ .run proc t hx
  | slotSet => exact Option.some.inj h ▸ .slotSet proc t hx
  | slotWait =>
      simp only at h
      split_ifs at h with hflag
      exact Option.some.inj h ▸ hgoto hx (.wake proc t (by simpa using hflag))
  | detach => exact Option.some.inj h ▸ .detach proc t hx
  | exited => simp at h

/-- A step of CPU `id` leaves the other CPUs and the loader alone. -/
theorem CpuStep.frame {s s' : Os cfg} {id : Fin cfg.numCpus} (h : CpuStep s id s') :
    s'.ld = s.ld ∧ s'.i = s.i ∧ s'.done = s.done ∧ (∀ id', id' ≠ id → s'.cpu id' = s.cpu id') ∧
      ∀ d, d ≠ .cpu id → s'.clock.dev d = s.clock.dev d := by
  cases h <;> refine ⟨rfl, rfl, rfl, fun id' hid => ?_, fun d hd => ?_⟩
  case slotSet.refine_2 => exact Function.update_of_ne hd _ _
  case detach.refine_2 => exact Function.update_of_ne hd _ _
  all_goals first
    | rfl
    | exact Os.cpu_setCpu_of_ne _ _ _ hid

/-! ### What a step of the loader can do -/

/-- The steps of the loader that change its place only, tests and returns from waits. -/
inductive LdGoto (s : Os cfg) : LdLabel → LdLabel → Prop
  | next (hi : s.i < cfg.numProcesses) : LdGoto s .top .checkTime
  | finish (hi : ¬ s.i < cfg.numProcesses) : LdGoto s .top .setDone
  | early : LdGoto s .checkTime .waitSet
  | due : LdGoto s .checkTime .addRunning
  | wake (hflag : (s.clock.dev .ld).done = false) : LdGoto s .waitSlot .checkTime
  | resume (hflag : (s.clock.dev .ld).done = false) : LdGoto s .nextSlot .top

/-- The steps of the loader from `s`, one constructor for each thing that it does to what is shared.
-/
inductive LdStep (s : Os cfg) : Os cfg → Prop
  | goto (l l' : LdLabel) (hl : s.ld = l) (hgo : LdGoto s l l') : LdStep s { s with ld := l' }
  | addRunning (hi : s.i < cfg.numProcesses) (hl : s.ld = .addRunning) :
      LdStep s { s with runningList := enqueue s.runningList ⟨s.i, hi⟩, ld := .addReady }
  | addReady (hi : s.i < cfg.numProcesses) (hl : s.ld = .addReady) :
      LdStep s { s with
        mlqReadyQueue := putMlqProc s.mlqReadyQueue (cfg.prio ⟨s.i, hi⟩) ⟨s.i, hi⟩
        i := s.i + 1
        ld := .nextSet }
  | waitSet (hl : s.ld = .waitSet) :
      LdStep s { s with clock := s.clock.signal .ld, ld := .waitSlot }
  | nextSet (hl : s.ld = .nextSet) :
      LdStep s { s with clock := s.clock.signal .ld, ld := .nextSlot }
  | setDone (hl : s.ld = .setDone) : LdStep s { s with done := true, ld := .detach }
  | detach (hl : s.ld = .detach) :
      LdStep s { s with clock := s.clock.detachEvent .ld, ld := .exited }

/-- **What a step of the loader can do**, in the same form. -/
theorem ldStep_cases {s s' : Os cfg} (h : ldStep s = some s') : LdStep s s' := by
  rw [ldStep] at h
  split at h
  case h_1 hl =>
    split_ifs at h with hi
    · exact Option.some.inj h ▸ .goto _ _ hl (.next hi)
    · exact Option.some.inj h ▸ .goto _ _ hl (.finish hi)
  case h_2 hl =>
    split_ifs at h
    · exact Option.some.inj h ▸ .goto _ _ hl .early
    · exact Option.some.inj h ▸ .goto _ _ hl .due
  case h_3 hl => exact Option.some.inj h ▸ .waitSet hl
  case h_4 hl =>
    split_ifs at h with hflag
    exact Option.some.inj h ▸ .goto _ _ hl (.wake (by simpa using hflag))
  case h_5 hl =>
    split_ifs at h with hi
    exact Option.some.inj h ▸ .addRunning hi hl
  case h_6 hl =>
    split_ifs at h with hi
    exact Option.some.inj h ▸ .addReady hi hl
  case h_7 hl => exact Option.some.inj h ▸ .nextSet hl
  case h_8 hl =>
    split_ifs at h with hflag
    exact Option.some.inj h ▸ .goto _ _ hl (.resume (by simpa using hflag))
  case h_9 hl => exact Option.some.inj h ▸ .setDone hl
  case h_10 hl => exact Option.some.inj h ▸ .detach hl
  case h_11 => simp at h

end OsSim
