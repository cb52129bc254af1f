import OsSim.Drain
import OsSim.Lib.WeakSimulation
import OsSim.Presence
import OsSim.Terminated

/-!
# Programs That Kill Nobody

Where no program has a `killall`, the threads with their instructions do what the threads of `Os`
do: fetching an instruction is nothing there, and executing it is the call of `run`. What holds of
the threads of `Os` then holds of the simulation.

## How the argument goes

A step of `simSystem` stands for one step of `osSystem`, or for none: a fetch changes no field of
`Os`. The record of a run drops the fetches and the names, so that it is a list of threads
(`Sim.osSteps`). That dropping them leaves a run is a weak simulation with equality as its relation,
beside the invariant of execution, which says that a fetched instruction is one of the program and
so no `killall` (`ExecOk.not_killall`).

The two levels have the scheduler in common, and `Os` has no programs. `Drain` proves there that the
CPUs leave no process behind; the refinement brings that to programs.

## Main results

* `simToOs`: the steps that are not fetches are those of `Os`.
* `sim_refines_os`: **the record of a run is a run of the threads**.
* `OsInv.of_run`: the invariant of the threads, in every state.
-/

namespace OsSim

open TransitionSystem

variable {cfg : SimConfig} {s s' : Sim cfg}

/-- A CPU about to fetch an instruction, which is no step of `Os`. -/
def Sim.fetching (s : Sim cfg) (id : Fin cfg.numCpus) : Bool :=
  match s.os.cpu id with
  | ⟨.run, some proc, _⟩ => (s.fetched id).isNone && decide (s.os.pc proc < cfg.codeSize proc)
  | _ => false

/-- The step of the threads of `Os` that a step stands for. -/
def Sim.osSteps (s : Sim cfg) : Thread cfg.numCpus × CStr → List (Thread cfg.numCpus)
  | (.cpu id, _) => if s.fetching id then [] else [.cpu id]
  | (t, _) => [t]

/-- A program counter inside of the program is at an instruction. -/
theorem SimConfig.getElem?_eq_none_iff (cfg : SimConfig) (p : cfg.Proc) (pc : ℕ) :
    (cfg.text p)[pc]? = none ↔ cfg.codeSize p ≤ pc := by
  rw [List.getElem?_eq_none_iff, cfg.text_length]

/-- An instruction that was fetched is one of the program. -/
theorem ExecOk.not_killall (h : ExecOk s) (hno : cfg.NoKillall) {id : Fin cfg.numCpus}
    {ins : InstT} (hins : s.fetched id = some ins) : ins.isKillall = false := by
  obtain ⟨proc, -, -, htext⟩ := h.fetch id ins hins
  exact hno proc ins (List.mem_of_getElem? htext)

/-- A step of a CPU fetches, or is one of `Os`. -/
theorem os_of_simCpuStep (h : ExecOk s) (hno : cfg.NoKillall) {id : Fin cfg.numCpus} {name : CStr}
    (hst : simCpuStep s id name = some s') :
    (s.fetching id = true ∧ s'.os = s.os) ∨
      (s.fetching id = false ∧ cpuStep s.os id = some s'.os) := by
  rcases hx : s.os.cpu id with ⟨label, proc, t⟩
  by_cases hrun : label = .run ∧ ∃ p, proc = some p
  · obtain ⟨rfl, p, rfl⟩ := hrun
    have hpc := cfg.getElem?_eq_none_iff p (s.os.pc p)
    rw [simCpuStep] at hst
    simp only [hx] at hst
    simp only [Sim.fetching, hx, cpuStep, runPc]
    cases hfetched : s.fetched id with
    | none =>
        simp only [hfetched] at hst
        cases htext : (cfg.text p)[s.os.pc p]? with
        | none =>
            simp only [htext, true_iff] at hst hpc
            obtain rfl := Option.some.inj hst
            refine Or.inr ⟨by simpa using hpc, ?_⟩
            simp [hpc, Function.update_eq_self]
        | some ins =>
            simp only [htext] at hst hpc
            obtain rfl := Option.some.inj hst
            exact Or.inl ⟨by simpa using hpc, rfl⟩
    | some ins =>
        simp only [hfetched] at hst
        obtain rfl := Option.some.inj hst
        have hlt : s.os.pc p < cfg.codeSize p :=
          lt_of_le_of_ne (h.pc_le p) (h.not_ended hx hfetched)
        refine Or.inr ⟨rfl, ?_⟩
        simp [Sim.exec, h.not_killall hno hfetched, not_le.mpr hlt]
  · have hfetching : s.fetching id = false := by
      rw [Sim.fetching, hx]
      split
      · rename_i p t' heq
        simp only [Cpu.mk.injEq] at heq
        exact absurd ⟨heq.1, p, heq.2.1⟩ hrun
      · rfl
    refine Or.inr ⟨hfetching, ?_⟩
    rw [simCpuStep] at hst
    split at hst
    · rename_i p t' heq
      rw [hx] at heq
      simp only [Cpu.mk.injEq] at heq
      exact absurd ⟨heq.1, p, heq.2.1⟩ hrun
    · rename_i p t' heq
      split at hst
      · rename_i hpc
        obtain rfl := Option.some.inj hst
        simp [cpuStep, heq, hpc]
      · obtain ⟨os, hos, rfl⟩ := Option.map_eq_some_iff.mp hst
        exact hos
    · obtain ⟨os, hos, rfl⟩ := Option.map_eq_some_iff.mp hst
      exact hos

/-- **Each step is one of `Os`, or none**: a weak simulation, by equality of the threads. -/
theorem simToOs (hno : cfg.NoKillall) :
    WeakSimulation (simSystem cfg) (osSystem cfg.toOsConfig) Sim.osSteps
      fun s os => os = s.os ∧ ExecOk s where
  init := by
    rintro s rfl
    exact ⟨_, rfl, rfl, ExecOk.of_run (Run.init rfl)⟩
  step := by
    rintro s _ ⟨t, name⟩ s' ⟨rfl, hexec⟩ hst
    refine ⟨s'.os, ?_, rfl, hexec.step hst⟩
    cases t with
    | cpu id =>
        rcases os_of_simCpuStep hexec hno hst with ⟨hfetching, hos⟩ | ⟨hfetching, hos⟩
        · rw [hos, Sim.osSteps, if_pos hfetching]
          exact Run.startingAt_nil _ _
        · rw [Sim.osSteps, if_neg (by simp [hfetching])]
          exact Run.startingAt_one hos
    | ld | timer | main =>
        obtain ⟨os, hos, rfl⟩ := Option.map_eq_some_iff.mp hst
        exact Run.startingAt_one hos

/-- **The invariant of the threads**, in every state of every interleaving of at most
`MAX_QUEUE_SIZE` programs that kill nobody. -/
theorem OsInv.of_run (hn : 0 < cfg.numCpus) (hsize : cfg.numProcesses ≤ maxQueueSize)
    (hno : cfg.NoKillall) {ts : List (Thread cfg.numCpus × CStr)}
    (hrun : (simSystem cfg).Run ts s) : OsInv s.os := by
  obtain ⟨us, os, hos, rfl, -⟩ := (simToOs hno).reaches hrun
  refine hos.invariant ?_ fun os t os' hinv hst => hinv.step hn hsize hst
  rintro os rfl
  exact osInv_bootOs hn

/-- **The record of a run is a run of the threads**: where no program has a `killall`, dropping the
steps that fetch an instruction leaves, step for step, a run of the threads of `Os` to the same
threads, clock, queues and program counters. -/
theorem sim_refines_os (hno : cfg.NoKillall) {ts : List (Thread cfg.numCpus × CStr)}
    {us : List (Thread cfg.numCpus)}
    (hrun : ((simSystem cfg).recording Sim.osSteps).Run ts (s, us)) :
    (osSystem cfg.toOsConfig).Run us s.os := by
  obtain ⟨os, hos, rfl, -⟩ := (simToOs hno).run hrun
  exact hos

/-- Ten time slots of one CPU and eleven programs, without the fetches. -/
theorem sim_refines_os_tenSlots : ∃ (s : Sim elevenPrograms) (us : List (Thread 1)),
    (osSystem elevenPrograms.toOsConfig).Run us s.os ∧ s.os.clock.time = 10 := by
  have hstate : (tenSlots.foldlM simStep (bootSim elevenPrograms)).map
      (fun s => s.os.clock.time) = some 10 := by
    decide +kernel
  obtain ⟨s, hs, htime⟩ := Option.map_eq_some_iff.mp hstate
  have hrun : (simSystem elevenPrograms).Run tenSlots s := Run.of_foldlM (fun _ _ _ h => h) rfl hs
  obtain ⟨us, hus⟩ := hrun.recording Sim.osSteps
  exact ⟨s, us, sim_refines_os noKillall_elevenPrograms hus, htime⟩

end OsSim
