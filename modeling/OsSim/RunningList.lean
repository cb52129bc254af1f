import OsSim.Ownership

/-!
# The Running List

`add_proc` and `put_proc` append the process to `running_list`, which no function but
`__sys_killall` takes anything from. The list therefore names each live process once only as long
as no slice ends with room on the list and no process ends.

## The condition

A process comes to the list when it is added, and once more each time that a slice of it ends and
the list has room. It never leaves when it ends: `cpu_routine` frees its PCB and the entry stays. So
three things have to hold of a run, each of which the list cannot do without:

* `add_proc` finds room on the list, or the process is missing from it;
* `put_proc` finds the list full, or the process is on it twice;
* no CPU finds a process at its end, or the list has one that is freed.

`Sim.ListStep` is their conjunction, and `listSystem` the interleavings all of whose steps meet it.
On those the list has each process that `add_proc` was called for once (`ListOk`). Between calls
these are the live processes; within `add_proc` and `put_proc` the list is ahead of the ready queue,
which is why the theorem is about the states where none of them is half done (`Sim.BetweenOps`).

## Main results

* `ListOk.step`: what a step does to the list, where the condition is met.
* `runningList_live`: **`running_list` is the set of live processes** on such runs.
* `runningList_fails`: a process that has ended, and is freed, stays on the list.
-/

namespace OsSim

open TransitionSystem

variable {cfg : SimConfig}

/-- `p` has been added, and no CPU has found it at its end. -/
def Sim.Live (s : Sim cfg) (p : cfg.Proc) : Prop := (p : ℕ) < s.os.i ∧ s.freed p = false

/-- No call of `add_proc` or `put_proc` is half done, with a process on the list and not yet in its
level. -/
def Sim.BetweenOps (s : Sim cfg) : Prop :=
  s.os.ld ≠ .addReady ∧ ∀ id, (s.os.cpu id).label ≠ .putReady

/-- The step finds no process at its end; `add_proc` finds room on `running_list`, and `put_proc`
finds none. -/
def Sim.ListStep (s : Sim cfg) : Thread cfg.numCpus → Prop
  | .cpu id =>
      (∀ proc : cfg.Proc, (s.os.cpu id).label = .top → (s.os.cpu id).proc = some proc →
        s.os.pc proc ≠ cfg.codeSize proc) ∧
      ((s.os.cpu id).label = .putRunning → maxQueueSize ≤ s.os.runningList.length)
  | .ld => s.os.ld = .addRunning → s.os.runningList.length < maxQueueSize
  | .timer | .main => True

instance (s : Sim cfg) (p : cfg.Proc) : Decidable (s.Live p) :=
  inferInstanceAs (Decidable (_ ∧ _))

instance (s : Sim cfg) : Decidable s.BetweenOps := inferInstanceAs (Decidable (_ ∧ ∀ _, _))

instance (s : Sim cfg) (t : Thread cfg.numCpus) : Decidable (s.ListStep t) :=
  match t with
  | .cpu id =>
      inferInstanceAs (Decidable ((∀ proc : cfg.Proc, (s.os.cpu id).label = .top →
        (s.os.cpu id).proc = some proc → s.os.pc proc ≠ cfg.codeSize proc) ∧
        ((s.os.cpu id).label = .putRunning → maxQueueSize ≤ s.os.runningList.length)))
  | .ld =>
      inferInstanceAs (Decidable (s.os.ld = .addRunning →
        s.os.runningList.length < maxQueueSize))
  | .timer | .main => inferInstanceAs (Decidable True)

/-- All threads, where every step meets the three conditions. -/
def listSystem (cfg : SimConfig) : TransitionSystem (Sim cfg) (Thread cfg.numCpus × CStr) :=
  (simSystem cfg).restrict fun s t => s.ListStep t.1

/-- Each process that `add_proc` was called for is on the list once, and none is freed. -/
structure ListOk (s : Sim cfg) : Prop where
  exec : ExecOk s
  count : ∀ p, s.os.runningList.count p = if s.Added p then 1 else 0
  freed : ∀ p, s.freed p = false

namespace ListOk

variable {s s' : Sim cfg}

/-- A step that leaves the list and what is added alone. -/
theorem congr (h : ListOk s) (hexec : ExecOk s') (hlist : s'.os.runningList = s.os.runningList)
    (hadded : ∀ p, s'.Added p ↔ s.Added p) (hfreed : s'.freed = s.freed) : ListOk s' where
  exec := hexec
  count p := by rw [hlist, h.count, if_congr (hadded p) rfl rfl]
  freed p := by rw [hfreed, h.freed]

/-- A step of a CPU leaves the list alone: where it puts a process back, the list is full. -/
theorem simCpuStep (h : ListOk s) (hno : cfg.NoKillall) {id : Fin cfg.numCpus} {name : CStr}
    (hstep : s.ListStep (.cpu id)) (hexec : ExecOk s') (hst : SimCpuStep s id name s') :
    ListOk s' := by
  have hadded (p : cfg.Proc) : s'.Added p ↔ s.Added p := by
    rw [Sim.Added, hst.frame.1, hst.frame.2.1, Sim.Added]
  cases hst with
  | fetch proc t ins hx hnone hins => exact h.congr hexec rfl hadded rfl
  | ended proc t hx hnone hpc => exact h.congr hexec rfl hadded rfl
  | exec proc t ins hx hins =>
      obtain ⟨proc', -, -, htext⟩ := h.exec.fetch id ins hins
      have hkill := hno proc' ins (List.mem_of_getElem? htext)
      refine h.congr hexec ?_ hadded (Sim.freed_exec ..)
      rw [Sim.runningList_exec, hkill, if_neg (by simp)]
  | finish proc t hx hpc => exact absurd hpc (hstep.1 proc (by rw [hx]) (by rw [hx]))
  | other os hos hrun hend =>
      refine h.congr hexec ?_ hadded rfl
      cases hos with
      | putRunning proc t hx => exact if_pos (hstep.2 (by rw [hx]))
      | _ => rfl

/-- A step of the loader puts the process it adds on the list. -/
theorem ldStep (h : ListOk s) {os : Os cfg.toOsConfig} (hstep : s.ListStep .ld)
    (hexec : ExecOk { s with os := os }) (hst : LdStep s.os os) : ListOk { s with os := os } := by
  cases hst with
  | goto l l' hl hgo =>
      refine h.congr hexec rfl ?_ rfl
      intro p
      have hl' : l ≠ .addReady ∧ l' ≠ .addReady := by cases hgo <;> simp
      simp [Sim.Added, hl, hl'.1, hl'.2]
  | addRunning hi hl =>
      refine ⟨hexec, ?_, h.freed⟩
      intro p
      have hcount := h.count p
      simp only [Sim.Added, hl, reduceCtorEq, false_and, or_false, true_and] at hcount ⊢
      rw [enqueue_of_lt (hstep hl), List.count_append, hcount, List.count_singleton]
      simp only [beq_iff_eq, Fin.ext_iff]
      split_ifs <;> omega
  | addReady hi hl =>
      refine h.congr hexec rfl ?_ rfl
      intro p
      simp only [Sim.Added, hl, reduceCtorEq, false_and, or_false, true_and]
      omega
  | waitSet hl => exact h.congr hexec rfl (fun p => by simp [Sim.Added, hl]) rfl
  | nextSet hl => exact h.congr hexec rfl (fun p => by simp [Sim.Added, hl]) rfl
  | setDone hl => exact h.congr hexec rfl (fun p => by simp [Sim.Added, hl]) rfl
  | detach hl => exact h.congr hexec rfl (fun p => by simp [Sim.Added, hl]) rfl

/-- **A step that meets the condition** keeps the list as it should be. -/
theorem step (h : ListOk s) (hno : cfg.NoKillall) {t : Thread cfg.numCpus} {name : CStr}
    (hstep : s.ListStep t) (hst : simStep s (t, name) = some s') : ListOk s' := by
  have hexec := h.exec.step hst
  rcases simStep_cases hst with
    ⟨id, rfl, hcpu⟩ | ⟨rfl, os, hld, rfl⟩ | ⟨rfl, clock, -, rfl⟩ | ⟨rfl, rfl⟩
  · exact h.simCpuStep hno hstep hexec hcpu
  · exact h.ldStep hstep hexec hld
  · exact h.congr hexec rfl (fun p => Iff.rfl) rfl
  · exact h.congr hexec rfl (fun p => Iff.rfl) rfl

end ListOk

/-- **`running_list` is the set of live processes** in every state between calls, on the runs in
which no process ends, `add_proc` finds room on the list, and `put_proc` finds it full: each live
process is on the list once, and no other process is. -/
theorem runningList_live (hno : cfg.NoKillall) {ts : List (Thread cfg.numCpus × CStr)} {s : Sim cfg}
    (hrun : (listSystem cfg).Run ts s) (hbetween : s.BetweenOps) (p : cfg.Proc) :
    s.os.runningList.count p = if s.Live p then 1 else 0 := by
  have hinv : ListOk s := by
    refine hrun.invariant (fun s (hs : s = bootSim cfg) => ?_)
      fun s t s' hs hst => hs.step hno hst.1 hst.2
    subst hs
    exact ⟨ExecOk.of_run (Run.init rfl), fun p => by simp [Sim.Added, bootSim, bootOs],
      fun p => rfl⟩
  rw [hinv.count, if_congr (?_ : s.Added p ↔ s.Live p) rfl rfl]
  simp [Sim.Added, Sim.Live, hbetween.1, hinv.freed]

/-- One CPU, and ten programs of one priority, which are not at their ends when a slice is. -/
def tenPrograms : SimConfig where
  numCpus := 1
  timeSlot := 10
  numProcesses := 10
  startTime _ := 0
  prio _ := 0
  codeSize _ := 12
  path _ := [112#8]
  text _ := List.replicate 12 { opcode := .calc }
  text_length _ := rfl

/-- The programs only calculate. -/
theorem noKillall_tenPrograms : tenPrograms.NoKillall := by
  intro p ins hins
  rw [List.eq_of_mem_replicate hins]
  rfl

/-- The loader adds a process in each of ten time slots, which fills the list, and in the next one
the first slice ends: `put_proc` finds no room there. -/
def tenProgramsRun : List (Thread tenPrograms.numCpus × CStr) :=
  let cpu : Thread tenPrograms.numCpus := .cpu ⟨0, Nat.one_pos⟩
  slotOf cpu 5 6 1 ++ (List.replicate 9 (slotOf cpu 5 5 1)).flatten ++ slotOf cpu 3 8 0

/-- After these steps a process is back in its level, and the list has each of the ten once. -/
theorem runningList_live_tenPrograms : ∃ s : Sim tenPrograms,
    (listSystem tenPrograms).Run tenProgramsRun s ∧
      (∃ prio, ⟨0, by decide⟩ ∈ s.os.mlqReadyQueue prio) ∧
      ∀ p, s.os.runningList.count p = 1 := by
  have hstate : (tenProgramsRun.foldlM
      (fun (s : Sim tenPrograms) t => if s.ListStep t.1 then simStep s t else none)
      (bootSim tenPrograms)).map
        (fun s => decide (s.BetweenOps ∧ ⟨0, by decide⟩ ∈ s.os.mlqReadyQueue 0 ∧
          ∀ p, s.Live p)) = some true := by
    decide +kernel
  obtain ⟨s, hs, hdecide⟩ := Option.map_eq_some_iff.mp hstate
  obtain ⟨hbetween, hback, hlive⟩ := of_decide_eq_true hdecide
  have hrun : (listSystem tenPrograms).Run tenProgramsRun s :=
    Run.of_foldlM_restrict (fun _ _ _ h => h) rfl hs
  refine ⟨s, hrun, ⟨0, hback⟩, fun p => ?_⟩
  rw [runningList_live noKillall_tenPrograms hrun hbetween p, if_pos (hlive p)]

/-! ### A process that has ended -/

/-- One CPU and one program, of one instruction. -/
def oneInstruction : SimConfig where
  numCpus := 1
  timeSlot := 2
  numProcesses := 1
  startTime _ := 0
  prio _ := 0
  codeSize _ := 1
  path _ := [112#8]
  text _ := [{ opcode := .calc }]
  text_length _ := rfl

/-- The program only calculates. -/
theorem noKillall_oneInstruction : oneInstruction.NoKillall := by
  intro p ins hins
  rw [List.mem_singleton.mp hins]
  rfl

/-- The program is added and runs, and the CPU finds it at its end. -/
def oneInstructionRun : List (Thread oneInstruction.numCpus × CStr) :=
  slotOf (.cpu ⟨0, Nat.one_pos⟩) 5 6 1 ++ [(.cpu ⟨0, Nat.one_pos⟩, [])]

/-- A process that has ended, and is freed, stays on the list. -/
theorem runningList_fails : ∃ s : Sim oneInstruction,
    (simSystem oneInstruction).Run oneInstructionRun s ∧ oneInstruction.NoKillall ∧
      s.BetweenOps ∧ ∃ p, s.freed p = true ∧ s.os.runningList.count p = 1 ∧
        ¬ s.os.runningList.count p = if s.Live p then 1 else 0 := by
  have hstate : (oneInstructionRun.foldlM simStep (bootSim oneInstruction)).map
      (fun s => decide (s.BetweenOps ∧ s.freed ⟨0, Nat.one_pos⟩ = true ∧
        s.os.runningList.count ⟨0, Nat.one_pos⟩ = 1)) = some true := by
    decide +kernel
  obtain ⟨s, hs, hdecide⟩ := Option.map_eq_some_iff.mp hstate
  obtain ⟨hbetween, hfreed, hcount⟩ := of_decide_eq_true hdecide
  refine ⟨s, Run.of_foldlM (fun _ _ _ h => h) rfl hs, noKillall_oneInstruction, hbetween,
    ⟨0, Nat.one_pos⟩, hfreed, hcount, ?_⟩
  rw [hcount, if_neg (by simp [Sim.Live, hfreed])]
  exact Nat.one_ne_zero

end OsSim
