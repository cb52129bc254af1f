import OsSim.Ownership

/-!
# Idle CPUs

A CPU that starts an iteration of `cpu_routine`'s loop without a process, and finds none, goes
straight to `next_slot`: the test of `done` is on the other paths only. Once nothing is left to
run, such a CPU goes on from one time slot to the next.

## How the argument goes

The loop of `cpu_routine` has three places where it calls `get_proc`. Two of them are followed by
the test of `done`; the one at the start of an iteration, for a CPU without a process, is followed
by `next_slot` and `continue`. `Idle` is the invariant of a CPU on that path: it has no process, it
is at the top, at the call, or in `next_slot`, and nothing is left to run. The last part is kept by
every step of every thread, since the loader has left when `done` is set (`DoneOk`), and only it
brings processes that are not with somebody already.

So such a CPU calls `next_slot` in every iteration, and never comes to the code that leaves the
loop. With two CPUs and one program of one instruction, one CPU is in this position when the other
has finished.

## Main results

* `Idle.step`: with nothing left to run, every step leaves it so, and the CPU in its loop.
* `idle_cpu_stays`: **an idle CPU never leaves**.
* `leavesNow_fails`: two CPUs and one program.
-/

namespace OsSim

open TransitionSystem

variable {cfg : SimConfig}

/-- `done` is set, the ready queues are empty, and no CPU has a process in hand. -/
structure Sim.NothingLeft (s : Sim cfg) : Prop where
  done : s.os.done = true
  queue : ∀ prio, s.os.mlqReadyQueue prio = []
  held : ∀ id, s.held id = none

instance (s : Sim cfg) : Decidable s.NothingLeft :=
  decidable_of_iff (s.os.done = true ∧ (∀ prio, s.os.mlqReadyQueue prio = []) ∧
      ∀ id, s.held id = none)
    ⟨fun h => ⟨h.1, h.2.1, h.2.2⟩, fun h => ⟨h.done, h.queue, h.held⟩⟩

/-- From `s` on, CPU `id` comes to no further call of `next_slot`. -/
def Sim.LeavesNow (s : Sim cfg) (id : Fin cfg.numCpus) : Prop :=
  ∀ ts s', ((simSystem cfg).startingAt s).Run ts s' → (s'.os.cpu id).label ≠ .slotSet

/-! ### The loader -/

/-- `done` is set when the loader leaves, and not before. -/
def DoneOk (s : Sim cfg) : Prop := s.os.done = true → s.os.ld = .detach ∨ s.os.ld = .exited

/-- No step sets `done` but the loader's, which leaves then. -/
theorem DoneOk.step {s s' : Sim cfg} (h : DoneOk s) {t : Thread cfg.numCpus} {name : CStr}
    (hst : simStep s (t, name) = some s') : DoneOk s' := by
  rcases simStep_cases hst with
    ⟨id, rfl, hcpu⟩ | ⟨rfl, os, hld, rfl⟩ | ⟨rfl, clock, -, rfl⟩ | ⟨rfl, rfl⟩
  · obtain ⟨hld, -, hdone, -⟩ := hcpu.frame
    rwa [DoneOk, hld, hdone]
  · intro hdone
    cases hld with
    | goto l l' hl hgo =>
        have hold := h hdone
        rw [hl] at hold
        cases hgo <;> simp at hold
    | setDone hl => exact Or.inl rfl
    | detach hl => exact Or.inr rfl
    | addRunning hi hl => simpa [hl] using h hdone
    | addReady hi hl => simpa [hl] using h hdone
    | waitSet hl => simpa [hl] using h hdone
    | nextSet hl => simpa [hl] using h hdone
  · exact h
  · exact h

/-! ### The loop of an idle CPU -/

/-- CPU `id` is in its loop without a process, on the path from the first call of `get_proc` to
`next_slot`, and nothing is left to run. -/
structure Idle (id : Fin cfg.numCpus) (s : Sim cfg) : Prop where
  exec : ExecOk s
  ld : DoneOk s
  left : s.NothingLeft
  proc : (s.os.cpu id).proc = none
  label : (s.os.cpu id).label ∈ [.top, .getFirst, .slotSet, .slotWait]

namespace Idle

variable {s s' : Sim cfg} {id : Fin cfg.numCpus}

/-- With nothing left to run, a step moves no process. -/
theorem nothingLeft (hld : DoneOk s) (h : s.NothingLeft) {t : Thread cfg.numCpus}
    (hmoves : Moves s t s') (hdone : s'.os.done = true) : s'.NothingLeft := by
  have hheld {id : Fin cfg.numCpus} {label : CpuLabel} {proc : cfg.Proc} {τ : ℤ}
      (hx : s.os.cpu id = ⟨label, some proc, τ⟩)
      (hlabel : label ≠ .getFinished ∧ label ≠ .getPut) : False := by
    have hnone := h.held id
    rw [held_of_cpu hx hlabel] at hnone
    cases hnone
  cases hmoves with
  | stay hi hqueue hsame hfreed =>
      exact ⟨hdone, fun prio => hqueue ▸ h.queue prio, fun id => hsame ▸ h.held id⟩
  | kill name id ins ht hins hkill hi hqueue hsame hfreed =>
      refine ⟨hdone, ?_, fun id => hsame ▸ h.held id⟩
      intro prio
      simp only [hqueue, h.queue, List.filter_nil]
  | take id prio proc rest hhead hnone hi hqueue hsame hfreed =>
      rw [h.queue] at hhead
      cases hhead
  | put id proc τ ht hx hi hqueue hsame hfreed => exact (hheld hx (by simp)).elim
  | load hlt ht hl hi hqueue hsame hfreed =>
      have hleft := hld h.done
      rw [hl] at hleft
      simp at hleft
  | finish id proc τ ht hx hpc hi hqueue hsame hfreed => exact (hheld hx (by simp)).elim

/-- A step of the CPU itself: it finds nothing, and goes on to `next_slot`. -/
theorem cpuStep (h : Idle id s) {os : Os cfg.toOsConfig} (hst : CpuStep s.os id os) :
    (os.cpu id).proc = none ∧ (os.cpu id).label ∈ [.top, .getFirst, .slotSet, .slotWait] := by
  have hproc := h.proc
  have hlabel := h.label
  cases hst with
  | goto x x' hx hgo =>
      rw [hx] at hproc hlabel
      rw [Os.cpu_setCpu_self]
      cases hgo with
      | load t => simp
      | wake proc t hflag => exact ⟨hproc, by simp⟩
      | leave t hdone => simp at hlabel
      | skip t hdone => simp at hlabel
      | finish proc t hpc => cases hproc
      | expire proc hpc => cases hproc
      | resume proc t hpc ht => cases hproc
      | dispatch proc t => cases hproc
  | get x hx hl =>
      rw [hx] at hproc hlabel
      have hfirst : x.label = .getFirst := by
        rcases hl with hl | hl | hl
        · exact hl
        · simp [hl] at hlabel
        · simp [hl] at hlabel
      rw [Os.cpu_setCpu_self, getMlqProc_of_nil h.left.queue, Cpu.got, hfirst]
      simp
  | slotSet proc t hx =>
      rw [hx] at hproc
      rw [Os.cpu_setCpu_self]
      exact ⟨hproc, by simp⟩
  | putRunning proc t hx => simp [hx] at hproc
  | putReady proc t hx => simp [hx] at hproc
  | run proc t hx => simp [hx] at hproc
  | detach proc t hx => simp [hx] at hlabel

/-- **With nothing left to run, every step leaves it so**, and the CPU in its loop. -/
theorem step (h : Idle id s) {t : Thread cfg.numCpus} {name : CStr}
    (hst : simStep s (t, name) = some s') : Idle id s' := by
  have hexec := h.exec.step hst
  have hmoves := moves_of_simStep h.exec.first hst
  have hld := h.ld.step hst
  rcases simStep_cases hst with
    ⟨id', rfl, hcpu⟩ | ⟨rfl, os, hos, rfl⟩ | ⟨rfl, clock, -, rfl⟩ | ⟨rfl, rfl⟩
  · obtain ⟨-, -, hdone, hother⟩ := hcpu.frame
    have hleft := nothingLeft h.ld h.left hmoves (hdone.trans h.left.done)
    by_cases hid : id = id'
    · subst hid
      have hproc := h.proc
      cases hcpu with
      | other os hos hrun hend =>
          obtain ⟨hproc', hlabel'⟩ := h.cpuStep hos
          exact ⟨hexec, hld, hleft, hproc', hlabel'⟩
      | fetch proc t ins hx hnone hins => simp [hx] at hproc
      | ended proc t hx hnone hpc => simp [hx] at hproc
      | exec proc t ins hx hins => simp [hx] at hproc
      | finish proc t hx hpc => simp [hx] at hproc
    · refine ⟨hexec, hld, hleft, ?_, ?_⟩
      · rw [hother id hid]
        exact h.proc
      · rw [hother id hid]
        exact h.label
  · have hcpu := hos.frame.1
    have hdone : os.done = true := by
      cases hos with
      | setDone hl => rfl
      | _ => exact h.left.done
    refine ⟨hexec, hld, nothingLeft h.ld h.left hmoves hdone, ?_, ?_⟩
    · simp only [hcpu]
      exact h.proc
    · simp only [hcpu]
      exact h.label
  · exact ⟨hexec, hld, nothingLeft h.ld h.left hmoves h.left.done, h.proc, h.label⟩
  · exact ⟨hexec, hld, nothingLeft h.ld h.left hmoves h.left.done, h.proc, h.label⟩

end Idle

/-- **An idle CPU never leaves.** In every state of every interleaving in which `done` is set, the
ready queues are empty and no process is held, a CPU that starts an iteration calls `next_slot`
in it, two steps later, and in whatever follows it stays in its loop, on the same path. -/
theorem idle_cpu_stays {ts : List (Thread cfg.numCpus × CStr)} {s : Sim cfg}
    (hrun : (simSystem cfg).Run ts s) (hleft : s.NothingLeft) {id : Fin cfg.numCpus}
    (htop : (s.os.cpu id).label = .top) :
    ¬ s.LeavesNow id ∧
      (∃ s', ((simSystem cfg).startingAt s).Run [(.cpu id, []), (.cpu id, [])] s' ∧
        (s'.os.cpu id).label = .slotSet) ∧
      ∀ ts s', ((simSystem cfg).startingAt s).Run ts s' →
        (s'.os.cpu id).label ∈ [.top, .getFirst, .slotSet, .slotWait] := by
  have hdone : DoneOk s := by
    refine hrun.invariant (fun s (hs : s = bootSim cfg) => ?_) fun s t s' hs hst => hs.step hst
    subst hs
    intro hdone
    simp [bootSim, bootOs] at hdone
  have hheld := hleft.held id
  have hproc : (s.os.cpu id).proc = none := by
    rw [Sim.held, Cpu.holds, htop] at hheld
    exact hheld
  have hidle : Idle id s := ⟨ExecOk.of_run hrun, hdone, hleft, hproc, by simp [htop]⟩
  -- the two steps of the iteration
  have hcall : ∃ s', ((simSystem cfg).startingAt s).Run [(.cpu id, []), (.cpu id, [])] s' ∧
      (s'.os.cpu id).label = .slotSet := by
    obtain ⟨τ, hx⟩ : ∃ τ, s.os.cpu id = ⟨.top, none, τ⟩ :=
      ⟨(s.os.cpu id).timeLeft, by rw [← htop, ← hproc]⟩
    let s₁ : Sim cfg := { s with os := s.os.setCpu id ⟨.getFirst, none, τ⟩ }
    have hload : simStep s (.cpu id, []) = some s₁ := by
      simp [simStep, simCpuStep, cpuStep, hx, s₁]
    have hx₁ : s₁.os.cpu id = ⟨.getFirst, none, τ⟩ := Os.cpu_setCpu_self _ _ _
    have hget : getMlqProc s₁.os.mlqReadyQueue = (none, s₁.os.mlqReadyQueue) :=
      getMlqProc_of_nil hleft.queue
    have hnext : simStep s₁ (.cpu id, []) =
        some { s₁ with os := s₁.os.setCpu id ⟨.slotSet, none, τ⟩ } := by
      simp [simStep, simCpuStep, cpuStep, hx₁, hget, Cpu.got]
    have hrun' : ((simSystem cfg).startingAt s).Run ([] ++ [(.cpu id, [])] ++ [(.cpu id, [])])
        { s₁ with os := s₁.os.setCpu id ⟨.slotSet, none, τ⟩ } :=
      Run.step (Run.step (Run.init rfl) hload) hnext
    exact ⟨_, hrun', by simp⟩
  refine ⟨?_, hcall, ?_⟩
  · intro hleaves
    obtain ⟨s', hrun', hslot⟩ := hcall
    exact hleaves _ _ hrun' hslot
  · intro ts' s' hrun'
    have hidle' : Idle id s' := by
      refine hrun'.invariant (fun t (ht : t = s) => ?_) fun s t s' hs hst => hs.step hst
      subst ht
      exact hidle
    exact hidle'.label

/-! ### A CPU that idles -/

/-- One of two CPUs runs the only program, in two time slots, and leaves; the other has found
nothing in both. -/
def twoCpusIdle : List (Thread twoCpus.numCpus × CStr) :=
  let busy : Thread twoCpus.numCpus := .cpu busyCpu
  let idle : Thread twoCpus.numCpus := .cpu idleCpu
  let first := List.replicate 5 Thread.ld ++ List.replicate 6 busy ++ List.replicate 3 idle ++
    List.replicate 10 .timer ++ List.replicate 4 .ld ++ [busy, idle]
  let second := List.replicate 5 busy ++ List.replicate 3 idle ++ List.replicate 10 .timer ++
    [busy, idle]
  (first ++ second ++ List.replicate 3 busy).map fun t => (t, [])

/-- The state the run ends in: nothing is left, and the CPU is at the start of an iteration. -/
theorem twoCpusIdle_state : ∃ s : Sim twoCpus, (simSystem twoCpus).Run twoCpusIdle s ∧
    s.NothingLeft ∧ (s.os.cpu idleCpu).label = .top ∧
      ∃ s', simStep s (.cpu idleCpu, []) = some s' ∧
        ∃ s'', simStep s' (.cpu idleCpu, []) = some s'' ∧
          (s''.os.cpu idleCpu).label = .slotSet := by
  have hstate : (twoCpusIdle.foldlM simStep (bootSim twoCpus)).map
      (fun s => decide (s.NothingLeft ∧ (s.os.cpu idleCpu).label = .top ∧
        ∃ s' ∈ simStep s (.cpu idleCpu, []), ∃ s'' ∈ simStep s' (.cpu idleCpu, []),
          (s''.os.cpu idleCpu).label = .slotSet)) = some true := by
    decide +kernel
  obtain ⟨s, hs, hdecide⟩ := Option.map_eq_some_iff.mp hstate
  obtain ⟨hleft, htop, s', hs', s'', hs'', hlabel⟩ := of_decide_eq_true hdecide
  exact ⟨s, Run.of_foldlM (fun _ _ _ h => h) rfl hs, hleft, htop, s', hs', s'', hs'', hlabel⟩

/-- The idle CPU calls `next_slot` again, although nothing is left to run. -/
theorem leavesNow_fails : ∃ s : Sim twoCpus, (simSystem twoCpus).Run twoCpusIdle s ∧
    s.NothingLeft ∧ (s.os.cpu idleCpu).label = .top ∧ ¬ s.LeavesNow idleCpu := by
  obtain ⟨s, hrun, hleft, htop, s', hs', s'', hs'', hlabel⟩ := twoCpusIdle_state
  refine ⟨s, hrun, hleft, htop, ?_⟩
  intro hleaves
  have hrun' : ((simSystem twoCpus).startingAt s).Run
      ([] ++ [(.cpu idleCpu, [])] ++ [(.cpu idleCpu, [])]) s'' :=
    Run.step (Run.step (Run.init rfl) hs') hs''
  exact hleaves _ _ hrun' hlabel

/-- The idle CPU does not leave, whatever follows. -/
theorem idle_cpu_stays_twoCpus : ∃ s : Sim twoCpus, (simSystem twoCpus).Run twoCpusIdle s ∧
    ¬ s.LeavesNow idleCpu ∧ ∀ ts s', ((simSystem twoCpus).startingAt s).Run ts s' →
      (s'.os.cpu idleCpu).label ∈ [.top, .getFirst, .slotSet, .slotWait] := by
  obtain ⟨s, hrun, hleft, htop, -⟩ := twoCpusIdle_state
  obtain ⟨hleaves, -, hstays⟩ := idle_cpu_stays hrun hleft htop
  exact ⟨s, hrun, hleaves, hstays⟩

end OsSim
