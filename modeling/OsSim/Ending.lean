import OsSim.IdleCpus
import OsSim.Makespan

/-!
# The Simulation Ends

A CPU tests `done` only after it has had a process: one that finds nothing in its first call of
`get_proc` waits for the next time slot. A CPU that has a process once the loader is through
executes an instruction in every time slot, or leaves, and so it does leave, `killall` or not. If
that is so of every CPU, the timer finds all its devices gone and ends too.

## The conditions

Every program has an instruction: a CPU finds an empty one at its end without executing anything,
and so could spend slots on them. `killall` instructions are single steps here, as in all of
`simSystem`, so that their name loops end; a CPU whose loop does not end never leaves. What
instructions do to memory is left out.

## How the argument goes

A CPU is at work when it has a process, has just lost one, or is on its way out (`Os.AtWork`). Once
`done` is set, it stays so, since the call of `get_proc` that finds nothing is then followed by the
test of `done`. `Steady` counts as `OnTime` does, for this one CPU: it executes an instruction in
every slot until it is out of its loop. The instructions that are left bound the slots, and
`comes_about` turns slots into steps.

When all devices are gone the timer needs one more round to find them finished, and leaves
(`Closing`). If some CPU is not at work once nothing is left to run, it idles for ever (`IdleCpus`).

## Main results

* `Steady.step`, `Steady.of_run`: **a CPU at work wastes no time slot**.
* `busy_cpu_leaves`: **a CPU at work leaves**, once `done` is set.
* `Closing.timerStep`: the timer ends once all devices are gone.
* `simulation_ends`: **the simulation ends** if every CPU is at work then.
* `ends_or_never_ends`: once nothing is left to run, it does so in every order, or in none.
-/

namespace OsSim

open TransitionSystem

/-! ### A CPU at work -/

section Os

variable {cfg : OsConfig} {s s' : Os cfg} {id : Fin cfg.numCpus}

/-- CPU `id` has a process, has just lost one, or is on its way out. -/
def Os.AtWork (s : Os cfg) (id : Fin cfg.numCpus) : Prop :=
  (s.cpu id).proc ≠ none ∨ (s.cpu id).label ∈ [.recheck, .detach, .exited]

instance (s : Os cfg) (id : Fin cfg.numCpus) : Decidable (s.AtWork id) :=
  inferInstanceAs (Decidable (_ ∨ _))

/-- CPU `id` is out of its loop, and will do no more than tell the timer. -/
def Os.Out (s : Os cfg) (id : Fin cfg.numCpus) : Prop :=
  (s.cpu id).label = .detach ∨ (s.cpu id).label = .exited

/-- CPU `id` is still to execute an instruction in this time slot, or to leave. -/
structure Os.Pending (s : Os cfg) (id : Fin cfg.numCpus) : Prop where
  early : (s.cpu id).label ∉ [.slotSet, .detach, .exited]
  due : (s.cpu id).label = .slotWait → s.clock.due (.cpu id) = true

/-- The instructions that the programs have left, all together. -/
def Os.remaining (s : Os cfg) : ℕ := ∑ p, (cfg.codeSize p - s.pc p)

/-- A CPU that is out of its loop does not come back. -/
theorem Os.Out.cpuStep (h : s.Out id) (hst : CpuStep s id s') : s'.Out id := by
  rw [Out] at h
  cases hst with
  | goto x x' hx hgo =>
      rw [hx] at h
      cases hgo <;> simp at h
  | get x hx hlabel =>
      rw [hx] at h
      rcases hlabel with hl | hl | hl <;> simp [hl] at h
  | detach proc t hx => exact Or.inr (by simp)
  | _ => simp_all

/-- Whether a CPU is at work is a matter of its locals. -/
theorem Os.AtWork.congr (h : s.AtWork id) (hcpu : s'.cpu id = s.cpu id) : s'.AtWork id := by
  rw [AtWork, hcpu]
  exact h

/-- The first call of `get_proc` is made by a CPU that is not at work. -/
theorem Os.AtWork.ne_getFirst (h : s.AtWork id) (hok : CpuOk s id) :
    (s.cpu id).label ≠ .getFirst := by
  intro hl
  simp [AtWork, hl, hok.first hl] at h

/-- Once `done` is set, a CPU at work stays so, since it tests `done` before it waits. -/
theorem Os.AtWork.cpuStep (h : s.AtWork id) (hok : CpuOk s id) (hdone : s.done = true)
    (hst : CpuStep s id s') : s'.AtWork id := by
  have hfirst := h.ne_getFirst hok
  cases hst with
  | goto x x' hx hgo =>
      rw [AtWork, hx] at h
      rw [AtWork, Os.cpu_setCpu_self]
      cases hgo with
      | load t => simp at h
      | skip t hnot => simp [hdone] at hnot
      | wake proc t hflag => simpa using h
      | _ => simp
  | get x hx hlabel =>
      rw [AtWork, Os.cpu_setCpu_self, Cpu.got]
      rw [hx] at hfirst
      rcases hlabel.resolve_left hfirst with hl | hl <;> simp [hl]
  | slotSet proc t hx =>
      rw [AtWork, hx] at h
      simpa [AtWork] using h
  | _ => simp [AtWork]

/-- A step that leaves the CPU as it is, and whether its wait ends in this slot. -/
theorem Os.Pending.congr (h : s.Pending id) (hcpu : s'.cpu id = s.cpu id)
    (hdue : (s.cpu id).label = .slotWait → s'.clock.due (.cpu id) = s.clock.due (.cpu id)) :
    s'.Pending id where
  early := hcpu ▸ h.early
  due hl := by
    rw [hcpu] at hl
    rw [hdue hl]
    exact h.due hl

/-- A step other than `run` brings the CPU closer to it, or takes it out of its loop. -/
theorem Os.Pending.cpuStep (h : s.Pending id) (hwork : s.AtWork id) (hok : CpuOk s id)
    (hdone : s.done = true) (hrun : (s.cpu id).label ≠ .run) (hst : CpuStep s id s') :
    s'.Pending id ∨ s'.Out id := by
  have hearly := h.early
  have hfirst := hwork.ne_getFirst hok
  cases hst with
  | goto x x' hx hgo =>
      rw [AtWork, hx] at hwork
      cases hgo with
      | load t => simp at hwork
      | skip t hnot => simp [hdone] at hnot
      | leave t hdone => exact Or.inr (Or.inl (by simp))
      | _ => exact Or.inl ⟨by simp, by simp⟩
  | get x hx hlabel =>
      rw [hx] at hfirst
      rcases hlabel.resolve_left hfirst with hl | hl <;>
        exact Or.inl ⟨by simp [Cpu.got, hl], by simp [Cpu.got, hl]⟩
  | putRunning proc t hx => exact Or.inl ⟨by simp, by simp⟩
  | putReady proc t hx => exact Or.inl ⟨by simp, by simp⟩
  | run proc t hx => exact absurd (by rw [hx]) hrun
  | slotSet proc t hx => simp [hx] at hearly
  | detach proc t hx => simp [hx] at hearly

/-! ### Its time slots -/

/-- **CPU `id` wastes no time slot** since `time` was `b` and `e` instructions had been executed by
all CPUs: it is at work, and as long as it is in its loop as many have been executed as slots have
passed, or one less is, and it is still to execute one or leave. -/
structure Steady (b e : ℕ) (id : Fin cfg.numCpus) (s : Os cfg) : Prop where
  work : s.AtWork id
  time : ¬ s.Out id → s.clock.time + e ≤ b + s.executed ∧
    (s.clock.time + e = b + s.executed → s.Pending id)

variable {b e : ℕ}

/-- A step that leaves the CPU and the time as they are. -/
theorem Steady.congr (h : Steady b e id s) (hcpu : s'.cpu id = s.cpu id)
    (htime : s'.clock.time = s.clock.time) (hexec : s.executed ≤ s'.executed)
    (hdue : (s.cpu id).label = .slotWait → s'.clock.due (.cpu id) = s.clock.due (.cpu id)) :
    Steady b e id s' where
  work := h.work.congr hcpu
  time hin := by
    rw [Os.Out, hcpu] at hin
    obtain ⟨hle, hpending⟩ := h.time hin
    rw [htime]
    exact ⟨by omega, fun heq => (hpending (by omega)).congr hcpu hdue⟩

/-- A step of the CPU other than `run` brings it closer to its instruction. -/
theorem Steady.cpuStep (h : Steady b e id s) (hok : CpuOk s id) (hdone : s.done = true)
    (hrun : (s.cpu id).label ≠ .run) (hst : CpuStep s id s') (hpc : s'.pc = s.pc) :
    Steady b e id s' where
  work := h.work.cpuStep hok hdone hst
  time hin := by
    obtain ⟨hle, hpending⟩ := h.time fun hout => hin (hout.cpuStep hst)
    rw [hst.time_eq, Os.executed, hpc]
    refine ⟨hle, fun heq => ?_⟩
    exact ((hpending heq).cpuStep h.work hok hdone hrun hst).resolve_right hin

/-- A step of the timer: when it moves on, the CPU has executed its instruction, and a new slot
begins for it. -/
theorem Steady.timerStep (h : Steady b e id s) (hok : CpuOk s id)
    (hb : Barrier cfg.devList s.clock) {clock : Clock (Device cfg.numCpus)}
    (hst : timerStep cfg.devList s.timerStop s.clock = some clock) :
    Steady b e id { s with clock := clock } := by
  rcases timerStep_rank_lt hst with ⟨fsh, event, hl, rfl⟩ | ⟨htime, -⟩
  · refine ⟨h.work, fun hin => ?_⟩
    obtain ⟨hle, hpending⟩ := h.time hin
    obtain ⟨hwait, hflag⟩ := (cpu_of_incr hok hb hl).resolve_left fun hl => hin (Or.inr hl)
    have hne : s.clock.time + e ≠ b + s.executed := by
      intro heq
      have hdue := (hpending heq).due hwait
      simp [Clock.due, Clock.wakeTime, hflag, hl, TimerLabel.releasing] at hdue
    simp only [Os.executed] at *
    refine ⟨by omega, fun _ => ⟨by simp [hwait], fun _ => ?_⟩⟩
    simp [Clock.due, Clock.wakeTime, TimerLabel.releasing, cfg.devList_eq]
  · refine h.congr rfl htime le_rfl fun hwait => ?_
    refine Clock.due_timerStep hb (by simp [cfg.devList_eq]) ?_ hst htime
    by_contra hfsh
    have hexited := hok.fsh (by simpa using hfsh)
    rw [hwait] at hexited
    cases hexited

end Os

/-! ### Every interleaving -/

variable {cfg : SimConfig} {s s' : Sim cfg} {id : Fin cfg.numCpus}

/-- A process that a CPU is about to run has an instruction left. -/
def HandOk (s : Sim cfg) : Prop :=
  ∀ id p, (s.os.cpu id).label = .recheck ∨ (s.os.cpu id).label = .run →
    (s.os.cpu id).proc = some p → s.os.pc p < cfg.codeSize p

/-- A step of the CPU itself, which may have taken another process. -/
theorem HandOk.simCpuStep (h : HandOk s) (hpc : PcOk s) {name : CStr}
    (hst : SimCpuStep s id name s') {p : cfg.Proc}
    (hl : (s'.os.cpu id).label = .recheck ∨ (s'.os.cpu id).label = .run)
    (hp : (s'.os.cpu id).proc = some p) : s'.os.pc p < cfg.codeSize p := by
  cases hst with
  | fetch proc t ins hx hnone hins => exact h id p hl hp
  | ended proc t hx hnone hpc => simp at hl
  | exec proc t ins hx hins => simp at hl
  | finish proc t hx hpc => simp at hl
  | other os hos hrun hend =>
      rw [hos.pc_eq hrun]
      cases hos with
      | goto x x' hx hgo =>
          rw [Os.cpu_setCpu_self] at hl hp
          cases hgo with
          | resume proc t hne ht =>
              obtain rfl : proc = p := by simpa using hp
              exact lt_of_le_of_ne (hpc.exec.pc_le proc) hne
          | dispatch proc t => exact h id p (by simp [hx]) (by simpa [hx] using hp)
          | _ => simp at hl
      | get x hx hlabel =>
          rw [Os.cpu_setCpu_self] at hl hp
          rcases getMlqProc_cases s.os.mlqReadyQueue with ⟨-, heq⟩ | ⟨prio, q, rest, hq, -, heq⟩
          · rw [heq, Cpu.got] at hp
            split at hp <;> simp at hp
          · obtain rfl : q = p := by
              rw [heq, Cpu.got] at hp
              split at hp <;> simpa using hp
            exact hpc.waits q (Or.inr (Or.inl ⟨prio, by simp [hq]⟩))
      | _ => simp at hl

/-- **A CPU that is about to run a process has an instruction to execute**, after any step. -/
theorem HandOk.step (h : HandOk s) (hpc : PcOk s) {t : Thread cfg.numCpus} {name : CStr}
    (hst : simStep s (t, name) = some s') : HandOk s' := by
  intro id p hl hp
  by_cases ht : t = .cpu id
  · subst ht
    exact h.simCpuStep hpc (simCpuStep_cases hst) hl hp
  · have hcpu : s'.os.cpu id = s.os.cpu id := by
      rcases simStep_cases hst with
        ⟨id', rfl, hcpu⟩ | ⟨rfl, os, hld, rfl⟩ | ⟨rfl, clock, -, rfl⟩ | ⟨rfl, rfl⟩
      · exact hcpu.frame.2.2.2 id fun hid => ht (hid ▸ rfl)
      · exact congrFun hld.frame.1 id
      · rfl
      · rfl
    rw [hcpu] at hl hp
    have hheld : s.held id = some p := by
      rw [Sim.held, Cpu.holds]
      rcases hl with hl | hl <;> rw [hl] <;> exact hp
    rw [pc_of_held hpc.exec hst ht hheld]
    exact h id p hl hp

/-- In every state, a CPU that is about to run a process has an instruction to execute. -/
theorem HandOk.of_run (hsize : ∀ p, 1 ≤ cfg.codeSize p) {ts : List (Thread cfg.numCpus × CStr)}
    (hrun : (simSystem cfg).Run ts s) : HandOk s := by
  induction hrun with
  | init hs =>
      obtain rfl : _ = bootSim cfg := hs
      intro id p hl
      simp [bootSim, bootOs] at hl
  | step hrun hst ih => exact ih.step (PcOk.of_run hsize hrun) hst

/-- No step takes back what has been executed. -/
theorem executed_mono {t : Thread cfg.numCpus × CStr} (hst : simStep s t = some s') :
    s.os.executed ≤ s'.os.executed := Finset.sum_le_sum fun p _ => pc_mono hst p

/-- `done` stays set. -/
theorem done_of_simStep {t : Thread cfg.numCpus} {name : CStr}
    (hst : simStep s (t, name) = some s') (hdone : s.os.done = true) : s'.os.done = true := by
  rcases simStep_cases hst with
    ⟨id, rfl, hcpu⟩ | ⟨rfl, os, hld, rfl⟩ | ⟨rfl, clock, -, rfl⟩ | ⟨rfl, rfl⟩
  · rw [hcpu.frame.2.2.1]
    exact hdone
  · cases hld with
    | setDone hl => rfl
    | _ => exact hdone
  · exact hdone
  · exact hdone

/-- A step of the CPU itself: `run` executes an instruction, and the others lead to it. -/
theorem Steady.simCpuStep {b e : ℕ} (h : Steady b e id s.os) (hok : ThreadsOk s.os)
    (hhand : HandOk s) (hdone : s.os.done = true) {name : CStr} (hst : SimCpuStep s id name s') :
    Steady b e id s'.os := by
  cases hst with
  | fetch proc t ins hx hnone hins => exact h
  | ended proc t hx hnone hend =>
      -- an instruction was left
      have hlt := hhand id proc (by simp [hx]) (by rw [hx])
      rw [List.getElem?_eq_none_iff, cfg.text_length] at hend
      omega
  | exec proc t ins hx hins =>
      have hsum := sum_update_add (fun n => n) s.os.pc proc (s.os.pc proc + 1)
      obtain ⟨hle, -⟩ := h.time (by simp [Os.Out, hx])
      refine ⟨by simp [Os.AtWork], fun _ => ?_⟩
      simp only [Os.executed, Sim.pc_exec, Sim.clock_exec] at hle ⊢
      exact ⟨by omega, fun heq => absurd heq (by omega)⟩
  | finish proc t hx hpc =>
      exact h.cpuStep (hok.cpu id) hdone (by simp [hx]) (.goto _ _ hx (.finish proc t hpc)) rfl
  | other os hos hrun hend => exact h.cpuStep (hok.cpu id) hdone hrun hos (hos.pc_eq hrun)

/-- **A CPU at work wastes no time slot**, in any step. -/
theorem Steady.step {b e : ℕ} (h : Steady b e id s.os) (hok : ThreadsOk s.os) (hhand : HandOk s)
    (hdone : s.os.done = true) {t : Thread cfg.numCpus} {name : CStr}
    (hst : simStep s (t, name) = some s') : Steady b e id s'.os := by
  have hexec := executed_mono hst
  rcases simStep_cases hst with
    ⟨id', rfl, hcpu⟩ | ⟨rfl, os, hld, rfl⟩ | ⟨rfl, clock, hclock, rfl⟩ | ⟨rfl, rfl⟩
  · by_cases hid : id = id'
    · subst hid
      exact h.simCpuStep hok hhand hdone hcpu
    · have hd : Device.cpu id ≠ .cpu id' := fun heq => hid (Device.cpu.inj heq)
      refine h.congr (hcpu.frame.2.2.2 id hid) (hcpu.rank_lt hok).1 hexec fun _ => ?_
      rcases hcpu.clock with hc | hc | hc <;> rw [hc]
      · exact Clock.due_congr rfl rfl (Function.update_of_ne hd _ _)
      · exact Clock.due_congr rfl rfl (Function.update_of_ne hd _ _)
  · obtain ⟨hcpu, -, hdev⟩ := hld.cpu_frame id
    have hclock : os.clock.label = s.os.clock.label ∧ os.clock.time = s.os.clock.time := by
      cases hld <;> exact ⟨rfl, rfl⟩
    exact h.congr hcpu hclock.2 hexec fun _ => Clock.due_congr hclock.1 hclock.2 hdev
  · exact h.timerStep (hok.cpu id) hok.barrier hclock
  · exact h.congr rfl rfl le_rfl fun _ => rfl

/-! ### It leaves -/

/-- A CPU that is gone stays so, and takes no step. -/
theorem exited_of_simStep {t : Thread cfg.numCpus} {name : CStr}
    (hst : simStep s (t, name) = some s') (hl : (s.os.cpu id).label = .exited) :
    t ≠ .cpu id ∧ s'.os.cpu id = s.os.cpu id := by
  have hne : t ≠ .cpu id := by
    rintro rfl
    rcases hx : s.os.cpu id with ⟨label, proc, τ⟩
    obtain rfl : label = .exited := by simpa [hx] using hl
    simp [simStep, simCpuStep, cpuStep, hx] at hst
  refine ⟨hne, ?_⟩
  rcases simStep_cases hst with
    ⟨id', rfl, hcpu⟩ | ⟨rfl, os, hld, rfl⟩ | ⟨rfl, clock, -, rfl⟩ | ⟨rfl, rfl⟩
  · exact hcpu.frame.2.2.2 id fun hid => hne (hid ▸ rfl)
  · exact congrFun hld.frame.1 id
  · rfl
  · rfl

/-- What has been executed and what is left are together all instructions. -/
theorem ExecOk.executed_add_remaining (h : ExecOk s) :
    s.os.executed + s.os.remaining = cfg.work := by
  rw [Os.executed, Os.remaining, SimConfig.work, ← Finset.sum_add_distrib]
  exact Finset.sum_congr rfl fun p _ => Nat.add_sub_of_le (h.pc_le p)

section From

variable {s₀ : Sim cfg} {ts₀ ts : List (Thread cfg.numCpus × CStr)}

/-- `done` stays set, in every run. -/
theorem done_of_run (hdone : s₀.os.done = true) (hrun : ((simSystem cfg).startingAt s₀).Run ts s) :
    s.os.done = true := by
  refine hrun.invariant (I := fun s => s.os.done = true) ?_ fun s t s' hs hst =>
    done_of_simStep hst hs
  rintro s rfl
  exact hdone

/-- **From `s₀` on the CPU wastes no time slot**, in every run. -/
theorem Steady.of_run (hsize : ∀ p, 1 ≤ cfg.codeSize p) (hrun₀ : (simSystem cfg).Run ts₀ s₀)
    (hdone : s₀.os.done = true) (hwork : s₀.os.AtWork id)
    (hrun : ((simSystem cfg).startingAt s₀).Run ts s) :
    Steady (s₀.os.clock.time + 1) s₀.os.executed id s.os := by
  induction hrun with
  | init hs =>
      obtain rfl : _ = s₀ := hs
      exact ⟨hwork, fun _ => ⟨by omega, fun heq => absurd heq (by omega)⟩⟩
  | step hrun hst ih =>
      have hfull := hrun₀.append hrun
      have hhand := HandOk.of_run hsize hfull
      exact ih.step (ThreadsOk.of_run hfull) hhand (done_of_run hdone hrun) hst

/-- It is out of its loop once so many slots have passed. -/
theorem out_of_time_lt (hsize : ∀ p, 1 ≤ cfg.codeSize p) (hrun₀ : (simSystem cfg).Run ts₀ s₀)
    (hdone : s₀.os.done = true) (hwork : s₀.os.AtWork id)
    (hrun : ((simSystem cfg).startingAt s₀).Run ts s)
    (htime : s₀.os.clock.time + s₀.os.remaining + 1 < s.os.clock.time) : s.os.Out id := by
  by_contra hin
  have hle := ((Steady.of_run hsize hrun₀ hdone hwork hrun).time hin).1
  have hwork₀ := (ExecOk.of_run hrun₀).executed_add_remaining
  have hwork := (ExecOk.of_run (hrun₀.append hrun)).executed_add_remaining
  omega

/-- The CPU is gone once so many slots have passed. -/
theorem exited_of_time_lt (hsize : ∀ p, 1 ≤ cfg.codeSize p) (hrun₀ : (simSystem cfg).Run ts₀ s₀)
    (hdone : s₀.os.done = true) (hwork : s₀.os.AtWork id)
    (hrun : ((simSystem cfg).startingAt s₀).Run ts s)
    (htime : s₀.os.clock.time + s₀.os.remaining + 1 < s.os.clock.time) :
    (s.os.cpu id).label = .exited := by
  induction hrun with
  | init hs =>
      obtain rfl : _ = s₀ := hs
      omega
  | @step ts s t s' hrun hst ih =>
      have hok := ThreadsOk.of_run (hrun₀.append hrun)
      by_cases hlt : s₀.os.clock.time + s₀.os.remaining + 1 < s.os.clock.time
      · rw [(exited_of_simStep hst (ih hlt)).2]
        exact ih hlt
      · rcases time_of_simStep hok hst with htick | hsame
        · have hout := out_of_time_lt hsize hrun₀ hdone hwork (hrun.step hst) htime
          rcases (cpus_of_tick hok hst htick).2 id with hexited | ⟨hwait, -⟩
          · exact hexited
          · simp [Os.Out, hwait] at hout
        · omega

end From

/-! ### The timer ends -/

section Timer

variable {δ : Type} [DecidableEq δ] {devList : List δ} {c c' : Clock δ} {k : ℕ}

/-- Where the timer is once all devices are gone, in slot `k`: it moves on once more at most, to
count them. -/
def Closing (k : ℕ) (c : Clock δ) : Prop :=
  match c.label with
  | .top => c.time = k
  | .wait _ fsh event | .incr fsh event => c.time = k ∧ fsh = event
  | .release _ fsh event => c.time = k ∨ (c.time = k + 1 ∧ fsh = event)
  | .exited => c.time ≤ k + 1

omit [DecidableEq δ] in
/-- The timer moves on once more at most. -/
theorem Closing.time_le (h : Closing k c) : c.time ≤ k + 1 := by
  rw [Closing] at h
  split at h <;> omega

/-- A step of the timer, once all devices are marked as finished. -/
theorem Closing.timerStep (h : Closing k c) (hfsh : ∀ d, (c.dev d).fsh = true) {stop : Bool}
    (hst : timerStep devList stop c = some c') : Closing k c' := by
  rw [OsSim.timerStep] at hst
  rw [Closing] at h
  cases hl : c.label with
  | top =>
      simp only [hl] at hst h
      split at hst
      · obtain rfl := Option.some.inj hst
        exact h.le.trans (Nat.le_succ k)
      · obtain rfl := Option.some.inj hst
        exact ⟨h, rfl⟩
  | wait rest fsh event =>
      obtain ⟨htime, hcount⟩ : c.time = k ∧ fsh = event := by simpa only [hl] using h
      cases rest with
      | nil =>
          simp only [hl] at hst
          obtain rfl := Option.some.inj hst
          exact ⟨htime, hcount⟩
      | cons d rest =>
          simp only [hl, TimerId.ready, hfsh d, Bool.or_true, if_true] at hst
          obtain rfl := Option.some.inj hst
          exact ⟨htime, congrArg Nat.succ hcount⟩
  | incr fsh event =>
      simp only [hl] at hst h
      obtain rfl := Option.some.inj hst
      exact Or.inr ⟨congrArg Nat.succ h.1, h.2⟩
  | release rest fsh event =>
      cases rest with
      | nil =>
          simp only [hl] at hst h
          split at hst
          · obtain rfl := Option.some.inj hst
            have hle : c.time ≤ k + 1 := by omega
            exact hle
          · rename_i hne
            obtain rfl := Option.some.inj hst
            exact h.resolve_right fun hcounted => hne hcounted.2
      | cons d rest =>
          simp only [hl] at hst h
          obtain rfl := Option.some.inj hst
          exact h
  | exited => simp [hl] at hst

end Timer

/-! ### All of it ends -/

section From

variable {s₀ : Sim cfg} {ts₀ ts : List (Thread cfg.numCpus × CStr)}

/-- The loader has left when the timer moves on. -/
theorem ld_of_tick (hok : ThreadsOk s.os) (hdone : s.os.done = true) {fsh event : ℕ}
    (hl : s.os.clock.label = .release cfg.devList fsh event) : s.os.ld = .exited := by
  have hbarrier := hok.barrier
  rw [Barrier, hl] at hbarrier
  have hready := hbarrier.2 .ld (by simp [cfg.devList_eq])
  rcases Bool.or_eq_true _ _ ▸ hready with hflag | hfsh
  · have hwaits := hok.ld.flag hflag
    rcases hok.ld.done hdone with hl | hl <;> simp [hl] at hwaits
  · exact hok.ld.fsh hfsh

/-- Once they are gone, the CPUs and the loader stay so, and the timer goes on to its end. -/
theorem Closing.step {k : ℕ} (h : Closing k s.os.clock) (hleft : s.os.Left)
    (hok : ThreadsOk s.os) {t : Thread cfg.numCpus} {name : CStr}
    (hst : simStep s (t, name) = some s') : s'.os.Left ∧ Closing k s'.os.clock := by
  have hcpus (id : Fin cfg.numCpus) : (s'.os.cpu id).label = .exited := by
    rw [(exited_of_simStep hst (hleft.1 id)).2]
    exact hleft.1 id
  rcases simStep_cases hst with
    ⟨id, rfl, -⟩ | ⟨rfl, os, hld, rfl⟩ | ⟨rfl, clock, hclock, rfl⟩ | ⟨rfl, rfl⟩
  · exact absurd rfl (exited_of_simStep hst (hleft.1 id)).1
  · have hexited := hleft.2
    cases hld with
    | goto l l' hl hgo =>
        rw [hl] at hexited
        subst hexited
        cases hgo
    | _ => simp_all
  · exact ⟨⟨hcpus, hleft.2⟩, h.timerStep (hok.fsh_of_left hleft) hclock⟩
  · exact ⟨⟨hcpus, hleft.2⟩, h⟩

/-- All devices are gone once so many slots have passed. -/
theorem closing_of_time_lt (hsize : ∀ p, 1 ≤ cfg.codeSize p)
    (hrun₀ : (simSystem cfg).Run ts₀ s₀) (hdone : s₀.os.done = true)
    (hwork : ∀ id, s₀.os.AtWork id) (hrun : ((simSystem cfg).startingAt s₀).Run ts s)
    (htime : s₀.os.clock.time + s₀.os.remaining + 1 < s.os.clock.time) :
    s.os.Left ∧ Closing (s₀.os.clock.time + s₀.os.remaining + 2) s.os.clock := by
  induction hrun with
  | init hs =>
      obtain rfl : _ = s₀ := hs
      omega
  | @step ts s t s' hrun hst ih =>
      have hok := ThreadsOk.of_run (hrun₀.append hrun)
      by_cases hlt : s₀.os.clock.time + s₀.os.remaining + 1 < s.os.clock.time
      · obtain ⟨hleft, hclosing⟩ := ih hlt
        exact hclosing.step hleft hok hst
      · rcases time_of_simStep hok hst with htick | hsame
        · obtain ⟨⟨fsh, event, hl⟩, -⟩ := cpus_of_tick hok hst htick
          have hcpus (id : Fin cfg.numCpus) :=
            exited_of_time_lt hsize hrun₀ hdone (hwork id) (hrun.step hst) htime
          have hok' := ThreadsOk.of_run (hrun₀.append (hrun.step hst))
          have hld := ld_of_tick hok' (done_of_run hdone (hrun.step hst)) hl
          have htime' := htick.time_eq
          refine ⟨⟨hcpus, hld⟩, ?_⟩
          rw [Closing, hl]
          exact Or.inl (by omega)
        · omega

/-- So the time does not get this far before all of it ends. -/
theorem time_lt_of_atWork (hsize : ∀ p, 1 ≤ cfg.codeSize p) (hrun₀ : (simSystem cfg).Run ts₀ s₀)
    (hdone : s₀.os.done = true) (hwork : ∀ id, s₀.os.AtWork id)
    (hrun : ((simSystem cfg).startingAt s₀).Run ts s) :
    s.os.clock.time < s₀.os.clock.time + (s₀.os.remaining + 4) := by
  by_contra hlt
  have hle := (closing_of_time_lt hsize hrun₀ hdone hwork hrun (by omega)).2.time_le
  omega

end From

/-! ### Or it never ends -/

/-- A CPU that looks for another process has the last one in its variable. -/
theorem CpuStep.looking {cfg : OsConfig} {s s' : Os cfg} {id : Fin cfg.numCpus}
    (h : CpuStep s id s')
    (hl : (s'.cpu id).label = .getFinished ∨ (s'.cpu id).label = .getPut) :
    (s'.cpu id).proc ≠ none := by
  cases h with
  | goto x x' hx hgo =>
      rw [Os.cpu_setCpu_self] at hl ⊢
      cases hgo with
      | finish proc t hpc => simp
      | _ => simp at hl
  | get x hx hlabel =>
      rw [Os.cpu_setCpu_self] at hl
      rcases x.label_got (getMlqProc s.mlqReadyQueue).1 with hgot | hgot <;> simp [hgot] at hl
  | putReady proc t hx => simp
  | _ => simp at hl

/-- In every state, a CPU that looks for another process has the last one in its variable. -/
theorem looking_of_run {ts : List (Thread cfg.numCpus × CStr)} (hrun : (simSystem cfg).Run ts s)
    (id : Fin cfg.numCpus)
    (hl : (s.os.cpu id).label = .getFinished ∨ (s.os.cpu id).label = .getPut) :
    (s.os.cpu id).proc ≠ none := by
  refine hrun.invariant (I := fun s => ∀ id,
    (s.os.cpu id).label = .getFinished ∨ (s.os.cpu id).label = .getPut →
      (s.os.cpu id).proc ≠ none) ?_ ?_ id hl
  · rintro s rfl id hl
    simp [bootSim, bootOs] at hl
  · rintro s ⟨t, name⟩ s' h hst id hl
    rcases simStep_cases hst with
      ⟨id', rfl, hcpu⟩ | ⟨rfl, os, hld, rfl⟩ | ⟨rfl, clock, -, rfl⟩ | ⟨rfl, rfl⟩
    · by_cases hid : id = id'
      · subst hid
        rcases hcpu.threads with ⟨proc, τ, ins, -, -, -, rfl⟩ | ⟨os, hos, hsame⟩
        · exact h id hl
        · rw [hsame.cpu] at hl ⊢
          exact hos.looking hl
      · rw [hcpu.frame.2.2.2 id hid] at hl ⊢
        exact h id hl
    · rw [hld.frame.1] at hl ⊢
      exact h id hl
    · exact h id hl
    · exact h id hl

/-- With nothing left to run, a CPU that is not at work idles. -/
theorem idle_of_not_atWork {ts : List (Thread cfg.numCpus × CStr)}
    (hrun : (simSystem cfg).Run ts s) (hleft : s.NothingLeft) (h : ¬ s.os.AtWork id) :
    Idle id s := by
  have hok := ThreadsOk.of_run hrun
  rw [Os.AtWork, not_or, not_not] at h
  obtain ⟨hproc, hlabel⟩ := h
  refine ⟨ExecOk.of_run hrun, hok.ld.done, hleft, hproc, ?_⟩
  have hhand := (hok.cpuPlaced id).hand
  have hlooking := looking_of_run hrun id
  cases hl : (s.os.cpu id).label <;> simp_all

/-- **Whether the simulation ends does not depend on the order of the threads**: for programs of at
least one instruction, once nothing is left to run, it ends in every order if every CPU is at work,
and otherwise in none. -/
theorem ends_or_never_ends (hsize : ∀ p, 1 ≤ cfg.codeSize p)
    {ts : List (Thread cfg.numCpus × CStr)} (hrun : (simSystem cfg).Run ts s)
    (hleft : s.NothingLeft) :
    ((∀ id, s.os.AtWork id) ∧ Inevitable ((simSystem cfg).startingAt s) Thread.works
        (fun s' => s'.os.Left ∧ s'.os.clock.label = .exited)
        ((s.os.remaining + 4) * (11 * cfg.numCpus + 11 + 1))) ∨
      ((∃ id, ¬ s.os.AtWork id) ∧
        ∀ ts s', ((simSystem cfg).startingAt s).Run ts s' → ¬ s'.os.Left) := by
  by_cases hwork : ∀ id, s.os.AtWork id
  · refine Or.inl ⟨hwork, comes_about hrun (fun _ hleft hl => ⟨hleft, hl⟩) fun hrun' htime => ?_⟩
    exact absurd htime (time_lt_of_atWork hsize hrun hleft.done hwork hrun').not_ge
  · obtain ⟨id, hid⟩ := not_forall.mp hwork
    refine Or.inr ⟨⟨id, hid⟩, fun ts' s' hrun' hgone => ?_⟩
    have hidle : Idle id s' := by
      refine hrun'.invariant (fun t (ht : t = s) => ?_) fun s t s' hs hst => hs.step hst
      exact ht ▸ idle_of_not_atWork hrun hleft hid
    have hlabel := hidle.label
    rw [hgone.1 id] at hlabel
    simp at hlabel

/-! ### Two CPUs, and one -/

/-- With nothing left to run, the idle CPU keeps the simulation from ending. -/
theorem ends_or_never_ends_twoCpus : ∃ s : Sim twoCpus, (simSystem twoCpus).Run twoCpusIdle s ∧
    ∀ ts s', ((simSystem twoCpus).startingAt s).Run ts s' → ¬ s'.os.Left := by
  have hstate : (twoCpusIdle.foldlM simStep (bootSim twoCpus)).map
      (fun s => decide (s.NothingLeft ∧ ¬ s.os.AtWork idleCpu)) = some true := by
    decide +kernel
  obtain ⟨s, hs, hdecide⟩ := Option.map_eq_some_iff.mp hstate
  obtain ⟨hleft, hidle⟩ := of_decide_eq_true hdecide
  have hrun : (simSystem twoCpus).Run twoCpusIdle s := Run.of_foldlM (fun _ _ _ h => h) rfl hs
  have hnever := (ends_or_never_ends (by decide) hrun hleft).resolve_left fun h => hidle (h.1 _)
  exact ⟨s, hrun, hnever.2⟩

end OsSim
