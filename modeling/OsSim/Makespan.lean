import OsSim.Progress
import OsSim.Refinement
import OsSim.TimeSlice

/-!
# All Programs Finish

Once the loader has added its last process, no time slot is wasted while a program has instructions
left: some CPU has such a program in hand and runs it, or the queues hold one and some CPU is still
to look into them. So one instruction at least is executed in every slot, which bounds the time
until all programs are at their ends, whatever the order of the threads; and they get there, since
the simulation neither stops nor goes on in one slot for ever.

## The conditions

`SimConfig.Plain` has them: there is a CPU; every program has an instruction; none has a `killall`,
which could terminate a process that has instructions left; and there are no more programs than a
ready queue has places, as a full queue loses what is put there. What instructions do to memory is
left out, so they are all taken to be defined; `Computation` has conditions for that.

## How the argument goes

`Avail` says that the work of the current slot is in reach: a CPU has a process with instructions
left and will run it in this slot, or one is queued and a CPU will call `get_proc` in it. A step of
a CPU keeps that, or executes an instruction (`Avail.cpuStep`). When the timer moves on, every CPU
is in `next_slot`, so no work is in reach any more and one instruction at least has been executed;
and the new slot has work in reach again while a program has instructions left (`avail_of_tick`).

`OnTime` counts: since slot `b`, as many instructions have been executed as slots have passed, or
one less and there is work in reach. That is an invariant of every run.

## Main results

* `Avail.cpuStep`: a CPU's step keeps the work of the slot in reach, or does some.
* `OnTime.step`, `OnTime.of_run`: **no time slot is wasted**, after the last arrival.
* `programs_finish_by`: **the time by which all programs have been executed**.
* `programs_finish`: **all programs are executed**, in every interleaving.
-/

namespace OsSim

open TransitionSystem

/-! ### The work of a time slot -/

section Os

variable {cfg : OsConfig} {s s' : Os cfg} {id : Fin cfg.numCpus}

/-- CPU `id` has a process with instructions left, and runs it or puts it back in this slot. -/
structure Os.WillRun (s : Os cfg) (id : Fin cfg.numCpus) : Prop where
  early : (s.cpu id).label ≠ .slotSet ∧ (s.cpu id).label ≠ .detach ∧ (s.cpu id).label ≠ .exited
  due : (s.cpu id).label = .slotWait → s.clock.due (.cpu id) = true
  proc : ∃ p, (s.cpu id).holds = some p ∧ s.pc p < cfg.codeSize p

/-- The calls of `get_proc`, of which `cpu_routine` has three. -/
def CpuLabel.gets : CpuLabel → Bool
  | .getFirst | .getFinished | .getPut => true
  | _ => false

/-- CPU `id` calls `get_proc` in this slot, now or when it has been at the top of its loop. -/
def Os.WillGet (s : Os cfg) (id : Fin cfg.numCpus) : Prop :=
  (s.cpu id).label.gets = true ∨
    (((s.cpu id).label = .top ∨ (s.cpu id).label = .slotWait ∧ s.clock.due (.cpu id) = true) ∧
      ∀ p, (s.cpu id).proc = some p → ¬ s.pc p < cfg.codeSize p)

/-- **There is work in reach**: with a CPU that will do it, or in a queue into which a CPU will
look. -/
def Avail (s : Os cfg) : Prop :=
  (∃ id, s.WillRun id) ∨ ((∃ prio, s.mlqReadyQueue prio ≠ []) ∧ ∃ id, s.WillGet id)

/-- How many instructions have been executed, of all programs together. -/
def Os.executed (s : Os cfg) : ℕ := ∑ p, s.pc p

/-- A step that leaves the CPU as it is, its process, and whether its wait ends. -/
theorem Os.WillRun.congr (h : s.WillRun id) (hcpu : s'.cpu id = s.cpu id) (hpc : s'.pc = s.pc)
    (hdue : (s.cpu id).label = .slotWait → s'.clock.due (.cpu id) = s.clock.due (.cpu id)) :
    s'.WillRun id where
  early := hcpu ▸ h.early
  due hl := by
    rw [hcpu] at hl
    rw [hdue hl]
    exact h.due hl
  proc := by
    rw [hcpu, hpc]
    exact h.proc

/-- The same for a CPU that will call `get_proc`. -/
theorem Os.WillGet.congr (h : s.WillGet id) (hcpu : s'.cpu id = s.cpu id) (hpc : s'.pc = s.pc)
    (hdue : (s.cpu id).label = .slotWait → s'.clock.due (.cpu id) = s.clock.due (.cpu id)) :
    s'.WillGet id := by
  rw [WillGet, hcpu, hpc]
  refine h.imp_right fun ⟨hl, hproc⟩ => ⟨hl.imp_right fun ⟨hwait, hd⟩ => ⟨hwait, ?_⟩, hproc⟩
  rw [hdue hwait]
  exact hd

/-- A step that leaves the CPUs as they are and empties no queue. -/
theorem Avail.congr (h : Avail s) (hcpu : s'.cpu = s.cpu) (hpc : s'.pc = s.pc)
    (hdue : ∀ id, (s.cpu id).label = .slotWait → s'.clock.due (.cpu id) = s.clock.due (.cpu id))
    (hqueue : ∀ prio, s.mlqReadyQueue prio ≠ [] → s'.mlqReadyQueue prio ≠ []) : Avail s' := by
  rcases h with ⟨id, hid⟩ | ⟨⟨prio, hprio⟩, id, hid⟩
  · exact Or.inl ⟨id, hid.congr (congrFun hcpu id) hpc (hdue id)⟩
  · exact Or.inr ⟨⟨prio, hqueue prio hprio⟩, id, hid.congr (congrFun hcpu id) hpc (hdue id)⟩

/-- A step of a CPU does not concern the others. -/
theorem CpuStep.due_eq (h : CpuStep s id s') {id' : Fin cfg.numCpus} (hid : id' ≠ id) :
    s'.clock.due (.cpu id') = s.clock.due (.cpu id') := by
  have hd : Device.cpu id' ≠ .cpu id := fun heq => hid (Device.cpu.inj heq)
  have hclock : s'.clock.label = s.clock.label ∧ s'.clock.time = s.clock.time := by
    cases h <;> exact ⟨rfl, rfl⟩
  exact Clock.due_congr hclock.1 hclock.2 (h.frame.2.2.2.2 _ hd)

/-- `run` executes an instruction where there is one left. -/
theorem CpuStep.executed (h : CpuStep s id s') :
    s'.pc = s.pc ∨ s'.executed = s.executed + 1 := by
  cases h with
  | run p t hx =>
      by_cases hle : cfg.codeSize p ≤ s.pc p
      · exact Or.inl (by simp [runPc, hle])
      · refine Or.inr ?_
        have hsum := sum_update_add (fun n => n) s.pc p (s.pc p + 1)
        simp only [Os.executed, Os.pc_setCpu, runPc, if_neg hle]
        omega
  | _ => exact Or.inl rfl

/-- A queue is not empty after an insertion: it was full, or has the process now. -/
theorem enqueue_ne_nil {α : Type} (q : List α) (proc : α) : enqueue q proc ≠ [] := by
  rw [enqueue]
  split
  · rintro rfl
    simp [maxQueueSize] at *
  · simp

/-- A CPU that gets a process goes on to run it. -/
theorem Cpu.got_some {P : Type} (x : Cpu P) (proc : P) : (x.got (some proc)).label = .recheck := by
  rw [Cpu.got]
  split <;> rfl

/-- The work of a CPU whose step executes nothing: it is still to be done, or in a queue now. -/
theorem Os.WillRun.cpuStep (h : s.WillRun id) (hok : CpuOk s id) (hst : CpuStep s id s')
    (hpc : s'.pc = s.pc) : Avail s' := by
  obtain ⟨hearly, hdue, p, hholds, hlt⟩ := h
  cases hst with
  | goto x x' hx hgo =>
      rw [hx] at hearly hdue hholds
      have hstill (hlabel : x'.label ≠ .slotSet ∧ x'.label ≠ .detach ∧ x'.label ≠ .exited ∧
          x'.label ≠ .slotWait) (hsame : x'.holds = x.holds) : Avail (s.setCpu id x') := by
        obtain ⟨h₁, h₂, h₃, hwait⟩ := hlabel
        refine Or.inl ⟨id, ?_, ?_, p, ?_, hlt⟩
        · rw [Os.cpu_setCpu_self]
          exact ⟨h₁, h₂, h₃⟩
        · rw [Os.cpu_setCpu_self]
          exact fun hl => absurd hl hwait
        · rw [Os.cpu_setCpu_self, hsame, hholds]
      cases hgo with
      | finish proc t hend =>
          obtain rfl : proc = p := by simpa [Cpu.holds] using hholds
          exact absurd hlt (by omega)
      | leave t hdone | skip t hdone | load t => simp [Cpu.holds] at hholds
      | expire proc hend | resume proc t hend ht | dispatch proc t | wake proc t hflag =>
          exact hstill (by simp) rfl
  | get x hx hlabel =>
      rw [hok.holds_eq_none (hx ▸ hlabel)] at hholds
      cases hholds
  | putRunning proc t hx =>
      rw [hx] at hholds
      exact Or.inl ⟨id, by simp, by simp, p, by simpa [Cpu.holds] using hholds, hlt⟩
  | putReady proc t hx =>
      refine Or.inr ⟨⟨cfg.prio proc, ?_⟩, id, Or.inl (by simp [CpuLabel.gets])⟩
      simpa [putMlqProc] using enqueue_ne_nil _ _
  | run proc t hx =>
      -- an instruction was left
      obtain rfl : proc = p := by
        rw [hx] at hholds
        simpa [Cpu.holds] using hholds
      have hsame := congrFun hpc proc
      simp [runPc, not_le.mpr hlt] at hsame
  | slotSet proc t hx => exact absurd (by rw [hx]) hearly.1
  | detach proc t hx => exact absurd (by rw [hx]) hearly.2.1

/-- A CPU on its way to `get_proc` gets there. -/
theorem Os.WillGet.cpuStep (h : s.WillGet id) (hle : ∀ p, s.pc p ≤ cfg.codeSize p)
    (hgets : (s.cpu id).label.gets = false) (hst : CpuStep s id s') : s'.WillGet id := by
  obtain ⟨hlabel, hproc⟩ := h.resolve_left (by simp [hgets])
  cases hst with
  | goto x x' hx hgo =>
      rw [hx] at hlabel hproc
      have hunfinished (p : cfg.Proc) (hend : s.pc p ≠ cfg.codeSize p) : s.pc p < cfg.codeSize p :=
        lt_of_le_of_ne (hle p) hend
      cases hgo with
      | load t | finish proc t hend => exact Or.inl (by simp [CpuLabel.gets])
      | expire proc hend => exact absurd (hunfinished proc hend) (hproc proc rfl)
      | resume proc t hend ht => exact absurd (hunfinished proc hend) (hproc proc rfl)
      | wake proc t hflag => exact Or.inr ⟨Or.inl (by simp), by simpa using hproc⟩
      | leave t hdone | skip t hdone | dispatch proc t => simp at hlabel
  | get x hx hl =>
      rw [hx] at hgets
      rcases hl with hl | hl | hl <;> simp [hl, CpuLabel.gets] at hgets
  | putRunning proc t hx | putReady proc t hx | run proc t hx | slotSet proc t hx
  | detach proc t hx => simp [hx] at hlabel

/-- `get_proc` finds a process where there is one, and the CPU will run it. -/
theorem Avail.get {x : Cpu cfg.Proc} (hne : ∃ prio, s.mlqReadyQueue prio ≠ [])
    (hqueued : ∀ prio, ∀ p ∈ s.mlqReadyQueue prio, s.pc p < cfg.codeSize p) :
    Avail ({ s with mlqReadyQueue := (getMlqProc s.mlqReadyQueue).2 }.setCpu id
      (x.got (getMlqProc s.mlqReadyQueue).1)) := by
  rcases getMlqProc_cases s.mlqReadyQueue with ⟨hnil, -⟩ | ⟨prio, p, rest, hhead, -, heq⟩
  · obtain ⟨prio, hprio⟩ := hne
    exact absurd (hnil prio) hprio
  · have hlabel := x.got_some p
    rw [heq]
    refine Or.inl ⟨id, ?_, ?_, p, ?_, hqueued prio p (by simp [hhead])⟩
    · simp [hlabel]
    · simp [hlabel]
    · simp [Cpu.holds_got]

/-- **A step of a CPU keeps the work in reach**, unless it does some. -/
theorem Avail.cpuStep (h : Avail s) (hok : CpuOk s id) (hle : ∀ p, s.pc p ≤ cfg.codeSize p)
    (hqueued : ∀ prio, ∀ p ∈ s.mlqReadyQueue prio, s.pc p < cfg.codeSize p)
    (hst : CpuStep s id s') (hpc : s'.pc = s.pc) : Avail s' := by
  have hother := hst.frame.2.2.2.1
  rcases h with ⟨id', hid'⟩ | ⟨hne, id', hid'⟩
  · by_cases hid : id' = id
    · subst hid
      exact hid'.cpuStep hok hst hpc
    · exact Or.inl ⟨id', hid'.congr (hother id' hid) hpc fun _ => hst.due_eq hid⟩
  · by_cases hgets : (s.cpu id).label.gets = true
    · cases hst with
      | get x hx hlabel => exact Avail.get hne hqueued
      | goto x x' hx hgo => cases hgo <;> simp [hx, CpuLabel.gets] at hgets
      | _ => simp_all [CpuLabel.gets]
    · have hqueue : ∃ prio, s'.mlqReadyQueue prio ≠ [] := by
        obtain ⟨prio, hprio⟩ := hne
        refine ⟨prio, ?_⟩
        cases hst with
        | get x hx hlabel =>
            rcases hlabel with hl | hl | hl <;> simp [hx, hl, CpuLabel.gets] at hgets
        | putReady proc t hx =>
            rw [Os.mlqReadyQueue_setCpu, putMlqProc]
            by_cases heq : prio = cfg.prio proc
            · subst heq
              simpa using enqueue_ne_nil _ _
            · simpa [Function.update_of_ne heq] using hprio
        | _ => exact hprio
      by_cases hid : id' = id
      · subst hid
        exact Or.inr ⟨hqueue, id', hid'.cpuStep hle (by simpa using hgets) hst⟩
      · exact Or.inr ⟨hqueue, id', hid'.congr (hother id' hid) hpc fun _ => hst.due_eq hid⟩

/-! ### The time slots -/

/-- When the timer moves on, every CPU is in `next_slot` or gone. -/
theorem cpu_of_incr (hok : CpuOk s id) (hb : Barrier cfg.devList s.clock) {fsh event : ℕ}
    (hl : s.clock.label = .incr fsh event) : (s.cpu id).label = .exited ∨
      ((s.cpu id).label = .slotWait ∧ (s.clock.dev (.cpu id)).done = true) := by
  rw [Barrier, hl] at hb
  have hready := hb (.cpu id) (by simp [cfg.devList_eq])
  rcases Bool.or_eq_true _ _ ▸ hready with hdone | hfsh
  · exact Or.inr ⟨hok.flag hdone, hdone⟩
  · exact Or.inl (hok.fsh hfsh)

/-- Then no work is in reach: all of it has been done in the slot that ends. -/
theorem not_avail_of_incr (hok : ∀ id, CpuOk s id) (hb : Barrier cfg.devList s.clock)
    {fsh event : ℕ} (hl : s.clock.label = .incr fsh event) : ¬ Avail s := by
  have hdue {id : Fin cfg.numCpus} (hdone : (s.clock.dev (.cpu id)).done = true) :
      s.clock.due (.cpu id) = false := by
    simp [Clock.due, Clock.wakeTime, hdone, hl, TimerLabel.releasing]
  rintro (⟨id, hrun⟩ | ⟨-, id, hget⟩)
  · rcases cpu_of_incr (hok id) hb hl with hexited | ⟨hwait, hdone⟩
    · exact hrun.early.2.2 hexited
    · have := hrun.due hwait
      rw [hdue hdone] at this
      cases this
  · rw [Os.WillGet] at hget
    rcases cpu_of_incr (hok id) hb hl with hexited | ⟨hwait, hdone⟩
    · simp [hexited, CpuLabel.gets] at hget
    · simp [hwait, hdue hdone, CpuLabel.gets] at hget

/-- A queue with a process in it is in reach of some CPU in a new time slot. -/
theorem avail_of_queued (hn : 0 < cfg.numCpus) (h : OsInv s) {fsh event : ℕ}
    (hl : s.clock.label = .release cfg.devList fsh event)
    (hcpu : ∀ id, (s.cpu id).label = .exited ∨
      ((s.cpu id).label = .slotWait ∧ (s.clock.dev (.cpu id)).done = true))
    {prio : Fin maxPrio} {p : cfg.Proc} (hp : p ∈ s.mlqReadyQueue prio) : Avail s := by
  have hdue (id : Fin cfg.numCpus) : s.clock.due (.cpu id) = true := by
    simp [Clock.due, Clock.wakeTime, hl, TimerLabel.releasing, cfg.devList_eq]
  -- some CPU is in its loop
  have hin : ∃ id, (s.cpu id).label = .slotWait := by
    by_contra hall
    have hexited (id : Fin cfg.numCpus) : (s.cpu id).label = .exited :=
      (hcpu id).resolve_right fun hwait => hall ⟨id, hwait.1⟩
    have hdone := ((h.cpu ⟨0, hn⟩).left (Or.inr (hexited _))).2
    have hempty := h.quiet (h.ld.late_of_done hdone) fun id => Or.inr (Or.inr (hexited id))
    rw [hempty] at hp
    cases hp
  obtain ⟨id, hwait⟩ := hin
  by_cases hproc : ∃ q, (s.cpu id).proc = some q ∧ s.pc q < cfg.codeSize q
  · obtain ⟨q, hproc, hq⟩ := hproc
    exact Or.inl ⟨id, by simp [hwait], fun _ => hdue id, q, by simp [Cpu.holds, hwait, hproc], hq⟩
  · refine Or.inr ⟨⟨_, List.ne_nil_of_mem hp⟩, id, Or.inr ⟨Or.inr ⟨hwait, hdue id⟩, ?_⟩⟩
    exact fun q hq hlt => hproc ⟨q, hq, hlt⟩

/-- **A new time slot has work in reach** while a program has instructions left. -/
theorem avail_of_tick (hn : 0 < cfg.numCpus) (h : OsInv s) {fsh event : ℕ}
    (hl : s.clock.label = .release cfg.devList fsh event)
    (hcpu : ∀ id, (s.cpu id).label = .exited ∨
      ((s.cpu id).label = .slotWait ∧ (s.clock.dev (.cpu id)).done = true))
    (hloaded : s.i = cfg.numProcesses) {p : cfg.Proc} (hp : s.pc p < cfg.codeSize p) :
    Avail s := by
  obtain ⟨place, hplace⟩ := h.located
  rcases hp' : place p with _ | _ | id | _
  · have hle := (hplace.loader p).mp hp'
    exact absurd p.isLt (by omega)
  · exact avail_of_queued hn h hl hcpu ((hplace.queue (cfg.prio p) p).mpr ⟨hp', rfl⟩)
  · have hheld := (hplace.cpu id p).mpr hp'
    rcases hcpu id with hexited | ⟨hwait, -⟩
    · have hnone := ((h.cpu id).left (Or.inr hexited)).1
      simp [Cpu.holds, hexited, hnone] at hheld
    · have hdue : s.clock.due (.cpu id) = true := by
        simp [Clock.due, Clock.wakeTime, hl, TimerLabel.releasing, cfg.devList_eq]
      exact Or.inl ⟨id, by simp [hwait], fun _ => hdue, p, hheld, hp⟩
  · exact absurd (hplace.finished p hp') hp.ne

/-- **No time slot has been wasted** since `time` was `b` and `e` instructions had been executed:
as many instructions have been executed as slots have passed, or one less is, and there is work in
reach. -/
def OnTime (b e : ℕ) (s : Os cfg) : Prop :=
  s.clock.time + e ≤ b + s.executed ∧ (s.clock.time + e = b + s.executed → Avail s)

variable {b e : ℕ}

/-- A step that leaves the time and the program counters as they are. -/
theorem OnTime.congr (h : OnTime b e s) (htime : s'.clock.time = s.clock.time)
    (hpc : s'.pc = s.pc) (havail : Avail s → Avail s') : OnTime b e s' := by
  rw [OnTime, htime, Os.executed, hpc]
  exact ⟨h.1, fun heq => havail (h.2 heq)⟩

/-- A step of a CPU leaves the time as it is. -/
theorem CpuStep.time_eq (h : CpuStep s id s') : s'.clock.time = s.clock.time := by
  cases h <;> rfl

/-- A step of a CPU keeps the work in reach, or executes one more instruction. -/
theorem OnTime.cpuStep (h : OnTime b e s) (hok : CpuOk s id)
    (hle : ∀ p, s.pc p ≤ cfg.codeSize p)
    (hqueued : ∀ prio, ∀ p ∈ s.mlqReadyQueue prio, s.pc p < cfg.codeSize p)
    (hst : CpuStep s id s') : OnTime b e s' := by
  rcases hst.executed with hpc | hexecuted
  · exact h.congr hst.time_eq hpc fun havail => havail.cpuStep hok hle hqueued hst hpc
  · have hold := h.1
    rw [OnTime, hst.time_eq, hexecuted]
    exact ⟨by omega, fun heq => absurd heq (by omega)⟩

/-- A step of the timer: `_time++` comes when no work is in reach, and brings some into it. -/
theorem OnTime.timerStep (h : OnTime b e s) (hok : ∀ id, CpuOk s id)
    (hb : Barrier cfg.devList s.clock) {clock : Clock (Device cfg.numCpus)}
    (hst : timerStep cfg.devList s.timerStop s.clock = some clock)
    (havail : s.clock.Ticks cfg.devList clock → Avail { s with clock := clock }) :
    OnTime b e { s with clock := clock } := by
  rcases timerStep_rank_lt hst with htick | ⟨htime, -⟩
  · refine ⟨?_, fun _ => havail htick⟩
    obtain ⟨fsh, event, hl, rfl⟩ := htick
    have hne : s.clock.time + e ≠ b + s.executed := fun heq =>
      not_avail_of_incr hok hb hl (h.2 heq)
    have hle := h.1
    simp only [Os.executed] at *
    omega
  · refine h.congr htime rfl fun havail => ?_
    refine havail.congr rfl rfl (fun id hwait => ?_) fun _ hne => hne
    refine Clock.due_timerStep hb (by simp [cfg.devList_eq]) ?_ hst htime
    by_contra hfsh
    have hexited := (hok id).fsh (by simpa using hfsh)
    rw [hwait] at hexited
    cases hexited

/-- A step of the loader takes no work out of reach. -/
theorem OnTime.ldStep (h : OnTime b e s) (hst : LdStep s s') : OnTime b e s' := by
  have hclock : s'.clock.label = s.clock.label ∧ s'.clock.time = s.clock.time := by
    cases hst <;> exact ⟨rfl, rfl⟩
  have hpc : s'.pc = s.pc := by cases hst <;> rfl
  refine h.congr hclock.2 hpc fun havail => ?_
  refine havail.congr (funext fun id => (hst.cpu_frame id).1) hpc (fun id _ => ?_) ?_
  · exact Clock.due_congr hclock.1 hclock.2 (hst.cpu_frame id).2.2
  · intro prio hne
    cases hst with
    | addReady hi hl =>
        simp only [putMlqProc]
        by_cases heq : prio = cfg.prio ⟨s.i, hi⟩
        · subst heq
          simpa using enqueue_ne_nil _ _
        · simpa [Function.update_of_ne heq] using hne
    | _ => exact hne

end Os

/-! ### Every interleaving -/

variable {cfg : SimConfig} {s s' : Sim cfg} {slot : ℕ}

/-- There is a CPU, every program has an instruction, none has a `killall`, and they fit into a
ready queue. -/
structure SimConfig.Plain (cfg : SimConfig) : Prop where
  cpus : 0 < cfg.numCpus
  room : cfg.numProcesses ≤ maxQueueSize
  noKillall : cfg.NoKillall
  codeSize : ∀ p, 1 ≤ cfg.codeSize p

/-- The loader is through once the last process has arrived. -/
theorem loaded_of_arrivals (hslot : ∀ p, cfg.arrival p ≤ slot) {calls : List (cfg.Proc × ℕ)}
    (h : ArrivalOk s calls) (hlt : slot < s.os.clock.time) : s.os.i = cfg.numProcesses := by
  by_contra hne
  have hi : s.os.i < cfg.numProcesses := lt_of_le_of_ne h.ld.le hne
  have harrival : arrivalTimes cfg.start s.os.i ≤ slot := hslot ⟨s.os.i, hi⟩
  have hwake : s.os.clock.time ≤ s.os.clock.wakeTime .ld := by
    rw [Clock.wakeTime]
    split <;> omega
  have hfirst := firstLook_le_arrivalTimes cfg.start s.os.i
  have hdue := h.due
  cases hl : s.os.ld with
  | setDone | detach | exited => exact hne (h.ld.all (by simp [hl]))
  | _ =>
      rw [hl, OnSchedule] at hdue
      omega

/-- In every state, processes that wait are not at their ends. -/
theorem PcOk.of_run (hsize : ∀ p, 1 ≤ cfg.codeSize p) {ts : List (Thread cfg.numCpus × CStr)}
    (hrun : (simSystem cfg).Run ts s) : PcOk s := by
  refine hrun.invariant ?_ fun s t s' hs hst => hs.step hst
  rintro s rfl
  exact PcOk.boot hsize

/-- In every state, the loader is on its schedule. -/
theorem ArrivalOk.of_run {ts : List (Thread cfg.numCpus × CStr)} (hrun : (simSystem cfg).Run ts s) :
    ∃ calls, ArrivalOk s calls := by
  obtain ⟨calls, hcalls⟩ := hrun.recording Sim.addCalls
  have hinit (s : Sim cfg) (hs : s = bootSim cfg) : ArrivalOk s [] := hs ▸ ArrivalOk.boot cfg
  exact ⟨calls, hcalls.invariant_recording hinit fun s calls t s' h hst => h.step hst⟩

/-- **A step of any thread wastes no time slot**, where a new one has work in reach. -/
theorem OnTime.step {b e : ℕ} (hplain : cfg.Plain) {ts : List (Thread cfg.numCpus × CStr)}
    (hrun : (simSystem cfg).Run ts s) (h : OnTime b e s.os) {t : Thread cfg.numCpus × CStr}
    (hst : simStep s t = some s')
    (havail : s.os.clock.Ticks cfg.devList s'.os.clock → Avail s'.os) : OnTime b e s'.os := by
  obtain ⟨t, name⟩ := t
  have hthreads := ThreadsOk.of_run hrun
  have hpcs := PcOk.of_run hplain.codeSize hrun
  cases t with
  | cpu id =>
      rcases os_of_simCpuStep hpcs.exec hplain.noKillall hst with ⟨-, hos⟩ | ⟨-, hos⟩
      · rwa [hos]
      · exact h.cpuStep (hthreads.cpu id) hpcs.exec.pc_le
          (fun prio p hp => hpcs.waits p (Or.inr (Or.inl ⟨prio, hp⟩))) (cpuStep_cases hos)
  | ld =>
      obtain ⟨os, hos, rfl⟩ := Option.map_eq_some_iff.mp hst
      exact h.ldStep (ldStep_cases hos)
  | timer =>
      obtain ⟨os, hos, rfl⟩ := Option.map_eq_some_iff.mp hst
      obtain ⟨clock, hclock, rfl⟩ := Option.map_eq_some_iff.mp hos
      exact h.timerStep hthreads.cpu hthreads.barrier hclock havail
  | main =>
      obtain ⟨os, hos, rfl⟩ := Option.map_eq_some_iff.mp hst
      rw [osStep] at hos
      split at hos
      · obtain rfl := Option.some.inj hos
        exact h.congr rfl rfl fun havail => havail.congr rfl rfl (fun _ _ => rfl) fun _ hne => hne
      · simp at hos

/-- A step is `_time++`, or leaves the time. -/
theorem time_of_simStep (hok : ThreadsOk s.os) {t : Thread cfg.numCpus × CStr}
    (hst : simStep s t = some s') :
    s.os.clock.Ticks cfg.devList s'.os.clock ∨ s'.os.clock.time = s.os.clock.time := by
  obtain ⟨t, name⟩ := t
  rcases simStep_cases hst with
    ⟨id, rfl, hcpu⟩ | ⟨rfl, os, hld, rfl⟩ | ⟨rfl, clock, hclock, rfl⟩ | ⟨rfl, rfl⟩
  · exact Or.inr (hcpu.rank_lt hok).1
  · exact Or.inr (hld.simRank_lt hok).1
  · exact (timerStep_rank_lt hclock).imp_right And.left
  · exact Or.inr rfl

/-- After `_time++` the timer lets all devices continue, and every CPU is in `next_slot` or gone. -/
theorem cpus_of_tick (hok : ThreadsOk s.os) {t : Thread cfg.numCpus × CStr}
    (hst : simStep s t = some s') (htick : s.os.clock.Ticks cfg.devList s'.os.clock) :
    (∃ fsh event, s'.os.clock.label = .release cfg.devList fsh event) ∧
      ∀ id, (s'.os.cpu id).label = .exited ∨
        ((s'.os.cpu id).label = .slotWait ∧ (s'.os.clock.dev (.cpu id)).done = true) := by
  have htime := htick.time_eq
  obtain ⟨fsh, event, hl, hclock⟩ := htick
  have hcpu : s'.os.cpu = s.os.cpu := by
    obtain ⟨t, name⟩ := t
    rcases simStep_cases hst with
      ⟨id, rfl, hcpu⟩ | ⟨rfl, os, hld, rfl⟩ | ⟨rfl, clock, -, rfl⟩ | ⟨rfl, rfl⟩
    · exact absurd htime (by have := (hcpu.rank_lt hok).1; omega)
    · exact hld.frame.1
    · rfl
    · rfl
  refine ⟨⟨fsh, event, by rw [hclock]⟩, fun id => ?_⟩
  rw [hcpu, hclock]
  exact cpu_of_incr (hok.cpu id) hok.barrier hl

/-- Program counters only move forward. -/
theorem pc_mono {t : Thread cfg.numCpus × CStr} (hst : simStep s t = some s') (p : cfg.Proc) :
    s.os.pc p ≤ s'.os.pc p := by
  obtain ⟨t, name⟩ := t
  rcases simStep_cases hst with
    ⟨id, rfl, hcpu⟩ | ⟨rfl, os, hld, rfl⟩ | ⟨rfl, clock, -, rfl⟩ | ⟨rfl, rfl⟩
  · cases hcpu with
    | exec proc τ ins hx hins =>
        rw [Sim.pc_exec]
        by_cases hp : p = proc
        · subst hp
          simp
        · rw [Function.update_of_ne hp]
    | other os hos hrun hend => exact (congrFun (hos.pc_eq hrun) p).ge
    | _ => exact le_rfl
  · exact (congrFun hld.frame.2 p).ge
  · exact le_rfl
  · exact le_rfl

/-- Nothing is wasted since the last arrival, in every run. -/
theorem OnTime.of_run (hplain : cfg.Plain) (hslot : ∀ p, cfg.arrival p ≤ slot)
    {ts : List (Thread cfg.numCpus × CStr)} (hrun : (simSystem cfg).Run ts s)
    (htime : slot < s.os.clock.time) {p : cfg.Proc} (hp : s.os.pc p < cfg.codeSize p) :
    OnTime (slot + 1) 0 s.os := by
  induction hrun with
  | init hs =>
      obtain rfl : _ = bootSim cfg := hs
      simp [bootSim, bootOs] at htime
  | @step ts s t s' hrun hst ih =>
      have hok := ThreadsOk.of_run hrun
      have havail (htick : s.os.clock.Ticks cfg.devList s'.os.clock) : Avail s'.os := by
        have hinv := OsInv.of_run hplain.cpus hplain.room hplain.noKillall (hrun.step hst)
        obtain ⟨calls, harrival⟩ := ArrivalOk.of_run (hrun.step hst)
        obtain ⟨⟨fsh, event, hl⟩, hcpus⟩ := cpus_of_tick hok hst htick
        exact avail_of_tick hplain.cpus hinv hl hcpus (loaded_of_arrivals hslot harrival htime) hp
      have hbefore := (pc_mono hst p).trans_lt hp
      by_cases hlt : slot < s.os.clock.time
      · exact (ih hlt hbefore).step hplain hrun hst havail
      · rcases time_of_simStep hok hst with htick | hsame
        · have htime' := htick.time_eq
          exact ⟨by omega, fun _ => havail htick⟩
        · omega

/-- The slots that the programs need, after slot `slot`. -/
def SimConfig.work (cfg : SimConfig) : ℕ := ∑ p, cfg.codeSize p

/-- A process at its end has executed its program. -/
theorem ExecOk.executed_eq (h : ExecOk s) {p : cfg.Proc} (hp : cfg.codeSize p ≤ s.os.pc p) :
    s.executed p = cfg.text p := by
  rw [h.executed, List.take_of_length_le]
  rwa [cfg.text_length]

/-- Once so many slots have passed, a program has been executed. -/
theorem executed_of_time_le (hplain : cfg.Plain) (hslot : ∀ p, cfg.arrival p ≤ slot)
    {ts : List (Thread cfg.numCpus × CStr)} (hrun : (simSystem cfg).Run ts s)
    (htime : slot + 1 + cfg.work ≤ s.os.clock.time) (p : cfg.Proc) :
    s.executed p = cfg.text p := by
  have hexec := ExecOk.of_run hrun
  refine hexec.executed_eq ?_
  by_contra hlt
  rw [not_le] at hlt
  have hle := (OnTime.of_run hplain hslot hrun (by omega) hlt).1
  have hsum : s.os.executed < cfg.work :=
    Finset.sum_lt_sum (fun q _ => hexec.pc_le q) ⟨p, Finset.mem_univ p, hlt⟩
  omega

/-- **The time by which all programs have been executed**: for any number of CPUs from one on, in
every interleaving of at most `MAX_QUEUE_SIZE` programs that have an instruction each and no
`killall`, once `_time` has passed the last arrival by one slot for every instruction of every
program, every program has executed exactly its instructions, in order. -/
theorem programs_finish_by (hplain : cfg.Plain) (hslot : ∀ p, cfg.arrival p ≤ slot)
    {ts : List (Thread cfg.numCpus × CStr)} (hrun : (simSystem cfg).Run ts s)
    (htime : slot + 1 + cfg.work ≤ s.os.clock.time) : ∀ p, s.executed p = cfg.text p :=
  executed_of_time_le hplain hslot hrun htime

/-- Where every thread is gone, every program has been executed. -/
theorem executed_of_left (hplain : cfg.Plain) {ts : List (Thread cfg.numCpus × CStr)}
    (hrun : (simSystem cfg).Run ts s) (hleft : s.os.Left) (p : cfg.Proc) :
    s.executed p = cfg.text p := by
  have hinv := OsInv.of_run hplain.cpus hplain.room hplain.noKillall hrun
  have hdone := ((hinv.cpu ⟨0, hplain.cpus⟩).left (Or.inr (hleft.1 _))).2
  have hlate := hinv.ld.late_of_done hdone
  have hempty := hinv.quiet hlate fun id => Or.inr (Or.inr (hleft.1 id))
  obtain ⟨place, hplace⟩ := hinv.located
  refine (ExecOk.of_run hrun).executed_eq ?_
  rcases hp : place p with _ | _ | id | _
  · have hle := (hplace.loader p).mp hp
    exact absurd p.isLt (by rw [hlate.1] at hle; omega)
  · have hmem := (hplace.queue (cfg.prio p) p).mpr ⟨hp, rfl⟩
    rw [hempty] at hmem
    cases hmem
  · have hheld := (hplace.cpu id p).mpr hp
    have hnone := ((hinv.cpu id).left (Or.inr (hleft.1 id))).1
    simp [Cpu.holds, hleft.1 id, hnone] at hheld
  · exact (hplace.finished p hp).ge

/-- All programs come to their ends, from every reachable state on. -/
theorem executed_comes_about (hplain : cfg.Plain) (hslot : ∀ p, cfg.arrival p ≤ slot)
    {s₀ : Sim cfg} {ts₀ : List (Thread cfg.numCpus × CStr)}
    (hrun₀ : (simSystem cfg).Run ts₀ s₀) :
    Inevitable ((simSystem cfg).startingAt s₀) Thread.works
      (fun s => ∀ p, s.executed p = cfg.text p)
      ((slot + 1 + cfg.work) * (11 * cfg.numCpus + 11 + 1)) := by
  refine comes_about hrun₀ (fun hrun hleft _ => ?_) fun hrun htime => ?_
  · exact executed_of_left hplain (hrun₀.append hrun) hleft
  · exact executed_of_time_le hplain hslot (hrun₀.append hrun) (by omega)

/-- **All programs are executed**, whatever the order of the threads: under the same conditions,
some thread other than `main` can take a step until they are, and no run with so many of these steps
leaves an instruction out. -/
theorem programs_finish (hplain : cfg.Plain) (hslot : ∀ p, cfg.arrival p ≤ slot) :
    Inevitable (simSystem cfg) Thread.works (fun s => ∀ p, s.executed p = cfg.text p)
      ((slot + 1 + cfg.work) * (11 * cfg.numCpus + 11 + 1)) :=
  executed_comes_about hplain hslot (Run.init rfl)

/-! ### One program -/

/-- One CPU, slices of two calls, and one program of three instructions. -/
def threeInstructions : SimConfig where
  numCpus := 1
  timeSlot := 2
  numProcesses := 1
  startTime _ := 0
  prio _ := 0
  codeSize _ := 3
  path _ := [112#8]
  text _ := List.replicate 3 { opcode := .calc }
  text_length _ := rfl

/-- Its CPU, the only one of the example. -/
def threeInstructionsCpu : Fin threeInstructions.numCpus := ⟨0, Nat.one_pos⟩

/-- The program is put back after two calls, and ends in its second slice. -/
def threeInstructionsRun : List (Thread threeInstructions.numCpus × CStr) :=
  let cpu := Thread.cpu threeInstructionsCpu
  slotOf cpu 5 6 1 ++ slotOf cpu 3 5 0 ++ slotOf cpu 0 8 0 ++ [(cpu, [])]

/-- It meets the conditions. -/
theorem plain_threeInstructions : threeInstructions.Plain where
  cpus := Nat.one_pos
  room := by decide
  noKillall := by
    intro p ins hins
    rw [List.eq_of_mem_replicate hins]
    rfl
  codeSize := by decide

/-- The CPU finds nothing and leaves, and the timer moves on once more. -/
def threeInstructionsEnd : List (Thread threeInstructions.numCpus × CStr) :=
  (List.replicate 3 (Thread.cpu threeInstructionsCpu) ++ List.replicate 8 Thread.timer).map
    fun t => (t, [])

/-- The program arrives in slot 0 and has been executed in slot 4. -/
theorem programs_finish_by_threeInstructions : ∃ s : Sim threeInstructions,
    (simSystem _).Run (threeInstructionsRun ++ threeInstructionsEnd) s ∧ s.os.clock.time = 4 ∧
      ∀ p, s.executed p = threeInstructions.text p := by
  have hstate : ((threeInstructionsRun ++ threeInstructionsEnd).foldlM simStep (bootSim _)).map
      (fun (s : Sim threeInstructions) => s.os.clock.time) = some 4 := by
    decide +kernel
  obtain ⟨s, hs, htime⟩ := Option.map_eq_some_iff.mp hstate
  have hrun : (simSystem threeInstructions).Run (threeInstructionsRun ++ threeInstructionsEnd) s :=
    Run.of_foldlM (fun _ _ _ h => h) rfl hs
  have harrival : ∀ p, threeInstructions.arrival p ≤ 0 := by decide
  exact ⟨s, hrun, htime, programs_finish_by plain_threeInstructions harrival hrun htime.ge⟩

/-- Its three instructions are executed in every order, within 92 steps. -/
theorem programs_finish_threeInstructions :
    Inevitable (simSystem threeInstructions) Thread.works
      (fun s => ∀ p, s.executed p = threeInstructions.text p) (4 * 23) := by
  have harrival : ∀ p, threeInstructions.arrival p ≤ 0 := by decide
  exact programs_finish plain_threeInstructions harrival

end OsSim
