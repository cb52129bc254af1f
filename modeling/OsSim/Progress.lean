import OsSim.Arrival
import OsSim.Lib.Rounds
import OsSim.Threads

/-!
# The Simulation Goes On

Three loops wait: those of `next_slot`, of the timer for a device, and of `main` for the threads.
Wherever the simulation is, some thread other than `main` is not waiting, or they are all gone; and
the threads cannot go on in one time slot for ever, since each step before the next `_time++` uses
up some of what they can still do in it.

## What the steps are

The steps are those of `simSystem`. Instructions do nothing to memory there, and so are always
defined; and a `killall` instruction is one step, whose loop over the name has ended. A `killall`
whose name loop does not end is a CPU that stays in its time slot for ever, and is not among these
runs (`NameLoop`).

## How the argument goes

The timer can take a step unless it is gone or waits for a device; a device that it waits for has
not called `next_slot` yet, and its thread can take one (`somebody_goes_on`).

For the bound, `Sim.rank` adds up what all threads can still do before they wait for the next slot:
a CPU passes each place of its loop at most once in a slot, and so does the loader, and the timer
goes once through its devices. Every step makes the rank smaller, or is `_time++` (`simRounds`).
`Lib.Rounds` has the rest: a system with a rank that is bounded between the ticks of a clock takes
so many steps in so many ticks, and what holds from some tick on comes about.

## Main results

* `never_stuck`: **the simulation never gets stuck**.
* `simRounds`: every step of a thread lowers the rank, or is `_time++`.
* `comes_about`: what holds from some time slot on comes about.
* `steps_le`: **the steps of a run are bounded by its time slots**.
-/

namespace OsSim

open TransitionSystem

/-! ### Somebody can go on -/

section Os

variable {cfg : OsConfig} {s : Os cfg}

/-- The timer goes on unless it is gone or waits for a device. -/
theorem timerStep_enabled {δ : Type} [DecidableEq δ] (devList : List δ) (stop : Bool)
    (c : Clock δ) : (timerStep devList stop c).isSome ∨ c.label = .exited ∨
      ∃ d rest fsh event, c.label = .wait (d :: rest) fsh event ∧ (c.dev d).ready = false := by
  rw [timerStep]
  split
  · exact Or.inl (by split <;> rfl)
  · exact Or.inl rfl
  · rename_i d rest fsh event hl
    by_cases hready : (c.dev d).ready = true
    · exact Or.inl (by simp [hready])
    · exact Or.inr (Or.inr ⟨d, rest, fsh, event, hl, by simpa using hready⟩)
  · exact Or.inl rfl
  · exact Or.inl rfl
  · exact Or.inl (by split <;> rfl)
  · exact Or.inr (Or.inl ‹_›)

/-- A CPU that the timer waits for can go on. -/
theorem cpuStep_enabled (h : ThreadsOk s) {id : Fin cfg.numCpus}
    (hready : (s.clock.dev (.cpu id)).ready = false) : (cpuStep s id).isSome := by
  obtain ⟨hdone, hfsh⟩ := Bool.or_eq_false_iff.mp hready
  have hhand := (h.cpuPlaced id).hand
  have hgone : (s.cpu id).label ≠ .exited := by
    intro hl
    rw [(h.cpuPlaced id).gone hl] at hfsh
    cases hfsh
  rw [cpuStep]
  rcases hx : s.cpu id with ⟨label, proc, t⟩
  rw [hx] at hhand hgone
  cases label with
  | exited => exact absurd rfl hgone
  | putRunning | putReady | run =>
      rcases proc with _ | proc
      · exact absurd rfl (hhand (by simp))
      · rfl
  | top =>
      rcases proc with _ | proc
      · rfl
      · simp only
        split_ifs <;> rfl
  | recheck =>
      rcases proc with _ | proc
      · simp only
        split_ifs <;> rfl
      · rfl
  | slotWait => simp [hdone]
  | _ => rfl

/-- So can the loader. -/
theorem ldStep_enabled (h : ThreadsOk s) (hready : (s.clock.dev .ld).ready = false) :
    (ldStep s).isSome := by
  obtain ⟨hdone, hfsh⟩ := Bool.or_eq_false_iff.mp hready
  have hloading := h.ldPlaced.loading
  have hgone : s.ld ≠ .exited := by
    intro hl
    rw [h.ldPlaced.gone hl] at hfsh
    cases hfsh
  rw [ldStep]
  cases hl : s.ld with
  | exited => exact absurd hl hgone
  | top =>
      simp only
      split_ifs <;> rfl
  | checkTime =>
      have hi := hloading (by simp [hl])
      simp only [dif_pos hi]
      split_ifs <;> rfl
  | addRunning | addReady => simp [hloading (by simp [hl])]
  | waitSlot | nextSlot => simp [hdone]
  | _ => rfl

/-- The timer is gone only when every other thread is. -/
theorem ThreadsOk.left_of_exited (h : ThreadsOk s) (hl : s.clock.label = .exited) : s.Left := by
  have hcount := h.count
  rw [TimerCount, hl] at hcount
  simp only [cfg.devList_eq] at hcount
  refine ⟨fun id => (h.cpu id).fsh (hcount _ ?_), h.ld.fsh (hcount _ List.mem_cons_self)⟩
  simp

end Os

variable {cfg : SimConfig} {s s' : Sim cfg}

/-- Where a CPU of `Os` could go on, `run` can, whatever a `killall` finds. -/
theorem simCpuStep_enabled {id : Fin cfg.numCpus} (h : (cpuStep s.os id).isSome) (name : CStr) :
    (simCpuStep s id name).isSome := by
  rw [simCpuStep]
  split
  · split
    · rfl
    · split <;> rfl
  · split
    · rfl
    · simpa using h
  · simpa using h

/-- Whether a step is possible does not depend on what a `killall` finds. -/
theorem simStep_name {t : Thread cfg.numCpus} {name : CStr} (h : simStep s (t, name) = some s')
    (name' : CStr) : ∃ s'', simStep s (t, name') = some s'' := by
  cases t with
  | cpu id =>
      rw [simStep, simCpuStep] at h
      simp only [simStep, simCpuStep]
      split at h
      · split at h
        · exact ⟨_, rfl⟩
        · exact ⟨s', h⟩
      · exact ⟨s', h⟩
      · exact ⟨s', h⟩
  | ld | timer | main => exact ⟨s', h⟩

/-- The timer, or the device that it waits for, can go on. -/
theorem somebody_goes_on (h : ThreadsOk s.os) :
    (s.os.Left ∧ s.os.clock.label = .exited) ∨
      ∃ t, t ≠ .main ∧ ∀ name, ∃ s', simStep s (t, name) = some s' := by
  rcases timerStep_enabled cfg.devList s.os.timerStop s.os.clock with
    hst | hl | ⟨d, rest, fsh, event, -, hready⟩
  · refine Or.inr ⟨.timer, by simp, fun name => Option.isSome_iff_exists.mp ?_⟩
    simpa [simStep, osStep] using hst
  · exact Or.inl ⟨h.left_of_exited hl, hl⟩
  · -- the timer waits for `d`
    refine Or.inr ?_
    cases d with
    | cpu id =>
        refine ⟨.cpu id, by simp, fun name => Option.isSome_iff_exists.mp ?_⟩
        exact simCpuStep_enabled (cpuStep_enabled h hready) name
    | ld =>
        refine ⟨.ld, by simp, fun name => Option.isSome_iff_exists.mp ?_⟩
        simpa [simStep, osStep] using ldStep_enabled h hready

/-- **The simulation never gets stuck**: in every state of every interleaving of any number of CPUs,
with `killall` instructions as single steps, the CPUs, the loader and the timer are all gone, or one
of them can take a step, whatever a `killall` finds. What instructions do to memory is left out. -/
theorem never_stuck {ts : List (Thread cfg.numCpus × CStr)} (hrun : (simSystem cfg).Run ts s) :
    (s.os.Left ∧ s.os.clock.label = .exited) ∨
      ∃ t, t ≠ .main ∧ ∀ name, ∃ s', simStep s (t, name) = some s' :=
  somebody_goes_on (ThreadsOk.of_run hrun)

/-- After two time slots of these programs, some thread can go on. -/
theorem never_stuck_unsorted : ∃ s : Sim unsortedStarts,
    (simSystem _).Run unsortedStartsRun s ∧ s.os.clock.time = 2 ∧
      ∃ t, t ≠ .main ∧ ∀ name, ∃ s', simStep s (t, name) = some s' := by
  have hstate : (unsortedStartsRun.foldlM simStep (bootSim unsortedStarts)).map
      (fun s => (s.os.clock.time, (s.os.cpu ⟨0, Nat.one_pos⟩).label)) = some (2, .top) := by
    decide +kernel
  obtain ⟨s, hs, hboth⟩ := Option.map_eq_some_iff.mp hstate
  obtain ⟨htwo, hlabel⟩ := Prod.mk.inj hboth
  have hrun : (simSystem unsortedStarts).Run unsortedStartsRun s :=
    Run.of_foldlM (fun _ _ _ h => h) rfl hs
  -- the CPU has the second program to dispatch
  refine ⟨s, hrun, htwo, (never_stuck hrun).resolve_left fun hleft => ?_⟩
  have hexited := hleft.1.1 ⟨0, Nat.one_pos⟩
  rw [hlabel] at hexited
  cases hexited

/-! ### What a thread can still do in a time slot -/

/-- How many steps a CPU at `label` can still take before it waits for the next time slot.
`fetched` is whether `run` has its instruction, and `due` whether a wait ends in this slot. -/
def CpuLabel.rank (fetched due : Bool) : CpuLabel → ℕ
  | .slotWait => if due then 9 else 0
  | .top => 8
  | .putRunning => 7
  | .putReady => 6
  | .getFirst | .getFinished | .getPut => 5
  | .recheck => 4
  | .run => if fetched then 2 else 3
  | .slotSet | .detach => 1
  | .exited => 0

/-- How many steps the loader at such a place can still take before it waits for the next time slot.
-/
def LdLabel.rank (due : Bool) : LdLabel → ℕ
  | .waitSlot | .nextSlot => if due then 6 else 0
  | .top => 5
  | .checkTime => 4
  | .addRunning => 3
  | .addReady | .setDone => 2
  | .waitSet | .nextSet | .detach => 1
  | .exited => 0

/-- How many steps the timer with `n` devices can still take before `_time++`. -/
def TimerLabel.rank {δ : Type} (n : ℕ) : TimerLabel δ → ℕ
  | .release rest _ _ => rest.length + n + 3
  | .top => n + 2
  | .wait rest _ _ => rest.length + 1
  | .incr _ _ | .exited => 0

/-- Device `d` is in this time slot, or continues in it. -/
def Clock.due {δ : Type} [DecidableEq δ] (c : Clock δ) (d : δ) : Bool := c.wakeTime d = c.time

/-- What CPU `id` can still do in this time slot, in steps. -/
def Sim.cpuRank (s : Sim cfg) (id : Fin cfg.numCpus) : ℕ :=
  (s.os.cpu id).label.rank (s.fetched id).isSome (s.os.clock.due (.cpu id))

/-- What all threads but `main` can still do before `_time++`, in steps. -/
def Sim.rank (s : Sim cfg) : ℕ :=
  ∑ id, s.cpuRank id + s.os.ld.rank (s.os.clock.due .ld) +
    s.os.clock.label.rank cfg.devList.length

/-- A CPU takes at most nine steps in a time slot. -/
theorem CpuLabel.rank_le (fetched due : Bool) (l : CpuLabel) : l.rank fetched due ≤ 9 := by
  cases l <;> cases fetched <;> cases due <;> decide

/-- The loader takes at most six. -/
theorem LdLabel.rank_le (due : Bool) (l : LdLabel) : l.rank due ≤ 6 := by
  cases l <;> cases due <;> decide

/-- The devices are the CPUs and the loader. -/
theorem OsConfig.length_devList (cfg : OsConfig) : cfg.devList.length = cfg.numCpus + 1 := by
  simp [cfg.devList_eq]

/-- The timer waits for, and lets continue, devices of its list. -/
theorem ThreadsOk.timer_rank_le {s : Os cfg.toOsConfig} (h : ThreadsOk s) :
    s.clock.label.rank cfg.devList.length ≤ 2 * cfg.numCpus + 5 := by
  have hlength := cfg.length_devList
  have hbarrier := h.barrier
  rw [Barrier] at hbarrier
  cases hl : s.clock.label with
  | top =>
      rw [TimerLabel.rank]
      omega
  | wait rest fsh event =>
      simp only [hl] at hbarrier
      have hle := hbarrier.1.length_le
      rw [TimerLabel.rank]
      omega
  | release rest fsh event =>
      simp only [hl] at hbarrier
      have hle := hbarrier.1.length_le
      rw [TimerLabel.rank]
      omega
  | incr fsh event | exited => exact Nat.zero_le _

/-- All threads together take so many steps at most in a time slot. -/
theorem Sim.rank_le (h : ThreadsOk s.os) : s.rank ≤ 11 * cfg.numCpus + 11 := by
  have hcpus : ∑ id, s.cpuRank id ≤ 9 * cfg.numCpus := by
    calc ∑ id, s.cpuRank id ≤ ∑ _id : Fin cfg.numCpus, 9 :=
          Finset.sum_le_sum fun id _ => CpuLabel.rank_le _ _ _
      _ = 9 * cfg.numCpus := by simp [Nat.mul_comm]
  have hld := LdLabel.rank_le (s.os.clock.due .ld) s.os.ld
  have htimer := h.timer_rank_le
  rw [Sim.rank]
  omega

/-! ### Every step uses some of it up -/

/-- A device whose flags are the same is due as before. -/
theorem Clock.due_congr {δ : Type} [DecidableEq δ] {c c' : Clock δ} {d : δ}
    (hlabel : c'.label = c.label) (htime : c'.time = c.time) (hdev : c'.dev d = c.dev d) :
    c'.due d = c.due d := by
  rw [due, due, wakeTime_congr hlabel htime hdev, htime]

/-- A device that is not in `next_slot` is in this time slot. -/
theorem Clock.due_of_awake {δ : Type} [DecidableEq δ] {c : Clock δ} {d : δ}
    (h : (c.dev d).done = false) : c.due d = true := by
  simp [due, wakeTime_of_awake h]

/-- A device that calls `next_slot` is not due in this slot any more. -/
theorem Clock.due_signal {δ : Type} [DecidableEq δ] {devList : List δ} {c : Clock δ} {d : δ}
    (h : Barrier devList c) (hready : (c.dev d).ready = false) :
    (c.signal d).due d = false := by
  rw [due, wakeTime_signal h hready]
  simp [signal]

/-- A CPU that is not in `next_slot` and not gone is not ready. -/
theorem CpuOk.ready_eq_false {s : Os cfg.toOsConfig} {id : Fin cfg.numCpus} (h : CpuOk s id)
    (hwait : (s.cpu id).label ≠ .slotWait) (hexited : (s.cpu id).label ≠ .exited) :
    (s.clock.dev (.cpu id)).ready = false := by
  rw [TimerId.ready, Bool.or_eq_false_iff]
  refine ⟨?_, ?_⟩
  · by_contra hflag
    exact hwait (h.flag (by simpa using hflag))
  · by_contra hfsh
    exact hexited (h.fsh (by simpa using hfsh))

/-- A step of CPU `id` of `Os`, whatever is fetched before it and after it. -/
theorem CpuStep.rank_lt {s s' : Os cfg.toOsConfig} {id : Fin cfg.numCpus} (h : CpuStep s id s')
    (hok : ThreadsOk s) (fetched fetched' : Bool) :
    (s'.cpu id).label.rank fetched' (s'.clock.due (.cpu id)) <
      (s.cpu id).label.rank fetched (s.clock.due (.cpu id)) := by
  cases h with
  | goto x x' hx hgo =>
      rw [Os.cpu_setCpu_self, hx]
      cases hgo with
      | wake proc t hflag => simp [CpuLabel.rank, Clock.due_of_awake hflag]
      | dispatch proc t => cases fetched' <;> simp [CpuLabel.rank]
      | _ => simp [CpuLabel.rank]
  | get x hx hlabel =>
      have hfive : x.label.rank fetched (s.clock.due (.cpu id)) = 5 := by
        rcases hlabel with hl | hl | hl <;> rw [hl, CpuLabel.rank]
      rw [Os.cpu_setCpu_self, hx, hfive]
      rcases x.label_got (getMlqProc s.mlqReadyQueue).1 with hl | hl <;> simp [hl, CpuLabel.rank]
  | putRunning proc t hx => simp [hx, CpuLabel.rank]
  | putReady proc t hx => simp [hx, CpuLabel.rank]
  | run proc t hx => cases fetched <;> simp [hx, CpuLabel.rank]
  | slotSet proc t hx =>
      have hready := (hok.cpu id).ready_eq_false (by simp [hx]) (by simp [hx])
      have hdue := Clock.due_signal hok.barrier hready
      simp only [Os.cpu_setCpu_self, Os.clock_setCpu, hx, CpuLabel.rank, hdue]
      exact Nat.one_pos
  | detach proc t hx => simp [hx, CpuLabel.rank]

/-- A step of the loader uses up some of what it can still do. -/
theorem LdStep.rank_lt {s s' : Os cfg.toOsConfig} (h : LdStep s s') (hok : ThreadsOk s) :
    s'.ld.rank (s'.clock.due .ld) < s.ld.rank (s.clock.due .ld) := by
  cases h with
  | goto l l' hl hgo =>
      rw [hl]
      cases hgo with
      | wake hflag => simp [LdLabel.rank, Clock.due_of_awake hflag]
      | resume hflag => simp [LdLabel.rank, Clock.due_of_awake hflag]
      | _ => simp [LdLabel.rank]
  | waitSet hl =>
      have hready := hok.ld.ready_eq_false (by simp [hl]) (by simp [hl]) (by simp [hl])
      rw [hl, Clock.due_signal hok.barrier hready]
      exact Nat.one_pos
  | nextSet hl =>
      have hready := hok.ld.ready_eq_false (by simp [hl]) (by simp [hl]) (by simp [hl])
      rw [hl, Clock.due_signal hok.barrier hready]
      exact Nat.one_pos
  | addRunning hi hl | addReady hi hl | setDone hl | detach hl => simp [hl, LdLabel.rank]

/-- `_time++`: the timer has found every device ready, and lets them all continue. -/
def Clock.Ticks {δ : Type} (devList : List δ) (c c' : Clock δ) : Prop :=
  ∃ fsh event, c.label = .incr fsh event ∧
    c' = { c with time := c.time + 1, label := .release devList fsh event }

/-- The time is the next one. -/
theorem Clock.Ticks.time_eq {δ : Type} {devList : List δ} {c c' : Clock δ}
    (h : c.Ticks devList c') : c'.time = c.time + 1 := by
  obtain ⟨fsh, event, -, rfl⟩ := h
  rfl

/-- A step of the timer other than `_time++` uses up some of what it can still do. -/
theorem timerStep_rank_lt {δ : Type} [DecidableEq δ] {devList : List δ} {stop : Bool}
    {c c' : Clock δ} (h : timerStep devList stop c = some c') :
    c.Ticks devList c' ∨
      c'.time = c.time ∧ c'.label.rank devList.length < c.label.rank devList.length := by
  rw [timerStep] at h
  split at h
  · rename_i hl
    split at h <;> obtain rfl := Option.some.inj h <;>
      exact Or.inr ⟨rfl, by simp [hl, TimerLabel.rank]⟩
  · rename_i hl
    obtain rfl := Option.some.inj h
    exact Or.inr ⟨rfl, by simp [hl, TimerLabel.rank]⟩
  · rename_i hl
    split at h
    · obtain rfl := Option.some.inj h
      exact Or.inr ⟨rfl, by simp [hl, TimerLabel.rank]⟩
    · simp at h
  · rename_i fsh event hl
    exact Or.inl ⟨fsh, event, hl, (Option.some.inj h).symm⟩
  · rename_i d rest fsh event hl
    obtain rfl := Option.some.inj h
    refine Or.inr ⟨rfl, ?_⟩
    simp only [hl, TimerLabel.rank, List.length_cons]
    omega
  · rename_i hl
    split at h <;> obtain rfl := Option.some.inj h <;>
      exact Or.inr ⟨rfl, by simp [hl, TimerLabel.rank]⟩
  · simp at h

/-- No step of the timer but `_time++` makes a device due, or due no more. -/
theorem Clock.due_timerStep {δ : Type} [DecidableEq δ] {devList : List δ} {c c' : Clock δ} {d : δ}
    {stop : Bool} (h : Barrier devList c) (hmem : d ∈ devList) (hfsh : (c.dev d).fsh = false)
    (hst : timerStep devList stop c = some c') (htime : c'.time = c.time) : c'.due d = c.due d := by
  rw [due, due, wakeTime_timerStep h hmem hfsh hst, htime]

/-- A step of a CPU uses up some of what all threads can still do, and leaves the time. -/
theorem SimCpuStep.rank_lt {id : Fin cfg.numCpus} {name : CStr} (h : SimCpuStep s id name s')
    (hok : ThreadsOk s.os) : s'.os.clock.time = s.os.clock.time ∧ s'.rank < s.rank := by
  obtain ⟨hld, -, -, hother⟩ := h.frame
  have hclock : s'.os.clock.label = s.os.clock.label ∧ s'.os.clock.time = s.os.clock.time ∧
      ∀ d, d ≠ .cpu id → s'.os.clock.dev d = s.os.clock.dev d := by
    rcases h.clock with hc | hc | hc <;> rw [hc]
    · exact ⟨rfl, rfl, fun _ _ => rfl⟩
    · exact ⟨rfl, rfl, fun d hd => Function.update_of_ne hd _ _⟩
    · exact ⟨rfl, rfl, fun d hd => Function.update_of_ne hd _ _⟩
  obtain ⟨hlabel, htime, hdev⟩ := hclock
  have hfetched (id' : Fin cfg.numCpus) (hid : id' ≠ id) : s'.fetched id' = s.fetched id' := by
    cases h with
    | fetch proc t ins hx hnone hins => exact Function.update_of_ne hid _ _
    | exec proc t ins hx hins =>
        rw [Sim.fetched_exec]
        exact Function.update_of_ne hid _ _
    | _ => rfl
  have hself : s'.cpuRank id < s.cpuRank id := by
    rcases h.threads with ⟨proc, t, ins, hx, hnone, -, rfl⟩ | ⟨os, hos, hsame⟩
    · simp [Sim.cpuRank, hx, hnone, CpuLabel.rank]
    · rw [Sim.cpuRank, hsame.cpu, hsame.clock]
      exact hos.rank_lt hok _ _
  have hcpus : ∑ id', s'.cpuRank id' < ∑ id', s.cpuRank id' := by
    refine Finset.sum_lt_sum (fun id' _ => ?_) ⟨id, Finset.mem_univ id, hself⟩
    by_cases hid : id' = id
    · exact hid ▸ hself.le
    · have hd : Device.cpu id' ≠ .cpu id := fun heq => hid (Device.cpu.inj heq)
      rw [Sim.cpuRank, Sim.cpuRank, hother id' hid, hfetched id' hid,
        Clock.due_congr hlabel htime (hdev _ hd)]
  refine ⟨htime, ?_⟩
  rw [Sim.rank, Sim.rank, hld, hlabel, Clock.due_congr hlabel htime (hdev .ld (by simp))]
  omega

/-- A step of the loader leaves the CPUs as they are, and what they can still do. -/
theorem LdStep.simRank_lt {os : Os cfg.toOsConfig} (h : LdStep s.os os) (hok : ThreadsOk s.os) :
    os.clock.time = s.os.clock.time ∧ ({ s with os := os } : Sim cfg).rank < s.rank := by
  have hclock : os.clock.label = s.os.clock.label ∧ os.clock.time = s.os.clock.time := by
    cases h <;> exact ⟨rfl, rfl⟩
  have hcpus (id : Fin cfg.numCpus) :
      ({ s with os := os } : Sim cfg).cpuRank id = s.cpuRank id := by
    obtain ⟨hcpu, -, hdev⟩ := h.cpu_frame id
    simp only [Sim.cpuRank, hcpu, Clock.due_congr hclock.1 hclock.2 hdev]
  have hlt := h.rank_lt hok
  refine ⟨hclock.2, ?_⟩
  simp only [Sim.rank, hcpus, hclock.1]
  omega

/-- Whether a CPU is due counts only where it waits. -/
theorem CpuLabel.rank_congr {fetched due due' : Bool} {l : CpuLabel}
    (h : l = .slotWait → due' = due) : l.rank fetched due' = l.rank fetched due := by
  cases l with
  | slotWait => rw [h rfl]
  | _ => rfl

/-- Whether the loader is due counts only where it waits. -/
theorem LdLabel.rank_congr {due due' : Bool} {l : LdLabel}
    (h : l = .waitSlot ∨ l = .nextSlot → due' = due) : l.rank due' = l.rank due := by
  cases l with
  | waitSlot => rw [h (Or.inl rfl)]
  | nextSlot => rw [h (Or.inr rfl)]
  | _ => rfl

/-- A step of the timer leaves what the others can still do, or is `_time++`. -/
theorem timerStep_simRank_lt (hok : ThreadsOk s.os) {clock : Clock (Device cfg.numCpus)}
    (h : timerStep cfg.devList s.os.timerStop s.os.clock = some clock) :
    s.os.clock.Ticks cfg.devList clock ∨ clock.time = s.os.clock.time ∧
      ({ s with os := { s.os with clock := clock } } : Sim cfg).rank < s.rank := by
  refine (timerStep_rank_lt h).imp_right fun ⟨htime, hlt⟩ => ⟨htime, ?_⟩
  have hcpus (id : Fin cfg.numCpus) :
      ({ s with os := { s.os with clock := clock } } : Sim cfg).cpuRank id = s.cpuRank id := by
    refine CpuLabel.rank_congr fun hl => ?_
    refine Clock.due_timerStep hok.barrier (by simp [cfg.devList_eq]) ?_ h htime
    by_contra hfsh
    have hexited := (hok.cpu id).fsh (by simpa using hfsh)
    rw [hl] at hexited
    cases hexited
  have hld : s.os.ld.rank (clock.due .ld) = s.os.ld.rank (s.os.clock.due .ld) := by
    refine LdLabel.rank_congr fun hl => ?_
    refine Clock.due_timerStep hok.barrier (by simp [cfg.devList_eq]) ?_ h htime
    by_contra hfsh
    have hexited := hok.ld.fsh (by simpa using hfsh)
    rw [hexited] at hl
    simp at hl
  simp only [Sim.rank, hcpus, hld]
  omega

/-! ### The bound -/

/-- The steps of the CPUs, the loader and the timer. -/
def Thread.works {n : ℕ} (t : Thread n × CStr) : Bool := t.1 ≠ .main

/-- **Every step of a thread uses some up**, or is `_time++`. -/
theorem simRounds (cfg : SimConfig) : Rounds (simSystem cfg) (fun s => ThreadsOk s.os)
    Thread.works (fun s => s.os.clock.time) Sim.rank (11 * cfg.numCpus + 11) where
  bound s hok := Sim.rank_le hok
  step := by
    rintro s ⟨t, name⟩ s' hok hst
    have hone : (if Thread.works (t, name) = true then 1 else 0) ≤ 1 := by split <;> simp
    rcases simStep_cases hst with
      ⟨id, rfl, hcpu⟩ | ⟨rfl, os, hld, rfl⟩ | ⟨rfl, clock, hclock, rfl⟩ | ⟨rfl, rfl⟩
    · obtain ⟨htime, hlt⟩ := hcpu.rank_lt hok
      exact Or.inr ⟨htime, by omega⟩
    · obtain ⟨htime, hlt⟩ := hld.simRank_lt hok
      exact Or.inr ⟨htime, by omega⟩
    · exact (timerStep_simRank_lt hok hclock).imp Clock.Ticks.time_eq fun ⟨htime, hlt⟩ =>
        ⟨htime, by omega⟩
    · exact Or.inr ⟨rfl, le_rfl⟩

/-- From a reachable state on, what holds when all threads are gone and what holds `R` time slots
later comes about. -/
theorem comes_about {s₀ : Sim cfg} {ts₀ : List (Thread cfg.numCpus × CStr)}
    (hrun₀ : (simSystem cfg).Run ts₀ s₀) {P : Sim cfg → Prop} {R : ℕ}
    (hends : ∀ {ts s}, ((simSystem cfg).startingAt s₀).Run ts s → s.os.Left →
      s.os.clock.label = .exited → P s)
    (htime : ∀ {ts s}, ((simSystem cfg).startingAt s₀).Run ts s →
      s₀.os.clock.time + R ≤ s.os.clock.time → P s) :
    Inevitable ((simSystem cfg).startingAt s₀) Thread.works P
      (R * (11 * cfg.numCpus + 11 + 1)) := by
  refine (simRounds cfg).inevitable_since (fun hrun => ThreadsOk.of_run (hrun₀.append hrun))
    (fun {ts s} hrun => ?_) htime
  rcases somebody_goes_on (ThreadsOk.of_run (hrun₀.append hrun)) with ⟨hleft, hl⟩ | ⟨t, ht, hst⟩
  · exact Or.inl (hends hrun hleft hl)
  · obtain ⟨s', hs'⟩ := hst []
    exact Or.inr ⟨(t, []), s', by simpa [Thread.works] using ht, hs'⟩

/-- **The steps of a run are bounded by its time slots**: in every interleaving, with `killall`
instructions as single steps, whose name loops end, the CPUs, the loader and the timer have taken at
most `11 * num_cpus + 12` steps for each value that `_time` has had. So no order of steps stays in
one time slot for ever. -/
theorem steps_le {ts : List (Thread cfg.numCpus × CStr)} (hrun : (simSystem cfg).Run ts s) :
    ts.countP Thread.works ≤ (s.os.clock.time + 1) * (11 * cfg.numCpus + 12) := by
  have hle := (simRounds cfg).countP_le ThreadsOk.of_run hrun
  rw [show 11 * cfg.numCpus + 11 + 1 = 11 * cfg.numCpus + 12 from rfl] at hle
  rw [Nat.succ_mul]
  omega

/-- After two time slots, one CPU, the loader and the timer have taken at most 69 steps. -/
theorem steps_le_unsorted : ∃ s : Sim unsortedStarts,
    (simSystem _).Run unsortedStartsRun s ∧ s.os.clock.time = 2 ∧
      unsortedStartsRun.countP Thread.works ≤ 3 * 23 := by
  have htime : (unsortedStartsRun.foldlM simStep (bootSim unsortedStarts)).map
      (fun s => s.os.clock.time) = some 2 := by
    decide +kernel
  obtain ⟨s, hs, htwo⟩ := Option.map_eq_some_iff.mp htime
  have hrun : (simSystem unsortedStarts).Run unsortedStartsRun s :=
    Run.of_foldlM (fun _ _ _ h => h) rfl hs
  have hle := steps_le hrun
  rw [htwo] at hle
  exact ⟨s, hrun, htwo, hle⟩

end OsSim
