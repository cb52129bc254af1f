import OsSim.Drain
import OsSim.Simulation
import Mathlib.Order.Monotone.Basic

/-!
# Arrival Times

The loader reads `current_time` without a lock while the timer thread moves it on. The barrier
makes the value it reads the time slot it is in: the timer moves on only when the loader is in
`next_slot` or gone, and moves on exactly once before it lets the loader continue.

## The schedule

`ld_routine` loads one process after the other, and calls `next_slot` until the time is that of its
start, and once more after it has added it. So a process arrives at its start time, but not before
the slot after the process before it; `arrivalTimes` is that recursion, for start times in any
order.

## How the argument goes

A loader in `next_slot` continues in a slot that is known beforehand: the next one, or the current
one if the timer has moved on and not yet let it go (`Clock.wakeTime`). No step of the timer changes
it, and no step of a CPU. The invariant says where on its schedule the loader is, in terms of this
slot (`OnSchedule`), and so says the same whether the loader waits or runs. Outside `next_slot` the
slot is the current time, and that is when it looks at `current_time` and calls `add_proc`.

## Main results

* `Clock.wakeTime_timerStep`: **the slot in which a device continues is known before the timer
  moves**.
* `ArrivalOk.step`: every step of a thread keeps the loader on its schedule.
* `arrivals_follow_config`: **arrival times follow the configuration**.
-/

namespace OsSim

open TransitionSystem

/-! ### The schedule of the loader -/

/-- The time slots in which processes of these start times arrive: each at its start time, but not
before the slot after the process before it. -/
def arrivalTimes (start : ℕ → ℕ) : ℕ → ℕ
  | 0 => start 0
  | i + 1 => max (start (i + 1)) (arrivalTimes start i + 1)

/-- The first slot in which the loader looks at a process. -/
def firstLook (start : ℕ → ℕ) : ℕ → ℕ
  | 0 => 0
  | i + 1 => arrivalTimes start i + 1

/-- A process arrives at its start time, or when the loader first looks at it, whichever is later.
-/
theorem arrivalTimes_eq_max (start : ℕ → ℕ) (i : ℕ) :
    arrivalTimes start i = max (start i) (firstLook start i) := by
  cases i with
  | zero => rw [arrivalTimes, firstLook, Nat.max_zero]
  | succ i => rw [arrivalTimes, firstLook]

/-- No process arrives before its start time. -/
theorem start_le_arrivalTimes (start : ℕ → ℕ) (i : ℕ) : start i ≤ arrivalTimes start i := by
  rw [arrivalTimes_eq_max]
  exact Nat.le_max_left _ _

/-- No process arrives before the loader looks at it. -/
theorem firstLook_le_arrivalTimes (start : ℕ → ℕ) (i : ℕ) :
    firstLook start i ≤ arrivalTimes start i := by
  rw [arrivalTimes_eq_max]
  exact Nat.le_max_right _ _

/-- Processes arrive in turn, one in a slot at most. -/
theorem strictMono_arrivalTimes (start : ℕ → ℕ) : StrictMono (arrivalTimes start) := by
  refine strictMono_nat_of_lt_succ fun i => ?_
  rw [arrivalTimes]
  exact Nat.lt_of_succ_le (Nat.le_max_right _ _)

/-- The start times as a sequence, continued with 0. -/
def OsConfig.start (cfg : OsConfig) (i : ℕ) : ℕ :=
  if h : i < cfg.numProcesses then cfg.startTime ⟨i, h⟩ else 0

/-- For the processes that there are, the sequence has their start times. -/
theorem OsConfig.start_of_lt (cfg : OsConfig) {i : ℕ} (h : i < cfg.numProcesses) :
    cfg.start i = cfg.startTime ⟨i, h⟩ := dif_pos h

/-- The time slot in which a process arrives, by the recursion over those before it. -/
def OsConfig.arrival (cfg : OsConfig) (p : cfg.Proc) : ℕ := arrivalTimes cfg.start p

/-! ### The slot in which a device continues -/

section WakeTime

variable {δ : Type} [DecidableEq δ] {devList : List δ} {c c' : Clock δ} {d : δ}

/-- The devices that the timer is letting continue. -/
def TimerLabel.releasing : TimerLabel δ → List δ
  | .release rest _ _ => rest
  | _ => []

/-- The time slot in which a device that is in `next_slot` continues: the next one, or the
current one if the timer has moved on already. For another device it is the current one. -/
def Clock.wakeTime (c : Clock δ) (d : δ) : ℕ :=
  if (c.dev d).done = true ∧ d ∉ c.label.releasing then c.time + 1 else c.time

/-- A device that is not in `next_slot`, or has been let go, is in the current slot. -/
theorem Clock.wakeTime_of_awake (h : (c.dev d).done = false) : c.wakeTime d = c.time := by
  rw [wakeTime, if_neg]
  simp [h]

/-- The slot depends on the time, the timer's place, and the flags of the device. -/
theorem Clock.wakeTime_congr (hlabel : c'.label = c.label) (htime : c'.time = c.time)
    (hdev : c'.dev d = c.dev d) : c'.wakeTime d = c.wakeTime d := by
  rw [wakeTime, wakeTime, hlabel, htime, hdev]

omit [DecidableEq δ] in
/-- The timer lets only devices in `next_slot` continue. -/
theorem Barrier.ready_of_releasing (h : Barrier devList c) (hd : d ∈ c.label.releasing) :
    (c.dev d).ready = true := by
  rw [Barrier] at h
  cases hl : c.label with
  | release rest fsh event =>
      rw [hl] at h hd
      exact h.2 d hd
  | top => simp [hl, TimerLabel.releasing] at hd
  | wait rest fsh event => simp [hl, TimerLabel.releasing] at hd
  | incr fsh event => simp [hl, TimerLabel.releasing] at hd
  | exited => simp [hl, TimerLabel.releasing] at hd

/-- A device that calls `next_slot` continues in the next time slot. -/
theorem Clock.wakeTime_signal (h : Barrier devList c) (hready : (c.dev d).ready = false) :
    (c.signal d).wakeTime d = c.time + 1 := by
  have hnot : d ∉ c.label.releasing := by
    intro hd
    rw [h.ready_of_releasing hd] at hready
    cases hready
  have hdone : ((c.signal d).dev d).done = true := by simp [Clock.signal]
  exact if_pos ⟨hdone, hnot⟩

/-- **The slot in which a device continues is known before the timer moves**, and no step of the
timer changes it. -/
theorem Clock.wakeTime_timerStep (h : Barrier devList c) (hmem : d ∈ devList)
    (hfsh : (c.dev d).fsh = false) {stop : Bool} (hst : timerStep devList stop c = some c') :
    c'.wakeTime d = c.wakeTime d := by
  -- between two rounds the timer lets nobody continue
  have hquiet (l l' : TimerLabel δ) (hl : c.label = l) (hrel : l.releasing = [])
      (hrel' : l'.releasing = []) : Clock.wakeTime { c with label := l' } d = c.wakeTime d := by
    simp only [wakeTime, hl, hrel, hrel']
  rw [timerStep] at hst
  split at hst
  · rename_i hl
    split at hst
    · exact Option.some.inj hst ▸ hquiet _ _ hl rfl rfl
    · exact Option.some.inj hst ▸ hquiet _ _ hl rfl rfl
  · rename_i hl
    exact Option.some.inj hst ▸ hquiet _ _ hl rfl rfl
  · rename_i hl
    split at hst
    · exact Option.some.inj hst ▸ hquiet _ _ hl rfl rfl
    · simp at hst
  · -- the time slot moves on, and the device is in `next_slot`
    rename_i fsh event hl
    obtain rfl := Option.some.inj hst
    rw [Barrier, hl] at h
    have hdone : (c.dev d).done = true := by
      have hready := h d hmem
      rwa [TimerId.ready, hfsh, Bool.or_false] at hready
    simp [wakeTime, hl, TimerLabel.releasing, hmem, hdone]
  · -- a device continues
    rename_i d' rest fsh event hl
    obtain rfl := Option.some.inj hst
    by_cases hd : d = d'
    · subst hd
      simp [wakeTime, hl, TimerLabel.releasing, Clock.release]
    · simp [wakeTime, hl, TimerLabel.releasing, Clock.release, hd]
  · rename_i hl
    split at hst
    · exact Option.some.inj hst ▸ hquiet _ _ hl rfl rfl
    · exact Option.some.inj hst ▸ hquiet _ _ hl rfl rfl
  · simp at hst

end WakeTime

/-! ### The loader on its schedule -/

variable {cfg : SimConfig}

/-- The call of `add_proc` that a step begins: the process, and `_time`. -/
def Sim.addCalls (s : Sim cfg) : Thread cfg.numCpus × CStr → List (cfg.Proc × ℕ)
  | (.ld, _) =>
      if h : s.os.ld = .addRunning ∧ s.os.i < cfg.numProcesses then
        [(⟨s.os.i, h.2⟩, s.os.clock.time)]
      else []
  | _ => []

/-- No thread but the loader calls `add_proc`. -/
theorem Sim.addCalls_of_ne (s : Sim cfg) {t : Thread cfg.numCpus} (ht : t ≠ .ld) (name : CStr) :
    s.addCalls (t, name) = [] := by
  cases t with
  | ld => exact absurd rfl ht
  | _ => rfl

/-- How many calls of `add_proc` the loader has begun. -/
def LdLabel.begun (i : ℕ) : LdLabel → ℕ
  | .addReady => i + 1
  | _ => i

/-- The processes of the first `n` calls, with the time slots in which they arrive. -/
def OsConfig.arrivals (cfg : OsConfig) (n : ℕ) : List (cfg.Proc × ℕ) :=
  ((List.finRange cfg.numProcesses).take n).map fun p => (p, cfg.arrival p)

/-- What the loader's label says about the slot `w` in which it is or continues. -/
def OnSchedule (start : ℕ → ℕ) (i w : ℕ) : LdLabel → Prop
  | .top | .nextSlot => w = firstLook start i
  | .checkTime | .waitSlot => firstLook start i ≤ w ∧ w ≤ arrivalTimes start i
  | .waitSet => firstLook start i ≤ w ∧ w < arrivalTimes start i
  | .addRunning | .addReady => w = arrivalTimes start i
  | .nextSet => w + 1 = firstLook start i
  | .setDone | .detach | .exited => True

/-- The loader is on its schedule, and so were its calls. -/
structure ArrivalOk (s : Sim cfg) (calls : List (cfg.Proc × ℕ)) : Prop where
  ld : LdOk s.os
  barrier : Barrier cfg.devList s.os.clock
  due : OnSchedule cfg.start s.os.i (s.os.clock.wakeTime .ld) s.os.ld
  calls : calls = cfg.arrivals (s.os.ld.begun s.os.i)

/-- Outside of `next_slot` the loader's slot is the current one. -/
theorem LdOk.wakeTime_eq {s : Os cfg.toOsConfig} (h : LdOk s) (hwait : s.ld ≠ .waitSlot)
    (hnext : s.ld ≠ .nextSlot) : s.clock.wakeTime .ld = s.clock.time := by
  refine Clock.wakeTime_of_awake ?_
  by_contra hflag
  rcases h.flag (by simpa using hflag) with hl | hl
  · exact hwait hl
  · exact hnext hl

/-- When it calls `next_slot` it has not been ready. -/
theorem LdOk.ready_eq_false {s : Os cfg.toOsConfig} (h : LdOk s) (hwait : s.ld ≠ .waitSlot)
    (hnext : s.ld ≠ .nextSlot) (hexited : s.ld ≠ .exited) :
    (s.clock.dev .ld).ready = false := by
  rw [TimerId.ready, Bool.or_eq_false_iff]
  refine ⟨?_, ?_⟩
  · by_contra hflag
    rcases h.flag (by simpa using hflag) with hl | hl
    · exact hwait hl
    · exact hnext hl
  · by_contra hfsh
    exact hexited (h.fsh (by simpa using hfsh))

/-- At the test of the start time, the loader's slot decides. -/
theorem ldStep_checkTime {s s' : Os cfg.toOsConfig} (hl : s.ld = .checkTime)
    (h : ldStep s = some s') :
    (s.clock.time < cfg.start s.i ∧ s' = { s with ld := .waitSet }) ∨
      (cfg.start s.i ≤ s.clock.time ∧ s' = { s with ld := .addRunning }) := by
  simp only [ldStep, hl] at h
  split_ifs at h with hi htime
  · exact Or.inl ⟨cfg.start_of_lt hi ▸ htime, (Option.some.inj h).symm⟩
  · exact Or.inr ⟨cfg.start_of_lt hi ▸ not_lt.mp htime, (Option.some.inj h).symm⟩

/-- The test of the start time: the loader waits until its slot is that of the arrival. -/
theorem OnSchedule.checkTime {s s' : Os cfg.toOsConfig} (hok : LdOk s) (hl : s.ld = .checkTime)
    (h : OnSchedule cfg.start s.i (s.clock.wakeTime .ld) s.ld) (hst : ldStep s = some s') :
    OnSchedule cfg.start s'.i (s'.clock.wakeTime .ld) s'.ld := by
  have htime := hok.wakeTime_eq (by simp [hl]) (by simp [hl])
  rw [hl, OnSchedule, htime] at h
  rcases ldStep_checkTime hl hst with ⟨hearly, rfl⟩ | ⟨hdue, rfl⟩
  · have hlt := hearly.trans_le (start_le_arrivalTimes cfg.start s.i)
    exact htime ▸ ⟨h.1, hlt⟩
  · have heq : s.clock.time = arrivalTimes cfg.start s.i := by
      refine le_antisymm h.2 ?_
      rw [arrivalTimes_eq_max]
      exact max_le hdue h.1
    exact htime.trans heq

/-- **A step of the loader keeps it on its schedule.** -/
theorem OnSchedule.ldStep {s s' : Os cfg.toOsConfig} (hok : LdOk s)
    (hbarrier : Barrier cfg.devList s.clock)
    (h : OnSchedule cfg.start s.i (s.clock.wakeTime .ld) s.ld) (hst : ldStep s = some s') :
    OnSchedule cfg.start s'.i (s'.clock.wakeTime .ld) s'.ld := by
  by_cases hcheck : s.ld = .checkTime
  · exact h.checkTime hok hcheck hst
  · cases ldStep_cases hst with
    | goto l l' hl hgo =>
        rw [hl] at h hcheck
        cases hgo with
        | next hi => exact ⟨h.ge, h.trans_le (firstLook_le_arrivalTimes cfg.start s.i)⟩
        | finish hi => trivial
        | early => exact absurd rfl hcheck
        | due => exact absurd rfl hcheck
        | wake hflag => exact h
        | resume hflag => exact h
    | addRunning hi hl =>
        rw [hl] at h
        exact h
    | addReady hi hl =>
        rw [hl] at h
        exact congrArg (· + 1) h
    | waitSet hl =>
        have htime := hok.wakeTime_eq (by simp [hl]) (by simp [hl])
        have hready := hok.ready_eq_false (by simp [hl]) (by simp [hl]) (by simp [hl])
        rw [hl, OnSchedule, htime] at h
        rw [OnSchedule, Clock.wakeTime_signal hbarrier hready]
        exact ⟨h.1.trans (Nat.le_succ _), h.2⟩
    | nextSet hl =>
        have htime := hok.wakeTime_eq (by simp [hl]) (by simp [hl])
        have hready := hok.ready_eq_false (by simp [hl]) (by simp [hl]) (by simp [hl])
        rw [hl, OnSchedule, htime] at h
        rw [OnSchedule, Clock.wakeTime_signal hbarrier hready]
        exact h
    | setDone hl => trivial
    | detach hl => trivial

/-! ### The calls of `add_proc` -/

/-- The calls with one process more, which arrives in its time slot. -/
theorem OsConfig.arrivals_succ (cfg : OsConfig) {i : ℕ} (h : i < cfg.numProcesses) :
    cfg.arrivals (i + 1) = cfg.arrivals i ++ [(⟨i, h⟩, arrivalTimes cfg.start i)] := by
  rw [arrivals, arrivals, List.take_add_one, List.map_append]
  simp [h, arrival]

/-- A step of the loader that begins a call does so at its time, and no other step begins one. -/
theorem arrivals_ldStep {s : Sim cfg} {os : Os cfg.toOsConfig} (hst : LdStep s.os os)
    (hdue : s.os.ld = .addRunning → s.os.clock.time = arrivalTimes cfg.start s.os.i)
    (name : CStr) : cfg.arrivals (os.ld.begun os.i) =
      cfg.arrivals (s.os.ld.begun s.os.i) ++ s.addCalls (.ld, name) := by
  have hnone (hl : s.os.ld ≠ .addRunning) : s.addCalls (.ld, name) = [] := by
    rw [Sim.addCalls, dif_neg]
    exact fun h => hl h.1
  have hstay {l : LdLabel} (hl : s.os.ld = l) (hne : l ≠ .addRunning) {n : ℕ}
      (hbegun : l.begun s.os.i = n) :
      cfg.arrivals n = cfg.arrivals (s.os.ld.begun s.os.i) ++ s.addCalls (.ld, name) := by
    rw [hnone (hl ▸ hne), List.append_nil, hl, hbegun]
  cases hst with
  | addRunning hi hl =>
      rw [Sim.addCalls, dif_pos ⟨hl, hi⟩, hdue hl]
      simp only [hl]
      exact cfg.arrivals_succ hi
  | goto l l' hl hgo => cases hgo <;> exact hstay hl (by simp) rfl
  | addReady hi hl => exact hstay hl (by simp) rfl
  | waitSet hl => exact hstay hl (by simp) rfl
  | nextSet hl => exact hstay hl (by simp) rfl
  | setDone hl => exact hstay hl (by simp) rfl
  | detach hl => exact hstay hl (by simp) rfl

/-! ### Every step -/

/-- A CPU changes its own flags on the clock, and nothing else there. -/
theorem SimCpuStep.clock {s s' : Sim cfg} {id : Fin cfg.numCpus} {name : CStr}
    (h : SimCpuStep s id name s') : s'.os.clock = s.os.clock ∨
      s'.os.clock = s.os.clock.signal (.cpu id) ∨
        s'.os.clock = s.os.clock.detachEvent (.cpu id) := by
  cases h with
  | fetch proc t ins hx hnone hins => exact Or.inl rfl
  | ended proc t hx hnone hpc => exact Or.inl rfl
  | exec proc t ins hx hins => exact Or.inl (Sim.clock_exec ..)
  | finish proc t hx hpc => exact Or.inl rfl
  | other os hst hrun hend =>
      cases hst with
      | slotSet proc t hx => exact Or.inr (Or.inl rfl)
      | detach proc t hx => exact Or.inr (Or.inr rfl)
      | goto x x' hx hgo => exact Or.inl rfl
      | get x hx hlabel => exact Or.inl rfl
      | putRunning proc t hx => exact Or.inl rfl
      | putReady proc t hx => exact Or.inl rfl
      | run proc t hx => exact Or.inl rfl

namespace ArrivalOk

variable {s s' : Sim cfg} {calls : List (cfg.Proc × ℕ)}

/-- A step that leaves the loader where it is, and its slot. -/
theorem congr (h : ArrivalOk s calls) (hld : s'.os.ld = s.os.ld) (hi : s'.os.i = s.os.i)
    (hok : LdOk s'.os) (hbarrier : Barrier cfg.devList s'.os.clock)
    (hwake : s.os.ld ≠ .exited → s'.os.clock.wakeTime .ld = s.os.clock.wakeTime .ld) :
    ArrivalOk s' calls where
  ld := hok
  barrier := hbarrier
  due := by
    rw [hld, hi]
    by_cases hexited : s.os.ld = .exited
    · rw [hexited]
      trivial
    · rw [hwake hexited]
      exact h.due
  calls := by
    rw [hld, hi]
    exact h.calls

/-- A step of a CPU, which leaves the loader and its flags alone. -/
theorem cpuStep (h : ArrivalOk s calls) {id : Fin cfg.numCpus} {name : CStr}
    (hst : SimCpuStep s id name s') : ArrivalOk s' calls := by
  obtain ⟨hld, hi, hdone, -⟩ := hst.frame
  have hne : (Device.ld : Device cfg.numCpus) ≠ .cpu id := by simp
  have hclock : s'.os.clock.label = s.os.clock.label ∧ s'.os.clock.time = s.os.clock.time ∧
      s'.os.clock.dev .ld = s.os.clock.dev .ld ∧ Barrier cfg.devList s'.os.clock := by
    rcases hst.clock with heq | heq | heq
    · rw [heq]
      exact ⟨rfl, rfl, rfl, h.barrier⟩
    · rw [heq]
      exact ⟨rfl, rfl, by simp [Clock.signal, hne], h.barrier.signal _⟩
    · rw [heq]
      exact ⟨rfl, rfl, by simp [Clock.detachEvent, hne], h.barrier.detachEvent _⟩
  obtain ⟨hlabel, htime, hdev, hbarrier⟩ := hclock
  have hok := h.ld.congr hld hi hdone (hdev ▸ fun h => h) (by rw [hdev])
  exact h.congr hld hi hok hbarrier fun _ => Clock.wakeTime_congr hlabel htime hdev

/-- A step of the timer, which leaves the loader's slot as it is. -/
theorem timerStep (h : ArrivalOk s calls) {stop : Bool} {clock : Clock (Device cfg.numCpus)}
    (hst : timerStep cfg.devList stop s.os.clock = some clock) :
    ArrivalOk { s with os := { s.os with clock := clock } } calls := by
  have hflags := timerStep_flags hst .ld
  refine h.congr rfl rfl (h.ld.congr rfl rfl rfl hflags.1 hflags.2)
    (h.barrier.timerStep cfg.nodup_devList hst) fun hexited => ?_
  have hfsh : (s.os.clock.dev .ld).fsh = false := by
    by_contra hfsh
    exact hexited (h.ld.fsh (by simpa using hfsh))
  have hmem : Device.ld ∈ cfg.devList := by simp [cfg.devList_eq]
  exact Clock.wakeTime_timerStep h.barrier hmem hfsh hst

/-- The current slot at a call of `add_proc` is that of the arrival. -/
theorem time_eq (h : ArrivalOk s calls) (hl : s.os.ld = .addRunning ∨ s.os.ld = .addReady) :
    s.os.clock.time = arrivalTimes cfg.start s.os.i := by
  have hdue := h.due
  rcases hl with hl | hl
  · rw [hl, OnSchedule, h.ld.wakeTime_eq (by simp [hl]) (by simp [hl])] at hdue
    exact hdue
  · rw [hl, OnSchedule, h.ld.wakeTime_eq (by simp [hl]) (by simp [hl])] at hdue
    exact hdue

/-- **Every step keeps the loader on its schedule.** -/
theorem step (h : ArrivalOk s calls) {t : Thread cfg.numCpus × CStr}
    (hst : simStep s t = some s') : ArrivalOk s' (calls ++ s.addCalls t) := by
  obtain ⟨t, name⟩ := t
  cases t with
  | cpu id =>
      rw [s.addCalls_of_ne (by simp), List.append_nil]
      exact h.cpuStep (simCpuStep_cases hst)
  | ld =>
      obtain ⟨os, hos, rfl⟩ := Option.map_eq_some_iff.mp hst
      have hstep := ldStep_cases hos
      refine ⟨h.ld.ldStep hstep, h.barrier.ldStep hstep, h.due.ldStep h.ld h.barrier hos, ?_⟩
      rw [arrivals_ldStep hstep (fun hl => h.time_eq (Or.inl hl)) name, ← h.calls]
  | timer =>
      rw [s.addCalls_of_ne (by simp), List.append_nil]
      obtain ⟨os, hos, rfl⟩ := Option.map_eq_some_iff.mp hst
      obtain ⟨clock, hclock, rfl⟩ := Option.map_eq_some_iff.mp hos
      exact h.timerStep hclock
  | main =>
      rw [s.addCalls_of_ne (by simp), List.append_nil]
      obtain ⟨id, ht, -⟩ | ⟨ht, -⟩ | ⟨ht, -⟩ | ⟨-, rfl⟩ := simStep_cases hst
      · cases ht
      · cases ht
      · cases ht
      · exact h.congr rfl rfl (h.ld.congr rfl rfl rfl (fun h => h) rfl) h.barrier fun _ => rfl

/-- At the start the loader looks at the first process in slot 0. -/
theorem boot (cfg : SimConfig) : ArrivalOk (bootSim cfg) [] where
  ld := by constructor <;> simp [bootSim, bootOs]
  barrier := trivial
  due := rfl
  calls := rfl

end ArrivalOk

/-- **Arrival times follow the configuration.** In every interleaving of the loader, the timer and
any number of CPUs, for start times in any order, the calls of `add_proc` are one for each process
in turn, each while `_time` is the arrival time of the process: `t₀ = start₀`, and
`tᵢ = max startᵢ (tᵢ₋₁ + 1)`. The time slots of the calls ascend, none is before the start time,
and `_time` stays the same until the call returns. -/
theorem arrivals_follow_config {ts : List (Thread cfg.numCpus × CStr)} {s : Sim cfg}
    (hrun : (simSystem cfg).Run ts s) :
    (∃ calls, ((simSystem cfg).recording Sim.addCalls).Run ts (s, calls)) ∧
      ∀ calls, ((simSystem cfg).recording Sim.addCalls).Run ts (s, calls) →
        calls = cfg.arrivals (s.os.ld.begun s.os.i) ∧
          (calls.map Prod.snd).Pairwise (· < ·) ∧
          (∀ call ∈ calls, cfg.startTime call.1 ≤ call.2) ∧
          (s.os.ld = .addRunning ∨ s.os.ld = .addReady →
            s.os.clock.time = arrivalTimes cfg.start s.os.i) := by
  refine ⟨hrun.recording Sim.addCalls, fun calls hcalls => ?_⟩
  have hinit (s : Sim cfg) (hs : s = bootSim cfg) : ArrivalOk s [] := hs ▸ ArrivalOk.boot cfg
  have hok : ArrivalOk s calls :=
    hcalls.invariant_recording hinit fun s calls t s' h hst => h.step hst
  refine ⟨hok.calls, ?_, ?_, hok.time_eq⟩
  · rw [hok.calls, OsConfig.arrivals, List.map_map, List.pairwise_map]
    have hsorted := List.pairwise_lt_finRange cfg.numProcesses
    exact (hsorted.sublist (List.take_sublist _ _)).imp
      fun hlt => strictMono_arrivalTimes cfg.start hlt
  · intro call hcall
    rw [hok.calls, OsConfig.arrivals, List.mem_map] at hcall
    obtain ⟨p, -, rfl⟩ := hcall
    have hstart := start_le_arrivalTimes cfg.start p
    rwa [cfg.start_of_lt p.isLt] at hstart

/-- Two programs, of which the second has the earlier start time. -/
def unsortedStarts : SimConfig where
  numCpus := 1
  timeSlot := 2
  numProcesses := 2
  startTime p := if (p : ℕ) = 0 then 1 else 0
  prio _ := 0
  codeSize _ := 1
  path _ := [112#8]
  text _ := [{ opcode := .calc }]
  text_length _ := rfl

/-- The loader adds the first program in slot 1 and the second in slot 2. -/
def unsortedStartsRun : List (Thread unsortedStarts.numCpus × CStr) :=
  let cpu := Thread.cpu ⟨0, Nat.one_pos⟩
  slotOf cpu 3 3 0 ++ slotOf cpu 5 6 0 ++ List.replicate 4 (Thread.ld, [])

/-- The second program starts earlier in the configuration, and arrives later. -/
theorem arrivals_follow_config_unsorted : ∃ (s : Sim unsortedStarts) (calls : _),
    ((simSystem unsortedStarts).recording Sim.addCalls).Run unsortedStartsRun (s, calls) ∧
      calls = [(⟨0, Nat.two_pos⟩, 1), (⟨1, Nat.one_lt_two⟩, 2)] := by
  have hstate : (unsortedStartsRun.foldlM simStep (bootSim unsortedStarts)).map
      (fun s => s.os.ld.begun s.os.i) = some 2 := by
    decide +kernel
  obtain ⟨s, hs, htwo⟩ := Option.map_eq_some_iff.mp hstate
  have hrun : (simSystem unsortedStarts).Run unsortedStartsRun s :=
    Run.of_foldlM (fun _ _ _ h => h) rfl hs
  obtain ⟨⟨calls, hcalls⟩, hall⟩ := arrivals_follow_config hrun
  have heq := (hall calls hcalls).1
  rw [htwo] at heq
  exact ⟨s, calls, hcalls, heq.trans (by decide)⟩

end OsSim
