import OsSim.Drain
import OsSim.Simulation
import OsSim.TimeSlot

/-!
# Where the Threads Are

What the places of the CPUs, the loader, the timer and `main` say about each other's flags, in
every state of every interleaving: a device is marked as done only inside of `next_slot`, and as
finished only when its thread is gone, and the timer leaves when they all are.

## Two kinds of facts

Some facts are about one thread: a CPU that calls `put_proc` or `run` has a process (`CpuPlaced`),
and the loader is inside of its loop only while it has a process to add (`LdPlaced`). They are read
off the step of that thread, and no other thread touches its locals or the flags of its device.

The others are about the timer and a device together. They come from `Timer`: between its rounds the
timer has marked every device that it still waits for (`Barrier`), and it counts those that are
finished (`TimerCount`). `main` sets `timer_stop` only when the CPUs and the loader are gone, so
that as long as one of them takes a step the timer goes on (`ThreadsOk.timerStop_of_cpuStep`).

`ThreadsOk` puts these together. `Progress` and `Ending` use it for every reachable state.

## Main results

* `ThreadsOk.step`: what the threads' places and flags say about each other, after any step.
* `ThreadsOk.of_run`: and so in every state of every interleaving.
-/

namespace OsSim

open TransitionSystem

section Os

variable {cfg : OsConfig}

/-! ### What the threads say about each other -/

/-- The threads are at the same places, with the same flags. -/
structure SameThreads (s s' : Os cfg) : Prop where
  cpu : s'.cpu = s.cpu
  ld : s'.ld = s.ld
  i : s'.i = s.i
  clock : s'.clock = s.clock
  timerStop : s'.timerStop = s.timerStop
  done : s'.done = s.done

/-- A CPU that calls `put_proc` or `run` has a process, and one that is gone has told the timer. -/
structure CpuPlaced (s : Os cfg) (id : Fin cfg.numCpus) : Prop where
  hand : (s.cpu id).label = .putRunning ∨ (s.cpu id).label = .putReady ∨ (s.cpu id).label = .run →
    (s.cpu id).proc ≠ none
  gone : (s.cpu id).label = .exited → (s.clock.dev (.cpu id)).fsh = true

/-- Inside of its loop the loader has a process to add, and when it is gone it has told the
timer. -/
structure LdPlaced (s : Os cfg) : Prop where
  loading : s.ld ∈ [.checkTime, .waitSet, .waitSlot, .addRunning, .addReady] →
    s.i < cfg.numProcesses
  gone : s.ld = .exited → (s.clock.dev .ld).fsh = true

/-- The CPUs and the loader are gone, which is what `main` waits for. -/
def Os.Left (s : Os cfg) : Prop := (∀ id, (s.cpu id).label = .exited) ∧ s.ld = .exited

/-- What the threads' places and flags say about each other: the invariant. -/
structure ThreadsOk (s : Os cfg) : Prop where
  cpu : ∀ id, CpuOk s id
  ld : LdOk s
  cpuPlaced : ∀ id, CpuPlaced s id
  ldPlaced : LdPlaced s
  barrier : Barrier cfg.devList s.clock
  count : TimerCount cfg.devList s.clock
  stop : s.timerStop = true → s.Left

/-- `get_proc` goes on to the recheck or to `next_slot`. -/
theorem Cpu.label_got {P : Type} (x : Cpu P) (r : Option P) :
    (x.got r).label = .recheck ∨ (x.got r).label = .slotSet := by
  rw [Cpu.got]
  split
  · by_cases hr : r.isNone = true
    · exact Or.inr (if_pos hr)
    · exact Or.inl (if_neg hr)
  · exact Or.inl rfl
  · exact Or.inl rfl

/-- What is said of a CPU is about its locals and its own mark. -/
theorem CpuPlaced.congr {s s' : Os cfg} {id : Fin cfg.numCpus} (h : CpuPlaced s id)
    (hcpu : s'.cpu id = s.cpu id)
    (hfsh : (s'.clock.dev (.cpu id)).fsh = (s.clock.dev (.cpu id)).fsh) : CpuPlaced s' id where
  hand := hcpu ▸ h.hand
  gone hl := by
    rw [hfsh]
    exact h.gone (hcpu ▸ hl)

/-- What is said of the loader is about its place and its own mark. -/
theorem LdPlaced.congr {s s' : Os cfg} (h : LdPlaced s) (hld : s'.ld = s.ld) (hi : s'.i = s.i)
    (hfsh : (s'.clock.dev .ld).fsh = (s.clock.dev .ld).fsh) : LdPlaced s' where
  loading := by
    rw [hld, hi]
    exact h.loading
  gone hl := by
    rw [hfsh]
    exact h.gone (hld ▸ hl)

/-- A step of a CPU leaves it placed, wherever it was. -/
theorem CpuStep.placed {s s' : Os cfg} {id : Fin cfg.numCpus} (h : CpuStep s id s') :
    CpuPlaced s' id := by
  cases h with
  | goto x x' hx hgo => cases hgo <;> constructor <;> simp
  | get x hx hlabel =>
      rcases x.label_got (getMlqProc s.mlqReadyQueue).1 with hl | hl <;> constructor <;> simp [hl]
  | putRunning proc t hx => constructor <;> simp
  | putReady proc t hx => constructor <;> simp
  | run proc t hx => constructor <;> simp
  | slotSet proc t hx => constructor <;> simp
  | detach proc t hx => constructor <;> simp [Clock.detachEvent]

/-- A step of the loader, seen from its own locals. -/
theorem LdPlaced.ldStep {s s' : Os cfg} (h : LdPlaced s) (hst : LdStep s s') : LdPlaced s' := by
  have hloading := h.loading
  cases hst with
  | goto l l' hl hgo =>
      rw [hl] at hloading
      cases hgo with
      | next hi => exact ⟨fun _ => hi, by simp⟩
      | finish hi => constructor <;> simp
      | early => exact ⟨fun _ => hloading (by simp), by simp⟩
      | due => exact ⟨fun _ => hloading (by simp), by simp⟩
      | wake hflag => exact ⟨fun _ => hloading (by simp), by simp⟩
      | resume hflag => constructor <;> simp
  | addRunning hi hl => exact ⟨fun _ => hi, by simp⟩
  | addReady hi hl => constructor <;> simp
  | waitSet hl => exact ⟨fun _ => hloading (by simp [hl]), by simp⟩
  | nextSet hl => constructor <;> simp
  | setDone hl => constructor <;> simp
  | detach hl => constructor <;> simp [Clock.detachEvent]

namespace ThreadsOk

variable {s s' : Os cfg}

/-- Only where the threads are and their flags count, not the queues or program counters. -/
theorem congr (h : ThreadsOk s) (hsame : SameThreads s s') : ThreadsOk s' where
  cpu id := (h.cpu id).congr (congrFun hsame.cpu id) (by simp [hsame.done])
    (by simp [hsame.clock]) (by rw [hsame.clock])
  ld := h.ld.congr hsame.ld hsame.i hsame.done (by simp [hsame.clock]) (by rw [hsame.clock])
  cpuPlaced id := (h.cpuPlaced id).congr (congrFun hsame.cpu id) (by rw [hsame.clock])
  ldPlaced := h.ldPlaced.congr hsame.ld hsame.i (by rw [hsame.clock])
  barrier := hsame.clock ▸ h.barrier
  count := hsame.clock ▸ h.count
  stop hstop := by
    rw [Os.Left, hsame.cpu, hsame.ld]
    exact h.stop (hsame.timerStop ▸ hstop)

/-- A CPU that takes a step is not gone, and `main` still waits for it. -/
theorem timerStop_of_cpuStep (h : ThreadsOk s) {id : Fin cfg.numCpus} (hst : CpuStep s id s') :
    s.timerStop = false := by
  by_contra hstop
  have hexited := (h.stop (by simpa using hstop)).1 id
  cases hst with
  | goto x x' hx hgo =>
      rw [hx] at hexited
      cases hgo <;> simp at hexited
  | get x hx hlabel =>
      rw [hx] at hexited
      simp [hexited] at hlabel
  | _ => simp_all

/-- A loader that takes a step is not gone, and `main` still waits for it. -/
theorem timerStop_of_ldStep (h : ThreadsOk s) (hst : LdStep s s') : s.timerStop = false := by
  by_contra hstop
  have hexited := (h.stop (by simpa using hstop)).2
  cases hst with
  | goto l l' hl hgo =>
      rw [hl] at hexited
      cases hgo <;> simp at hexited
  | _ => simp_all

end ThreadsOk

/-! ### Every step -/

/-- `next_slot` marks no device as finished. -/
theorem TimerCount.signal {c : Clock (Device cfg.numCpus)} (h : TimerCount cfg.devList c)
    (d : Device cfg.numCpus) : TimerCount cfg.devList (c.signal d) := by
  refine h.mono rfl fun d' hd' => ?_
  by_cases heq : d' = d
  · subst heq
    simpa [Clock.signal] using hd'
  · simpa [Clock.signal, heq] using hd'

/-- `detach_event` marks its own device, which the timer has not counted yet. -/
theorem TimerCount.detachEvent {c : Clock (Device cfg.numCpus)} (h : TimerCount cfg.devList c)
    (d : Device cfg.numCpus) : TimerCount cfg.devList (c.detachEvent d) := by
  refine h.mono rfl fun d' hd' => ?_
  by_cases heq : d' = d
  · subst heq
    simp [Clock.detachEvent]
  · simpa [Clock.detachEvent, heq] using hd'

/-- A step of a CPU leaves the timer's count right. -/
theorem TimerCount.cpuStep {s s' : Os cfg} (h : TimerCount cfg.devList s.clock)
    {id : Fin cfg.numCpus} (hst : CpuStep s id s') : TimerCount cfg.devList s'.clock := by
  cases hst with
  | slotSet proc t hx => exact h.signal (.cpu id)
  | detach proc t hx => exact h.detachEvent (.cpu id)
  | _ => exact h

/-- So does a step of the loader. -/
theorem TimerCount.ldStep {s s' : Os cfg} (h : TimerCount cfg.devList s.clock)
    (hst : LdStep s s') : TimerCount cfg.devList s'.clock := by
  cases hst with
  | waitSet hl => exact h.signal .ld
  | nextSet hl => exact h.signal .ld
  | detach hl => exact h.detachEvent .ld
  | _ => exact h

/-- A step of the loader, seen from a CPU: it may set `done`, and leaves the CPU and its flags
alone. -/
theorem LdStep.cpu_frame {s s' : Os cfg} (h : LdStep s s') (id : Fin cfg.numCpus) :
    s'.cpu id = s.cpu id ∧ (s.done = true → s'.done = true) ∧
      s'.clock.dev (.cpu id) = s.clock.dev (.cpu id) := by
  cases h with
  | setDone hl => exact ⟨rfl, fun _ => rfl, rfl⟩
  | waitSet hl => exact ⟨rfl, fun h => h, by simp [Clock.signal]⟩
  | nextSet hl => exact ⟨rfl, fun h => h, by simp [Clock.signal]⟩
  | detach hl => exact ⟨rfl, fun h => h, by simp [Clock.detachEvent]⟩
  | _ => exact ⟨rfl, fun h => h, rfl⟩

/-- A CPU does not stop the timer. -/
theorem CpuStep.timerStop {s s' : Os cfg} {id : Fin cfg.numCpus} (h : CpuStep s id s') :
    s'.timerStop = s.timerStop := by
  cases h <;> rfl

/-- Nor does the loader. -/
theorem LdStep.timerStop {s s' : Os cfg} (h : LdStep s s') : s'.timerStop = s.timerStop := by
  cases h <;> rfl

/-- Past its loop test the timer does not read `timer_stop`. -/
theorem timerStep_eq_of_ne_top {δ : Type} [DecidableEq δ] {devList : List δ} {c : Clock δ}
    (hl : c.label ≠ .top) (stop : Bool) : timerStep devList stop c = timerStep devList false c := by
  rw [timerStep, timerStep]
  split
  · exact absurd ‹c.label = .top› hl
  all_goals rfl

namespace ThreadsOk

variable {s s' : Os cfg}

/-- A step of a CPU, which leaves the other threads and their flags alone. -/
theorem cpuStep (h : ThreadsOk s) {id : Fin cfg.numCpus} (hst : CpuStep s id s') :
    ThreadsOk s' := by
  obtain ⟨hld, hi, hdone, hother, hdev⟩ := hst.frame
  have hne : (Device.ld : Device cfg.numCpus) ≠ .cpu id := by simp
  refine
    { cpu := fun id' => ?_
      ld := h.ld.congr hld hi hdone (hdev _ hne ▸ fun h => h) (by rw [hdev _ hne])
      cpuPlaced := fun id' => ?_
      ldPlaced := h.ldPlaced.congr hld hi (by rw [hdev _ hne])
      barrier := h.barrier.cpuStep hst
      count := h.count.cpuStep hst
      stop := fun hstop => ?_ }
  · by_cases hid : id' = id
    · subst hid
      exact (h.cpu id').cpuStep hst
    · have hd : Device.cpu id' ≠ .cpu id := fun heq => hid (Device.cpu.inj heq)
      exact (h.cpu id').congr (hother id' hid) (hdone ▸ fun h => h) (hdev _ hd ▸ fun h => h)
        (by rw [hdev _ hd])
  · by_cases hid : id' = id
    · subst hid
      exact hst.placed
    · have hd : Device.cpu id' ≠ .cpu id := fun heq => hid (Device.cpu.inj heq)
      exact (h.cpuPlaced id').congr (hother id' hid) (by rw [hdev _ hd])
  · rw [hst.timerStop, h.timerStop_of_cpuStep hst] at hstop
    cases hstop

/-- A step of the loader, which leaves the CPUs and their flags alone. -/
theorem ldStep (h : ThreadsOk s) (hst : LdStep s s') : ThreadsOk s' where
  cpu id := by
    obtain ⟨hcpu, hdone, hdev⟩ := hst.cpu_frame id
    exact (h.cpu id).congr hcpu hdone (hdev ▸ fun h => h) (by rw [hdev])
  ld := h.ld.ldStep hst
  cpuPlaced id := by
    obtain ⟨hcpu, -, hdev⟩ := hst.cpu_frame id
    exact (h.cpuPlaced id).congr hcpu (by rw [hdev])
  ldPlaced := h.ldPlaced.ldStep hst
  barrier := h.barrier.ldStep hst
  count := h.count.ldStep hst
  stop hstop := by
    rw [hst.timerStop, h.timerStop_of_ldStep hst] at hstop
    cases hstop

/-- Once the threads are gone, every device is marked as finished. -/
theorem fsh_of_left (h : ThreadsOk s) (hleft : s.Left) (d : Device cfg.numCpus) :
    (s.clock.dev d).fsh = true := by
  cases d with
  | cpu id => exact (h.cpuPlaced id).gone (hleft.1 id)
  | ld => exact h.ldPlaced.gone hleft.2

/-- A step of the timer, which leaves only when every device is finished. -/
theorem timerStep (h : ThreadsOk s) {clock : Clock (Device cfg.numCpus)}
    (hst : timerStep cfg.devList s.timerStop s.clock = some clock) :
    ThreadsOk { s with clock := clock } where
  cpu id := (h.cpu id).congr rfl (fun hdone => hdone) (timerStep_flags hst _).1
    (timerStep_flags hst _).2
  ld := h.ld.congr rfl rfl rfl (timerStep_flags hst _).1 (timerStep_flags hst _).2
  cpuPlaced id := (h.cpuPlaced id).congr rfl (timerStep_flags hst _).2
  ldPlaced := h.ldPlaced.congr rfl rfl (timerStep_flags hst _).2
  barrier := h.barrier.timerStep cfg.nodup_devList hst
  count := by
    by_cases htop : s.clock.label = .top ∧ s.timerStop = true
    · -- the loop test ends the thread
      obtain ⟨hl, hstop⟩ := htop
      rw [OsSim.timerStep, hl] at hst
      simp only [hstop, if_true] at hst
      obtain rfl := Option.some.inj hst
      exact fun d _ => h.fsh_of_left (h.stop hstop) d
    · by_cases hl : s.clock.label = .top
      · exact h.count.timerStep hst (by simpa using fun hstop => htop ⟨hl, hstop⟩)
      · rw [timerStep_eq_of_ne_top hl] at hst
        exact h.count.timerStep hst rfl
  stop := h.stop

/-- `main` stops the timer, once the other threads are gone. -/
theorem mainStep (h : ThreadsOk s) (hleft : s.Left) : ThreadsOk { s with timerStop := true } where
  cpu id := (h.cpu id).congr rfl (fun hdone => hdone) (fun hflag => hflag) rfl
  ld := h.ld.congr rfl rfl rfl (fun hflag => hflag) rfl
  cpuPlaced id := (h.cpuPlaced id).congr rfl rfl
  ldPlaced := h.ldPlaced.congr rfl rfl rfl
  barrier := h.barrier
  count := h.count
  stop _ := hleft

/-- At the start no thread is gone and no device is marked. -/
theorem boot : ThreadsOk (bootOs cfg) where
  cpu id := by constructor <;> simp [bootOs]
  ld := by constructor <;> simp [bootOs]
  cpuPlaced id := by constructor <;> simp [bootOs]
  ldPlaced := by constructor <;> simp [bootOs]
  barrier := trivial
  count := trivial
  stop hstop := by simp [bootOs] at hstop

end ThreadsOk

end Os

section Sim

variable {cfg : SimConfig} {s s' : Sim cfg}

/-- A CPU fetches its next instruction. -/
def Sim.Fetches (s : Sim cfg) (id : Fin cfg.numCpus) (s' : Sim cfg) : Prop :=
  ∃ proc t ins, s.os.cpu id = ⟨.run, some proc, t⟩ ∧ s.fetched id = none ∧
    (cfg.text proc)[s.os.pc proc]? = some ins ∧
      s' = { s with fetched := Function.update s.fetched id (some ins) }

/-- The threads go on as those of `Os` do, or stay where they are while an instruction is
fetched. -/
theorem SimCpuStep.threads {id : Fin cfg.numCpus} {name : CStr} (h : SimCpuStep s id name s') :
    s.Fetches id s' ∨ ∃ os, CpuStep s.os id os ∧ SameThreads os s'.os := by
  cases h with
  | fetch proc t ins hx hnone hins => exact Or.inl ⟨proc, t, ins, hx, hnone, hins, rfl⟩
  | ended proc t hx hnone hpc =>
      exact Or.inr ⟨_, .run proc t hx, rfl, rfl, rfl, rfl, rfl, rfl⟩
  | exec proc t ins hx hins =>
      refine Or.inr ⟨_, .run proc t hx, ?_⟩
      rw [Sim.exec]
      split <;> exact ⟨rfl, rfl, rfl, rfl, rfl, rfl⟩
  | finish proc t hx hpc =>
      exact Or.inr ⟨_, .goto _ _ hx (.finish proc t hpc), rfl, rfl, rfl, rfl, rfl, rfl⟩
  | other os hst hrun hend => exact Or.inr ⟨os, hst, rfl, rfl, rfl, rfl, rfl, rfl⟩

/-- **What the threads say about each other, after any step.** -/
theorem ThreadsOk.step (h : ThreadsOk s.os) {t : Thread cfg.numCpus} {name : CStr}
    (hst : simStep s (t, name) = some s') : ThreadsOk s'.os := by
  cases t with
  | cpu id =>
      rcases (simCpuStep_cases hst).threads with ⟨proc, τ, ins, -, -, -, rfl⟩ | ⟨os, hos, hsame⟩
      · exact h
      · exact (h.cpuStep hos).congr hsame
  | ld =>
      obtain ⟨os, hos, rfl⟩ := Option.map_eq_some_iff.mp hst
      exact h.ldStep (ldStep_cases hos)
  | timer =>
      obtain ⟨os, hos, rfl⟩ := Option.map_eq_some_iff.mp hst
      obtain ⟨clock, hclock, rfl⟩ := Option.map_eq_some_iff.mp hos
      exact h.timerStep hclock
  | main =>
      obtain ⟨os, hos, rfl⟩ := Option.map_eq_some_iff.mp hst
      rw [osStep] at hos
      split at hos
      · rename_i hleft
        obtain rfl := Option.some.inj hos
        exact h.mainStep hleft
      · simp at hos

/-- **In every state of every interleaving**, what the threads say about each other is true. -/
theorem ThreadsOk.of_run {ts : List (Thread cfg.numCpus × CStr)}
    (hrun : (simSystem cfg).Run ts s) : ThreadsOk s.os := by
  refine hrun.invariant (I := fun s => ThreadsOk s.os) ?_ fun s t s' hs hst => hs.step hst
  rintro s rfl
  exact ThreadsOk.boot

end Sim

end OsSim
