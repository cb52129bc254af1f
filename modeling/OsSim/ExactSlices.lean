import OsSim.Settling
import OsSim.TimeSlice

/-!
# Exact Time Slices

The time slices of `cpu_routine` beside `killall` instructions. A CPU runs the process that it has
dispatched `min time_slot (code->size - pc)` times, where nobody else moves the program counter of
that process. `__sys_killall` shifts the ready queues without `queue_lock`, and while the gap of a
terminated process is being closed, the process after it is in the queue twice: two CPUs that call
`get_proc` then both get it, and the one that dispatches it second counts on instructions that the
other executes.

## How the argument goes

The events of a CPU are recorded beside its steps, with `killall` instructions in steps
(`killingSystem`). Where no `killall` overlaps another one or a section under `queue_lock`, the
state that the threads are in once the `killall` under way has returned is a state of `simSystem`,
and the steps of the loops leave it as it is (`Settles.step`). The events are then those of a run of
`simSystem` (`Settles.sliceEvents_eq`), and `TimeSlice` has the invariant for these: `time_left` is
what remains of the slice that the history shows.

Without the condition it fails. With the queue x, a, b, a `killall` of x has moved a to the front
and not yet closed the gap behind it: the array is a, a, b. Two CPUs call `get_proc` now, and both
get a.

## Main results

* `Settles.sliceEvents_eq`: a step outside `__sys_killall` is the same in the settled state.
* `time_slices_exact`: **time slices are exact** while no `killall` overlaps another one or a
  section under `queue_lock`.
* `time_slices_fail`: two CPUs with one process.
-/

namespace OsSim

open TransitionSystem

variable {cfg : SimConfig}

/-- What a step of any thread does to the process of CPU `id`. The call of `run` is that of the
step which begins the `killall`; the steps of its loops are no event. -/
def Killing.sliceEvents (id : Fin cfg.numCpus) (x : Killing cfg) (t : Thread cfg.numCpus × CStr) :
    List (SliceEvent cfg.Proc) := if x.inKillall t then [] else Sim.sliceEvents id x.sim t

namespace Settles

variable {x : Killing cfg} {s : Sim cfg} {id : Fin cfg.numCpus}

/-- A step outside `__sys_killall` does the same to the process in the settled state. -/
theorem sliceEvents_eq (h : Settles x s) {t : Thread cfg.numCpus × CStr}
    (hin : x.inKillall t = false) : Killing.sliceEvents id x t = Sim.sliceEvents id s t := by
  rw [Killing.sliceEvents, if_neg (by simp [hin]), Sim.sliceEvents, Sim.sliceEvents]
  split_ifs with ht
  · have hnone : x.killing id = none := by simpa [Killing.inKillall, ht] using hin
    rw [Sim.cpuEvents, Sim.cpuEvents, h.cpu_of_none hnone, h.fetched_eq, h.pc_eq]
  · rfl

/-- `time_left` is between 0 and `time_slot`, also while the CPU is in `__sys_killall`. -/
theorem timeLeft_bounds (h : Settles x s) (hslot : 1 ≤ cfg.timeSlot)
    {es : List (SliceEvent cfg.Proc)} (hes : SliceInv id s es) :
    0 ≤ (x.sim.os.cpu id).timeLeft ∧ (x.sim.os.cpu id).timeLeft ≤ cfg.timeSlot := by
  have hlocals := hes.locals
  cases h with
  | idle hnone => exact hlocals.bounds hslot
  | busy id' k hone hrun hk =>
      by_cases hid : id = id'
      · -- `time_left--` is still to come
        subst hid
        have hcpu : (x.settled id k).os.cpu id = (x.sim.os.cpu id).returned :=
          Os.cpu_setCpu_self _ _ _
        rw [hcpu, Cpu.returned] at hlocals
        rcases hx : x.sim.os.cpu id with ⟨label, proc, t⟩
        rw [hx] at hlocals
        rcases proc with _ | proc
        · have hzero := hlocals.idle_inv.2
          dsimp only at hzero ⊢
          omega
        · obtain ⟨pc₀, n, -, ht, hn, -⟩ := hlocals.ran_inv
          dsimp only at ht ⊢
          omega
      · have hcpu : (x.settled id' k).os.cpu id = x.sim.os.cpu id := Os.cpu_setCpu_of_ne _ _ _ hid
        rw [hcpu] at hlocals
        exact hlocals.bounds hslot

end Settles

/-- **Time slices are exact** while no `killall` overlaps another one or a section under
`queue_lock`. For a time slot of at least 1 and programs of at least one instruction, in every such
interleaving of any number of CPUs, the loader and the timer: between a dispatch and the return of
the process to the queue, or the report that it has finished, whichever is first, the CPU does
nothing but call `run` on it `min time_slot (code->size - pc)` times, with one `next_slot` after
each call. In every state `time_left` is between 0 and `time_slot`, and it is 0 when the CPU starts
an iteration without a process. -/
theorem time_slices_exact (hslot : 1 ≤ cfg.timeSlot) (hsize : ∀ p, 1 ≤ cfg.codeSize p)
    {ts : List (Thread cfg.numCpus × CStr)} {x : Killing cfg} (hrun : (apartSystem cfg).Run ts x)
    (id : Fin cfg.numCpus) :
    (∃ es, ((apartSystem cfg).recording (Killing.sliceEvents id)).Run ts (x, es)) ∧
      (∀ es, ((apartSystem cfg).recording (Killing.sliceEvents id)).Run ts (x, es) →
        ExactSlices cfg.timeSlot cfg.codeSize es) ∧
      (0 ≤ (x.sim.os.cpu id).timeLeft ∧ (x.sim.os.cpu id).timeLeft ≤ cfg.timeSlot) ∧
      ((x.sim.os.cpu id).label = .top → (x.sim.os.cpu id).proc = none →
        (x.sim.os.cpu id).timeLeft = 0) := by
  have hinv {es : List (SliceEvent cfg.Proc)}
      (hes : ((apartSystem cfg).recording (Killing.sliceEvents id)).Run ts (x, es)) :
      ∃ s, Settles x s ∧ SliceInv id s es := by
    refine hes.invariant_recording (I := fun x es => ∃ s, Settles x s ∧ SliceInv id s es) ?_ ?_
    · rintro x rfl
      exact ⟨_, .idle fun _ => rfl, SliceInv.boot hsize id⟩
    · rintro x es t x' ⟨s, hx, hs⟩ ⟨hapart, hst⟩
      rcases hx.step hst hapart with ⟨hin, hx'⟩ | ⟨hin, s', hs', hx'⟩
      · rw [Killing.sliceEvents, if_pos hin, List.append_nil]
        exact ⟨s, hx', hs⟩
      · rw [hx.sliceEvents_eq hin]
        exact ⟨s', hx', hs.step hslot hs'⟩
  obtain ⟨es, hes⟩ := hrun.recording (Killing.sliceEvents id)
  obtain ⟨s, hx, hs⟩ := hinv hes
  refine ⟨⟨es, hes⟩, ?_, hx.timeLeft_bounds hslot hs, ?_⟩
  · intro es hes
    obtain ⟨s, -, hs⟩ := hinv hes
    exact hs.exact
  · intro htop hnone
    have hrun : (x.sim.os.cpu id).label ≠ .run := by simp [htop]
    have hcpu := hx.cpu_of_none (hx.killing_of_label hrun)
    rw [← hcpu] at hnone ⊢
    exact hs.locals.timeLeft_of_none hnone

/-! ### Two CPUs with one process -/

/-- The instructions that write the path `input/proc/x`, and -1 after it, into a region, and kill by
that name. -/
def killText : List InstT :=
  { opcode := .alloc, arg0 := 20 } ::
    ((cstr "input/proc/x" ++ [255#8]).zipIdx.map fun (b, i) =>
      { opcode := .write, arg0 := b.setWidth 32, arg2 := BitVec.ofNat 32 i }) ++
    [{ opcode := .syscall, arg0 := 101 }]

/-- A program of `n` instructions. -/
def calcText (n : ℕ) : List InstT := List.replicate n { opcode := .calc }

/-- The program that kills, two that keep the other CPUs busy until then, the one that it kills, and
two more. -/
def threeCpusText : Fin 6 → List InstT :=
  ![killText, calcText 13, calcText 12, calcText 1, calcText 1, calcText 1]

/-- Three CPUs and these programs, all of them of priority 0. -/
def threeCpus : SimConfig where
  numCpus := 3
  timeSlot := 100
  numProcesses := 6
  startTime _ := 0
  prio _ := 0
  codeSize p := (threeCpusText p).length
  path := ![cstr "input/proc/k", cstr "input/proc/p", cstr "input/proc/q", cstr "input/proc/x",
    cstr "input/proc/a", cstr "input/proc/b"]
  text := threeCpusText
  text_length _ := rfl

/-- The last CPU, whose events are recorded. -/
def lastCpu : Fin threeCpus.numCpus := (2 : Fin 3)

/-- The process after the one that is killed. -/
def processA : threeCpus.Proc := (4 : Fin 6)

/-- The one after that, which is the last in the queue. -/
def processB : threeCpus.Proc := (5 : Fin 6)

/-- The program that the last CPU runs before. -/
def processQ : threeCpus.Proc := (2 : Fin 6)

/-- So many steps of each thread in turn, none of which reads a name. -/
def stepsOf {numCpus : ℕ} (steps : List (Thread numCpus × ℕ)) : List (Thread numCpus × CStr) :=
  steps.flatMap fun (t, n) => List.replicate n (t, [])

/-- Fourteen time slots, in which the CPUs run the first three programs and the loader adds all six,
and the first steps of the next, in which the first CPU begins to kill. -/
def threeCpusRun : List (Thread threeCpus.numCpus × CStr) :=
  let cpu (id : Fin 3) : Thread threeCpus.numCpus := .cpu id
  let busy := [(cpu 0, 6), (cpu 1, 6), (cpu 2, 6), (.timer, 12)]
  stepsOf
      ([(.ld, 5), (cpu 0, 6), (cpu 1, 3), (cpu 2, 3), (.timer, 12)] ++
        [(.ld, 6), (cpu 0, 6), (cpu 1, 7), (cpu 2, 4), (.timer, 12)] ++
        [(.ld, 6), (cpu 0, 6), (cpu 1, 6), (cpu 2, 7), (.timer, 12)] ++
        (.ld, 6) :: busy ++ (.ld, 6) :: busy ++ (.ld, 6) :: busy ++ (.ld, 4) :: busy ++
        (List.replicate 7 busy).flatten ++ [(cpu 0, 4)]) ++
    [(cpu 0, cstr "input/proc/x")]

/-- The queue is x, a, b. The first CPU has shifted a to the front when the others, which have
finished, call `get_proc`: they get a twice. -/
def tornKillRun : List (Thread threeCpus.numCpus × CStr) :=
  let cpu (id : Fin 3) : Thread threeCpus.numCpus := .cpu id
  threeCpusRun ++
    stepsOf [(cpu 0, 12), (cpu 1, 7), (cpu 2, 6), (cpu 0, 143), (.timer, 12), (cpu 2, 2)]

/-- The others call `get_proc` once the first CPU has left `__sys_killall`, and get a and b. -/
def apartKillRun : List (Thread threeCpus.numCpus × CStr) :=
  let cpu (id : Fin 3) : Thread threeCpus.numCpus := .cpu id
  threeCpusRun ++
    stepsOf [(cpu 0, 158), (cpu 1, 7), (cpu 2, 7), (.timer, 12), (cpu 2, 2)]

/-- The last CPU runs a program of 12 instructions before. -/
def lastCpuEvents : List (SliceEvent threeCpus.Proc) :=
  [.nextSlot, .nextSlot, .dispatch processQ 0] ++ sliceRuns processQ 12 ++ [.finish processQ]

/-- The last CPU dispatches b and calls `run` on it once, which is all that b has to execute. -/
theorem time_slices_exact_apart : ∃ (x : Killing threeCpus) (es : _),
    ((apartSystem threeCpus).recording (Killing.sliceEvents lastCpu)).Run apartKillRun (x, es) ∧
      es = lastCpuEvents ++ [.dispatch processB 0, .run processB, .nextSlot, .finish processB] ∧
      ExactSlices threeCpus.timeSlot threeCpus.codeSize es := by
  have hstate : (apartKillRun.foldlM
      (fun (y : Killing threeCpus × List (SliceEvent threeCpus.Proc)) t =>
        if y.1.Apart t then (killingStep y.1 t).map fun x' =>
          (x', y.2 ++ Killing.sliceEvents lastCpu y.1 t) else none)
        (bootKilling threeCpus, [])).map Prod.snd =
      some (lastCpuEvents ++
        [.dispatch processB 0, .run processB, .nextSlot, .finish processB]) := by
    decide +kernel
  obtain ⟨⟨x, es⟩, hx, hes⟩ := Option.map_eq_some_iff.mp hstate
  have hrun : ((apartSystem threeCpus).recording
      (Killing.sliceEvents lastCpu)).Run apartKillRun (x, es) := by
    have hinit : ((apartSystem threeCpus).recording (Killing.sliceEvents lastCpu)).init
        (bootKilling threeCpus, []) := ⟨rfl, rfl⟩
    refine Run.of_foldlM (fun y t z hz => ?_) hinit hx
    split_ifs at hz with hapart
    obtain ⟨x', hx', rfl⟩ := Option.map_eq_some_iff.mp hz
    exact ⟨⟨hapart, hx'⟩, rfl⟩
  have hslices := time_slices_exact (by decide) (by decide) hrun.of_recording lastCpu
  exact ⟨x, es, hrun, hes, hslices.2.1 es hrun⟩

/-- The last CPU dispatches a at its end, which the other CPU has executed meanwhile, and calls
`run` on it once. -/
theorem time_slices_fail : ∃ (x : Killing threeCpus) (es : _),
    ((killingSystem threeCpus).recording (Killing.sliceEvents lastCpu)).Run tornKillRun (x, es) ∧
      ¬ ExactSlices threeCpus.timeSlot threeCpus.codeSize es := by
  have hstate : (tornKillRun.foldlM
      (fun (y : Killing threeCpus × List (SliceEvent threeCpus.Proc)) t =>
        (killingStep y.1 t).map fun x' =>
          (x', y.2 ++ Killing.sliceEvents lastCpu y.1 t))
        (bootKilling threeCpus, [])).map Prod.snd =
      some (lastCpuEvents ++
        [.dispatch processA 1, .run processA, .nextSlot, .finish processA]) := by
    decide +kernel
  obtain ⟨⟨x, es⟩, hx, hes⟩ := Option.map_eq_some_iff.mp hstate
  refine ⟨x, es, ?_, ?_⟩
  · have hinit : ((killingSystem threeCpus).recording (Killing.sliceEvents lastCpu)).init
        (bootKilling threeCpus, []) := ⟨rfl, rfl⟩
    refine Run.of_foldlM (fun y t z hz => ?_) hinit hx
    obtain ⟨x', hx', rfl⟩ := Option.map_eq_some_iff.mp hz
    exact ⟨hx', rfl⟩
  · intro hexact
    obtain ⟨-, n, hn, hmid⟩ := hexact lastCpuEvents processA 1 [.run processA, .nextSlot]
      (.finish processA) [] hes rfl (by simp [SliceEvent.ends])
    -- the slice of one call would have none
    have hzero : min threeCpus.timeSlot ((threeCpus.codeSize processA : ℤ) - (1 : ℕ)) = 0 := by
      decide
    obtain rfl : n = 0 := by omega
    simp [sliceRuns] at hmid

end OsSim
