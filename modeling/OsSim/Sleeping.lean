import OsSim.Ending
import OsSim.Lib.WeakSimulation

/-!
# Threads That Sleep

A thread of `Sim` that waits has no step to take. In the code it sleeps: the loops of `next_slot`
and of the timer test their condition and fall asleep on a condition variable in one section, and
a sleeping thread goes on only after it was signalled, or woke up by itself, and then tests again.
`next_slot` and `detach_event` signal the `event_cond` of their device, on which the timer may
sleep, and the timer signals the `timer_cond` of each device that it lets continue. `main` sleeps
in `pthread_join`, which needs no signal.

## How the argument goes

`Sleeping` has, beside the state of `Sim`, which threads are asleep. A thread may fall asleep where
the test of its loop holds, and then takes no step until a step of another thread signals it or it
wakes up by itself. What could go wrong is that a signal comes before the thread is asleep, and is
lost, so that the thread sleeps although it could go on. It does not: whoever sleeps has to wait
(`SleepOk`). For a step that ends the wait of a thread signals that thread (`waits_of_simStep`), and
the test and falling asleep are one section under the lock that the signaller takes.

So a thread that has a step to take is awake, and sleeping changes nothing about what the threads
can do. The steps that are neither falling asleep nor waking up are steps of `Sim`, and whatever is
inevitable there is inevitable with sleeping threads, in as many steps.

## Main results

* `waits_of_simStep`: a step that ends a wait signals the thread.
* `SleepOk.step`: **whoever sleeps has to wait**.
* `no_wakeup_lost`: **no wakeup is lost**.
* `comes_about_asleep`: what comes about in `Sim` comes about with threads that sleep.
-/

namespace OsSim

open TransitionSystem

/-! ### Waiting and signalling -/

/-- The thread that calls `next_slot` for a device. -/
def Device.thread {n : ℕ} : Device n → Thread n
  | .cpu id => .cpu id
  | .ld => .ld

section Sim

variable {cfg : SimConfig} {s s' : Sim cfg} {t t' : Thread cfg.numCpus}

/-- The thread of a device is in the second section of `next_slot`. -/
def Sim.inSlotWait (s : Sim cfg) : Device cfg.numCpus → Bool
  | .cpu id => (s.os.cpu id).label = .slotWait
  | .ld => s.os.ld = .waitSlot ∨ s.os.ld = .nextSlot

/-- The thread is in a loop that waits on a condition variable, and the test of the loop holds. -/
def Sim.waits (s : Sim cfg) : Thread cfg.numCpus → Bool
  | .cpu id => s.inSlotWait (.cpu id) && (s.os.clock.dev (.cpu id)).done
  | .ld => s.inSlotWait .ld && (s.os.clock.dev .ld).done
  | .timer =>
      match s.os.clock.label with
      | .wait (d :: _) _ _ => !(s.os.clock.dev d).ready
      | _ => false
  | .main => false

/-- The timer, where it is in the loop that waits on the `event_cond` of `d`. -/
def Sim.onEvent (s : Sim cfg) (d : Device cfg.numCpus) : Option (Thread cfg.numCpus) :=
  if s.os.clock.label.waitsFor = some d then some .timer else none

/-- The thread that may sleep where the next step of a thread signals. -/
def Sim.signals (s : Sim cfg) : Thread cfg.numCpus → Option (Thread cfg.numCpus)
  | .cpu id =>
      if (s.os.cpu id).label = .slotSet ∨ (s.os.cpu id).label = .detach then s.onEvent (.cpu id)
      else none
  | .ld => if s.os.ld ∈ [.waitSet, .nextSet, .detach] then s.onEvent .ld else none
  | .timer =>
      match s.os.clock.label with
      | .release (d :: _) _ _ => some d.thread
      | _ => none
  | .main => none

/-- A thread that has to wait has no step to take. -/
theorem simStep_of_waits (h : s.waits t = true) (name : CStr) : simStep s (t, name) = none := by
  cases t with
  | cpu id =>
      rcases hx : s.os.cpu id with ⟨label, proc, τ⟩
      obtain ⟨rfl, hdone⟩ : label = .slotWait ∧ (s.os.clock.dev (.cpu id)).done = true := by
        simpa [Sim.waits, Sim.inSlotWait, hx] using h
      simp [simStep, simCpuStep, cpuStep, hx, hdone]
  | ld =>
      obtain ⟨hl | hl, hdone⟩ : (s.os.ld = .waitSlot ∨ s.os.ld = .nextSlot) ∧
          (s.os.clock.dev .ld).done = true := by
        simpa [Sim.waits, Sim.inSlotWait] using h
      · simp [simStep, osStep, ldStep, hl, hdone]
      · simp [simStep, osStep, ldStep, hl, hdone]
  | timer =>
      rw [Sim.waits] at h
      split at h
      · rename_i d rest fsh event hl
        simp [simStep, osStep, timerStep, hl, (Bool.not_eq_true' _).mp h]
      · cases h
  | main => cases h

/-- The timer clears the flag of the device that it lets continue, and of no other. -/
theorem timerStep_done {δ : Type} [DecidableEq δ] {devList : List δ} {stop : Bool} {c c' : Clock δ}
    (hst : timerStep devList stop c = some c') (d : δ) :
    (c'.dev d).done = (c.dev d).done ∨
      ∃ rest fsh event, c.label = .release (d :: rest) fsh event := by
  rw [timerStep] at hst
  split at hst
  · split at hst <;> exact Or.inl (Option.some.inj hst ▸ rfl)
  · exact Or.inl (Option.some.inj hst ▸ rfl)
  · split at hst
    · exact Or.inl (Option.some.inj hst ▸ rfl)
    · cases hst
  · exact Or.inl (Option.some.inj hst ▸ rfl)
  · rename_i d' rest fsh event hl
    obtain rfl := Option.some.inj hst
    by_cases hd : d = d'
    · subst hd
      exact Or.inr ⟨rest, fsh, event, hl⟩
    · exact Or.inl (by simp [Clock.release, Function.update_of_ne hd])
  · split at hst <;> exact Or.inl (Option.some.inj hst ▸ rfl)
  · cases hst

/-- A step of a thread other than the timer leaves the clock as it is, or raises a flag of its own
device, and signals there. -/
theorem clock_of_simStep {name : CStr} (hst : simStep s (t, name) = some s') (ht : t ≠ .timer) :
    s'.os.clock = s.os.clock ∨ ∃ d, d.thread = t ∧ s.signals t = s.onEvent d ∧
      (s'.os.clock = s.os.clock.signal d ∨ s'.os.clock = s.os.clock.detachEvent d) := by
  rcases simStep_cases hst with
    ⟨id, rfl, hcpu⟩ | ⟨rfl, os, hld, rfl⟩ | ⟨rfl, clock, -, rfl⟩ | ⟨rfl, rfl⟩
  · rcases hcpu.threads with ⟨proc, τ, ins, -, -, -, rfl⟩ | ⟨os, hos, hsame⟩
    · exact Or.inl rfl
    · rw [hsame.clock]
      cases hos with
      | slotSet proc τ hx =>
          exact Or.inr ⟨.cpu id, rfl, by simp [Sim.signals, hx], Or.inl rfl⟩
      | detach proc τ hx =>
          exact Or.inr ⟨.cpu id, rfl, by simp [Sim.signals, hx], Or.inr rfl⟩
      | _ => exact Or.inl rfl
  · cases hld with
    | waitSet hl | nextSet hl =>
        exact Or.inr ⟨.ld, rfl, by simp [Sim.signals, hl], Or.inl rfl⟩
    | detach hl => exact Or.inr ⟨.ld, rfl, by simp [Sim.signals, hl], Or.inr rfl⟩
    | _ => exact Or.inl rfl
  · exact absurd rfl ht
  · exact Or.inl rfl

/-- A step of one device's thread leaves the flags of the others. -/
theorem dev_of_simStep {name : CStr} (hst : simStep s (t, name) = some s') (ht : t ≠ .timer)
    {d : Device cfg.numCpus} (hd : d.thread ≠ t) : s'.os.clock.dev d = s.os.clock.dev d := by
  rcases clock_of_simStep hst ht with hclock | ⟨d', hthread, -, hclock | hclock⟩
  · rw [hclock]
  · have hne : d ≠ d' := fun heq => hd (heq ▸ hthread)
    rw [hclock]
    exact Function.update_of_ne hne _ _
  · have hne : d ≠ d' := fun heq => hd (heq ▸ hthread)
    rw [hclock]
    exact Function.update_of_ne hne _ _

/-- A step of another thread leaves the thread of a device where it is. -/
theorem inSlotWait_of_simStep {name : CStr} (hst : simStep s (t, name) = some s')
    {d : Device cfg.numCpus} (hd : d.thread ≠ t) : s'.inSlotWait d = s.inSlotWait d := by
  rcases simStep_cases hst with
    ⟨id, rfl, hcpu⟩ | ⟨rfl, os, hld, rfl⟩ | ⟨rfl, clock, -, rfl⟩ | ⟨rfl, rfl⟩
  · obtain ⟨hld, -, -, hother⟩ := hcpu.frame
    cases d with
    | cpu id' => simp only [Sim.inSlotWait, hother id' fun hid => hd (hid ▸ rfl)]
    | ld => simp only [Sim.inSlotWait, hld]
  · cases d with
    | cpu id => simp only [Sim.inSlotWait, hld.frame.1]
    | ld => exact absurd rfl hd
  · rfl
  · rfl

/-- The thread of a device waits where its `done` flag is set in the second section of `next_slot`.
-/
theorem Sim.waits_thread (s : Sim cfg) (d : Device cfg.numCpus) :
    s.waits d.thread = (s.inSlotWait d && (s.os.clock.dev d).done) := by
  cases d <;> rfl

/-- **A step that ends a wait signals the thread.** -/
theorem waits_of_simStep {name : CStr} (h : s.waits t' = true)
    (hst : simStep s (t, name) = some s') (hsig : s.signals t ≠ some t') : s'.waits t' = true := by
  have hne : t' ≠ t := by
    rintro rfl
    rw [simStep_of_waits h] at hst
    cases hst
  have hdevice (d : Device cfg.numCpus) (hd : d.thread = t') : s'.waits d.thread = true := by
    subst hd
    rw [Sim.waits_thread, Bool.and_eq_true] at h ⊢
    refine ⟨(inSlotWait_of_simStep hst hne).trans h.1, ?_⟩
    by_cases ht : t = .timer
    · -- the timer clears the flag of the thread that it signals
      subst ht
      obtain ⟨os, hos, rfl⟩ := Option.map_eq_some_iff.mp hst
      obtain ⟨clock, hclock, rfl⟩ := Option.map_eq_some_iff.mp hos
      rcases timerStep_done hclock d with hsame | ⟨rest, fsh, event, hl⟩
      · exact hsame.trans h.2
      · exact absurd (by simp [Sim.signals, hl]) hsig
    · rw [dev_of_simStep hst ht hne]
      exact h.2
  cases t' with
  | cpu id => exact hdevice (.cpu id) rfl
  | ld => exact hdevice .ld rfl
  | main => cases h
  | timer =>
      rw [Sim.waits] at h
      split at h
      · rename_i d rest fsh event hl
        have hwaits : s.os.clock.label.waitsFor = some d := by rw [hl]; rfl
        -- the device that it waits for signals when it raises a flag
        have hclock : s'.os.clock.label = s.os.clock.label ∧
            s'.os.clock.dev d = s.os.clock.dev d := by
          rcases clock_of_simStep hst hne.symm with hclock | ⟨d', -, hevent, hclock⟩
          · rw [hclock]
            exact ⟨rfl, rfl⟩
          · have hd : d ≠ d' := by
              rintro rfl
              exact hsig (by rw [hevent, Sim.onEvent, if_pos hwaits])
            rcases hclock with hclock | hclock <;> rw [hclock]
            · exact ⟨rfl, Function.update_of_ne hd _ _⟩
            · exact ⟨rfl, Function.update_of_ne hd _ _⟩
        simp only [Sim.waits, hclock.1, hl, hclock.2]
        exact h
      · cases h

end Sim

/-! ### Threads that sleep -/

/-- The simulation, and which threads are asleep on their condition variables. -/
structure Sleeping (cfg : SimConfig) where
  sim : Sim cfg
  asleep : Thread cfg.numCpus → Bool

/-- A thread takes a step of its own, tests its condition and falls asleep, or wakes up without
having been signalled. -/
inductive SleepEvent (numCpus : ℕ) where
  | run (t : Thread numCpus) (name : CStr)
  | sleep (t : Thread numCpus)
  | wake (t : Thread numCpus)
  deriving DecidableEq

/-- The step of `Sim` that an event is, if it is one. -/
def SleepEvent.simSteps {n : ℕ} : SleepEvent n → List (Thread n × CStr)
  | .run t name => [(t, name)]
  | .sleep _ | .wake _ => []

/-- The steps of the CPUs, the loader and the timer, without falling asleep and waking up. -/
def SleepEvent.works {n : ℕ} : SleepEvent n → Bool
  | .run t name => Thread.works (t, name)
  | .sleep _ | .wake _ => false

variable {cfg : SimConfig} {k k' : Sleeping cfg} {es : List (SleepEvent cfg.numCpus)}

/-- The threads that are asleep after a step of `t`. -/
def Sleeping.stillAsleep (k : Sleeping cfg) (t : Thread cfg.numCpus) : Thread cfg.numCpus → Bool :=
  match k.sim.signals t with
  | some t' => Function.update k.asleep t' false
  | none => k.asleep

/-- One step; a thread that is asleep takes none of its own. -/
def sleepStep (k : Sleeping cfg) : SleepEvent cfg.numCpus → Option (Sleeping cfg)
  | .run t name =>
      if k.asleep t then none
      else (simStep k.sim (t, name)).map fun sim => { sim := sim, asleep := k.stillAsleep t }
  | .sleep t =>
      if k.asleep t = false ∧ k.sim.waits t = true then
        some { k with asleep := Function.update k.asleep t true }
      else none
  | .wake t =>
      if k.asleep t then some { k with asleep := Function.update k.asleep t false } else none

/-- The start: no thread is asleep. -/
def bootSleeping (cfg : SimConfig) : Sleeping cfg where
  sim := bootSim cfg
  asleep _ := false

/-- All threads, in any order, with falling asleep and waking up. -/
def sleepSystem (cfg : SimConfig) : TransitionSystem (Sleeping cfg) (SleepEvent cfg.numCpus) where
  init k := k = bootSleeping cfg
  step k e k' := sleepStep k e = some k'

/-! ### Whoever sleeps has to wait -/

/-- A thread that is asleep after a step was so before, and was not signalled. -/
theorem of_stillAsleep {t t' : Thread cfg.numCpus} (h : k.stillAsleep t t' = true) :
    k.asleep t' = true ∧ k.sim.signals t ≠ some t' := by
  rw [Sleeping.stillAsleep] at h
  cases hsig : k.sim.signals t with
  | none => exact ⟨by simpa [hsig] using h, by simp⟩
  | some t'' =>
      simp only [hsig] at h
      by_cases ht : t' = t''
      · simp [ht] at h
      · exact ⟨by simpa [Function.update_of_ne ht] using h, by simpa using Ne.symm ht⟩

/-- **Whoever sleeps has to wait**: the test of its loop holds. -/
def SleepOk (k : Sleeping cfg) : Prop := ∀ t, k.asleep t = true → k.sim.waits t = true

/-- **Whoever sleeps has to wait**, after any step: a step that ends a wait wakes its thread. -/
theorem SleepOk.step (h : SleepOk k) {e : SleepEvent cfg.numCpus}
    (hst : sleepStep k e = some k') : SleepOk k' := by
  intro t' hasleep
  cases e with
  | run t name =>
      rw [sleepStep] at hst
      split at hst
      · cases hst
      · obtain ⟨sim, hsim, rfl⟩ := Option.map_eq_some_iff.mp hst
        obtain ⟨hold, hsig⟩ := of_stillAsleep hasleep
        exact waits_of_simStep (h t' hold) hsim hsig
  | sleep t =>
      rw [sleepStep] at hst
      split at hst
      · rename_i hwaits
        obtain rfl := Option.some.inj hst
        by_cases ht : t' = t
        · exact ht ▸ hwaits.2
        · exact h t' (by simpa [Function.update_of_ne ht] using hasleep)
      · cases hst
  | wake t =>
      rw [sleepStep] at hst
      split at hst
      · obtain rfl := Option.some.inj hst
        by_cases ht : t' = t
        · simp [ht] at hasleep
        · exact h t' (by simpa [Function.update_of_ne ht] using hasleep)
      · cases hst

/-- **Whoever sleeps has to wait**, in every state of every interleaving. -/
theorem SleepOk.of_run (hrun : (sleepSystem cfg).Run es k) : SleepOk k := by
  refine hrun.invariant ?_ fun k e k' hk hst => hk.step hst
  rintro k rfl t hasleep
  simp [bootSleeping] at hasleep

/-- A thread that has a step to take is awake. -/
theorem SleepOk.goes_on (h : SleepOk k) {t : Thread cfg.numCpus} {name : CStr} {s' : Sim cfg}
    (hst : simStep k.sim (t, name) = some s') : ∃ k', sleepStep k (.run t name) = some k' := by
  have hawake : k.asleep t = false := by
    by_contra hasleep
    rw [simStep_of_waits (h t (by simpa using hasleep))] at hst
    cases hst
  exact ⟨_, by rw [sleepStep, hawake, hst]; rfl⟩

/-! ### What it does is what `Sim` does -/

/-- **Each step is one of `Sim`, or none**: a weak simulation, which forgets who sleeps. -/
theorem sleepToSim (cfg : SimConfig) :
    WeakSimulation (sleepSystem cfg) (simSystem cfg) (fun _ => SleepEvent.simSteps)
      fun k s => s = k.sim ∧ SleepOk k where
  init := by
    rintro k rfl
    exact ⟨_, rfl, rfl, SleepOk.of_run (Run.init rfl)⟩
  step := by
    rintro k _ e k' ⟨rfl, hk⟩ (hst : sleepStep k e = some k')
    refine ⟨k'.sim, ?_, rfl, hk.step hst⟩
    cases e with
    | run t name =>
        rw [sleepStep] at hst
        split at hst
        · cases hst
        · obtain ⟨sim, hsim, rfl⟩ := Option.map_eq_some_iff.mp hst
          exact Run.startingAt_one hsim
    | sleep t | wake t =>
        rw [sleepStep] at hst
        split at hst
        · obtain rfl := Option.some.inj hst
          exact Run.startingAt_nil _ _
        · cases hst

/-- The steps that are taken are a run of the threads that do not sleep. -/
theorem sim_run (hrun : (sleepSystem cfg).Run es k) :
    (simSystem cfg).Run (es.flatMap SleepEvent.simSteps) k.sim := by
  obtain ⟨s, hs, rfl, -⟩ := (sleepToSim cfg).run (hrun.recording_labels SleepEvent.simSteps)
  exact hs

/-- **No wakeup is lost.** In every interleaving, spurious wakeups and programs that kill included,
the threads have done what threads that do not sleep can do, and the CPUs, the loader and the timer
are all gone, or one of them is awake and can take a step. -/
theorem no_wakeup_lost (hrun : (sleepSystem cfg).Run es k) :
    (simSystem cfg).Run (es.flatMap SleepEvent.simSteps) k.sim ∧
      ((k.sim.os.Left ∧ k.sim.os.clock.label = .exited) ∨
        ∃ t, t ≠ .main ∧ ∀ name, ∃ k', sleepStep k (.run t name) = some k') := by
  refine ⟨sim_run hrun, ?_⟩
  refine (somebody_goes_on (ThreadsOk.of_run (sim_run hrun))).imp_right ?_
  rintro ⟨t, ht, hst⟩
  refine ⟨t, ht, fun name => ?_⟩
  obtain ⟨s', hs'⟩ := hst name
  exact (SleepOk.of_run hrun).goes_on hs'

/-- **What comes about comes about with threads that sleep**: from every reachable state on,
whatever the threads of `Sim` come to, in whatever order they take their steps, threads that sleep
come to in as many steps of their own. -/
theorem comes_about_asleep (hrun : (sleepSystem cfg).Run es k) {P : Sim cfg → Prop} {N : ℕ}
    (h : Inevitable ((simSystem cfg).startingAt k.sim) Thread.works P N) :
    Inevitable ((sleepSystem cfg).startingAt k) SleepEvent.works (fun k => P k.sim) N := by
  have hsim := (sleepToSim cfg).startingAt (s := k) ⟨rfl, SleepOk.of_run hrun⟩
  refine (hsim.inevitable ?_ ?_ h).imp ?_
  · intro k e k' hst hworks
    cases e with
    | run t name =>
        have hone : Thread.works (t, name) = true := hworks
        simp [SleepEvent.simSteps, hone]
    | sleep t | wake t => cases hworks
  · rintro k _ ⟨t, name⟩ s' ⟨rfl, hk⟩ hworks hst
    obtain ⟨k', hk'⟩ := hk.goes_on hst
    exact ⟨.run t name, k', hworks, hk'⟩
  · rintro es k - ⟨_, ⟨rfl, -⟩, hP⟩
    exact hP

/-! ### A timer that is woken -/

/-- The timer falls asleep on the `event_cond` of the loader, which adds the program and calls
`next_slot`. -/
def timerWoken : List (SleepEvent threeInstructions.numCpus) :=
  [.run .timer [], .sleep .timer] ++ List.replicate 5 (.run .ld [])

/-- The timer has been signalled by the loader, and is awake. -/
theorem timerWoken_state : ∃ k : Sleeping threeInstructions,
    (sleepSystem threeInstructions).Run timerWoken k ∧ k.asleep .timer = false ∧
      k.sim.os.clock.label ≠ .exited := by
  have hstate : (timerWoken.foldlM sleepStep (bootSleeping _)).map
      (fun k => decide (k.asleep .timer = false ∧ k.sim.os.clock.label ≠ .exited)) = some true := by
    decide +kernel
  obtain ⟨k, hk, hdecide⟩ := Option.map_eq_some_iff.mp hstate
  exact ⟨k, Run.of_foldlM (fun _ _ _ h => h) rfl hk, of_decide_eq_true hdecide⟩

/-- The timer is awake, and some thread can take a step. -/
theorem no_wakeup_lost_threeInstructions : ∃ k : Sleeping threeInstructions,
    (sleepSystem threeInstructions).Run timerWoken k ∧ k.asleep .timer = false ∧
      ∃ t, t ≠ .main ∧ ∀ name, ∃ k', sleepStep k (.run t name) = some k' := by
  obtain ⟨k, hrun, hawake, hl⟩ := timerWoken_state
  exact ⟨k, hrun, hawake, (no_wakeup_lost hrun).2.resolve_left fun hends => hl hends.2⟩

/-- The program is executed also where threads sleep. -/
theorem comes_about_asleep_threeInstructions : ∃ k : Sleeping threeInstructions,
    (sleepSystem threeInstructions).Run timerWoken k ∧
      Inevitable ((sleepSystem threeInstructions).startingAt k) SleepEvent.works
        (fun k => ∀ p, k.sim.executed p = threeInstructions.text p) (4 * 23) := by
  obtain ⟨k, hrun, -⟩ := timerWoken_state
  have harrival : ∀ p, threeInstructions.arrival p ≤ 0 := by decide
  have hexecuted := executed_comes_about plain_threeInstructions harrival (sim_run hrun)
  exact ⟨k, hrun, comes_about_asleep hrun hexecuted⟩

end OsSim
