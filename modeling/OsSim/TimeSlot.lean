import OsSim.Lib.Transition
import OsSim.Timer
import Mathlib.Data.List.FinRange

/-!
# The Time Slot

Devices that call `next_slot` again and again, until they call `detach_event`, over the timer
thread. A step is a section under one lock; the test of a condition variable's loop and falling
asleep on it are one section, a thread that is woken tests again, and a sleeping thread may
wake at any time.

The devices do between two calls whatever they like, which is nothing here. `next_slot` has two
sections: it raises its flag and signals `event_cond`, and then it waits on `timer_cond` until the
flag is cleared. `timer_routine` waits on `event_cond` of one device after the other, moves `_time`
on, and then clears the flags and signals each `timer_cond`. A signal that nobody waits for is lost,
and what has to be shown is that this never matters.

The invariant has two parts that a history is needed for: `SlotInv` speaks of the steps made so far
(`es`), of which it counts the calls of `next_slot` that a device has completed, and looks up
whether it has started one since the last `_time++`. `DevOk` says at each position of a device how
its count compares with `_time` and what its flags are; `TimerCount` says at each position of the
timer what its two counters are worth, so that it leaves only when all devices have detached.

From these it follows that whoever waits is let continue (`SlotInv.not_stuck`): if all devices that
are not detached are inside `next_slot`, then one of them or the timer has a section to do that is
no spurious wakeup. A signal is never lost, since the one who would miss it is awake.

## Main results

* `DevOk`, `TimerCount`: what a device has done in the current time slot, and what the timer's
  counters say, at every position of the two loops.
* `SlotInv.step`: **every section keeps the invariant**.
* `time_slot_barrier`: **the time slots are a barrier**.
-/

namespace OsSim

open TransitionSystem

variable {δ : Type}

/-! ### The threads -/

/-- Where a device is: outside `next_slot`, before its first section, before the test of its
wait, asleep on `timer_cond`, or past `detach_event`. -/
inductive DevPhase where
  | idle
  | entering
  | checking
  | asleep
  | detached
  deriving DecidableEq, Repr

/-- The timer, asleep on an `event_cond` or not, and the devices. -/
structure Slots (δ : Type) where
  clock : Clock δ
  timerAsleep : Bool
  phase : δ → DevPhase

/-- The steps. `tick` is `_time++`, `timer` any other section of the timer; a device starts a
call of `next_slot`, has its flag set, finds it still set, or returns; `timerWake` and `wake` are
spurious. -/
inductive SlotEvent (δ : Type) where
  | timer
  | tick
  | timerWake
  | start (d : δ)
  | signal (d : δ)
  | check (d : δ)
  | ret (d : δ)
  | wake (d : δ)
  | detach (d : δ)
  deriving DecidableEq

/-- The sections of the timer and of `next_slot`, without the spurious wakeups. -/
def SlotEvent.own : SlotEvent δ → Bool
  | .timer | .tick | .signal _ | .check _ | .ret _ => true
  | .timerWake | .start _ | .wake _ | .detach _ => false

/-- The device whose `event_cond` the timer waits on, or is about to wait on. -/
def TimerLabel.waitsFor : TimerLabel δ → Option δ
  | .wait (d :: _) _ _ => some d
  | _ => none

variable [DecidableEq δ]

/-- `pthread_cond_signal` on the `event_cond` of `d`: whether the timer sleeps afterwards. -/
def Slots.signalEvent (s : Slots δ) (d : δ) : Bool :=
  if s.clock.label.waitsFor = some d then false else s.timerAsleep

/-- `pthread_cond_signal` on the `timer_cond` of `d`: a sleeping device tests again. -/
def Slots.signalTimer (s : Slots δ) (d : δ) : δ → DevPhase :=
  if s.phase d = .asleep then Function.update s.phase d .checking else s.phase

/-- A section of the timer other than `_time++`. It falls asleep where its loop test holds. -/
def Slots.timerSection (devList : List δ) (s : Slots δ) : Option (Slots δ) :=
  match s.clock.label, timerStep devList false s.clock with
  | .incr _ _, _ => none
  | .wait _ _ _, none => some { s with timerAsleep := true }
  | .release (d :: _) _ _, some clock =>
      some { s with clock := clock, phase := s.signalTimer d }
  | _, clock => clock.map fun clock => { s with clock := clock }

/-- One step; `none` where the thread cannot do it, because it sleeps, waits or is elsewhere. -/
def slotStep (devList : List δ) (s : Slots δ) : SlotEvent δ → Option (Slots δ)
  | .timer => if s.timerAsleep then none else s.timerSection devList
  | .tick =>
      match s.timerAsleep, s.clock.label with
      | false, .incr _ _ =>
          (timerStep devList false s.clock).map fun clock => { s with clock := clock }
      | _, _ => none
  | .timerWake => if s.timerAsleep then some { s with timerAsleep := false } else none
  | .start d =>
      if s.phase d = .idle then some { s with phase := Function.update s.phase d .entering }
      else none
  | .signal d =>
      if s.phase d = .entering then
        some
          { clock := s.clock.signal d
            timerAsleep := s.signalEvent d
            phase := Function.update s.phase d .checking }
      else none
  | .check d =>
      if s.phase d = .checking ∧ (s.clock.dev d).done = true then
        some { s with phase := Function.update s.phase d .asleep }
      else none
  | .ret d =>
      if s.phase d = .checking ∧ (s.clock.dev d).done = false then
        some { s with phase := Function.update s.phase d .idle }
      else none
  | .wake d =>
      if s.phase d = .asleep then some { s with phase := Function.update s.phase d .checking }
      else none
  | .detach d =>
      if s.phase d = .idle then
        some
          { clock := s.clock.detachEvent d
            timerAsleep := s.signalEvent d
            phase := Function.update s.phase d .detached }
      else none

/-- The start: every device is outside `next_slot`. -/
def bootSlots : Slots δ where
  clock := { label := .top, dev := fun _ => { done := false, fsh := false }, time := 0 }
  timerAsleep := false
  phase _ := .idle

/-- The timer and its devices, in any order. -/
def slotSystem (devList : List δ) : TransitionSystem (Slots δ) (SlotEvent δ) where
  init s := s = bootSlots
  step s e s' := slotStep devList s e = some s'

/-- `dev_list` after `n` calls of `attach_event`, each of which puts its device at the head. -/
def attachAll (n : ℕ) : List (Fin n) :=
  (List.finRange n).foldl (fun devList d => d :: devList) []

/-! ### What the timer can do -/

/-- The timer is still to let `d` continue in this round. -/
def Unreleased (c : Clock δ) (d : δ) : Prop :=
  ∃ rest fsh event, c.label = .release rest fsh event ∧ d ∈ rest

/-- The sections of the timer other than `_time++`, one constructor for each. -/
inductive TimerMove (devList : List δ) (s : Slots δ) : Slots δ → Prop
  | sleep (d : δ) (rest : List δ) (fsh event : ℕ) (hl : s.clock.label = .wait (d :: rest) fsh event)
      (hready : (s.clock.dev d).ready = false) : TimerMove devList s { s with timerAsleep := true }
  | release (d : δ) (rest : List δ) (fsh event : ℕ)
      (hl : s.clock.label = .release (d :: rest) fsh event) :
      TimerMove devList s
        { s with
          clock := { s.clock.release d with label := .release rest fsh event }
          phase := s.signalTimer d }
  | move (clock : Clock δ) (hst : timerStep devList false s.clock = some clock)
      (hdev : clock.dev = s.clock.dev) (htime : clock.time = s.clock.time)
      (hbefore : ∀ d, ¬ Unreleased s.clock d) (hafter : ∀ d, ¬ Unreleased clock d) :
      TimerMove devList s { s with clock := clock }

variable {devList : List δ} {s s' : Slots δ}

/-- **What a section of the timer can do**: fall asleep, go on to the next device, or start or end
one of its loops. -/
theorem timerSection_cases (h : s.timerSection devList = some s') : TimerMove devList s s' := by
  rw [Slots.timerSection, timerStep] at h
  rcases hl : s.clock.label with _ | ⟨_ | ⟨d, rest⟩, fsh, event⟩ | ⟨fsh, event⟩ |
    ⟨_ | ⟨d, rest⟩, fsh, event⟩ | _
  case top =>
    simp only [hl] at h
    refine Option.some.inj h ▸ .move _ (by simp [timerStep, hl]) rfl rfl ?_ ?_ <;>
      simp [Unreleased, hl]
  case wait.nil =>
    simp only [hl] at h
    refine Option.some.inj h ▸ .move _ (by simp [timerStep, hl]) rfl rfl ?_ ?_ <;>
      simp [Unreleased, hl]
  case wait.cons =>
    by_cases hready : (s.clock.dev d).ready = true
    · simp only [hl, hready, if_true] at h
      refine Option.some.inj h ▸ .move _ (by simp [timerStep, hl, hready]) rfl rfl ?_ ?_ <;>
        simp [Unreleased, hl]
    · simp only [hl, hready] at h
      exact Option.some.inj h ▸ .sleep d rest fsh event hl (by simpa using hready)
  case incr => simp [hl] at h
  case release.nil =>
    simp only [hl] at h
    by_cases heq : fsh = event
    · simp only [heq, if_true] at h
      refine Option.some.inj h ▸ .move _ (by simp [timerStep, hl, heq]) rfl rfl ?_ ?_ <;>
        simp [Unreleased, hl]
    · simp only [heq, if_false] at h
      refine Option.some.inj h ▸ .move _ (by simp [timerStep, hl, heq]) rfl rfl ?_ ?_ <;>
        simp [Unreleased, hl]
  case release.cons =>
    simp only [hl] at h
    exact Option.some.inj h ▸ .release d rest fsh event hl
  case exited => simp [hl] at h

/-! ### What has happened -/

/-- `d` has started a call of `next_slot` since the last `_time++`. -/
def SinceTick (es : List (SlotEvent δ)) (d : δ) : Prop :=
  ∃ pre post, es = pre ++ .start d :: post ∧ .start d ∉ post ∧ .tick ∉ post

/-- There has been a `_time++` since `d` last started a call of `next_slot`. -/
def Crossed (es : List (SlotEvent δ)) (d : δ) : Prop :=
  ∃ pre post, es = pre ++ .start d :: post ∧ .start d ∉ post ∧ .tick ∈ post

section History

variable {es : List (SlotEvent δ)} {e : SlotEvent δ} {d : δ}

omit [DecidableEq δ] in
/-- A call that has just been started. -/
theorem SinceTick.start (es : List (SlotEvent δ)) (d : δ) : SinceTick (es ++ [.start d]) d :=
  ⟨es, [], rfl, List.not_mem_nil, List.not_mem_nil⟩

omit [DecidableEq δ] in
/-- Other steps leave it so, but for the next `_time++`. -/
theorem SinceTick.concat (h : SinceTick es d) (hstart : e ≠ .start d) (htick : e ≠ .tick) :
    SinceTick (es ++ [e]) d := by
  obtain ⟨pre, post, rfl, hs, ht⟩ := h
  refine ⟨pre, post ++ [e], by simp, ?_, ?_⟩
  · simpa [hs] using Ne.symm hstart
  · simpa [ht] using Ne.symm htick

omit [DecidableEq δ] in
/-- A `_time++` that has been stays so, until the device starts another call. -/
theorem Crossed.concat (h : Crossed es d) (hstart : e ≠ .start d) : Crossed (es ++ [e]) d := by
  obtain ⟨pre, post, rfl, hs, ht⟩ := h
  refine ⟨pre, post ++ [e], by simp, ?_, List.mem_append_left _ ht⟩
  simpa [hs] using Ne.symm hstart

omit [DecidableEq δ] in
/-- The `_time++` comes after the call, so that the call has crossed it. -/
theorem SinceTick.tick (h : SinceTick es d) : Crossed (es ++ [.tick]) d := by
  obtain ⟨pre, post, rfl, hs, -⟩ := h
  exact ⟨pre, post ++ [.tick], by simp, by simpa using hs, by simp⟩

end History

/-! ### The invariant -/

/-- The calls of `next_slot` that `d` has completed. -/
def calls (es : List (SlotEvent δ)) (d : δ) : ℕ := es.count (.ret d)

/-- `d` has told the timer that it is done: in this time slot, or in the last one, which the
timer is still to let it leave. -/
def Told (es : List (SlotEvent δ)) (c : Clock δ) (d : δ) : Prop :=
  (Unreleased c d → calls es d + 1 = c.time ∧ Crossed es d) ∧
    (¬ Unreleased c d → calls es d = c.time ∧ SinceTick es d)

/-- **What a device has done in the current time slot**, at each of its positions. -/
def DevOk (es : List (SlotEvent δ)) (s : Slots δ) (d : δ) : Prop :=
  match s.phase d with
  | .idle => s.clock.dev d = ⟨false, false⟩ ∧ calls es d = s.clock.time
  | .entering =>
      s.clock.dev d = ⟨false, false⟩ ∧ calls es d = s.clock.time ∧ SinceTick es d
  | .checking =>
      (s.clock.dev d).fsh = false ∧
        ((s.clock.dev d).done = false → calls es d + 1 = s.clock.time ∧ Crossed es d) ∧
        ((s.clock.dev d).done = true → Told es s.clock d)
  | .asleep => s.clock.dev d = ⟨true, false⟩ ∧ Told es s.clock d
  | .detached => (s.clock.dev d).fsh = true

/-- **What the timer's counters say**: it has seen only detached devices where they agree. -/
def TimerCount (devList : List δ) (c : Clock δ) : Prop :=
  match c.label with
  | .top => True
  | .wait rest fsh event =>
      fsh ≤ event ∧ (fsh = event → ∀ d ∈ devList, d ∉ rest → (c.dev d).fsh = true)
  | .incr fsh event | .release _ fsh event => fsh = event → ∀ d ∈ devList, (c.dev d).fsh = true
  | .exited => ∀ d ∈ devList, (c.dev d).fsh = true

/-- The invariant of the time slots, after the steps `es`. -/
structure SlotInv (devList : List δ) (es : List (SlotEvent δ)) (s : Slots δ) : Prop where
  dev : ∀ d, DevOk es s d
  barrier : Barrier devList s.clock
  count : TimerCount devList s.clock
  asleep : s.timerAsleep = true → ∃ d rest fsh event,
    s.clock.label = .wait (d :: rest) fsh event ∧ (s.clock.dev d).ready = false
  time : s.clock.time = es.count .tick

section Invariant

variable {es : List (SlotEvent δ)} {e : SlotEvent δ} {d : δ} {c c' : Clock δ}

/-- A step other than the return of `d` completes no call of `d`. -/
theorem calls_concat (hret : e ≠ .ret d) : calls (es ++ [e]) d = calls es d := by
  simp [calls, List.count_append, hret]

/-- A return completes one. -/
theorem calls_ret (es : List (SlotEvent δ)) (d : δ) :
    calls (es ++ [.ret d]) d = calls es d + 1 := by
  simp [calls, List.count_append]

/-- Steps of others that leave the time and the flags of `d` alone. -/
theorem Told.concat (h : Told es c d) (htime : c'.time = c.time)
    (hunreleased : Unreleased c' d ↔ Unreleased c d) (hret : e ≠ .ret d) (hstart : e ≠ .start d)
    (htick : e ≠ .tick) : Told (es ++ [e]) c' d := by
  rw [Told, calls_concat hret, htime, hunreleased]
  exact ⟨fun hp => ⟨(h.1 hp).1, (h.1 hp).2.concat hstart⟩,
    fun hp => ⟨(h.2 hp).1, (h.2 hp).2.concat hstart htick⟩⟩

/-- A step of another thread that leaves the flags of `d`, and the time, alone. -/
theorem DevOk.concat (h : DevOk es s d) (hphase : s'.phase d = s.phase d)
    (hdev : s'.clock.dev d = s.clock.dev d) (htime : s'.clock.time = s.clock.time)
    (hunreleased : Unreleased s'.clock d ↔ Unreleased s.clock d) (hret : e ≠ .ret d)
    (hstart : e ≠ .start d) (htick : e ≠ .tick) : DevOk (es ++ [e]) s' d := by
  have htold (ht : Told es s.clock d) : Told (es ++ [e]) s'.clock d :=
    ht.concat htime hunreleased hret hstart htick
  rw [DevOk] at h ⊢
  rw [hphase, hdev, htime, calls_concat hret]
  cases hp : s.phase d with
  | idle =>
      simp only [hp] at h
      exact h
  | entering =>
      simp only [hp] at h
      exact ⟨h.1, h.2.1, h.2.2.concat hstart htick⟩
  | checking =>
      simp only [hp] at h
      refine ⟨h.1, ?_, ?_⟩
      · intro hdone
        exact ⟨(h.2.1 hdone).1, (h.2.1 hdone).2.concat hstart⟩
      · intro hdone
        exact htold (h.2.2 hdone)
  | asleep =>
      simp only [hp] at h
      exact ⟨h.1, htold h.2⟩
  | detached =>
      simp only [hp] at h
      exact h

/-- The flags, one by one. -/
theorem TimerId.eq_mk {id : TimerId} {done fsh : Bool} (hdone : id.done = done)
    (hfsh : id.fsh = fsh) : id = ⟨done, fsh⟩ := by
  subst hdone hfsh
  rfl

/-- A device that is not detached and ready has told the timer. -/
theorem DevOk.told (h : DevOk es s d) (hready : (s.clock.dev d).ready = true)
    (hphase : s.phase d ≠ .detached) :
    (s.phase d = .checking ∨ s.phase d = .asleep) ∧ s.clock.dev d = ⟨true, false⟩ ∧
      Told es s.clock d := by
  rw [DevOk] at h
  cases hp : s.phase d with
  | idle =>
      simp only [hp] at h
      simp [h.1, TimerId.ready] at hready
  | entering =>
      simp only [hp] at h
      simp [h.1, TimerId.ready] at hready
  | checking =>
      simp only [hp] at h
      rw [TimerId.ready, h.1, Bool.or_false] at hready
      exact ⟨Or.inl rfl, TimerId.eq_mk hready h.1, h.2.2 hready⟩
  | asleep =>
      simp only [hp] at h
      exact ⟨Or.inr rfl, h.1, h.2⟩
  | detached => exact absurd hp hphase

omit [DecidableEq δ] in
/-- Raising `fsh` keeps what the counters say. -/
theorem TimerCount.mono (h : TimerCount devList c) (hlabel : c'.label = c.label)
    (hfsh : ∀ d, (c.dev d).fsh = true → (c'.dev d).fsh = true) : TimerCount devList c' := by
  rw [TimerCount, hlabel]
  rw [TimerCount] at h
  cases hl : c.label with
  | top => trivial
  | wait rest fsh event =>
      simp only [hl] at h
      exact ⟨h.1, fun heq d hd hr => hfsh d (h.2 heq d hd hr)⟩
  | incr fsh event =>
      simp only [hl] at h
      exact fun heq d hd => hfsh d (h heq d hd)
  | release rest fsh event =>
      simp only [hl] at h
      exact fun heq d hd => hfsh d (h heq d hd)
  | exited =>
      simp only [hl] at h
      exact fun d hd => hfsh d (h d hd)

/-- **A section of the timer keeps what its counters say.** -/
theorem TimerCount.timerStep (h : TimerCount devList c) {stop : Bool}
    (hst : timerStep devList stop c = some c') (hstop : stop = false) :
    TimerCount devList c' := by
  subst hstop
  rw [OsSim.timerStep] at hst
  rw [TimerCount] at h
  split at hst
  · -- the loop test
    obtain rfl := Option.some.inj hst
    exact ⟨le_rfl, fun _ d hd hnot => absurd hd hnot⟩
  · -- all devices have been waited for
    rename_i fsh event hl
    simp only [hl] at h
    obtain rfl := Option.some.inj hst
    exact fun heq d hd => h.2 heq d hd List.not_mem_nil
  · -- one more device is ready
    rename_i d rest fsh event hl
    simp only [hl] at h
    split at hst
    · obtain rfl := Option.some.inj hst
      by_cases hfsh : (c.dev d).fsh = true
      · simp only [TimerCount, hfsh, if_true]
        refine ⟨Nat.succ_le_succ h.1, ?_⟩
        intro heq d' hd' hnot
        by_cases hd : d' = d
        · rw [hd]
          exact hfsh
        · exact h.2 (Nat.succ.inj heq) d' hd' (List.not_mem_cons_of_ne_of_not_mem hd hnot)
      · simp only [TimerCount, hfsh, Bool.false_eq_true, if_false]
        have hle := h.1
        exact ⟨hle.trans (Nat.le_succ event), fun heq => absurd heq (by omega)⟩
    · simp at hst
  · -- the time slot
    rename_i fsh event hl
    simp only [hl] at h
    obtain rfl := Option.some.inj hst
    exact h
  · -- one device continues
    rename_i d rest fsh event hl
    simp only [hl] at h
    obtain rfl := Option.some.inj hst
    intro heq d' hd'
    by_cases hd : d' = d
    · subst hd
      simpa [Clock.release] using h heq d' hd'
    · simpa [Clock.release, hd] using h heq d' hd'
  · -- the end of a round
    rename_i fsh event hl
    simp only [hl] at h
    split at hst
    · rename_i heq
      obtain rfl := Option.some.inj hst
      exact h heq
    · obtain rfl := Option.some.inj hst
      trivial
  · simp at hst

end Invariant

/-- A device that is not detached has completed as many calls as there were time slots, or one
less. -/
theorem DevOk.calls_eq {es : List (SlotEvent δ)} {d : δ} (h : DevOk es s d)
    (hphase : s.phase d ≠ .detached) :
    calls es d = s.clock.time ∨ calls es d + 1 = s.clock.time := by
  have htold (ht : Told es s.clock d) :
      calls es d = s.clock.time ∨ calls es d + 1 = s.clock.time := by
    by_cases hp : Unreleased s.clock d
    · exact Or.inr (ht.1 hp).1
    · exact Or.inl (ht.2 hp).1
  rw [DevOk] at h
  cases hp : s.phase d with
  | idle =>
      simp only [hp] at h
      exact Or.inl h.2
  | entering =>
      simp only [hp] at h
      exact Or.inl h.2.1
  | checking =>
      simp only [hp] at h
      by_cases hdone : (s.clock.dev d).done = true
      · exact htold (h.2.2 hdone)
      · exact Or.inr (h.2.1 (by simpa using hdone)).1
  | asleep =>
      simp only [hp] at h
      exact htold h.2
  | detached => exact absurd hp hphase

/-! ### The steps -/

namespace SlotInv

variable {es : List (SlotEvent δ)} {e : SlotEvent δ} {d : δ}

/-- A step of device `d`, which leaves the time and the other devices alone. -/
theorem device (h : SlotInv devList es s) (hlabel : s'.clock.label = s.clock.label)
    (htime : s'.clock.time = s.clock.time)
    (hother : ∀ d', d' ≠ d → s'.phase d' = s.phase d' ∧ s'.clock.dev d' = s.clock.dev d' ∧
      e ≠ .ret d' ∧ e ≠ .start d')
    (htick : e ≠ .tick) (hd : DevOk (es ++ [e]) s' d) (hbarrier : Barrier devList s'.clock)
    (hcount : TimerCount devList s'.clock)
    (hasleep : s'.timerAsleep = true → s.timerAsleep = true ∧
      (s.clock.label.waitsFor = some d → s'.clock.dev d = s.clock.dev d)) :
    SlotInv devList (es ++ [e]) s' where
  dev d' := by
    by_cases heq : d' = d
    · exact heq ▸ hd
    · obtain ⟨hphase, hdev, hret, hstart⟩ := hother d' heq
      exact (h.dev d').concat hphase hdev htime (by simp [Unreleased, hlabel]) hret hstart htick
  barrier := hbarrier
  count := hcount
  asleep hs' := by
    obtain ⟨hs, hsame⟩ := hasleep hs'
    obtain ⟨d', rest, fsh, event, hl, hready⟩ := h.asleep hs
    refine ⟨d', rest, fsh, event, hlabel.trans hl, ?_⟩
    by_cases heq : d' = d
    · subst heq
      rw [hsame (by rw [hl]; rfl)]
      exact hready
    · rw [(hother d' heq).2.1]
      exact hready
  time := by
    rw [htime, h.time, List.count_append, List.count_singleton]
    simp [htick]

/-- Device `d` goes to phase `x`, and nothing else changes. -/
theorem setPhase (h : SlotInv devList es s) {x : DevPhase}
    (hother : ∀ d', d' ≠ d → e ≠ .ret d' ∧ e ≠ .start d') (htick : e ≠ .tick)
    (hd : DevOk (es ++ [e]) { s with phase := Function.update s.phase d x } d) :
    SlotInv devList (es ++ [e]) { s with phase := Function.update s.phase d x } := by
  refine h.device rfl rfl ?_ htick hd h.barrier h.count ?_
  · intro d' hd'
    exact ⟨Function.update_of_ne hd' _ _, rfl, hother d' hd'⟩
  · intro hs
    exact ⟨hs, fun _ => rfl⟩

/-- The signal of `d` wakes the timer where it waits on `d`. -/
theorem asleep_of_signalEvent (hs : s.signalEvent d = true) :
    s.timerAsleep = true ∧ s.clock.label.waitsFor ≠ some d := by
  rw [Slots.signalEvent] at hs
  split at hs
  · simp at hs
  · rename_i hne
    exact ⟨hs, hne⟩

/-- The first section of `next_slot`: `done` is set and the timer is signalled. -/
theorem signal (h : SlotInv devList es s) (hphase : s.phase d = .entering) :
    SlotInv devList (es ++ [.signal d])
      { clock := s.clock.signal d
        timerAsleep := s.signalEvent d
        phase := Function.update s.phase d .checking } := by
  have hdev := h.dev d
  simp only [DevOk, hphase] at hdev
  obtain ⟨hflags, hcalls, hsince⟩ := hdev
  -- the timer has let `d` continue before, as its flag is down
  have hunreleased : ¬ Unreleased s.clock d := by
    rintro ⟨rest, fsh, event, hl, hd⟩
    have hb := h.barrier
    rw [Barrier, hl] at hb
    simpa [TimerId.ready, hflags] using hb.2 d hd
  refine h.device (d := d) rfl rfl ?_ (by simp) ?_ (h.barrier.signal d) ?_ ?_
  · intro d' hd'
    simp [Clock.signal, hd']
  · have htold : Told (es ++ [.signal d]) (s.clock.signal d) d :=
      ⟨fun hp => absurd hp hunreleased, fun _ =>
        ⟨(calls_concat (by simp)).trans hcalls, hsince.concat (by simp) (by simp)⟩⟩
    simp only [DevOk, Function.update_self]
    refine ⟨by simp [Clock.signal, hflags], ?_, fun _ => htold⟩
    intro hdone
    simp [Clock.signal] at hdone
  · refine h.count.mono rfl ?_
    intro d' hfsh
    by_cases heq : d' = d
    · subst heq
      simpa [Clock.signal] using hfsh
    · simpa [Clock.signal, heq] using hfsh
  · intro hs
    obtain ⟨hasleep, hne⟩ := asleep_of_signalEvent hs
    exact ⟨hasleep, fun heq => absurd heq hne⟩

/-- `detach_event` sets `fsh` and signals the timer; the device takes part no more. -/
theorem detach (h : SlotInv devList es s) :
    SlotInv devList (es ++ [.detach d])
      { clock := s.clock.detachEvent d
        timerAsleep := s.signalEvent d
        phase := Function.update s.phase d .detached } := by
  refine h.device (d := d) rfl rfl ?_ (by simp) ?_ (h.barrier.detachEvent d) ?_ ?_
  · intro d' hd'
    simp [Clock.detachEvent, hd']
  · simp [DevOk, Clock.detachEvent]
  · refine h.count.mono rfl ?_
    intro d' hfsh
    by_cases heq : d' = d
    · subst heq
      simp [Clock.detachEvent]
    · simpa [Clock.detachEvent, heq] using hfsh
  · intro hs
    obtain ⟨hasleep, hne⟩ := asleep_of_signalEvent hs
    exact ⟨hasleep, fun heq => absurd heq hne⟩

/-- The device that the timer lets continue. -/
theorem release_self (h : SlotInv devList es s) {d : δ} {rest : List δ} {fsh event : ℕ}
    (hl : s.clock.label = .release (d :: rest) fsh event) :
    DevOk (es ++ [.timer])
      { s with
        clock := { s.clock.release d with label := .release rest fsh event }
        phase := s.signalTimer d } d := by
  have hb := h.barrier
  rw [Barrier, hl] at hb
  by_cases hphase : s.phase d = .detached
  · have hdev := h.dev d
    simp only [DevOk, hphase] at hdev
    simp [DevOk, Slots.signalTimer, hphase, Clock.release, hdev]
  · obtain ⟨hpos, hflags, htold⟩ := (h.dev d).told (hb.2 d List.mem_cons_self) hphase
    obtain ⟨hcalls, hcrossed⟩ := htold.1 ⟨_, _, _, hl, List.mem_cons_self⟩
    have hcheck : s.signalTimer d d = .checking := by
      rcases hpos with hpos | hpos <;> simp [Slots.signalTimer, hpos]
    simp only [DevOk, hcheck]
    refine ⟨by simp [Clock.release, hflags], fun _ => ⟨?_, ?_⟩, ?_⟩
    · rw [calls_concat (by simp)]
      exact hcalls
    · exact hcrossed.concat (by simp)
    · intro hdone
      simp [Clock.release] at hdone

/-- A section of the timer other than `_time++`. -/
theorem timer (h : SlotInv devList es s) (hnodup : devList.Nodup)
    (hawake : s.timerAsleep = false) (hst : TimerMove devList s s') :
    SlotInv devList (es ++ [.timer]) s' := by
  have htime (ht : s'.clock.time = s.clock.time) :
      s'.clock.time = (es ++ [SlotEvent.timer]).count SlotEvent.tick := by
    rw [ht, h.time, List.count_append]
    simp
  cases hst with
  | sleep d rest fsh event hl hready =>
      exact
        { dev := fun d => (h.dev d).concat rfl rfl rfl Iff.rfl (by simp) (by simp) (by simp)
          barrier := h.barrier
          count := h.count
          asleep := fun _ => ⟨d, rest, fsh, event, hl, hready⟩
          time := htime rfl }
  | move clock hst hdev ht hbefore hafter =>
      refine
        { dev := fun d => (h.dev d).concat rfl (congrFun hdev d) ht
            (iff_of_false (hafter d) (hbefore d)) (by simp) (by simp) (by simp)
          barrier := h.barrier.timerStep hnodup hst
          count := h.count.timerStep hst rfl
          asleep := ?_
          time := htime ht }
      intro hs
      simp [hawake] at hs
  | release d rest fsh event hl =>
      have hst : timerStep devList false s.clock =
          some { s.clock.release d with label := .release rest fsh event } := by
        simp [timerStep, hl]
      refine
        { dev := ?_
          barrier := h.barrier.timerStep hnodup hst
          count := h.count.timerStep hst rfl
          asleep := ?_
          time := htime rfl }
      · intro d'
        by_cases heq : d' = d
        · subst heq
          exact h.release_self hl
        · refine (h.dev d').concat ?_ ?_ rfl ?_ (by simp) (by simp) (by simp)
          · simp only [Slots.signalTimer]
            split
            · exact Function.update_of_ne heq _ _
            · rfl
          · simp [Clock.release, heq]
          · simp [Unreleased, hl, heq]
      · intro hs
        simp [hawake] at hs

/-- **`_time++`**: every device has told the timer, or is detached. -/
theorem tick (h : SlotInv devList es s) (hall : ∀ d, d ∈ devList) (hnodup : devList.Nodup)
    {fsh event : ℕ} (hl : s.clock.label = .incr fsh event) (hawake : s.timerAsleep = false) :
    SlotInv devList (es ++ [.tick])
      { s with
        clock := { s.clock with
          time := s.clock.time + 1, label := .release devList fsh event } } := by
  have hst : timerStep devList false s.clock = some { s.clock with
      time := s.clock.time + 1, label := .release devList fsh event } := by
    simp [timerStep, hl]
  have hb := h.barrier
  rw [Barrier, hl] at hb
  refine
    { dev := ?_
      barrier := h.barrier.timerStep hnodup hst
      count := h.count.timerStep hst rfl
      asleep := ?_
      time := ?_ }
  · intro d
    by_cases hphase : s.phase d = .detached
    · have hdev := h.dev d
      simp only [DevOk, hphase] at hdev ⊢
      exact hdev
    · obtain ⟨hpos, hflags, htold⟩ := (h.dev d).told (hb d (hall d)) hphase
      obtain ⟨hcalls, hsince⟩ := htold.2 (by simp [Unreleased, hl])
      have htold' : Told (es ++ [.tick]) { s.clock with
          time := s.clock.time + 1, label := .release devList fsh event } d := by
        refine ⟨fun _ => ⟨?_, hsince.tick⟩, fun hp => ?_⟩
        · rw [calls_concat (by simp), hcalls]
        · exact absurd ⟨_, _, _, rfl, hall d⟩ hp
      rcases hpos with hpos | hpos
      · simp only [DevOk, hpos]
        refine ⟨by rw [hflags], ?_, fun _ => htold'⟩
        intro hdone
        simp [hflags] at hdone
      · simp only [DevOk, hpos]
        exact ⟨hflags, htold'⟩
  · intro hs
    simp [hawake] at hs
  · rw [h.time, List.count_append]
    simp

/-- **Every section keeps the invariant**, of the timer and of any device. -/
theorem step (h : SlotInv devList es s) (hall : ∀ d, d ∈ devList) (hnodup : devList.Nodup)
    (hst : slotStep devList s e = some s') : SlotInv devList (es ++ [e]) s' := by
  cases e with
  | timer =>
      simp only [slotStep] at hst
      split_ifs at hst with hasleep
      exact h.timer hnodup (by simpa using hasleep) (timerSection_cases hst)
  | tick =>
      simp only [slotStep] at hst
      split at hst
      · rename_i hawake hl
        simp only [timerStep, hl, Option.map_some, Option.some.injEq] at hst
        exact hst ▸ h.tick hall hnodup hl hawake
      · simp at hst
  | timerWake =>
      simp only [slotStep] at hst
      split_ifs at hst
      obtain rfl := Option.some.inj hst
      exact
        { dev := fun d => (h.dev d).concat rfl rfl rfl Iff.rfl (by simp) (by simp) (by simp)
          barrier := h.barrier
          count := h.count
          asleep := fun hs => by simp at hs
          time := by rw [h.time, List.count_append]; simp }
  | start d =>
      simp only [slotStep] at hst
      split_ifs at hst with hphase
      obtain rfl := Option.some.inj hst
      have hdev := h.dev d
      simp only [DevOk, hphase] at hdev
      refine h.setPhase (fun d' hd' => by simp [Ne.symm hd']) (by simp) ?_
      simp only [DevOk, Function.update_self]
      exact ⟨hdev.1, (calls_concat (by simp)).trans hdev.2, SinceTick.start es d⟩
  | signal d =>
      simp only [slotStep] at hst
      split_ifs at hst with hphase
      exact Option.some.inj hst ▸ h.signal hphase
  | check d =>
      simp only [slotStep] at hst
      split_ifs at hst with hcond
      obtain rfl := Option.some.inj hst
      obtain ⟨hphase, hdone⟩ := hcond
      have hdev := h.dev d
      simp only [DevOk, hphase] at hdev
      refine h.setPhase (fun d' hd' => by simp) (by simp) ?_
      simp only [DevOk, Function.update_self]
      refine ⟨TimerId.eq_mk hdone hdev.1, ?_⟩
      exact (hdev.2.2 hdone).concat rfl Iff.rfl (by simp) (by simp) (by simp)
  | ret d =>
      simp only [slotStep] at hst
      split_ifs at hst with hcond
      obtain rfl := Option.some.inj hst
      obtain ⟨hphase, hdone⟩ := hcond
      have hdev := h.dev d
      simp only [DevOk, hphase] at hdev
      refine h.setPhase (fun d' hd' => by simp [Ne.symm hd']) (by simp) ?_
      simp only [DevOk, Function.update_self]
      refine ⟨TimerId.eq_mk hdone hdev.1, ?_⟩
      rw [calls_ret]
      exact (hdev.2.1 hdone).1
  | wake d =>
      simp only [slotStep] at hst
      split_ifs at hst with hphase
      obtain rfl := Option.some.inj hst
      have hdev := h.dev d
      simp only [DevOk, hphase] at hdev
      refine h.setPhase (fun d' hd' => by simp) (by simp) ?_
      simp only [DevOk, Function.update_self]
      refine ⟨by rw [hdev.1], ?_, ?_⟩
      · intro hdone
        simp [hdev.1] at hdone
      · intro _
        exact hdev.2.concat rfl Iff.rfl (by simp) (by simp) (by simp)
  | detach d =>
      simp only [slotStep] at hst
      split_ifs at hst
      exact Option.some.inj hst ▸ h.detach

/-- The timer leaves when it has seen only detached devices. -/
theorem detached_of_exited (h : SlotInv devList es s) (hall : ∀ d, d ∈ devList)
    (hl : s.clock.label = .exited) (d : δ) : (s.clock.dev d).fsh = true := by
  have hcount := h.count
  rw [TimerCount, hl] at hcount
  exact hcount d (hall d)

/-- The timer goes on where every device is ready: its waits have all come to an end. -/
theorem timer_enabled (hawake : s.timerAsleep = false) (hready : ∀ d, (s.clock.dev d).ready = true)
    (hl : s.clock.label ≠ .exited) :
    ∃ e : SlotEvent δ, e.own = true ∧ (slotStep devList s e).isSome = true := by
  rcases hl' : s.clock.label with _ | ⟨_ | ⟨d, rest⟩, fsh, event⟩ | ⟨fsh, event⟩ |
    ⟨_ | ⟨d, rest⟩, fsh, event⟩ | _
  case top => exact ⟨.timer, rfl, by simp [slotStep, Slots.timerSection, timerStep, hawake, hl']⟩
  case wait.nil =>
    exact ⟨.timer, rfl, by simp [slotStep, Slots.timerSection, timerStep, hawake, hl']⟩
  case wait.cons =>
    exact ⟨.timer, rfl, by simp [slotStep, Slots.timerSection, timerStep, hawake, hl', hready d]⟩
  case incr => exact ⟨.tick, rfl, by simp [slotStep, timerStep, hawake, hl']⟩
  case release.nil =>
    refine ⟨.timer, rfl, ?_⟩
    by_cases heq : fsh = event <;>
      simp [slotStep, Slots.timerSection, timerStep, hawake, hl', heq]
  case release.cons =>
    exact ⟨.timer, rfl, by simp [slotStep, Slots.timerSection, timerStep, hawake, hl']⟩
  case exited => exact absurd hl' hl

/-- **Whoever waits is let continue**: where every undetached device is inside `next_slot`, a
device or the timer has a section to do that is not a spurious wakeup. -/
theorem not_stuck (h : SlotInv devList es s) (hall : ∀ d, d ∈ devList)
    (hd : s.phase d ≠ .detached) (hidle : ∀ d, s.phase d ≠ .idle) :
    ∃ e : SlotEvent δ, e.own = true ∧ (slotStep devList s e).isSome = true := by
  by_cases hentering : ∃ d, s.phase d = .entering
  · obtain ⟨d, hd⟩ := hentering
    exact ⟨.signal d, rfl, by simp [slotStep, hd]⟩
  by_cases hchecking : ∃ d, s.phase d = .checking
  · obtain ⟨d, hd⟩ := hchecking
    by_cases hdone : (s.clock.dev d).done = true
    · exact ⟨.check d, rfl, by simp [slotStep, hd, hdone]⟩
    · exact ⟨.ret d, rfl, by simp [slotStep, hd, hdone]⟩
  -- every device is asleep or detached, and so ready
  have hrest (d : δ) : s.phase d = .asleep ∨ s.phase d = .detached := by
    cases hp : s.phase d with
    | idle => exact absurd hp (hidle d)
    | entering => exact absurd ⟨d, hp⟩ hentering
    | checking => exact absurd ⟨d, hp⟩ hchecking
    | asleep => exact Or.inl rfl
    | detached => exact Or.inr rfl
  have hready (d : δ) : (s.clock.dev d).ready = true := by
    have hdev := h.dev d
    rcases hrest d with hp | hp
    · simp only [DevOk, hp] at hdev
      simp [TimerId.ready, hdev.1]
    · simp only [DevOk, hp] at hdev
      simp [TimerId.ready, hdev]
  have hawake : s.timerAsleep = false := by
    by_contra hasleep
    obtain ⟨d', rest, fsh, event, -, hnot⟩ := h.asleep (by simpa using hasleep)
    simp [hready d'] at hnot
  by_cases hl : s.clock.label = .exited
  · have hdev := h.dev d
    have hfsh := h.detached_of_exited hall hl d
    have hp : s.phase d = .asleep := (hrest d).resolve_right hd
    simp only [DevOk, hp] at hdev
    simp [hdev.1] at hfsh
  · exact timer_enabled hawake hready hl

/-- Every state of a run has the invariant, with the steps of the run. -/
theorem of_run (hall : ∀ d, d ∈ devList) (hnodup : devList.Nodup)
    (hrun : (slotSystem devList).Run es s) : SlotInv devList es s := by
  induction hrun with
  | init hinit =>
      obtain rfl : _ = bootSlots := hinit
      exact
        { dev := fun d => ⟨rfl, rfl⟩
          barrier := trivial
          count := trivial
          asleep := fun hs => by simp [bootSlots] at hs
          time := rfl }
  | step _ hst ih => exact ih.step hall hnodup hst

end SlotInv

/-! ### The barrier -/

/-- The last device attached comes first. -/
theorem attachAll_eq (n : ℕ) : attachAll n = (List.finRange n).reverse := by
  have hfold (ds l : List (Fin n)) :
      ds.foldl (fun devList d => d :: devList) l = ds.reverse ++ l := by
    induction ds generalizing l with
    | nil => rfl
    | cons d ds ih => rw [List.foldl_cons, ih, List.reverse_cons, List.append_assoc]; rfl
  rw [attachAll, hfold, List.append_nil]

/-- **The time slots are a barrier**, for any number of devices, in every interleaving. A device
that is not detached has completed `_time` calls of `next_slot`, or one less. `_time` grows by
one at each `tick`, where every device is detached or has started a call since the last. A call
returns only after a `tick` since it started. And unless all devices are detached, one is
outside `next_slot`, or a thread has a section to do. -/
theorem time_slot_barrier (n : ℕ) {es : List (SlotEvent (Fin n))} {s : Slots (Fin n)}
    (hrun : (slotSystem (attachAll n)).Run es s) :
    s.clock.time = es.count .tick ∧
      (∀ d, s.phase d ≠ .detached →
        es.count (.ret d) = s.clock.time ∨ es.count (.ret d) + 1 = s.clock.time) ∧
      ((slotStep (attachAll n) s .tick).isSome = true → ∀ d, s.phase d = .detached ∨
        ∃ pre post, es = pre ++ .start d :: post ∧ .tick ∉ post) ∧
      (∀ d, (slotStep (attachAll n) s (.ret d)).isSome = true →
        ∃ pre post, es = pre ++ .start d :: post ∧ .start d ∉ post ∧ .tick ∈ post) ∧
      ((∃ d, s.phase d ≠ .detached) → (∃ d, s.phase d = .idle) ∨
        ∃ e : SlotEvent (Fin n), e.own = true ∧ (slotStep (attachAll n) s e).isSome = true) := by
  have hall (d : Fin n) : d ∈ attachAll n := by simp [attachAll_eq]
  have hnodup : (attachAll n).Nodup := by
    rw [attachAll_eq]
    exact List.nodup_reverse.mpr (List.nodup_finRange n)
  have h := SlotInv.of_run hall hnodup hrun
  refine ⟨h.time, ?_, ?_, ?_, ?_⟩
  · intro d hphase
    exact (h.dev d).calls_eq hphase
  · intro htick d
    by_cases hphase : s.phase d = .detached
    · exact Or.inl hphase
    · simp only [slotStep] at htick
      split at htick
      · rename_i fsh event hawake hl
        have hb := h.barrier
        rw [Barrier, hl] at hb
        obtain ⟨-, -, htold⟩ := (h.dev d).told (hb d (hall d)) hphase
        obtain ⟨pre, post, hes, -, hnot⟩ := (htold.2 (by simp [Unreleased, hl])).2
        exact Or.inr ⟨pre, post, hes, hnot⟩
      · simp at htick
  · intro d hret
    simp only [slotStep] at hret
    split_ifs at hret with hcond
    · have hdev := h.dev d
      simp only [DevOk, hcond.1] at hdev
      exact (hdev.2.1 hcond.2).2
    · simp at hret
  · rintro ⟨d, hd⟩
    by_cases hidle : ∃ d, s.phase d = .idle
    · exact Or.inl hidle
    · exact Or.inr (h.not_stuck hall hd fun d hp => hidle ⟨d, hp⟩)

/-- Two devices: one waits for the time slot and sleeps, the other calls `next_slot` once and
detaches. -/
def twoDevices : List (SlotEvent (Fin 2)) :=
  [.timer, .start 0, .signal 0, .check 0, .timer, .wake 0, .check 0, .start 1, .signal 1, .timer,
    .timer, .timer, .tick, .timer, .ret 1, .detach 1, .timer]

/-- The theorem at this run, in which one slot has passed. -/
theorem time_slot_barrier_twoDevices : ∃ s : Slots (Fin 2),
    (slotSystem (attachAll 2)).Run twoDevices s ∧ s.clock.time = 1 ∧ s.phase 0 = .checking ∧
      twoDevices.count (.ret 0) + 1 = s.clock.time := by
  have hrun : (twoDevices.foldlM (slotStep (attachAll 2)) bootSlots).map
      (fun s => (s.phase 0, s.clock.time)) = some (.checking, 1) := by
    decide +kernel
  obtain ⟨s, hs, hstate⟩ := Option.map_eq_some_iff.mp hrun
  obtain ⟨hphase, htime⟩ := Prod.mk.inj hstate
  have hrun' : (slotSystem (attachAll 2)).Run twoDevices s :=
    Run.of_foldlM (fun _ _ _ h => h) rfl hs
  have hcalls := (time_slot_barrier 2 hrun').2.1 0 (by simp [hphase])
  refine ⟨s, hrun', htime, hphase, hcalls.resolve_left ?_⟩
  rw [htime]
  decide

end OsSim
