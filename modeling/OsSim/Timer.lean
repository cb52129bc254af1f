import Mathlib.Data.List.Infix
import Mathlib.Data.List.Nodup
import Mathlib.Logic.Function.Basic

/-!
# The Timer

`timer.c`: the thread that moves the time slot on once every attached device has called
`next_slot` or has detached. A step is a section under one lock, or one access to a shared
variable between such sections. A wait on a condition variable is a section that can be
entered once the condition holds. `_time` is a number without bound.

Each device has two flags. `done` is raised by the device in `next_slot` and cleared by the timer
when it lets the device continue; `fsh` is raised once when the device detaches. `timer_routine`
goes over the list of devices twice in every slot: first it waits for each of them to have one of
its flags raised, counting those that are gone, then it moves `_time` on and clears the flags `done`
one after the other. It ends when all devices are gone, or when the flag of `stop_timer` is set.

What makes this a barrier is said in `Barrier`, by the place where the timer is: the devices that it
has passed in the first loop are ready, all are when `_time` moves on, and those before it in the
second loop still are. The devices keep it by only ever raising their flags, whatever else they do,
which is all that is asked of them here.

## Main results

* `Barrier.timerStep`, `Barrier.signal`, `Barrier.detachEvent`: **the barrier invariant** of the
  timer's two loops, whatever the devices do.
-/

namespace OsSim

variable {δ : Type}

/-! ### Devices and the timer thread -/

/-- The flags of `struct timer_id_t`: the device is in `next_slot`, and it has detached. The locks
and condition variables of the struct are in the sections and in `TimeSlot`. -/
structure TimerId where
  done : Bool
  fsh : Bool
  deriving DecidableEq, Repr

/-- Where `timer_routine` is: at the loop test, waiting for the devices `rest`, before `_time++`,
letting the devices `rest` continue, or gone. -/
inductive TimerLabel (δ : Type) where
  | top
  | wait (rest : List δ) (fsh event : ℕ)
  | incr (fsh event : ℕ)
  | release (rest : List δ) (fsh event : ℕ)
  | exited
  deriving DecidableEq

/-- The timer thread, the devices' flags and `_time`, which the devices read without a lock. -/
structure Clock (δ : Type) where
  label : TimerLabel δ
  dev : δ → TimerId
  time : ℕ

/-- The first section of `next_slot`, in which the device raises its flag. -/
def Clock.signal [DecidableEq δ] (c : Clock δ) (d : δ) : Clock δ :=
  { c with dev := Function.update c.dev d { c.dev d with done := true } }

/-- `detach_event`, after which the device is not waited for again. -/
def Clock.detachEvent [DecidableEq δ] (c : Clock δ) (d : δ) : Clock δ :=
  { c with dev := Function.update c.dev d { c.dev d with fsh := true } }

/-- Letting a device continue: the timer clears its flag `done`, and signals it. -/
def Clock.release [DecidableEq δ] (c : Clock δ) (d : δ) : Clock δ :=
  { c with dev := Function.update c.dev d { c.dev d with done := false } }

/-- The test that ends the wait for a device: it is in `next_slot`, or gone. -/
def TimerId.ready (id : TimerId) : Bool := id.done || id.fsh

/-- One step of `timer_routine` over the devices of `devList`; `timerStop` is what the loop
test reads. `none` while it waits, and when it is gone. -/
def timerStep [DecidableEq δ] (devList : List δ) (timerStop : Bool) (c : Clock δ) :
    Option (Clock δ) :=
  match c.label with
  | .top =>
      if timerStop then some { c with label := .exited }
      else some { c with label := .wait devList 0 0 }
  | .wait [] fsh event => some { c with label := .incr fsh event }
  | .wait (d :: rest) fsh event =>
      if (c.dev d).ready then
        some { c with label := .wait rest (if (c.dev d).fsh then fsh + 1 else fsh) (event + 1) }
      else none
  | .incr fsh event => some { c with time := c.time + 1, label := .release devList fsh event }
  | .release (d :: rest) fsh event => some { c.release d with label := .release rest fsh event }
  | .release [] fsh event =>
      if fsh = event then some { c with label := .exited } else some { c with label := .top }
  | .exited => none

/-! ### The barrier -/

/-- **The barrier.** The devices waited for so far are ready, all of them are when the time
slot moves on, and those not yet let continue still are. -/
def Barrier (devList : List δ) (c : Clock δ) : Prop :=
  match c.label with
  | .wait rest _ _ => rest <:+ devList ∧ ∀ d ∈ devList, d ∉ rest → (c.dev d).ready = true
  | .incr _ _ => ∀ d ∈ devList, (c.dev d).ready = true
  | .release rest _ _ => rest <:+ devList ∧ ∀ d ∈ rest, (c.dev d).ready = true
  | _ => True

variable [DecidableEq δ] {devList : List δ} {c : Clock δ}

omit [DecidableEq δ] in
/-- Raising flags keeps the barrier, which only asks for flags that are raised. -/
theorem Barrier.mono {c' : Clock δ} (h : Barrier devList c) (hlabel : c'.label = c.label)
    (hdev : ∀ d, (c.dev d).ready = true → (c'.dev d).ready = true) : Barrier devList c' := by
  rw [Barrier, hlabel]
  rw [Barrier] at h
  cases hl : c.label with
  | top => trivial
  | wait rest fsh event =>
      simp only [hl] at h
      exact ⟨h.1, fun d hd hr => hdev d (h.2 d hd hr)⟩
  | incr fsh event =>
      simp only [hl] at h
      exact fun d hd => hdev d (h d hd)
  | release rest fsh event =>
      simp only [hl] at h
      exact ⟨h.1, fun d hd => hdev d (h.2 d hd)⟩
  | exited => trivial

/-- A device that calls `next_slot` keeps the barrier: its flag is set, which the timer waits for.
-/
theorem Barrier.signal (h : Barrier devList c) (d : δ) : Barrier devList (c.signal d) := by
  refine h.mono rfl ?_
  intro d' hd'
  by_cases heq : d' = d
  · subst heq
    simp [Clock.signal, TimerId.ready]
  · simpa [Clock.signal, heq] using hd'

/-- A device that detaches keeps the barrier: it is marked as finished, which ends the wait for it.
-/
theorem Barrier.detachEvent (h : Barrier devList c) (d : δ) :
    Barrier devList (c.detachEvent d) := by
  refine h.mono rfl ?_
  intro d' hd'
  by_cases heq : d' = d
  · subst heq
    simp [Clock.detachEvent, TimerId.ready]
  · simpa [Clock.detachEvent, heq] using hd'

/-- A step of the timer leaves the flags alone or lets one device continue. -/
theorem timerStep_dev {stop : Bool} {c' : Clock δ} (h : timerStep devList stop c = some c') :
    c'.dev = c.dev ∨ ∃ d rest fsh event, c.label = .release (d :: rest) fsh event ∧
      c'.dev = (c.release d).dev := by
  rw [timerStep] at h
  split at h
  case h_1 | h_3 | h_6 =>
    split at h
    · exact Or.inl (Option.some.inj h ▸ rfl)
    · first | exact Or.inl (Option.some.inj h ▸ rfl) | simp at h
  case h_2 | h_4 => exact Or.inl (Option.some.inj h ▸ rfl)
  case h_5 d rest fsh event hl => exact Or.inr ⟨d, rest, fsh, event, hl, Option.some.inj h ▸ rfl⟩
  case h_7 => simp at h

/-- A step of the timer only clears flags `done`. -/
theorem timerStep_flags {stop : Bool} {c' : Clock δ} (h : timerStep devList stop c = some c')
    (d : δ) : ((c'.dev d).done = true → (c.dev d).done = true) ∧
      (c'.dev d).fsh = (c.dev d).fsh := by
  rcases timerStep_dev h with hsame | ⟨d', rest, fsh, event, -, hdev⟩
  · rw [hsame]
    exact ⟨fun h => h, rfl⟩
  · rw [hdev, Clock.release]
    by_cases heq : d = d'
    · subst heq
      simp
    · simp [heq]

/-- **A step of the timer keeps the barrier.** -/
theorem Barrier.timerStep (hnodup : devList.Nodup) (h : Barrier devList c) {stop : Bool}
    {c' : Clock δ} (hst : timerStep devList stop c = some c') : Barrier devList c' := by
  rw [OsSim.timerStep] at hst
  split at hst
  · -- the loop test
    split at hst
    · obtain rfl := Option.some.inj hst
      trivial
    · obtain rfl := Option.some.inj hst
      exact ⟨List.suffix_refl _, fun d hd hnot => absurd hd hnot⟩
  · -- all devices have been waited for
    rename_i hl
    obtain rfl := Option.some.inj hst
    rw [Barrier, hl] at h
    exact fun d hd => h.2 d hd List.not_mem_nil
  · -- one more device is ready
    rename_i d rest fsh event hl
    rw [Barrier, hl] at h
    split at hst
    · rename_i hready
      obtain rfl := Option.some.inj hst
      refine ⟨(List.suffix_cons d rest).trans h.1, ?_⟩
      intro d' hd' hnot
      by_cases heq : d' = d
      · rw [heq]
        exact hready
      · exact h.2 d' hd' (List.not_mem_cons_of_ne_of_not_mem heq hnot)
    · simp at hst
  · -- the time slot
    rename_i hl
    obtain rfl := Option.some.inj hst
    rw [Barrier, hl] at h
    exact ⟨List.suffix_refl _, h⟩
  · -- one device continues, and the others still wait to
    rename_i d rest fsh event hl
    obtain rfl := Option.some.inj hst
    rw [Barrier, hl] at h
    refine ⟨(List.suffix_cons d rest).trans h.1, ?_⟩
    intro d' hd'
    have hne : d' ≠ d := by
      rintro rfl
      exact (List.nodup_cons.mp (h.1.sublist.nodup hnodup)).1 hd'
    simp only [Clock.release, Function.update_of_ne hne]
    exact h.2 d' (List.mem_cons_of_mem d hd')
  · -- the end of a round
    split at hst
    · obtain rfl := Option.some.inj hst
      trivial
    · obtain rfl := Option.some.inj hst
      trivial
  · simp at hst

end OsSim
