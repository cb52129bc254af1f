import OsSim.Ownership

/-!
# No Process Is Lost

The queues are arrays of `MAX_QUEUE_SIZE` entries, and a full queue does not take a process and
does not say so. Where every insertion finds room, a process stays in exactly one place from the
start to its end.

## The condition

`enqueue` returns nothing. `put_proc` and `add_proc` therefore lose the process when its level is
full: the CPU goes on to the next one, and nobody has a pointer to it any more. `Sim.RoomFor` says
of the next step of a thread that it does not do this. It is about the level and not about
`running_list`, whose overflow loses no process for the scheduler.

`Ownership` shows that no step brings a process to a second place. The other direction is
`Moves.places_eq`: a step with room, that kills nothing, takes none away either. So the count of
places is 1 in every state (`PresentOk`), and a process that has been added and not finished must be
in a ready queue or in the hands of a CPU.

The bound is sharp. With eleven programs of one priority and one CPU, the level holds ten of them
when the slice of the eleventh ends, and `put_proc` loses it.

## Main results

* `PresentOk.step`: a step with room for what it inserts loses nothing.
* `present_of_room`: **no process is lost** where every insertion finds room.
* `present_fails`: eleven programs of one priority, of which one is lost.
-/

namespace OsSim

open TransitionSystem

variable {cfg : SimConfig}

/-- `p` is in the ready queue of its priority, in the hands of a CPU, which also calls `put_proc`,
or in those of `add_proc`. -/
def Sim.Present (s : Sim cfg) (p : cfg.Proc) : Prop :=
  p ∈ s.os.mlqReadyQueue (cfg.prio p) ∨ (∃ id, (s.os.cpu id).holds = some p) ∨
    (s.os.ld = .addReady ∧ s.os.i = p)

/-- The ready queue into which a step of the thread inserts a process has room. -/
def Sim.RoomFor (s : Sim cfg) : Thread cfg.numCpus → Prop
  | .cpu id => ∀ proc : cfg.Proc, (s.os.cpu id).label = .putReady → (s.os.cpu id).proc = some proc →
      (s.os.mlqReadyQueue (cfg.prio proc)).length < maxQueueSize
  | .ld => ∀ h : s.os.i < cfg.numProcesses, s.os.ld = .addReady →
      (s.os.mlqReadyQueue (cfg.prio ⟨s.os.i, h⟩)).length < maxQueueSize
  | .timer | .main => True

instance (s : Sim cfg) (p : cfg.Proc) : Decidable (s.Present p) :=
  inferInstanceAs (Decidable (_ ∨ (∃ _, _) ∨ _ ∧ _))

instance (s : Sim cfg) (t : Thread cfg.numCpus) : Decidable (s.RoomFor t) :=
  match t with
  | .cpu id =>
      inferInstanceAs (Decidable (∀ proc : cfg.Proc, (s.os.cpu id).label = .putReady →
        (s.os.cpu id).proc = some proc →
        (s.os.mlqReadyQueue (cfg.prio proc)).length < maxQueueSize))
  | .ld =>
      inferInstanceAs (Decidable (∀ h : s.os.i < cfg.numProcesses, s.os.ld = .addReady →
        (s.os.mlqReadyQueue (cfg.prio ⟨s.os.i, h⟩)).length < maxQueueSize))
  | .timer | .main => inferInstanceAs (Decidable True)

/-- All threads, where every insertion into a ready queue finds room. -/
def roomySystem (cfg : SimConfig) : TransitionSystem (Sim cfg) (Thread cfg.numCpus × CStr) :=
  (simSystem cfg).restrict fun s t => s.RoomFor t.1

/-! ### Every process in exactly one place -/

/-- Processes wait in the queue of their priority. -/
def Sim.Leveled (s : Sim cfg) : Prop := ∀ prio, ∀ p ∈ s.os.mlqReadyQueue prio, cfg.prio p = prio

/-- Every insertion is into the queue of the process's priority. -/
theorem Moves.leveled {s s' : Sim cfg} {t : Thread cfg.numCpus} (h : Moves s t s')
    (hlevel : s.Leveled) : s'.Leveled := by
  intro prio p hp
  rcases h.of_mem_queue hp with hin | ⟨hprio, -⟩
  · exact hlevel prio p hin
  · exact hprio

/-- The invariant: every process is in exactly one place, and in its own level if it is in a queue.
-/
structure PresentOk (s : Sim cfg) : Prop where
  exec : ExecOk s
  leveled : s.Leveled
  places : ∀ p, s.places p = 1

/-- Without a `killall` instruction, a step with room for what it inserts takes nothing away. -/
theorem ExecOk.keeps {s : Sim cfg} (h : ExecOk s) (hno : cfg.NoKillall) {t : Thread cfg.numCpus}
    (hroom : s.RoomFor t) : Keeps s t where
  noKill id ins _ hins := by
    obtain ⟨proc, -, -, htext⟩ := h.fetch id ins hins
    exact hno proc ins (List.mem_of_getElem? htext)
  putRoom id proc τ ht hx := by
    subst ht
    exact hroom proc (by rw [hx]) (by rw [hx])
  loadRoom hlt ht hl := by
    subst ht
    exact hroom hlt hl
  unfreed id proc τ _ hx := not_freed_of_held (h.sole proc) (held_of_cpu hx (by simp))

/-- **A step with room for what it inserts loses nothing.** -/
theorem PresentOk.step {s s' : Sim cfg} (h : PresentOk s) (hno : cfg.NoKillall)
    {t : Thread cfg.numCpus} {name : CStr} (hroom : s.RoomFor t)
    (hst : simStep s (t, name) = some s') : PresentOk s' where
  exec := h.exec.step hst
  leveled := (moves_of_simStep h.exec.first hst).leveled h.leveled
  places p :=
    ((moves_of_simStep h.exec.first hst).places_eq (h.exec.keeps hno hroom) p).trans (h.places p)

/-- At the start the loader has all of them, which is one place. -/
theorem PresentOk.boot (cfg : SimConfig) : PresentOk (bootSim cfg) where
  exec := ExecOk.of_run (Run.init rfl)
  leveled _ _ hp := absurd hp List.not_mem_nil
  places := places_bootSim

/-- A process that is neither with the loader nor freed is in a queue or in hand. -/
theorem PresentOk.present {s : Sim cfg} (h : PresentOk s) {p : cfg.Proc} (hadded : s.Added p)
    (hfreed : s.freed p = false) : s.Present p := by
  rcases hadded with hlt | hhands
  · have hplaces := h.places p
    rw [Sim.places, hfreed, if_neg (by omega), if_neg (by simp)] at hplaces
    by_cases hholders : s.holders p = 0
    · -- one slot of the ready queues
      have hqueued : ∑ prio, (s.os.mlqReadyQueue prio).count p ≠ 0 := by
        rw [Sim.queued] at hplaces
        omega
      obtain ⟨prio, -, hcount⟩ := Finset.exists_ne_zero_of_sum_ne_zero hqueued
      have hin := List.count_pos_iff.mp (Nat.pos_of_ne_zero hcount)
      exact Or.inl (h.leveled prio p hin ▸ hin)
    · obtain ⟨id, -, hid⟩ := Finset.exists_ne_zero_of_sum_ne_zero hholders
      have hheld : s.held id = some p := by simpa using hid
      exact Or.inr (Or.inl ⟨id, hheld⟩)
  · exact Or.inr (Or.inr hhands)

/-- **No process is lost** where every insertion into a ready queue finds room: in every state of
every such interleaving, for any number of programs and CPUs, each process that the loader has
added and that has not finished is present. -/
theorem present_of_room (hno : cfg.NoKillall) {ts : List (Thread cfg.numCpus × CStr)} {s : Sim cfg}
    (hrun : (roomySystem cfg).Run ts s) {p : cfg.Proc} (hadded : s.Added p)
    (hfreed : s.freed p = false) : s.Present p := by
  have hinv : PresentOk s := by
    refine hrun.invariant (fun s (hs : s = bootSim cfg) => ?_)
      fun s t s' hs hst => hs.step hno hst.1 hst.2
    subst hs
    exact PresentOk.boot cfg
  exact hinv.present hadded hfreed

/-! ### A process that is lost -/

/-- One CPU, time slices of one slot, and eleven programs of one priority. -/
def elevenPrograms : SimConfig where
  numCpus := 1
  timeSlot := 1
  numProcesses := 11
  startTime _ := 0
  prio _ := 0
  codeSize _ := 12
  path _ := [112#8]
  text _ := List.replicate 12 { opcode := .calc }
  text_length _ := rfl

/-- The programs only calculate. -/
theorem noKillall_elevenPrograms : elevenPrograms.NoKillall := by
  intro p ins hins
  rw [List.eq_of_mem_replicate hins]
  rfl

/-- The only CPU of the example. -/
def elevenCpu : Thread elevenPrograms.numCpus := .cpu ⟨0, Nat.one_pos⟩

/-- Ten time slots: the loader adds a process in each, and from the second on a slice ends and the
next process is taken. -/
def tenSlots : List (Thread elevenPrograms.numCpus × CStr) :=
  slotOf elevenCpu 5 6 1 ++ (List.replicate 9 (slotOf elevenCpu 5 8 1)).flatten

/-- The loader adds the last process, and the slice of another one ends. -/
def lastSlot : List (Thread elevenPrograms.numCpus × CStr) :=
  (List.replicate 4 Thread.ld ++ List.replicate 3 elevenCpu).map fun t => (t, [])

/-- The process that the CPU has in hand when the level is full is lost. -/
theorem present_fails : ∃ s : Sim elevenPrograms,
    (simSystem elevenPrograms).Run (tenSlots ++ lastSlot) s ∧ elevenPrograms.NoKillall ∧
      ∃ p : elevenPrograms.Proc, s.Added p ∧ s.freed p = false ∧ ¬ s.Present p := by
  have hlost : ((tenSlots ++ lastSlot).foldlM simStep (bootSim elevenPrograms)).map
      (fun s => decide ((5 < s.os.i) ∧ s.freed ⟨5, by decide⟩ = false ∧
        ¬ s.Present ⟨5, by decide⟩)) = some true := by
    decide +kernel
  obtain ⟨s, hs, hdecide⟩ := Option.map_eq_some_iff.mp hlost
  obtain ⟨hadded, hfreed, hpresent⟩ := of_decide_eq_true hdecide
  exact ⟨s, Run.of_foldlM (fun _ _ _ h => h) rfl hs, noKillall_elevenPrograms, ⟨5, by decide⟩,
    Or.inl hadded, hfreed, hpresent⟩

/-- In the ten time slots before there is room for what is inserted, by `add_proc` and `put_proc`:
none of the ten processes is lost. -/
theorem present_of_room_tenSlots : ∃ s : Sim elevenPrograms,
    (roomySystem elevenPrograms).Run tenSlots s ∧ s.os.i = 10 ∧
      ∀ p : elevenPrograms.Proc, (p : ℕ) < 10 → s.Present p := by
  have hstate : (tenSlots.foldlM
      (fun (s : Sim elevenPrograms) t => if s.RoomFor t.1 then simStep s t else none)
      (bootSim elevenPrograms)).map
        (fun s => decide (s.os.i = 10 ∧ ∀ p, s.freed p = false)) = some true := by
    decide +kernel
  obtain ⟨s, hs, hdecide⟩ := Option.map_eq_some_iff.mp hstate
  obtain ⟨hi, hfreed⟩ := of_decide_eq_true hdecide
  have hrun : (roomySystem elevenPrograms).Run tenSlots s :=
    Run.of_foldlM_restrict (fun _ _ _ h => h) rfl hs
  refine ⟨s, hrun, hi, fun p hp => ?_⟩
  exact present_of_room noKillall_elevenPrograms hrun (Or.inl (hi ▸ hp)) (hfreed p)

end OsSim
