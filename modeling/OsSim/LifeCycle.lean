import Mathlib.Algebra.Order.Floor.Div
import OsSim.Waiting

/-!
# The Life of a Process

What the loader and the CPUs print about a process, in the order in which they do: it is loaded,
dispatched and put back for every slice but the last, and dispatched and finished then, by the CPU
that dispatched it. The life of a process is a small system of its own, and the simulation keeps to
it for every process at once, wherever its slices are run.

## Lives

`lifeCycle` has four stages: new, ready with so many slices behind it, running on a CPU, and done. A
line is a step between two of them, and the step says how many instructions the slices have to add
up to. What the lines of a life look like at each stage is a matter of this system alone
(`Spelled`), and so is that a program of `n` instructions in slices of `q` is dispatched `⌈n / q⌉`
times.

## How the argument goes

`AtStage` says where a process is at each stage, and what its program counter is: a ready process
with `m` slices behind it has executed `m * q` instructions; a running one has executed so many less
what is left of its slice. A step of a thread either does not concern `p`, or is one of a few that
are proved one by one: those inside a slice and outside of one, which print nothing, the end of the
process, the end of its slice, its dispatch, and its loading (`Lives.inside` to `lives_of_ldStep`).
Each of them takes the locals of the CPU from the invariants of `TimeSlice`, and from `Ownership`
that no other CPU has `p`.

A `killall` is one step here. It may take a process off its queue, whose life then stops as it is.

## Main results

* `Spelled.of_run`: what the lines of a life look like, at each of its stages.
* `life_simulation`: **every process leads such a life**.
* `lines_of_process`: **a program of `n` instructions is dispatched `⌈n / time_slot⌉` times**.
-/

namespace OsSim

open TransitionSystem

/-! ### Lives -/

section Lives

variable {C : Type}

/-- The lines that name a process: `Loaded a process`, `Dispatched process`, `Put process` and
`Processed`; the last three also name a CPU. -/
inductive LifeLine (C : Type) where
  | loaded
  | dispatched (cpu : C)
  | put (cpu : C)
  | finished (cpu : C)
  deriving DecidableEq, Repr

/-- The stages of a life: `slices` have been given so far. -/
inductive Stage (C : Type) where
  | new
  | ready (slices : ℕ)
  | running (cpu : C) (slices : ℕ)
  | done
  deriving DecidableEq, Repr

/-- The steps of a program of `n` instructions in slices of `q`. -/
inductive LifeStep (n q : ℕ) : Stage C → LifeLine C → Stage C → Prop
  | load : LifeStep n q .new .loaded (.ready 0)
  | dispatch (c : C) (m : ℕ) (h : m * q < n) :
      LifeStep n q (.ready m) (.dispatched c) (.running c (m + 1))
  | put (c : C) (m : ℕ) (h : m * q < n) : LifeStep n q (.running c m) (.put c) (.ready m)
  | finish (c : C) (m : ℕ) (h : n ≤ m * q) : LifeStep n q (.running c m) (.finished c) .done

/-- A life, from a process that is not loaded on. -/
def lifeCycle (C : Type) (n q : ℕ) : TransitionSystem (Stage C) (LifeLine C) where
  init st := st = .new
  step := LifeStep n q

/-- Being loaded, and one slice after the other on `cpus`. -/
def roundLines (cpus : List C) : List (LifeLine C) :=
  .loaded :: cpus.flatMap fun c => [.dispatched c, .put c]

/-- One slice more: dispatched on `c`, and put back there. -/
theorem rounds_concat (cpus : List C) (c : C) :
    roundLines (cpus ++ [c]) = roundLines cpus ++ [.dispatched c, .put c] := by
  simp [roundLines]

/-- What the lines of a life look like, at each of its stages. -/
inductive Spelled (n q : ℕ) : List (LifeLine C) → Stage C → Prop
  | new : Spelled n q [] .new
  | ready (cpus : List C) : Spelled n q (roundLines cpus) (.ready cpus.length)
  | running (cpus : List C) (c : C) (h : cpus.length * q < n) :
      Spelled n q (roundLines cpus ++ [.dispatched c]) (.running c (cpus.length + 1))
  | done (cpus : List C) (c : C) (h : cpus.length * q < n) (h' : n ≤ (cpus.length + 1) * q) :
      Spelled n q (roundLines cpus ++ [.dispatched c, .finished c]) .done

/-- One more line, which takes the life to its next stage. -/
theorem Spelled.step {n q : ℕ} {ls : List (LifeLine C)} {st st' : Stage C} {l : LifeLine C}
    (h : Spelled n q ls st) (hst : LifeStep n q st l st') : Spelled n q (ls ++ [l]) st' := by
  cases hst with
  | load =>
      cases h with
      | new => exact .ready []
  | dispatch c m hlt =>
      cases h with
      | ready cpus => exact .running cpus c hlt
  | put c m hlt =>
      cases h with
      | running cpus c hlt' =>
          have hready := Spelled.ready (n := n) (q := q) (cpus ++ [c])
          rw [rounds_concat, List.length_append] at hready
          rw [List.append_assoc]
          exact hready
  | finish c m hle =>
      cases h with
      | running cpus c hlt =>
          rw [List.append_assoc]
          exact .done cpus c hlt hle

/-- **What the lines of a life look like**, after any run. -/
theorem Spelled.of_run {n q : ℕ} {ls : List (LifeLine C)} {st : Stage C}
    (hrun : (lifeCycle C n q).Run ls st) : Spelled n q ls st := by
  induction hrun with
  | init hst =>
      obtain rfl : _ = Stage.new := hst
      exact .new
  | step _ hst ih => exact ih.step hst

end Lives

/-! ### Processes -/

variable {cfg : SimConfig} {s s' : Sim cfg} {p : cfg.Proc}

/-- What CPU `id` prints about `p`: the line of the event, if it is one of `p`'s. -/
def SliceEvent.line (id : Fin cfg.numCpus) (p : cfg.Proc) :
    SliceEvent cfg.Proc → Option (LifeLine (Fin cfg.numCpus))
  | .dispatch proc _ => if proc = p then some (.dispatched id) else none
  | .put proc => if proc = p then some (.put id) else none
  | .finish proc => if proc = p then some (.finished id) else none
  | .run _ | .nextSlot => none

/-- What a step prints about `p`: the lines of a CPU, or that of the loader. -/
def Sim.lines (p : cfg.Proc) (s : Sim cfg) :
    Thread cfg.numCpus × CStr → List (LifeLine (Fin cfg.numCpus))
  | (.cpu id, _) => (s.cpuEvents id).filterMap (SliceEvent.line id p)
  | (.ld, _) => if s.os.ld = .addRunning ∧ s.os.i = p then [.loaded] else []
  | _ => []

/-- How the locals of a CPU show that `p` is in no slice: it has just got the process, or is about
to put it back. -/
def Cpu.between {P : Type} (p : P) (x : Cpu P) : Prop :=
  x = ⟨.recheck, some p, 0⟩ ∨ x = ⟨.putRunning, some p, 0⟩ ∨ x = ⟨.putReady, some p, 0⟩

/-- **The stage of a process**, and what its program counter says about it. -/
inductive AtStage (p : cfg.Proc) (s : Sim cfg) : Stage (Fin cfg.numCpus) → Prop
  | new (hadded : ¬ s.Added p) (hpc : s.os.pc p = 0) : AtStage p s .new
  | ready (m : ℕ) (hadded : s.Added p) (hfreed : s.freed p = false)
      (hheld : ∀ id, s.held id = some p → (s.os.cpu id).between p)
      (hpc : s.os.pc p = m * cfg.timeSlot.toNat) (hlt : s.os.pc p < cfg.codeSize p) :
      AtStage p s (.ready m)
  | running (id : Fin cfg.numCpus) (m : ℕ) (hheld : s.held id = some p)
      (hin : ¬ (s.os.cpu id).between p)
      (hpc : s.os.pc p + (s.os.cpu id).timeLeft = m * cfg.timeSlot.toNat) :
      AtStage p s (.running id m)
  | done (hfreed : s.freed p = true) : AtStage p s .done

namespace AtStage

variable {st : Stage (Fin cfg.numCpus)} {id : Fin cfg.numCpus}

/-- A step that does not concern `p` leaves its stage. -/
theorem congr (h : AtStage p s st) (hadded : s'.Added p ↔ s.Added p)
    (hfreed : s'.freed p = s.freed p) (hpc : s'.os.pc p = s.os.pc p)
    (hcpu : ∀ id, s.held id = some p ∨ s'.held id = some p → s'.os.cpu id = s.os.cpu id) :
    AtStage p s' st := by
  cases h with
  | new hnot hzero => exact .new (hadded.not.mpr hnot) (hpc.trans hzero)
  | ready m hadd hf hheld hmul hlt =>
      refine .ready m (hadded.mpr hadd) (hfreed.trans hf) (fun id hid => ?_) (hpc.trans hmul)
        (hpc.trans_lt hlt)
      have hsame := hcpu id (Or.inr hid)
      rw [Sim.held, hsame] at hid
      rw [hsame]
      exact hheld id hid
  | running id m hheld hin hmul =>
      have hsame := hcpu id (Or.inl hheld)
      refine .running id m ?_ ?_ ?_
      · rw [Sim.held, hsame]
        exact hheld
      · rwa [hsame]
      · rwa [hsame, hpc]
  | done hf => exact .done (hfreed.trans hf)

/-- A process that a CPU has, inside of a slice: how far it is in its slices. -/
theorem running_inv (h : AtStage p s st) (hexec : ExecOk s) (hheld : s.held id = some p)
    (hin : ¬ (s.os.cpu id).between p) : ∃ m, st = .running id m ∧
      s.os.pc p + (s.os.cpu id).timeLeft = m * cfg.timeSlot.toNat := by
  cases h with
  | new hnot hzero => exact absurd (Or.inl (hexec.loaded (Or.inr ⟨id, hheld⟩))) hnot
  | ready m hadd hf hbetween hmul hlt => exact absurd (hbetween id hheld) hin
  | running id' m hheld' hin' hmul =>
      obtain rfl := held_unique (hexec.sole p) hheld hheld'
      exact ⟨m, rfl, hmul⟩
  | done hf =>
      rw [not_freed_of_held (hexec.sole p) hheld] at hf
      cases hf

/-- A process that a CPU has, outside of a slice, or that is in a queue. -/
theorem ready_inv (h : AtStage p s st) (hexec : ExecOk s)
    (hout : (s.held id = some p ∧ (s.os.cpu id).between p) ∨
      ∃ prio, p ∈ s.os.mlqReadyQueue prio) : ∃ m, st = .ready m ∧
      s.os.pc p = m * cfg.timeSlot.toNat ∧ s.os.pc p < cfg.codeSize p := by
  have hplace : (∃ prio, p ∈ s.os.mlqReadyQueue prio) ∨ ∃ id, s.held id = some p := by
    rcases hout with ⟨hheld, -⟩ | hqueued
    · exact Or.inr ⟨id, hheld⟩
    · exact Or.inl hqueued
  cases h with
  | new hnot hzero => exact absurd (Or.inl (hexec.loaded hplace)) hnot
  | ready m hadd hf hbetween hmul hlt => exact ⟨m, rfl, hmul, hlt⟩
  | running id' m hheld' hin' hmul =>
      rcases hout with ⟨hheld, hbetween⟩ | ⟨prio, hqueued⟩
      · obtain rfl := held_unique (hexec.sole p) hheld hheld'
        exact absurd hbetween hin'
      · exact absurd hqueued (not_queued_of_held (hexec.sole p) hheld' prio)
  | done hf =>
      have hsole := hexec.sole p
      rw [Sim.places, if_pos hf] at hsole
      rcases hplace with ⟨prio, hqueued⟩ | ⟨id, hheld⟩
      · have := one_le_queued hqueued
        omega
      · have := one_le_holders hheld
        omega

end AtStage

/-- The life goes on as the lines of the step say, from its stage to that after the step. -/
def Lives (p : cfg.Proc) (s : Sim cfg) (t : Thread cfg.numCpus × CStr) (s' : Sim cfg)
    (st : Stage (Fin cfg.numCpus)) : Prop :=
  ∃ st', ((lifeCycle _ (cfg.codeSize p) cfg.timeSlot.toNat).startingAt st).Run (s.lines p t) st' ∧
    AtStage p s' st'

section Step

variable {st st' : Stage (Fin cfg.numCpus)} {id : Fin cfg.numCpus} {name : CStr}
  {es : List (SliceEvent cfg.Proc)} {t : Thread cfg.numCpus × CStr}

/-- A step that prints nothing about `p` leaves its stage. -/
theorem Lives.silent (hlines : s.lines p t = []) (h : AtStage p s' st) : Lives p s t s' st :=
  ⟨st, hlines ▸ Run.startingAt_nil _ _, h⟩

/-- A step that prints one line about `p` is a step of its life. -/
theorem Lives.one {l : LifeLine (Fin cfg.numCpus)} (hlines : s.lines p t = [l])
    (hst : LifeStep (cfg.codeSize p) cfg.timeSlot.toNat st l st') (h : AtStage p s' st') :
    Lives p s t s' st :=
  ⟨st', hlines ▸ Run.startingAt_one hst, h⟩

/-! #### A CPU that has the process in hand -/

/-- No other CPU has `p` after a step of the one that had it. -/
theorem between_of_step (hexec : ExecOk s) (hheld : s.held id = some p)
    (hst : SimCpuStep s id name s') {x' : Cpu cfg.Proc} (hx' : s'.os.cpu id = x')
    (hin' : x'.holds = some p → x'.between p) (id' : Fin cfg.numCpus)
    (hid' : s'.held id' = some p) : (s'.os.cpu id').between p := by
  by_cases hid : id' = id
  · subst hid
    rw [Sim.held, hx'] at hid'
    rw [hx']
    exact hin' hid'
  · rw [Sim.held, hst.frame.2.2.2 id' hid] at hid'
    exact absurd (held_unique (hexec.sole p) hid' hheld) hid

/-- After the step, `p` is in no slice, with as many slices behind it as before. -/
theorem AtStage.ready_of_step (hexec : ExecOk s) (hheld : s.held id = some p)
    (hst : SimCpuStep s id name s') {x' : Cpu cfg.Proc} (hx' : s'.os.cpu id = x')
    (hin' : x'.holds = some p → x'.between p) (hfreed : s'.freed = s.freed) {m : ℕ}
    (hpc : s'.os.pc p = m * cfg.timeSlot.toNat) (hlt : s'.os.pc p < cfg.codeSize p) :
    AtStage p s' (.ready m) := by
  obtain ⟨hld, hi, -, -⟩ := hst.frame
  have hadded : s'.Added p := by
    rw [Sim.Added, hi, hld]
    exact Or.inl (hexec.loaded (Or.inr ⟨id, hheld⟩))
  refine .ready m hadded ?_ (between_of_step hexec hheld hst hx' hin') hpc hlt
  rw [hfreed]
  exact not_freed_of_held (hexec.sole p) hheld

/-- A step outside of a slice that shows nothing. -/
theorem Lives.outside (hexec : ExecOk s) (hheld : s.held id = some p) (h : AtStage p s st)
    (hst : SimCpuStep s id name s') {x x' : Cpu cfg.Proc} (hx : s.os.cpu id = x)
    (hx' : s'.os.cpu id = x') (hin : x.between p) (hin' : x'.holds = some p → x'.between p)
    (hfreed : s'.freed = s.freed) (hpc : s'.os.pc p = s.os.pc p)
    (hlines : s.lines p (.cpu id, name) = []) : Lives p s (.cpu id, name) s' st := by
  obtain ⟨m, rfl, hmul, hlt⟩ := h.ready_inv hexec (Or.inl ⟨hheld, hx ▸ hin⟩)
  exact .silent hlines (.ready_of_step hexec hheld hst hx' hin' hfreed (hpc.trans hmul)
    (hpc.trans_lt hlt))

/-- The process is found at its end, which is in the slice that it had. -/
theorem Lives.finish (hexec : ExecOk s) (hheld : s.held id = some p) (h : AtStage p s st) {t : ℤ}
    (hx : s.os.cpu id = ⟨.top, some p, t⟩) (ht : 0 ≤ t) (hpc : s.os.pc p = cfg.codeSize p)
    (hfreed : s'.freed p = true) : Lives p s (.cpu id, name) s' st := by
  obtain ⟨m, rfl, hmul⟩ := h.running_inv hexec hheld (by simp [hx, Cpu.between])
  refine .one ?_ (.finish id m ?_) (.done hfreed)
  · simp [Sim.lines, Sim.cpuEvents, hx, hpc, SliceEvent.line]
  · have hle : (s.os.pc p : ℤ) ≤ ((m * cfg.timeSlot.toNat : ℕ) : ℤ) := by
      simp only [hx] at hmul
      push_cast
      omega
    rw [← hpc]
    exact_mod_cast hle

/-- The slice of a process that is not at its end is over. -/
theorem Lives.expire (hexec : ExecOk s) (hheld : s.held id = some p) (h : AtStage p s st)
    (hst : SimCpuStep s id name s') (hx : s.os.cpu id = ⟨.top, some p, 0⟩)
    (hx' : s'.os.cpu id = ⟨.putRunning, some p, 0⟩) (hpc : s.os.pc p ≠ cfg.codeSize p)
    (hfreed : s'.freed = s.freed) (hpc' : s'.os.pc p = s.os.pc p) :
    Lives p s (.cpu id, name) s' st := by
  obtain ⟨m, rfl, hmul⟩ := h.running_inv hexec hheld (by simp [hx, Cpu.between])
  have hlt := lt_of_le_of_ne (hexec.pc_le p) hpc
  have hpcm : s.os.pc p = m * cfg.timeSlot.toNat := by
    simp only [hx, add_zero] at hmul
    exact_mod_cast hmul
  refine .one ?_ (.put id m (hpcm ▸ hlt)) (.ready_of_step hexec hheld hst hx' ?_ hfreed
    (hpc'.trans hpcm) (hpc'.trans_lt hlt))
  · simp [Sim.lines, Sim.cpuEvents, hx, hpc, SliceEvent.line]
  · intro _
    simp [Cpu.between]

/-- A slice begins: the process is not at its end, and `time_left` is a whole slice. -/
theorem Lives.dispatch (hslot : 1 ≤ cfg.timeSlot) (hexec : ExecOk s) (hheld : s.held id = some p)
    (h : AtStage p s st) (hx : s.os.cpu id = ⟨.recheck, some p, 0⟩)
    (hx' : s'.os.cpu id = ⟨.run, some p, cfg.timeSlot⟩) (hpc' : s'.os.pc p = s.os.pc p) :
    Lives p s (.cpu id, name) s' st := by
  obtain ⟨m, rfl, hpc, hlt⟩ := h.ready_inv hexec (Or.inl ⟨hheld, by simp [hx, Cpu.between]⟩)
  refine .one ?_ (.dispatch id m (hpc ▸ hlt)) (.running id (m + 1) ?_ ?_ ?_)
  · simp [Sim.lines, Sim.cpuEvents, hx, SliceEvent.line]
  · simp [Sim.held, hx', Cpu.holds]
  · simp [hx', Cpu.between]
  · have hcast : ((cfg.timeSlot.toNat : ℕ) : ℤ) = cfg.timeSlot := Int.toNat_of_nonneg (by omega)
    rw [hx', hpc', hpc]
    push_cast
    rw [hcast]
    ring

end Step

end OsSim
