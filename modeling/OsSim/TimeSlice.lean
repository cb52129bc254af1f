import OsSim.Ownership

/-!
# Time Slices

`time_left` is a local of `cpu_routine` that survives from one iteration to the next, while the
process changes, ends, or is not there. What the CPU does to the processes is recorded beside the
run: between the dispatch of a process and its end or its return to the queue there is nothing but
calls of `run` on it, each followed by `next_slot`, and `time_left` counts them down.

## How the argument goes

A history is a list of `SliceEvent`s, and `ExactSlices` a property of lists: from each dispatch to
the first end after it there are as many calls of `run` as the time slot and the instructions left
allow. What a step adds to the history is read off the state before it (`Sim.sliceEvents`), so that
the recording is a function of the run and no part of the system.

The invariant connects the locals of the CPU with its history (`SliceAt`): a CPU at a call of `run`
is in a slice that has had `k` calls, it has `time_slot - k` left, and its process is `k`
instructions further than at its dispatch. The last part is about the program counter, which is not
the CPU's own; it holds because no other CPU has the process (`Ownership`).

That a slice has at least one call needs that a process which waits is not at its end (`PcOk`).
`cpu_routine` tests for the end before it puts a process back, so this holds from the start on where
every program has an instruction.

## Main results

* `PcOk.step`: processes that wait are not at their end.
* `SliceInv.step`: **`time_left` is what remains of the slice that the history shows**.
-/

namespace OsSim

open TransitionSystem

/-! ### Histories -/

/-- What a CPU does to its process: `Dispatched`, a call of `run`, a call of `next_slot`, `Put
process`, and `Processed`. -/
inductive SliceEvent (P : Type) where
  | dispatch (proc : P) (pc : ℕ)
  | run (proc : P)
  | nextSlot
  | put (proc : P)
  | finish (proc : P)
  deriving DecidableEq, Repr

section Histories

variable {P : Type}

/-- The process is put back or reported finished, either of which ends its slice. -/
def SliceEvent.ends : SliceEvent P → Bool
  | .put _ | .finish _ => true
  | _ => false

/-- `n` calls of `run`, with one `next_slot` after each. -/
def sliceRuns (proc : P) (n : ℕ) : List (SliceEvent P) :=
  (List.replicate n [.run proc, .nextSlot]).flatten

/-- **The slices of a history are exact.** From a dispatch to the first end after it, there are
`min time_slot (code->size - pc)` calls of `run` on the process dispatched. -/
def ExactSlices (timeSlot : ℤ) (codeSize : P → ℕ) (es : List (SliceEvent P)) : Prop :=
  ∀ pre proc (pc : ℕ) mid e post, es = pre ++ .dispatch proc pc :: (mid ++ e :: post) →
    e.ends = true → (∀ x ∈ mid, x.ends = false) →
    (e = .put proc ∨ e = .finish proc) ∧
      ∃ n : ℕ, (n : ℤ) = min timeSlot (codeSize proc - pc) ∧ mid = sliceRuns proc n

/-- Every process dispatched has been put back or reported finished. -/
def Closed (es : List (SliceEvent P)) : Prop :=
  ∀ pre proc pc post, es = pre ++ .dispatch proc pc :: post → ∃ x ∈ post, x.ends = true

/-- The last slice is that of `proc`, dispatched at `pc`, with the events `mid` so far. -/
def Slicing (es : List (SliceEvent P)) (proc : P) (pc : ℕ) (mid : List (SliceEvent P)) : Prop :=
  ∃ pre, Closed pre ∧ es = pre ++ .dispatch proc pc :: mid

variable {timeSlot : ℤ} {codeSize : P → ℕ} {es mid : List (SliceEvent P)} {proc : P} {pc n : ℕ}
  {x : SliceEvent P}

/-- One call more at the end. -/
theorem sliceRuns_succ (proc : P) (n : ℕ) :
    sliceRuns proc (n + 1) = sliceRuns proc n ++ [.run proc, .nextSlot] := by
  rw [sliceRuns, List.replicate_succ', List.flatten_concat, sliceRuns]

/-- A slice has no other events than calls of `run` and of `next_slot`. -/
theorem mem_sliceRuns (hx : x ∈ sliceRuns proc n) : x = .run proc ∨ x = .nextSlot := by
  obtain ⟨l, hl, hxl⟩ := List.mem_flatten.mp hx
  rw [List.eq_of_mem_replicate hl] at hxl
  simpa using hxl

/-- Where a history with one more event is split: at that event, or before it. -/
theorem concat_eq_split {pre post : List (SliceEvent P)} {e : SliceEvent P}
    (h : es ++ [x] = pre ++ e :: post) :
    (post = [] ∧ pre = es ∧ e = x) ∨ ∃ post', post = post' ++ [x] ∧ es = pre ++ e :: post' := by
  rcases List.eq_nil_or_concat' post with rfl | ⟨post, y, rfl⟩
  · obtain ⟨rfl, heq⟩ := List.append_inj' h rfl
    exact Or.inl ⟨rfl, rfl, (List.cons.inj heq).1.symm⟩
  · rw [← List.cons_append, ← List.append_assoc] at h
    obtain ⟨rfl, heq⟩ := List.append_inj' h rfl
    obtain rfl := (List.cons.inj heq).1
    exact Or.inr ⟨post, rfl, rfl⟩

/-- The history at the start has nothing open: nothing has been dispatched. -/
theorem Closed.nil : Closed ([] : List (SliceEvent P)) := by
  intro pre proc pc post h
  simp at h

/-- After an end, nothing is open, whatever came before. -/
theorem closed_concat_end (es : List (SliceEvent P)) (hx : x.ends = true) :
    Closed (es ++ [x]) := by
  intro pre proc pc post h
  rcases concat_eq_split h with ⟨-, -, rfl⟩ | ⟨post', rfl, -⟩
  · cases hx
  · exact ⟨x, by simp, hx⟩

/-- A call of `next_slot` opens nothing. -/
theorem Closed.concat_nextSlot (h : Closed es) : Closed (es ++ [.nextSlot]) := by
  intro pre proc pc post heq
  rcases concat_eq_split heq with ⟨-, -, hlast⟩ | ⟨post', rfl, hes⟩
  · cases hlast
  · obtain ⟨z, hz, hends⟩ := h pre proc pc post' hes
    exact ⟨z, List.mem_append_left _ hz, hends⟩

/-- A dispatch after a closed history opens a slice, without an event so far. -/
theorem Closed.dispatch (h : Closed es) (proc : P) (pc : ℕ) :
    Slicing (es ++ [.dispatch proc pc]) proc pc [] := ⟨es, h, rfl⟩

/-- The open slice goes on with the next event. -/
theorem Slicing.concat (h : Slicing es proc pc mid) (x : SliceEvent P) :
    Slicing (es ++ [x]) proc pc (mid ++ [x]) := by
  obtain ⟨pre, hpre, rfl⟩ := h
  exact ⟨pre, hpre, by simp⟩

/-- **The open slice is the only one.** A dispatch with no end after it is that of the slice, which
goes on with calls of `run`. -/
theorem Slicing.unique {proc' : P} {pc' : ℕ} {pre' mid' : List (SliceEvent P)}
    (h : Slicing es proc pc (sliceRuns proc n)) (hes : es = pre' ++ .dispatch proc' pc' :: mid')
    (hmid : ∀ x ∈ mid', x.ends = false) :
    proc' = proc ∧ pc' = pc ∧ mid' = sliceRuns proc n := by
  obtain ⟨pre, hpre, heq⟩ := h
  rw [hes] at heq
  rcases List.append_eq_append_iff.mp heq with ⟨between, hsplit, hmid'⟩ | ⟨between, hsplit, hmid'⟩
  · rcases between with _ | ⟨y, between⟩
    · obtain ⟨hd, rfl⟩ := List.cons.inj hmid'
      cases hd
      exact ⟨rfl, rfl, rfl⟩
    · -- the dispatch is before the slice, and its end as well
      obtain ⟨rfl, rfl⟩ := List.cons.inj hmid'
      obtain ⟨z, hz, hends⟩ := hpre _ _ _ _ hsplit
      rw [hmid z (List.mem_append_left _ hz)] at hends
      cases hends
  · rcases between with _ | ⟨y, between⟩
    · obtain ⟨hd, hruns⟩ := List.cons.inj hmid'
      cases hd
      exact ⟨rfl, rfl, hruns.symm⟩
    · -- the dispatch is inside the slice, which has calls only
      obtain ⟨rfl, hruns⟩ := List.cons.inj hmid'
      have hin : SliceEvent.dispatch proc' pc' ∈ sliceRuns proc n := by
        rw [hruns]
        simp
      rcases mem_sliceRuns hin with h | h <;> cases h

/-- The history at the start has no slice. -/
theorem ExactSlices.nil (timeSlot : ℤ) (codeSize : P → ℕ) : ExactSlices timeSlot codeSize [] := by
  intro pre proc pc mid e post h
  simp at h

/-- An event that ends no slice leaves the slices that have ended as they are. -/
theorem ExactSlices.concat (h : ExactSlices timeSlot codeSize es) (hx : x.ends = false) :
    ExactSlices timeSlot codeSize (es ++ [x]) := by
  intro pre proc pc mid e post heq hends hmid
  rw [← List.cons_append, ← List.append_assoc] at heq
  rcases concat_eq_split heq with ⟨-, -, rfl⟩ | ⟨post', rfl, hes⟩
  · rw [hx] at hends
    cases hends
  · rw [List.append_assoc, List.cons_append] at hes
    exact h pre proc pc mid e post' hes hends hmid

/-- **The end of a slice**, when it has had its calls, is that of an exact one. -/
theorem ExactSlices.concat_end (h : ExactSlices timeSlot codeSize es)
    (hslice : Slicing es proc pc (sliceRuns proc n))
    (hn : (n : ℤ) = min timeSlot (codeSize proc - pc)) (hx : x = .put proc ∨ x = .finish proc) :
    ExactSlices timeSlot codeSize (es ++ [x]) := by
  intro pre proc' pc' mid e post heq hends hmid
  rw [← List.cons_append, ← List.append_assoc] at heq
  rcases concat_eq_split heq with ⟨-, hes, rfl⟩ | ⟨post', rfl, hes⟩
  · obtain ⟨rfl, rfl, rfl⟩ := hslice.unique hes.symm hmid
    exact ⟨hx, n, hn, rfl⟩
  · rw [List.append_assoc, List.cons_append] at hes
    exact h pre proc' pc' mid e post' hes hends hmid

end Histories

variable {cfg : SimConfig}

/-! ### The program counters -/

/-- A program counter moves where a CPU runs the process. -/
theorem pc_of_simStep {s s' : Sim cfg} {t : Thread cfg.numCpus} {name : CStr}
    (hst : simStep s (t, name) = some s') (p : cfg.Proc) :
    s'.os.pc p = s.os.pc p ∨ ∃ id τ, t = .cpu id ∧ s.os.cpu id = ⟨.run, some p, τ⟩ := by
  rcases simStep_cases hst with
    ⟨id, rfl, hcpu⟩ | ⟨rfl, os, hld, rfl⟩ | ⟨rfl, clock, -, rfl⟩ | ⟨rfl, rfl⟩
  · cases hcpu with
    | exec proc τ ins hx hins =>
        by_cases hp : p = proc
        · subst hp
          exact Or.inr ⟨id, τ, rfl, hx⟩
        · exact Or.inl (by rw [Sim.pc_exec, Function.update_of_ne hp])
    | other os hos hrun hend => exact Or.inl (congrFun (hos.pc_eq hrun) p)
    | fetch proc τ ins hx hnone hins => exact Or.inl rfl
    | ended proc τ hx hnone hpc => exact Or.inl rfl
    | finish proc τ hx hpc => exact Or.inl rfl
  · exact Or.inl (congrFun hld.frame.2 p)
  · exact Or.inl rfl
  · exact Or.inl rfl

/-- A process is with the loader, in a queue, or in the hands of `put_proc`. -/
def Sim.Waits (s : Sim cfg) (p : cfg.Proc) : Prop :=
  s.os.i ≤ p ∨ (∃ prio, p ∈ s.os.mlqReadyQueue prio) ∨
    ∃ id τ, s.os.cpu id = ⟨.putRunning, some p, τ⟩ ∨ s.os.cpu id = ⟨.putReady, some p, τ⟩

/-- A CPU in `put_proc` was there before, or found the slice at its end. -/
theorem CpuStep.of_putting {s s' : Os cfg.toOsConfig} {id : Fin cfg.numCpus} (h : CpuStep s id s')
    {p : cfg.Proc} {τ : ℤ}
    (hput : s'.cpu id = ⟨.putRunning, some p, τ⟩ ∨ s'.cpu id = ⟨.putReady, some p, τ⟩) :
    s.cpu id = ⟨.putRunning, some p, τ⟩ ∨
      (s.cpu id = ⟨.top, some p, τ⟩ ∧ s.pc p ≠ cfg.codeSize p) := by
  cases h with
  | goto x x' hx hgo =>
      rw [Os.cpu_setCpu_self] at hput
      cases hgo with
      | expire proc hpc =>
          obtain ⟨rfl, rfl⟩ : proc = p ∧ 0 = τ := by simpa using hput
          exact Or.inr ⟨hx, hpc⟩
      | _ => simp at hput
  | get x hx hl =>
      rw [Os.cpu_setCpu_self, Cpu.got] at hput
      split at hput
      · split at hput <;> simp at hput
      · simp at hput
      · simp at hput
  | putRunning proc t hx =>
      obtain ⟨rfl, rfl⟩ : proc = p ∧ t = τ := by simpa using hput
      exact Or.inl hx
  | _ => simp at hput

/-- A process waits after a step if it did before, or if `put_proc` is called for it. -/
theorem Sim.Waits.of_step {s s' : Sim cfg} {t : Thread cfg.numCpus} {name : CStr}
    (hfirst : FirstOk s) (hst : simStep s (t, name) = some s') {p : cfg.Proc} (h : s'.Waits p) :
    s.Waits p ∨ s.os.pc p ≠ cfg.codeSize p ∧ ∃ id τ, s.os.cpu id = ⟨.top, some p, τ⟩ := by
  have hmoves := moves_of_simStep hfirst hst
  rcases h with hle | ⟨prio, hin⟩ | ⟨id, τ, hput⟩
  · exact Or.inl (Or.inl (hmoves.le_i.trans hle))
  · rcases hmoves.of_mem_queue hin with hin | ⟨-, ⟨id, τ, hx⟩ | hload⟩
    · exact Or.inl (Or.inr (Or.inl ⟨prio, hin⟩))
    · exact Or.inl (Or.inr (Or.inr ⟨id, τ, Or.inr hx⟩))
    · exact Or.inl (Or.inl hload.ge)
  · rcases simStep_cases hst with
      ⟨id', rfl, hcpu⟩ | ⟨rfl, os, hld, rfl⟩ | ⟨rfl, clock, -, rfl⟩ | ⟨rfl, rfl⟩
    · by_cases hid : id = id'
      · subst hid
        cases hcpu with
        | other os hos hrun hend =>
            rcases hos.of_putting hput with hx | ⟨hx, hpc⟩
            · exact Or.inl (Or.inr (Or.inr ⟨id, τ, Or.inl hx⟩))
            · exact Or.inr ⟨hpc, id, τ, hx⟩
        | fetch proc t ins hx hnone hins => exact Or.inl (Or.inr (Or.inr ⟨id, τ, hput⟩))
        | ended proc t hx hnone hpc => simp at hput
        | exec proc t ins hx hins => simp at hput
        | finish proc t hx hpc => simp at hput
      · rw [hcpu.frame.2.2.2 id hid] at hput
        exact Or.inl (Or.inr (Or.inr ⟨id, τ, hput⟩))
    · rw [hld.frame.1] at hput
      exact Or.inl (Or.inr (Or.inr ⟨id, τ, hput⟩))
    · exact Or.inl (Or.inr (Or.inr ⟨id, τ, hput⟩))
    · exact Or.inl (Or.inr (Or.inr ⟨id, τ, hput⟩))

/-- A process that waits is run by no CPU. -/
theorem Sim.Waits.not_run {s : Sim cfg} (hexec : ExecOk s) {p : cfg.Proc} (h : s.Waits p)
    {id : Fin cfg.numCpus} {τ : ℤ} : s.os.cpu id ≠ ⟨.run, some p, τ⟩ := by
  intro hx
  have hheld : s.held id = some p := held_of_cpu hx (by simp)
  rcases h with hle | ⟨prio, hin⟩ | ⟨id', τ', hput⟩
  · exact absurd hle (not_le.mpr (hexec.loaded (Or.inr ⟨id, hheld⟩)))
  · exact not_queued_of_held (hexec.sole p) hheld prio hin
  · have hheld' : s.held id' = some p := by
      rcases hput with hput | hput
      · exact held_of_cpu hput (by simp)
      · exact held_of_cpu hput (by simp)
    obtain rfl := held_unique (hexec.sole p) hheld hheld'
    rw [hx] at hput
    simp at hput

/-- The invariant of the program counters: a process that waits is not at its end. -/
structure PcOk (s : Sim cfg) : Prop where
  exec : ExecOk s
  waits : ∀ p, s.Waits p → s.os.pc p < cfg.codeSize p

/-- **Processes that wait are not at their end**, after any step. -/
theorem PcOk.step {s s' : Sim cfg} (h : PcOk s) {t : Thread cfg.numCpus} {name : CStr}
    (hst : simStep s (t, name) = some s') : PcOk s' where
  exec := h.exec.step hst
  waits p hp := by
    rcases hp.of_step h.exec.first hst with hwaits | ⟨hne, id, τ, hx⟩
    · rcases pc_of_simStep hst p with hpc | ⟨id, τ, -, hx⟩
      · rw [hpc]
        exact h.waits p hwaits
      · exact absurd hx (hwaits.not_run h.exec)
    · rcases pc_of_simStep hst p with hpc | ⟨id', τ', -, hx'⟩
      · rw [hpc]
        exact lt_of_le_of_ne (h.exec.pc_le p) hne
      · have hheld : s.held id = some p := held_of_cpu hx (by simp)
        obtain rfl := held_unique (h.exec.sole p) hheld (held_of_cpu hx' (by simp))
        rw [hx] at hx'
        simp at hx'

/-- At the start every process is at its first instruction, and has one. -/
theorem PcOk.boot (hsize : ∀ p, 1 ≤ cfg.codeSize p) : PcOk (bootSim cfg) where
  exec := ExecOk.of_run (Run.init rfl)
  waits p _ := hsize p

/-- While CPU `id` has a process, only its own steps move the program counter. -/
theorem pc_of_held {s s' : Sim cfg} (hexec : ExecOk s) {t : Thread cfg.numCpus} {name : CStr}
    (hst : simStep s (t, name) = some s') {id : Fin cfg.numCpus} (ht : t ≠ .cpu id) {p : cfg.Proc}
    (hheld : s.held id = some p) : s'.os.pc p = s.os.pc p := by
  rcases pc_of_simStep hst p with hpc | ⟨id', τ, rfl, hx⟩
  · exact hpc
  · have hid := held_unique (hexec.sole p) (held_of_cpu hx (by simp)) hheld
    exact absurd (hid ▸ rfl) ht

/-! ### `time_left` -/

/-- What a step of CPU `id` does to its process, seen from the state before it. -/
def Sim.cpuEvents (s : Sim cfg) (id : Fin cfg.numCpus) : List (SliceEvent cfg.Proc) :=
  match s.os.cpu id with
  | ⟨.top, some proc, timeLeft⟩ =>
      if s.os.pc proc = cfg.codeSize proc then [.finish proc]
      else if timeLeft = 0 then [.put proc]
      else []
  | ⟨.recheck, some proc, timeLeft⟩ =>
      if timeLeft = 0 then [.dispatch proc (s.os.pc proc)] else []
  | ⟨.run, some proc, _⟩ =>
      -- the instruction that is only fetched is still to be executed
      if s.fetched id = none ∧ s.os.pc proc < cfg.codeSize proc then [] else [.run proc]
  | ⟨.slotSet, _, _⟩ => [.nextSlot]
  | _ => []

/-- What a step of any thread does to the process of CPU `id`. -/
def Sim.sliceEvents (id : Fin cfg.numCpus) (s : Sim cfg) (t : Thread cfg.numCpus × CStr) :
    List (SliceEvent cfg.Proc) := if t.1 = .cpu id then s.cpuEvents id else []

/-- **What the locals of a CPU say about its history.** A slice that has had `k` calls has
`time_slot - k` left, and its process is `k` instructions further. -/
inductive SliceAt (timeSlot : ℤ) (codeSize : cfg.Proc → ℕ) (pc : cfg.Proc → ℕ)
    (es : List (SliceEvent cfg.Proc)) : Cpu cfg.Proc → Prop
  | idle (label : CpuLabel) (t : ℤ) (hclosed : Closed es) (ht : t = 0) :
      SliceAt timeSlot codeSize pc es ⟨label, none, t⟩
  | leaving (proc : cfg.Proc) (t : ℤ) (hclosed : Closed es) (h0 : 0 ≤ t) (ht : t ≤ timeSlot) :
      SliceAt timeSlot codeSize pc es ⟨.getFinished, some proc, t⟩
  | putting (label : CpuLabel) (proc : cfg.Proc) (t : ℤ) (hclosed : Closed es)
      (hl : label = .putRunning ∨ label = .putReady ∨ label = .getPut) (ht : t = 0) :
      SliceAt timeSlot codeSize pc es ⟨label, some proc, t⟩
  | fresh (proc : cfg.Proc) (t : ℤ) (hclosed : Closed es) (ht : t = 0)
      (hpc : pc proc < codeSize proc) : SliceAt timeSlot codeSize pc es ⟨.recheck, some proc, t⟩
  | running (label : CpuLabel) (proc : cfg.Proc) (t : ℤ) (pc₀ k : ℕ)
      (hslice : Slicing es proc pc₀ (sliceRuns proc k)) (hl : label = .recheck ∨ label = .run)
      (ht : t = timeSlot - k) (hk : k < timeSlot) (hpc : pc proc = pc₀ + k)
      (hlt : pc proc < codeSize proc) : SliceAt timeSlot codeSize pc es ⟨label, some proc, t⟩
  | ran (proc : cfg.Proc) (t : ℤ) (pc₀ k : ℕ)
      (hslice : Slicing es proc pc₀ (sliceRuns proc k ++ [.run proc]))
      (ht : t = timeSlot - (k + 1)) (hk : k < timeSlot) (hpc : pc proc = pc₀ + (k + 1))
      (hle : pc proc ≤ codeSize proc) : SliceAt timeSlot codeSize pc es ⟨.slotSet, some proc, t⟩
  | between (label : CpuLabel) (proc : cfg.Proc) (t : ℤ) (pc₀ k : ℕ)
      (hslice : Slicing es proc pc₀ (sliceRuns proc k)) (hl : label = .slotWait ∨ label = .top)
      (ht : t = timeSlot - k) (hk : k ≤ timeSlot) (hpc : pc proc = pc₀ + k)
      (hle : pc proc ≤ codeSize proc) : SliceAt timeSlot codeSize pc es ⟨label, some proc, t⟩

namespace SliceAt

variable {timeSlot t : ℤ} {codeSize pc pc' : cfg.Proc → ℕ} {es : List (SliceEvent cfg.Proc)}
  {x : Cpu cfg.Proc} {label : CpuLabel} {proc : cfg.Proc}

/-- Inversion of a CPU without a process: its last slice has ended, and nothing is left. -/
theorem idle_inv (h : SliceAt timeSlot codeSize pc es ⟨label, none, t⟩) : Closed es ∧ t = 0 := by
  cases h with
  | idle label t hclosed ht => exact ⟨hclosed, ht⟩

/-- Inversion of a CPU in `put_proc`: the slice has ended, and nothing is left of it. -/
theorem putting_inv (h : SliceAt timeSlot codeSize pc es ⟨label, some proc, t⟩)
    (hl : label = .putRunning ∨ label = .putReady) : Closed es ∧ t = 0 := by
  cases h with
  | putting label proc t hclosed hput ht => exact ⟨hclosed, ht⟩
  | running label proc t pc₀ k hslice hrun ht hk hpc hlt =>
      rcases hl with rfl | rfl <;> simp at hrun
  | between label proc t pc₀ k hslice hwait ht hk hpc hle =>
      rcases hl with rfl | rfl <;> simp at hwait
  | _ => simp at hl

/-- Inversion of a CPU at a call of `run`: it is in a slice, with a call left, and its process is
not at its end. -/
theorem run_inv (h : SliceAt timeSlot codeSize pc es ⟨.run, some proc, t⟩) : ∃ pc₀ k : ℕ,
    Slicing es proc pc₀ (sliceRuns proc k) ∧ t = timeSlot - k ∧ k < timeSlot ∧
      pc proc = pc₀ + k ∧ pc proc < codeSize proc := by
  cases h with
  | running label proc t pc₀ k hslice hl ht hk hpc hlt => exact ⟨pc₀, k, hslice, ht, hk, hpc, hlt⟩
  | putting label proc t hclosed hl ht => simp at hl
  | between label proc t pc₀ k hslice hl ht hk hpc hle => simp at hl

/-- Inversion of a CPU after a call of `run`, which the history shows already. -/
theorem ran_inv (h : SliceAt timeSlot codeSize pc es ⟨.slotSet, some proc, t⟩) : ∃ pc₀ k : ℕ,
    Slicing es proc pc₀ (sliceRuns proc k ++ [.run proc]) ∧ t = timeSlot - (k + 1) ∧
      k < timeSlot ∧ pc proc = pc₀ + (k + 1) ∧ pc proc ≤ codeSize proc := by
  cases h with
  | ran proc t pc₀ k hslice ht hk hpc hle => exact ⟨pc₀, k, hslice, ht, hk, hpc, hle⟩
  | putting label proc t hclosed hl ht => simp at hl
  | running label proc t pc₀ k hslice hl ht hk hpc hlt => simp at hl
  | between label proc t pc₀ k hslice hl ht hk hpc hle => simp at hl

/-- Inversion of a CPU between two calls of `run`, in `next_slot` or at the top of its loop. -/
theorem between_inv (h : SliceAt timeSlot codeSize pc es ⟨label, some proc, t⟩)
    (hl : label = .slotWait ∨ label = .top) : ∃ pc₀ k : ℕ,
      Slicing es proc pc₀ (sliceRuns proc k) ∧ t = timeSlot - k ∧ k ≤ timeSlot ∧
        pc proc = pc₀ + k ∧ pc proc ≤ codeSize proc := by
  cases h with
  | between label proc t pc₀ k hslice hwait ht hk hpc hle =>
      exact ⟨pc₀, k, hslice, ht, hk, hpc, hle⟩
  | putting label proc t hclosed hput ht => rcases hl with rfl | rfl <;> simp at hput
  | running label proc t pc₀ k hslice hrun ht hk hpc hlt =>
      rcases hl with rfl | rfl <;> simp at hrun
  | _ => simp at hl

/-- A CPU that leaves has no process. -/
theorem proc_of_detach {proc : Option cfg.Proc}
    (h : SliceAt timeSlot codeSize pc es ⟨.detach, proc, t⟩) : proc = none := by
  cases h with
  | idle label t hclosed ht => rfl
  | putting label proc t hclosed hl ht => simp at hl
  | running label proc t pc₀ k hslice hl ht hk hpc hlt => simp at hl
  | between label proc t pc₀ k hslice hl ht hk hpc hle => simp at hl

/-- `time_left` is between 0 and `time_slot`. -/
theorem bounds (h : SliceAt timeSlot codeSize pc es x) (hslot : 1 ≤ timeSlot) :
    0 ≤ x.timeLeft ∧ x.timeLeft ≤ timeSlot := by
  cases h with
  | idle label t hclosed ht => dsimp only; omega
  | leaving proc t hclosed h0 ht => exact ⟨h0, ht⟩
  | putting label proc t hclosed hl ht => dsimp only; omega
  | fresh proc t hclosed ht hpc => dsimp only; omega
  | running label proc t pc₀ k hslice hl ht hk hpc hlt => dsimp only; omega
  | ran proc t pc₀ k hslice ht hk hpc hle => dsimp only; omega
  | between label proc t pc₀ k hslice hl ht hk hpc hle => dsimp only; omega

/-- Without a process, nothing is left. -/
theorem timeLeft_of_none (h : SliceAt timeSlot codeSize pc es x) (hnone : x.proc = none) :
    x.timeLeft = 0 := by
  obtain ⟨label, proc, t⟩ := x
  obtain rfl : proc = none := hnone
  exact h.idle_inv.2

/-- The program counters of other processes may move. -/
theorem congr (h : SliceAt timeSlot codeSize pc es x)
    (hpc' : ∀ p, x.holds = some p → pc' p = pc p) : SliceAt timeSlot codeSize pc' es x := by
  cases h with
  | idle label t hclosed ht => exact .idle label t hclosed ht
  | leaving proc t hclosed h0 ht => exact .leaving proc t hclosed h0 ht
  | putting label proc t hclosed hl ht => exact .putting label proc t hclosed hl ht
  | fresh proc t hclosed ht hpc =>
      have heq := hpc' proc rfl
      exact .fresh proc t hclosed ht (heq ▸ hpc)
  | running label proc t pc₀ k hslice hl ht hk hpc hlt =>
      have heq : pc' proc = pc proc := hpc' proc (by rcases hl with rfl | rfl <;> rfl)
      exact .running label proc t pc₀ k hslice hl ht hk (heq ▸ hpc) (heq ▸ hlt)
  | ran proc t pc₀ k hslice ht hk hpc hle =>
      have heq := hpc' proc rfl
      exact .ran proc t pc₀ k hslice ht hk (heq ▸ hpc) (heq ▸ hle)
  | between label proc t pc₀ k hslice hl ht hk hpc hle =>
      have heq : pc' proc = pc proc := hpc' proc (by rcases hl with rfl | rfl <;> rfl)
      exact .between label proc t pc₀ k hslice hl ht hk (heq ▸ hpc) (heq ▸ hle)

/-- After `get_proc`, whatever was left of the slice before is gone. -/
theorem got (h : SliceAt timeSlot codeSize pc es x)
    (hl : x.label = .getFirst ∨ x.label = .getFinished ∨ x.label = .getPut)
    (r : Option cfg.Proc) (hr : ∀ p, r = some p → pc p < codeSize p) :
    SliceAt timeSlot codeSize pc es (x.got r) := by
  have hfetch (hclosed : Closed es) {t : ℤ} (ht : t = 0) :
      SliceAt timeSlot codeSize pc es ⟨.recheck, r, t⟩ := by
    rcases r with _ | p
    · exact .idle _ t hclosed ht
    · exact .fresh p t hclosed ht (hr p rfl)
  cases h with
  | idle label t hclosed ht =>
      rcases hl with hl | hl | hl
      · obtain rfl : label = .getFirst := hl
        rcases r with _ | p
        · exact .idle _ t hclosed ht
        · exact hfetch hclosed ht
      · obtain rfl : label = .getFinished := hl
        exact hfetch hclosed rfl
      · obtain rfl : label = .getPut := hl
        exact hfetch hclosed ht
  | leaving proc t hclosed h0 ht => exact hfetch hclosed rfl
  | putting label proc t hclosed hput ht =>
      obtain rfl : label = .getPut := by
        rcases hput with rfl | rfl | rfl <;> simp at hl ⊢
      exact hfetch hclosed ht
  | fresh proc t hclosed ht hpc => simp at hl
  | running label proc t pc₀ k hslice hrun ht hk hpc hlt =>
      rcases hrun with rfl | rfl <;> simp at hl
  | ran proc t pc₀ k hslice ht hk hpc hle => simp at hl
  | between label proc t pc₀ k hslice hwait ht hk hpc hle =>
      rcases hwait with rfl | rfl <;> simp at hl

end SliceAt

/-- The invariant: the history of CPU `id` has exact slices, and goes with its locals. -/
structure SliceInv (id : Fin cfg.numCpus) (s : Sim cfg) (es : List (SliceEvent cfg.Proc)) :
    Prop where
  pc : PcOk s
  exact : ExactSlices cfg.timeSlot cfg.codeSize es
  locals : SliceAt cfg.timeSlot cfg.codeSize s.os.pc es (s.os.cpu id)

namespace SliceInv

variable {s s' : Sim cfg} {id : Fin cfg.numCpus} {es : List (SliceEvent cfg.Proc)}

/-- What a step of the CPU makes of its history and its locals. -/
def After (id : Fin cfg.numCpus) (s : Sim cfg) (es : List (SliceEvent cfg.Proc))
    (pc : cfg.Proc → ℕ) (x : Cpu cfg.Proc) : Prop :=
  ExactSlices cfg.timeSlot cfg.codeSize (es ++ s.cpuEvents id) ∧
    SliceAt cfg.timeSlot cfg.codeSize pc (es ++ s.cpuEvents id) x

/-- A step that the history does not show changes the locals at most. -/
theorem silent (h : SliceInv id s es) (hnone : s.cpuEvents id = []) {pc : cfg.Proc → ℕ}
    {x : Cpu cfg.Proc} (hx : SliceAt cfg.timeSlot cfg.codeSize pc es x) : After id s es pc x := by
  rw [After, hnone, List.append_nil]
  exact ⟨h.exact, hx⟩

/-- The steps that change the locals only, without an event. -/
theorem goto (h : SliceInv id s es) (hslot : 1 ≤ cfg.timeSlot) {x x' : Cpu cfg.Proc}
    (hx : s.os.cpu id = x) (hgo : CpuGoto s.os id x x')
    (hend : ∀ proc t, x = ⟨.top, some proc, t⟩ → s.os.pc proc ≠ cfg.codeSize proc) :
    After id s es s.os.pc x' := by
  have hat := h.locals
  rw [hx] at hat
  cases hgo with
  | load t =>
      obtain ⟨hclosed, ht⟩ := hat.idle_inv
      exact h.silent (by simp [Sim.cpuEvents, hx]) (.idle _ t hclosed ht)
  | finish proc t hpc => exact absurd hpc (hend proc t rfl)
  | expire proc hpc =>
      -- the slice has had `time_slot` calls
      obtain ⟨pc₀, k, hslice, ht, hk, hk', hle⟩ := hat.between_inv (Or.inr rfl)
      have hput : s.cpuEvents id = [.put proc] := by simp [Sim.cpuEvents, hx, hpc]
      have hn : (k : ℤ) = min cfg.timeSlot (cfg.codeSize proc - pc₀) := by omega
      rw [After, hput]
      exact ⟨h.exact.concat_end hslice hn (Or.inl rfl),
        .putting _ proc 0 (closed_concat_end es rfl) (Or.inl rfl) rfl⟩
  | resume proc t hpc ht =>
      obtain ⟨pc₀, k, hslice, ht', hk, hk', hle⟩ := hat.between_inv (Or.inr rfl)
      exact h.silent (by simp [Sim.cpuEvents, hx, hpc, ht])
        (.running _ proc t pc₀ k hslice (Or.inl rfl) ht' (by omega) hk' (by omega))
  | leave t hdone =>
      obtain ⟨hclosed, ht⟩ := hat.idle_inv
      exact h.silent (by simp [Sim.cpuEvents, hx]) (.idle _ t hclosed ht)
  | skip t hdone =>
      obtain ⟨hclosed, ht⟩ := hat.idle_inv
      exact h.silent (by simp [Sim.cpuEvents, hx]) (.idle _ t hclosed ht)
  | dispatch proc t =>
      cases hat with
      | fresh proc t hclosed ht hpc =>
          have hdispatch : s.cpuEvents id = [.dispatch proc (s.os.pc proc)] := by
            simp [Sim.cpuEvents, hx, ht]
          rw [After, hdispatch, if_pos ht]
          exact ⟨h.exact.concat rfl, .running _ proc _ (s.os.pc proc) 0
            (hclosed.dispatch proc _) (Or.inr rfl) (by simp) (by omega) rfl hpc⟩
      | running label proc t pc₀ k hslice hl ht hk hpc hlt =>
          have hne : t ≠ 0 := by omega
          rw [if_neg hne]
          exact h.silent (by simp [Sim.cpuEvents, hx, hne])
            (.running _ proc t pc₀ k hslice (Or.inr rfl) ht hk hpc hlt)
      | putting label proc t hclosed hl ht => simp at hl
      | between label proc t pc₀ k hslice hl ht hk hpc hle => simp at hl
  | wake proc t hflag =>
      refine h.silent (by simp [Sim.cpuEvents, hx]) ?_
      rcases proc with _ | proc
      · obtain ⟨hclosed, ht⟩ := hat.idle_inv
        exact .idle _ t hclosed ht
      · obtain ⟨pc₀, k, hslice, ht, hk, hpc, hle⟩ := hat.between_inv (Or.inl rfl)
        exact .between _ proc t pc₀ k hslice (Or.inr rfl) ht hk hpc hle

/-- The steps of `Os`, but for `run` and for finding a process at its end. -/
theorem other (h : SliceInv id s es) (hslot : 1 ≤ cfg.timeSlot) {os : Os cfg.toOsConfig}
    (hst : CpuStep s.os id os) (hrun : (s.os.cpu id).label ≠ .run)
    (hend : ∀ proc t, s.os.cpu id = ⟨.top, some proc, t⟩ → s.os.pc proc ≠ cfg.codeSize proc) :
    After id s es os.pc (os.cpu id) := by
  have hat := h.locals
  cases hst with
  | goto x x' hx hgo =>
      rw [Os.cpu_setCpu_self]
      exact h.goto hslot hx hgo (hx ▸ hend)
  | get x hx hlabel =>
      rw [Os.cpu_setCpu_self]
      rw [hx] at hat
      have hnone : s.cpuEvents id = [] := by
        rcases x with ⟨label, proc, t⟩
        rcases hlabel with rfl | rfl | rfl <;> simp [Sim.cpuEvents, hx]
      refine h.silent hnone (hat.got hlabel _ fun p hp => ?_)
      -- what `get_proc` returns has waited
      exact h.pc.waits p (Or.inr (Or.inl (mem_of_getMlqProc hp)))
  | putRunning proc t hx =>
      rw [hx] at hat
      rw [Os.cpu_setCpu_self]
      obtain ⟨hclosed, ht⟩ := hat.putting_inv (Or.inl rfl)
      exact h.silent (by simp [Sim.cpuEvents, hx])
        (.putting _ proc t hclosed (Or.inr (Or.inl rfl)) ht)
  | putReady proc t hx =>
      rw [hx] at hat
      rw [Os.cpu_setCpu_self]
      obtain ⟨hclosed, ht⟩ := hat.putting_inv (Or.inr rfl)
      exact h.silent (by simp [Sim.cpuEvents, hx])
        (.putting _ proc t hclosed (Or.inr (Or.inr rfl)) ht)
  | run proc t hx => exact absurd (by rw [hx]) hrun
  | slotSet proc t hx =>
      have hnext : s.cpuEvents id = [.nextSlot] := by simp [Sim.cpuEvents, hx]
      rw [hx] at hat
      rw [Os.cpu_setCpu_self, After, hnext]
      refine ⟨h.exact.concat rfl, ?_⟩
      rcases proc with _ | proc
      · obtain ⟨hclosed, ht⟩ := hat.idle_inv
        exact .idle _ t hclosed.concat_nextSlot ht
      · -- one more call of the slice is over
        obtain ⟨pc₀, k, hslice, ht, hk, hpc, hle⟩ := hat.ran_inv
        have hround : sliceRuns proc k ++ [.run proc] ++ [.nextSlot] =
            sliceRuns proc (k + 1) := by
          rw [sliceRuns_succ, List.append_assoc, List.singleton_append]
        have hslice' := hslice.concat .nextSlot
        rw [hround] at hslice'
        exact .between _ proc t pc₀ (k + 1) hslice' (Or.inl rfl) (by omega) (by omega) hpc hle
  | detach proc t hx =>
      rw [hx] at hat
      rw [Os.cpu_setCpu_self]
      obtain rfl := hat.proc_of_detach
      obtain ⟨hclosed, ht⟩ := hat.idle_inv
      exact h.silent (by simp [Sim.cpuEvents, hx]) (.idle _ t hclosed ht)

/-- At a call of `run`, the process is in its slice and not at its end. -/
theorem running_of_run (h : SliceInv id s es) {proc : cfg.Proc} {t : ℤ}
    (hx : s.os.cpu id = ⟨.run, some proc, t⟩) : ∃ pc₀ k : ℕ,
      Slicing es proc pc₀ (sliceRuns proc k) ∧ t = cfg.timeSlot - k ∧ k < cfg.timeSlot ∧
        s.os.pc proc = pc₀ + k ∧ s.os.pc proc < cfg.codeSize proc := by
  have hat := h.locals
  rw [hx] at hat
  exact hat.run_inv

/-- **A step of the CPU itself**, with the event that it adds to the history. -/
theorem cpuStep (h : SliceInv id s es) (hslot : 1 ≤ cfg.timeSlot) {name : CStr}
    (hst : SimCpuStep s id name s') : After id s es s'.os.pc (s'.os.cpu id) := by
  cases hst with
  | fetch proc t ins hx hnone hins =>
      obtain ⟨pc₀, k, -, -, -, -, hlt⟩ := h.running_of_run hx
      exact h.silent (by simp [Sim.cpuEvents, hx, hnone, hlt]) h.locals
  | ended proc t hx hnone hpc =>
      -- a process is not run at its end
      obtain ⟨pc₀, k, -, -, -, -, hlt⟩ := h.running_of_run hx
      rw [List.getElem?_eq_none_iff, cfg.text_length] at hpc
      exact absurd hlt (not_lt.mpr hpc)
  | exec proc t ins hx hins =>
      obtain ⟨pc₀, k, hslice, ht, hk, hpc, hlt⟩ := h.running_of_run hx
      have hevent : s.cpuEvents id = [.run proc] := by simp [Sim.cpuEvents, hx, hins]
      have hpc' : (s.exec id proc t ins name).os.pc proc = s.os.pc proc + 1 := by simp
      rw [After, hevent, Sim.cpu_exec, Function.update_self]
      exact ⟨h.exact.concat rfl, .ran proc _ pc₀ k (hslice.concat _) (by omega) hk (by omega)
        (by omega)⟩
  | finish proc t hx hpc =>
      have hat := h.locals
      have hevent : s.cpuEvents id = [.finish proc] := by simp [Sim.cpuEvents, hx, hpc]
      rw [hx] at hat
      rw [After, hevent, Os.cpu_setCpu_self]
      obtain ⟨pc₀, k, hslice, ht, hk, hpc', hle⟩ := hat.between_inv (Or.inr rfl)
      have hn : (k : ℤ) = min cfg.timeSlot (cfg.codeSize proc - pc₀) := by omega
      exact ⟨h.exact.concat_end hslice hn (Or.inr rfl),
        .leaving proc t (closed_concat_end es rfl) (by omega) (by omega)⟩
  | other os hos hrun hend => exact h.other hslot hos hrun hend

/-- **Every step of every thread** keeps history and locals in step. -/
theorem step (h : SliceInv id s es) (hslot : 1 ≤ cfg.timeSlot) {t : Thread cfg.numCpus × CStr}
    (hst : simStep s t = some s') : SliceInv id s' (es ++ Sim.sliceEvents id s t) := by
  obtain ⟨t, name⟩ := t
  by_cases ht : t = .cpu id
  · subst ht
    rw [Sim.sliceEvents, if_pos rfl]
    obtain ⟨hexact, hat⟩ := h.cpuStep hslot (simCpuStep_cases hst)
    exact ⟨h.pc.step hst, hexact, hat⟩
  · rw [Sim.sliceEvents, if_neg ht, List.append_nil]
    have hcpu : s'.os.cpu id = s.os.cpu id := by
      rcases simStep_cases hst with
        ⟨id', rfl, hcpu⟩ | ⟨rfl, os, hld, rfl⟩ | ⟨rfl, clock, -, rfl⟩ | ⟨rfl, rfl⟩
      · exact hcpu.frame.2.2.2 id fun hid => ht (hid ▸ rfl)
      · exact congrFun hld.frame.1 id
      · rfl
      · rfl
    refine ⟨h.pc.step hst, h.exact, ?_⟩
    rw [hcpu]
    exact h.locals.congr fun p hp => pc_of_held h.pc.exec hst ht hp

theorem boot (hsize : ∀ p, 1 ≤ cfg.codeSize p) (id : Fin cfg.numCpus) :
    SliceInv id (bootSim cfg) [] where
  pc := PcOk.boot hsize
  exact := ExactSlices.nil _ _
  locals := .idle _ 0 Closed.nil rfl

/-- **In every run each CPU has a history with exact slices**, which says what its locals are. -/
theorem of_run (hslot : 1 ≤ cfg.timeSlot) (hsize : ∀ p, 1 ≤ cfg.codeSize p)
    {ts : List (Thread cfg.numCpus × CStr)} (hrun : (simSystem cfg).Run ts s)
    (id : Fin cfg.numCpus) : ∃ es, SliceInv id s es := by
  obtain ⟨es, hes⟩ := hrun.recording (Sim.sliceEvents id)
  have hinit (s : Sim cfg) (hs : s = bootSim cfg) : SliceInv id s [] := hs ▸ SliceInv.boot hsize id
  exact ⟨es, hes.invariant_recording hinit fun s es t s' h hst => h.step hslot hst⟩

end SliceInv

end OsSim
