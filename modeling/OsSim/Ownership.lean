import OsSim.Simulation
import Mathlib.Algebra.BigOperators.Fin
import Mathlib.Algebra.BigOperators.Group.Finset.Piecewise

/-!
# Who Has a Process

A process is with the loader, in a ready queue, in the hands of a CPU, or freed. Every step of a
thread moves at most one process from one of these to another, so that no process is ever in two
places, whatever the others do. The CPU that has it is then the only one that moves its program
counter.

## How the argument goes

`Moves` names the moves that there are: none, a `killall`, from a queue to a CPU, from a CPU to its
queue, from the loader to its queue, and from a CPU to the end. It is proved once for each step
(`moves_of_simStep`), and every invariant about where processes are is proved from it, without
looking at the threads again.

`Sim.places` counts the places where a process is. A move takes one away before it adds one, and an
insertion that finds its queue full adds none, so the count never grows (`Moves.places_le`). It is 1
at the start. That it stays 1, where nothing is lost, is for `Presence`; that it is at most 1 is all
that is needed here.

`ExecOk` is the invariant of execution: an instruction that a CPU has fetched is the one at the
program counter of its process. Between the fetch and the execution the counter could only be moved
by another CPU that had the same process, and there is none.

A `killall` is one step here. Its loops in steps, on the arrays, are in `KillSteps`.

## Main results

* `moves_of_simStep`: **every step moves at most one process**.
* `Moves.places_le`: no step brings a process to a second place.
* `ExecOk.step`: a CPU executes the instruction that it has fetched.
* `exclusive_execution`: **processes run on one CPU at a time, in program order**.
-/

namespace OsSim

open TransitionSystem

variable {cfg : SimConfig}

/-! ### Moves -/

/-- What each CPU has in hand: the process of its local `proc`, as long as it is the CPU's to run.
-/
def Sim.held (s : Sim cfg) (id : Fin cfg.numCpus) : Option cfg.Proc := (s.os.cpu id).holds

/-- A CPU at its first call of `get_proc` has no process. -/
def FirstOk (s : Sim cfg) : Prop :=
  ∀ id, (s.os.cpu id).label = .getFirst → (s.os.cpu id).proc = none

/-- What a step of thread `t` does to the processes: it moves none, kills, or moves one from a
queue to a CPU, from a CPU to its queue, from the loader to its queue, or from a CPU to its end. -/
inductive Moves (s : Sim cfg) (t : Thread cfg.numCpus) (s' : Sim cfg) : Prop
  | stay (hi : s'.os.i = s.os.i) (hqueue : s'.os.mlqReadyQueue = s.os.mlqReadyQueue)
      (hheld : s'.held = s.held) (hfreed : s'.freed = s.freed)
  | kill (name : CStr) (id : Fin cfg.numCpus) (ins : InstT) (ht : t = .cpu id)
      (hins : s.fetched id = some ins) (hkill : ins.isKillall = true) (hi : s'.os.i = s.os.i)
      (hqueue : s'.os.mlqReadyQueue =
        fun prio => (s.os.mlqReadyQueue prio).filter fun p => cfg.path p ≠ name)
      (hheld : s'.held = s.held) (hfreed : s'.freed = s.freed)
  | take (id : Fin cfg.numCpus) (prio : Fin maxPrio) (proc : cfg.Proc) (rest : List cfg.Proc)
      (hhead : s.os.mlqReadyQueue prio = proc :: rest) (hnone : s.held id = none)
      (hi : s'.os.i = s.os.i)
      (hqueue : s'.os.mlqReadyQueue = Function.update s.os.mlqReadyQueue prio rest)
      (hheld : s'.held = Function.update s.held id (some proc)) (hfreed : s'.freed = s.freed)
  | put (id : Fin cfg.numCpus) (proc : cfg.Proc) (τ : ℤ) (ht : t = .cpu id)
      (hx : s.os.cpu id = ⟨.putReady, some proc, τ⟩) (hi : s'.os.i = s.os.i)
      (hqueue : s'.os.mlqReadyQueue = putMlqProc s.os.mlqReadyQueue (cfg.prio proc) proc)
      (hheld : s'.held = Function.update s.held id none) (hfreed : s'.freed = s.freed)
  | load (hlt : s.os.i < cfg.numProcesses) (ht : t = .ld) (hl : s.os.ld = .addReady)
      (hi : s'.os.i = s.os.i + 1)
      (hqueue : s'.os.mlqReadyQueue =
        putMlqProc s.os.mlqReadyQueue (cfg.prio ⟨s.os.i, hlt⟩) ⟨s.os.i, hlt⟩)
      (hheld : s'.held = s.held) (hfreed : s'.freed = s.freed)
  | finish (id : Fin cfg.numCpus) (proc : cfg.Proc) (τ : ℤ) (ht : t = .cpu id)
      (hx : s.os.cpu id = ⟨.top, some proc, τ⟩) (hpc : s.os.pc proc = cfg.codeSize proc)
      (hi : s'.os.i = s.os.i) (hqueue : s'.os.mlqReadyQueue = s.os.mlqReadyQueue)
      (hheld : s'.held = Function.update s.held id none)
      (hfreed : s'.freed = Function.update s.freed proc true)

/-- What the CPUs have in hand, where the locals of one of them change. -/
theorem holds_setCpu (s : Os cfg.toOsConfig) (id : Fin cfg.numCpus) (x : Cpu cfg.Proc) :
    (fun id' => ((s.setCpu id x).cpu id').holds) =
      Function.update (fun id' => (s.cpu id').holds) id x.holds := by
  funext id'
  by_cases hid : id' = id
  · subst hid
    simp
  · rw [Os.cpu_setCpu_of_ne _ _ _ hid, Function.update_of_ne hid]

/-- A CPU whose locals change, and that has in hand what it had. -/
theorem held_setCpu {s s' : Sim cfg} {id : Fin cfg.numCpus} {x : Cpu cfg.Proc}
    (hcpu : s'.os.cpu = Function.update s.os.cpu id x) (hholds : x.holds = (s.os.cpu id).holds) :
    s'.held = s.held := by
  funext id'
  rw [Sim.held, hcpu]
  by_cases hid : id' = id
  · subst hid
    rw [Function.update_self, hholds, Sim.held]
  · rw [Function.update_of_ne hid, Sim.held]

/-- The steps of `CpuGoto`, other than finding a process at its end, change nothing in hand. -/
theorem CpuGoto.holds {s : Os cfg.toOsConfig} {id : Fin cfg.numCpus} {x x' : Cpu cfg.Proc}
    (h : CpuGoto s id x x')
    (hend : ∀ proc t, x = ⟨.top, some proc, t⟩ → s.pc proc ≠ cfg.codeSize proc) :
    x'.holds = x.holds := by
  cases h with
  | finish proc t hpc => exact absurd hpc (hend proc t rfl)
  | _ => rfl

/-- **Every step moves at most one process**: the case analysis over all steps of all threads. -/
theorem moves_of_simStep {s s' : Sim cfg} {t : Thread cfg.numCpus} {name : CStr}
    (hfirst : FirstOk s) (hst : simStep s (t, name) = some s') : Moves s t s' := by
  rcases simStep_cases hst with
    ⟨id, rfl, hcpu⟩ | ⟨rfl, os, hld, rfl⟩ | ⟨rfl, clock, -, rfl⟩ | ⟨rfl, rfl⟩
  · cases hcpu with
    | fetch proc t ins hx hnone hins => exact .stay rfl rfl rfl rfl
    | ended proc t hx hnone hpc =>
        exact .stay rfl rfl (held_setCpu rfl (by simp [hx, Cpu.holds])) rfl
    | exec proc t ins hx hins =>
        have hheld : (s.exec id proc t ins name).held = s.held :=
          held_setCpu (Sim.cpu_exec ..) (by simp [hx, Cpu.holds])
        by_cases hkill : ins.isKillall = true
        · refine .kill name id ins rfl hins hkill (Sim.i_exec ..) ?_ hheld (Sim.freed_exec ..)
          rw [Sim.mlqReadyQueue_exec, if_pos hkill]
        · refine .stay (Sim.i_exec ..) ?_ hheld (Sim.freed_exec ..)
          rw [Sim.mlqReadyQueue_exec, if_neg hkill]
    | finish proc t hx hpc =>
        exact .finish id proc t rfl hx hpc rfl rfl (holds_setCpu s.os id _) rfl
    | other os hos hrun hend =>
        cases hos with
        | goto x x' hx hgo =>
            subst hx
            exact .stay rfl rfl (held_setCpu rfl (hgo.holds hend)) rfl
        | get x hx hlabel =>
            subst hx
            have hnone : s.held id = none := by
              rw [Sim.held, Cpu.holds]
              rcases hlabel with hl | hl | hl
              · rw [hl]
                exact hfirst id hl
              · rw [hl]
              · rw [hl]
            rcases getMlqProc_cases s.os.mlqReadyQueue with
              ⟨-, heq⟩ | ⟨prio, proc, rest, hhead, -, heq⟩
            · rw [heq]
              exact .stay rfl rfl (held_setCpu rfl ((Cpu.holds_got _ _).trans hnone.symm)) rfl
            · rw [heq]
              refine .take id prio proc rest hhead hnone rfl rfl ?_ rfl
              refine (holds_setCpu _ id _).trans ?_
              rw [Cpu.holds_got]
              rfl
        | putRunning proc t hx =>
            exact .stay rfl rfl (held_setCpu rfl (by simp [hx, Cpu.holds])) rfl
        | putReady proc t hx => exact .put id proc t rfl hx rfl rfl (holds_setCpu _ id _) rfl
        | run proc t hx => exact absurd (by rw [hx]) hrun
        | slotSet proc t hx => exact .stay rfl rfl (held_setCpu rfl (by simp [hx, Cpu.holds])) rfl
        | detach proc t hx => exact .stay rfl rfl (held_setCpu rfl (by simp [hx, Cpu.holds])) rfl
  · cases hld with
    | addReady hi hl => exact .load hi rfl hl rfl rfl rfl rfl
    | _ => exact .stay rfl rfl rfl rfl
  · exact .stay rfl rfl rfl rfl
  · exact .stay rfl rfl rfl rfl

/-! ### Places -/

/-- The weight of a finite family when one member changes. -/
theorem sum_update_add {ι β : Type*} [Fintype ι] [DecidableEq ι] (w : β → ℕ) (f : ι → β) (i : ι)
    (b : β) : (∑ j, w (Function.update f i b j)) + w (f i) = (∑ j, w (f j)) + w b := by
  have hrest : ∑ j ∈ Finset.univ.erase i, w (Function.update f i b j) =
      ∑ j ∈ Finset.univ.erase i, w (f j) := by
    refine Finset.sum_congr rfl ?_
    intro j hj
    rw [Function.update_of_ne (Finset.ne_of_mem_erase hj)]
  rw [← Finset.add_sum_erase _ _ (Finset.mem_univ i),
    ← Finset.add_sum_erase _ (fun j => w (f j)) (Finset.mem_univ i), hrest, Function.update_self]
  omega

/-- The slots that `p` occupies in the ready queues, of whatever priority. -/
def Sim.queued (s : Sim cfg) (p : cfg.Proc) : ℕ := ∑ prio, (s.os.mlqReadyQueue prio).count p

/-- The number of CPUs that have `p` in hand. -/
def Sim.holders (s : Sim cfg) (p : cfg.Proc) : ℕ := ∑ id, if s.held id = some p then 1 else 0

/-- The places where `p` is, counted: with the loader, in queues, with CPUs, or freed. -/
def Sim.places (s : Sim cfg) (p : cfg.Proc) : ℕ :=
  (if s.os.i ≤ p then 1 else 0) + s.queued p + s.holders p + if s.freed p then 1 else 0

/-- An insertion adds at most one entry for a process; a full queue adds none. -/
theorem count_enqueue_le (q : List cfg.Proc) (proc p : cfg.Proc) :
    (enqueue q proc).count p ≤ q.count p + [proc].count p := by
  rw [enqueue]
  split
  · exact Nat.le_add_right _ _
  · rw [List.count_append]

section Moves

variable {s s' : Sim cfg} {t : Thread cfg.numCpus}

/-- A CPU's hand changes, and with it the number of CPUs that have `p`. -/
theorem holders_update {id : Fin cfg.numCpus} {x : Option cfg.Proc}
    (hheld : s'.held = Function.update s.held id x) (p : cfg.Proc) :
    (s'.holders p + if s.held id = some p then 1 else 0) =
      s.holders p + if x = some p then 1 else 0 := by
  rw [Sim.holders, hheld]
  exact sum_update_add (fun o => if o = some p then 1 else 0) s.held id x

/-- One ready queue changes, and with it the slots that `p` occupies. -/
theorem queued_update {prio : Fin maxPrio} {l : List cfg.Proc}
    (hqueue : s'.os.mlqReadyQueue = Function.update s.os.mlqReadyQueue prio l) (p : cfg.Proc) :
    s'.queued p + (s.os.mlqReadyQueue prio).count p = s.queued p + l.count p := by
  rw [Sim.queued, hqueue]
  exact sum_update_add (List.count p) s.os.mlqReadyQueue prio l

/-- Where no CPU's hand changes, as many have `p` as before. -/
theorem holders_eq (hheld : s'.held = s.held) (p : cfg.Proc) : s'.holders p = s.holders p := by
  rw [Sim.holders, hheld, Sim.holders]

/-- Where no ready queue changes, `p` occupies as many slots as before. -/
theorem queued_eq (hqueue : s'.os.mlqReadyQueue = s.os.mlqReadyQueue) (p : cfg.Proc) :
    s'.queued p = s.queued p := by
  rw [Sim.queued, hqueue, Sim.queued]

/-- A process goes from a queue to a CPU, which had none. -/
theorem places_take {id : Fin cfg.numCpus} {prio : Fin maxPrio} {proc : cfg.Proc}
    {rest : List cfg.Proc} (hhead : s.os.mlqReadyQueue prio = proc :: rest)
    (hnone : s.held id = none) (hi : s'.os.i = s.os.i)
    (hqueue : s'.os.mlqReadyQueue = Function.update s.os.mlqReadyQueue prio rest)
    (hheld : s'.held = Function.update s.held id (some proc)) (hfreed : s'.freed = s.freed)
    (p : cfg.Proc) : s'.places p = s.places p := by
  have hqueued := queued_update hqueue p
  have hholders := holders_update hheld p
  rw [hhead, List.count_cons] at hqueued
  rw [hnone] at hholders
  rw [Sim.places, Sim.places, hi, hfreed]
  by_cases hp : proc = p
  · subst hp
    simp only [beq_self_eq_true, if_true, reduceCtorEq, if_false] at hqueued hholders
    omega
  · simp only [beq_iff_eq, hp, if_false, Option.some.injEq, reduceCtorEq] at hqueued hholders
    omega

/-- A CPU lets go of a process, which its queue takes or not. -/
theorem places_put {id : Fin cfg.numCpus} {proc : cfg.Proc} {prio : Fin maxPrio}
    {l : List cfg.Proc} (hid : s.held id = some proc) (hi : s'.os.i = s.os.i)
    (hqueue : s'.os.mlqReadyQueue = Function.update s.os.mlqReadyQueue prio l)
    (hheld : s'.held = Function.update s.held id none) (hfreed : s'.freed = s.freed)
    (p : cfg.Proc) :
    s'.places p + ((s.os.mlqReadyQueue prio).count p + [proc].count p) =
      s.places p + l.count p := by
  have hqueued := queued_update hqueue p
  have hholders := holders_update hheld p
  rw [hid] at hholders
  rw [Sim.places, Sim.places, hi, hfreed]
  by_cases hp : proc = p
  · subst hp
    simp only [List.count_singleton_self, reduceCtorEq, if_true, if_false] at hholders ⊢
    omega
  · simp only [List.count_singleton, beq_iff_eq, hp, Option.some.injEq, reduceCtorEq,
      if_false] at hholders ⊢
    omega

/-- The loader lets go of a process, which its queue takes or not. -/
theorem places_load (hlt : s.os.i < cfg.numProcesses) {prio : Fin maxPrio}
    {l : List cfg.Proc} (hi : s'.os.i = s.os.i + 1)
    (hqueue : s'.os.mlqReadyQueue = Function.update s.os.mlqReadyQueue prio l)
    (hheld : s'.held = s.held) (hfreed : s'.freed = s.freed) (p : cfg.Proc) :
    s'.places p + ((s.os.mlqReadyQueue prio).count p +
      [(⟨s.os.i, hlt⟩ : cfg.Proc)].count p) = s.places p + l.count p := by
  have hqueued := queued_update hqueue p
  rw [Sim.places, Sim.places, hi, holders_eq hheld, hfreed]
  by_cases hp : (⟨s.os.i, hlt⟩ : cfg.Proc) = p
  · subst hp
    rw [List.count_singleton_self, if_neg (by simp), if_pos le_rfl]
    omega
  · have hne : s.os.i ≠ p := fun heq => hp (Fin.ext heq)
    simp only [List.count_singleton, beq_iff_eq, hp, if_false]
    split_ifs <;> omega

/-- A CPU lets go of a process that it frees. -/
theorem places_finish {id : Fin cfg.numCpus} {proc : cfg.Proc} (hid : s.held id = some proc)
    (hi : s'.os.i = s.os.i) (hqueue : s'.os.mlqReadyQueue = s.os.mlqReadyQueue)
    (hheld : s'.held = Function.update s.held id none)
    (hfreed : s'.freed = Function.update s.freed proc true) (p : cfg.Proc) :
    (s'.places p + if proc = p ∧ s.freed proc = true then 1 else 0) = s.places p := by
  have hholders := holders_update hheld p
  rw [hid] at hholders
  rw [Sim.places, Sim.places, hi, queued_eq hqueue, hfreed]
  by_cases hp : proc = p
  · subst hp
    simp only [reduceCtorEq, if_true, if_false] at hholders
    rw [Function.update_self, if_pos rfl]
    split_ifs <;> simp_all <;> omega
  · simp only [Option.some.injEq, hp, reduceCtorEq, if_false] at hholders
    have hother : ¬ (proc = p ∧ s.freed proc = true) := fun h => hp h.1
    rw [Function.update_of_ne (Ne.symm hp), if_neg hother]
    omega

/-- A CPU that has a process in `proc`, and is past its call of `get_proc`, has it in hand. -/
theorem held_of_cpu {id : Fin cfg.numCpus} {label : CpuLabel} {proc : cfg.Proc} {t : ℤ}
    (hx : s.os.cpu id = ⟨label, some proc, t⟩) (hlabel : label ≠ .getFinished ∧ label ≠ .getPut) :
    s.held id = some proc := by
  rw [Sim.held, hx]
  cases label with
  | getFinished => exact absurd rfl hlabel.1
  | getPut => exact absurd rfl hlabel.2
  | _ => rfl

/-- A process in a queue was there before, or `put_proc` or the loader brings it to its own
queue. -/
theorem Moves.of_mem_queue (h : Moves s t s') {prio : Fin maxPrio} {p : cfg.Proc}
    (hp : p ∈ s'.os.mlqReadyQueue prio) :
    p ∈ s.os.mlqReadyQueue prio ∨ cfg.prio p = prio ∧
      ((∃ id τ, s.os.cpu id = ⟨.putReady, some p, τ⟩) ∨ (p : ℕ) = s.os.i) := by
  cases h with
  | stay hi hqueue hheld hfreed => exact Or.inl (hqueue ▸ hp)
  | kill name id ins ht hins hkill hi hqueue hheld hfreed =>
      rw [hqueue] at hp
      exact Or.inl (List.mem_of_mem_filter hp)
  | take id k proc rest hhead hnone hi hqueue hheld hfreed =>
      rw [hqueue] at hp
      refine Or.inl ?_
      by_cases hk : prio = k
      · subst hk
        rw [Function.update_self] at hp
        exact hhead ▸ List.mem_cons_of_mem proc hp
      · rwa [Function.update_of_ne hk] at hp
  | put id proc τ ht hx hi hqueue hheld hfreed =>
      rw [hqueue] at hp
      rcases of_mem_putMlqProc hp with hin | ⟨rfl, rfl⟩
      · exact Or.inl hin
      · exact Or.inr ⟨rfl, Or.inl ⟨id, τ, hx⟩⟩
  | load hlt ht hl hi hqueue hheld hfreed =>
      rw [hqueue] at hp
      rcases of_mem_putMlqProc hp with hin | ⟨rfl, rfl⟩
      · exact Or.inl hin
      · exact Or.inr ⟨rfl, Or.inr rfl⟩
  | finish id proc τ ht hx hpc hi hqueue hheld hfreed => exact Or.inl (hqueue ▸ hp)

/-- What a CPU has in hand, it had before, or it comes from a queue. -/
theorem Moves.of_held (h : Moves s t s') {id : Fin cfg.numCpus} {p : cfg.Proc}
    (hp : s'.held id = some p) : s.held id = some p ∨ ∃ prio, p ∈ s.os.mlqReadyQueue prio := by
  have hletGo {id' : Fin cfg.numCpus} (hheld : s'.held = Function.update s.held id' none) :
      s.held id = some p := by
    rw [hheld] at hp
    by_cases hid : id = id'
    · subst hid
      simp at hp
    · rwa [Function.update_of_ne hid] at hp
  cases h with
  | stay hi hqueue hheld hfreed => exact Or.inl (hheld ▸ hp)
  | kill name id' ins ht hins hkill hi hqueue hheld hfreed => exact Or.inl (hheld ▸ hp)
  | take id' k proc rest hhead hnone hi hqueue hheld hfreed =>
      rw [hheld] at hp
      by_cases hid : id = id'
      · subst hid
        obtain rfl : proc = p := by simpa using hp
        exact Or.inr ⟨k, hhead ▸ List.mem_cons_self⟩
      · exact Or.inl (by rwa [Function.update_of_ne hid] at hp)
  | put id' proc τ ht hx hi hqueue hheld hfreed => exact Or.inl (hletGo hheld)
  | load hlt ht hl hi hqueue hheld hfreed => exact Or.inl (hheld ▸ hp)
  | finish id' proc τ ht hx hpc hi hqueue hheld hfreed => exact Or.inl (hletGo hheld)

/-- The loader never goes back. -/
theorem Moves.le_i (h : Moves s t s') : s.os.i ≤ s'.os.i := by
  cases h with
  | load hlt ht hl hi hqueue hheld hfreed => omega
  | _ => omega

/-- **No step brings a process to a second place**: each of the moves takes it from one place before
it brings it to another. -/
theorem Moves.places_le (h : Moves s t s') (p : cfg.Proc) : s'.places p ≤ s.places p := by
  cases h with
  | stay hi hqueue hheld hfreed =>
      rw [Sim.places, hi, queued_eq hqueue, holders_eq hheld, hfreed, Sim.places]
  | kill name id ins ht hins hkill hi hqueue hheld hfreed =>
      have hle : s'.queued p ≤ s.queued p := by
        rw [Sim.queued, hqueue]
        exact Finset.sum_le_sum fun prio _ => List.Sublist.count_le p List.filter_sublist
      rw [Sim.places, Sim.places, hi, holders_eq hheld, hfreed]
      omega
  | take id prio proc rest hhead hnone hi hqueue hheld hfreed =>
      exact (places_take hhead hnone hi hqueue hheld hfreed p).le
  | put id proc τ ht hx hi hqueue hheld hfreed =>
      have hput := places_put (held_of_cpu hx (by simp)) hi hqueue hheld hfreed p
      have hle := count_enqueue_le (s.os.mlqReadyQueue (cfg.prio proc)) proc p
      omega
  | load hlt ht hl hi hqueue hheld hfreed =>
      have hload := places_load hlt hi hqueue hheld hfreed p
      have hle := count_enqueue_le (s.os.mlqReadyQueue (cfg.prio ⟨s.os.i, hlt⟩)) ⟨s.os.i, hlt⟩ p
      omega
  | finish id proc τ ht hx hpc hi hqueue hheld hfreed =>
      have hfinish := places_finish (held_of_cpu hx (by simp)) hi hqueue hheld hfreed p
      omega

/-- Where the queues have room for what is inserted, nothing is killed, and no freed process is
found again, no step takes a process away. -/
structure Keeps (s : Sim cfg) (t : Thread cfg.numCpus) : Prop where
  noKill : ∀ id ins, t = .cpu id → s.fetched id = some ins → ins.isKillall = false
  putRoom : ∀ id proc τ, t = .cpu id → s.os.cpu id = ⟨.putReady, some proc, τ⟩ →
    (s.os.mlqReadyQueue (cfg.prio proc)).length < maxQueueSize
  loadRoom : ∀ h : s.os.i < cfg.numProcesses, t = .ld → s.os.ld = .addReady →
    (s.os.mlqReadyQueue (cfg.prio ⟨s.os.i, h⟩)).length < maxQueueSize
  unfreed : ∀ id proc τ, t = .cpu id → s.os.cpu id = ⟨.top, some proc, τ⟩ → s.freed proc = false

/-- No step takes a process away from where it is, except to another place. -/
theorem Moves.places_eq (h : Moves s t s') (hkeeps : Keeps s t) (p : cfg.Proc) :
    s'.places p = s.places p := by
  cases h with
  | stay hi hqueue hheld hfreed =>
      rw [Sim.places, hi, queued_eq hqueue, holders_eq hheld, hfreed, Sim.places]
  | kill name id ins ht hins hkill hi hqueue hheld hfreed =>
      rw [hkeeps.noKill id ins ht hins] at hkill
      cases hkill
  | take id prio proc rest hhead hnone hi hqueue hheld hfreed =>
      exact places_take hhead hnone hi hqueue hheld hfreed p
  | put id proc τ ht hx hi hqueue hheld hfreed =>
      have hput := places_put (held_of_cpu hx (by simp)) hi hqueue hheld hfreed p
      rw [enqueue_of_lt (hkeeps.putRoom id proc τ ht hx), List.count_append] at hput
      omega
  | load hlt ht hl hi hqueue hheld hfreed =>
      have hload := places_load hlt hi hqueue hheld hfreed p
      rw [enqueue_of_lt (hkeeps.loadRoom hlt ht hl), List.count_append] at hload
      omega
  | finish id proc τ ht hx hpc hi hqueue hheld hfreed =>
      have hfinish := places_finish (held_of_cpu hx (by simp)) hi hqueue hheld hfreed p
      rw [hkeeps.unfreed id proc τ ht hx] at hfinish
      simpa using hfinish

end Moves

/-! ### One place at most -/

section Sole

variable {s : Sim cfg} {p : cfg.Proc}

/-- At the start it is with the loader. -/
theorem places_bootSim (p : cfg.Proc) : (bootSim cfg).places p = 1 := by
  simp [Sim.places, Sim.queued, Sim.holders, Sim.held, bootSim, bootOs, Cpu.holds]

/-- At most one CPU has it in hand: two would be two places. -/
theorem held_unique (h : s.places p ≤ 1) {id id' : Fin cfg.numCpus} (hid : s.held id = some p)
    (hid' : s.held id' = some p) : id = id' := by
  have hcard : (Finset.univ.filter fun id => s.held id = some p).card ≤ 1 := by
    rw [Finset.card_filter]
    rw [Sim.places, Sim.holders] at h
    omega
  exact Finset.card_le_one.mp hcard id (by simp [hid]) id' (by simp [hid'])

/-- A CPU that has the process is a place of it. -/
theorem one_le_holders {id : Fin cfg.numCpus} (hid : s.held id = some p) : 1 ≤ s.holders p := by
  have hle := Finset.single_le_sum (f := fun id => if s.held id = some p then 1 else 0)
    (fun _ _ => Nat.zero_le _) (Finset.mem_univ id)
  rw [if_pos hid] at hle
  exact hle

/-- A slot with the process is a place of it. -/
theorem one_le_queued {prio : Fin maxPrio} (hp : p ∈ s.os.mlqReadyQueue prio) : 1 ≤ s.queued p := by
  have hle := Finset.single_le_sum (f := fun prio => (s.os.mlqReadyQueue prio).count p)
    (fun _ _ => Nat.zero_le _) (Finset.mem_univ prio)
  exact Nat.le_trans (List.count_pos_iff.mpr hp) hle

/-- A process in hand is in no queue: that would be a second place. -/
theorem not_queued_of_held (h : s.places p ≤ 1) {id : Fin cfg.numCpus} (hid : s.held id = some p)
    (prio : Fin maxPrio) : p ∉ s.os.mlqReadyQueue prio := by
  intro hin
  have hheld := one_le_holders hid
  have hqueued := one_le_queued hin
  rw [Sim.places] at h
  omega

/-- A process in hand is not freed: that would be a second place. -/
theorem not_freed_of_held (h : s.places p ≤ 1) {id : Fin cfg.numCpus} (hid : s.held id = some p) :
    s.freed p = false := by
  have hheld := one_le_holders hid
  rw [Sim.places] at h
  by_contra hne
  have hfreed : s.freed p = true := by simpa using hne
  rw [if_pos hfreed] at h
  omega

end Sole

/-! ### The order of execution -/

/-- The invariant of execution: every process is in one place at most, a fetched instruction is
the one at the program counter, and what has been executed is what comes before it. -/
structure ExecOk (s : Sim cfg) : Prop where
  first : FirstOk s
  sole : ∀ p, s.places p ≤ 1
  fetch : ∀ id ins, s.fetched id = some ins → ∃ proc t,
    s.os.cpu id = ⟨.run, some proc, t⟩ ∧ (cfg.text proc)[s.os.pc proc]? = some ins
  executed : ∀ p, s.executed p = (cfg.text p).take (s.os.pc p)
  pc_le : ∀ p, s.os.pc p ≤ cfg.codeSize p
  freed : ∀ p, s.freed p = true → s.os.pc p = cfg.codeSize p

/-- The loader leaves the CPUs and the program counters alone. -/
theorem LdStep.frame {s s' : Os cfg.toOsConfig} (h : LdStep s s') :
    s'.cpu = s.cpu ∧ s'.pc = s.pc := by
  cases h <;> exact ⟨rfl, rfl⟩

/-- The program counters change only where a CPU runs its process. -/
theorem CpuStep.pc_eq {s s' : Os cfg.toOsConfig} {id : Fin cfg.numCpus} (h : CpuStep s id s')
    (hrun : (s.cpu id).label ≠ .run) : s'.pc = s.pc := by
  cases h with
  | run proc t hx => exact absurd (by rw [hx]) hrun
  | _ => rfl

/-- A CPU that comes to its first call of `get_proc` has no process. -/
theorem CpuGoto.first {s : Os cfg.toOsConfig} {id : Fin cfg.numCpus} {x x' : Cpu cfg.Proc}
    (h : CpuGoto s id x x') (hl : x'.label = .getFirst) : x'.proc = none := by
  cases h with
  | load t => rfl
  | _ => cases hl

/-- A step of a CPU keeps `FirstOk`. -/
theorem FirstOk.simCpuStep {s s' : Sim cfg} {id : Fin cfg.numCpus} {name : CStr} (h : FirstOk s)
    (hst : SimCpuStep s id name s') : FirstOk s' := by
  have hother := hst.frame.2.2.2
  intro id'
  by_cases hid : id' = id
  · subst hid
    cases hst with
    | fetch proc t ins hx hnone hins => exact h id'
    | ended proc t hx hnone hpc => simp
    | exec proc t ins hx hins => simp
    | finish proc t hx hpc => simp
    | other os hos hrun hend =>
        cases hos with
        | goto x x' hx hgo =>
            simp only [Os.cpu_setCpu_self]
            exact hgo.first
        | get x hx hlabel =>
            simp only [Os.cpu_setCpu_self, Cpu.got]
            split
            · split <;> simp
            · simp
            · simp
        | _ => simp
  · rw [hother id' hid]
    exact h id'

namespace ExecOk

variable {s s' : Sim cfg}

/-- A step that moves no program counter and fetches nothing. -/
theorem congr (h : ExecOk s) (hfirst : FirstOk s') (hsole : ∀ p, s'.places p ≤ 1)
    (hfetched : s'.fetched = s.fetched)
    (hcpu : ∀ id ins, s.fetched id = some ins → s'.os.cpu id = s.os.cpu id)
    (hpc : s'.os.pc = s.os.pc) (hexecuted : s'.executed = s.executed)
    (hfreed : ∀ p, s'.freed p = true → s.freed p = true ∨ s.os.pc p = cfg.codeSize p) :
    ExecOk s' where
  first := hfirst
  sole := hsole
  fetch id ins hins := by
    rw [hfetched] at hins
    rw [hcpu id ins hins, hpc]
    exact h.fetch id ins hins
  executed p := by rw [hexecuted, hpc, h.executed]
  pc_le p := by rw [hpc]; exact h.pc_le p
  freed p hp := by
    rw [hpc]
    rcases hfreed p hp with hold | hend
    · exact h.freed p hold
    · exact hend

/-- **Executing an instruction**: the CPU is the only one that has the process. -/
theorem exec (h : ExecOk s) {id : Fin cfg.numCpus} {proc : cfg.Proc} {t : ℤ} {ins : InstT}
    {name : CStr} (hx : s.os.cpu id = ⟨.run, some proc, t⟩) (hins : s.fetched id = some ins)
    (hfirst : FirstOk (s.exec id proc t ins name))
    (hsole : ∀ p, (s.exec id proc t ins name).places p ≤ 1) :
    ExecOk (s.exec id proc t ins name) := by
  have hheld : s.held id = some proc := held_of_cpu hx (by simp)
  obtain ⟨proc', t', hx', htext⟩ := h.fetch id ins hins
  obtain rfl : proc = proc' := by
    rw [hx] at hx'
    simpa using congrArg Cpu.proc hx'
  have hlt : s.os.pc proc < (cfg.text proc).length := (List.getElem?_eq_some_iff.mp htext).1
  refine ⟨hfirst, hsole, ?_, ?_, ?_, ?_⟩
  · intro id' ins' hins'
    by_cases hid : id' = id
    · subst hid
      simp at hins'
    · rw [Sim.fetched_exec, Function.update_of_ne hid] at hins'
      obtain ⟨proc', t', hx'', htext'⟩ := h.fetch id' ins' hins'
      have hne : proc' ≠ proc := by
        rintro rfl
        exact hid (held_unique (h.sole proc') (held_of_cpu hx'' (by simp)) hheld)
      refine ⟨proc', t', ?_, ?_⟩
      · rw [Sim.cpu_exec, Function.update_of_ne hid, hx'']
      · rw [Sim.pc_exec, Function.update_of_ne hne, htext']
  · intro p
    rw [Sim.executed_exec, Sim.pc_exec]
    by_cases hp : p = proc
    · subst hp
      rw [Function.update_self, Function.update_self, h.executed, List.take_add_one, htext]
      rfl
    · rw [Function.update_of_ne hp, Function.update_of_ne hp, h.executed]
  · intro p
    rw [Sim.pc_exec]
    by_cases hp : p = proc
    · subst hp
      rw [Function.update_self, ← cfg.text_length]
      exact hlt
    · rw [Function.update_of_ne hp]
      exact h.pc_le p
  · intro p hp
    rw [Sim.freed_exec] at hp
    have hne : p ≠ proc := by
      rintro rfl
      rw [not_freed_of_held (h.sole p) hheld] at hp
      cases hp
    rw [Sim.pc_exec, Function.update_of_ne hne]
    exact h.freed p hp

/-- **Every step keeps the invariant**: the CPU that executes an instruction is the only one that
has its process. -/
theorem step (h : ExecOk s) {t : Thread cfg.numCpus} {name : CStr}
    (hst : simStep s (t, name) = some s') : ExecOk s' := by
  have hsole (p : cfg.Proc) : s'.places p ≤ 1 :=
    ((moves_of_simStep h.first hst).places_le p).trans (h.sole p)
  rcases simStep_cases hst with
    ⟨id, rfl, hcpu⟩ | ⟨rfl, os, hld, rfl⟩ | ⟨rfl, clock, -, rfl⟩ | ⟨rfl, rfl⟩
  · have hfirst := h.first.simCpuStep hcpu
    have hother := hcpu.frame.2.2.2
    -- a CPU that is not at `run` has fetched nothing
    have hidle (hrun : (s.os.cpu id).label ≠ .run) (id' : Fin cfg.numCpus) (ins : InstT)
        (hins : s.fetched id' = some ins) : s'.os.cpu id' = s.os.cpu id' := by
      refine hother id' ?_
      rintro rfl
      obtain ⟨proc, t, hx, -⟩ := h.fetch id' ins hins
      exact hrun (by rw [hx])
    cases hcpu with
    | fetch proc t ins hx hnone hins =>
        refine ⟨hfirst, hsole, ?_, h.executed, h.pc_le, h.freed⟩
        intro id' ins' hins'
        by_cases hid : id' = id
        · subst hid
          obtain rfl : ins = ins' := by simpa using hins'
          exact ⟨proc, t, hx, hins⟩
        · simp only [Function.update_of_ne hid] at hins'
          exact h.fetch id' ins' hins'
    | ended proc t hx hnone hpc =>
        refine h.congr hfirst hsole rfl ?_ rfl rfl fun p hp => Or.inl hp
        intro id' ins hins
        refine hother id' ?_
        rintro rfl
        rw [hnone] at hins
        cases hins
    | exec proc t ins hx hins => exact h.exec hx hins hfirst hsole
    | finish proc t hx hpc =>
        refine h.congr hfirst hsole rfl (hidle (by simp [hx])) rfl rfl ?_
        intro p hp
        by_cases heq : p = proc
        · exact Or.inr (heq ▸ hpc)
        · exact Or.inl (by simpa [heq] using hp)
    | other os hos hrun hend =>
        exact h.congr hfirst hsole rfl (hidle hrun) (hos.pc_eq hrun) rfl fun p hp => Or.inl hp
  · obtain ⟨hcpu, hpc⟩ := hld.frame
    refine h.congr ?_ hsole rfl (fun id _ _ => congrFun hcpu id) hpc rfl fun p hp => Or.inl hp
    intro id
    simp only [hcpu]
    exact h.first id
  · exact h.congr h.first hsole rfl (fun _ _ _ => rfl) rfl rfl fun p hp => Or.inl hp
  · exact h.congr h.first hsole rfl (fun _ _ _ => rfl) rfl rfl fun p hp => Or.inl hp

/-- **The invariant holds in every state of every interleaving.** -/
theorem of_run {ts : List (Thread cfg.numCpus × CStr)} (hrun : (simSystem cfg).Run ts s) :
    ExecOk s := by
  refine hrun.invariant (fun s (hs : s = bootSim cfg) => ?_) fun s t s' hs hst => hs.step hst
  subst hs
  refine ⟨fun id hl => rfl, fun p => (places_bootSim p).le, by simp [bootSim], fun p => rfl,
    fun p => Nat.zero_le _, ?_⟩
  intro p hp
  simp [bootSim] at hp

end ExecOk

/-- A process in a queue or in hand is with the loader no more. -/
theorem ExecOk.loaded {s : Sim cfg} (h : ExecOk s) {p : cfg.Proc}
    (hp : (∃ prio, p ∈ s.os.mlqReadyQueue prio) ∨ ∃ id, s.held id = some p) :
    (p : ℕ) < s.os.i := by
  have hsole := h.sole p
  rw [Sim.places] at hsole
  by_contra hle
  rw [if_pos (not_lt.mp hle)] at hsole
  rcases hp with ⟨prio, hin⟩ | ⟨id, hid⟩
  · have := one_le_queued hin
    omega
  · have := one_le_holders hid
    omega

/-- **Processes run on one CPU at a time, in program order.** In every state of every
interleaving of the CPUs, with their `killall` instructions, the loader and the timer: a process
is in the hands of at most one CPU, occupies at most one slot of the ready queues, and not both.
What has been executed for it are the instructions before its program counter, each once and in
order, and a process that a CPU has reported finished, and freed, is at its end. -/
theorem exclusive_execution {ts : List (Thread cfg.numCpus × CStr)} {s : Sim cfg}
    (hrun : (simSystem cfg).Run ts s) (p : cfg.Proc) :
    (∀ id id', (s.os.cpu id).holds = some p → (s.os.cpu id').holds = some p → id = id') ∧
      ∑ prio, (s.os.mlqReadyQueue prio).count p ≤ 1 ∧
      ((∃ id, (s.os.cpu id).holds = some p) → ∀ prio, p ∉ s.os.mlqReadyQueue prio) ∧
      s.executed p = (cfg.text p).take (s.os.pc p) ∧ s.os.pc p ≤ (cfg.text p).length ∧
      (s.freed p = true → s.os.pc p = cfg.codeSize p) := by
  have h := ExecOk.of_run hrun
  have hsole := h.sole p
  refine ⟨fun id id' => held_unique hsole, ?_, ?_, h.executed p, ?_, h.freed p⟩
  · rw [Sim.places, Sim.queued] at hsole
    omega
  · rintro ⟨id, hid⟩ prio
    exact not_queued_of_held hsole hid prio
  · rw [cfg.text_length]
    exact h.pc_le p

/-- Two CPUs and one program of two instructions. -/
def twoCpus : SimConfig where
  numCpus := 2
  timeSlot := 2
  numProcesses := 1
  startTime _ := 0
  prio _ := 0
  codeSize _ := 2
  path _ := [112#8]
  text _ := [{ opcode := .calc }, { opcode := .calc }]
  text_length _ := rfl

/-- The only process of the example. -/
def twoCpusProc : twoCpus.Proc := ⟨0, Nat.one_pos⟩

/-- The CPU that takes it. -/
def busyCpu : Fin twoCpus.numCpus := ⟨0, Nat.two_pos⟩

/-- The other CPU. -/
def idleCpu : Fin twoCpus.numCpus := ⟨1, Nat.one_lt_two⟩

/-- The program is added, and one CPU takes it and executes one instruction, while the other finds
nothing. -/
def twoCpusRun : List (Thread twoCpus.numCpus × CStr) :=
  (List.replicate 4 Thread.ld ++ List.replicate 2 (Thread.cpu busyCpu) ++
    List.replicate 3 (Thread.cpu idleCpu) ++ List.replicate 3 (Thread.cpu busyCpu)).map
      fun t => (t, [])

/-- After these steps the busy CPU has executed the first instruction, and only that. -/
theorem exclusive_execution_twoCpus : ∃ s : Sim twoCpus,
    (simSystem twoCpus).Run twoCpusRun s ∧ s.os.pc twoCpusProc = 1 ∧
      s.executed twoCpusProc = (twoCpus.text twoCpusProc).take 1 := by
  have hpc : (twoCpusRun.foldlM simStep (bootSim twoCpus)).map
      (fun s => s.os.pc twoCpusProc) = some 1 := by
    decide +kernel
  obtain ⟨s, hs, hone⟩ := Option.map_eq_some_iff.mp hpc
  have hrun : (simSystem twoCpus).Run twoCpusRun s := Run.of_foldlM (fun _ _ _ h => h) rfl hs
  have hexecuted := (exclusive_execution hrun twoCpusProc).2.2.2.1
  rw [hone] at hexecuted
  exact ⟨s, hrun, hone, hexecuted⟩

end OsSim
