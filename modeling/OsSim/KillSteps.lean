import OsSim.Simulation

/-!
# Killing in Steps

`simSystem` carries out a `killall` instruction in one step. In the code `__sys_killall` takes no
lock: it goes over the arrays of the scheduler entry by entry, while the other CPUs and the loader
go on, and their `get_proc`, `put_proc` and `add_proc` change the same arrays under `queue_lock`.
This module has the instruction in its steps. What `simSystem` is to them is in `Settling`.

## The steps

A CPU that executes a `killall` instruction first does what `run` does up to the loops: the
program counter moves on, and the name is read. From then on it is at some place of the two loops,
a `KillAt`: the lists still to look at, `running_list` first and then the ready queues, the index
`i` in the first of them, and, once an entry there has been terminated, the index `j` of the loop
that closes its gap. One step is

* the test `i < size`, with the comparison of the entry's path and its `pid = 0` where they agree;
* one assignment `proc[j] = proc[j + 1]` of the shifting loop, with its test `j < size - 1`;
* the `size--` after it; or
* going on to the next list, and, after the last one, returning to `cpu_routine`.

A list of `Sim` is the part of an array below `size` (`Holds`), so that an assignment replaces an
entry and `size--` drops the last one (`Holds.shift`, `Holds.shrink`). Where the list is already
empty, `size` would become negative, and that step is left out. Sections under `queue_lock` and
calls of `free_pcb_memph` remain single steps.

## The condition

While a CPU is between two of these steps, the array of its list may be in a state that no list
operation produces: an entry is there twice, or one that was terminated is still there. Another
thread that looks at it then, in `get_proc`, `put_proc`, `add_proc` or a `killall` of its own, may
take a process twice or lose one. `Killing.Apart` says of a step that it does not do that, and
`apartSystem` has the runs all of whose steps meet it.

## Main results

* `QueueT.Holds.shift`, `QueueT.Holds.shrink`: the steps on the arrays.
* `killStep_cases`, `killingStep_cases`: **what a step of a `killall`, and of a thread, can do**.
-/

namespace OsSim

open TransitionSystem

/-! ### The arrays -/

namespace QueueT

variable {α : Type} {q : QueueT α} {l : List α}

/-- `proc[j] = proc[j + 1]` within the array is the assignment in the list that it holds. -/
theorem Holds.shift (h : q.Holds l) {j : ℕ} (hj : j + 1 < l.length) :
    Holds ⟨Function.update q.proc j (q.proc (j + 1)), q.size, q.size_le⟩ (l.set j l[j + 1]) := by
  have hentries : q.toList = l.map some := h
  have hcell (k : ℕ) (hk : k < l.length) : q.proc k = some l[k] := by
    have hget : q.toList[k]? = some (some l[k]) := by simp [hentries, hk]
    rw [toList, List.getElem?_map, List.getElem?_range (h.size_eq ▸ hk), Option.map_some] at hget
    exact Option.some.inj hget
  refine List.ext_getElem ?_ ?_
  · simp [h.size_eq]
  · intro k hk hk'
    have hlt : k < l.length := by simpa using hk'
    by_cases hkj : k = j
    · subst hkj
      simp [toList, hcell (k + 1) hj]
    · simp [toList, Function.update_of_ne hkj, hcell k hlt, Ne.symm hkj]

/-- `size--` drops the last entry, which the shifting loop has left behind. -/
theorem Holds.shrink (h : q.Holds l) :
    Holds ⟨q.proc, q.size - 1, (Nat.sub_le _ _).trans q.size_le⟩ l.dropLast := by
  have hentries : q.toList = l.map some := h
  rw [Holds, List.map_dropLast, ← hentries, toList, toList, ← List.map_dropLast]
  congr 1
  refine List.ext_getElem ?_ ?_
  · simp
  · intro k hk hk'
    simp

end QueueT

/-! ### The lists of the scheduler -/

section Lists

variable {cfg : OsConfig}

/-- The lists that `__sys_killall` goes over: a ready queue, or `running_list` for `none`. -/
def Os.list (s : Os cfg) : Option (Fin maxPrio) → List cfg.Proc
  | none => s.runningList
  | some prio => s.mlqReadyQueue prio

/-- The state with other lists: all of them are replaced. -/
def Os.setLists (s : Os cfg) (lists : Option (Fin maxPrio) → List cfg.Proc) : Os cfg :=
  { s with runningList := lists none, mlqReadyQueue := fun prio => lists (some prio) }

@[simp] theorem Os.list_setLists (s : Os cfg) (lists : Option (Fin maxPrio) → List cfg.Proc) :
    (s.setLists lists).list = lists := by
  funext q
  cases q <;> rfl

@[simp] theorem Os.setLists_list (s : Os cfg) : s.setLists s.list = s := rfl

@[simp] theorem Os.setLists_setLists (s : Os cfg)
    (lists lists' : Option (Fin maxPrio) → List cfg.Proc) :
    (s.setLists lists).setLists lists' = s.setLists lists' := rfl

@[simp] theorem Os.cpu_setLists (s : Os cfg) (lists : Option (Fin maxPrio) → List cfg.Proc) :
    (s.setLists lists).cpu = s.cpu := rfl

@[simp] theorem Os.list_setCpu (s : Os cfg) (id : Fin cfg.numCpus) (x : Cpu cfg.Proc) :
    (s.setCpu id x).list = s.list := by
  funext q
  cases q <;> rfl

end Lists

/-! ### Where a `killall` is -/

/-- Where a CPU is in the loops of `__sys_killall`: the name, the lists still to look at, the index
`i` in the first of them, and the `j` of the shifting loop while an entry is being removed. -/
structure KillAt where
  name : CStr
  lists : List (Option (Fin maxPrio))
  i : ℕ
  shift : Option ℕ

/-- Before the loops: `running_list` comes first, then the ready queues from priority 0 on. -/
def KillAt.first (name : CStr) : KillAt where
  name := name
  lists := none :: (List.finRange maxPrio).map some
  i := 0
  shift := none

/-- The threads and what they share, and where the CPUs are that carry out a `killall`. -/
structure Killing (cfg : SimConfig) where
  sim : Sim cfg
  killing : Fin cfg.numCpus → Option KillAt

variable {cfg : SimConfig}

namespace Killing

/-- CPU `id` is at `k` of its loops now. -/
def goto (x : Killing cfg) (id : Fin cfg.numCpus) (k : KillAt) : Killing cfg :=
  { x with killing := Function.update x.killing id (some k) }

/-- The state with `l` in place of the list `q`. -/
def setList (x : Killing cfg) (q : Option (Fin maxPrio)) (l : List cfg.Proc) : Killing cfg :=
  { x with
    sim := { x.sim with os := x.sim.os.setLists (Function.update x.sim.os.list q l) } }

/-- Terminating a process: `free_pcb_memph`, which is left out here, and `pid = 0`. -/
def terminate (x : Killing cfg) (proc : cfg.Proc) : Killing cfg :=
  { x with sim := { x.sim with pid := Function.update x.sim.pid proc 0 } }

/-- `run` executes a `killall` instruction, up to the loops: `name` is what it has read. -/
def start (x : Killing cfg) (id : Fin cfg.numCpus) (proc : cfg.Proc) (ins : InstT)
    (name : CStr) : Killing cfg where
  sim :=
    { x.sim with
      os := { x.sim.os with pc := Function.update x.sim.os.pc proc (x.sim.os.pc proc + 1) }
      fetched := Function.update x.sim.fetched id none
      executed := Function.update x.sim.executed proc (x.sim.executed proc ++ [ins]) }
  killing := Function.update x.killing id (some (KillAt.first name))

end Killing

/-- `run` has returned to `cpu_routine`, which does `time_left--`. -/
def Cpu.returned {P : Type} (x : Cpu P) : Cpu P :=
  { x with label := .slotSet, timeLeft := x.timeLeft - 1 }

/-- One step of `__sys_killall` on CPU `id`, which is at `k`. -/
def Killing.killStep (x : Killing cfg) (id : Fin cfg.numCpus) (k : KillAt) :
    Option (Killing cfg) :=
  match k.lists with
  | [] =>
      some
        { sim := { x.sim with os := x.sim.os.setCpu id (x.sim.os.cpu id).returned }
          killing := Function.update x.killing id none }
  | q :: lists =>
      let l := x.sim.os.list q
      match k.shift with
      | none =>
          match l[k.i]? with
          | none => some (x.goto id { k with lists := lists, i := 0 })
          | some proc =>
              if cfg.path proc = k.name then
                some ((x.terminate proc).goto id { k with shift := some k.i })
              else some (x.goto id { k with i := k.i + 1 })
      | some j =>
          if h : j + 1 < l.length then
            some ((x.setList q (l.set j l[j + 1])).goto id { k with shift := some (j + 1) })
          else if l = [] then none
          else
            -- `i--` here and the `i++` of the loop
            some ((x.setList q l.dropLast).goto id { k with shift := none })

/-- One step of a thread. A CPU that carries out a `killall` does nothing else. -/
def killingStep (x : Killing cfg) (t : Thread cfg.numCpus × CStr) : Option (Killing cfg) :=
  match t with
  | (.cpu id, name) =>
      match x.killing id with
      | some k => x.killStep id k
      | none =>
          match x.sim.os.cpu id, x.sim.fetched id with
          | ⟨.run, some proc, _⟩, some ins =>
              if ins.isKillall then some (x.start id proc ins name)
              else (simStep x.sim t).map fun s => { x with sim := s }
          | _, _ => (simStep x.sim t).map fun s => { x with sim := s }
  | _ => (simStep x.sim t).map fun s => { x with sim := s }

/-- The start: no CPU is in `__sys_killall`. -/
def bootKilling (cfg : SimConfig) : Killing cfg where
  sim := bootSim cfg
  killing _ := none

/-- All threads, in any order, with `killall` instructions in steps. -/
def killingSystem (cfg : SimConfig) :
    TransitionSystem (Killing cfg) (Thread cfg.numCpus × CStr) where
  init x := x = bootKilling cfg
  step x t x' := killingStep x t = some x'

/-! ### The condition -/

/-- The next step of `t` is a section under `queue_lock`, in `get_proc`, `put_proc` or `add_proc`,
or executes a `killall` instruction. -/
def Sim.TakesLists (s : Sim cfg) : Thread cfg.numCpus → Prop
  | .cpu id =>
      (s.os.cpu id).label ∈ [.getFirst, .getFinished, .getPut, .putRunning, .putReady] ∨
        (s.fetched id).any InstT.isKillall = true
  | .ld => s.os.ld = .addRunning ∨ s.os.ld = .addReady
  | .timer | .main => False

/-- **No `killall` overlaps another one, or a section under `queue_lock`**: while a CPU is in
`__sys_killall`, the others take no step that uses the lists. -/
def Killing.Apart (x : Killing cfg) (t : Thread cfg.numCpus × CStr) : Prop :=
  ∀ id, (x.killing id).isSome = true → t.1 ≠ .cpu id → ¬ x.sim.TakesLists t.1

instance (s : Sim cfg) (t : Thread cfg.numCpus) : Decidable (s.TakesLists t) :=
  match t with
  | .cpu _ => inferInstanceAs (Decidable (_ ∨ _))
  | .ld => inferInstanceAs (Decidable (_ ∨ _))
  | .timer | .main => inferInstanceAs (Decidable False)

instance (x : Killing cfg) (t : Thread cfg.numCpus × CStr) : Decidable (x.Apart t) :=
  inferInstanceAs (Decidable (∀ _, _ → _ → ¬ _))

/-- All threads, where every step meets the condition. -/
def apartSystem (cfg : SimConfig) : TransitionSystem (Killing cfg) (Thread cfg.numCpus × CStr) :=
  (killingSystem cfg).restrict Killing.Apart

/-! ### The steps of a `killall` -/

/-- The steps of `__sys_killall` on CPU `id`, which is at `k`: one constructor for each branch. -/
inductive KillStep (x : Killing cfg) (id : Fin cfg.numCpus) (k : KillAt) : Killing cfg → Prop
  | finish (hlists : k.lists = []) : KillStep x id k
      { sim := { x.sim with os := x.sim.os.setCpu id (x.sim.os.cpu id).returned }
        killing := Function.update x.killing id none }
  | next (q : Option (Fin maxPrio)) (lists : List (Option (Fin maxPrio)))
      (hlists : k.lists = q :: lists) (hshift : k.shift = none)
      (hend : (x.sim.os.list q)[k.i]? = none) :
      KillStep x id k (x.goto id { k with lists := lists, i := 0 })
  | pass (q : Option (Fin maxPrio)) (lists : List (Option (Fin maxPrio))) (proc : cfg.Proc)
      (hlists : k.lists = q :: lists) (hshift : k.shift = none)
      (hproc : (x.sim.os.list q)[k.i]? = some proc) (hpath : cfg.path proc ≠ k.name) :
      KillStep x id k (x.goto id { k with i := k.i + 1 })
  | terminate (q : Option (Fin maxPrio)) (lists : List (Option (Fin maxPrio)))
      (proc : cfg.Proc) (hlists : k.lists = q :: lists) (hshift : k.shift = none)
      (hproc : (x.sim.os.list q)[k.i]? = some proc) (hpath : cfg.path proc = k.name) :
      KillStep x id k ((x.terminate proc).goto id { k with shift := some k.i })
  | shift (q : Option (Fin maxPrio)) (lists : List (Option (Fin maxPrio))) (j : ℕ)
      (hlists : k.lists = q :: lists) (hshift : k.shift = some j)
      (hj : j + 1 < (x.sim.os.list q).length) :
      KillStep x id k
        ((x.setList q ((x.sim.os.list q).set j (x.sim.os.list q)[j + 1])).goto id
          { k with shift := some (j + 1) })
  | shrink (q : Option (Fin maxPrio)) (lists : List (Option (Fin maxPrio))) (j : ℕ)
      (hlists : k.lists = q :: lists) (hshift : k.shift = some j)
      (hj : ¬ j + 1 < (x.sim.os.list q).length) :
      KillStep x id k ((x.setList q (x.sim.os.list q).dropLast).goto id { k with shift := none })

/-- **What a step of a `killall` can do**: `killStep` takes no step but those. -/
theorem killStep_cases {x x' : Killing cfg} {id : Fin cfg.numCpus} {k : KillAt}
    (h : x.killStep id k = some x') : KillStep x id k x' := by
  rw [Killing.killStep] at h
  split at h
  · rename_i hlists
    exact Option.some.inj h ▸ .finish hlists
  · rename_i q lists hlists
    simp only at h
    split at h
    · rename_i hshift
      split at h
      · rename_i hend
        exact Option.some.inj h ▸ .next q lists hlists hshift hend
      · rename_i proc hproc
        split_ifs at h with hpath
        · exact Option.some.inj h ▸ .terminate q lists proc hlists hshift hproc hpath
        · exact Option.some.inj h ▸ .pass q lists proc hlists hshift hproc hpath
    · rename_i j hshift
      split_ifs at h with hj hnil
      · exact Option.some.inj h ▸ .shift q lists j hlists hshift hj
      · exact Option.some.inj h ▸ .shrink q lists j hlists hshift hj

/-! ### The steps of the threads -/

/-- The steps of a thread: one of a `killall` under way, the first one of a `killall`, or any other.
-/
inductive KillingStep (x : Killing cfg) (t : Thread cfg.numCpus × CStr) : Killing cfg → Prop
  | kill (id : Fin cfg.numCpus) (k : KillAt) (x' : Killing cfg) (ht : t.1 = .cpu id)
      (hk : x.killing id = some k) (hst : x.killStep id k = some x') : KillingStep x t x'
  | start (id : Fin cfg.numCpus) (proc : cfg.Proc) (τ : ℤ) (ins : InstT)
      (ht : t.1 = .cpu id) (hk : x.killing id = none)
      (hx : x.sim.os.cpu id = ⟨.run, some proc, τ⟩) (hins : x.sim.fetched id = some ins)
      (hkill : ins.isKillall = true) : KillingStep x t (x.start id proc ins t.2)
  | sim (s' : Sim cfg) (hst : simStep x.sim t = some s')
      (hk : ∀ id, t.1 = .cpu id → x.killing id = none) : KillingStep x t { x with sim := s' }

/-- **What a step of a thread can do**: `killingStep` takes no step but those. -/
theorem killingStep_cases {x x' : Killing cfg} {t : Thread cfg.numCpus × CStr}
    (h : killingStep x t = some x') : KillingStep x t x' := by
  have hsim {t : Thread cfg.numCpus × CStr} (hk : ∀ id, t.1 = .cpu id → x.killing id = none)
      (h : (simStep x.sim t).map (fun s => { x with sim := s }) = some x') :
      KillingStep x t x' := by
    obtain ⟨s', hst, rfl⟩ := Option.map_eq_some_iff.mp h
    exact .sim s' hst hk
  obtain ⟨t, name⟩ := t
  cases t with
  | cpu id =>
      rw [killingStep] at h
      split at h
      · rename_i k hk
        exact .kill id k x' rfl hk h
      · rename_i hk
        have hnone (id' : Fin cfg.numCpus) (hid : Thread.cpu id = .cpu id') :
            x.killing id' = none := by
          obtain rfl := Thread.cpu.inj hid
          exact hk
        split at h
        · rename_i proc τ ins hx hins
          split_ifs at h with hkill
          · exact Option.some.inj h ▸ .start id proc τ ins rfl hk hx hins hkill
          · exact hsim hnone h
        · exact hsim hnone h
  | _ => exact hsim (fun _ hid => by cases hid) h

/-- The step is one of a `killall` that is under way. -/
def Killing.inKillall (x : Killing cfg) (t : Thread cfg.numCpus × CStr) : Bool :=
  match t.1 with
  | .cpu id => (x.killing id).isSome
  | _ => false

end OsSim
