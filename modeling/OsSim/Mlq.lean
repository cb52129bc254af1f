import OsSim.Lib.StableQueue
import OsSim.Queue

/-!
# The Multi-Level Ready Queue

The MLQ part of `sched.c` on its static arrays. `slot` is what `init_scheduler` makes it, and no
other function reads it. `ready_queue` and `run_queue` are left out: nothing is ever put there.

The scheduler is given as a system whose steps are the calls of `add_proc`, `put_proc` and
`get_proc`, each with what it returned. Any sequence of calls is a run, whether or not it makes
sense: the same process may be added twice, and one may be put back that was never taken. The three
calls hold `queue_lock`, so that they do not overlap.

Two refinements are stacked here. The arrays hold lists (`SchedState.Holds`), on which the functions
of `Sched` compute the same; and the lists are the levels of a stable priority queue
(`SchedState.Waiting`), which holds the processes in the order in which they were inserted. The
second one needs room: an insertion into a level with `MAX_QUEUE_SIZE` processes is dropped, which
no priority queue does. Along the calls that find room, what `get_proc` returns is therefore the
process of least priority number that was inserted first, whatever the calls were.

## Main results

* `SchedState.Holds.getMlqProc`, `SchedState.Holds.putMlqProc`: the arrays refine the lists of
  `Sched`.
* `getProc_returns_first_of_least`: **the MLQ ready queues are a stable priority queue**.
-/

namespace OsSim

open TransitionSystem

variable {α : Type}

/-! ### The static data -/

/-- The statics of `sched.c`: the queue of each priority, the slots, and the running list.
`ready_queue` and `run_queue` are empty all the time, and left out. -/
structure SchedState (α : Type) where
  mlqReadyQueue : Fin maxPrio → QueueT α
  slot : Fin maxPrio → ℕ
  runningList : QueueT α

/-- `init_scheduler`, on statics that are zero: level `i` gets `MAX_PRIO - i` slots, and all queues
are empty. -/
def initScheduler : SchedState α where
  mlqReadyQueue _ := QueueT.zero
  slot i := maxPrio - i
  runningList := QueueT.zero

namespace SchedState

/-! ### The functions -/

/-- The loop of `get_mlq_proc` over the priorities still to look at, up to the first queue that is
not empty. `slot` is not looked at. -/
def getMlqLoop (s : SchedState α) : List (Fin maxPrio) → Option α × SchedState α
  | [] => (none, s)
  | prio :: rest =>
      if (s.mlqReadyQueue prio).empty then s.getMlqLoop rest
      else
        let r := (s.mlqReadyQueue prio).dequeue
        (r.1, { s with mlqReadyQueue := Function.update s.mlqReadyQueue prio r.2 })

/-- `get_mlq_proc`: the queues are looked at from priority 0 on, and the first that is not empty is
dequeued. -/
def getMlqProc (s : SchedState α) : Option α × SchedState α := s.getMlqLoop (List.finRange maxPrio)

variable (prio : α → Fin maxPrio)

/-- `put_mlq_proc`: the process goes to the end of the queue of its priority; `prio` is the field of
a process. -/
def putMlqProc (s : SchedState α) (proc : α) : SchedState α :=
  { s with
    mlqReadyQueue :=
      Function.update s.mlqReadyQueue (prio proc)
        ((s.mlqReadyQueue (prio proc)).enqueue (some proc)) }

/-- `add_mlq_proc`, which does what `put_mlq_proc` does. -/
def addMlqProc (s : SchedState α) (proc : α) : SchedState α := putMlqProc prio s proc

/-- `get_proc`, which only calls `get_mlq_proc`. -/
def getProc (s : SchedState α) : Option α × SchedState α := s.getMlqProc

/-- `put_proc`: the process is entered on the running list once more, and put back into its queue.
Either may be full. -/
def putProc (s : SchedState α) (proc : α) : SchedState α :=
  putMlqProc prio { s with runningList := s.runningList.enqueue (some proc) } proc

/-- `add_proc`: the process is entered on the running list, and in its queue, as `put_proc` does. -/
def addProc (s : SchedState α) (proc : α) : SchedState α :=
  addMlqProc prio { s with runningList := s.runningList.enqueue (some proc) } proc

end SchedState

/-- The calls of the scheduler's interface: `add_proc`, `put_proc` and `get_proc`. -/
inductive SchedOp (α : Type) where
  | add (proc : α)
  | put (proc : α)
  | get
  deriving DecidableEq

/-- One call: what it returns, `none` for `NULL` and where it returns nothing, and the state. -/
def schedStep (prio : α → Fin maxPrio) (s : SchedState α) : SchedOp α → Option α × SchedState α
  | .add proc => (none, s.addProc prio proc)
  | .put proc => (none, s.putProc prio proc)
  | .get => s.getProc

/-- The scheduler under any sequence of calls; a label is a call with what it returned. -/
def schedSystem (prio : α → Fin maxPrio) :
    TransitionSystem (SchedState α) (SchedOp α × Option α) where
  init s := s = initScheduler
  step s o s' := schedStep prio s o.1 = (o.2, s')

/-! ### The arrays refine the lists -/

/-- The arrays hold the lists, without a `NULL` entry. -/
structure SchedState.Holds (s : SchedState α) (mlqReadyQueue : Fin maxPrio → List α)
    (runningList : List α) : Prop where
  mlq : ∀ prio, (s.mlqReadyQueue prio).Holds (mlqReadyQueue prio)
  running : s.runningList.Holds runningList

namespace SchedState.Holds

variable {s : SchedState α} {q : Fin maxPrio → List α} {l : List α}

/-- At the start the arrays hold nothing: all sizes are 0. -/
theorem init : (initScheduler : SchedState α).Holds (fun _ => []) [] :=
  ⟨fun _ => QueueT.Holds.zero, QueueT.Holds.zero⟩

/-- Replacing one queue by one that holds other processes. -/
theorem update (h : s.Holds q l) {prio : Fin maxPrio} {a : QueueT α} {x : List α}
    (ha : a.Holds x) :
    ({ s with mlqReadyQueue := Function.update s.mlqReadyQueue prio a } : SchedState α).Holds
      (Function.update q prio x) l := by
  refine ⟨?_, h.running⟩
  intro prio'
  by_cases hprio : prio' = prio
  · subst hprio
    simpa using ha
  · simpa [hprio] using h.mlq prio'

/-- The loop over any priorities is the lists'. -/
theorem getMlqLoop (h : s.Holds q l) (prios : List (Fin maxPrio)) :
    (s.getMlqLoop prios).1 = (OsSim.getMlqLoop q prios).1 ∧
      (s.getMlqLoop prios).2.Holds (OsSim.getMlqLoop q prios).2 l := by
  induction prios with
  | nil => exact ⟨rfl, h⟩
  | cons prio rest ih =>
      rw [SchedState.getMlqLoop, OsSim.getMlqLoop]
      by_cases hempty : (s.mlqReadyQueue prio).empty = true
      · have hnil : (q prio).isEmpty = true :=
          List.isEmpty_iff.mpr ((h.mlq prio).empty_iff.mp hempty)
        rw [if_pos hempty, if_pos hnil]
        exact ih
      · have hnil : ¬ (q prio).isEmpty = true := fun hnil =>
          hempty ((h.mlq prio).empty_iff.mpr (List.isEmpty_iff.mp hnil))
        rw [if_neg hempty, if_neg hnil]
        obtain ⟨hfst, hsnd⟩ := (h.mlq prio).dequeue
        exact ⟨hfst, h.update hsnd⟩

/-- **`get_mlq_proc`** is the lists', in what it returns and in what it leaves. -/
theorem getMlqProc (h : s.Holds q l) :
    s.getMlqProc.1 = (OsSim.getMlqProc q).1 ∧ s.getMlqProc.2.Holds (OsSim.getMlqProc q).2 l :=
  h.getMlqLoop _

/-- **`put_mlq_proc`** is the lists'. -/
theorem putMlqProc (prio : α → Fin maxPrio) (h : s.Holds q l) (proc : α) :
    (s.putMlqProc prio proc).Holds (OsSim.putMlqProc q (prio proc) proc) l :=
  h.update ((h.mlq (prio proc)).enqueue proc)

/-- Entering a process on the running list. -/
theorem enqueueRunning (h : s.Holds q l) (proc : α) :
    ({ s with runningList := s.runningList.enqueue (some proc) } : SchedState α).Holds q
      (OsSim.enqueue l proc) :=
  ⟨h.mlq, h.running.enqueue proc⟩

/-- `put_proc` and `add_proc` do the same, on the queue of the process and on the running list. -/
theorem putProc (prio : α → Fin maxPrio) (h : s.Holds q l) (proc : α) :
    (s.putProc prio proc).Holds (OsSim.putMlqProc q (prio proc) proc) (OsSim.enqueue l proc) :=
  (h.enqueueRunning proc).putMlqProc prio proc

end SchedState.Holds

/-! ### The stable priority queue -/

/-- What a call asks of a stable priority queue. -/
def SchedOp.abs : SchedOp α × Option α → StableQueue.Op α
  | (.add proc, _) => .insert proc
  | (.put proc, _) => .insert proc
  | (.get, r) => .take r

/-- A call that inserts finds the level of the process with room for it. -/
def SchedState.Room (prio : α → Fin maxPrio) (s : SchedState α) :
    SchedOp α × Option α → Prop
  | (.add proc, _) => (s.mlqReadyQueue (prio proc)).size < maxQueueSize
  | (.put proc, _) => (s.mlqReadyQueue (prio proc)).size < maxQueueSize
  | (.get, _) => True

instance (prio : α → Fin maxPrio) (s : SchedState α) (o : SchedOp α × Option α) :
    Decidable (s.Room prio o) :=
  match o with
  | (.add proc, _) => inferInstanceAs (Decidable ((s.mlqReadyQueue (prio proc)).size < _))
  | (.put proc, _) => inferInstanceAs (Decidable ((s.mlqReadyQueue (prio proc)).size < _))
  | (.get, _) => inferInstanceAs (Decidable True)

/-- The ready queues hold, level by level, what waits in the stable priority queue. -/
def SchedState.Waiting (prio : α → Fin maxPrio) (s : SchedState α) (waiting : List α) : Prop :=
  ∃ q l, s.Holds q l ∧ StableQueue.Levels prio q waiting

namespace SchedState.Waiting

variable {prio : α → Fin maxPrio} {s : SchedState α} {waiting : List α}

/-- Inserting a process whose level has room: it is the last of those that wait. -/
theorem insert (h : s.Waiting prio waiting) {proc : α}
    (hroom : (s.mlqReadyQueue (prio proc)).size < maxQueueSize) :
    (s.putProc prio proc).Waiting prio (waiting ++ [proc]) := by
  obtain ⟨q, l, hq, hlevels⟩ := h
  refine ⟨_, _, hq.putProc prio proc, ?_⟩
  rw [(hq.mlq _).size_eq] at hroom
  rw [OsSim.putMlqProc, enqueue_of_lt hroom]
  exact hlevels.insert proc

/-- Taking a process: it is one that the stable priority queue may give out. -/
theorem take (h : s.Waiting prio waiting) :
    ∃ waiting', StableQueue.Take prio waiting s.getProc.1 waiting' ∧
      s.getProc.2.Waiting prio waiting' := by
  obtain ⟨q, l, hq, hlevels⟩ := h
  obtain ⟨hfst, hsnd⟩ := hq.getMlqProc
  rw [SchedState.getProc, hfst]
  rcases getMlqProc_cases q with ⟨hnil, heq⟩ | ⟨k, proc, rest, hhead, hless, heq⟩
  · rw [heq] at hsnd ⊢
    obtain rfl := hlevels.nil_iff.mp hnil
    exact ⟨[], StableQueue.Take.none, q, l, hsnd, hlevels⟩
  · rw [heq] at hsnd ⊢
    obtain ⟨waiting', htake, hlevels'⟩ := hlevels.take hhead hless
    exact ⟨waiting', htake, _, l, hsnd, hlevels'⟩

end SchedState.Waiting

/-- The scheduler, with room for every process it is asked to hold, simulates the stable
priority queue. -/
theorem schedSystem_simulation (prio : α → Fin maxPrio) :
    Simulation ((schedSystem prio).restrict (SchedState.Room prio))
      ((StableQueue.system prio).comap SchedOp.abs) (SchedState.Waiting prio) where
  init s hs := by
    obtain rfl : s = initScheduler := hs
    exact ⟨[], rfl, fun _ => [], [], SchedState.Holds.init, StableQueue.Levels.nil⟩
  step s waiting o s' hR hst := by
    obtain ⟨hroom, hst⟩ := hst
    obtain ⟨op, r⟩ := o
    cases op with
    | add proc =>
        obtain ⟨rfl, rfl⟩ := Prod.mk.inj hst
        exact ⟨waiting ++ [proc], rfl, hR.insert hroom⟩
    | put proc =>
        obtain ⟨rfl, rfl⟩ := Prod.mk.inj hst
        exact ⟨waiting ++ [proc], rfl, hR.insert hroom⟩
    | get =>
        obtain ⟨waiting', htake, hR'⟩ := hR.take
        have hst : s.getProc = (r, s') := hst
        rw [hst] at htake hR'
        exact ⟨waiting', htake, hR'⟩

/-- **The MLQ ready queues are a stable priority queue.** After every sequence of `add_proc`,
`put_proc` and `get_proc` in which no level is asked to hold more than `MAX_QUEUE_SIZE`
processes, the calls so far are those of a stable priority queue, with what they returned, and
the levels hold what waits there. The next `get_proc` returns `NULL` exactly when nothing waits;
else it returns a process of the least priority value, of these the first, and leaves the others
as they were. -/
theorem getProc_returns_first_of_least (prio : α → Fin maxPrio)
    {os : List (SchedOp α × Option α)} {s : SchedState α}
    (hrun : ((schedSystem prio).restrict (SchedState.Room prio)).Run os s) :
    ∃ waiting, (StableQueue.system prio).Run (os.map SchedOp.abs) waiting ∧
      (∀ k, (s.mlqReadyQueue k).Holds (waiting.filter fun a => prio a = k)) ∧
      (s.getProc.1 = none ↔ waiting = []) ∧
      ∀ a, s.getProc.1 = some a → (∀ b ∈ waiting, prio a ≤ prio b) ∧
        ∃ before after, waiting = before ++ a :: after ∧ (∀ b ∈ before, prio b ≠ prio a) ∧
          ∀ k, (s.getProc.2.mlqReadyQueue k).Holds
            ((before ++ after).filter fun b => prio b = k) := by
  have hholds {s : SchedState α} {waiting : List α} (h : s.Waiting prio waiting) (k : Fin maxPrio) :
      (s.mlqReadyQueue k).Holds (waiting.filter fun a => prio a = k) := by
    obtain ⟨q, l, hq, hlevels⟩ := h
    exact hlevels k ▸ hq.mlq k
  obtain ⟨waiting, habs, hwaiting⟩ := (schedSystem_simulation prio).run hrun
  obtain ⟨waiting', htake, hwaiting'⟩ := hwaiting.take
  refine ⟨waiting, habs.of_comap, hholds hwaiting, htake.none_iff, ?_⟩
  intro a ha
  rw [ha] at htake
  obtain ⟨before, after, hl, rfl, hbefore⟩ := htake.first
  exact ⟨htake.least, before, after, hl, hbefore, hholds hwaiting'⟩

/-- A call that returns what its label says, computed. -/
def schedNext [DecidableEq α] (prio : α → Fin maxPrio) (s : SchedState α)
    (o : SchedOp α × Option α) : Option (SchedState α) :=
  if (schedStep prio s o.1).1 = o.2 then some (schedStep prio s o.1).2 else none

/-- What is computed is a step. -/
theorem schedSystem_step_of_schedNext [DecidableEq α] {prio : α → Fin maxPrio}
    {s s' : SchedState α} {o : SchedOp α × Option α} (h : schedNext prio s o = some s') :
    (schedSystem prio).step s o s' := by
  rw [schedNext] at h
  split at h
  · rename_i hr
    exact Prod.ext hr (Option.some.inj h)
  · simp at h

/-- Three processes, two of which have the same priority. -/
def threeCalls : List (SchedOp (ℕ × Fin maxPrio) × Option (ℕ × Fin maxPrio)) :=
  [(.add (1, 7), none), (.add (2, 3), none), (.get, some (2, 3)), (.add (3, 7), none)]

/-- The theorem at these calls: the second process is taken, and the others wait. -/
theorem getProc_returns_first_of_least_threeCalls : ∃ s : SchedState (ℕ × Fin maxPrio),
    ((schedSystem Prod.snd).restrict (SchedState.Room Prod.snd)).Run threeCalls s ∧
      ∃ waiting, (StableQueue.system Prod.snd).Run (threeCalls.map SchedOp.abs) waiting ∧
        ∀ k, (s.mlqReadyQueue k).Holds (waiting.filter fun a => a.2 = k) := by
  have hrun : (threeCalls.foldlM (fun (s : SchedState (ℕ × Fin maxPrio)) o =>
      if s.Room Prod.snd o then schedNext Prod.snd s o else none) initScheduler).isSome := by
    decide +kernel
  obtain ⟨s, hs⟩ := Option.isSome_iff_exists.mp hrun
  have hrun' : ((schedSystem Prod.snd).restrict (SchedState.Room Prod.snd)).Run threeCalls s :=
    Run.of_foldlM_restrict (fun _ _ _ h => schedSystem_step_of_schedNext h) rfl hs
  obtain ⟨waiting, habs, hholds, -⟩ := getProc_returns_first_of_least Prod.snd hrun'
  exact ⟨s, hrun', waiting, habs, hholds⟩

end OsSim
