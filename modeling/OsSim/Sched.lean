import Mathlib.Algebra.GroupWithZero.Nat
import Mathlib.Data.Fintype.Basic
import Mathlib.Data.List.FinRange
import Mathlib.Logic.Function.Basic

/-!
# The Scheduler's Queues

`queue.c` and the MLQ part of `sched.c`. A queue is the list of the processes in its array,
from index 0 on. `ready_queue`, `run_queue` and `slot` are not read by any of these functions
and are left out.

There is one ready queue for each priority, and `get_mlq_proc` takes the head of the first one that
is not empty, from priority 0 on. The comment above it promises slots for each priority, for which
an array is filled at the start; no function reads it, so that the policy is a strict priority
order. An insertion into a queue that has `MAX_QUEUE_SIZE` processes does nothing and says nothing.

The lists here are what the threads work on. How they lie in the arrays, with `size` and the entries
behind it, is a matter of its own, and these functions are the ones that the arrays refine. The
lemmas say of each function which processes are in the queues afterwards, with and without room;
later modules do not unfold them.

## Main results

* `getMlqProc_cases`: what `get_mlq_proc` takes.
* `mem_enqueue`, `nodup_enqueue`: a queue with room takes the process.
* `of_mem_putMlqProc`, `of_mem_getMlqProc`: the functions bring in no other process.
-/

namespace OsSim

/-! ### Queues -/

/-- `MAX_QUEUE_SIZE`, for the ready queues and the running list. -/
abbrev maxQueueSize : ℕ := 10

/-- `MAX_PRIO`, the number of priorities; 0 is the most urgent one. -/
abbrev maxPrio : ℕ := 140

instance : NeZero maxPrio := ⟨by decide⟩

variable {α : Type}

/-- `enqueue`: the process comes to the end, and a full queue stays as it is. Nothing is returned,
so that the caller cannot tell. -/
def enqueue (q : List α) (proc : α) : List α :=
  if q.length ≥ maxQueueSize then q else q ++ [proc]

/-- `dequeue`: the process, `none` for `NULL`, and the queue. The processes behind it move up, in
their order. -/
def dequeue : List α → Option α × List α
  | [] => (none, [])
  | proc :: q => (some proc, q)

/-- A queue with room takes the process at its end. -/
theorem enqueue_of_lt {q : List α} (h : q.length < maxQueueSize) (proc : α) :
    enqueue q proc = q ++ [proc] := if_neg (by omega)

/-- A queue with room has the process afterwards. -/
theorem mem_enqueue {q : List α} {proc x : α} (h : q.length < maxQueueSize) :
    x ∈ enqueue q proc ↔ x ∈ q ∨ x = proc := by
  rw [enqueue_of_lt h, List.mem_append, List.mem_singleton]

/-- With or without room, no other process comes in than the one inserted. -/
theorem of_mem_enqueue {q : List α} {proc x : α} (h : x ∈ enqueue q proc) : x ∈ q ∨ x = proc := by
  rw [enqueue] at h
  split at h
  · exact Or.inl h
  · rwa [List.mem_append, List.mem_singleton] at h

/-- A process that was not in the queue is in it once. -/
theorem nodup_enqueue {q : List α} {proc : α} (h : q.Nodup) (hnew : proc ∉ q) :
    (enqueue q proc).Nodup := by
  rw [enqueue]
  split
  · exact h
  · exact List.nodup_append.mpr ⟨h, List.nodup_singleton proc, by rintro x hx _ hy rfl; simp_all⟩

/-! ### The ready queues -/

/-- The loop of `get_mlq_proc` over the priorities still to look at, up to the first queue that is
not empty. -/
def getMlqLoop (mlqReadyQueue : Fin maxPrio → List α) :
    List (Fin maxPrio) → Option α × (Fin maxPrio → List α)
  | [] => (none, mlqReadyQueue)
  | prio :: rest =>
      if (mlqReadyQueue prio).isEmpty then getMlqLoop mlqReadyQueue rest
      else
        let r := dequeue (mlqReadyQueue prio)
        (r.1, Function.update mlqReadyQueue prio r.2)

/-- `get_mlq_proc`, which `get_proc` calls: the process, `none` for `NULL`, and the queues. -/
def getMlqProc (mlqReadyQueue : Fin maxPrio → List α) : Option α × (Fin maxPrio → List α) :=
  getMlqLoop mlqReadyQueue (List.finRange maxPrio)

/-- `put_mlq_proc` and `add_mlq_proc` for a process of priority `prio`, which insert into its queue
in the same way. -/
def putMlqProc (mlqReadyQueue : Fin maxPrio → List α) (prio : Fin maxPrio) (proc : α) :
    Fin maxPrio → List α :=
  Function.update mlqReadyQueue prio (enqueue (mlqReadyQueue prio) proc)

/-- They bring in the process they are called with, into the queue of its priority, and no other. -/
theorem of_mem_putMlqProc {q : Fin maxPrio → List α} {prio k : Fin maxPrio} {proc x : α}
    (h : x ∈ putMlqProc q prio proc k) : x ∈ q k ∨ x = proc ∧ k = prio := by
  rw [putMlqProc] at h
  by_cases hk : k = prio
  · subst hk
    rw [Function.update_self] at h
    rcases of_mem_enqueue h with hin | rfl
    · exact Or.inl hin
    · exact Or.inr ⟨rfl, rfl⟩
  · rw [Function.update_of_ne hk] at h
    exact Or.inl h

/-- What the loop takes: the head of the first queue that is not empty. -/
theorem getMlqLoop_cases (q : Fin maxPrio → List α) (prios : List (Fin maxPrio)) :
    ((∀ prio ∈ prios, q prio = []) ∧ getMlqLoop q prios = (none, q)) ∨
      ∃ before prio after proc rest, prios = before ++ prio :: after ∧
        (∀ j ∈ before, q j = []) ∧ q prio = proc :: rest ∧
        getMlqLoop q prios = (some proc, Function.update q prio rest) := by
  induction prios with
  | nil => exact Or.inl ⟨fun _ h => absurd h List.not_mem_nil, rfl⟩
  | cons prio prios ih =>
      rw [getMlqLoop]
      rcases hq : q prio with _ | ⟨proc, rest⟩
      · simp only [List.isEmpty_nil, if_true]
        rcases ih with ⟨hnil, heq⟩ | ⟨before, prio', after, proc, rest, rfl, hnil, hhead, heq⟩
        · exact Or.inl ⟨by simpa [hq] using hnil, heq⟩
        · refine Or.inr ⟨prio :: before, prio', after, proc, rest, rfl, ?_, hhead, heq⟩
          simpa [hq] using hnil
      · simp only [List.isEmpty_cons, Bool.false_eq_true, if_false]
        exact Or.inr ⟨[], prio, prios, proc, rest, rfl, fun _ h => absurd h List.not_mem_nil, hq,
          rfl⟩

/-- **What `get_mlq_proc` takes.** `NULL` means that all queues are empty; else the process is
the head of the first queue that is not. -/
theorem getMlqProc_cases (q : Fin maxPrio → List α) :
    ((∀ prio, q prio = []) ∧ getMlqProc q = (none, q)) ∨
      ∃ prio proc rest, q prio = proc :: rest ∧ (∀ j < prio, q j = []) ∧
        getMlqProc q = (some proc, Function.update q prio rest) := by
  rcases getMlqLoop_cases q (List.finRange maxPrio) with
    ⟨hnil, heq⟩ | ⟨before, prio, after, proc, rest, hprios, hnil, hhead, heq⟩
  · exact Or.inl ⟨fun prio => hnil prio (List.mem_finRange prio), heq⟩
  · refine Or.inr ⟨prio, proc, rest, hhead, fun j hj => hnil j ?_, heq⟩
    -- the priorities are looked at in ascending order
    have hsorted : (List.finRange maxPrio).Pairwise (· < ·) := List.pairwise_lt_finRange maxPrio
    have hmem := List.mem_finRange j
    rw [hprios] at hmem hsorted
    rcases List.mem_append.mp hmem with hin | hin
    · exact hin
    · have hle : prio ≤ j := by
        rcases List.mem_cons.mp hin with rfl | hafter
        · exact le_rfl
        · exact (List.rel_of_pairwise_cons (List.pairwise_append.mp hsorted).2.1 hafter).le
      exact absurd hj (not_lt.mpr hle)

/-- From empty queues it takes nothing. -/
theorem getMlqProc_of_nil {q : Fin maxPrio → List α} (h : ∀ prio, q prio = []) :
    getMlqProc q = (none, q) := by
  rcases getMlqProc_cases q with ⟨-, heq⟩ | ⟨prio, proc, rest, hhead, -, -⟩
  · exact heq
  · rw [h] at hhead
    cases hhead

/-- What it takes was in a queue, at the head of it. -/
theorem mem_of_getMlqProc {q : Fin maxPrio → List α} {x : α} (h : (getMlqProc q).1 = some x) :
    ∃ prio, x ∈ q prio := by
  rcases getMlqProc_cases q with ⟨-, heq⟩ | ⟨prio, proc, rest, hhead, -, heq⟩
  · rw [heq] at h
    cases h
  · rw [heq] at h
    obtain rfl := Option.some.inj h
    exact ⟨prio, by simp [hhead]⟩

/-- What it leaves in a queue was there before: it brings nothing in. -/
theorem of_mem_getMlqProc {q : Fin maxPrio → List α} {k : Fin maxPrio} {x : α}
    (h : x ∈ (getMlqProc q).2 k) : x ∈ q k := by
  rcases getMlqProc_cases q with ⟨-, heq⟩ | ⟨k', proc, rest, hhead, -, heq⟩
  · rwa [heq] at h
  · rw [heq] at h
    by_cases hk : k = k'
    · subst hk
      simp only [Function.update_self] at h
      exact hhead ▸ List.mem_cons_of_mem proc h
    · simpa only [Function.update_of_ne hk] using h

end OsSim
