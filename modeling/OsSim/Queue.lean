import OsSim.Sched

/-!
# Queues in Arrays

`queue.c` on `struct queue_t` itself: an array of `MAX_QUEUE_SIZE` process pointers of which the
first `size` are in the queue, kept gapless by shifting. A queue stands for the list of its
entries; on queues without a `NULL` entry, `enqueue` and `dequeue` are those of `Sched`.

The array has entries from `size` on as well. Taking a process shifts the entries behind it and
leaves what was in the last cell, so that the array behind `size` is full of old pointers; that they
are never looked at is what `toList` is about. `enqueue` can be given `NULL`, and does not test it,
so that an entry may be `none`.

Shifting is a loop of single assignments, as the source has it, and one lemma says what it leaves in
each cell (`shiftLoop_apply`). Everything else is stated about lists of entries. `Holds q l` is the
refinement relation: the queue has the processes `l`, in this order, and no other entries. The
operations keep it (`Holds.enqueue`, `Holds.dequeue`), which lets the scheduler be analysed on lists
and its results be carried back to the arrays.

## Main results

* `toList_enqueue`, `toList_dequeue`, `toList_removeAt`: the operations on the list of entries.
* `Holds.enqueue`, `Holds.dequeue`: **the array refines the list**.
-/

namespace OsSim

variable {α : Type}

/-- `struct queue_t`: the array `proc`, `none` for `NULL`, and `size`, which `enqueue` keeps within
the array. What the array has from `size` on is never read. -/
structure QueueT (α : Type) where
  proc : ℕ → Option α
  size : ℕ
  size_le : size ≤ maxQueueSize

namespace QueueT

/-- A static `struct queue_t`, which is zero. -/
def zero : QueueT α := ⟨fun _ => none, 0, Nat.zero_le _⟩

/-- `empty`: the size is 0. -/
def empty (q : QueueT α) : Bool := q.size == 0

/-- `enqueue`: the process goes to the cell behind the last entry, and a full queue stays as it is.
-/
def enqueue (q : QueueT α) (proc : Option α) : QueueT α :=
  if h : q.size ≥ maxQueueSize then q
  else ⟨Function.update q.proc q.size proc, q.size + 1, by omega⟩

/-- `proc[j] = proc[j + 1]`, for `n` values of `j` in turn, from the lowest on. -/
def shiftLoop (proc : ℕ → Option α) (j : ℕ) : ℕ → ℕ → Option α
  | 0 => proc
  | n + 1 => shiftLoop (Function.update proc j (proc (j + 1))) (j + 1) n

/-- Closing the gap at index `i`, and one entry fewer, as `dequeue` does at index 0 and
`__sys_killall` anywhere. The last cell keeps its pointer. -/
def removeAt (q : QueueT α) (i : ℕ) : QueueT α :=
  ⟨shiftLoop q.proc i (q.size - 1 - i), q.size - 1, (Nat.sub_le _ _).trans q.size_le⟩

/-- `dequeue`: the first process, `none` for `NULL`, and the queue without it. -/
def dequeue (q : QueueT α) : Option α × QueueT α :=
  if q.size = 0 then (none, q) else (q.proc 0, q.removeAt 0)

/-! ### The list of entries -/

/-- The entries of a queue: those of the array below `size`. -/
def toList (q : QueueT α) : List (Option α) := (List.range q.size).map q.proc

@[simp] theorem length_toList (q : QueueT α) : q.toList.length = q.size := by simp [toList]

@[simp] theorem size_removeAt (q : QueueT α) (i : ℕ) : (q.removeAt i).size = q.size - 1 := rfl

/-- The queue is empty if it has no entry. -/
theorem empty_iff (q : QueueT α) : q.empty = true ↔ q.toList = [] := by
  rw [← List.length_eq_zero_iff, length_toList, empty, beq_iff_eq]

/-- `enqueue` on the list of entries. -/
theorem toList_enqueue (q : QueueT α) (proc : Option α) :
    (q.enqueue proc).toList =
      if q.toList.length ≥ maxQueueSize then q.toList else q.toList ++ [proc] := by
  rw [enqueue, length_toList]
  split
  · rfl
  · -- the entries before the new one are unchanged
    have hold : (List.range q.size).map (Function.update q.proc q.size proc) = q.toList := by
      refine List.map_congr_left ?_
      intro k hk
      exact Function.update_of_ne (List.mem_range.mp hk).ne _ _
    simp only [toList, List.range_succ, List.map_append, List.map_cons, List.map_nil,
      Function.update_self]
    rw [hold, toList]

/-- What the shifting loop leaves in each cell: those it has come to have their successor's entry.
-/
theorem shiftLoop_apply (proc : ℕ → Option α) (j n k : ℕ) :
    shiftLoop proc j n k = if j ≤ k ∧ k < j + n then proc (k + 1) else proc k := by
  induction n generalizing proc j with
  | zero => rw [shiftLoop, if_neg (by omega)]
  | succ n ih =>
      rw [shiftLoop, ih]
      by_cases hkj : k = j
      · subst hkj
        rw [if_neg (by omega), if_pos (by omega), Function.update_self]
      · rw [Function.update_of_ne hkj]
        by_cases hin : j ≤ k ∧ k < j + (n + 1)
        · rw [if_pos (by omega), if_pos hin, Function.update_of_ne (by omega)]
        · rw [if_neg (by omega), if_neg hin]

/-- Closing the gap removes the entry and keeps the others in their order. -/
theorem toList_removeAt (q : QueueT α) {i : ℕ} (hi : i < q.size) :
    (q.removeAt i).toList = q.toList.eraseIdx i := by
  refine List.ext_getElem ?_ ?_
  · rw [List.length_eraseIdx_of_lt (by simpa using hi), length_toList, length_toList, removeAt]
  · intro k hk hk'
    have hlt : k < q.size - 1 := by simpa [removeAt] using hk
    rw [List.getElem_eraseIdx]
    simp only [toList, removeAt, List.getElem_map, List.getElem_range, shiftLoop_apply]
    by_cases hki : k < i
    · rw [dif_pos hki, if_neg (by omega)]
    · rw [dif_neg hki, if_pos (by omega)]

/-- `dequeue` on the list of entries: its head, and what is behind it. -/
theorem toList_dequeue (q : QueueT α) :
    (q.dequeue).1 = q.toList.head?.join ∧ (q.dequeue).2.toList = q.toList.tail := by
  rw [dequeue]
  split
  · rename_i h0
    have hnil : q.toList = [] := List.length_eq_zero_iff.mp (by rw [length_toList, h0])
    simp [hnil]
  · rename_i h0
    have hhead : q.toList.head? = some (q.proc 0) := by
      obtain ⟨n, hn⟩ := Nat.exists_eq_succ_of_ne_zero h0
      simp [toList, hn, List.range_succ_eq_map]
    refine ⟨by rw [hhead]; rfl, ?_⟩
    rw [toList_removeAt q (Nat.pos_of_ne_zero h0), List.eraseIdx_zero]

/-! ### Queues of processes -/

/-- The entries of `q` are the processes `l`, and none is `NULL`. -/
def Holds (q : QueueT α) (l : List α) : Prop := q.toList = l.map some

namespace Holds

variable {q : QueueT α} {l : List α}

/-- The static queue has no process. -/
theorem zero : (QueueT.zero : QueueT α).Holds [] := rfl

/-- The size is the number of processes. -/
theorem size_eq (h : q.Holds l) : q.size = l.length := by
  rw [← length_toList, h, List.length_map]

/-- The queue is empty if it holds no process. -/
theorem empty_iff (h : q.Holds l) : q.empty = true ↔ l = [] := by
  rw [QueueT.empty_iff, h, List.map_eq_nil_iff]

/-- **`enqueue`** is the list's, also where the queue is full. -/
theorem enqueue (h : q.Holds l) (proc : α) :
    (q.enqueue (some proc)).Holds (OsSim.enqueue l proc) := by
  rw [Holds, toList_enqueue, h, OsSim.enqueue, List.length_map]
  split
  · rfl
  · rw [List.map_append, List.map_cons, List.map_nil]

/-- **`dequeue`** is the list's, also where the queue is empty. -/
theorem dequeue (h : q.Holds l) :
    (q.dequeue).1 = (OsSim.dequeue l).1 ∧ (q.dequeue).2.Holds (OsSim.dequeue l).2 := by
  obtain ⟨hfst, hsnd⟩ := toList_dequeue q
  rw [h] at hfst hsnd
  rcases l with _ | ⟨proc, l⟩
  · exact ⟨hfst, hsnd⟩
  · exact ⟨hfst, hsnd⟩

end Holds

end QueueT

end OsSim
