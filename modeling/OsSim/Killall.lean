import OsSim.Mlq
import Mathlib.Algebra.BigOperators.Fin
import Mathlib.Data.Finset.Card

/-!
# Killing by Name

`__sys_killall` from the point on where it has the name: it goes over `running_list`, then over
the ready queues, and terminates each entry whose process has the name as its path. Every process
has an `mm`: `ld_routine` sets it before `add_proc`.

Terminating a process releases its memory, sets its `pid` to 0 and counts it. The entry is removed
by shifting the entries behind it, and the index stays where it is, so that the next entry is not
skipped. The function goes by entries and not by processes: a process that waits for a CPU has an
entry on `running_list` and one in its ready queue, and is terminated twice. `put_proc` enters a
process on `running_list` again at the end of each slice, and every such entry counts as well.

What the loops do is said by one filter for each array (`killQueue_spec`): the entries of the name
are terminated in their order, and the others stay in theirs. This holds of arrays with any content,
`NULL` entries and repeated ones included. On queues that hold lists of processes it becomes a
filter of these lists (`sysKillall_holds`), in which form the threads use it.

The whole is a function of the arrays, as if nobody else changed them meanwhile. The code takes no
lock; what comes of that is looked at where the loops are taken apart into steps.

## Main results

* `killQueue_spec`: the loop over one queue terminates the matching entries in turn, and leaves
  the others.
* `sysKillall_holds`: `__sys_killall` on queues of processes.
* `sysKillall_filters`: **every array is filtered**, whatever it holds.
* `killsOnce_iff`: **when each matching process is terminated exactly once**.
-/

namespace OsSim

open TransitionSystem

variable {α : Type} [DecidableEq α]

/-- The characters of a C string before its `NUL`, as bytes. -/
abbrev CStr : Type := List (BitVec 8)

/-- A string literal in C. -/
def cstr (s : String) : CStr := s.toList.map fun c => BitVec.ofNat 8 c.toNat

/-! ### Terminating -/

/-- What `__sys_killall` has done: `count`, the processes' `pid` fields, and the calls of
`free_pcb_memph`, oldest first. -/
structure KillState (α : Type) where
  count : ℕ
  pid : α → ℕ
  freed : List α

/-- Terminating a process, whether or not this has been done before: `free_pcb_memph`, then
`pid = 0`, and one more in `count`. -/
def KillState.terminate (k : KillState α) (proc : α) : KillState α where
  count := k.count + 1
  pid := Function.update k.pid proc 0
  freed := k.freed ++ [proc]

/-- Terminating some processes in turn: the count, the calls of `free_pcb_memph`, and the `pid`
fields. -/
theorem foldl_terminate (k : KillState α) (procs : List α) :
    (procs.foldl KillState.terminate k).count = k.count + procs.length ∧
      (procs.foldl KillState.terminate k).freed = k.freed ++ procs ∧
      ∀ p, (procs.foldl KillState.terminate k).pid p = if p ∈ procs then 0 else k.pid p := by
  induction procs generalizing k with
  | nil => simp
  | cons proc procs ih =>
      obtain ⟨hcount, hfreed, hpid⟩ := ih (k.terminate proc)
      rw [List.foldl_cons]
      refine ⟨?_, ?_, ?_⟩
      · have hone : (k.terminate proc).count = k.count + 1 := rfl
        rw [hcount, hone, List.length_cons]
        omega
      · rw [hfreed, KillState.terminate, List.append_assoc]
        rfl
      · intro p
        rw [hpid, KillState.terminate]
        by_cases hp : p = proc
        · subst hp
          simp
        · simp [hp]

/-! ### The loops -/

variable (path : α → CStr) (name : CStr)

/-- The loop over a queue from index `i` on, for the `n` entries there. Terminating an entry
closes its gap, so that the next one is at the same index. -/
def killLoop : ℕ → KillState α → QueueT α → ℕ → KillState α × QueueT α
  | 0, k, q, _ => (k, q)
  | n + 1, k, q, i =>
      match q.proc i with
      | some proc =>
          if path proc = name then killLoop n (k.terminate proc) (q.removeAt i) i
          else killLoop n k q (i + 1)
      | none => killLoop n k q (i + 1)

/-- The loop over all of a queue, from index 0 on, for as many entries as it has at the start. -/
def killQueue (k : KillState α) (q : QueueT α) : KillState α × QueueT α :=
  killLoop path name q.size k q 0

/-- The loop over the ready queues of the priorities still to look at, each to its end. -/
def killLevels : List (Fin maxPrio) → KillState α → (Fin maxPrio → QueueT α) →
    KillState α × (Fin maxPrio → QueueT α)
  | [], k, mlqReadyQueue => (k, mlqReadyQueue)
  | prio :: rest, k, mlqReadyQueue =>
      let r := killQueue path name k (mlqReadyQueue prio)
      killLevels rest r.1 (Function.update mlqReadyQueue prio r.2)

/-- `__sys_killall` once it has the name; `count` is what it returns. The running list comes first,
and then the ready queues from priority 0 on, without a lock. -/
def sysKillall (pid : α → ℕ) (s : SchedState α) : KillState α × SchedState α :=
  let running := killQueue path name { count := 0, pid := pid, freed := [] } s.runningList
  let levels := killLevels path name (List.finRange maxPrio) running.1 s.mlqReadyQueue
  (levels.1, { s with runningList := running.2, mlqReadyQueue := levels.2 })

/-! ### What they do -/

/-- The process of an entry that `__sys_killall` terminates: one with the name as its path, and none
for `NULL`. -/
def victim (e : Option α) : Option α := e.filter fun proc => path proc = name

omit [DecidableEq α] in
/-- An entry that is a process is to be terminated if the process has the name. -/
theorem victim_some (proc : α) :
    victim path name (some proc) = if path proc = name then some proc else none := by
  simp [victim, Option.filter_some]

/-- The loop from index `i` on, where `n` entries are left. By induction on `n`, with the index
where it is after an entry is removed. -/
theorem killLoop_spec (n : ℕ) (k : KillState α) (q : QueueT α) (i : ℕ) (hn : q.size = i + n) :
    (killLoop path name n k q i).1 =
        ((q.toList.drop i).filterMap (victim path name)).foldl KillState.terminate k ∧
      (killLoop path name n k q i).2.toList =
        q.toList.take i ++ (q.toList.drop i).filter fun e => (victim path name e).isNone := by
  induction n generalizing k q i with
  | zero =>
      have hdrop : q.toList.drop i = [] := List.drop_eq_nil_of_le (by simp [hn])
      have htake : q.toList.take i = q.toList := List.take_of_length_le (by simp [hn])
      simp [killLoop, hdrop, htake]
  | succ n ih =>
      have hi : i < q.toList.length := by
        rw [QueueT.length_toList]
        omega
      have hget : q.toList[i] = q.proc i := by simp [QueueT.toList]
      have hdrop : q.toList.drop i = q.proc i :: q.toList.drop (i + 1) := by
        rw [List.drop_eq_getElem_cons hi, hget]
      -- an entry that stays
      have hskip (hnone : victim path name (q.proc i) = none) :
          (killLoop path name n k q (i + 1)).1 =
              ((q.toList.drop i).filterMap (victim path name)).foldl KillState.terminate k ∧
            (killLoop path name n k q (i + 1)).2.toList =
              q.toList.take i ++
                (q.toList.drop i).filter fun e => (victim path name e).isNone := by
        obtain ⟨hfst, hsnd⟩ := ih k q (i + 1) (by omega)
        rw [hfst, hsnd, hdrop, List.filterMap_cons_none hnone,
          List.filter_cons_of_pos (by simp [hnone]), List.take_succ_eq_append_getElem hi, hget,
          List.append_assoc]
        exact ⟨rfl, rfl⟩
      rw [killLoop]
      rcases hproc : q.proc i with _ | proc
      · exact hskip (by rw [hproc]; rfl)
      · by_cases hpath : path proc = name
        · -- an entry to terminate
          simp only [if_pos hpath]
          have hsize : (q.removeAt i).size = i + n := by
            rw [QueueT.size_removeAt, hn]
            omega
          have hlist : (q.removeAt i).toList = q.toList.take i ++ q.toList.drop (i + 1) := by
            rw [q.toList_removeAt (by simpa using hi), List.eraseIdx_eq_take_drop_succ]
          have hlen : (q.toList.take i).length = i := List.length_take_of_le hi.le
          have hvictim : victim path name (some proc) = some proc := by
            rw [victim_some, if_pos hpath]
          obtain ⟨hfst, hsnd⟩ := ih (k.terminate proc) (q.removeAt i) i hsize
          rw [hfst, hsnd, hlist, List.drop_left' hlen, List.take_left' hlen, hdrop, hproc,
            List.filterMap_cons_some hvictim, List.filter_cons_of_neg (by simp [hvictim])]
          exact ⟨rfl, rfl⟩
        · simp only [if_neg hpath]
          exact hskip (by rw [hproc, victim_some, if_neg hpath])

/-- **The loop over one queue** terminates the matching entries in turn, and leaves the others in
their order. -/
theorem killQueue_spec (k : KillState α) (q : QueueT α) :
    (killQueue path name k q).1 =
        (q.toList.filterMap (victim path name)).foldl KillState.terminate k ∧
      (killQueue path name k q).2.toList =
        q.toList.filter fun e => (victim path name e).isNone := by
  have h := killLoop_spec path name q.size k q 0 (by omega)
  simpa [killQueue] using h

/-- The loop over the ready queues does so for each in turn, and each is looked at once. -/
theorem killLevels_spec (prios : List (Fin maxPrio)) (hnodup : prios.Nodup) (k : KillState α)
    (q : Fin maxPrio → QueueT α) :
    (killLevels path name prios k q).1 =
        (prios.flatMap fun prio => (q prio).toList.filterMap (victim path name)).foldl
          KillState.terminate k ∧
      ∀ prio, ((killLevels path name prios k q).2 prio).toList =
        if prio ∈ prios then (q prio).toList.filter fun e => (victim path name e).isNone
        else (q prio).toList := by
  induction prios generalizing k q with
  | nil => exact ⟨rfl, fun _ => rfl⟩
  | cons prio prios ih =>
      obtain ⟨hnot, hnodup⟩ := List.nodup_cons.mp hnodup
      obtain ⟨hkill, hlist⟩ := killQueue_spec path name k (q prio)
      obtain ⟨hfst, hsnd⟩ := ih hnodup (killQueue path name k (q prio)).1
        (Function.update q prio (killQueue path name k (q prio)).2)
      refine ⟨?_, ?_⟩
      · -- the queues still to look at are as they were
        have hrest : (prios.flatMap fun prio' =>
            (Function.update q prio (killQueue path name k (q prio)).2 prio').toList.filterMap
              (victim path name)) =
            prios.flatMap fun prio' => (q prio').toList.filterMap (victim path name) := by
          refine List.flatMap_congr ?_
          rintro prio' hprio'
          rw [Function.update_of_ne (ne_of_mem_of_not_mem hprio' hnot)]
        rw [killLevels, hfst, hrest, hkill, List.flatMap_cons, List.foldl_append]
      · intro prio'
        rw [killLevels, hsnd]
        by_cases heq : prio' = prio
        · subst heq
          simp [hnot, hlist]
        · simp [heq]

/-! ### Arrays with any entries -/

/-- The entry is that of a process with the name; a `NULL` entry is not. -/
def named (e : Option α) : Bool := e.any fun proc => path proc = name

/-- The entries of all 141 arrays, those of `running_list` first. -/
def SchedState.allEntries (s : SchedState α) : List (Option α) :=
  s.runningList.toList ++ (List.finRange maxPrio).flatMap fun prio => (s.mlqReadyQueue prio).toList

/-- What a call of `__sys_killall` does: it terminates the processes of the entries it removes, one
after the other, and keeps the other entries of each array. -/
theorem sysKillall_spec (pid : α → ℕ) (s : SchedState α) :
    (sysKillall path name pid s).1 = (s.allEntries.filterMap (victim path name)).foldl
        KillState.terminate { count := 0, pid := pid, freed := [] } ∧
      (sysKillall path name pid s).2.runningList.toList =
        s.runningList.toList.filter (fun e => (victim path name e).isNone) ∧
      ∀ prio, ((sysKillall path name pid s).2.mlqReadyQueue prio).toList =
        (s.mlqReadyQueue prio).toList.filter fun e => (victim path name e).isNone := by
  obtain ⟨hkill, hleft⟩ := killQueue_spec path name
    { count := 0, pid := pid, freed := [] } s.runningList
  obtain ⟨hkills, hlefts⟩ := killLevels_spec path name
    (List.finRange maxPrio) (List.nodup_finRange _)
    (killQueue path name { count := 0, pid := pid, freed := [] } s.runningList).1
    s.mlqReadyQueue
  refine ⟨?_, hleft, ?_⟩
  · rw [sysKillall, hkills, hkill, ← List.foldl_append, SchedState.allEntries,
      List.filterMap_append, List.filterMap_flatMap]
  · intro prio
    have hprio := hlefts prio
    rwa [if_pos (List.mem_finRange prio)] at hprio

/-- `q'` has the entries of `q` that are not those of processes with the name, in their order. -/
structure Filtered (q q' : QueueT α) : Prop where
  toList : q'.toList = q.toList.filter fun e => !named path name e
  size : q'.size = q.size - q.toList.countP (named path name)

omit [DecidableEq α] in
/-- An entry stays if it is not one of the name. -/
theorem isNone_victim (e : Option α) : (victim path name e).isNone = !named path name e := by
  rcases e with _ | proc
  · rfl
  · by_cases h : path proc = name <;> simp [victim_some, named, h]

omit [DecidableEq α] in
/-- The entries that stay determine the size. -/
theorem Filtered.of_toList {q q' : QueueT α}
    (h : q'.toList = q.toList.filter fun e => (victim path name e).isNone) :
    Filtered path name q q' := by
  simp only [isNone_victim] at h
  refine ⟨h, ?_⟩
  have hlen := List.length_eq_countP_add_countP (named path name) (l := q.toList)
  have hsize := congrArg List.length h
  simp only [QueueT.length_toList, ← List.countP_eq_length_filter] at hsize hlen
  simp only [Bool.not_eq_true, Bool.decide_eq_false] at hlen
  omega

/-- **`__sys_killall` filters**, whatever the arrays hold: each keeps just the entries of other
processes and those that are `NULL`, as many as are removed are counted, and the processes of the
removed entries, and no other, have their `pid` set to 0. -/
theorem sysKillall_filters (pid : α → ℕ) (s : SchedState α) :
    Filtered path name s.runningList (sysKillall path name pid s).2.runningList ∧
      (∀ prio, Filtered path name (s.mlqReadyQueue prio)
        ((sysKillall path name pid s).2.mlqReadyQueue prio)) ∧
      (sysKillall path name pid s).1.count = s.allEntries.countP (named path name) ∧
      ∀ p, (sysKillall path name pid s).1.pid p =
        if some p ∈ s.allEntries ∧ path p = name then 0 else pid p := by
  obtain ⟨hall, hleft, hlefts⟩ := sysKillall_spec path name pid s
  obtain ⟨hcount, -, hpid⟩ := foldl_terminate { count := 0, pid := pid, freed := [] }
    (s.allEntries.filterMap (victim path name))
  refine ⟨Filtered.of_toList path name hleft,
    fun prio => Filtered.of_toList path name (hlefts prio), ?_, ?_⟩
  · rw [hall, hcount, Nat.zero_add, List.length_filterMap_eq_countP]
    refine List.countP_congr ?_
    rintro e -
    rw [← Option.not_isNone, isNone_victim, Bool.not_not]
  · rintro p
    rw [hall, hpid]
    have hmem : p ∈ s.allEntries.filterMap (victim path name) ↔
        some p ∈ s.allEntries ∧ path p = name := by
      rw [List.mem_filterMap]
      constructor
      · rintro ⟨e, he, hvictim⟩
        obtain ⟨rfl, hpath⟩ := Option.filter_eq_some_iff.mp hvictim
        exact ⟨he, by simpa using hpath⟩
      · rintro ⟨he, hpath⟩
        exact ⟨some p, he, by rw [victim_some, if_pos hpath]⟩
    simp only [hmem]

/-! ### Queues of processes -/

omit [DecidableEq α] in
/-- The processes to terminate, in a list of processes. -/
theorem filterMap_victim (l : List α) :
    (l.map some).filterMap (victim path name) = l.filter fun proc => path proc = name := by
  rw [List.filterMap_map, ← List.filterMap_eq_filter]
  refine List.filterMap_congr ?_
  intro proc _
  simp [victim_some, Option.guard]

omit [DecidableEq α] in
/-- The processes that stay, in a list of processes. -/
theorem filter_victim (l : List α) :
    ((l.map some).filter fun e => (victim path name e).isNone) =
      (l.filter fun proc => path proc ≠ name).map some := by
  rw [List.filter_map]
  congr 1
  refine List.filter_congr ?_
  intro proc _
  by_cases h : path proc = name <;> simp [victim_some, h]

/-- The processes that `__sys_killall` terminates, once for each entry: a process on the running
list and in its queue is terminated twice. -/
def victims (path : α → CStr) (name : CStr) (q : Fin maxPrio → List α) (l : List α) : List α :=
  (l ++ (List.finRange maxPrio).flatMap q).filter fun proc => path proc = name

/-- **`__sys_killall` on queues of processes**: all lists are filtered, and the victims are
terminated, once for each entry. -/
theorem sysKillall_holds (path : α → CStr) (name : CStr) {s : SchedState α}
    {q : Fin maxPrio → List α} {l : List α} (h : s.Holds q l) (pid : α → ℕ) :
    (sysKillall path name pid s).1 =
        (victims path name q l).foldl KillState.terminate { count := 0, pid := pid, freed := [] } ∧
      (sysKillall path name pid s).2.Holds
        (fun prio => (q prio).filter fun proc => path proc ≠ name)
        (l.filter fun proc => path proc ≠ name) := by
  have hlist (prio : Fin maxPrio) : (s.mlqReadyQueue prio).toList = (q prio).map some := h.mlq prio
  have hrunning : s.runningList.toList = l.map some := h.running
  obtain ⟨hall, hleft, hlefts⟩ := sysKillall_spec path name pid s
  refine ⟨?_, ?_, ?_⟩
  · rw [hall, SchedState.allEntries, List.filterMap_append, List.filterMap_flatMap]
    simp only [hlist, hrunning, filterMap_victim, victims, List.filter_append, List.filter_flatMap]
  · intro prio
    have hprio := hlefts prio
    rwa [hlist, filter_victim] at hprio
  · rwa [hrunning, filter_victim] at hleft

/-! ### Each exactly once -/

/-- The processes that calls of `add_proc` and `put_proc` have inserted, in turn. -/
def inserted (os : List (SchedOp α × Option α)) : List α := os.filterMap fun o =>
  match o.1 with
  | .add proc => some proc
  | .put proc => some proc
  | .get => none

/-- Among the processes `live`, those with the name are terminated, each exactly once, and counted;
no other is. -/
def KillsOnce (path : α → CStr) (name : CStr) (live : List α) (k : KillState α) : Prop :=
  k.count = (live.toFinset.filter fun p => path p = name).card ∧
    ∀ p, k.freed.count p = if p ∈ live ∧ path p = name then 1 else 0

/-- The entries of `p` in `running_list` and the ready queues together. -/
def SchedState.entries (s : SchedState α) (p : α) : ℕ :=
  s.runningList.toList.count (some p) + ∑ prio, (s.mlqReadyQueue prio).toList.count (some p)

variable {prio : α → Fin maxPrio} {os : List (SchedOp α × Option α)} {s : SchedState α}

omit [DecidableEq α] in
/-- Entries are processes that calls have inserted. -/
theorem holds_of_run (hrun : (schedSystem prio).Run os s) :
    ∃ q l, s.Holds q l ∧ (∀ p ∈ l, p ∈ inserted os) ∧ ∀ k, ∀ p ∈ q k, p ∈ inserted os := by
  induction hrun with
  | init hinit =>
      obtain rfl : _ = initScheduler := hinit
      exact ⟨_, _, SchedState.Holds.init, by simp, by simp⟩
  | @step os s o s' _ hst ih =>
      obtain ⟨q, l, hq, hl, hlevel⟩ := ih
      have hmono {p : α} (hp : p ∈ inserted os) : p ∈ inserted (os ++ [o]) := by
        rw [inserted, List.filterMap_append]
        exact List.mem_append_left _ hp
      -- a call that inserts `proc`
      have hput {proc : α} (hproc : proc ∈ inserted (os ++ [o])) :
          ∃ q l, (s.putProc prio proc).Holds q l ∧ (∀ p ∈ l, p ∈ inserted (os ++ [o])) ∧
            ∀ k, ∀ p ∈ q k, p ∈ inserted (os ++ [o]) := by
        refine ⟨_, _, hq.putProc prio proc, ?_, ?_⟩
        · intro p hp
          rcases of_mem_enqueue hp with hin | rfl
          · exact hmono (hl p hin)
          · exact hproc
        · intro k p hp
          rcases of_mem_putMlqProc hp with hin | ⟨rfl, -⟩
          · exact hmono (hlevel k p hin)
          · exact hproc
      obtain ⟨op, r⟩ := o
      cases op with
      | add proc =>
          obtain ⟨-, rfl⟩ := Prod.mk.inj hst
          exact hput (by simp [inserted])
      | put proc =>
          obtain ⟨-, rfl⟩ := Prod.mk.inj hst
          exact hput (by simp [inserted])
      | get =>
          have hget : s.getProc = (r, _) := hst
          obtain rfl := congrArg Prod.snd hget
          exact ⟨_, _, hq.getMlqProc.2, fun p hp => hmono (hl p hp),
            fun k p hp => hmono (hlevel k p (of_mem_getMlqProc hp))⟩

/-- A process with the name is terminated once for each of its entries. -/
theorem count_freed {q : Fin maxPrio → List α} {l : List α} (h : s.Holds q l) (path : α → CStr)
    (name : CStr) (pid : α → ℕ) (p : α) :
    (sysKillall path name pid s).1.freed.count p = if path p = name then s.entries p else 0 := by
  have hmap (x : List α) : (x.map some).count (some p) = x.count p :=
    List.count_map_of_injective x some (Option.some_injective α) p
  have hentries : s.entries p = (l ++ (List.finRange maxPrio).flatMap q).count p := by
    have hrunning : s.runningList.toList = l.map some := h.running
    have hlist (k : Fin maxPrio) : (s.mlqReadyQueue k).toList = (q k).map some := h.mlq k
    simp only [SchedState.entries, hrunning, hlist, hmap, List.count_append, List.count_flatMap]
    rw [← List.ofFn_eq_map, List.sum_ofFn]
    rfl
  rw [(sysKillall_holds path name h pid).1, (foldl_terminate _ _).2.1, List.nil_append, victims,
    hentries]
  by_cases hp : path p = name
  · rw [if_pos hp, List.count_filter (by simpa using hp)]
  · rw [if_neg hp, List.count_eq_zero]
    simp [hp]

/-- **When each matching process is terminated exactly once.** After any sequence of `add_proc`,
`put_proc` and `get_proc`, this is so exactly when each inserted process with the name has one
entry in `running_list` and the ready queues together. -/
theorem killsOnce_iff (path : α → CStr) (name : CStr) (pid : α → ℕ)
    (hrun : (schedSystem prio).Run os s) :
    KillsOnce path name (inserted os) (sysKillall path name pid s).1 ↔
      ∀ p ∈ inserted os, path p = name → s.entries p = 1 := by
  obtain ⟨q, l, hq, hl, hlevel⟩ := holds_of_run hrun
  have hcount := count_freed hq path name pid
  constructor
  · rintro ⟨-, honce⟩ p hp hpath
    have := honce p
    rwa [hcount, if_pos hpath, if_pos ⟨hp, hpath⟩] at this
  · intro hentries
    have honce (p : α) : (sysKillall path name pid s).1.freed.count p =
        if p ∈ inserted os ∧ path p = name then 1 else 0 := by
      rw [hcount]
      by_cases hpath : path p = name
      · by_cases hp : p ∈ inserted os
        · rw [if_pos hpath, if_pos ⟨hp, hpath⟩, hentries p hp hpath]
        · -- a process that was never inserted has no entry
          have hnot : p ∉ victims path name q l := by
            intro hin
            rw [victims, List.mem_filter, List.mem_append, List.mem_flatMap] at hin
            rcases hin.1 with hin | ⟨k, -, hin⟩
            · exact hp (hl p hin)
            · exact hp (hlevel k p hin)
          rw [← hcount, if_neg (fun h => hp h.1), List.count_eq_zero,
            (sysKillall_holds path name hq pid).1, (foldl_terminate _ _).2.1]
          exact hnot
      · rw [if_neg hpath, if_neg (fun h => hpath h.2)]
    refine ⟨?_, honce⟩
    -- the calls of `free_pcb_memph` are those processes without repetition
    have hnodup : (sysKillall path name pid s).1.freed.Nodup := by
      refine List.nodup_iff_count_le_one.mpr ?_
      intro p
      rw [honce]
      split <;> omega
    have hset : (sysKillall path name pid s).1.freed.toFinset =
        (inserted os).toFinset.filter fun p => path p = name := by
      ext p
      rw [List.mem_toFinset, ← List.count_pos_iff, honce, Finset.mem_filter, List.mem_toFinset]
      by_cases h : p ∈ inserted os ∧ path p = name
      · rw [if_pos h]
        exact iff_of_true Nat.one_pos h
      · rw [if_neg h]
        exact iff_of_false (lt_irrefl 0) h
    rw [← hset, List.toFinset_card_of_nodup hnodup]
    have hvictims := foldl_terminate { count := 0, pid := pid, freed := [] } (victims path name q l)
    rw [(sysKillall_holds path name hq pid).1, hvictims.1, hvictims.2.1, Nat.zero_add,
      List.nil_append]

/-- Two processes, the first of which a CPU has taken. -/
def takenCalls : List (SchedOp ℕ × Option ℕ) :=
  [(.add 0, none), (.get, some 0), (.add 1, none)]

/-- The first has the path that is killed. -/
def takenPath (p : ℕ) : CStr := if p = 0 then [112#8] else [113#8]

/-- The theorem there: the first process has one entry and is terminated once. -/
theorem killsOnce_iff_takenCalls : ∃ s : SchedState ℕ,
    (schedSystem fun _ => 0).Run takenCalls s ∧
      KillsOnce takenPath [112#8] (inserted takenCalls)
        (sysKillall takenPath [112#8] (fun _ => 1) s).1 := by
  have hrun : (takenCalls.foldlM (schedNext fun _ => 0) initScheduler).map
      (fun s => s.entries 0) = some 1 := by
    decide +kernel
  obtain ⟨s, hs, hone⟩ := Option.map_eq_some_iff.mp hrun
  have hrun' : (schedSystem fun _ => 0).Run takenCalls s :=
    Run.of_foldlM (fun _ _ _ h => schedSystem_step_of_schedNext h) rfl hs
  refine ⟨s, hrun', (killsOnce_iff takenPath [112#8] (fun _ => 1) hrun').mpr ?_⟩
  rintro p - hpath
  obtain rfl : p = 0 := by
    by_contra hne
    simp [takenPath, hne] at hpath
  exact hone

/-- A process that waits is on both lists, and is terminated twice. -/
theorem killsOnce_fails : ∃ s : SchedState (Fin 1),
    (schedSystem fun _ => 0).Run [(.add 0, none)] s ∧
      (sysKillall (fun _ => [112#8]) [112#8] (fun _ => 1) s).1.freed = [0, 0] ∧
      ¬ KillsOnce (fun _ => [112#8]) [112#8] (inserted [(.add (0 : Fin 1), none)])
        (sysKillall (fun _ => [112#8]) [112#8] (fun _ => 1) s).1 := by
  have hrun : (schedSystem fun _ : Fin 1 => 0).Run ([] ++ [(.add 0, none)])
      (initScheduler.addProc (fun _ => 0) 0) := Run.step (Run.init rfl) rfl
  have hfreed : (sysKillall (fun _ => [112#8]) [112#8] (fun _ => 1)
      (initScheduler.addProc (fun _ : Fin 1 => 0) 0)).1.freed = [0, 0] := by
    decide +kernel
  refine ⟨_, hrun, hfreed, ?_⟩
  rintro ⟨-, honce⟩
  have := honce 0
  rw [hfreed] at this
  simp [inserted] at this

end OsSim
