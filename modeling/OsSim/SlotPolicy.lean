import OsSim.Mlq

/-!
# The Slot Policy

`init_scheduler` gives level `prio` a budget of `MAX_PRIO - prio` slots, but `get_mlq_proc` keeps
no count of the slots used: it always takes from the first level that is not empty. A level is
therefore held to its budget only where the calls happen to be so.

The policy that the comment promises is stated on the calls: within any calls from the start, no
more than `slot[p]` consecutive `get_proc` calls take from level `p` while a process waits on a
level below. Since `get_proc` takes from level `p` exactly when that level is the first with a
process (`takesFrom_iff`), the policy holds where, among any more calls than that, there is one
before which the level is empty, or a level above is not, or nothing waits below
(`SchedState.Interrupted`). These are facts about the sizes of the queues before a call, which the
callers decide by what they add and put back; the scheduler does nothing to bring them about.

Two processes on two levels are enough to break it: the more urgent one is taken and put back for
ever, and the other waits (`not_slotPolicy_rounds`).

## Main results

* `takesFrom_iff`: `get_proc` takes from the first level that is not empty.
* `slotPolicy_iff`: **when the calls keep within the slots of a level**.
* `not_slotPolicy_rounds`: two processes on two levels are enough to exceed them.
-/

namespace OsSim

open TransitionSystem

variable {α : Type} {prio : α → Fin maxPrio}

/-! ### The policy -/

/-- The state after calls, first to last, from a given one. -/
def SchedState.exec (prio : α → Fin maxPrio) (s : SchedState α) (ops : List (SchedOp α)) :
    SchedState α :=
  ops.foldl (fun s op => (schedStep prio s op).2) s

/-- The number of `get_proc` calls among some calls, which the policy would count. -/
def gets (ops : List (SchedOp α)) : ℕ := ops.countP fun
  | .get => true
  | _ => false

/-- `get_proc` takes its process from level `p`: there is one, and its priority is `p`. -/
def SchedState.TakesFrom (prio : α → Fin maxPrio) (p : Fin maxPrio) (s : SchedState α) : Prop :=
  ∃ proc, s.getProc.1 = some proc ∧ prio proc = p

/-- A process waits on a level below `p`, that is on a less urgent one. -/
def SchedState.WaitsBelow (p : Fin maxPrio) (s : SchedState α) : Prop :=
  ∃ k, p < k ∧ (s.mlqReadyQueue k).size ≠ 0

/-- Within the calls `ops` from the start, no more than `slot[p]` consecutive `get_proc` calls
take from level `p` while a process waits on a level below. -/
def SlotPolicy (prio : α → Fin maxPrio) (p : Fin maxPrio) (ops : List (SchedOp α)) : Prop :=
  ∀ before run after, ops = before ++ run ++ after →
    (∀ pre post, run = pre ++ .get :: post →
      (initScheduler.exec prio (before ++ pre)).TakesFrom prio p ∧
        (initScheduler.exec prio (before ++ pre)).WaitsBelow p) →
    gets run ≤ (initScheduler.exec prio before).slot p

/-- Level `p` is empty, or a level above is not, or all levels below are. -/
def SchedState.Interrupted (p : Fin maxPrio) (s : SchedState α) : Prop :=
  (s.mlqReadyQueue p).size = 0 ∨ (∃ j, j < p ∧ (s.mlqReadyQueue j).size ≠ 0) ∨
    ∀ k, p < k → (s.mlqReadyQueue k).size = 0

/-! ### What the calls take -/

/-- Every process is on the level of its priority. -/
def SchedState.Leveled (prio : α → Fin maxPrio) (s : SchedState α) : Prop :=
  ∃ q l, s.Holds q l ∧ ∀ k, ∀ proc ∈ q k, prio proc = k

/-- A call inserts a process on the level of its priority only. -/
theorem leveled_schedStep {s : SchedState α} (h : s.Leveled prio) (op : SchedOp α) :
    (schedStep prio s op).2.Leveled prio := by
  obtain ⟨q, l, hq, hlevel⟩ := h
  have hput (proc : α) : (s.putProc prio proc).Leveled prio := by
    refine ⟨_, _, hq.putProc prio proc, ?_⟩
    intro k x hx
    rcases of_mem_putMlqProc hx with hin | ⟨rfl, rfl⟩
    · exact hlevel k x hin
    · rfl
  cases op with
  | add proc => exact hput proc
  | put proc => exact hput proc
  | get => exact ⟨_, l, hq.getMlqProc.2, fun k x hx => hlevel k x (of_mem_getMlqProc hx)⟩

/-- And so do any calls in turn. -/
theorem leveled_exec {s : SchedState α} (h : s.Leveled prio) (ops : List (SchedOp α)) :
    (s.exec prio ops).Leveled prio := by
  induction ops generalizing s with
  | nil => exact h
  | cons op ops ih => exact ih (leveled_schedStep h op)

/-- At the start the levels are empty. -/
theorem leveled_initScheduler : (initScheduler : SchedState α).Leveled prio :=
  ⟨fun _ => [], [], SchedState.Holds.init, fun _ _ h => absurd h List.not_mem_nil⟩

/-- **`get_proc` takes from the first level that is not empty**, and its process is one of that
level. -/
theorem takesFrom_iff {s : SchedState α} (h : s.Leveled prio) (p : Fin maxPrio) :
    s.TakesFrom prio p ↔
      (s.mlqReadyQueue p).size ≠ 0 ∧ ∀ j, j < p → (s.mlqReadyQueue j).size = 0 := by
  obtain ⟨q, l, hq, hlevel⟩ := h
  have hsize (k : Fin maxPrio) : (s.mlqReadyQueue k).size = 0 ↔ q k = [] := by
    rw [(hq.mlq k).size_eq, List.length_eq_zero_iff]
  simp only [SchedState.TakesFrom, SchedState.getProc, hq.getMlqProc.1, ne_eq, hsize]
  rcases getMlqProc_cases q with ⟨hnil, heq⟩ | ⟨k, proc, rest, hhead, hless, heq⟩
  · simp [heq, hnil]
  · have hprio : prio proc = k := hlevel k proc (hhead ▸ List.mem_cons_self)
    rw [heq]
    constructor
    · rintro ⟨proc', hproc', rfl⟩
      obtain rfl : proc = proc' := Option.some.inj hproc'
      rw [hprio]
      exact ⟨by simp [hhead], hless⟩
    · rintro ⟨hp, hlessp⟩
      refine ⟨proc, rfl, hprio.trans ?_⟩
      -- both levels are the first that is not empty
      rcases lt_trichotomy k p with hlt | heq' | hlt
      · simp [hlessp k hlt] at hhead
      · exact heq'
      · exact absurd (hless p hlt) hp

/-- A call keeps taking from level `p` with a process waiting below unless it is interrupted. -/
theorem not_interrupted_iff {s : SchedState α} (h : s.Leveled prio) (p : Fin maxPrio) :
    ¬ s.Interrupted p ↔ s.TakesFrom prio p ∧ s.WaitsBelow p := by
  rw [takesFrom_iff h, SchedState.Interrupted, SchedState.WaitsBelow]
  push Not
  rw [and_assoc]

/-- **When the calls keep within the slots of a level.** The policy holds of level `p` exactly
when among any more than `slot[p]` consecutive `get_proc` calls there is one before which level
`p` is empty, or a level above is not, or all levels below are. -/
theorem slotPolicy_iff (prio : α → Fin maxPrio) (p : Fin maxPrio) (ops : List (SchedOp α)) :
    SlotPolicy prio p ops ↔
      ∀ before run after, ops = before ++ run ++ after →
        (initScheduler.exec prio before).slot p < gets run →
        ∃ pre post, run = pre ++ .get :: post ∧
          (initScheduler.exec prio (before ++ pre)).Interrupted p := by
  have hlevel (ops : List (SchedOp α)) : (initScheduler.exec prio ops).Leveled prio :=
    leveled_exec leveled_initScheduler ops
  constructor
  · intro hpolicy before run after hops hlong
    by_contra hnone
    refine absurd (hpolicy before run after hops ?_) (not_le.mpr hlong)
    intro pre post hrun
    exact (not_interrupted_iff (hlevel _) p).mp fun hint => hnone ⟨pre, post, hrun, hint⟩
  · intro hcond before run after hops htakes
    by_contra hlong
    obtain ⟨pre, post, hrun, hint⟩ := hcond before run after hops (not_le.mp hlong)
    exact (not_interrupted_iff (hlevel _) p).mpr (htakes pre post hrun) hint

/-! ### Exceeding the slots -/

/-- No call changes the budgets: nothing but `init_scheduler` writes `slot`. -/
theorem slot_schedStep (s : SchedState α) (op : SchedOp α) :
    (schedStep prio s op).2.slot = s.slot := by
  cases op with
  | add proc => rfl
  | put proc => rfl
  | get =>
      have hloop (prios : List (Fin maxPrio)) : (s.getMlqLoop prios).2.slot = s.slot := by
        induction prios with
        | nil => rfl
        | cons k prios ih =>
            rw [SchedState.getMlqLoop]
            split
            · exact ih
            · rfl
      exact hloop _

/-- The budgets stay what `init_scheduler` made them. -/
theorem slot_exec (s : SchedState α) (ops : List (SchedOp α)) :
    (s.exec prio ops).slot = s.slot := by
  induction ops generalizing s with
  | nil => rfl
  | cons op ops ih => exact (ih _).trans (slot_schedStep s op)

/-- Some calls, and then others. -/
theorem exec_append (s : SchedState α) (ops ops' : List (SchedOp α)) :
    s.exec prio (ops ++ ops') = (s.exec prio ops).exec prio ops' := List.foldl_append

/-- `n` times taking a process and putting `a` back, as a CPU does slice after slice. -/
def rounds (a : α) (n : ℕ) : List (SchedOp α) := (List.replicate n [.get, .put a]).flatten

/-- One round, and then the others. -/
theorem rounds_succ (a : α) (n : ℕ) : rounds a (n + 1) = .get :: .put a :: rounds a n := rfl

/-- Each round has one `get_proc`. -/
theorem gets_rounds (a : α) (n : ℕ) : gets (rounds a n) = n := by
  induction n with
  | zero => rfl
  | succ n ih =>
      rw [gets] at ih
      rw [rounds_succ, gets, List.countP_cons, List.countP_cons, ih]
      simp

/-- `a` and `b` wait, alone, on their levels. -/
def SchedState.TwoWait (prio : α → Fin maxPrio) (a b : α) (s : SchedState α) : Prop :=
  ∃ l, s.Holds (Function.update (Function.update (fun _ => []) (prio b) [b]) (prio a) [a]) l

/-- Taking `a`, the more urgent, and putting it back leaves both waiting as before. -/
theorem twoWait_round {a b : α} (hlt : prio a < prio b) {s : SchedState α}
    (h : s.TwoWait prio a b) : (s.exec prio [.get, .put a]).TwoWait prio a b := by
  obtain ⟨l, hq⟩ := h
  set q := Function.update (Function.update (fun _ => []) (prio b) [b]) (prio a) [a]
  have hget : OsSim.getMlqProc q = (some a, Function.update q (prio a) []) := by
    rcases getMlqProc_cases q with ⟨hnil, -⟩ | ⟨k, proc, rest, hhead, hless, heq⟩
    · simpa [q] using hnil (prio a)
    · -- the first level that is not empty is that of `a`
      have hk : k = prio a := by
        by_contra hk
        have hkb : k = prio b := by
          by_contra hkb
          simp [q, hk, hkb] at hhead
        simpa [q] using hless (prio a) (hkb ▸ hlt)
      subst hk
      obtain ⟨rfl, rfl⟩ : a = proc ∧ [] = rest := by simpa [q] using hhead
      exact heq
  have htaken := hq.getMlqProc.2
  rw [hget] at htaken
  -- level `prio a` is empty between the two calls
  have hput := htaken.putProc prio a
  have hback : OsSim.putMlqProc (Function.update q (prio a) []) (prio a) a = q := by
    simp [q, OsSim.putMlqProc, OsSim.enqueue]
  rw [hback] at hput
  exact ⟨_, hput⟩

/-- At every `get_proc` of the rounds both wait. -/
theorem twoWait_of_rounds {a b : α} (hlt : prio a < prio b) (n : ℕ) {s : SchedState α}
    (h : s.TwoWait prio a b) {pre post : List (SchedOp α)}
    (hsplit : rounds a n = pre ++ .get :: post) : (s.exec prio pre).TwoWait prio a b := by
  induction n generalizing s pre with
  | zero => simp [rounds] at hsplit
  | succ n ih =>
      rw [rounds_succ] at hsplit
      rcases pre with _ | ⟨op, pre⟩
      · exact h
      · rw [List.cons_append, List.cons.injEq] at hsplit
        obtain ⟨rfl, hsplit⟩ := hsplit
        rcases pre with _ | ⟨op, pre⟩
        · simp at hsplit
        · rw [List.cons_append, List.cons.injEq] at hsplit
          obtain ⟨rfl, hsplit⟩ := hsplit
          exact ih (twoWait_round hlt h) hsplit

/-- **Two processes on two levels are enough**: the more urgent one is taken as often as it is put
back, and the other waits. So the budget of its level is exceeded by one round more. -/
theorem not_slotPolicy_rounds {a b : α} (hlt : prio a < prio b) {n : ℕ}
    (hn : maxPrio - (prio a : ℕ) < n) :
    ¬ SlotPolicy prio (prio a) (.add b :: .add a :: rounds a n) := by
  have hwait : (initScheduler.exec prio [.add b, .add a]).TwoWait prio a b := by
    have hadd := (SchedState.Holds.init.putProc prio b).putProc prio a
    rw [OsSim.putMlqProc, OsSim.putMlqProc, Function.update_of_ne hlt.ne] at hadd
    exact ⟨_, hadd⟩
  intro hpolicy
  have hle := hpolicy [.add b, .add a] (rounds a n) [] (by simp) ?_
  · rw [slot_exec, gets_rounds] at hle
    exact absurd hle (not_le.mpr hn)
  · intro pre post hsplit
    have hpre := twoWait_of_rounds hlt n hwait hsplit
    rw [exec_append]
    refine (not_interrupted_iff (leveled_exec (leveled_exec leveled_initScheduler _) _) _).mp ?_
    obtain ⟨l, hq⟩ := hpre
    rintro (hzero | ⟨j, hj, hne⟩ | hzero)
    · rw [(hq.mlq _).size_eq] at hzero
      simp at hzero
    · rw [(hq.mlq _).size_eq, Function.update_of_ne hj.ne,
        Function.update_of_ne (hj.trans hlt).ne] at hne
      simp at hne
    · have hb := hzero (prio b) hlt
      rw [(hq.mlq _).size_eq, Function.update_of_ne hlt.ne'] at hb
      simp at hb

/-- The level with two slots: a third process is taken from it. -/
theorem slotPolicy_fails : ¬ SlotPolicy (id : Fin maxPrio → Fin maxPrio) 138
    [.add 139, .add 138, .get, .put 138, .get, .put 138, .get, .put 138] := by
  have hlt : (id 138 : Fin maxPrio) < id 139 := by decide
  have hslots : maxPrio - ((id 138 : Fin maxPrio) : ℕ) < 3 := by decide
  exact not_slotPolicy_rounds hlt hslots

end OsSim
