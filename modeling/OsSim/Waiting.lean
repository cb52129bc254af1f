import OsSim.Lib.Line
import OsSim.Makespan

/-!
# How Long a Process Waits

While a process waits in its ready queue, CPUs hand the processes that are not more urgent back at
the end of their slices, and take one of them only from in front of it in its own queue. What such
processes still get is bounded then, and since no time slot is wasted meanwhile, so is the time
that it waits, but for the instructions of more urgent programs.

## How the argument goes

The queue of a level is a line: processes join it at its end, and leave it at its head, or where a
`killall` strikes them out (`line_step`). `Lib.Line` has what follows for a run: those that were
taken from in front of `p`, in the order in which they were, and those that are still there, are a
part of those that were there.

For the time, the instructions are counted that processes of a set can still be given. A CPU has
what is left of the slice of its process, a whole slice at most; a process in a queue has nothing
until it is taken. A step spends an instruction of that, or takes a process and gets a slice
(`budget_step`). For the set of the less urgent processes, none is taken while `p` waits, so what
the CPUs have at the start is all that they get. For the set of those that are not more urgent, the
ones that are taken are those in front of `p`. The rest of the time is spent on more urgent
programs, as no slot is wasted (`Makespan`).

A `killall` is one step here. In its steps, it could leave a process twice in the line for a while.

## Main results

* `line_step`: **the queue of a level is a line**, whatever the other threads do.
* `budget_step`: what the processes of a set are given, at most, until their slices end.
* `served_in_line`, `priority_inversion_le`, `waiting_time_le`: the bounds.
-/

namespace OsSim

open TransitionSystem

variable {cfg : SimConfig} {s s' : Sim cfg} {p : cfg.Proc}

/-! ### The line -/

/-- `p` waits in the ready queue of its priority. -/
def Sim.InLine (s : Sim cfg) (p : cfg.Proc) : Prop := p ∈ s.os.mlqReadyQueue (cfg.prio p)

instance (s : Sim cfg) (p : cfg.Proc) : Decidable (s.InLine p) :=
  inferInstanceAs (Decidable (_ ∈ _))

/-- The processes in front of `p`, from the head of its queue on. -/
def Sim.inFront (s : Sim cfg) (p : cfg.Proc) : List cfg.Proc :=
  Line.inFront (s.os.mlqReadyQueue (cfg.prio p)) p

/-- The process that a step of a CPU takes from the ready queues. -/
def Sim.taken (s : Sim cfg) : Thread cfg.numCpus × CStr → List cfg.Proc
  | (.cpu id, _) =>
      if (s.os.cpu id).label.gets then (getMlqProc s.os.mlqReadyQueue).1.toList else []
  | _ => []

/-- The interleavings from `s` on, while `p` waits. -/
def waitSystem (s : Sim cfg) (p : cfg.Proc) :
    TransitionSystem (Sim cfg) (Thread cfg.numCpus × CStr) :=
  ((simSystem cfg).startingAt s).restrict fun s _ => s.InLine p

/-- Only `get_proc` takes processes. -/
theorem Sim.taken_of_not_gets {id : Fin cfg.numCpus} (h : (s.os.cpu id).label.gets = false)
    (name : CStr) : s.taken (.cpu id, name) = [] := by
  simp [taken, h]

/-- Others join the line at its end, if anywhere. -/
theorem inFront_putMlqProc {q : Fin maxPrio → List cfg.Proc} (hp : p ∈ q (cfg.prio p))
    (prio : Fin maxPrio) (proc : cfg.Proc) :
    Line.inFront (putMlqProc q prio proc (cfg.prio p)) p = Line.inFront (q (cfg.prio p)) p := by
  rw [putMlqProc]
  by_cases heq : cfg.prio p = prio
  · subst heq
    rw [Function.update_self, enqueue]
    split
    · rfl
    · exact Line.inFront_join hp _
  · rw [Function.update_of_ne heq]

/-- The steps that change the locals only are no calls of `get_proc`. -/
theorem CpuGoto.not_gets {s : Os cfg.toOsConfig} {id : Fin cfg.numCpus} {x x' : Cpu cfg.Proc}
    (h : CpuGoto s id x x') : x.label.gets = false := by
  cases h <;> rfl

/-- A queue lists no process twice. -/
theorem ExecOk.count_le_one (h : ExecOk s) (prio : Fin maxPrio) (p : cfg.Proc) :
    (s.os.mlqReadyQueue prio).count p ≤ 1 := by
  have hsole := h.sole p
  have hle := Finset.single_le_sum (f := fun prio => (s.os.mlqReadyQueue prio).count p)
    (fun _ _ => Nat.zero_le _) (Finset.mem_univ prio)
  rw [Sim.places, Sim.queued] at hsole
  omega

/-- While `p` waits, `get_proc` takes a process that is not less urgent. -/
theorem prio_of_taken (hlevel : s.Leveled) (hp : s.InLine p) {t : Thread cfg.numCpus × CStr}
    {q : cfg.Proc} (hq : q ∈ s.taken t) : cfg.prio q ≤ cfg.prio p := by
  rcases getMlqProc_cases s.os.mlqReadyQueue with ⟨hnil, -⟩ | ⟨prio, r, rest, hhead, hempty, heq⟩
  · rw [Sim.InLine, hnil] at hp
    cases hp
  · have hle : prio ≤ cfg.prio p := by
      by_contra hlt
      rw [Sim.InLine, hempty _ (not_le.mp hlt)] at hp
      cases hp
    have hprio : cfg.prio r = prio := hlevel prio r (by simp [hhead])
    have hqr : q = r := by
      obtain ⟨t, name⟩ := t
      cases t with
      | cpu id =>
          rw [Sim.taken] at hq
          split at hq
          · simpa [heq] using hq
          · cases hq
      | ld | timer | main => cases hq
    rw [hqr, hprio]
    exact hle

/-- What `get_proc` makes of the line, where `p` is not the process that it takes. -/
theorem line_get (hlevel : s.Leveled) (hexec : ExecOk s) (hp : s.InLine p)
    (hp' : p ∈ (getMlqProc s.os.mlqReadyQueue).2 (cfg.prio p)) :
    (getMlqProc s.os.mlqReadyQueue).1.toList.filter (fun q => cfg.prio q = cfg.prio p) ++
      Line.inFront ((getMlqProc s.os.mlqReadyQueue).2 (cfg.prio p)) p = s.inFront p := by
  rcases getMlqProc_cases s.os.mlqReadyQueue with ⟨hnil, -⟩ | ⟨prio, q, rest, hhead, -, heq⟩
  · rw [Sim.InLine, hnil] at hp
    cases hp
  · have hprio : cfg.prio q = prio := hlevel prio q (by simp [hhead])
    rw [heq] at hp' ⊢
    by_cases hlevel' : prio = cfg.prio p
    · -- the head of the line, which is not `p`
      subst hlevel'
      have hcount := hexec.count_le_one (cfg.prio p) p
      simp only [Function.update_self] at hp' ⊢
      have hne : q ≠ p := by
        rintro rfl
        rw [hhead, List.count_cons_self] at hcount
        have hpos := List.count_pos_iff.mpr hp'
        omega
      rw [Sim.inFront, hhead, Line.inFront_leave hne]
      simp [hprio]
    · have hne : cfg.prio q ≠ cfg.prio p := hprio ▸ hlevel'
      simp [Sim.inFront, Function.update_of_ne (Ne.symm hlevel'), hne]

/-- **The queue of a level is a line**: a step takes its head, or leaves those in front of `p` as
they are, or a `killall` strikes some of them out. -/
theorem line_step (hlevel : s.Leveled) (hexec : ExecOk s) {t : Thread cfg.numCpus × CStr}
    (hst : simStep s t = some s') (hp : s.InLine p) (hp' : s'.InLine p) :
    (s.taken t).filter (fun q => cfg.prio q = cfg.prio p) ++ s'.inFront p = s.inFront p ∨
      s.taken t = [] ∧ (s'.inFront p).Sublist (s.inFront p) ∧ ¬ cfg.NoKillall := by
  obtain ⟨t, name⟩ := t
  have hsame (hnone : s.taken (t, name) = []) (hqueue : s'.inFront p = s.inFront p) :
      (s.taken (t, name)).filter (fun q => cfg.prio q = cfg.prio p) ++ s'.inFront p =
        s.inFront p := by
    rw [hnone]
    exact hqueue
  rcases simStep_cases hst with
    ⟨id, rfl, hcpu⟩ | ⟨rfl, os, hld, rfl⟩ | ⟨rfl, clock, -, rfl⟩ | ⟨rfl, rfl⟩
  · have hnone (hl : (s.os.cpu id).label.gets = false) : s.taken (.cpu id, name) = [] :=
      Sim.taken_of_not_gets hl name
    cases hcpu with
    | fetch proc t ins hx hfetched hins => exact Or.inl (hsame (hnone (by rw [hx]; rfl)) rfl)
    | ended proc t hx hfetched hpc => exact Or.inl (hsame (hnone (by rw [hx]; rfl)) rfl)
    | finish proc t hx hpc => exact Or.inl (hsame (hnone (by rw [hx]; rfl)) rfl)
    | exec proc t ins hx hins =>
        have htaken := hnone (by rw [hx]; rfl)
        by_cases hkill : ins.isKillall = true
        · have hno : ¬ cfg.NoKillall := fun hno => by simp [hexec.not_killall hno hins] at hkill
          refine Or.inr ⟨htaken, ?_, hno⟩
          rw [Sim.InLine, Sim.mlqReadyQueue_exec, if_pos hkill, List.mem_filter] at hp'
          rw [Sim.inFront, Sim.inFront, Sim.mlqReadyQueue_exec, if_pos hkill]
          exact Line.inFront_strike_sublist (p := fun q => decide (cfg.path q ≠ name)) hp'.2 _
        · refine Or.inl (hsame htaken ?_)
          rw [Sim.inFront, Sim.mlqReadyQueue_exec, if_neg hkill]
          rfl
    | other os hos hrun hend =>
        refine Or.inl ?_
        cases hos with
        | get x hx hlabel =>
            subst hx
            have hgets : (s.os.cpu id).label.gets = true := by
              rcases hlabel with hl | hl | hl <;> rw [hl] <;> rfl
            rw [Sim.taken, if_pos hgets]
            exact line_get hlevel hexec hp hp'
        | goto x x' hx hgo => exact hsame (hnone (hx ▸ hgo.not_gets)) rfl
        | putReady proc t hx => exact hsame (hnone (by rw [hx]; rfl)) (inFront_putMlqProc hp _ _)
        | run proc t hx => exact absurd (by rw [hx]) hrun
        | putRunning proc t hx | slotSet proc t hx | detach proc t hx =>
            exact hsame (hnone (by rw [hx]; rfl)) rfl
  · refine Or.inl ?_
    cases hld with
    | addReady hi hl => exact hsame rfl (inFront_putMlqProc hp _ _)
    | _ => exact hsame rfl rfl
  · exact Or.inl (hsame rfl rfl)
  · exact Or.inl (hsame rfl rfl)

/-! ### What the slices still give -/

/-- How many instructions a CPU can still execute of a process of `D` before its slice ends. -/
def Cpu.budget (timeSlot : ℤ) (D : cfg.Proc → Bool) (x : Cpu cfg.Proc) : ℕ :=
  match x.holds with
  | none => 0
  | some q =>
      if D q then
        (if x.label = .recheck ∧ x.timeLeft = 0 then timeSlot else x.timeLeft).toNat
      else 0

/-- How many instructions of processes of `D` have been executed. -/
def spent (D : cfg.Proc → Bool) (pc : cfg.Proc → ℕ) : ℕ := ∑ q with D q, pc q

variable {D : cfg.Proc → Bool} {id : Fin cfg.numCpus} {es es' : List (SliceEvent cfg.Proc)}

/-- A CPU without a process has nothing to give. -/
theorem Cpu.budget_of_holds_none {x : Cpu cfg.Proc} (h : x.holds = none) (timeSlot : ℤ) :
    x.budget timeSlot D = 0 := by
  rw [budget, h]

/-- A CPU has at most a whole slice to give. -/
theorem SliceAt.budget_le {pc : cfg.Proc → ℕ} {x : Cpu cfg.Proc}
    (h : SliceAt cfg.timeSlot cfg.codeSize pc es x) (hslot : 1 ≤ cfg.timeSlot) :
    x.budget cfg.timeSlot D ≤ cfg.timeSlot.toNat := by
  have hbounds := h.bounds hslot
  rw [Cpu.budget]
  split
  · exact Nat.zero_le _
  · split
    · split <;> omega
    · exact Nat.zero_le _

/-- An instruction of `q` is executed, which counts if `q` is in the set. -/
theorem spent_update (D : cfg.Proc → Bool) (pc : cfg.Proc → ℕ) (q : cfg.Proc) :
    spent D (Function.update pc q (pc q + 1)) = spent D pc + if D q then 1 else 0 := by
  rw [spent, spent, Finset.sum_filter, Finset.sum_filter]
  have hsum := sum_update_add (fun n : ℕ => n) (fun r => if D r then pc r else 0) q
    (if D q then pc q + 1 else 0)
  have hupdate : (fun r => if D r then Function.update pc q (pc q + 1) r else 0) =
      Function.update (fun r => if D r then pc r else 0) q (if D q then pc q + 1 else 0) := by
    funext r
    by_cases hr : r = q
    · subst hr
      simp
    · simp [hr]
  rw [hupdate]
  split_ifs at hsum ⊢ <;> omega

/-- **A step of a CPU spends what it has, or takes a process.** -/
theorem SimCpuStep.budget (hslot : 1 ≤ cfg.timeSlot)
    (hat : SliceAt cfg.timeSlot cfg.codeSize s.os.pc es (s.os.cpu id)) {name : CStr}
    (hat' : SliceAt cfg.timeSlot cfg.codeSize s'.os.pc es' (s'.os.cpu id))
    (h : SimCpuStep s id name s') :
    (s'.os.cpu id).budget cfg.timeSlot D + spent D s'.os.pc ≤
      (s.os.cpu id).budget cfg.timeSlot D + spent D s.os.pc +
        cfg.timeSlot.toNat * (s.taken (.cpu id, name)).countP D := by
  cases h with
  | fetch proc t ins hx hnone hins => exact Nat.le_add_right _ _
  | ended proc t hx hnone hpc =>
      -- a process is not run at its end
      rw [hx] at hat
      obtain ⟨pc₀, k, -, -, -, -, hlt⟩ := hat.run_inv
      rw [cfg.getElem?_eq_none_iff] at hpc
      exact absurd hlt (not_lt.mpr hpc)
  | exec proc t ins hx hins =>
      rw [hx] at hat
      obtain ⟨pc₀, k, -, ht, hk, -, -⟩ := hat.run_inv
      have hone : (t - 1).toNat + 1 = t.toNat := by omega
      simp only [Sim.pc_exec, spent_update, Sim.cpu_exec, Function.update_self, hx,
        Cpu.budget, Cpu.holds, reduceCtorEq, false_and, if_false]
      split_ifs <;> omega
  | finish proc t hx hpc =>
      rw [Cpu.budget_of_holds_none (by simp [Cpu.holds])]
      simp only [Os.pc_setCpu]
      omega
  | other os hst hrun hend =>
      cases hst with
      | get x hx hlabel =>
          subst hx
          have hgets : (s.os.cpu id).label.gets = true := by
            rcases hlabel with hl | hl | hl <;> rw [hl] <;> rfl
          have hle := hat'.budget_le (D := D) hslot
          rw [Os.cpu_setCpu_self] at hle ⊢
          simp only [Os.pc_setCpu, Sim.taken, hgets, if_true]
          cases hr : (getMlqProc s.os.mlqReadyQueue).1 with
          | none =>
              rw [Cpu.budget_of_holds_none (Cpu.holds_got _ _)]
              omega
          | some q =>
              rw [hr] at hle
              by_cases hD : D q = true
              · simp only [Option.toList_some, List.countP_singleton, hD, if_true]
                omega
              · have hzero : ((s.os.cpu id).got (some q)).budget cfg.timeSlot D = 0 := by
                  rw [Cpu.budget, Cpu.holds_got]
                  simp [hD]
                rw [hzero]
                omega
      | goto x x' hx hgo =>
          have hsame : x'.budget cfg.timeSlot D ≤ x.budget cfg.timeSlot D := by
            cases hgo with
            | finish proc t hpc => exact absurd hpc (hend proc t hx)
            | dispatch proc t =>
                simp only [Cpu.budget, Cpu.holds, reduceCtorEq, false_and, if_false, true_and]
                split_ifs <;> omega
            | resume proc t hpc ht => simp [Cpu.budget, Cpu.holds, ht]
            | _ => simp [Cpu.budget, Cpu.holds]
          rw [Os.cpu_setCpu_self, hx]
          simp only [Os.pc_setCpu]
          omega
      | run proc t hx => exact absurd (by rw [hx]) hrun
      | putReady proc t hx =>
          rw [Cpu.budget_of_holds_none (by simp [Cpu.holds])]
          simp only [Os.pc_setCpu]
          omega
      | putRunning proc t hx | slotSet proc t hx | detach proc t hx =>
          simp [hx, Cpu.budget, Cpu.holds]

/-- What all CPUs can still execute of the processes of `D`. -/
def Sim.budget (s : Sim cfg) (D : cfg.Proc → Bool) : ℕ :=
  ∑ id, (s.os.cpu id).budget cfg.timeSlot D

/-- Each CPU has a whole slice at most. -/
theorem Sim.budget_le (hslot : 1 ≤ cfg.timeSlot) (hsize : ∀ p, 1 ≤ cfg.codeSize p)
    {ts : List (Thread cfg.numCpus × CStr)} (hrun : (simSystem cfg).Run ts s)
    (D : cfg.Proc → Bool) : s.budget D ≤ cfg.numCpus * cfg.timeSlot.toNat := by
  have hle : s.budget D ≤ ∑ _id : Fin cfg.numCpus, cfg.timeSlot.toNat := by
    refine Finset.sum_le_sum fun id _ => ?_
    obtain ⟨es, hes⟩ := SliceInv.of_run hslot hsize hrun id
    exact hes.locals.budget_le hslot
  simpa using hle

/-- **A step spends what the CPUs have, or takes a process from a queue.** -/
theorem budget_step (hslot : 1 ≤ cfg.timeSlot) (hsize : ∀ p, 1 ≤ cfg.codeSize p)
    {ts : List (Thread cfg.numCpus × CStr)} (hrun : (simSystem cfg).Run ts s)
    {t : Thread cfg.numCpus × CStr} (hst : simStep s t = some s') :
    s'.budget D + spent D s'.os.pc ≤
      s.budget D + spent D s.os.pc + cfg.timeSlot.toNat * (s.taken t).countP D := by
  have hslices := SliceInv.of_run hslot hsize hrun
  have hslices' := SliceInv.of_run hslot hsize (hrun.step hst)
  obtain ⟨t, name⟩ := t
  rcases simStep_cases hst with
    ⟨id, rfl, hcpu⟩ | ⟨rfl, os, hld, rfl⟩ | ⟨rfl, clock, -, rfl⟩ | ⟨rfl, rfl⟩
  · obtain ⟨es, hes⟩ := hslices id
    obtain ⟨es', hes'⟩ := hslices' id
    have hone := hcpu.budget (D := D) hslot hes.locals hes'.locals
    have hsum := sum_update_add (Cpu.budget cfg.timeSlot D) s.os.cpu id (s'.os.cpu id)
    have hupdate : s'.os.cpu = Function.update s.os.cpu id (s'.os.cpu id) := by
      funext id'
      by_cases hid : id' = id
      · subst hid
        simp
      · rw [Function.update_of_ne hid, hcpu.frame.2.2.2 id' hid]
    rw [← hupdate] at hsum
    rw [Sim.budget, Sim.budget]
    omega
  · rw [Sim.budget, Sim.budget, hld.frame.1, hld.frame.2]
    exact Nat.le_add_right _ _
  · exact Nat.le_add_right _ _
  · exact Nat.le_add_right _ _

/-! ### While a process waits -/

/-- In every state, processes wait in the queues of their priorities. -/
theorem Sim.Leveled.of_run {ts : List (Thread cfg.numCpus × CStr)}
    (hrun : (simSystem cfg).Run ts s) : s.Leveled := by
  induction hrun with
  | init hs =>
      obtain rfl : _ = bootSim cfg := hs
      intro prio p hp
      cases hp
  | step hrun hst ih => exact (moves_of_simStep (ExecOk.of_run hrun).first hst).leveled ih

/-- What holds at the start of a wait and is kept by every step of it holds all through it. -/
theorem wait_invariant {β : Type*} {emit : Sim cfg → Thread cfg.numCpus × CStr → List β}
    {I : Sim cfg → List β → Prop} {ts₀ ts : List (Thread cfg.numCpus × CStr)} {s₀ s : Sim cfg}
    {es : List β} (hrun₀ : (simSystem cfg).Run ts₀ s₀) (hinit : I s₀ [])
    (hstep : ∀ {ts s es t s'}, (simSystem cfg).Run ts s → s.InLine p → I s es →
      simStep s t = some s' → I s' (es ++ emit s t))
    (hrun : ((waitSystem s₀ p).recording emit).Run ts (s, es)) : I s es := by
  have hinv : (∃ ts, (simSystem cfg).Run ts s) ∧ I s es := by
    refine hrun.invariant_recording (I := fun s es => (∃ ts, (simSystem cfg).Run ts s) ∧ I s es)
      ?_ ?_
    · intro s (hs : s = s₀)
      rw [hs]
      exact ⟨⟨ts₀, hrun₀⟩, hinit⟩
    · rintro s es t s' ⟨⟨ts, hrun⟩, hI⟩ ⟨hp, hst⟩
      exact ⟨⟨ts ++ [t], hrun.step hst⟩, hstep hrun hp hI hst⟩
  exact hinv.2

/-- **The processes of a level are served in line**: while `p` waits in its ready queue, whatever
the interleaving, with `killall` instructions as single steps, CPUs take no process that is less
urgent, and those of its level that they take are some of the processes in front of it, each once
and in their order; without a `killall` they are the first of them, and the others are still in
front. -/
theorem served_in_line {ts₀ ts : List (Thread cfg.numCpus × CStr)} {s₀ : Sim cfg}
    {es : List cfg.Proc} (hrun₀ : (simSystem cfg).Run ts₀ s₀)
    (hrun : ((waitSystem s₀ p).recording Sim.taken).Run ts (s, es)) (hp : s.InLine p) :
    (∀ q ∈ es, cfg.prio q ≤ cfg.prio p) ∧
      (es.filter (fun q => cfg.prio q = cfg.prio p) ++ s.inFront p).Sublist (s₀.inFront p) ∧
      (cfg.NoKillall →
        es.filter (fun q => cfg.prio q = cfg.prio p) ++ s.inFront p = s₀.inFront p) := by
  have hinv : (∀ q ∈ es, cfg.prio q ≤ cfg.prio p) ∧ (s.InLine p →
      (es.filter (fun q => cfg.prio q = cfg.prio p) ++ s.inFront p).Sublist (s₀.inFront p) ∧
      (cfg.NoKillall →
        es.filter (fun q => cfg.prio q = cfg.prio p) ++ s.inFront p = s₀.inFront p)) := by
    refine wait_invariant (I := fun s es => (∀ q ∈ es, cfg.prio q ≤ cfg.prio p) ∧ (s.InLine p →
      (es.filter (fun q => cfg.prio q = cfg.prio p) ++ s.inFront p).Sublist (s₀.inFront p) ∧
      (cfg.NoKillall →
        es.filter (fun q => cfg.prio q = cfg.prio p) ++ s.inFront p = s₀.inFront p)))
      hrun₀ ?_ ?_ hrun
    · exact ⟨by simp, fun _ => ⟨by simp, fun _ => by simp⟩⟩
    · intro ts s es t s' hrun hp ⟨hprio, hline⟩ hst
      obtain ⟨hsub, heq⟩ := hline hp
      have hlevel := Sim.Leveled.of_run hrun
      refine ⟨fun q hq => ?_, fun hp' => ?_⟩
      · rcases List.mem_append.mp hq with hq | hq
        · exact hprio q hq
        · exact prio_of_taken hlevel hp hq
      · rcases line_step hlevel (ExecOk.of_run hrun) hst hp hp' with hserved | ⟨hnone, hstruck, hno⟩
        · rw [List.filter_append, List.append_assoc, hserved]
          exact ⟨hsub, heq⟩
        · rw [hnone, List.append_nil]
          exact ⟨(hstruck.append_left _).trans hsub, fun h => absurd h hno⟩
  exact ⟨hinv.1, hinv.2 hp⟩

/-- The instructions executed of the processes of a set. -/
theorem ExecOk.spent_eq (h : ExecOk s) (P : cfg.Proc → Prop) [DecidablePred P] :
    spent (fun q => P q) s.os.pc = ∑ q with P q, (s.executed q).length := by
  refine Finset.sum_congr (by simp) fun q _ => ?_
  rw [h.executed, List.length_take, cfg.text_length, Nat.min_eq_left (h.pc_le q)]

/-- **Priority inversion is bounded**: for a time slot of at least 1 and programs of at least one
instruction, in every interleaving with their `killall` instructions, while a process waits in its
ready queue the less urgent processes execute at most `time_slot` instructions for each CPU, all
together. -/
theorem priority_inversion_le (hslot : 1 ≤ cfg.timeSlot) (hsize : ∀ p, 1 ≤ cfg.codeSize p)
    {ts₀ ts : List (Thread cfg.numCpus × CStr)} {s₀ : Sim cfg}
    (hrun₀ : (simSystem cfg).Run ts₀ s₀) (hrun : (waitSystem s₀ p).Run ts s) :
    ∑ q with cfg.prio p < cfg.prio q, (s.executed q).length ≤
      (∑ q with cfg.prio p < cfg.prio q, (s₀.executed q).length) +
        cfg.numCpus * cfg.timeSlot.toNat := by
  set D : cfg.Proc → Bool := fun q => cfg.prio p < cfg.prio q with hD
  obtain ⟨es, hes⟩ := hrun.recording Sim.taken
  have hinv : ExecOk s ∧ s.budget D + spent D s.os.pc ≤ s₀.budget D + spent D s₀.os.pc := by
    refine wait_invariant (I := fun s _ => ExecOk s ∧
      s.budget D + spent D s.os.pc ≤ s₀.budget D + spent D s₀.os.pc) hrun₀ ?_ ?_ hes
    · exact ⟨ExecOk.of_run hrun₀, le_rfl⟩
    · rintro ts s es t s' hrun hp ⟨-, hle⟩ hst
      have hstep := budget_step (D := D) hslot hsize hrun hst
      have hnone : (s.taken t).countP D = 0 := by
        rw [List.countP_eq_zero]
        intro q hq
        simpa [hD] using prio_of_taken (Sim.Leveled.of_run hrun) hp hq
      rw [hnone, Nat.mul_zero] at hstep
      exact ⟨ExecOk.of_run (hrun.step hst), by omega⟩
  have hbudget := Sim.budget_le hslot hsize hrun₀ D
  rw [← hinv.1.spent_eq, ← (ExecOk.of_run hrun₀).spent_eq]
  change spent D s.os.pc ≤ spent D s₀.os.pc + _
  omega

/-- **Waiting is bounded**: for a time slot of at least 1, at least one CPU, and at most
`MAX_QUEUE_SIZE` programs that have an instruction each and no `killall`, in every interleaving a
process waits in its ready queue at most one time slot, and then `time_slot` for every process in
front of it and every CPU, and one for every instruction that the more urgent programs had left. -/
theorem waiting_time_le (hplain : cfg.Plain) (hslot : 1 ≤ cfg.timeSlot)
    {ts₀ ts : List (Thread cfg.numCpus × CStr)} {s₀ : Sim cfg}
    (hrun₀ : (simSystem cfg).Run ts₀ s₀) (hrun : (waitSystem s₀ p).Run ts s) (hp : s.InLine p) :
    s.os.clock.time ≤ s₀.os.clock.time + 1 +
      cfg.timeSlot.toNat * ((s₀.inFront p).length + cfg.numCpus) +
        ∑ q with cfg.prio q < cfg.prio p, (cfg.codeSize q - s₀.os.pc q) := by
  set D : cfg.Proc → Bool := fun q => cfg.prio p ≤ cfg.prio q with hD
  obtain ⟨es, hes⟩ := hrun.recording Sim.taken
  have hinv : ExecOk s ∧ (s.InLine p →
      OnTime (s₀.os.clock.time + 1) s₀.os.executed s.os ∧
        s.budget D + spent D s.os.pc + cfg.timeSlot.toNat * (s.inFront p).length ≤
          s₀.budget D + spent D s₀.os.pc + cfg.timeSlot.toNat * (s₀.inFront p).length) := by
    refine wait_invariant (I := fun s _ => ExecOk s ∧ (s.InLine p →
      OnTime (s₀.os.clock.time + 1) s₀.os.executed s.os ∧
        s.budget D + spent D s.os.pc + cfg.timeSlot.toNat * (s.inFront p).length ≤
          s₀.budget D + spent D s₀.os.pc + cfg.timeSlot.toNat * (s₀.inFront p).length))
      hrun₀ ?_ ?_ hes
    · exact ⟨ExecOk.of_run hrun₀, fun _ => ⟨⟨by omega, fun heq => absurd heq (by omega)⟩, le_rfl⟩⟩
    · rintro ts s es t s' hrun hp ⟨hexec, hwait⟩ hst
      obtain ⟨htime, hle⟩ := hwait hp
      refine ⟨hexec.step hst, fun hp' => ⟨htime.step hplain hrun hst fun htick => ?_, ?_⟩⟩
      · -- `p` itself is in reach
        have hinv := OsInv.of_run hplain.cpus hplain.room hplain.noKillall (hrun.step hst)
        obtain ⟨⟨fsh, event, hl⟩, hcpus⟩ := cpus_of_tick (ThreadsOk.of_run hrun) hst htick
        exact avail_of_queued hplain.cpus hinv hl hcpus hp'
      · have hstep := budget_step (D := D) hslot hplain.codeSize hrun hst
        have hlevel := Sim.Leveled.of_run hrun
        have hserved := (line_step hlevel hexec hst hp hp').resolve_right
          fun hkill => hkill.2.2 hplain.noKillall
        have hcount : (s.taken t).countP D + (s'.inFront p).length = (s.inFront p).length := by
          rw [← hserved, List.length_append, List.countP_eq_length_filter]
          congr 2
          refine List.filter_congr fun q hq => ?_
          have hprio := prio_of_taken hlevel hp hq
          simp only [hD, decide_eq_decide]
          exact ⟨fun hge => le_antisymm hprio hge, fun heq => heq.ge⟩
        rw [← hcount, Nat.mul_add] at hle
        omega
  obtain ⟨htime, hle⟩ := hinv.2 hp
  have hsplit (os : Os cfg.toOsConfig) :
      os.executed = spent D os.pc + ∑ q with cfg.prio q < cfg.prio p, os.pc q := by
    have hsum := Finset.sum_filter_add_sum_filter_not Finset.univ (fun q => D q = true) os.pc
    simp only [hD, decide_eq_true_eq, not_le] at hsum
    simpa [hD, spent, Os.executed] using hsum.symm
  -- what the more urgent programs have executed since
  have hurgent : ∑ q with cfg.prio q < cfg.prio p, s.os.pc q ≤
      ∑ q with cfg.prio q < cfg.prio p, s₀.os.pc q +
        ∑ q with cfg.prio q < cfg.prio p, (cfg.codeSize q - s₀.os.pc q) := by
    rw [← Finset.sum_add_distrib]
    refine Finset.sum_le_sum fun q _ => ?_
    have := hinv.1.pc_le q
    omega
  have hbudget := Sim.budget_le hslot hplain.codeSize hrun₀ D
  have hsum := hsplit s.os
  have hsum₀ := hsplit s₀.os
  have hon := htime.1
  rw [Nat.mul_add, Nat.mul_comm _ cfg.numCpus]
  omega

/-! ### Two levels -/

/-- One CPU, slices of two calls, and three programs, of which the first is less urgent. -/
def twoLevels : SimConfig where
  numCpus := 1
  timeSlot := 2
  numProcesses := 3
  startTime _ := 0
  prio p := if (p : ℕ) = 0 then 2 else 1
  codeSize _ := 3
  path _ := [112#8]
  text _ := List.replicate 3 { opcode := .calc }
  text_length _ := rfl

/-- They meet the conditions. -/
theorem plain_twoLevels : twoLevels.Plain where
  cpus := Nat.one_pos
  room := by decide
  noKillall := by
    intro p ins hins
    rw [List.eq_of_mem_replicate hins]
    rfl
  codeSize := by decide

/-- Its processes, in the order of the configuration. -/
def twoLevelsProc (i : Fin 3) : twoLevels.Proc := i

/-- Its CPU, which takes all the steps below. -/
def twoLevelsCpu : Thread twoLevels.numCpus := .cpu ⟨0, Nat.one_pos⟩

/-- Four steps of the CPU. -/
def fourSteps : List (Thread twoLevels.numCpus × CStr) := List.replicate 4 (twoLevelsCpu, [])

/-- The first program is run once, and the second is added. -/
def secondAdded : List (Thread twoLevels.numCpus × CStr) :=
  slotOf twoLevelsCpu 5 6 1 ++ List.replicate 4 (Thread.ld, [])

/-- The first program is run for the second time, while the second one waits. -/
theorem priority_inversion_le_twoLevels : ∃ s₀ s : Sim twoLevels,
    (s₀.executed (twoLevelsProc 0)).length = 1 ∧ (s.executed (twoLevelsProc 0)).length = 2 ∧
      ∑ q with twoLevels.prio (twoLevelsProc 1) < twoLevels.prio q, (s.executed q).length ≤
        ∑ q with twoLevels.prio (twoLevelsProc 1) < twoLevels.prio q, (s₀.executed q).length +
          1 * 2 := by
  have hstate : (secondAdded.foldlM simStep (bootSim twoLevels)).bind (fun s₀ =>
      (fourSteps.foldlM (fun (s : Sim twoLevels) t =>
        if s.InLine (twoLevelsProc 1) then simStep s t else none) s₀).map fun s =>
          ((s₀.executed (twoLevelsProc 0)).length, (s.executed (twoLevelsProc 0)).length)) =
      some (1, 2) := by
    decide +kernel
  obtain ⟨s₀, hs₀, hstate⟩ := Option.bind_eq_some_iff.mp hstate
  obtain ⟨s, hs, hlengths⟩ := Option.map_eq_some_iff.mp hstate
  have hrun₀ : (simSystem twoLevels).Run secondAdded s₀ := Run.of_foldlM (fun _ _ _ h => h) rfl hs₀
  have hrun : (waitSystem s₀ (twoLevelsProc 1)).Run fourSteps s :=
    Run.of_foldlM_restrict (fun _ _ _ h => h) rfl hs
  exact ⟨s₀, s, congrArg Prod.fst hlengths, congrArg Prod.snd hlengths,
    priority_inversion_le (by decide) (by decide) hrun₀ hrun⟩

/-- The third program is added. -/
def thirdAdded : List (Thread twoLevels.numCpus × CStr) :=
  slotOf twoLevelsCpu 5 6 1 ++ slotOf twoLevelsCpu 5 5 1 ++ List.replicate 4 (Thread.ld, [])

/-- The slice of the first program ends, and the second one is taken, which is in front of the
third. -/
theorem thirdWaits : ∃ s₀ s : Sim twoLevels, (simSystem twoLevels).Run thirdAdded s₀ ∧
    (waitSystem s₀ (twoLevelsProc 2)).Run fourSteps s ∧
      s₀.inFront (twoLevelsProc 2) = [twoLevelsProc 1] ∧ s.InLine (twoLevelsProc 2) := by
  have hstate : (thirdAdded.foldlM simStep (bootSim twoLevels)).bind (fun s₀ =>
      (fourSteps.foldlM (fun (s : Sim twoLevels) t =>
        if s.InLine (twoLevelsProc 2) then simStep s t else none) s₀).map fun s =>
          (s₀.inFront (twoLevelsProc 2), decide (s.InLine (twoLevelsProc 2)))) =
      some ([twoLevelsProc 1], true) := by
    decide +kernel
  obtain ⟨s₀, hs₀, hstate⟩ := Option.bind_eq_some_iff.mp hstate
  obtain ⟨s, hs, hline⟩ := Option.map_eq_some_iff.mp hstate
  exact ⟨s₀, s, Run.of_foldlM (fun _ _ _ h => h) rfl hs₀,
    Run.of_foldlM_restrict (fun _ _ _ h => h) rfl hs, congrArg Prod.fst hline,
    of_decide_eq_true (congrArg Prod.snd hline)⟩

/-- The second program is taken, which was in front of the third. -/
theorem served_in_line_twoLevels : ∃ (s₀ s : Sim twoLevels) (es : List twoLevels.Proc),
    ((waitSystem s₀ (twoLevelsProc 2)).recording Sim.taken).Run
        fourSteps (s, es) ∧
      es.filter (fun q => twoLevels.prio q = twoLevels.prio (twoLevelsProc 2)) ++
        s.inFront (twoLevelsProc 2) = [twoLevelsProc 1] := by
  obtain ⟨s₀, s, hrun₀, hrun, hfront, hp⟩ := thirdWaits
  obtain ⟨es, hes⟩ := hrun.recording Sim.taken
  have hline := (served_in_line hrun₀ hes hp).2.2 plain_twoLevels.noKillall
  exact ⟨s₀, s, es, hes, hline.trans hfront⟩

/-- The third program has waited no longer than the bound. -/
theorem waiting_time_le_twoLevels : ∃ s₀ s : Sim twoLevels,
    (waitSystem s₀ (twoLevelsProc 2)).Run fourSteps s ∧
      s.os.clock.time ≤ s₀.os.clock.time + 1 + 2 * (1 + 1) +
        ∑ q with twoLevels.prio q < twoLevels.prio (twoLevelsProc 2), (3 - s₀.os.pc q) := by
  obtain ⟨s₀, s, hrun₀, hrun, hfront, hp⟩ := thirdWaits
  have hle := waiting_time_le plain_twoLevels (by decide) hrun₀ hrun hp
  rw [hfront] at hle
  exact ⟨s₀, s, hrun, hle⟩

end OsSim
