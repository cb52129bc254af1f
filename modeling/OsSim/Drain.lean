import OsSim.Os
import Mathlib.Data.Fintype.Card

/-!
# No CPU Abandons Work

A CPU leaves its loop when it has found the queues empty and then reads `done`, which the
loader sets one time slot after it has added its last process. The barrier rules out that a
process is added between the two: when the loader continues from its last `next_slot`, every
CPU is in `next_slot` too, and looks into the queues again afterwards.

The argument has two halves. The first is that no process gets lost: each is with the loader, in its
ready queue, in the hands of one CPU, or at the end of its program, and in one of these only
(`Located`). With no more processes than a queue has room for, an insertion always finds room, since
the process that is inserted is not in the queue.

The second is about the end. From the moment on at which the loader has come back from its last
`next_slot` (`Late`), processes come into the queues only from CPUs. A CPU that has found the queues
empty and not looked again is `Drained`; if all of them are, the queues are empty (`Quiet`). A step
of a CPU keeps this, because the last CPU to become drained has just seen all queues empty. The step
of the timer that lets the loader continue is where the barrier is needed: at that moment every CPU
is in `next_slot`, as none can be gone before `done` is set, and such a CPU is not drained.

## Main results

* `Located.cpuStep`, `Located.ldStep`: every process stays in one place.
* `Quiet.cpuStep`, `Quiet.ldStep`, `Quiet.timerStep`: once the loader is through, CPUs that have
  all found nothing have left nothing.
* `cpus_leave_nothing`: **no CPU abandons work**.
-/

namespace OsSim

open TransitionSystem

variable {cfg : OsConfig}

/-! ### Where the processes are -/

/-- Where a process is: not added yet, in its ready queue, in the hands of a CPU, or at the
end of its program. -/
inductive Place (numCpus : ℕ) where
  | loader
  | queue
  | cpu (id : Fin numCpus)
  | finished

/-- Every process is in its place, and in no other: with the loader, in the queue of its priority,
with a CPU, or at its end. -/
structure Located (s : Os cfg) (place : cfg.Proc → Place cfg.numCpus) : Prop where
  loader : ∀ p : cfg.Proc, place p = .loader ↔ s.i ≤ p
  queue : ∀ prio p, p ∈ s.mlqReadyQueue prio ↔ place p = .queue ∧ cfg.prio p = prio
  cpu : ∀ id p, (s.cpu id).holds = some p ↔ place p = .cpu id
  finished : ∀ p, place p = .finished → s.pc p = cfg.codeSize p
  nodup : ∀ prio, (s.mlqReadyQueue prio).Nodup

namespace Located

variable {s s' : Os cfg} {place : cfg.Proc → Place cfg.numCpus}

/-- While a process is elsewhere, no queue is full: all the others together are too few. -/
theorem room (h : Located s place) (hsize : cfg.numProcesses ≤ maxQueueSize) {p : cfg.Proc}
    (hp : place p ≠ .queue) (prio : Fin maxPrio) :
    (s.mlqReadyQueue prio).length < maxQueueSize := by
  have hnot : p ∉ s.mlqReadyQueue prio := fun hmem => hp ((h.queue prio p).mp hmem).1
  have hcard := (List.nodup_cons.mpr ⟨hnot, h.nodup prio⟩).length_le_card
  rw [List.length_cons, Fintype.card_fin] at hcard
  omega

/-- A step that moves no process keeps them all in their places. -/
theorem congr (h : Located s place) (hi : s'.i = s.i)
    (hqueue : s'.mlqReadyQueue = s.mlqReadyQueue)
    (hcpu : ∀ id, (s'.cpu id).holds = (s.cpu id).holds)
    (hpc : ∀ p, place p = .finished → s'.pc p = s.pc p) : Located s' place where
  loader p := by rw [hi, h.loader]
  queue prio p := by rw [hqueue, h.queue]
  cpu id p := by rw [hcpu, h.cpu]
  finished p hp := (hpc p hp).trans (h.finished p hp)
  nodup prio := hqueue ▸ h.nodup prio

/-- A step that moves process `p` to place `b`, and leaves the others where they are. -/
theorem transfer (h : Located s place) (p : cfg.Proc) (b : Place cfg.numCpus)
    (hi : ∀ q, q ≠ p → (s'.i ≤ q ↔ s.i ≤ q)) (hip : b = .loader ↔ s'.i ≤ p)
    (hqueue : ∀ prio q, q ≠ p → (q ∈ s'.mlqReadyQueue prio ↔ q ∈ s.mlqReadyQueue prio))
    (hqueuep : ∀ prio, p ∈ s'.mlqReadyQueue prio ↔ b = .queue ∧ cfg.prio p = prio)
    (hcpu : ∀ id q, q ≠ p → ((s'.cpu id).holds = some q ↔ (s.cpu id).holds = some q))
    (hcpup : ∀ id, (s'.cpu id).holds = some p ↔ b = .cpu id)
    (hpc : s'.pc = s.pc) (hfin : b = .finished → s.pc p = cfg.codeSize p)
    (hnodup : ∀ prio, (s'.mlqReadyQueue prio).Nodup) :
    Located s' (Function.update place p b) := by
  refine ⟨fun q => ?_, fun prio q => ?_, fun id q => ?_, fun q hq => ?_, hnodup⟩ <;>
    by_cases hqp : q = p
  · subst hqp
    rw [Function.update_self, hip]
  · rw [Function.update_of_ne hqp, hi q hqp, h.loader]
  · subst hqp
    rw [Function.update_self, hqueuep]
  · rw [Function.update_of_ne hqp, hqueue prio q hqp, h.queue]
  · subst hqp
    rw [Function.update_self, hcpup]
  · rw [Function.update_of_ne hqp, hcpu id q hqp, h.cpu]
  · subst hqp
    rw [Function.update_self] at hq
    rw [hpc]
    exact hfin hq
  · rw [Function.update_of_ne hqp] at hq
    rw [hpc]
    exact h.finished q hq

end Located

/-! ### What a CPU's locals say -/

/-- The locals of a CPU at some labels, and what its flags say about its label. -/
structure CpuOk (s : Os cfg) (id : Fin cfg.numCpus) : Prop where
  first : (s.cpu id).label = .getFirst → (s.cpu id).proc = none
  left : (s.cpu id).label = .detach ∨ (s.cpu id).label = .exited →
    (s.cpu id).proc = none ∧ s.done = true
  flag : (s.clock.dev (.cpu id)).done = true → (s.cpu id).label = .slotWait
  fsh : (s.clock.dev (.cpu id)).fsh = true → (s.cpu id).label = .exited

/-- The CPU about to call `get_proc` has no process in hand. -/
theorem CpuOk.holds_eq_none {s : Os cfg} {id : Fin cfg.numCpus} (h : CpuOk s id)
    (hlabel : (s.cpu id).label = .getFirst ∨ (s.cpu id).label = .getFinished ∨
      (s.cpu id).label = .getPut) : (s.cpu id).holds = none := by
  rcases hlabel with hl | hl | hl
  · rw [Cpu.holds, hl]
    exact h.first hl
  · rw [Cpu.holds, hl]
  · rw [Cpu.holds, hl]

namespace Located

variable {s s' : Os cfg} {place : cfg.Proc → Place cfg.numCpus} {id : Fin cfg.numCpus}

/-- A change of CPU `id` that is none for process `q` is none in any CPU. -/
theorem holds_setCpu_iff {x' : Cpu cfg.Proc} {q : cfg.Proc}
    (hsame : x'.holds = some q ↔ (s.cpu id).holds = some q) (id' : Fin cfg.numCpus) :
    ((s.setCpu id x').cpu id').holds = some q ↔ (s.cpu id').holds = some q := by
  by_cases hid : id' = id
  · subst hid
    rw [Os.cpu_setCpu_self, hsame]
  · rw [Os.cpu_setCpu_of_ne _ _ _ hid]

/-- CPU `id` changes its locals, and has in hand what it had. -/
theorem setCpu (h : Located s place) {x' : Cpu cfg.Proc}
    (hholds : x'.holds = (s.cpu id).holds) : Located (s.setCpu id x') place := by
  refine h.congr rfl rfl ?_ fun _ _ => rfl
  intro id'
  by_cases hid : id' = id
  · subst hid
    rw [Os.cpu_setCpu_self, hholds]
  · rw [Os.cpu_setCpu_of_ne _ _ _ hid]

/-- CPU `id` lets its process go, which is in place `b` then. -/
theorem letGo (h : Located s place) {p : cfg.Proc} (hp : place p = .cpu id)
    {x' : Cpu cfg.Proc} (hholds : x'.holds = none) {q' : Fin maxPrio → List cfg.Proc}
    {b : Place cfg.numCpus} (hb : b ≠ .loader) (hcpu : ∀ id, b ≠ .cpu id)
    (hqueue : ∀ prio q, q ≠ p → (q ∈ q' prio ↔ q ∈ s.mlqReadyQueue prio))
    (hqueuep : ∀ prio, p ∈ q' prio ↔ b = .queue ∧ cfg.prio p = prio)
    (hfin : b = .finished → s.pc p = cfg.codeSize p) (hnodup : ∀ prio, (q' prio).Nodup) :
    Located ({ s with mlqReadyQueue := q' }.setCpu id x') (Function.update place p b) := by
  have hheld : (s.cpu id).holds = some p := (h.cpu id p).mpr hp
  have hloaded : ¬ s.i ≤ p := fun hle => by simp [(h.loader p).mpr hle] at hp
  refine h.transfer p b (fun _ _ => Iff.rfl) ⟨fun hl => absurd hl hb, fun hle => absurd hle hloaded⟩
    hqueue hqueuep (fun id' q hq => ?_)
    (fun id' => ⟨fun heq => ?_, fun heq => absurd heq (hcpu id')⟩) rfl hfin hnodup
  · refine holds_setCpu_iff ?_ id'
    rw [hholds, hheld]
    simp [Ne.symm hq]
  · by_cases hid : id' = id
    · subst hid
      rw [Os.cpu_setCpu_self, hholds] at heq
      simp at heq
    · rw [Os.cpu_setCpu_of_ne _ _ _ hid] at heq
      have := (h.cpu id' p).mp heq
      rw [hp, Place.cpu.injEq] at this
      exact absurd this.symm hid

/-- What `enqueue` does to the queues: the process is in the one of its priority. -/
theorem mem_putMlqProc (h : Located s place) (hsize : cfg.numProcesses ≤ maxQueueSize)
    {p : cfg.Proc} (hp : place p ≠ .queue) (prio : Fin maxPrio) (q : cfg.Proc) :
    q ∈ putMlqProc s.mlqReadyQueue (cfg.prio p) p prio ↔
      q ∈ s.mlqReadyQueue prio ∨ (q = p ∧ cfg.prio p = prio) := by
  rw [putMlqProc]
  by_cases hprio : prio = cfg.prio p
  · subst hprio
    rw [Function.update_self, mem_enqueue (h.room hsize hp _)]
    simp
  · rw [Function.update_of_ne hprio]
    simp [Ne.symm hprio]

/-- No process is in a queue twice after `put_proc` of one that was in none. -/
theorem nodup_putMlqProc (h : Located s place) {p : cfg.Proc} (hp : place p ≠ .queue)
    (prio : Fin maxPrio) : (putMlqProc s.mlqReadyQueue (cfg.prio p) p prio).Nodup := by
  rw [putMlqProc]
  by_cases hprio : prio = cfg.prio p
  · subst hprio
    rw [Function.update_self]
    exact nodup_enqueue (h.nodup _) fun hmem => hp ((h.queue _ p).mp hmem).1
  · rw [Function.update_of_ne hprio]
    exact h.nodup prio

/-- CPU `id`, with nothing in hand, takes the head of a queue. -/
theorem take (h : Located s place) (hnone : (s.cpu id).holds = none) {prio : Fin maxPrio}
    {p : cfg.Proc} {rest : List cfg.Proc} (hhead : s.mlqReadyQueue prio = p :: rest)
    {x' : Cpu cfg.Proc} (hholds : x'.holds = some p) :
    Located ({ s with mlqReadyQueue := Function.update s.mlqReadyQueue prio rest }.setCpu id x')
      (Function.update place p (.cpu id)) := by
  obtain ⟨hplace, hprio⟩ := (h.queue prio p).mp (by rw [hhead]; exact List.mem_cons_self)
  have hnodup := h.nodup prio
  rw [hhead, List.nodup_cons] at hnodup
  have hnotin (prio' : Fin maxPrio) : p ∉ Function.update s.mlqReadyQueue prio rest prio' := by
    by_cases heq : prio' = prio
    · subst heq
      rw [Function.update_self]
      exact hnodup.1
    · rw [Function.update_of_ne heq]
      intro hmem
      exact heq (((h.queue prio' p).mp hmem).2.symm.trans hprio)
  refine h.transfer p (.cpu id) (fun _ _ => Iff.rfl) ?_ (fun prio' q hq => ?_)
    (fun prio' => ⟨fun hmem => absurd hmem (hnotin prio'), fun hand => by simp at hand⟩)
    (fun id' q hq => ?_) (fun id' => ?_) rfl (fun heq => by simp at heq) fun prio' => ?_
  · have hloaded : ¬ s.i ≤ p := fun hle => by simp [(h.loader p).mpr hle] at hplace
    exact ⟨fun heq => by simp at heq, fun hle => absurd hle hloaded⟩
  · simp only [Os.mlqReadyQueue_setCpu]
    by_cases heq : prio' = prio
    · subst heq
      rw [Function.update_self, hhead, List.mem_cons]
      simp [hq]
    · rw [Function.update_of_ne heq]
  · refine holds_setCpu_iff ?_ id'
    rw [hholds, hnone]
    simp [Ne.symm hq]
  · by_cases hid : id' = id
    · subst hid
      rw [Os.cpu_setCpu_self, hholds]
      simp
    · rw [Os.cpu_setCpu_of_ne _ _ _ hid, h.cpu id' p, hplace]
      simp [Ne.symm hid]
  · simp only [Os.mlqReadyQueue_setCpu]
    by_cases heq : prio' = prio
    · subst heq
      rw [Function.update_self]
      exact hnodup.2
    · rw [Function.update_of_ne heq]
      exact h.nodup prio'

/-- **A step of a CPU moves at most one process.** -/
theorem cpuStep (h : Located s place) (hsize : cfg.numProcesses ≤ maxQueueSize)
    (hok : CpuOk s id) (hst : CpuStep s id s') : ∃ place', Located s' place' := by
  have hplace {p : cfg.Proc} (hholds : (s.cpu id).holds = some p) : place p = .cpu id :=
    (h.cpu id p).mp hholds
  cases hst with
  | goto x x' hx hgo =>
      have hsame (hholds : x'.holds = x.holds) : ∃ place', Located (s.setCpu id x') place' :=
        ⟨place, h.setCpu (hx ▸ hholds)⟩
      cases hgo with
      | finish p t hpc =>
          have hp := hplace (show (s.cpu id).holds = some p by rw [hx]; rfl)
          have hnot : ∀ prio, p ∉ s.mlqReadyQueue prio := by
            intro prio hmem
            simp [((h.queue prio p).mp hmem).1] at hp
          have hb : (Place.finished : Place cfg.numCpus) ≠ .loader := by simp
          exact ⟨_, h.letGo hp rfl hb (by simp) (fun _ _ _ => Iff.rfl)
            (fun prio => by simp [hnot prio]) (fun _ => hpc) h.nodup⟩
      | load t => exact hsame rfl
      | expire p hpc => exact hsame rfl
      | resume p t hpc ht => exact hsame rfl
      | leave t hdone => exact hsame rfl
      | skip t hdone => exact hsame rfl
      | dispatch p t => exact hsame rfl
      | wake p t hflag => exact hsame rfl
  | get x hx hlabel =>
      have hnone : (s.cpu id).holds = none := hok.holds_eq_none (hx ▸ hlabel)
      rcases getMlqProc_cases s.mlqReadyQueue with ⟨-, heq⟩ | ⟨prio, p, rest, hhead, -, heq⟩
      · rw [heq]
        exact ⟨place, h.setCpu ((Cpu.holds_got x none).trans hnone.symm)⟩
      · rw [heq]
        exact ⟨_, h.take hnone hhead (Cpu.holds_got x (some p))⟩
  | putRunning p t hx =>
      have hsame : (⟨.putReady, some p, t⟩ : Cpu cfg.Proc).holds = (s.cpu id).holds := by
        rw [hx]
        rfl
      exact ⟨place, (h.setCpu hsame).congr rfl rfl (fun _ => rfl) fun _ _ => rfl⟩
  | putReady p t hx =>
      have hp := hplace (show (s.cpu id).holds = some p by rw [hx]; rfl)
      have hne : place p ≠ .queue := by simp [hp]
      have hnot : ∀ prio, p ∉ s.mlqReadyQueue prio := fun prio hmem =>
        hne ((h.queue prio p).mp hmem).1
      have hb : (Place.queue : Place cfg.numCpus) ≠ .loader := by simp
      exact ⟨_, h.letGo hp rfl hb (by simp)
        (fun prio q hq => by simp [h.mem_putMlqProc hsize hne prio q, hq])
        (fun prio => by simp [h.mem_putMlqProc hsize hne prio p, hnot prio])
        (fun heq => by simp at heq) (h.nodup_putMlqProc hne)⟩
  | run p t hx =>
      have hp := hplace (show (s.cpu id).holds = some p by rw [hx]; rfl)
      have hsame : (⟨.slotSet, some p, t - 1⟩ : Cpu cfg.Proc).holds = (s.cpu id).holds := by
        rw [hx]
        rfl
      refine ⟨place, (h.setCpu hsame).congr rfl rfl (fun _ => rfl) ?_⟩
      intro q hq
      have hne : q ≠ p := by
        rintro rfl
        simp [hp] at hq
      exact Function.update_of_ne hne _ _
  | slotSet proc t hx =>
      have hsame : (⟨.slotWait, proc, t⟩ : Cpu cfg.Proc).holds = (s.cpu id).holds := by
        rw [hx]
        rfl
      exact ⟨place, (h.setCpu hsame).congr rfl rfl (fun _ => rfl) fun _ _ => rfl⟩
  | detach proc t hx =>
      have hsame : (⟨.exited, proc, t⟩ : Cpu cfg.Proc).holds = (s.cpu id).holds := by
        rw [hx]
        rfl
      exact ⟨place, (h.setCpu hsame).congr rfl rfl (fun _ => rfl) fun _ _ => rfl⟩

end Located

/-- **A step of the loader moves at most one process.** -/
theorem Located.ldStep {s s' : Os cfg} {place : cfg.Proc → Place cfg.numCpus}
    (h : Located s place) (hsize : cfg.numProcesses ≤ maxQueueSize) (hst : LdStep s s') :
    ∃ place', Located s' place' := by
  cases hst with
  | addReady hi hl =>
      set p : cfg.Proc := ⟨s.i, hi⟩ with hp
      have hplace : place p = .loader := (h.loader p).mpr le_rfl
      have hne : place p ≠ .queue := by simp [hplace]
      have hnot : ∀ prio, p ∉ s.mlqReadyQueue prio := fun prio hmem =>
        hne ((h.queue prio p).mp hmem).1
      refine ⟨_, h.transfer p .queue ?_
        ⟨fun heq => by simp at heq, fun hle => absurd hle (by simp [hp])⟩
        ?_ ?_ (fun _ _ _ => Iff.rfl) ?_ rfl
        (fun heq => by simp at heq) (h.nodup_putMlqProc hne)⟩
      · intro q hq
        have hval : (q : ℕ) ≠ s.i := fun heq => hq (Fin.ext heq)
        simp only
        omega
      · intro prio q hq
        simp [h.mem_putMlqProc hsize hne prio q, hq]
      · intro prio
        simp [h.mem_putMlqProc hsize hne prio p, hnot prio]
      · intro id
        rw [h.cpu id p, hplace]
        simp
  | goto l l' hl hgo => exact ⟨place, h.congr rfl rfl (fun _ => rfl) fun _ _ => rfl⟩
  | addRunning hi hl => exact ⟨place, h.congr rfl rfl (fun _ => rfl) fun _ _ => rfl⟩
  | waitSet hl => exact ⟨place, h.congr rfl rfl (fun _ => rfl) fun _ _ => rfl⟩
  | nextSet hl => exact ⟨place, h.congr rfl rfl (fun _ => rfl) fun _ _ => rfl⟩
  | setDone hl => exact ⟨place, h.congr rfl rfl (fun _ => rfl) fun _ _ => rfl⟩
  | detach hl => exact ⟨place, h.congr rfl rfl (fun _ => rfl) fun _ _ => rfl⟩

/-! ### What the loader's locals say -/

/-- The loader has added every process where it is through, and what its flags and `done` say
about its label. -/
structure LdOk (s : Os cfg) : Prop where
  le : s.i ≤ cfg.numProcesses
  all : s.ld = .setDone ∨ s.ld = .detach ∨ s.ld = .exited → s.i = cfg.numProcesses
  done : s.done = true → s.ld = .detach ∨ s.ld = .exited
  flag : (s.clock.dev .ld).done = true → s.ld = .waitSlot ∨ s.ld = .nextSlot
  fsh : (s.clock.dev .ld).fsh = true → s.ld = .exited

/-- Locals and flags are the same, or the flag `done` of the CPU was cleared. -/
theorem CpuOk.congr {s s' : Os cfg} {id : Fin cfg.numCpus} (h : CpuOk s id)
    (hcpu : s'.cpu id = s.cpu id) (hdone : s.done = true → s'.done = true)
    (hflag : (s'.clock.dev (.cpu id)).done = true → (s.clock.dev (.cpu id)).done = true)
    (hfsh : (s'.clock.dev (.cpu id)).fsh = (s.clock.dev (.cpu id)).fsh) : CpuOk s' id where
  first := hcpu ▸ h.first
  left hl := by
    rw [hcpu] at hl ⊢
    exact ⟨(h.left hl).1, hdone (h.left hl).2⟩
  flag hf := hcpu ▸ h.flag (hflag hf)
  fsh hf := hcpu ▸ h.fsh (hfsh ▸ hf)

/-- The loader's locals and flags are the same, or its flag `done` was cleared. -/
theorem LdOk.congr {s s' : Os cfg} (h : LdOk s) (hld : s'.ld = s.ld) (hi : s'.i = s.i)
    (hdone : s'.done = s.done)
    (hflag : (s'.clock.dev .ld).done = true → (s.clock.dev .ld).done = true)
    (hfsh : (s'.clock.dev .ld).fsh = (s.clock.dev .ld).fsh) : LdOk s' where
  le := hi ▸ h.le
  all := by
    rw [hld, hi]
    exact h.all
  done := by
    rw [hld, hdone]
    exact h.done
  flag hf := hld ▸ h.flag (hflag hf)
  fsh hf := hld ▸ h.fsh (hfsh ▸ hf)

/-- A step of CPU `id`, seen from its own locals: where it is goes with its flags. -/
theorem CpuOk.cpuStep {s s' : Os cfg} {id : Fin cfg.numCpus} (h : CpuOk s id)
    (hst : CpuStep s id s') : CpuOk s' id := by
  obtain ⟨hfirst, hleft, hflag, hfsh⟩ := h
  cases hst with
  | goto x x' hx hgo =>
      rw [hx] at hfirst hleft hflag hfsh
      cases hgo <;> constructor <;> simp_all
  | get x hx hlabel =>
      rw [hx] at hflag hfsh
      have hlabel' : (x.got (getMlqProc s.mlqReadyQueue).1).label = .slotSet ∨
          (x.got (getMlqProc s.mlqReadyQueue).1).label = .recheck := by
        rw [Cpu.got]
        split
        · simp only
          split <;> simp
        · exact Or.inr rfl
        · exact Or.inr rfl
      constructor
      · rcases hlabel' with hl | hl <;> simp [hl]
      · rcases hlabel' with hl | hl <;> simp [hl]
      · intro hf
        rw [hflag hf] at hlabel
        simp at hlabel
      · intro hf
        rw [hfsh hf] at hlabel
        simp at hlabel
  | putRunning proc t hx =>
      rw [hx] at hflag hfsh
      constructor <;> simp_all
  | putReady proc t hx =>
      rw [hx] at hflag hfsh
      constructor <;> simp_all
  | run proc t hx =>
      rw [hx] at hflag hfsh
      constructor <;> simp_all
  | slotSet proc t hx =>
      rw [hx] at hflag hfsh
      constructor <;> simp_all [Clock.signal]
  | detach proc t hx =>
      rw [hx] at hleft hflag hfsh
      constructor <;> simp_all [Clock.detachEvent]

/-- A step of the loader, seen from its own locals: where it is goes with its flags. -/
theorem LdOk.ldStep {s s' : Os cfg} (h : LdOk s) (hst : LdStep s s') : LdOk s' := by
  obtain ⟨hle, hall, hdone, hflag, hfsh⟩ := h
  cases hst with
  | goto l l' hl hgo =>
      rw [hl] at hall hdone hflag hfsh
      cases hgo with
      | finish hi =>
          have hi' : s.i = cfg.numProcesses := by omega
          constructor <;> simp_all
      | next hi => constructor <;> simp_all
      | early => constructor <;> simp_all
      | due => constructor <;> simp_all
      | wake hf => constructor <;> simp_all
      | resume hf => constructor <;> simp_all
  | addRunning hi hl => constructor <;> simp_all
  | addReady hi hl =>
      have hi' : s.i + 1 ≤ cfg.numProcesses := hi
      constructor <;> simp_all
  | waitSet hl => constructor <;> simp_all [Clock.signal]
  | nextSet hl => constructor <;> simp_all [Clock.signal]
  | setDone hl => constructor <;> simp_all
  | detach hl => constructor <;> simp_all [Clock.detachEvent]

/-! ### Nothing left -/

/-- CPU `id` has found the queues empty, and has not looked again. -/
def Drained {P : Type} (x : Cpu P) : Prop :=
  (x.label = .recheck ∧ x.proc = none) ∨ x.label = .detach ∨ x.label = .exited

/-- The loader has added every process and been let continue by the timer since. -/
def Late (s : Os cfg) : Prop :=
  s.i = cfg.numProcesses ∧ (s.ld = .top ∨ s.ld = .setDone ∨ s.ld = .detach ∨ s.ld = .exited ∨
    s.ld = .nextSlot ∧ (s.clock.dev .ld).done = false)

/-- **From then on, CPUs that have all found nothing have left nothing.** -/
def Quiet (s : Os cfg) : Prop :=
  Late s → (∀ id, Drained (s.cpu id)) → ∀ prio, s.mlqReadyQueue prio = []

/-- Once `done` is set the loader is past its last process. -/
theorem LdOk.late_of_done {s : Os cfg} (h : LdOk s) (hdone : s.done = true) : Late s := by
  rcases h.done hdone with hl | hl
  · exact ⟨h.all (Or.inr (Or.inl hl)), Or.inr (Or.inr (Or.inl hl))⟩
  · exact ⟨h.all (Or.inr (Or.inr hl)), Or.inr (Or.inr (Or.inr (Or.inl hl)))⟩

/-- A step of a CPU: a CPU that finds nothing has seen all queues empty, and one that finds a
process is not drained. -/
theorem Quiet.cpuStep {s s' : Os cfg} {id : Fin cfg.numCpus} (h : Quiet s)
    (hst : CpuStep s id s') : Quiet s' := by
  obtain ⟨hld, hi, -, hother, hdev⟩ := hst.frame
  intro hlate hdrained
  have hlate' : Late s := by
    rw [Late, hld, hi, hdev .ld (by simp)] at hlate
    exact hlate
  have hid := hdrained id
  -- a CPU that was drained before has left the queues alone
  have hold (hx : Drained (s.cpu id)) : ∀ prio, s.mlqReadyQueue prio = [] := by
    refine h hlate' ?_
    intro id'
    by_cases heq : id' = id
    · exact heq ▸ hx
    · rw [← hother id' heq]
      exact hdrained id'
  cases hst with
  | goto x x' hx hgo =>
      rw [Os.cpu_setCpu_self] at hid
      cases hgo with
      | leave t hdone => exact hold (hx ▸ Or.inl ⟨rfl, rfl⟩)
      | load t => simp [Drained] at hid
      | finish p t hpc => simp [Drained] at hid
      | expire p hpc => simp [Drained] at hid
      | resume p t hpc ht => simp [Drained] at hid
      | skip t hdone => simp [Drained] at hid
      | dispatch p t => simp [Drained] at hid
      | wake p t hflag => simp [Drained] at hid
  | get x hx hlabel =>
      rw [Os.cpu_setCpu_self] at hid
      rcases getMlqProc_cases s.mlqReadyQueue with ⟨hnil, heq⟩ | ⟨prio, p, rest, -, -, heq⟩
      · simp only [Os.mlqReadyQueue_setCpu, heq]
        exact hnil
      · rw [heq, Cpu.got] at hid
        split at hid <;> simp [Drained] at hid
  | putRunning p t hx => simp [Drained] at hid
  | putReady p t hx => simp [Drained] at hid
  | run p t hx => simp [Drained] at hid
  | slotSet p t hx => simp [Drained] at hid
  | detach p t hx => exact hold (hx ▸ Or.inr (Or.inl rfl))

/-- A step of the loader: past its last process it leaves the queues alone. -/
theorem Quiet.ldStep {s s' : Os cfg} (h : Quiet s) (hok : LdOk s) (hst : LdStep s s') :
    Quiet s' := by
  intro hlate hdrained
  cases hst with
  | goto l l' hl hgo =>
      obtain ⟨hi, hlabel⟩ := hlate
      cases hgo with
      | finish hi' => exact h ⟨hi, Or.inl hl⟩ hdrained
      | resume hflag =>
          exact h ⟨hi, Or.inr (Or.inr (Or.inr (Or.inr ⟨hl, hflag⟩)))⟩ hdrained
      | next hi' => simp at hlabel
      | early => simp at hlabel
      | due => simp at hlabel
      | wake hflag => simp at hlabel
  | addRunning hi hl => simp [Late] at hlate
  | addReady hi hl => simp [Late] at hlate
  | waitSet hl => simp [Late] at hlate
  | nextSet hl => simp [Late, Clock.signal] at hlate
  | setDone hl => exact h ⟨hok.all (Or.inl hl), Or.inr (Or.inl hl)⟩ hdrained
  | detach hl => exact h ⟨hlate.1, Or.inr (Or.inr (Or.inl hl))⟩ hdrained

/-- The loader is the head of the timer's list, which lists no device twice. -/
theorem OsConfig.devList_eq (cfg : OsConfig) :
    cfg.devList = .ld :: ((List.finRange cfg.numCpus).map Device.cpu).reverse := by
  have hfold (ids : List (Fin cfg.numCpus)) (l : List (Device cfg.numCpus)) :
      ids.foldl (fun devList id => attachEvent devList (.cpu id)) l =
        (ids.map Device.cpu).reverse ++ l := by
    induction ids generalizing l with
    | nil => rfl
    | cons id ids ih =>
        rw [List.foldl_cons, ih, attachEvent]
        simp
  rw [OsConfig.devList, hfold, List.append_nil, attachEvent]

/-- The timer's list has no device twice. -/
theorem OsConfig.nodup_devList (cfg : OsConfig) : cfg.devList.Nodup := by
  rw [cfg.devList_eq, List.nodup_cons]
  refine ⟨by simp, List.nodup_reverse.mpr ?_⟩
  exact (List.nodup_finRange _).map fun _ _ h => Device.cpu.inj h

/-- Where the timer lets the loader continue, it has let no CPU continue yet. -/
theorem ready_of_release {s : Os cfg} (h : Barrier cfg.devList s.clock)
    {rest : List (Device cfg.numCpus)} {fsh event : ℕ}
    (hl : s.clock.label = .release (.ld :: rest) fsh event) (id : Fin cfg.numCpus) :
    (s.clock.dev (.cpu id)).ready = true := by
  rw [Barrier, hl] at h
  obtain ⟨before, hbefore⟩ := h.1
  refine h.2 _ ?_
  have hnodup := cfg.nodup_devList
  have hmem : Device.cpu id ∈ cfg.devList := by simp [cfg.devList_eq]
  rw [← hbefore] at hnodup hmem
  rcases List.mem_append.mp hmem with hin | hin
  · -- the list would have another head
    rcases before with _ | ⟨d, before⟩
    · simp at hin
    · rw [cfg.devList_eq, List.cons_append, List.cons.injEq] at hbefore
      rw [hbefore.1, List.cons_append, List.nodup_cons] at hnodup
      simp at hnodup
  · exact hin

/-- **A step of the timer**: when it lets the loader continue, every CPU is in `next_slot` or
gone. -/
theorem Quiet.timerStep {s : Os cfg} (hn : 0 < cfg.numCpus) (h : Quiet s)
    (hcpu : ∀ id, CpuOk s id) (hld : LdOk s) (hb : Barrier cfg.devList s.clock)
    {clock : Clock (Device cfg.numCpus)}
    (hst : timerStep cfg.devList s.timerStop s.clock = some clock) :
    Quiet { s with clock := clock } := by
  intro hlate hdrained
  by_cases hdone : s.done = true
  · exact h (hld.late_of_done hdone) hdrained
  · refine h ⟨hlate.1, ?_⟩ hdrained
    rcases timerStep_dev hst with hsame | ⟨d, rest, fsh, event, hl, hdev⟩
    · have := hlate.2
      simp only [hsame] at this
      exact this
    · by_cases hd : d = .ld
      · -- a CPU in `next_slot` has not found nothing
        subst hd
        let id : Fin cfg.numCpus := ⟨0, hn⟩
        have hid := hdrained id
        rcases Bool.or_eq_true _ _ ▸ ready_of_release hb hl id with hflag | hfsh
        · simp [Drained, (hcpu id).flag hflag] at hid
        · exact absurd ((hcpu id).left (Or.inr ((hcpu id).fsh hfsh))).2 hdone
      · have := hlate.2
        simp only [hdev, Clock.release, Function.update_of_ne (Ne.symm hd)] at this
        exact this

/-! ### All threads -/

/-- A step of a CPU only raises flags of its own device, which the timer is free to find later. -/
theorem Barrier.cpuStep {s s' : Os cfg} (h : Barrier cfg.devList s.clock) {id : Fin cfg.numCpus}
    (hst : CpuStep s id s') : Barrier cfg.devList s'.clock := by
  cases hst with
  | slotSet proc t hx => exact h.signal (.cpu id)
  | detach proc t hx => exact h.detachEvent (.cpu id)
  | goto x x' hx hgo => exact h
  | get x hx hlabel => exact h
  | putRunning p t hx => exact h
  | putReady p t hx => exact h
  | run p t hx => exact h

/-- A step of the loader only raises flags of its own. -/
theorem Barrier.ldStep {s s' : Os cfg} (h : Barrier cfg.devList s.clock) (hst : LdStep s s') :
    Barrier cfg.devList s'.clock := by
  cases hst with
  | waitSet hl => exact h.signal .ld
  | nextSet hl => exact h.signal .ld
  | detach hl => exact h.detachEvent .ld
  | goto l l' hl hgo => exact h
  | addRunning hi hl => exact h
  | addReady hi hl => exact h
  | setDone hl => exact h

/-- The invariant of the whole simulation: places, locals, the barrier, and nothing left. -/
structure OsInv (s : Os cfg) : Prop where
  located : ∃ place, Located s place
  cpu : ∀ id, CpuOk s id
  ld : LdOk s
  barrier : Barrier cfg.devList s.clock
  quiet : Quiet s

/-- At the start every process is with the loader, and no flag is raised. -/
theorem osInv_bootOs (hn : 0 < cfg.numCpus) : OsInv (bootOs cfg) where
  located := by
    refine ⟨fun _ => .loader, ?_, ?_, ?_, ?_,
      fun _ => List.nodup_nil⟩
    · intro p
      simp [bootOs]
    · intro prio p
      simp [bootOs]
    · intro id p
      simp [bootOs, Cpu.holds]
    · intro p hp
      simp at hp
  cpu id := by constructor <;> simp [bootOs]
  ld := by constructor <;> simp [bootOs]
  barrier := trivial
  quiet _ hdrained := by
    have := hdrained ⟨0, hn⟩
    simp [Drained, bootOs] at this

/-- **A step of any thread keeps the invariant.** -/
theorem OsInv.step (hn : 0 < cfg.numCpus) (hsize : cfg.numProcesses ≤ maxQueueSize) {s s' : Os cfg}
    (h : OsInv s) {t : Thread cfg.numCpus} (hst : osStep s t = some s') : OsInv s' := by
  obtain ⟨place, hplace⟩ := h.located
  cases t with
  | cpu id =>
      have hstep := cpuStep_cases hst
      obtain ⟨hld, hi, hdone, hother, hdev⟩ := hstep.frame
      refine
        { located := hplace.cpuStep hsize (h.cpu id) hstep
          cpu := ?_
          ld := ?_
          barrier := ?_
          quiet := h.quiet.cpuStep hstep }
      · intro id'
        by_cases hid : id' = id
        · subst hid
          exact (h.cpu id').cpuStep hstep
        · have hd : Device.cpu id' ≠ Device.cpu id := fun heq => hid (Device.cpu.inj heq)
          exact (h.cpu id').congr (hother id' hid) (hdone ▸ fun h => h) (hdev _ hd ▸ fun h => h)
            (by rw [hdev _ hd])
      · have hd : (Device.ld : Device cfg.numCpus) ≠ Device.cpu id := by simp
        exact h.ld.congr hld hi hdone (hdev _ hd ▸ fun h => h) (by rw [hdev _ hd])
      · exact h.barrier.cpuStep hstep
  | ld =>
      have hstep := ldStep_cases hst
      refine
        { located := hplace.ldStep hsize hstep
          cpu := ?_
          ld := h.ld.ldStep hstep
          barrier := ?_
          quiet := h.quiet.ldStep h.ld hstep }
      · intro id
        have hd : Device.cpu id ≠ .ld := by simp
        cases hstep with
        | setDone hl => exact (h.cpu id).congr rfl (fun _ => rfl) (fun h => h) rfl
        | waitSet hl =>
            exact (h.cpu id).congr rfl (fun h => h) (by simp [Clock.signal, hd])
              (by simp [Clock.signal, hd])
        | nextSet hl =>
            exact (h.cpu id).congr rfl (fun h => h) (by simp [Clock.signal, hd])
              (by simp [Clock.signal, hd])
        | detach hl =>
            exact (h.cpu id).congr rfl (fun h => h) (by simp [Clock.detachEvent, hd])
              (by simp [Clock.detachEvent, hd])
        | goto l l' hl hgo => exact (h.cpu id).congr rfl (fun h => h) (fun h => h) rfl
        | addRunning hi hl => exact (h.cpu id).congr rfl (fun h => h) (fun h => h) rfl
        | addReady hi hl => exact (h.cpu id).congr rfl (fun h => h) (fun h => h) rfl
      · exact h.barrier.ldStep hstep
  | timer =>
      obtain ⟨clock, hclock, rfl⟩ := Option.map_eq_some_iff.mp hst
      have hflags := timerStep_flags hclock
      exact
        { located := ⟨place, hplace.congr rfl rfl (fun _ => rfl) fun _ _ => rfl⟩
          cpu := fun id => (h.cpu id).congr rfl (fun h => h) (hflags _).1 (hflags _).2
          ld := h.ld.congr rfl rfl rfl (hflags _).1 (hflags _).2
          barrier := h.barrier.timerStep cfg.nodup_devList hclock
          quiet := h.quiet.timerStep hn h.cpu h.ld h.barrier hclock }
  | main =>
      rw [osStep] at hst
      split at hst
      · obtain rfl := Option.some.inj hst
        exact
          { located := ⟨place, hplace.congr rfl rfl (fun _ => rfl) fun _ _ => rfl⟩
            cpu := fun id => (h.cpu id).congr rfl (fun h => h) (fun h => h) rfl
            ld := h.ld.congr rfl rfl rfl (fun h => h) rfl
            barrier := h.barrier
            quiet := h.quiet }
      · simp at hst

/-- **No CPU abandons work.** For any number of CPUs and at most `MAX_QUEUE_SIZE` programs, in
every state of every interleaving in which all CPUs have left their loops, the loader has added
every process, every ready queue is empty, and every process is at its end. -/
theorem cpus_leave_nothing (hn : 0 < cfg.numCpus) (hsize : cfg.numProcesses ≤ maxQueueSize)
    {ts : List (Thread cfg.numCpus)} {s : Os cfg} (hrun : (osSystem cfg).Run ts s)
    (hleft : ∀ id, (s.cpu id).label = .detach ∨ (s.cpu id).label = .exited) :
    s.i = cfg.numProcesses ∧ (∀ prio, s.mlqReadyQueue prio = []) ∧
      ∀ p, s.pc p = cfg.codeSize p := by
  have hinv : OsInv s := by
    refine hrun.invariant (fun s (hs : s = bootOs cfg) => ?_) fun s t s' hs hst =>
      hs.step hn hsize hst
    rw [hs]
    exact osInv_bootOs hn
  have hdone : s.done = true := ((hinv.cpu ⟨0, hn⟩).left (hleft ⟨0, hn⟩)).2
  have hlate := hinv.ld.late_of_done hdone
  have hempty := hinv.quiet hlate fun id => Or.inr (hleft id)
  refine ⟨hlate.1, hempty, ?_⟩
  intro p
  obtain ⟨place, hplace⟩ := hinv.located
  -- the process is neither with the loader, nor in a queue, nor with a CPU
  rcases hp : place p with _ | _ | id | _
  · have hle := (hplace.loader p).mp hp
    rw [hlate.1] at hle
    exact absurd p.isLt (by omega)
  · have hmem := (hplace.queue (cfg.prio p) p).mpr ⟨hp, rfl⟩
    rw [hempty] at hmem
    cases hmem
  · have hheld := (hplace.cpu id p).mpr hp
    have hnone := ((hinv.cpu id).left (hleft id)).1
    rw [Cpu.holds] at hheld
    rcases hleft id with hl | hl <;> simp [hl, hnone] at hheld
  · exact hplace.finished p hp

/-- One CPU and one program of one instruction. -/
def oneProgram : OsConfig where
  numCpus := 1
  timeSlot := 2
  numProcesses := 1
  startTime _ := 0
  prio _ := 0
  codeSize _ := 1

/-- The program is added, run in one time slot, and found finished in the next. -/
def oneProgramRun : List (Thread oneProgram.numCpus) :=
  let cpu := Thread.cpu ⟨0, Nat.one_pos⟩
  List.replicate 5 .ld ++ List.replicate 5 cpu ++ List.replicate 6 .timer ++
    List.replicate 4 .ld ++ [.timer] ++ List.replicate 4 cpu

/-- After that run the CPU has left, and the program is at its end. -/
theorem cpus_leave_nothing_oneProgram : ∃ s : Os oneProgram,
    (osSystem oneProgram).Run oneProgramRun s ∧ s.i = 1 ∧
      (∀ prio, s.mlqReadyQueue prio = []) ∧ ∀ p, s.pc p = 1 := by
  have hlabel : (oneProgramRun.foldlM osStep (bootOs oneProgram)).map
      (fun s => (s.cpu ⟨0, Nat.one_pos⟩).label) = some .detach := by
    decide +kernel
  obtain ⟨s, hs, hdetach⟩ := Option.map_eq_some_iff.mp hlabel
  have hrun : (osSystem oneProgram).Run oneProgramRun s :=
    Run.of_foldlM (fun _ _ _ h => h) rfl hs
  have hleft (id : Fin oneProgram.numCpus) :
      (s.cpu id).label = .detach ∨ (s.cpu id).label = .exited := by
    have hone : Subsingleton (Fin oneProgram.numCpus) := inferInstanceAs (Subsingleton (Fin 1))
    obtain rfl : id = ⟨0, Nat.one_pos⟩ := Subsingleton.elim _ _
    exact Or.inl hdetach
  exact ⟨s, hrun, cpus_leave_nothing (by decide) (by decide) hrun hleft⟩

end OsSim
