import OsSim.Ending
import OsSim.Kernel

/-!
# What Programs Compute

A program whose accesses stay in the pages that it has allocated computes on a memory of its own,
and that it does so is a matter of its text alone. When the pages that all programs come to fit
into RAM, each of them has such a memory in every interleaving of any number of CPUs: no instruction
is undefined, and every byte read is the one last written there by the same program.

## The conditions

`KernelConfig.Fits` can be evaluated. Each program, run alone on an empty memory, must come through:
every access is in its pages, no allocation follows a free that the list has taken, every `killall`
has its name written and finds no process of that name, and there is no system call 17. The pages
that the programs come to must fit into RAM together, in frames that a page-table entry can name.
Each call of `run` is one step, as in all of `kernelSystem`.

## How the argument goes

`Kernel.Private` is the invariant: RAM backs a memory for each process, on which the instructions
executed for it have shown what they have shown. A step that executes an instruction is one on the
memory of its process (`StackBacked.execute`), and the other steps leave memory alone. So every
instruction is defined, and memory holds no thread up: what comes about for the threads comes about
over memory (`comes_about_in_memory`).

Where a program reads only what it has written, its private memory leaves it no choice, and what it
shows is what it shows alone (`eq_alone_of_run`).

## Main results

* `memory_is_private`: **each program works on a memory of its own**.
* `kernel_never_stuck`: the simulation with its memory never gets stuck.
* `programs_compute`: **every program shows what it shows alone**, whatever the order of the
  threads.
* `kernel_ends`: **all of it ends** in every order, if every CPU has a process once `done` is set.
-/

namespace OsSim

open TransitionSystem

/-! ### Programs on a private memory -/

namespace AddressSpace

section Step

variable {ι : Type} [Fintype ι] (path : ι → CStr)

/-- What a `killall` reads from a region, if all of it has been written. -/
def name (v : AddressSpace) (memrg : BitVec 32) : ℕ → ℕ → Option (List Byte)
  | 0, _ => none
  | room + 1, i => do
      let a ← v.access memrg (BitVec.ofNat 32 i)
      let b ← v.written a
      if b = 255 then some [0] else (v.name memrg room (i + 1)).map (b :: ·)

/-- One instruction of a program; `none` also for a `SYSCALL` 17, and for a `killall` that finds
the path of a process. -/
def step (v : AddressSpace) (ins : InstT) : Option AddressSpace :=
  match ins.call with
  | some inst => v.exec inst
  | none =>
      if ins.arg0 = 101 then do
        let bs ← v.name ins.arg1 100 0
        if ∀ p, path p ≠ bufferStr bs then some v else none
      else some v

/-- What an instruction may show on a private memory; a system call shows its code only. -/
def ShowsIns (v : AddressSpace) (ins : InstT) (out : Out) : Prop :=
  match ins.call with
  | some inst => v.Shows inst out
  | none => out = { stat := 0 }

/-- What it shows, if this is determined: if it is no `READ` of a byte that was not written. -/
def output (v : AddressSpace) (ins : InstT) : Option Out :=
  match ins.call with
  | some (.read source offset) => do
      let a ← v.access source offset
      let b ← v.written a
      some { stat := 0, destination := some (b.signExtend 32) }
  | _ => some { stat := 0 }

end Step

/-! ### Facts about private memory -/

section Facts

variable {ι : Type} [Fintype ι] {path : ι → CStr} {v v' : AddressSpace} {ins : InstT}

/-- An allocation takes no page away. -/
theorem pages_le_alloc {size regIndex : BitVec 32} (h : v.alloc size regIndex = some v') :
    v.pages ≤ v'.pages := by
  have hread := (dangles_of_alloc h).1
  obtain ⟨i, -, h⟩ := Option.bind_eq_some_iff.mp h
  rw [hread, if_neg Bool.false_ne_true] at h
  rcases hloop : getFreeVmrgLoop v.vmFreergList size.toInt with _ | r
  · simp only [hloop] at h
    split_ifs at h
    obtain rfl := Option.some.inj h
    exact Nat.le_add_right _ _
  · simp only [hloop, Option.some.injEq] at h
    subst h
    exact le_rfl

/-- No instruction takes pages away. -/
theorem pages_le_step (h : v.step path ins = some v') : v.pages ≤ v'.pages := by
  rw [step] at h
  split at h
  · rename_i inst hcall
    cases inst with
    | «calc» =>
        obtain rfl := Option.some.inj h
        exact le_rfl
    | alloc size regIndex => exact pages_le_alloc h
    | free regIndex =>
        obtain ⟨i, -, rfl⟩ := Option.map_eq_some_iff.mp h
        exact le_rfl
    | read source offset =>
        obtain ⟨a, -, rfl⟩ := Option.map_eq_some_iff.mp h
        exact le_rfl
    | write data destination offset =>
        obtain ⟨a, -, rfl⟩ := Option.map_eq_some_iff.mp h
        exact le_rfl
    | memmap regs => cases h
  · split_ifs at h with hkill
    · obtain ⟨bs, -, h⟩ := Option.bind_eq_some_iff.mp h
      split_ifs at h
      obtain rfl := Option.some.inj h
      exact le_rfl
    · obtain rfl := Option.some.inj h
      exact le_rfl

omit [Fintype ι] in
/-- The output is what is shown. -/
theorem ShowsIns.eq_output {out out' : Out} (h : v.ShowsIns ins out)
    (hout : v.output ins = some out') : out = out' := by
  rw [output] at hout
  rw [ShowsIns] at h
  split at hout
  · rename_i source offset hcall
    obtain ⟨a, ha, hout⟩ := Option.bind_eq_some_iff.mp hout
    obtain ⟨b, hb, hout⟩ := Option.bind_eq_some_iff.mp hout
    obtain rfl := Option.some.inj hout
    rw [hcall] at h
    obtain ⟨hstat, w, hw, hbyte⟩ := h
    obtain ⟨stat, destination⟩ := out
    simp only at hstat hw
    rw [hstat, hw, hbyte a ha b hb]
  · rename_i hread
    obtain rfl := Option.some.inj hout
    rcases hcall : ins.call with _ | inst
    · rw [hcall] at h
      exact h
    · rw [hcall] at h
      cases inst with
      | read source offset => exact absurd hcall (hread source offset)
      | _ => exact h

end Facts

end AddressSpace

/-! ### Programs alone -/

section Alone

variable {ι : Type} [Fintype ι] (path : ι → CStr)

/-- Private memory as a system: the instructions of a program, with what they show. -/
def privateMemory : TransitionSystem AddressSpace (InstT × Out) where
  init v := v = .empty
  step v e v' := v.step path e.1 = some v' ∧ v.ShowsIns e.1 e.2

/-- The memory of a program after all of its instructions. -/
def privateRun (text : List InstT) : Option AddressSpace :=
  text.foldlM (fun v ins => v.step path ins) .empty

/-- One instruction of a program that is run alone. -/
def aloneStep (x : AddressSpace × List (InstT × Out)) (ins : InstT) :
    Option (AddressSpace × List (InstT × Out)) := do
  let out ← x.1.output ins
  let v ← x.1.step path ins
  return (v, x.2 ++ [(ins, out)])

/-- What the instructions of a program show when it is run alone. -/
def alone (text : List InstT) : Option (List (InstT × Out)) :=
  (text.foldlM (aloneStep path) (.empty, [])).map Prod.snd

variable {path} {text : List InstT} {v w : AddressSpace}

/-- The first instructions of a program come through where all of it does, with no more pages. -/
theorem privateRun_take (h : privateRun path text = some w) (n : ℕ) :
    ∃ u, privateRun path (text.take n) = some u ∧ u.pages ≤ w.pages := by
  rw [privateRun, ← List.take_append_drop n text, List.foldlM_append] at h
  obtain ⟨u, hu, hw⟩ := Option.bind_eq_some_iff.mp h
  refine ⟨u, hu, ?_⟩
  -- the instructions that are left
  clear h hu
  generalize text.drop n = rest at hw
  induction rest generalizing u with
  | nil =>
      obtain rfl := Option.some.inj hw
      exact le_rfl
  | cons ins rest ih =>
      rw [List.foldlM_cons] at hw
      obtain ⟨u', hu', hw⟩ := Option.bind_eq_some_iff.mp hw
      exact (AddressSpace.pages_le_step hu').trans (ih u' hw)

/-- One instruction more. -/
theorem privateRun_concat (ins : InstT) (h : privateRun path text = some v) :
    privateRun path (text ++ [ins]) = v.step path ins := by
  rw [privateRun] at h ⊢
  rw [List.foldlM_append, h]
  simp

/-- **A run on a private memory** leaves the memory that its instructions make. -/
theorem privateRun_of_run {es : List (InstT × Out)} (h : (privateMemory path).Run es v) :
    privateRun path (es.map Prod.fst) = some v := by
  induction h with
  | init hv =>
      obtain rfl : _ = AddressSpace.empty := hv
      rfl
  | step _ hst ih =>
      rw [List.map_append, List.map_singleton, privateRun_concat _ ih]
      exact hst.1

/-- **Private memory is deterministic** where a program reads what it has written. -/
theorem eq_alone_of_run {es : List (InstT × Out)} (h : (privateMemory path).Run es v)
    {x : AddressSpace × List (InstT × Out)}
    (hx : (es.map Prod.fst).foldlM (aloneStep path) (.empty, []) = some x) : x = (v, es) := by
  induction h generalizing x with
  | init hv =>
      obtain rfl : _ = AddressSpace.empty := hv
      exact (Option.some.inj hx).symm
  | @step es u e v' hrun hst ih =>
      rw [List.map_append, List.foldlM_append] at hx
      obtain ⟨y, hy, hx⟩ := Option.bind_eq_some_iff.mp hx
      obtain rfl := ih hy
      simp only [List.map_singleton, List.foldlM_cons, List.foldlM_nil, aloneStep,
        Option.bind_eq_bind, hst.1, Option.bind_some, Option.pure_def, Option.bind_fun_some] at hx
      obtain ⟨out, hout, hx⟩ := Option.bind_eq_some_iff.mp hx
      rw [← Option.some.inj hx, ← hst.2.eq_output hout]

end Alone

/-! ### One instruction over memory -/

section Execute

variable {cfg : KernelConfig} {k : Kernel cfg} {v : cfg.Proc → AddressSpace} {v' : AddressSpace}
  {p : cfg.Proc} {behind : VmRg} {ins : InstT} {total : ℕ}

/-- The name that the process has written is the one that `__sys_killall` reads. -/
theorem Backed.readNameLoop {ι : Type} [DecidableEq ι] [Fintype ι] {s : Sys ι}
    {v : ι → AddressSpace} (h : Backed total s v) {p : ι} {memrg : BitVec 32} {room i : ℕ}
    {bs : List Byte} (hname : (v p).name memrg room i = some bs) (data : BitVec 32) :
    readNameLoop p memrg room s i data = some (bs, s) := by
  induction room generalizing i bs data with
  | zero => cases hname
  | succ room ih =>
      obtain ⟨a, ha, hname⟩ := Option.bind_eq_some_iff.mp hname
      obtain ⟨b, hb, hname⟩ := Option.bind_eq_some_iff.mp hname
      obtain ⟨w, hread, hbyte⟩ := h.libread ha
      rw [hbyte b hb] at hread
      rw [readNameLoop_succ hread]
      split_ifs at hname ⊢ with hend
      · rw [Option.some.inj hname]
      · obtain ⟨rest, hrest, rfl⟩ := Option.map_eq_some_iff.mp hname
        rw [ih hrest, Option.map_some]

/-- A system call whose number is not 17 does nothing where the private memory takes it: the name
of a `killall` is nobody's. -/
theorem StackBacked.execute_syscall (h : StackBacked total k.sys v) (behind : VmRg)
    (hop : ins.opcode = .syscall) (harg : ins.arg0 ≠ 17) (hcall : ins.call = none)
    (hstep : (v p).step cfg.path ins = some v') :
    v' = v p ∧ ∃ r, k.execute p behind ins = some r ∧ r.out = { stat := 0 } ∧
      r.sys = k.sys.setBehind p behind := by
  have hbehind := h.setBehind p behind
  rw [AddressSpace.step] at hstep
  rw [Kernel.execute, hop]
  simp only [hcall] at hstep
  simp only [syscall, if_neg harg]
  split_ifs at hstep with hkill
  · obtain ⟨bs, hbs, hstep⟩ := Option.bind_eq_some_iff.mp hstep
    split_ifs at hstep with hpath
    have hloop := hbehind.toBacked.readNameLoop hbs 0
    have hvictims : victims cfg.path (bufferStr bs) k.sim.os.mlqReadyQueue
        k.sim.os.runningList = [] := by
      refine List.filter_eq_nil_iff.mpr fun q _ => ?_
      simpa using hpath q
    refine ⟨(Option.some.inj hstep).symm,
      ⟨{ stat := 0 }, bufferStr bs, k.sys.setBehind p behind⟩, ?_, rfl, rfl⟩
    rw [if_neg (by rw [hkill]; decide), if_pos hkill, readName, hloop]
    simp only [Option.map_some, hvictims, List.length_nil, Nat.cast_zero, List.foldl_nil]
  · refine ⟨(Option.some.inj hstep).symm, ?_⟩
    split_ifs
    · exact ⟨_, rfl, rfl, rfl⟩
    · exact ⟨_, rfl, rfl, rfl⟩

/-- **An instruction over memory** does what it does on the private memory of its process. -/
theorem StackBacked.execute (h : StackBacked total k.sys v)
    (hstep : (v p).step cfg.path ins = some v')
    (htotal : ∑ q, (Function.update v p v' q).pages ≤ total)
    (hlow : ∑ q, (Function.update v p v' q).pages ≤ 8192) :
    ∃ r, k.execute p behind ins = some r ∧ (v p).ShowsIns ins r.out ∧
      StackBacked total r.sys (Function.update v p v') := by
  have hbehind := h.setBehind p behind
  rcases hcall : ins.call with _ | inst
  · have hsys : ins.opcode = .syscall ∧ ins.arg0 ≠ 17 := by
      rw [InstT.call] at hcall
      split at hcall <;> simp_all
    obtain ⟨rfl, r, hr, hout, hmem⟩ := h.execute_syscall behind hsys.1 hsys.2 hcall hstep
    refine ⟨r, hr, ?_, ?_⟩
    · rw [AddressSpace.ShowsIns, hcall]
      exact hout
    · rw [Function.update_eq_self, hmem]
      exact hbehind
  · rw [AddressSpace.step] at hstep
    simp only [hcall] at hstep
    obtain ⟨out, y, hrun, hshows, hback⟩ := hbehind.exec hstep htotal hlow
    refine ⟨{ out := out, name := [], sys := y }, ?_, ?_, hback⟩
    · rw [Kernel.execute]
      split
      · rename_i hop
        -- a `SYSCALL` 17 leaves the private memory
        rw [InstT.call, hop] at hcall
        simp only at hcall
        split_ifs at hcall
        obtain rfl := Option.some.inj hcall
        cases hstep
      · rw [hcall, Option.bind_some, hrun, Option.map_some]
    · rw [AddressSpace.ShowsIns, hcall]
      exact hshows

end Execute

/-! ### All programs -/

/-- The frames of RAM, as `init_memphy` counts them. -/
def KernelConfig.frames (cfg : KernelConfig) : ℕ := (cfg.memramsz.toInt.tdiv pagingPagesz).toNat

/-- The pages that all programs come to, each run alone to its end. -/
def KernelConfig.demand (cfg : KernelConfig) : ℕ :=
  ∑ p, (privateRun cfg.path (cfg.text p)).elim 0 AddressSpace.pages

/-- Every program, run alone, stays in its pages, and all pages fit into RAM, in frames that an
entry can name. -/
structure KernelConfig.Fits (cfg : KernelConfig) : Prop where
  isPrivate : ∀ p, (privateRun cfg.path (cfg.text p)).isSome
  room : cfg.demand ≤ cfg.frames
  low : cfg.demand ≤ 8192

instance (cfg : KernelConfig) : Decidable cfg.Fits :=
  decidable_of_iff ((∀ p, (privateRun cfg.path (cfg.text p)).isSome) ∧
      cfg.demand ≤ cfg.frames ∧ cfg.demand ≤ 8192)
    ⟨fun ⟨h₁, h₂, h₃⟩ => ⟨h₁, h₂, h₃⟩, fun ⟨h₁, h₂, h₃⟩ => ⟨h₁, h₂, h₃⟩⟩

section Run

variable {cfg : KernelConfig} {k k' : Kernel cfg} {v : cfg.Proc → AddressSpace}

/-- The memories `v` are those that the processes work on. -/
structure Kernel.Private (k : Kernel cfg) (v : cfg.Proc → AddressSpace) : Prop where
  backed : StackBacked cfg.frames k.sys v
  run : ∀ p, (privateMemory cfg.path).Run (k.shown p) (v p)
  executed : ∀ p, (k.shown p).map Prod.fst = k.sim.executed p

/-- **The next instruction** of a CPU can be executed. -/
theorem Kernel.Private.execute (h : k.Private v) (hfits : cfg.Fits) (hexec : ExecOk k.sim)
    {id : Fin cfg.numCpus} {proc : cfg.Proc} {t : ℤ} {ins : InstT}
    (hx : k.sim.os.cpu id = ⟨.run, some proc, t⟩) (hins : k.sim.fetched id = some ins)
    (behind : VmRg) : ∃ r v', k.execute proc behind ins = some r ∧
      (v proc).step cfg.path ins = some v' ∧ (v proc).ShowsIns ins r.out ∧
      StackBacked cfg.frames r.sys (Function.update v proc v') := by
  obtain ⟨proc', t', hx', hget⟩ := hexec.fetch id ins hins
  obtain rfl : proc = proc' := by
    rw [hx] at hx'
    simpa using congrArg Cpu.proc hx'
  -- what the processes have executed are first parts of their programs
  have hmem (p : cfg.Proc) : privateRun cfg.path ((cfg.text p).take (k.sim.os.pc p)) =
      some (v p) := by
    rw [← hexec.executed p, ← h.executed p]
    exact privateRun_of_run (h.run p)
  have hfinal (p : cfg.Proc) (n : ℕ) : ∃ u, privateRun cfg.path ((cfg.text p).take n) = some u ∧
      u.pages ≤ (privateRun cfg.path (cfg.text p)).elim 0 AddressSpace.pages := by
    obtain ⟨w, hw⟩ := Option.isSome_iff_exists.mp (hfits.isPrivate p)
    obtain ⟨u, hu, hle⟩ := privateRun_take hw n
    exact ⟨u, hu, by rwa [hw]⟩
  obtain ⟨v', hv', hle⟩ := hfinal proc (k.sim.os.pc proc + 1)
  rw [List.take_add_one, hget, Option.toList_some, privateRun_concat _ (hmem proc)] at hv'
  have hdemand : ∑ q, (Function.update v proc v' q).pages ≤ cfg.demand := by
    refine Finset.sum_le_sum fun q _ => ?_
    by_cases hq : q = proc
    · subst hq
      rwa [Function.update_self]
    · rw [Function.update_of_ne hq]
      obtain ⟨u, hu, hle⟩ := hfinal q (k.sim.os.pc q)
      obtain rfl := Option.some.inj (hu.symm.trans (hmem q))
      exact hle
  obtain ⟨r, hr, hshows, hback⟩ : ∃ r, k.execute proc behind ins = some r ∧
      (v proc).ShowsIns ins r.out ∧ StackBacked cfg.frames r.sys (Function.update v proc v') :=
    h.backed.execute hv' (hdemand.trans hfits.room) (hdemand.trans hfits.low)
  exact ⟨r, v', hr, hv', hshows, hback⟩

/-- **Every step of a thread** leaves the processes with memories of their own. -/
theorem Kernel.Private.step (h : k.Private v) (hfits : cfg.Fits) (hexec : ExecOk k.sim)
    {t : Thread cfg.numCpus} {behind : VmRg} (hst : kernelStep k (t, behind) = some k') :
    ∃ v', k'.Private v' := by
  cases kernelStep_cases hst with
  | exec id proc timeLeft ins r ht hx hins hr =>
      obtain ⟨r', v', hr', hv', hshows, hback⟩ := h.execute hfits hexec hx hins behind
      obtain rfl := Option.some.inj (hr.symm.trans hr')
      refine ⟨Function.update v proc v', hback, fun p => ?_, fun p => ?_⟩
      · by_cases hp : p = proc
        · subst hp
          simp only [Function.update_self]
          exact (h.run p).step ⟨hv', hshows⟩
        · simp only [Function.update_of_ne hp]
          exact h.run p
      · rw [Sim.executed_exec]
        by_cases hp : p = proc
        · subst hp
          simp only [Function.update_self, List.map_append, h.executed p, List.map_singleton]
        · simp only [Function.update_of_ne hp]
          exact h.executed p
  | other sim hst hexecuted => exact ⟨v, h.backed, h.run, fun p => hexecuted ▸ h.executed p⟩

/-- In every state the processes work on memories of their own. -/
theorem Kernel.Private.of_run (hfits : cfg.Fits) {ts : List (Thread cfg.numCpus × VmRg)}
    (hrun : (kernelSystem cfg).Run ts k) : ExecOk k.sim ∧ ∃ v, k.Private v := by
  refine ⟨?_, ?_⟩
  · obtain ⟨ts', hsim⟩ := sim_of_kernel_run hrun
    exact ExecOk.of_run hsim
  · induction hrun with
    | init hk =>
        obtain rfl : _ = bootKernel cfg := hk
        exact ⟨fun _ => .empty, ⟨backed_bootSys _ _, fun _ => rfl⟩, fun _ => Run.init rfl,
          fun _ => rfl⟩
    | step hrun hst ih =>
        obtain ⟨v, hv⟩ := ih
        obtain ⟨ts', hsim⟩ := sim_of_kernel_run hrun
        exact hv.step hfits (ExecOk.of_run hsim) hst

/-- Memory holds no thread up: a step of the threads is one over memory. -/
theorem Kernel.Private.enabled (h : k.Private v) (hfits : cfg.Fits) (hexec : ExecOk k.sim)
    {t : Thread cfg.numCpus} (hst : ∃ s', simStep k.sim (t, []) = some s') (behind : VmRg) :
    ∃ k', kernelStep k (t, behind) = some k' := by
  obtain ⟨s', hs'⟩ := hst
  cases t with
  | cpu id =>
      rw [kernelStep, kernelCpuStep]
      split
      · rename_i proc timeLeft ins hx hins
        obtain ⟨r, -, hr, -⟩ := h.execute hfits hexec hx hins behind
        rw [hr]
        exact ⟨_, rfl⟩
      · rw [show simCpuStep k.sim id [] = some s' from hs']
        exact ⟨_, rfl⟩
  | ld | timer | main =>
      rw [kernelStep, hs', Option.map_some]
      · exact ⟨_, rfl⟩
      · simp

/-- **Memory holds nothing up**: from every reachable state on, whatever the threads come to without
memory, in whatever order they take their steps, they come to with it, in as many steps. -/
theorem comes_about_in_memory (hfits : cfg.Fits) {ts : List (Thread cfg.numCpus × VmRg)}
    (hrun : (kernelSystem cfg).Run ts k) {P : Sim cfg.toSimConfig → Prop} {N : ℕ}
    (h : Inevitable ((simSystem cfg.toSimConfig).startingAt k.sim) Thread.works P N) :
    Inevitable ((kernelSystem cfg).startingAt k) (fun a => a.1 ≠ .main) (fun k' => P k'.sim) N where
  enabled := by
    intro ts' k' hrun'
    obtain ⟨us, -, hsim⟩ := sim_of_kernel hrun'
    refine (h.enabled hsim).imp_right ?_
    rintro ⟨⟨t, name⟩, s', hworks, hst⟩
    obtain ⟨hexec, v, hv⟩ := Kernel.Private.of_run hfits (hrun.append hrun')
    obtain ⟨k'', hk''⟩ := hv.enabled hfits hexec (simStep_name hst []) ⟨0, 0⟩
    exact ⟨(t, ⟨0, 0⟩), k'', hworks, hk''⟩
  bounded := by
    intro ts' k' hrun' hcount
    obtain ⟨us, hus, hsim⟩ := sim_of_kernel hrun'
    refine h.bounded hsim (hcount.trans_eq ?_)
    have hmap := congrArg (List.countP fun t => t ≠ .main) hus
    rw [List.countP_map, List.countP_map] at hmap
    exact hmap.symm

/-- A program that has been executed has shown what it shows alone. -/
theorem Kernel.Private.shown_eq (h : k.Private v) {p : cfg.Proc} {es : List (InstT × Out)}
    (halone : alone cfg.path (cfg.text p) = some es)
    (hexecuted : k.sim.executed p = cfg.text p) : k.shown p = es := by
  obtain ⟨x, hx, rfl⟩ := Option.map_eq_some_iff.mp halone
  rw [← hexecuted, ← h.executed p] at hx
  rw [eq_alone_of_run (h.run p) hx]

/-- **Every program shows what it shows alone**, whatever the order of the threads: for programs
that fit, read only what they have written and meet the conditions of `SimConfig.Plain`, some thread
other than `main` can take a step until all have been executed, and after so many of these steps
each program has shown what it does with a memory of its own. -/
theorem programs_compute (hfits : cfg.Fits) (hplain : cfg.toSimConfig.Plain) {slot : ℕ}
    (hslot : ∀ p, cfg.arrival p ≤ slot)
    (hread : ∀ p, (alone cfg.path (cfg.text p)).isSome) :
    Inevitable (kernelSystem cfg) (fun a => a.1 ≠ .main)
      (fun k => ∀ p, alone cfg.path (cfg.text p) = some (k.shown p))
      ((slot + 1 + cfg.work) * (11 * cfg.numCpus + 11 + 1)) := by
  have hboot : (kernelSystem cfg).Run [] (bootKernel cfg) := Run.init rfl
  have hsim : (simSystem cfg.toSimConfig).Run [] (bootKernel cfg).sim := Run.init rfl
  have hexecuted := executed_comes_about hplain hslot hsim
  refine (comes_about_in_memory hfits hboot hexecuted).imp fun hrun hexecuted p => ?_
  obtain ⟨-, v, hv⟩ := Kernel.Private.of_run hfits (hboot.append hrun)
  obtain ⟨es, hes⟩ := Option.isSome_iff_exists.mp (hread p)
  rw [hes, hv.shown_eq hes (hexecuted p)]

end Run

/-! ### Two programs at one address -/

/-- Two CPUs, and two programs that write different bytes to address 0 of their memories and read
them. -/
def sameAddress : KernelConfig where
  numCpus := 2
  timeSlot := 2
  numProcesses := 2
  startTime _ := 0
  prio _ := 0
  codeSize _ := 3
  path _ := [112#8]
  text p :=
    [{ opcode := .alloc, arg0 := 300, arg1 := 0 },
      { opcode := .write, arg0 := if (p : ℕ) = 0 then 7 else 9, arg1 := 0, arg2 := 0 },
      { opcode := .read, arg0 := 0, arg1 := 0 }]
  text_length _ := rfl
  memramsz := 1024
  memswpsz _ := 0

/-- Both pages of each fit into RAM. -/
theorem fits_sameAddress : sameAddress.Fits := by decide +kernel

/-- Both programs come to show what they show alone. -/
theorem programs_compute_sameAddress :
    Inevitable (kernelSystem sameAddress) (fun a => a.1 ≠ .main)
      (fun k => ∀ p, alone sameAddress.path (sameAddress.text p) = some (k.shown p)) (8 * 34) := by
  have hplain : sameAddress.toSimConfig.Plain :=
    { cpus := Nat.two_pos
      room := by decide
      noKillall := by
        rw [SimConfig.NoKillall]
        decide
      codeSize := by decide }
  have harrival : ∀ p, sameAddress.arrival p ≤ 1 := by decide
  have hread : ∀ p, (alone sameAddress.path (sameAddress.text p)).isSome := by decide +kernel
  exact programs_compute fits_sameAddress hplain harrival hread

end OsSim
