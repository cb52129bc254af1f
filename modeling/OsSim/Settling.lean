import OsSim.KillSteps
import OsSim.Lib.WeakSimulation

/-!
# Killing at Once

`KillSteps` carries out a `killall` instruction in steps, and `simSystem` in one. Where no
`killall` overlaps another one or a section under `queue_lock` (`Killing.Apart`), the two agree.

## What is left to do

The loops have passed some entries of the list that they are in, and all of the lists before it;
the other entries are before them (`KillAt.split`). While a gap is being closed the list is taken
without the entry at `j`, which the next assignment overwrites. `Killing.settled` is the state once
the `killall` has returned: what is before the loops is filtered, the processes filtered out have
`pid` 0, and the CPU is back in `cpu_routine`. When the `killall` begins this is all that
`Sim.exec` does, and no step of the loops changes it. The steps of other threads, if they do not
use the lists, are the same in the settled state (`simStep_overlay`), since nothing but the lists,
the `pid` fields and the locals of that CPU is different there.

Without the condition the two differ: while the gap of a terminated entry is being closed, the
entry after it is in the array twice, and two CPUs can get it; and a `get_proc` meanwhile makes the
loops drop an entry that nobody has terminated.

## Main results

* `Killing.settled_killStep`: **a step of a `killall` does not change what it will have done**.
* `Settles.step`: **what a step does while `killall` instructions are apart**.
* `killing_refines`: the runs in steps are runs of `simSystem`.
-/

namespace OsSim

open TransitionSystem

section Overlay

variable {cfg : OsConfig}

/-! ### Other lists, and other locals of one CPU -/

variable (s : Os cfg) (lists : Option (Fin maxPrio) → List cfg.Proc) {id id' : Fin cfg.numCpus}
  (c : Cpu cfg.Proc)

/-- The state with other lists, and with `c` as the locals of CPU `id`. -/
def Os.overlay (id : Fin cfg.numCpus) : Os cfg := (s.setLists lists).setCpu id c

/-- The other CPUs are where they were. -/
theorem Os.cpu_overlay (hid : id' ≠ id) : (s.overlay lists c id).cpu id' = s.cpu id' :=
  Os.cpu_setCpu_of_ne _ _ _ hid

/-- A change of another CPU's locals and the overlay do not depend on their order. -/
theorem Os.setCpu_overlay (hid : id' ≠ id) (y : Cpu cfg.Proc) :
    (s.overlay lists c id).setCpu id' y = (s.setCpu id' y).overlay lists c id := by
  simp only [overlay, setCpu, setLists, Function.update_comm hid]

/-- The same, with a program counter that moves on. -/
theorem Os.setCpu_setPc_overlay (hid : id' ≠ id) (y : Cpu cfg.Proc) (pc : cfg.Proc → ℕ) :
    ({ s.overlay lists c id with pc := pc }).setCpu id' y =
      ({ s with pc := pc }.setCpu id' y).overlay lists c id := by
  simp only [overlay, setCpu, setLists, Function.update_comm hid]

/-- The same, with a clock that a section of `next_slot` has changed. -/
theorem Os.setCpu_setClock_overlay (hid : id' ≠ id) (y : Cpu cfg.Proc)
    (clock : Clock (Device cfg.numCpus)) :
    ({ s.overlay lists c id with clock := clock }).setCpu id' y =
      ({ s with clock := clock }.setCpu id' y).overlay lists c id := by
  simp only [overlay, setCpu, setLists, Function.update_comm hid]

/-- **A step of another CPU that does not use the lists** does not look at them. -/
theorem cpuStep_overlay (hid : id' ≠ id)
    (hl : (s.cpu id').label ∉ [.getFirst, .getFinished, .getPut, .putRunning, .putReady]) :
    cpuStep (s.overlay lists c id) id' =
      (cpuStep s id').map fun os => os.overlay lists c id := by
  have hpc : (s.overlay lists c id).pc = s.pc := rfl
  have hdone : (s.overlay lists c id).done = s.done := rfl
  have hclock : (s.overlay lists c id).clock = s.clock := rfl
  rcases hx : s.cpu id' with ⟨label, proc, t⟩
  have hx' := (s.cpu_overlay lists c hid).trans hx
  rw [hx] at hl
  simp only [cpuStep, hx, hx', hpc, hdone, hclock, Os.setCpu_overlay s lists c hid]
  cases label with
  | top =>
      rcases proc with _ | proc
      · rfl
      · simp only [apply_ite (Option.map _), Option.map_some]
  | recheck =>
      rcases proc with _ | proc
      · simp only [apply_ite (Option.map _), Option.map_some]
      · rfl
  | run =>
      rcases proc with _ | proc
      · rfl
      · exact congrArg some (s.setCpu_setPc_overlay lists c hid _ _)
  | slotWait => simp only [apply_ite (Option.map _), Option.map_some, Option.map_none]
  | slotSet => exact congrArg some (s.setCpu_setClock_overlay lists c hid _ _)
  | detach => exact congrArg some (s.setCpu_setClock_overlay lists c hid _ _)
  | exited => rfl
  | getFirst => simp at hl
  | getFinished => simp at hl
  | getPut => simp at hl
  | putRunning => simp at hl
  | putReady => simp at hl

/-- The same for the loader, outside `add_proc`. -/
theorem ldStep_overlay (hl : s.ld ≠ .addRunning) (hl' : s.ld ≠ .addReady) :
    ldStep (s.overlay lists c id) = (ldStep s).map fun os => os.overlay lists c id := by
  have hld : (s.overlay lists c id).ld = s.ld := rfl
  have hi : (s.overlay lists c id).i = s.i := rfl
  have hclock : (s.overlay lists c id).clock = s.clock := rfl
  rw [ldStep, ldStep, hld, hi, hclock]
  cases hx : s.ld with
  | top => simp only [apply_ite (Option.map _), Option.map_some]; rfl
  | checkTime =>
      simp only
      split_ifs <;> rfl
  | waitSlot => simp only [apply_ite (Option.map _), Option.map_some, Option.map_none]; rfl
  | nextSlot => simp only [apply_ite (Option.map _), Option.map_some, Option.map_none]; rfl
  | addRunning => exact absurd hx hl
  | addReady => exact absurd hx hl'
  | _ => rfl

end Overlay

variable {cfg : SimConfig}

/-! ### What is left to do -/

section Split

variable {P : Type} (k : KillAt) (q : Option (Fin maxPrio)) (l : List P)

/-- The list without the entry that is being removed. -/
def KillAt.gapless : List P :=
  match k.shift with
  | none => l
  | some j => l.eraseIdx j

/-- What the loops have passed of list `q`, which holds `l`, and what is still before them. -/
def KillAt.split : List P × List P :=
  match k.lists with
  | [] => (l, [])
  | q₀ :: lists =>
      if q = q₀ then ((k.gapless l).take k.i, (k.gapless l).drop k.i)
      else if q ∈ lists then ([], l)
      else (l, [])

end Split

namespace Killing

/-- What the `killall` that CPU `id` carries out makes of the lists. -/
def leaves (x : Killing cfg) (k : KillAt) (q : Option (Fin maxPrio)) : List cfg.Proc :=
  let parts := k.split q (x.sim.os.list q)
  parts.1 ++ parts.2.filter fun p => cfg.path p ≠ k.name

/-- The processes that it is still going to terminate. -/
def Dooms (x : Killing cfg) (k : KillAt) (p : cfg.Proc) : Prop :=
  cfg.path p = k.name ∧ ∃ q, p ∈ (k.split q (x.sim.os.list q)).2

instance (x : Killing cfg) (k : KillAt) (p : cfg.Proc) : Decidable (x.Dooms k p) :=
  inferInstanceAs (Decidable (_ ∧ ∃ _, _))

/-- **The state that the `killall` makes**, with the CPU back in `cpu_routine`. -/
def settled (x : Killing cfg) (id : Fin cfg.numCpus) (k : KillAt) : Sim cfg :=
  { x.sim with
    os := (x.sim.os.setLists (x.leaves k)).setCpu id (x.sim.os.cpu id).returned
    pid := fun p => if x.Dooms k p then 0 else x.sim.pid p }

end Killing

/-- The lists still to look at are distinct, and the index of the shifting loop is in the list. -/
structure KillAt.Ok (k : KillAt) (os : Os cfg.toOsConfig) : Prop where
  nodup : k.lists.Nodup
  shift : ∀ j, k.shift = some j → ∀ q, k.lists.head? = some q → j < (os.list q).length

/-! ### What the loops have passed -/

namespace KillAt

variable {P : Type} {k k' : KillAt} {q q₀ : Option (Fin maxPrio)}
  {lists : List (Option (Fin maxPrio))} {l : List P}

/-- The list that the loops are in: they have passed what is before `i`, without the gap. -/
theorem split_head (hlists : k.lists = q₀ :: lists) :
    k.split q₀ l = ((k.gapless l).take k.i, (k.gapless l).drop k.i) := by
  rw [split, hlists]
  exact if_pos rfl

/-- The other lists are passed as a whole. -/
theorem split_of_ne (hlists : k.lists = q₀ :: lists) (hlists' : k'.lists = q₀ :: lists)
    (hq : q ≠ q₀) : k'.split q l = k.split q l := by
  rw [split, split, hlists, hlists']
  simp only [if_neg hq]

/-- Before the loops, all of every list is still to be looked at. -/
theorem split_first (name : CStr) (q : Option (Fin maxPrio)) (l : List P) :
    (first name).split q l = ([], l) := by
  rw [split, first]
  rcases q with _ | prio
  · simp [gapless]
  · simp

/-- Going on to the next list, once the loop is through with the one it is in. -/
theorem split_next (hlists : k.lists = q₀ :: lists) (hnodup : k.lists.Nodup)
    (hshift : k.shift = none) (hend : q = q₀ → l.length ≤ k.i) :
    ({ k with lists := lists, i := 0 } : KillAt).split q l = k.split q l := by
  rw [hlists, List.nodup_cons] at hnodup
  have hgap : k.gapless l = l := by rw [gapless, hshift]
  have hgap' : ({ k with lists := lists, i := 0 } : KillAt).gapless l = l := by
    rw [gapless, hshift]
  by_cases hq : q = q₀
  · subst hq
    have hfst : l.take k.i = l := List.take_of_length_le (hend rfl)
    have hsnd : l.drop k.i = [] := List.drop_eq_nil_of_le (hend rfl)
    rw [split_head hlists, hgap, hfst, hsnd, split]
    rcases lists with _ | ⟨q', lists⟩
    · rfl
    · rw [List.mem_cons, not_or] at hnodup
      simp [hnodup.1.1, hnodup.1.2]
  · rw [split, split, hlists]
    rcases lists with _ | ⟨q', lists⟩
    · simp [hq]
    · by_cases hq' : q = q'
      · subst hq'
        simp [hgap', hq]
      · simp [hq, hq']

end KillAt

namespace Killing

variable {x x' : Killing cfg} {id : Fin cfg.numCpus} {k k' : KillAt}

@[simp] theorem list_setList (x : Killing cfg) (q : Option (Fin maxPrio)) (l : List cfg.Proc) :
    (x.setList q l).sim.os.list = Function.update x.sim.os.list q l :=
  Os.list_setLists _ _

@[simp] theorem leaves_terminate (proc : cfg.Proc) :
    (x.terminate proc).leaves k = x.leaves k := rfl

@[simp] theorem dooms_terminate (proc p : cfg.Proc) :
    (x.terminate proc).Dooms k p ↔ x.Dooms k p := Iff.rfl

@[simp] theorem pid_terminate (proc : cfg.Proc) :
    (x.terminate proc).sim.pid = Function.update x.sim.pid proc 0 := rfl

/-- States that differ in the lists and the `pid` fields only, and leave the same. -/
theorem settled_congr (hsim : ∃ lists pid, x'.sim =
      { x.sim with os := x.sim.os.setLists lists, pid := pid })
    (hleaves : x'.leaves k' = x.leaves k)
    (hpid : ∀ p, (if x'.Dooms k' p then 0 else x'.sim.pid p) =
      if x.Dooms k p then 0 else x.sim.pid p) : x'.settled id k' = x.settled id k := by
  obtain ⟨lists, pid, hsim⟩ := hsim
  have hpid' := funext hpid
  rw [settled, settled, hleaves, hpid', hsim]
  rfl

/-- States that differ in the lists only, where the loops have passed the same. -/
theorem settled_of_split (hsim : ∃ lists, x'.sim =
      { x.sim with os := x.sim.os.setLists lists }) (hname : k'.name = k.name)
    (hsplit : ∀ q, k'.split q (x'.sim.os.list q) = k.split q (x.sim.os.list q)) :
    x'.settled id k' = x.settled id k := by
  obtain ⟨lists, hsim⟩ := hsim
  refine settled_congr ⟨lists, x.sim.pid, hsim⟩ ?_ ?_
  · funext q
    rw [leaves, leaves, hsplit q, hname]
  · intro p
    have hdooms : x'.Dooms k' p ↔ x.Dooms k p := by simp only [Dooms, hsplit, hname]
    have hpid : x'.sim.pid = x.sim.pid := by rw [hsim]
    simp only [hdooms, hpid]

/-- **The whole `killall` is before it when it begins.** -/
theorem settled_start {proc : cfg.Proc} {t : ℤ} {ins : InstT} {name : CStr}
    (hx : x.sim.os.cpu id = ⟨.run, some proc, t⟩) (hkill : ins.isKillall = true) :
    (x.start id proc ins name).settled id (KillAt.first name) =
      x.sim.exec id proc t ins name := by
  have hcpu : ((x.start id proc ins name).sim.os.cpu id).returned =
      ⟨.slotSet, some proc, t - 1⟩ := by
    have hsame : (x.start id proc ins name).sim.os.cpu id = x.sim.os.cpu id := rfl
    rw [hsame, hx, Cpu.returned]
  have hleaves (q : Option (Fin maxPrio)) :
      (x.start id proc ins name).leaves (KillAt.first name) q =
        (x.sim.os.list q).filter fun p => cfg.path p ≠ name := by
    rw [leaves, KillAt.split_first]
    cases q <;> rfl
  have hdooms (p : cfg.Proc) : (x.start id proc ins name).Dooms (KillAt.first name) p ↔
      p ∈ victims cfg.path name x.sim.os.mlqReadyQueue x.sim.os.runningList := by
    simp only [Dooms, KillAt.split_first, victims, List.mem_filter, List.mem_append,
      List.mem_flatMap, List.mem_finRange, true_and, decide_eq_true_eq, Option.exists]
    exact and_comm
  rw [settled, hcpu, Sim.exec, if_pos hkill, Sim.killall, Os.setLists]
  simp only [hleaves, hdooms]
  rfl

/-- An entry that stays, as it does not have the path, is passed. -/
theorem settled_pass {q : Option (Fin maxPrio)} {lists : List (Option (Fin maxPrio))}
    {proc : cfg.Proc} (hlists : k.lists = q :: lists) (hshift : k.shift = none)
    (hproc : (x.sim.os.list q)[k.i]? = some proc) (hpath : cfg.path proc ≠ k.name) :
    x.settled id { k with i := k.i + 1 } = x.settled id k := by
  obtain ⟨hi, rfl⟩ := List.getElem?_eq_some_iff.mp hproc
  have hlists' : ({ k with i := k.i + 1 } : KillAt).lists = q :: lists := hlists
  have hgap (l : List cfg.Proc) : k.gapless l = l := by rw [KillAt.gapless, hshift]
  have hgap' (l : List cfg.Proc) : ({ k with i := k.i + 1 } : KillAt).gapless l = l := by
    rw [KillAt.gapless, hshift]
  have hdrop := List.drop_eq_getElem_cons hi
  refine settled_congr ⟨x.sim.os.list, x.sim.pid, rfl⟩ ?_ ?_
  · funext q'
    rw [leaves, leaves]
    by_cases hq : q' = q
    · subst hq
      rw [KillAt.split_head hlists, KillAt.split_head hlists', hgap, hgap', hdrop,
        List.take_succ_eq_append_getElem hi, List.filter_cons_of_pos (by simpa using hpath),
        List.append_assoc]
      rfl
    · rw [KillAt.split_of_ne hlists hlists' hq]
  · intro p
    have hdooms : x.Dooms { k with i := k.i + 1 } p ↔ x.Dooms k p := by
      refine and_congr_right fun hp => exists_congr fun q' => ?_
      by_cases hq : q' = q
      · subst hq
        rw [KillAt.split_head hlists, KillAt.split_head hlists', hgap, hgap', hdrop,
          List.mem_cons, or_iff_right]
        rintro rfl
        exact hpath hp
      · rw [KillAt.split_of_ne hlists hlists' hq]
    simp only [hdooms]

/-- An entry that is terminated: the loops still have to close its gap. -/
theorem settled_terminate {q : Option (Fin maxPrio)} {lists : List (Option (Fin maxPrio))}
    {proc : cfg.Proc} (hlists : k.lists = q :: lists) (hshift : k.shift = none)
    (hproc : (x.sim.os.list q)[k.i]? = some proc) (hpath : cfg.path proc = k.name) :
    (x.terminate proc).settled id { k with shift := some k.i } = x.settled id k := by
  obtain ⟨hi, rfl⟩ := List.getElem?_eq_some_iff.mp hproc
  have hlists' : ({ k with shift := some k.i } : KillAt).lists = q :: lists := hlists
  have hgap (l : List cfg.Proc) : k.gapless l = l := by rw [KillAt.gapless, hshift]
  have hdrop := List.drop_eq_getElem_cons hi
  have hlen : ((x.sim.os.list q).take k.i).length = k.i := List.length_take_of_le hi.le
  -- what the loops have passed, and what is before them
  have hhead : ({ k with shift := some k.i } : KillAt).split q (x.sim.os.list q) =
      ((x.sim.os.list q).take k.i, (x.sim.os.list q).drop (k.i + 1)) := by
    rw [KillAt.split_head hlists', KillAt.gapless]
    simp only [List.eraseIdx_eq_take_drop_succ]
    rw [List.take_left' hlen, List.drop_left' hlen]
  refine settled_congr ⟨x.sim.os.list, _, rfl⟩ ?_ ?_
  · funext q'
    rw [leaves_terminate, leaves, leaves]
    by_cases hq : q' = q
    · subst hq
      rw [hhead, KillAt.split_head hlists, hgap, hdrop,
        List.filter_cons_of_neg (by simpa using hpath)]
    · rw [KillAt.split_of_ne hlists hlists' hq]
  · intro p
    have hmem (q' : Option (Fin maxPrio)) : p ∈ (k.split q' (x.sim.os.list q')).2 ↔
        (q' = q ∧ p = (x.sim.os.list q)[k.i]) ∨
          p ∈ (({ k with shift := some k.i } : KillAt).split q' (x.sim.os.list q')).2 := by
      by_cases hq : q' = q
      · subst hq
        rw [hhead, KillAt.split_head hlists, hgap, hdrop, List.mem_cons]
        simp only [true_and]
      · rw [KillAt.split_of_ne hlists hlists' hq]
        simp only [hq, false_and, false_or]
    have hdooms : x.Dooms k p ↔ p = (x.sim.os.list q)[k.i] ∨
        x.Dooms { k with shift := some k.i } p := by
      simp only [Dooms, hmem, exists_or, exists_and_right, exists_eq, true_and, and_or_left]
      refine or_congr_left (and_iff_right_of_imp ?_)
      rintro rfl
      exact hpath
    simp only [dooms_terminate, pid_terminate]
    by_cases hp : p = (x.sim.os.list q)[k.i]
    · rw [if_pos (hdooms.mpr (Or.inl hp)), hp, Function.update_self, ite_self]
    · simp only [hdooms.trans (or_iff_right hp), Function.update_of_ne hp]

/-- Moving one entry forward, while a gap is being closed. -/
theorem gapless_set {P : Type} {l : List P} {j : ℕ} (hj : j + 1 < l.length) :
    (l.set j l[j + 1]).eraseIdx (j + 1) = l.eraseIdx j := by
  refine List.ext_getElem ?_ ?_
  · rw [List.length_eraseIdx_of_lt (by simpa using hj), List.length_eraseIdx_of_lt (by omega),
      List.length_set]
  · intro n hn hn'
    rw [List.getElem_eraseIdx, List.getElem_eraseIdx]
    rcases Nat.lt_trichotomy n j with hlt | rfl | hlt
    · simp [hlt, Nat.lt_succ_of_lt hlt, hlt.ne']
    · simp
    · simp [Nat.not_lt.mpr hlt, Nat.not_lt.mpr hlt.le, (Nat.lt_succ_of_lt hlt).ne]

/-- Replacing the list that the loops are in by one that is the same without the gap. -/
theorem split_setList {q : Option (Fin maxPrio)} {lists : List (Option (Fin maxPrio))}
    {l : List cfg.Proc} (hlists : k.lists = q :: lists) (hlists' : k'.lists = q :: lists)
    (hi : k'.i = k.i) (hgap : k'.gapless l = k.gapless (x.sim.os.list q))
    (q' : Option (Fin maxPrio)) :
    k'.split q' ((x.setList q l).sim.os.list q') = k.split q' (x.sim.os.list q') := by
  rw [list_setList]
  by_cases hq : q' = q
  · subst hq
    rw [Function.update_self, KillAt.split_head hlists, KillAt.split_head hlists', hgap, hi]
  · rw [Function.update_of_ne hq, KillAt.split_of_ne hlists hlists' hq]

/-- **A step of a `killall` does not change what it will have done**, and the last one has done
it. -/
theorem settled_killStep (hk : k.Ok x.sim.os) (h : x.killStep id k = some x') :
    (x'.killing = Function.update x.killing id none ∧ x'.sim = x.settled id k) ∨
      ∃ k' : KillAt, x'.killing = Function.update x.killing id (some k') ∧ k'.Ok x'.sim.os ∧
        x'.sim.os.cpu = x.sim.os.cpu ∧ x'.settled id k' = x.settled id k := by
  cases killStep_cases h with
  | finish hlists =>
      refine Or.inl ⟨rfl, ?_⟩
      have hsplit (q : Option (Fin maxPrio)) (l : List cfg.Proc) : k.split q l = (l, []) := by
        rw [KillAt.split, hlists]
      have hleaves : x.leaves k = x.sim.os.list := by
        funext q
        simp [leaves, hsplit]
      have hdooms (p : cfg.Proc) : ¬ x.Dooms k p := by simp [Dooms, hsplit]
      simp only [settled, hleaves, hdooms, if_false, Os.setLists_list]
  | next q lists hlists hshift hend =>
      refine Or.inr ⟨_, rfl, ⟨?_, ?_⟩, rfl, ?_⟩
      · have hnodup := hk.nodup
        rw [hlists] at hnodup
        exact hnodup.of_cons
      · intro j hj
        rw [hshift] at hj
        cases hj
      · refine settled_of_split ⟨x.sim.os.list, rfl⟩ rfl fun q' => ?_
        refine KillAt.split_next hlists hk.nodup hshift ?_
        rintro rfl
        exact List.getElem?_eq_none_iff.mp hend
  | pass q lists proc hlists hshift hproc hpath =>
      refine Or.inr ⟨_, rfl, ⟨hk.nodup, ?_⟩, rfl,
        settled_pass hlists hshift hproc hpath⟩
      intro j hj
      rw [hshift] at hj
      cases hj
  | terminate q lists proc hlists hshift hproc hpath =>
      refine Or.inr ⟨_, rfl, ⟨hk.nodup, ?_⟩, rfl,
        settled_terminate hlists hshift hproc hpath⟩
      intro j hj q' hq'
      obtain rfl : k.i = j := Option.some.inj hj
      obtain rfl : q = q' := by simpa [hlists] using hq'
      exact (List.getElem?_eq_some_iff.mp hproc).1
  | shift q lists j hlists hshift hj =>
      refine Or.inr ⟨_, rfl, ⟨hk.nodup, ?_⟩, rfl, ?_⟩
      · intro j' hj' q' hq'
        obtain rfl : j + 1 = j' := Option.some.inj hj'
        obtain rfl : q = q' := by simpa [hlists] using hq'
        simpa [goto] using hj
      · refine settled_of_split ⟨_, rfl⟩ rfl fun q' => ?_
        have hgap : ({ k with shift := some (j + 1) } : KillAt).gapless
            ((x.sim.os.list q).set j (x.sim.os.list q)[j + 1]) =
              k.gapless (x.sim.os.list q) := by
          rw [KillAt.gapless, KillAt.gapless, hshift]
          exact gapless_set hj
        have hlists' : ({ k with shift := some (j + 1) } : KillAt).lists = q :: lists := hlists
        exact split_setList hlists hlists' rfl hgap q'
  | shrink q lists j hlists hshift hj =>
      refine Or.inr ⟨_, rfl, ⟨hk.nodup, ?_⟩, rfl, ?_⟩
      · intro j' hj'
        cases hj'
      · have hlast : j = (x.sim.os.list q).length - 1 := by
          have hlt := hk.shift j hshift q (by rw [hlists]; rfl)
          omega
        refine settled_of_split ⟨_, rfl⟩ rfl fun q' => ?_
        have hgap : ({ k with shift := none } : KillAt).gapless (x.sim.os.list q).dropLast =
            k.gapless (x.sim.os.list q) := by
          rw [KillAt.gapless, KillAt.gapless, hshift, hlast]
          exact List.eraseIdx_length_sub_one.symm
        have hlists' : ({ k with shift := none } : KillAt).lists = q :: lists := hlists
        exact split_setList hlists hlists' rfl hgap q'

end Killing

/-! ### The steps of the other threads -/

section Overlay

variable (s : Sim cfg) (lists : Option (Fin maxPrio) → List cfg.Proc) (pid : cfg.Proc → ℕ)
  {id : Fin cfg.numCpus} (c : Cpu cfg.Proc) {t : Thread cfg.numCpus} {name : CStr}

/-- The state with other lists and `pid` fields, and with `c` as the locals of CPU `id`. -/
def Sim.overlay (id : Fin cfg.numCpus) : Sim cfg :=
  { s with os := s.os.overlay lists c id, pid := pid }

/-- The same for a CPU that executes instructions. -/
theorem simCpuStep_overlay {id' : Fin cfg.numCpus} (hid : id' ≠ id)
    (hl : ¬ s.TakesLists (.cpu id')) :
    simCpuStep (s.overlay lists pid c id) id' name =
      (simCpuStep s id' name).map fun s' => s'.overlay lists pid c id := by
  obtain ⟨hlabel, hkill⟩ := not_or.mp hl
  have hfetched : (s.overlay lists pid c id).fetched = s.fetched := rfl
  have hpc : (s.overlay lists pid c id).os.pc = s.os.pc := rfl
  have hos : (s.overlay lists pid c id).os = s.os.overlay lists c id := rfl
  have hother : (cpuStep (s.os.overlay lists c id) id').map
      (fun os => { s.overlay lists pid c id with os := os }) =
        ((cpuStep s.os id').map fun os => { s with os := os }).map
          fun s' => s'.overlay lists pid c id := by
    rw [cpuStep_overlay s.os lists c hid hlabel, Option.map_map, Option.map_map]
    rfl
  rcases hx : s.os.cpu id' with ⟨label, proc, τ⟩
  have hx' : (s.overlay lists pid c id).os.cpu id' = ⟨label, proc, τ⟩ :=
    (s.os.cpu_overlay lists c hid).trans hx
  rw [simCpuStep, simCpuStep, hx, hx', hfetched, hpc, hos]
  rcases proc with _ | proc
  · cases label <;> exact hother
  · cases label with
    | run =>
        rcases hins : s.fetched id' with _ | ins
        · simp only
          rcases (cfg.text proc)[s.os.pc proc]? with _ | ins
          · simp only [Os.setCpu_overlay s.os lists c hid]
            rfl
          · rfl
        · have hnot : ins.isKillall = false := by simpa [hins] using hkill
          have hexec := s.os.setCpu_setPc_overlay lists c hid ⟨.slotSet, some proc, τ - 1⟩
            (Function.update s.os.pc proc (s.os.pc proc + 1))
          simp only [Sim.exec, hnot, Option.map_some]
          exact congrArg (fun os => some ({ s with
            os := os
            fetched := Function.update s.fetched id' none
            pid := pid
            executed := Function.update s.executed proc (s.executed proc ++ [ins]) } : Sim cfg))
            hexec
    | top =>
        simp only
        split_ifs
        · simp only [Os.setCpu_overlay s.os lists c hid]
          rfl
        · exact hother
    | _ => exact hother

/-- **A step of another thread that does not use the lists** does not look at them. -/
theorem simStep_overlay (ht : t ≠ .cpu id) (hl : ¬ s.TakesLists t)
    (hid : (s.os.cpu id).label ≠ .exited) (hc : c.label ≠ .exited) :
    simStep (s.overlay lists pid c id) (t, name) =
      (simStep s (t, name)).map fun s' => s'.overlay lists pid c id := by
  cases t with
  | cpu id' =>
      have hne : id' ≠ id := by
        rintro rfl
        exact ht rfl
      exact simCpuStep_overlay s lists pid c hne hl
  | ld =>
      obtain ⟨hrunning, hready⟩ := not_or.mp hl
      simp only [simStep, osStep, Sim.overlay, ldStep_overlay s.os lists c hrunning hready,
        Option.map_map]
      rfl
  | timer =>
      simp only [simStep, osStep, Option.map_map]
      rfl
  | main =>
      have hnot : ¬ ∀ id', (s.os.cpu id').label = .exited := fun hall => hid (hall id)
      have hnot' : ¬ ∀ id', ((s.overlay lists pid c id).os.cpu id').label = .exited := by
        intro hall
        have hlabel := hall id
        rw [Sim.overlay, Os.overlay, Os.cpu_setCpu_self] at hlabel
        exact hc hlabel
      simp only [simStep, osStep, hnot, hnot', false_and, if_false, Option.map_none]

end Overlay

/-- Such a step leaves the lists, the `pid` fields and the CPU in `__sys_killall` alone. -/
theorem simStep_frame {s s' : Sim cfg} {id : Fin cfg.numCpus} {t : Thread cfg.numCpus}
    {name : CStr} (hst : simStep s (t, name) = some s') (ht : t ≠ .cpu id)
    (hl : ¬ s.TakesLists t) (hid : (s.os.cpu id).label ≠ .exited) :
    s'.os.list = s.os.list ∧ s'.pid = s.pid ∧ s'.os.cpu id = s.os.cpu id := by
  have hself : s.overlay s.os.list s.pid (s.os.cpu id) id = s := by
    simp only [Sim.overlay, Os.overlay, Os.setLists_list, Os.setCpu, Function.update_eq_self]
  have hover : simStep (s.overlay s.os.list s.pid (s.os.cpu id) id) (t, name) = _ :=
    simStep_overlay s s.os.list s.pid (s.os.cpu id) ht hl hid hid
  rw [hself, hst, Option.map_some] at hover
  have hsame := Option.some.inj hover
  refine ⟨?_, ?_, ?_⟩
  · rw [hsame]
    simp [Sim.overlay, Os.overlay]
  · rw [hsame]
    rfl
  · rw [hsame]
    exact Os.cpu_setCpu_self _ _ _

/-! ### Refinement -/

/-- **The state that the threads are in**, once the `killall` under way has returned. At most one
is under way. -/
inductive Settles (x : Killing cfg) : Sim cfg → Prop
  | idle (hnone : ∀ id, x.killing id = none) : Settles x x.sim
  | busy (id : Fin cfg.numCpus) (k : KillAt)
      (hone : x.killing = Function.update (fun _ => none) id (some k))
      (hrun : (x.sim.os.cpu id).label = .run) (hk : k.Ok x.sim.os) : Settles x (x.settled id k)

/-- The first step of a `killall` is all of it in the settled state. -/
theorem Settles.of_start {x : Killing cfg} (hnone : ∀ id, x.killing id = none)
    {id : Fin cfg.numCpus} {proc : cfg.Proc} {τ : ℤ} {ins : InstT} (name : CStr)
    (hx : x.sim.os.cpu id = ⟨.run, some proc, τ⟩) (hkill : ins.isKillall = true) :
    Settles (x.start id proc ins name) (x.sim.exec id proc τ ins name) := by
  rw [← Killing.settled_start hx hkill]
  refine .busy id (KillAt.first name) ?_ ?_ ⟨?_, ?_⟩
  · simp only [Killing.start, funext hnone]
  · simp [Killing.start, hx]
  · have hinj : Function.Injective (some : Fin maxPrio → Option (Fin maxPrio)) :=
      Option.some_injective _
    refine List.nodup_cons.mpr ⟨by simp, (List.nodup_finRange maxPrio).map hinj⟩
  · intro j hj
    cases hj

/-- A step of another thread while a `killall` is under way. -/
theorem Settles.of_other {x : Killing cfg} {s' : Sim cfg} {t : Thread cfg.numCpus} {name : CStr}
    {id : Fin cfg.numCpus} {k : KillAt}
    (hone : x.killing = Function.update (fun _ => none) id (some k))
    (hrun : (x.sim.os.cpu id).label = .run) (hk : k.Ok x.sim.os) (ht : t ≠ .cpu id)
    (hl : ¬ x.sim.TakesLists t) (hst : simStep x.sim (t, name) = some s') :
    ∃ s'', simStep (x.settled id k) (t, name) = some s'' ∧ Settles { x with sim := s' } s'' := by
  have hexited : (x.sim.os.cpu id).label ≠ .exited := by simp [hrun]
  obtain ⟨hlists, hpid, hcpu⟩ := simStep_frame hst ht hl hexited
  have hsettled : x.settled id k = x.sim.overlay (x.leaves k)
      (fun p => if x.Dooms k p then 0 else x.sim.pid p) (x.sim.os.cpu id).returned id := rfl
  have hreturned : (x.sim.os.cpu id).returned.label ≠ .exited := by simp [Cpu.returned]
  have hleaves : Killing.leaves { x with sim := s' } k = x.leaves k := by
    funext q
    simp only [Killing.leaves, hlists]
  have hdooms (p : cfg.Proc) : Killing.Dooms { x with sim := s' } k p ↔ x.Dooms k p := by
    simp only [Killing.Dooms, hlists]
  refine ⟨Killing.settled { x with sim := s' } id k, ?_, .busy id k hone (by rw [hcpu, hrun]) ?_⟩
  · rw [hsettled, simStep_overlay _ _ _ _ ht hl hexited hreturned, hst, Option.map_some,
      Killing.settled, hleaves]
    simp only [hdooms, hpid, hcpu]
    rfl
  · refine ⟨hk.nodup, fun j hj q hq => ?_⟩
    rw [hlists]
    exact hk.shift j hj q hq

namespace Settles

variable {x : Killing cfg} {s : Sim cfg}

/-- The fetched instructions are those of the state now. -/
theorem fetched_eq (h : Settles x s) : s.fetched = x.sim.fetched := by
  cases h <;> rfl

/-- The program counters are those of the state now: a `killall` has moved its own when it begins.
-/
theorem pc_eq (h : Settles x s) : s.os.pc = x.sim.os.pc := by
  cases h <;> rfl

/-- A CPU that is not in `__sys_killall` is where it is. -/
theorem cpu_of_none (h : Settles x s) {id : Fin cfg.numCpus} (hid : x.killing id = none) :
    s.os.cpu id = x.sim.os.cpu id := by
  cases h with
  | idle hnone => rfl
  | busy id' k hone hrun hk =>
      have hne : id ≠ id' := by
        rintro rfl
        simp [hone] at hid
      exact Os.cpu_setCpu_of_ne _ _ _ hne

/-- A CPU in `__sys_killall` is in `run`. -/
theorem killing_of_label (h : Settles x s) {id : Fin cfg.numCpus}
    (hid : (x.sim.os.cpu id).label ≠ .run) : x.killing id = none := by
  cases h with
  | idle hnone => exact hnone id
  | busy id' k hone hrun hk =>
      have hne : id ≠ id' := by
        rintro rfl
        exact hid hrun
      rw [hone, Function.update_of_ne hne]

end Settles

/-- **What a step does while `killall` instructions are apart.** A step of a `killall` leaves the
settled state as it is, and all others are steps from it; the one that begins a `killall` is the
whole of it there. -/
theorem Settles.step {x x' : Killing cfg} {s : Sim cfg} (h : Settles x s)
    {t : Thread cfg.numCpus × CStr} (hst : killingStep x t = some x') (hapart : x.Apart t) :
    (x.inKillall t = true ∧ Settles x' s) ∨
      (x.inKillall t = false ∧ ∃ s', simStep s t = some s' ∧ Settles x' s') := by
  obtain ⟨t, name⟩ := t
  cases h with
  | idle hnone =>
      refine Or.inr ⟨by cases t <;> simp [Killing.inKillall, hnone], ?_⟩
      cases killingStep_cases hst with
      | kill id k _ ht hk hst => simp [hnone] at hk
      | start id proc τ ins ht hk hx hins hkill =>
          obtain rfl : t = .cpu id := ht
          exact ⟨_, by rw [simStep, simCpuStep, hx, hins], Settles.of_start hnone name hx hkill⟩
      | sim s' hsim hk => exact ⟨s', hsim, .idle hnone⟩
  | busy id k hone hrun hok =>
      by_cases ht : t = .cpu id
      · subst ht
        have hself : x.killing id = some k := by rw [hone, Function.update_self]
        refine Or.inl ⟨by simp [Killing.inKillall, hself], ?_⟩
        cases killingStep_cases hst with
        | start id' proc τ ins ht hk hx hins hkill =>
            obtain rfl := Thread.cpu.inj ht
            simp [hself] at hk
        | sim s' hst hk => simp [hself] at hk
        | kill id' k' _ ht hk hst =>
            obtain rfl := Thread.cpu.inj ht
            obtain rfl : k = k' := Option.some.inj (hself.symm.trans hk)
            rcases Killing.settled_killStep hok hst with
              ⟨hkilling, hsim⟩ | ⟨k', hkilling, hok', hcpu, hsettled⟩
            · rw [← hsim]
              refine .idle fun id' => ?_
              rw [hkilling, hone, Function.update_idem, Function.update_apply, ite_self]
            · rw [← hsettled]
              refine .busy id k' ?_ (by rw [hcpu, hrun]) hok'
              rw [hkilling, hone, Function.update_idem]
      · -- nobody else is in `__sys_killall`, and nobody takes the lists
        have hother {id' : Fin cfg.numCpus} (hid : t = .cpu id') : x.killing id' = none := by
          have hne : id' ≠ id := by
            rintro rfl
            exact ht hid
          rw [hone, Function.update_of_ne hne]
        have hl : ¬ x.sim.TakesLists t := hapart id (by simp [hone]) ht
        refine Or.inr ⟨?_, ?_⟩
        · cases t with
          | cpu id' => simp [Killing.inKillall, hother rfl]
          | _ => rfl
        · cases killingStep_cases hst with
          | kill id' k' _ ht' hk' hst =>
              obtain rfl : t = .cpu id' := ht'
              simp [hother rfl] at hk'
          | start id' proc τ ins ht' hk' hx hins hkill =>
              obtain rfl : t = .cpu id' := ht'
              exact absurd (Or.inr (by simp [hins, hkill])) hl
          | sim s' hsim hk' => exact Settles.of_other hone hrun hok ht hl hsim

/-- **While `killall` instructions are apart, the runs in steps are runs of `simSystem`**, in which
the whole of a `killall` is done when it begins. -/
theorem killing_refines (cfg : SimConfig) : WeakSimulation (apartSystem cfg) (simSystem cfg)
    (fun x t => if x.inKillall t then [] else [t]) Settles where
  init x hx := by
    obtain rfl : x = bootKilling cfg := hx
    exact ⟨bootSim cfg, rfl, .idle fun _ => rfl⟩
  step x s t x' h hst := by
    rcases h.step hst.2 hst.1 with ⟨hin, h'⟩ | ⟨hin, s', hs', h'⟩
    · rw [if_pos hin]
      exact ⟨s, Run.startingAt_nil _ _, h'⟩
    · rw [hin]
      exact ⟨s', Run.startingAt_one hs', h'⟩

end OsSim
