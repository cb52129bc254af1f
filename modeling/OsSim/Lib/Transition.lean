import Mathlib.Tactic

/-!
# Labelled Transition Systems

A small vocabulary for stating what holds along every run of a system that takes step
after step: runs and the states they reach, inductive invariants, the system restricted
to the steps that meet a condition, the system with a record of its steps, and forward
simulation between two systems over the same labels.

A run lists the labels of its steps, oldest first, so that a theorem can speak of the states
reached and of what was done on the way. New systems are made from old ones:

* `restrict` leaves the steps that meet a condition on the state before and the label. A
  theorem about it is about every run in which each step meets the condition.
* `startingAt` moves the start to a given state, for what happens from there on; `Run.append`
  puts two such runs together.
* `recording` keeps beside the state what a function reads off each step, for properties of
  a history that the state itself has forgotten. Every run has a record (`Run.recording`),
  and it changes nothing (`Run.of_recording`).
* `comap` gives a system other labels.

An induction on a run is made once, in `Run.invariant` and `Run.invariant_recording`; a
property of a system is then a predicate, a proof that the start meets it, and a proof that
a step keeps it. `Run.of_foldlM` gets a run out of a function that computes the steps, which
is how a run on given labels is evaluated.

## Main results

* `Run.invariant`: a predicate that holds initially and is preserved by every step holds
  wherever a run arrives.
* `Run.of_foldlM`: iterating a function that computes steps gives runs.
* `Run.append`: a run goes on from where it arrived.
* `Run.of_comap`: a run under other labels is a run under the labels they stand for.
* `Run.recording`: every run has a record.
* `Simulation.run`: along a forward simulation every run of the concrete system is
  matched, label for label, by a run of the abstract one (**trace inclusion**).
-/

/-- A transition system with states `σ` and labels `α`. Neither the start nor the steps have to be
deterministic, and there may be states without a step. -/
structure TransitionSystem (σ α : Type*) where
  /-- The states a run may start in. -/
  init : σ → Prop
  /-- `step s a t`: in state `s` the system can do `a` and be in `t`. -/
  step : σ → α → σ → Prop

namespace TransitionSystem

variable {σ τ α : Type*}

/-- `T.Run as s`: from some initial state the system does the labels `as`, oldest first,
and is then in `s`. -/
inductive Run (T : TransitionSystem σ α) : List α → σ → Prop
  | init {s : σ} : T.init s → Run T [] s
  | step {as : List α} {s : σ} {a : α} {t : σ} :
      Run T as s → T.step s a t → Run T (as ++ [a]) t

variable {T : TransitionSystem σ α}

/-- **The invariant rule.** What holds in the initial states and is kept by every step holds in
every state of every run. -/
theorem Run.invariant {I : σ → Prop} (hinit : ∀ s, T.init s → I s)
    (hstep : ∀ s a t, I s → T.step s a t → I t) {as : List α} {s : σ} (h : T.Run as s) :
    I s := by
  induction h with
  | init h => exact hinit _ h
  | step _ hst ih => exact hstep _ _ _ ih hst

/-- The last step of a run, and the run before it. -/
theorem Run.of_concat {as : List α} {a : α} {t : σ} (h : T.Run (as ++ [a]) t) :
    ∃ s, T.Run as s ∧ T.step s a t := by
  generalize hbs : as ++ [a] = bs at h
  cases h with
  | init => simp at hbs
  | step hrun hst =>
      obtain ⟨rfl, heq⟩ := List.append_inj' hbs rfl
      obtain rfl := (List.cons.inj heq).1
      exact ⟨_, hrun, hst⟩

/-- **Running a program.** Where a function computes steps of the system, its iteration
computes runs. -/
theorem Run.of_foldlM {next : σ → α → Option σ}
    (hnext : ∀ s a t, next s a = some t → T.step s a t) {s : σ} (hinit : T.init s)
    {as : List α} {t : σ} (h : as.foldlM next s = some t) : T.Run as t := by
  induction as using List.reverseRecOn generalizing t with
  | nil =>
      obtain rfl : s = t := Option.some.inj h
      exact Run.init hinit
  | append_singleton as a ih =>
      rw [List.foldlM_append] at h
      obtain ⟨u, hu, hlast⟩ := Option.bind_eq_some_iff.mp h
      rw [List.foldlM_cons] at hlast
      obtain ⟨v, hv, hend⟩ := Option.bind_eq_some_iff.mp hlast
      obtain rfl : v = t := Option.some.inj hend
      exact Run.step (ih hu) (hnext _ _ _ hv)

/-- The system started in `s`, which need not be an initial state. -/
def startingAt (T : TransitionSystem σ α) (s : σ) : TransitionSystem σ α where
  init t := t = s
  step := T.step

/-- A run goes on from where another arrived. -/
theorem Run.append {as bs : List α} {s t : σ} (h : T.Run as s) (h' : (T.startingAt s).Run bs t) :
    T.Run (as ++ bs) t := by
  induction h' with
  | init ht =>
      obtain rfl : _ = s := ht
      rwa [List.append_nil]
  | step _ hst ih =>
      rw [← List.append_assoc]
      exact Run.step ih hst

/-! ### Restricting the steps -/

/-- The system whose steps are those of `T` that meet the condition `C`, a predicate of the
state before the step and of its label. -/
def restrict (T : TransitionSystem σ α) (C : σ → α → Prop) : TransitionSystem σ α where
  init := T.init
  step s a t := C s a ∧ T.step s a t

/-- Running a program whose every step is checked to meet the condition. -/
theorem Run.of_foldlM_restrict {C : σ → α → Prop} [∀ s a, Decidable (C s a)]
    {next : σ → α → Option σ} (hnext : ∀ s a t, next s a = some t → T.step s a t) {s : σ}
    (hinit : T.init s) {as : List α} {t : σ}
    (h : as.foldlM (fun s a => if C s a then next s a else none) s = some t) :
    (T.restrict C).Run as t := by
  have hinit' : (T.restrict C).init s := hinit
  refine Run.of_foldlM ?_ hinit' h
  intro s a t ht
  split at ht
  · rename_i hC
    exact ⟨hC, hnext s a t ht⟩
  · simp at ht

/-! ### Recording -/

/-- The system that also records what `emit` reads off each step, oldest first. -/
def recording {β : Type*} (T : TransitionSystem σ α) (emit : σ → α → List β) :
    TransitionSystem (σ × List β) α where
  init s := T.init s.1 ∧ s.2 = []
  step s a t := T.step s.1 a t.1 ∧ t.2 = s.2 ++ emit s.1 a

/-- **Every run has a record**, so that a property of the records of all runs is not empty. -/
theorem Run.recording {β : Type*} (emit : σ → α → List β) {as : List α} {s : σ}
    (h : T.Run as s) : ∃ es, (T.recording emit).Run as (s, es) := by
  induction h with
  | init h => exact ⟨[], Run.init ⟨h, rfl⟩⟩
  | @step as s a t _ hst ih =>
      obtain ⟨es, hes⟩ := ih
      exact ⟨es ++ emit s a, Run.step hes ⟨hst, rfl⟩⟩

/-- A run of the system that records is a run: the record does not get in the way. -/
theorem Run.of_recording {β : Type*} {emit : σ → α → List β} {as : List α} {x : σ × List β}
    (h : (T.recording emit).Run as x) : T.Run as x.1 := by
  induction h with
  | init h => exact Run.init h.1
  | step _ hst ih => exact Run.step ih hst.1

/-- What holds of a run and its record, step by step: the invariant rule where the predicate also
speaks of the record. -/
theorem Run.invariant_recording {β : Type*} {emit : σ → α → List β} {I : σ → List β → Prop}
    (hinit : ∀ s, T.init s → I s [])
    (hstep : ∀ s es a t, I s es → T.step s a t → I t (es ++ emit s a)) {as : List α} {s : σ}
    {es : List β} (h : (T.recording emit).Run as (s, es)) : I s es := by
  refine Run.invariant (I := fun x => I x.1 x.2) (fun x hx => ?_) (fun x a y hI hst => ?_) h
  · rw [hx.2]
    exact hinit _ hx.1
  · rw [hst.2]
    exact hstep _ _ _ _ hI hst.1

/-! ### Relabelling -/

/-- The system under other labels, each of which stands for one of `T`. -/
def comap {β : Type*} (f : β → α) (T : TransitionSystem σ α) : TransitionSystem σ β where
  init := T.init
  step s b t := T.step s (f b) t

/-- A run under other labels is a run under those that they stand for. -/
theorem Run.of_comap {β : Type*} {f : β → α} {bs : List β} {s : σ}
    (h : (T.comap f).Run bs s) : T.Run (bs.map f) s := by
  induction h with
  | init h => exact Run.init h
  | step _ hst ih =>
      rw [List.map_append]
      exact Run.step ih hst

/-! ### Simulation -/

/-- A forward simulation: initial states are matched, and each concrete step from a
matched state is matched by an abstract step with the same label. -/
structure Simulation (S : TransitionSystem σ α) (T : TransitionSystem τ α)
    (R : σ → τ → Prop) : Prop where
  init : ∀ s, S.init s → ∃ t, T.init t ∧ R s t
  step : ∀ s t a s', R s t → S.step s a s' → ∃ t', T.step t a t' ∧ R s' t'

/-- **Trace inclusion.** A run of the concrete system is matched by an abstract one with the same
labels. By induction on the run. -/
theorem Simulation.run {S : TransitionSystem σ α} {T : TransitionSystem τ α}
    {R : σ → τ → Prop} (hsim : Simulation S T R) {as : List α} {s : σ} (h : S.Run as s) :
    ∃ t, T.Run as t ∧ R s t := by
  induction h with
  | init h =>
      obtain ⟨t, ht, hR⟩ := hsim.init _ h
      exact ⟨t, Run.init ht, hR⟩
  | step _ hst ih =>
      obtain ⟨t, ht, hR⟩ := ih
      obtain ⟨t', hst', hR'⟩ := hsim.step _ _ _ _ hR hst
      exact ⟨t', Run.step ht hst', hR'⟩

end TransitionSystem
