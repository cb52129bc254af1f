import OsSim.Lib.Rounds

/-!
# Weak Simulation

A forward simulation between two systems with labels of their own: what `emit` reads off a
concrete step, which may be nothing, is what the abstract system does meanwhile. The record of a
concrete run is then a run of the abstract system.

This is the form that refinements of parallel programs have. A concrete step that the abstract
system does not see (reading a name, going once round a loop) emits nothing and leaves the abstract
state as it is; one that does several things at once emits several labels. Since the labels are
emitted by a function of the concrete state and step, the abstract run is not only claimed to
exist: it is the record of the concrete one (`WeakSimulation.run`).

Safety goes down along a simulation by itself. That something comes about in every order of the
steps does so only if the concrete system does not stop where the abstract one can go on, and does
not go on for ever without the abstract one noticing. `WeakSimulation.inevitable` asks for both: a
step that counts is possible in matched states where one is in the abstract system, and every
concrete step that counts emits one that does.

## Main results

* `WeakSimulation.run`: **along a weak simulation the record of a run is a run**.
* `Run.startingAt_nil`, `Run.startingAt_one`: doing nothing, and one step.
* `Run.recording_labels`: a record that reads off the labels alone.
* `WeakSimulation.inevitable`: **what comes about in the abstract system comes about in the
  concrete one**, if the concrete one can go on where the abstract one can.
-/

namespace TransitionSystem

variable {σ τ α β : Type*} {S : TransitionSystem σ α} {T : TransitionSystem τ β}
  {emit : σ → α → List β} {R : σ → τ → Prop}

/-- Nothing happens: the match of a concrete step that emits nothing. -/
theorem Run.startingAt_nil (T : TransitionSystem τ β) (t : τ) : (T.startingAt t).Run [] t :=
  Run.init rfl

/-- One step happens: the match of a concrete step that emits one label. -/
theorem Run.startingAt_one {t t' : τ} {b : β} (h : T.step t b t') : (T.startingAt t).Run [b] t' :=
  (Run.startingAt_nil T t).step h

/-- A record that reads off the labels alone is the list of what was read off them. -/
theorem Run.recording_labels (f : α → List β) {as : List α} {s : σ} (h : S.Run as s) :
    (S.recording fun _ => f).Run as (s, as.flatMap f) := by
  induction h with
  | init h => exact Run.init ⟨h, rfl⟩
  | step _ hst ih => exact Run.step ih ⟨hst, by simp⟩

/-- Initial states are matched, and each concrete step from a matched state by an abstract run
over what it emits. -/
structure WeakSimulation (S : TransitionSystem σ α) (T : TransitionSystem τ β)
    (emit : σ → α → List β) (R : σ → τ → Prop) : Prop where
  init : ∀ s, S.init s → ∃ t, T.init t ∧ R s t
  step : ∀ s t a s', R s t → S.step s a s' → ∃ t', (T.startingAt t).Run (emit s a) t' ∧ R s' t'

/-- **The record of a run is a run** of the abstract system, to a matched state. By induction on the
run, with the abstract runs appended. -/
theorem WeakSimulation.run (h : WeakSimulation S T emit R) {as : List α} {bs : List β} {s : σ}
    (hrun : (S.recording emit).Run as (s, bs)) : ∃ t, T.Run bs t ∧ R s t := by
  refine hrun.invariant_recording (I := fun s bs => ∃ t, T.Run bs t ∧ R s t) ?_ ?_
  · intro s hs
    obtain ⟨t, ht, hR⟩ := h.init s hs
    exact ⟨t, Run.init ht, hR⟩
  · rintro s bs a s' ⟨t, hrun, hR⟩ hst
    obtain ⟨t', hrun', hR'⟩ := h.step s t a s' hR hst
    exact ⟨t', hrun.append hrun', hR'⟩

/-- Every concrete run is matched by some abstract one. -/
theorem WeakSimulation.reaches (h : WeakSimulation S T emit R) {as : List α} {s : σ}
    (hrun : S.Run as s) : ∃ bs t, T.Run bs t ∧ R s t := by
  obtain ⟨bs, hbs⟩ := hrun.recording emit
  exact ⟨bs, h.run hbs⟩

/-- A weak simulation from matched states on is one of the systems started there. -/
theorem WeakSimulation.startingAt (h : WeakSimulation S T emit R) {s : σ} {t : τ} (hR : R s t) :
    WeakSimulation (S.startingAt s) (T.startingAt t) emit R where
  init _ hs := ⟨t, rfl, hs ▸ hR⟩
  step := h.step

/-! ### What comes about -/

variable {countsS : α → Bool} {countsT : β → Bool} {P : τ → Prop} {N : ℕ}

/-- The record has a step that counts for each step that does, so that a bound on the former is one
on the latter. -/
theorem Run.countP_le_recording
    (hcount : ∀ s a s', S.step s a s' → countsS a = true → 1 ≤ (emit s a).countP countsT)
    {as : List α} {x : σ × List β} (hrun : (S.recording emit).Run as x) :
    as.countP countsS ≤ x.2.countP countsT := by
  induction hrun with
  | init _ => simp
  | @step as x a y hrun hst ih =>
      have hone : [a].countP countsS ≤ (emit x.1 a).countP countsT := by
        rw [List.countP_singleton]
        split
        · exact hcount _ _ _ hst.1 ‹_›
        · exact Nat.zero_le _
      rw [hst.2, List.countP_append, List.countP_append]
      exact Nat.add_le_add ih hone

/-- **What comes about in the abstract system comes about in the concrete one**, where each step
that counts is matched by one, both ways. -/
theorem WeakSimulation.inevitable (h : WeakSimulation S T emit R)
    (hcount : ∀ s a s', S.step s a s' → countsS a = true → 1 ≤ (emit s a).countP countsT)
    (hgo : ∀ s t b t', R s t → countsT b = true → T.step t b t' →
      ∃ a s', countsS a = true ∧ S.step s a s')
    (hT : Inevitable T countsT P N) : Inevitable S countsS (fun s => ∃ t, R s t ∧ P t) N where
  enabled hrun := by
    obtain ⟨bs, t, hbs, hR⟩ := h.reaches hrun
    rcases hT.enabled hbs with hP | ⟨b, t', hb, hst⟩
    · exact Or.inl ⟨t, hR, hP⟩
    · exact Or.inr (hgo _ _ _ _ hR hb hst)
  bounded hrun hle := by
    obtain ⟨bs, hrec⟩ := hrun.recording emit
    obtain ⟨t, hbs, hR⟩ := h.run hrec
    exact ⟨t, hR, hT.bounded hbs (hle.trans (Run.countP_le_recording hcount hrec))⟩

end TransitionSystem
