import OsSim.Lib.Transition

/-!
# Systems That Work in Rounds

A system with a counter of its rounds and a rank, of which every step of a round uses up some. A
round cannot go on for ever then, whatever the order of its steps; where the system also never
stands still, it comes to whatever holds from some round on.

This is how a parallel program that meets at a barrier makes progress. Which thread takes the next
step is left to a scheduler about which nothing is assumed, not even fairness: the rank bounds the
steps that all threads together can take before the barrier opens. Some steps may be free, as those
of a thread that polls; `counts` says which are not, and only these are bounded.

`Inevitable T counts P N` is what such an argument yields: `P` comes about in every order of the
steps, and no later than after `N` counted ones. It has a half that says that the system does not
stop before (`enabled`) and a half that bounds the run (`bounded`). `Rounds.inevitable` gets it from
the fact that `P` holds from some round on, which is for the caller to show, and
`Rounds.inevitable_since` does so from a given state on, with the rounds counted from there.

## Main results

* `Rounds.countP_le`: **the steps of a run are bounded by its rounds**.
* `Rounds.inevitable`: what holds from some round on comes about, if nothing stands still before.
* `Rounds.inevitable_since`: the same from a state on, with the rounds counted from there.
-/

namespace TransitionSystem

variable {σ α : Type*} {T : TransitionSystem σ α} {I P : σ → Prop} {counts : α → Bool}
  {round rank : σ → ℕ} {B R N : ℕ}

/-- The rank is at most `B`. A step begins the next round, or does not raise the rank, and lowers it
if it counts. Both are asked of the states that meet `I` only. -/
structure Rounds (T : TransitionSystem σ α) (I : σ → Prop) (counts : α → Bool)
    (round rank : σ → ℕ) (B : ℕ) : Prop where
  bound : ∀ s, I s → rank s ≤ B
  step : ∀ s a t, I s → T.step s a t →
    round t = round s + 1 ∨
      round t = round s ∧ rank t + (if counts a = true then 1 else 0) ≤ rank s

/-- **The steps of a run are bounded by its rounds**: each round has `B + 1` counted steps at most,
the one that begins it and those that lower the rank. -/
theorem Rounds.countP_le (h : Rounds T I counts round rank B)
    (hinv : ∀ {as s}, T.Run as s → I s) {as : List α} {s : σ} (hrun : T.Run as s) :
    as.countP counts + rank s ≤ round s * (B + 1) + B := by
  induction hrun with
  | init hs =>
      have hle := h.bound _ (hinv (Run.init hs))
      simp only [List.countP_nil]
      omega
  | @step as s a t hrun hst ih =>
      have hle := h.bound t (hinv (Run.step hrun hst))
      have hcount : (as ++ [a]).countP counts =
          as.countP counts + if counts a = true then 1 else 0 := by
        rw [List.countP_append, List.countP_singleton]
      rw [hcount]
      rcases h.step s a t (hinv hrun) hst with hnext | ⟨hsame, hrank⟩
      · rw [hnext, Nat.succ_mul]
        split_ifs <;> omega
      · rw [hsame]
        omega

/-- `P` comes about whatever the order of the steps: before it does some step that counts is
possible, and no run with `N` of them is without it. -/
structure Inevitable (T : TransitionSystem σ α) (counts : α → Bool) (P : σ → Prop) (N : ℕ) :
    Prop where
  enabled : ∀ {as s}, T.Run as s → P s ∨ ∃ a t, counts a = true ∧ T.step s a t
  bounded : ∀ {as s}, T.Run as s → N ≤ as.countP counts → P s

/-- What follows from `P` in the states of a run comes about with it. -/
theorem Inevitable.imp {Q : σ → Prop} (h : Inevitable T counts P N)
    (hPQ : ∀ {as s}, T.Run as s → P s → Q s) : Inevitable T counts Q N where
  enabled hrun := (h.enabled hrun).imp_left (hPQ hrun)
  bounded hrun hcount := hPQ hrun (h.bounded hrun hcount)

/-- So many steps take the run to round `R`, since the rounds before have no room for them. -/
theorem Rounds.le_round (h : Rounds T I counts round rank B)
    (hinv : ∀ {as s}, T.Run as s → I s) {as : List α} {s : σ} (hrun : T.Run as s)
    (hcount : R * (B + 1) ≤ as.countP counts) : R ≤ round s := by
  have hle := h.countP_le hinv hrun
  have hlt : R * (B + 1) < (round s + 1) * (B + 1) := by
    rw [Nat.succ_mul]
    omega
  exact Nat.le_of_lt_succ (Nat.lt_of_mul_lt_mul_right hlt)

/-- What holds from round `R` on comes about, after `R * (B + 1)` counted steps, in a system that
does not stand still before. -/
theorem Rounds.inevitable (h : Rounds T I counts round rank B)
    (hinv : ∀ {as s}, T.Run as s → I s)
    (henabled : ∀ {as s}, T.Run as s → P s ∨ ∃ a t, counts a = true ∧ T.step s a t)
    (hround : ∀ {as s}, T.Run as s → R ≤ round s → P s) :
    Inevitable T counts P (R * (B + 1)) where
  enabled := henabled
  bounded hrun hcount := hround hrun (h.le_round hinv hrun hcount)

/-! ### From a state on -/

variable {s : σ}

/-- The rounds counted from `s` on. The invariant also says that the counter is not below what it
was in `s`. -/
theorem Rounds.since (h : Rounds T I counts round rank B) (s : σ) :
    Rounds (T.startingAt s) (fun t => I t ∧ round s ≤ round t) counts
      (fun t => round t - round s) rank B where
  bound t ht := h.bound t ht.1
  step t a u ht hst := by
    obtain ⟨hI, hle⟩ := ht
    rcases h.step t a u hI hst with hnext | ⟨hsame, hrank⟩
    · exact Or.inl (by omega)
    · exact Or.inr ⟨by omega, hrank⟩

/-- The counter of the rounds never goes back. -/
theorem Rounds.round_mono (h : Rounds T I counts round rank B)
    (hinv : ∀ {as t}, (T.startingAt s).Run as t → I t) {as : List α} {t : σ}
    (hrun : (T.startingAt s).Run as t) : round s ≤ round t := by
  induction hrun with
  | init ht =>
      obtain rfl : _ = s := ht
      exact le_rfl
  | @step as t a u hrun hst ih =>
      rcases h.step t a u (hinv hrun) hst with hnext | ⟨hsame, -⟩ <;> omega

/-- What holds `R` rounds after `s` comes about in the runs from `s` on, after `R * (B + 1)` counted
steps of theirs. -/
theorem Rounds.inevitable_since (h : Rounds T I counts round rank B)
    (hinv : ∀ {as t}, (T.startingAt s).Run as t → I t)
    (henabled : ∀ {as t}, (T.startingAt s).Run as t → P t ∨ ∃ a u, counts a = true ∧ T.step t a u)
    (hround : ∀ {as t}, (T.startingAt s).Run as t → round s + R ≤ round t → P t) :
    Inevitable (T.startingAt s) counts P (R * (B + 1)) := by
  refine (h.since s).inevitable (fun hrun => ⟨hinv hrun, h.round_mono hinv hrun⟩) henabled ?_
  intro as t hrun hle
  exact hround hrun (by have := h.round_mono hinv hrun; omega)

end TransitionSystem
