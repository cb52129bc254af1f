import Mathlib.Data.List.TakeWhile
import Mathlib.Tactic

/-!
# Waiting in Line

Who is in front of somebody in a line: joining the line at its end changes nothing, the head leaving
shortens it by one, and striking others out never adds anybody.

Somebody who waits is served once all in front of him are, if the line is only changed in these
three ways. `inFront l x` is the list of those to be served before `x`, in their order. It does not
ask whether `x` is in the line; where it matters, a lemma has that as a hypothesis. An element that
stands in the line twice counts where it stands first.

Each lemma is about one change of the line, so that a caller with a step function needs one of them
for each kind of step, and a run lemma follows by induction on the steps.

## Main results

* `inFront_join`, `inFront_leave`, `inFront_strike_sublist`: what happens to the line.
-/

namespace Line

variable {α : Type*} [DecidableEq α] {l : List α} {x y : α}

/-- The elements of the line before the first `x`, and the whole line if it has no `x`. -/
def inFront (l : List α) (x : α) : List α := l.takeWhile fun y => y ≠ x

/-- The head leaves: it was in front of everybody behind it, and the others in front of `x` stay. -/
theorem inFront_leave (h : y ≠ x) (l : List α) : inFront (y :: l) x = y :: inFront l x := by
  simp [inFront, h]

/-- Others join behind `x`, which changes nothing for it. -/
theorem inFront_join (h : x ∈ l) (l' : List α) : inFront (l ++ l') x = inFront l x := by
  induction l with
  | nil => cases h
  | cons y l ih =>
      by_cases hy : y = x
      · simp [inFront, hy]
      · have hmem : x ∈ l := by simpa [Ne.symm hy] using h
        rw [List.cons_append, inFront_leave hy, inFront_leave hy, ih hmem]

/-- Others are struck out, and those in front of `x` who stay keep their order. -/
theorem inFront_strike_sublist {p : α → Bool} (hx : p x = true) (l : List α) :
    (inFront (l.filter p) x).Sublist (inFront l x) := by
  induction l with
  | nil => simp [inFront]
  | cons y l ih =>
      by_cases hy : y = x
      · subst hy
        simp [inFront, hx]
      · rw [inFront_leave hy, List.filter_cons]
        split
        · rw [inFront_leave hy]
          exact ih.cons_cons y
        · exact ih.cons y

end Line
