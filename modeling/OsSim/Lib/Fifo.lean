import OsSim.Lib.Transition

/-!
# First In, First Out

A first-in first-out queue: items go in at one end, several in turn, and come out at the other.

The queue is given as a transition system over the calls that are made to it, not as functions on
lists, so that a program whose calls can be read off its runs is a refinement of it. Then one law
says everything about the order: along any run, the items that went in, in the order they did, are
the items that came out, in the order they did, followed by those that still wait. The proof is an
induction on the run with one case for each call, and there is no other invariant.

That an item comes out before another one, that none comes out twice that went in once, and that
none comes out that did not go in are all read off that equation.

## Main results

* `put_eq`: **what went in is what came out, and behind it what still waits**, in the same order.
* `first_waiting`: the item that waits longest is the first of those that have not come out.
-/

namespace Fifo

open TransitionSystem

variable {α : Type*}

/-- What is done to a queue: some items are put in, in this order, or one is asked for, and the
answer is `none` or the item. -/
inductive Call (α : Type*) where
  | put (as : List α)
  | take (r : Option α)

/-- The items a call puts in, the first of them first. -/
def Call.putIn : Call α → List α
  | put as => as
  | take _ => []

/-- The items a call takes out, which is one at most. -/
def Call.takenOut : Call α → List α
  | put _ => []
  | take r => r.toList

/-- The queue, longest waiting item first. Only an empty queue gives nothing out. -/
inductive Step : List α → Call α → List α → Prop
  | put (l as : List α) : Step l (.put as) (l ++ as)
  | takeNone : Step [] (.take none) []
  | takeSome (a : α) (l : List α) : Step (a :: l) (.take (some a)) l

/-- The queue as a system that starts empty. -/
def queue (α : Type*) : TransitionSystem (List α) (Call α) where
  init l := l = []
  step := Step

/-- **The order is kept**: all items put in so far are the items taken out so far, followed by the
content of the queue. By induction on the run. -/
theorem put_eq {cs : List (Call α)} {l : List α} (h : (queue α).Run cs l) :
    cs.flatMap Call.putIn = cs.flatMap Call.takenOut ++ l := by
  induction h with
  | init hl =>
      obtain rfl : _ = [] := hl
      rfl
  | step _ hst ih =>
      simp only [List.flatMap_append, List.flatMap_cons, List.flatMap_nil, List.append_nil]
      cases hst with
      | put l as => simp [Call.putIn, Call.takenOut, ih]
      | takeNone => simpa [Call.putIn, Call.takenOut] using ih
      | takeSome a l => simp [Call.putIn, Call.takenOut, ih]

/-- The next item to come out, where one waits, is the one put in at the position after as many as
have come out. -/
theorem first_waiting {cs : List (Call α)} {l : List α} {a : α} (h : (queue α).Run cs (a :: l)) :
    (cs.flatMap Call.putIn)[(cs.flatMap Call.takenOut).length]? = some a := by
  rw [put_eq h, List.getElem?_append_right le_rfl, Nat.sub_self, List.getElem?_cons_zero]

end Fifo
