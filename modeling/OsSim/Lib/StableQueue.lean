import OsSim.Lib.Transition
import Mathlib.Data.List.Basic
import Mathlib.Order.Basic

/-!
# Stable Priority Queues

A stable priority queue holds the items that wait, in the order they came. It gives out the
one with the least key, and among those the one that came first. An array of first-in first-out
levels, one for each key, is such a queue when it is read from the least key on.

The abstract queue is one list in the order of arrival, and `Take` says what may be given out of it:
the item behind which nothing has a smaller key, and before which all keys are larger. That the
least key is given out (`Take.least`), the first of those (`Take.first`), and nothing only when
nothing waits (`Take.none_iff`) are read off that description.

The levels hold, for each key, the items with that key (`Levels`). The list that they are levels of
is a ghost: it is not stored, and items of different levels have no order among themselves there;
`Levels.insert` and `Levels.take` say that it can be kept up to date in every step. A scheduler with
one run queue for each priority refines the abstract queue by these two lemmas.

## Main results

* `Take.least`, `Take.first`, `Take.none_iff`: what is given out.
* `Levels.insert`, `Levels.take`: **the levels of a stable priority queue**: inserting appends to
  one level, taking removes the head of the first level that is not empty.
-/

namespace StableQueue

variable {α κ : Type*}

/-! ### The abstract queue -/

section Take

variable [LT κ] [LE κ] {key : α → κ}

/-- `Take key l r l'`: where `l` waits, in this order, `r` is given out, and `l'` still waits. -/
inductive Take (key : α → κ) : List α → Option α → List α → Prop
  | none : Take key [] none []
  | some (before : List α) (a : α) (after : List α) (hbefore : ∀ b ∈ before, key a < key b)
      (hafter : ∀ b ∈ after, key a ≤ key b) :
      Take key (before ++ a :: after) (some a) (before ++ after)

/-- Nothing is given out exactly when nothing waits. There is no other reason to refuse. -/
theorem Take.none_iff {l l' : List α} {r : Option α} (h : Take key l r l') :
    r = Option.none ↔ l = [] := by
  cases h <;> simp

end Take

/-- No item that waits has a smaller key than the one given out. -/
theorem Take.least [Preorder κ] {key : α → κ} {l l' : List α} {a : α}
    (h : Take key l (Option.some a) l') : ∀ b ∈ l, key a ≤ key b := by
  cases h with
  | some before _ after hbefore hafter =>
      intro b hb
      rcases List.mem_append.mp hb with hin | hin
      · exact (hbefore b hin).le
      · rcases List.mem_cons.mp hin with rfl | hin
        · exact le_rfl
        · exact hafter b hin

/-- No item that came before has the same key, and the others stay in their order. -/
theorem Take.first [Preorder κ] {key : α → κ} {l l' : List α} {a : α}
    (h : Take key l (Option.some a) l') :
    ∃ before after, l = before ++ a :: after ∧ l' = before ++ after ∧
      ∀ b ∈ before, key b ≠ key a := by
  cases h with
  | some before _ after hbefore _ =>
      exact ⟨before, after, rfl, rfl, fun b hb => (hbefore b hb).ne'⟩

/-- The operations on the queue, with what they give out. -/
inductive Op (α : Type*) where
  | insert (a : α)
  | take (r : Option α)

/-- The queue as a system that starts empty, inserts at the end and takes. -/
def system [LT κ] [LE κ] (key : α → κ) : TransitionSystem (List α) (Op α) where
  init l := l = []
  step l o l' := match o with
    | .insert a => l' = l ++ [a]
    | .take r => Take key l r l'

/-! ### Levels -/

section Levels

variable [DecidableEq κ] {key : α → κ} {level : κ → List α} {l : List α}

/-- The levels hold what waits, each the items with one key, in their order of arrival. -/
def Levels (key : α → κ) (level : κ → List α) (l : List α) : Prop :=
  ∀ k, level k = l.filter fun a => key a = k

/-- Empty levels hold nothing. -/
theorem Levels.nil : Levels key (fun _ => []) [] := fun _ => rfl

/-- An item is on the level of its key, if it waits. -/
theorem Levels.mem (h : Levels key level l) {k : κ} {a : α} : a ∈ level k ↔ a ∈ l ∧ key a = k := by
  rw [h k, List.mem_filter, decide_eq_true_eq]

/-- Nothing waits exactly when every level is empty. -/
theorem Levels.nil_iff (h : Levels key level l) : (∀ k, level k = []) ↔ l = [] := by
  constructor
  · intro hnil
    refine List.eq_nil_iff_forall_not_mem.mpr ?_
    intro a ha
    have hin := h.mem.mpr ⟨ha, rfl⟩
    rw [hnil] at hin
    cases hin
  · rintro rfl k
    exact h k

/-- **Inserting** appends to one level, the one of the key. -/
theorem Levels.insert (h : Levels key level l) (a : α) :
    Levels key (Function.update level (key a) (level (key a) ++ [a])) (l ++ [a]) := by
  intro k
  rw [List.filter_append, ← h k]
  by_cases hk : k = key a
  · subst hk
    rw [Function.update_self]
    simp
  · rw [Function.update_of_ne hk]
    simp [Ne.symm hk]

/-- The first item of a level, among all that wait: those before it have other keys, and the rest of
the level are those behind it with the same key. -/
theorem Levels.split (h : Levels key level l) {k : κ} {a : α} {rest : List α}
    (hhead : level k = a :: rest) :
    ∃ before after, l = before ++ a :: after ∧ (∀ b ∈ before, key b ≠ k) ∧ key a = k ∧
      rest = after.filter fun b => key b = k := by
  obtain ⟨before, after, hl, hbefore, hkey, hrest⟩ :=
    List.filter_eq_cons_iff.mp ((h k).symm.trans hhead)
  exact ⟨before, after, hl, by simpa using hbefore, by simpa using hkey, hrest.symm⟩

end Levels

/-- **Taking** removes the head of the first level that is not empty: the levels before have
nothing, so that no key is smaller. -/
theorem Levels.take [LinearOrder κ] {key : α → κ} {level : κ → List α} {l : List α}
    (h : Levels key level l) {k : κ} {a : α} {rest : List α} (hhead : level k = a :: rest)
    (hless : ∀ j < k, level j = []) :
    ∃ l', Take key l (some a) l' ∧ Levels key (Function.update level k rest) l' := by
  obtain ⟨before, after, rfl, hbefore, rfl, rfl⟩ := h.split hhead
  -- an item with a smaller key would be on an earlier level
  have hle {b : α} (hb : b ∈ before ++ a :: after) : key a ≤ key b := by
    by_contra hlt
    have hin := h.mem.mpr ⟨hb, rfl⟩
    rw [hless _ (not_le.mp hlt)] at hin
    cases hin
  refine ⟨before ++ after, Take.some before a after ?_ ?_, ?_⟩
  · intro b hb
    exact lt_of_le_of_ne (hle (List.mem_append_left _ hb)) (Ne.symm (hbefore b hb))
  · intro b hb
    exact hle (List.mem_append_right _ (List.mem_cons_of_mem a hb))
  · intro j
    by_cases hj : j = key a
    · subst hj
      have hnil : before.filter (fun b => key b = key a) = [] := by
        simpa [List.filter_eq_nil_iff] using hbefore
      rw [Function.update_self, List.filter_append, hnil, List.nil_append]
    · rw [Function.update_of_ne hj, h j, List.filter_append, List.filter_append]
      simp [Ne.symm hj]

end StableQueue
