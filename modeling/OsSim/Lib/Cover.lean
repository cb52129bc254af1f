import Mathlib.Data.Set.Lattice
import Mathlib.Order.CompletePartialOrder

/-!
# Lists of Disjoint Sets

A list each of whose members stands for a set, as a free list stands for the addresses its
nodes hold: what the list covers, when its members are apart, and what cutting a piece out of
one member does to both.

An allocator that serves a request from a free list takes a member, hands out a part of it and
puts back what is left, which is one smaller member, several, or none. That nothing is lost or
handed out twice is a statement about the sets: what the list covers afterwards is what it
covered before without the piece, and the members are still apart. Whether it holds depends on
the one member only (`Cut`); the rest of the list, in front and behind, is the frame
(`Separate.cut`).

The other lemmas describe `cover` and `Separate` along the constructors of lists, so that both
can be computed for a list that is written out, and split where a list is split.

## Main results

* `Separate.cut`: **cutting a piece out of one member** keeps the list apart and takes exactly
  the piece away from what it covers.
-/

namespace OsSim

variable {α β : Type*} {f : α → Set β}

/-- What the members of a list cover together: the union of the sets that they stand for. -/
def cover (f : α → Set β) (l : List α) : Set β := {b | ∃ a ∈ l, b ∈ f a}

/-- No two members of a list have a point in common. A member that stands twice on the list is apart
from itself only if its set is empty. -/
def Separate (f : α → Set β) (l : List α) : Prop := l.Pairwise fun a a' => Disjoint (f a) (f a')

/-- A point is covered if some member has it. -/
theorem mem_cover {l : List α} {b : β} : b ∈ cover f l ↔ ∃ a ∈ l, b ∈ f a := Iff.rfl

@[simp] theorem cover_nil : cover f [] = ∅ := by
  simp [cover]

@[simp] theorem cover_cons (a : α) (l : List α) : cover f (a :: l) = f a ∪ cover f l := by
  ext b
  simp [mem_cover]

@[simp] theorem cover_append (l l' : List α) : cover f (l ++ l') = cover f l ∪ cover f l' := by
  ext b
  simp [mem_cover, or_and_right, exists_or]

/-- A list is apart if its head has nothing in common with what the tail covers, and the tail is
apart. -/
theorem separate_cons {a : α} {l : List α} :
    Separate f (a :: l) ↔ Disjoint (f a) (cover f l) ∧ Separate f l := by
  rw [Separate, List.pairwise_cons]
  refine and_congr_left fun _ => ?_
  rw [Set.disjoint_left]
  constructor
  · rintro hall b hb ⟨a', ha', hb'⟩
    exact Set.disjoint_left.mp (hall a' ha') hb hb'
  · intro hall a' ha'
    exact Set.disjoint_left.mpr fun b hb hb' => hall hb ⟨a', ha', hb'⟩

/-- Two lists, one behind the other, are apart if each is and they cover nothing in common. -/
theorem separate_append {l l' : List α} :
    Separate f (l ++ l') ↔ Separate f l ∧ Separate f l' ∧ Disjoint (cover f l) (cover f l') := by
  rw [Separate, List.pairwise_append]
  refine and_congr_right fun _ => and_congr_right fun _ => ?_
  rw [Set.disjoint_left]
  constructor
  · rintro hall b ⟨a, ha, hb⟩ ⟨a', ha', hb'⟩
    exact Set.disjoint_left.mp (hall a ha a' ha') hb hb'
  · intro hall a ha a' ha'
    exact Set.disjoint_left.mpr fun b hb hb' => hall ⟨a, ha, hb⟩ ⟨a', ha', hb'⟩

/-- The members `rest` are what is left of `a` when `piece` has been cut out of it: they are apart,
and cover all of `a` but the piece. -/
structure Cut (f : α → Set β) (a : α) (piece : Set β) (rest : List α) : Prop where
  subset : piece ⊆ f a
  apart : Separate f rest
  cover_eq : cover f rest = f a \ piece

/-- **Cutting a piece out of one member.** The member had nothing in common with the others, so that
what is left of it has not either, and the piece is in none of them. -/
theorem Separate.cut {pre post rest : List α} {a : α} {piece : Set β}
    (h : Separate f (pre ++ a :: post)) (hcut : Cut f a piece rest) :
    Separate f (pre ++ (rest ++ post)) ∧
      cover f (pre ++ (rest ++ post)) = cover f (pre ++ a :: post) \ piece := by
  obtain ⟨hpre, htail, hdisj⟩ := separate_append.mp h
  obtain ⟨hhead, hpost⟩ := separate_cons.mp htail
  rw [cover_cons, Set.disjoint_union_right] at hdisj
  have hrest : cover f rest ⊆ f a := by
    rw [hcut.cover_eq]
    exact Set.sdiff_subset
  constructor
  · refine separate_append.mpr ⟨hpre, separate_append.mpr ⟨hcut.apart, hpost, ?_⟩, ?_⟩
    · exact hhead.mono_left hrest
    · rw [cover_append, Set.disjoint_union_right]
      exact ⟨hdisj.1.mono_right hrest, hdisj.2⟩
  · have hoff_pre : Disjoint (cover f pre) piece := hdisj.1.mono_right hcut.subset
    have hoff_post : Disjoint (cover f post) piece := (hhead.mono_left hcut.subset).symm
    simp only [cover_append, cover_cons, hcut.cover_eq, Set.union_sdiff_distrib,
      hoff_pre.sdiff_eq_left, hoff_post.sdiff_eq_left]

end OsSim
