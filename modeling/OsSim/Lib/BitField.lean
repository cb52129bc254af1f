import Mathlib.Tactic

/-!
# Bit Fields in a Machine Word

C headers pack several small numbers into one word with three macros: a contiguous mask
from bit `l` up to bit `h`, a mask-and-shift that reads the field, and a
clear-then-or that writes it. This module gives the three operations over words of any
width and the laws a caller needs: a written field reads back, a field that shares no
bit with the written one keeps its value, and so does every single bit outside it.

Everything is derived from one description of each operation bit by bit
(`getLsbD_mask`, `getLsbD_get`, `getLsbD_set`), so that no law has to unfold a shift or
a complement again: two words are equal when their bits are, and a bit of a field is
inside or outside. The one side condition is that the field lies in the word (`h < w`),
which the macros take for granted. A value that is too large for its field is cut off by
the mask and does not read back; `get_set` therefore asks that it fits, and the callers
have to bring a bound for what they store.

The laws are what makes a table of words with several fields a table of records. For the
values themselves, where a proof compares numbers and not bits, a field is a quotient and
a remainder (`get_toNat`), and it is bounded by its width (`get_toNat_lt`).

## Main results

* `get_set`: a value that fits the field is read back.
* `get_set_of_disjoint`: writing one field leaves every disjoint field alone.
* `getLsbD_set_of_outside`: writing a field leaves every bit outside it alone.
* `get_toNat`: what is read from a field, as a quotient and a remainder.
-/

namespace BitField

variable {w : ℕ}

/-- The word whose bits `l, …, h` are set and whose other bits are clear, made as the headers make
it: all ones shifted up to `l`, and all ones shifted down to `h`. -/
def mask (w h l : ℕ) : BitVec w :=
  (BitVec.allOnes w <<< l) &&& (BitVec.allOnes w >>> (w - h - 1))

/-- Reading the field under the mask `m` whose lowest bit is `l`: the other bits are cleared and the
field is shifted down. -/
def get (v m : BitVec w) (l : ℕ) : BitVec w :=
  (v &&& m) >>> l

/-- Writing `x` into the field under the mask `m` whose lowest bit is `l`: the field is cleared, and
the bits of `x` that fit come in. -/
def set (v x m : BitVec w) (l : ℕ) : BitVec w :=
  (v &&& ~~~m) ||| ((x <<< l) &&& m)

/-! ### The operations bit by bit -/

/-- The bits of a mask are those from `l` to `h`. -/
theorem getLsbD_mask {h l : ℕ} (hw : h < w) (i : ℕ) :
    (mask w h l).getLsbD i = (decide (l ≤ i) && decide (i ≤ h)) := by
  simp only [mask, BitVec.getLsbD_and, BitVec.getLsbD_shiftLeft, BitVec.getLsbD_allOnes,
    BitVec.getLsbD_ushiftRight]
  by_cases h1 : l ≤ i <;> by_cases h2 : i ≤ h <;> simp [h1, h2] <;> omega

/-- Bit `i` of what is read is bit `l + i` of the word, as long as that is inside the field. -/
theorem getLsbD_get {h l : ℕ} (hw : h < w) (v : BitVec w) (i : ℕ) :
    (get v (mask w h l) l).getLsbD i = (v.getLsbD (l + i) && decide (l + i ≤ h)) := by
  simp [get, getLsbD_mask hw]

/-- Inside the field the bits are those of the written value, and outside they are those of the word
before. -/
theorem getLsbD_set {h l : ℕ} (hw : h < w) (v x : BitVec w) (i : ℕ) :
    (set v x (mask w h l) l).getLsbD i =
      if l ≤ i ∧ i ≤ h then x.getLsbD (i - l) else v.getLsbD i := by
  have hv : w ≤ i → v.getLsbD i = false := BitVec.getLsbD_of_ge v i
  simp only [set, BitVec.getLsbD_or, BitVec.getLsbD_and, BitVec.getLsbD_not,
    BitVec.getLsbD_shiftLeft, getLsbD_mask hw]
  by_cases h1 : l ≤ i <;> by_cases h2 : i ≤ h <;> by_cases h3 : i < w <;>
    simp [h1, h2, h3] <;> first | omega | exact hv (by omega)

/-- A word below `2 ^ k` has no bit from `k` on. This is how a bound on a value gets to its bits. -/
theorem getLsbD_eq_false_of_toNat_lt {x : BitVec w} {k i : ℕ} (hx : x.toNat < 2 ^ k)
    (hi : k ≤ i) : x.getLsbD i = false := by
  rw [BitVec.getLsbD, Nat.testBit_lt_two_pow]
  exact lt_of_lt_of_le hx (Nat.pow_le_pow_right (by norm_num) hi)

/-! ### Reading after writing -/

/-- **A written field reads back**, provided the value fits it: a bit of the value that is not in
the field is clear on both sides. -/
theorem get_set {h l : ℕ} (hw : h < w) {v x : BitVec w} (hx : x.toNat < 2 ^ (h + 1 - l)) :
    get (set v x (mask w h l) l) (mask w h l) l = x := by
  refine BitVec.eq_of_getLsbD_eq ?_
  intro i hi
  rw [getLsbD_get hw, getLsbD_set hw]
  by_cases hih : l + i ≤ h
  · simp [hih]
  · have hxi := getLsbD_eq_false_of_toNat_lt hx (i := i) (by omega)
    simp [hih, hxi]

/-- A bit outside the field is what it was, whatever is written to the field. -/
theorem getLsbD_set_of_outside {h l : ℕ} (hw : h < w) {v x : BitVec w} {i : ℕ}
    (hi : i < l ∨ h < i) : (set v x (mask w h l) l).getLsbD i = v.getLsbD i := by
  rw [getLsbD_set hw, if_neg (by omega)]

/-- **Disjoint fields do not interfere**: every bit of the one is outside the other. -/
theorem get_set_of_disjoint {h l h' l' : ℕ} (hw : h < w) (hw' : h' < w)
    (hd : h < l' ∨ h' < l) (v x : BitVec w) :
    get (set v x (mask w h l) l) (mask w h' l') l' = get v (mask w h' l') l' := by
  refine BitVec.eq_of_getLsbD_eq ?_
  intro i hi
  rw [getLsbD_get hw', getLsbD_get hw']
  by_cases hih : l' + i ≤ h'
  · rw [getLsbD_set_of_outside hw (by omega)]
  · simp [hih]

/-- What is read, as a number: shift the low end away and cut the high end off. -/
theorem get_toNat {h l : ℕ} (hw : h < w) (hl : l ≤ h) (v : BitVec w) :
    (get v (mask w h l) l).toNat = v.toNat / 2 ^ l % 2 ^ (h + 1 - l) := by
  refine Nat.eq_of_testBit_eq ?_
  intro i
  have hbit := getLsbD_get (h := h) (l := l) hw v i
  rw [BitVec.getLsbD, BitVec.getLsbD] at hbit
  rw [hbit, Nat.testBit_mod_two_pow, Nat.testBit_div_two_pow, Bool.and_comm, Nat.add_comm]
  congr 1
  exact decide_eq_decide.mpr (by omega)

/-- What is read from the field of bits `l, …, h` is below `2 ^ (h + 1 - l)`. -/
theorem get_toNat_lt {h l : ℕ} (hw : h < w) (hl : l ≤ h) (v : BitVec w) :
    (get v (mask w h l) l).toNat < 2 ^ (h + 1 - l) := by
  rw [get_toNat hw hl]
  exact Nat.mod_lt _ (by positivity)

end BitField
