import Mathlib.Data.List.DropRight
import Mathlib.Data.List.TakeWhile
import Mathlib.Data.Nat.Digits.Lemmas

/-!
# Scanning Words, Numerals and Lines

Formatted input from a list of characters, as far as words, signed decimal numerals and lines go,
over any characters with white space, signs and digits. A scanning function returns what it found
and the characters behind it.

These are the conversions of C's `fscanf`, `sscanf` and `fgets` that programs use most: `%s` is
`word`, `%d` and `%u` are `numeral` with a conversion of the value, which may have no defined result
for a value out of range, and `fgets` is `line`. Words and numerals skip white space first, so that
it does not matter whether a caller has skipped it already; a line does not skip anything. A numeral
that fails has taken its sign.

The alphabet is a parameter. What is asked of it is that the ten digits have their values, and that
no character is two of white space, a sign and a digit. The other direction, how a number is
written, is `decimal`, and the lemmas of the second half read back what it writes, whatever follows,
as long as that is not a digit.

## Main results

* `word_append`: a word that is followed by white space is found.
* `value_decimal`: the digits of a number have its value.
* `numeral_decimal`, `numerals_decimals`: numerals that are followed by something else are found,
  with their values.
-/

namespace Scan

/-- Characters with white space, signs and decimal digits. -/
structure Alphabet (α : Type*) where
  isSpace : α → Bool
  minus : α
  plus : α
  digit : α → Option ℕ
  ofDigit : ℕ → α
  digit_ofDigit : ∀ d < 10, digit (ofDigit d) = some d
  isSpace_digit : ∀ c, (digit c).isSome = true → isSpace c = false
  digit_minus : digit minus = none
  digit_plus : digit plus = none

variable {α β : Type*} (A : Alphabet α)

namespace Alphabet

/-! ### Scanning -/

/-- The characters from the first on that is not white space, if there is one. -/
def skipSpace (s : List α) : List α := s.dropWhile A.isSpace

/-- The next word and what is behind it; `none` at the end of the characters. -/
def word (s : List α) : Option (List α × List α) :=
  if A.skipSpace s = [] then none
  else some ((A.skipSpace s).takeWhile (!A.isSpace ·), (A.skipSpace s).dropWhile (!A.isSpace ·))

/-- The value of some digits, most significant first. -/
def value (ds : List α) : ℕ := ds.foldl (fun n c => 10 * n + (A.digit c).getD 0) 0

variable [DecidableEq α]

/-- A sign, as a factor, if there is one, and what is behind it. -/
def sign : List α → ℤ × List α
  | [] => (1, [])
  | c :: s => if c = A.minus then (-1, s) else if c = A.plus then (1, s) else (1, c :: s)

/-- A numeral: white space, a sign and digits. It fails without a digit, behind the sign. -/
def numeral (s : List α) : Option ℤ × List α :=
  let r := A.sign (A.skipSpace s)
  let ds := r.2.takeWhile fun c => (A.digit c).isSome
  (if ds = [] then none else some (r.1 * A.value ds), r.2.drop ds.length)

/-- Up to `n` numerals, converted by `conv`, up to the first that fails. The conversion of a value
may be undefined, and then so is the result. -/
def numerals (conv : ℤ → Option β) : ℕ → List α → Option (List β × List α)
  | 0, s => some ([], s)
  | n + 1, s =>
      match A.numeral s with
      | (none, rest) => some ([], rest)
      | (some v, rest) =>
          (conv v).bind fun x => (numerals conv n rest).map fun r => (x :: r.1, r.2)

end Alphabet

/-- A line of at most `n` characters, through its end `eol`, or as far as there is room for it. -/
def line [DecidableEq α] (eol : α) : ℕ → List α → List α
  | 0, _ => []
  | _ + 1, [] => []
  | n + 1, c :: s => if c = eol then [c] else c :: line eol n s

namespace Alphabet

variable {A}

/-! ### White space -/

/-- White space in front is skipped. -/
theorem skipSpace_cons_of_space {c : α} (h : A.isSpace c = true) (s : List α) :
    A.skipSpace (c :: s) = A.skipSpace s := List.dropWhile_cons_of_pos h

/-- Nothing but white space is skipped. -/
theorem skipSpace_cons_of_not_space {c : α} (h : A.isSpace c = false) (s : List α) :
    A.skipSpace (c :: s) = c :: s := List.dropWhile_cons_of_neg (by simp [h])

/-- Skipping twice is skipping once, which is why it does not matter who does it. -/
theorem skipSpace_skipSpace (s : List α) : A.skipSpace (A.skipSpace s) = A.skipSpace s :=
  List.dropWhile_idempotent _ s

/-- A word is found with or without the white space before it. -/
theorem word_skipSpace (s : List α) : A.word (A.skipSpace s) = A.word s := by
  rw [word, word, skipSpace_skipSpace]

/-- A word that is followed by white space is found, and what is behind it begins with that white
space. -/
theorem word_append {w s : List α} (hne : w ≠ []) (hw : ∀ c ∈ w, A.isSpace c = false) {b : α}
    (hb : A.isSpace b = true) : A.word (w ++ b :: s) = some (w, b :: s) := by
  obtain ⟨c, w', rfl⟩ := List.exists_cons_of_ne_nil hne
  have hskip : A.skipSpace (c :: w' ++ b :: s) = c :: w' ++ b :: s :=
    skipSpace_cons_of_not_space (hw c List.mem_cons_self) _
  have hall : ∀ d ∈ c :: w', (!A.isSpace d) = true := by
    intro d hd
    rw [hw d hd]
    rfl
  rw [word, hskip, if_neg (by simp), List.takeWhile_append_of_pos hall,
    List.dropWhile_append_of_pos hall, List.takeWhile_cons_of_neg (by simp [hb]),
    List.dropWhile_cons_of_neg (by simp [hb]), List.append_nil]

/-! ### Decimal numerals -/

variable (A)

/-- A number in decimal, most significant digit first and without leading zeros. -/
def decimal (n : ℕ) : List α :=
  if n = 0 then [A.ofDigit 0] else (Nat.digits 10 n).reverse.map A.ofDigit

variable {A}

/-- A numeral has a digit. -/
theorem decimal_ne_nil (n : ℕ) : A.decimal n ≠ [] := by
  rw [decimal]
  split_ifs with h
  · exact List.cons_ne_nil _ _
  · simpa using Nat.digits_ne_nil_iff_ne_zero.mpr h

/-- A numeral has nothing but digits. -/
theorem digit_decimal {n : ℕ} {c : α} (hc : c ∈ A.decimal n) : (A.digit c).isSome = true := by
  rw [decimal] at hc
  split_ifs at hc
  · obtain rfl := List.mem_singleton.mp hc
    rw [A.digit_ofDigit 0 (by omega)]
    rfl
  · obtain ⟨d, hd, rfl⟩ := List.mem_map.mp hc
    rw [A.digit_ofDigit d (Nat.digits_lt_base (by omega) (List.mem_reverse.mp hd))]
    rfl

/-- A number below `10 ^ m` takes `m` digits at most. -/
theorem length_decimal_le {n m : ℕ} (hm : m ≠ 0) (hn : n < 10 ^ m) :
    (A.decimal n).length ≤ m := by
  rw [decimal]
  split_ifs
  · rw [List.length_singleton]
    omega
  · rw [List.length_map, List.length_reverse]
    exact (Nat.digits_length_le_iff (by omega) n).mpr hn

/-- The value of some digits and one more, by which the value of a numeral is computed from its end.
-/
theorem value_concat (ds : List α) (c : α) :
    A.value (ds ++ [c]) = 10 * A.value ds + (A.digit c).getD 0 := by
  rw [value, List.foldl_concat]
  rfl

/-- The value of the digits that Mathlib computes, least significant first, is what `Nat.ofDigits`
makes of them. -/
theorem value_reverse_digits {ds : List ℕ} (h : ∀ d ∈ ds, d < 10) :
    A.value (ds.reverse.map A.ofDigit) = Nat.ofDigits 10 ds := by
  induction ds with
  | nil => rfl
  | cons d ds ih =>
      rw [List.reverse_cons, List.map_append, List.map_singleton, value_concat,
        ih fun e he => h e (List.mem_cons_of_mem _ he), A.digit_ofDigit d (h d List.mem_cons_self),
        Nat.ofDigits_cons, Option.getD_some]
      omega

/-- The digits of a number have its value: Mathlib's digits and the value of a text agree. -/
theorem value_decimal (n : ℕ) : A.value (A.decimal n) = n := by
  rw [decimal]
  split_ifs with h
  · subst h
    rw [value, List.foldl_cons, List.foldl_nil, A.digit_ofDigit 0 (by omega)]
    rfl
  · rw [value_reverse_digits fun d hd => Nat.digits_lt_base (by omega) hd, Nat.ofDigits_digits]

/-! ### Scanning numerals -/

/-- White space is no digit, so that it ends a numeral. -/
theorem digit_of_space {b : α} (hb : A.isSpace b = true) : A.digit b = none := by
  rcases hdigit : A.digit b with _ | d
  · rfl
  · have hnot := A.isSpace_digit b (by rw [hdigit]; rfl)
    rw [hb] at hnot
    cases hnot

section Numeral

variable [DecidableEq α]

/-- A digit is no sign. -/
theorem sign_of_digit {c : α} (h : (A.digit c).isSome = true) (s : List α) :
    A.sign (c :: s) = (1, c :: s) := by
  have hminus : c ≠ A.minus := by
    rintro rfl
    rw [A.digit_minus] at h
    cases h
  have hplus : c ≠ A.plus := by
    rintro rfl
    rw [A.digit_plus] at h
    cases h
  rw [sign, if_neg hminus, if_neg hplus]

/-- A numeral is found with or without the white space before it. -/
theorem numeral_skipSpace (s : List α) : A.numeral (A.skipSpace s) = A.numeral s := by
  rw [numeral, numeral, skipSpace_skipSpace]

/-- Where one numeral is found the others are looked for behind it. -/
theorem numerals_succ {conv : ℤ → Option β} {v : ℤ} {s rest : List α} (n : ℕ)
    (h : A.numeral s = (some v, rest)) : A.numerals conv (n + 1) s =
      (conv v).bind fun x => (A.numerals conv n rest).map fun r => (x :: r.1, r.2) := by
  rw [numerals, h]

/-- A decimal numeral that is not followed by a digit is found, with its value, and what is behind
it is left. -/
theorem numeral_decimal (n : ℕ) {s : List α} (hs : ∀ c ∈ s.head?, A.digit c = none) :
    A.numeral (A.decimal n ++ s) = (some (n : ℤ), s) := by
  have hdigits : (A.decimal n ++ s).takeWhile (fun c => (A.digit c).isSome) = A.decimal n := by
    rw [List.takeWhile_append_of_pos fun c hc => digit_decimal hc]
    rcases s with _ | ⟨c, s⟩
    · simp
    · rw [List.takeWhile_cons_of_neg (by simp [hs c rfl]), List.append_nil]
  have hsign : A.sign (A.skipSpace (A.decimal n ++ s)) = (1, A.decimal n ++ s) := by
    obtain ⟨c, ds, hcons⟩ := List.exists_cons_of_ne_nil (A.decimal_ne_nil n)
    have hc : (A.digit c).isSome = true := digit_decimal (n := n) (by simp [hcons])
    rw [hcons, List.cons_append, skipSpace_cons_of_not_space (A.isSpace_digit c hc),
      sign_of_digit hc]
  rw [numeral, hsign]
  simp only [hdigits, if_neg (A.decimal_ne_nil n), value_decimal, one_mul, List.drop_left]

variable (A)

/-- Numerals, with the character `b` before each. -/
def decimals (b : α) (val : β → ℕ) (xs : List β) : List α :=
  xs.flatMap fun x => b :: A.decimal (val x)

variable {A}

omit [DecidableEq α] in
/-- The numeral of the first number, and those of the others. -/
theorem decimals_cons (b : α) (val : β → ℕ) (x : β) (xs : List β) :
    A.decimals b val (x :: xs) = b :: (A.decimal (val x) ++ A.decimals b val xs) := rfl

omit [DecidableEq α] in
/-- The characters of numerals are digits and the separator. -/
theorem mem_decimals {b c : α} {val : β → ℕ} {xs : List β} (hc : c ∈ A.decimals b val xs) :
    c = b ∨ (A.digit c).isSome = true := by
  obtain ⟨x, -, hc⟩ := List.mem_flatMap.mp hc
  rcases List.mem_cons.mp hc with rfl | hc
  · exact Or.inl rfl
  · exact Or.inr (digit_decimal hc)

omit [DecidableEq α] in
/-- Numerals of numbers below `10 ^ m` have at most `m` digits each. -/
theorem length_decimals_le {b : α} {val : β → ℕ} {m : ℕ} (hm : m ≠ 0) {xs : List β}
    (hxs : ∀ x ∈ xs, val x < 10 ^ m) : (A.decimals b val xs).length ≤ xs.length * (m + 1) := by
  induction xs with
  | nil => simp [decimals]
  | cons x xs ih =>
      have hx := length_decimal_le (A := A) hm (hxs x List.mem_cons_self)
      have hxs := ih fun y hy => hxs y (List.mem_cons_of_mem x hy)
      rw [decimals_cons, List.length_cons, List.length_append, List.length_cons, Nat.add_mul]
      omega

/-- Numerals that are not followed by a digit are found, with what they convert to. By induction on
the numbers, each of which is ended by the separator of the next. -/
theorem numerals_decimals {conv : ℤ → Option β} {val : β → ℕ} {xs : List β}
    (hconv : ∀ x ∈ xs, conv (val x) = some x) {b : α} (hb : A.isSpace b = true) {s : List α}
    (hs : ∀ c ∈ s.head?, A.digit c = none) :
    A.numerals conv xs.length (A.decimals b val xs ++ s) = some (xs, s) := by
  induction xs with
  | nil => rfl
  | cons x xs ih =>
      have hhead : ∀ c ∈ (A.decimals b val xs ++ s).head?, A.digit c = none := by
        rcases xs with _ | ⟨x', xs⟩
        · exact hs
        · rw [decimals_cons]
          rintro c ⟨⟩
          exact digit_of_space hb
      have hnum : A.numeral (A.decimals b val (x :: xs) ++ s) =
          (some (val x : ℤ), A.decimals b val xs ++ s) := by
        rw [decimals_cons, List.cons_append, ← numeral_skipSpace, skipSpace_cons_of_space hb,
          numeral_skipSpace, List.append_assoc, numeral_decimal (val x) hhead]
      rw [List.length_cons, numerals_succ xs.length hnum, hconv x List.mem_cons_self,
        Option.bind_some, ih fun y hy => hconv y (List.mem_cons_of_mem x hy), Option.map_some]

end Numeral

end Alphabet

/-- A line that fits is found with its end. -/
theorem line_append [DecidableEq α] {eol : α} {w s : List α} (hw : eol ∉ w) {n : ℕ}
    (hn : w.length < n) : line eol n (w ++ eol :: s) = w ++ [eol] := by
  induction w generalizing n with
  | nil =>
      obtain ⟨n, rfl⟩ : ∃ m, n = m + 1 := ⟨n - 1, by simp at hn; omega⟩
      rw [List.nil_append, line, if_pos rfl, List.nil_append]
  | cons c w ih =>
      obtain ⟨n, rfl⟩ : ∃ m, n = m + 1 := ⟨n - 1, by simp at hn; omega⟩
      have hc : c ≠ eol := fun heq => hw (heq ▸ List.mem_cons_self)
      rw [List.cons_append, line, if_neg hc, List.cons_append,
        ih (fun hmem => hw (List.mem_cons_of_mem c hmem)) (by simpa using hn)]

end Scan
