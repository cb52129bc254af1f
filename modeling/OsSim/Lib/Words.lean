import OsSim.Lib.Scan

/-!
# The Words of a Text

The words of a text are its longest pieces without white space. Scanning words and decimal numerals
takes one word after the other, so that the layout of a text does not matter, and neither does what
comes behind the words that are asked for.

A reader that calls `word` and `numeral` in turn leaves after each call a rest of the text, which a
proof would have to describe. Instead of the rest itself the lemmas here speak of its words: if the
words of a text are `w :: ws`, then a call finds `w`, and the words of what is left are `ws`
(`word_of_words`, `numeral_of_words`, `numerals_of_words`). A reader of a whole file is then
followed through the list of the words, and a theorem about it holds for every layout with these
words.

Numerals are found in the words only if they are decimal. A word that begins with neither a sign nor
a digit is left where it stands (`numerals_of_word`), which is where a reader goes wrong that
expects a number.

## Main results

* `words_eq`: scanning a word takes the first of the words.
* `numerals_of_words`: decimal numerals are found wherever they are the next words.
-/

namespace Scan

variable {α β : Type*} (A : Alphabet α)

namespace Alphabet

/-- The longest pieces of a text without white space, first to last; empty ones are none. -/
def words (s : List α) : List (List α) := (s.splitOnP A.isSpace).filter (!·.isEmpty)

variable {A} {s rest w : List α} {ws : List (List α)}

/-! ### One word after the other -/

/-- White space in front adds no word. -/
theorem words_cons_of_space {c : α} (h : A.isSpace c = true) (s : List α) :
    A.words (c :: s) = A.words s := by
  rw [words, List.splitOnP_cons_eq_if_modifyHead, if_pos h]
  rfl

/-- Skipping white space takes no word. -/
theorem words_skipSpace (s : List α) : A.words (A.skipSpace s) = A.words s := by
  induction s with
  | nil => rfl
  | cons c s ih =>
      rcases h : A.isSpace c
      · rw [skipSpace_cons_of_not_space h]
      · rw [skipSpace_cons_of_space h, ih, words_cons_of_space h]

/-- A piece without white space that the text or some white space ends is the first word. -/
theorem words_append (hne : w ≠ []) (hw : ∀ c ∈ w, A.isSpace c = false)
    (hrest : ∀ c ∈ rest.head?, A.isSpace c = true) : A.words (w ++ rest) = w :: A.words rest := by
  have hkeep (ws : List (List α)) :
      (w :: ws).filter (!·.isEmpty) = w :: ws.filter (!·.isEmpty) :=
    List.filter_cons_of_pos (by simpa using hne)
  rcases rest with _ | ⟨b, rest⟩
  · rw [List.append_nil, words, List.splitOnP_eq_singleton hw, hkeep]
    rfl
  · have hb : A.isSpace b = true := hrest b rfl
    rw [words_cons_of_space hb, words, List.splitOnP_append_cons_of_forall_mem hw b hb, hkeep]
    rfl

/-- What scanning a word finds: it is what the text begins with, up to white space. -/
theorem word_eq_some (h : A.word s = some (w, rest)) : A.skipSpace s = w ++ rest ∧ w ≠ [] ∧
    (∀ c ∈ w, A.isSpace c = false) ∧ ∀ c ∈ rest.head?, A.isSpace c = true := by
  rw [word] at h
  split_ifs at h with hnil
  obtain ⟨rfl, rfl⟩ := Prod.mk.inj (Option.some.inj h)
  refine ⟨List.takeWhile_append_dropWhile.symm, ?_, ?_, ?_⟩
  · obtain ⟨c, t, hcons⟩ := List.exists_cons_of_ne_nil hnil
    have hhead := List.head?_dropWhile_not A.isSpace s
    rw [← skipSpace, hcons] at hhead
    rw [hcons, List.takeWhile_cons_of_pos (by simpa using hhead)]
    exact List.cons_ne_nil _ _
  · intro c hc
    simpa using List.mem_takeWhile_imp hc
  · intro c hc
    have hhead := List.head?_dropWhile_not (!A.isSpace ·) (A.skipSpace s)
    rw [Option.mem_def.mp hc] at hhead
    simpa using hhead

/-- Scanning a word takes the first of the words, and what is left has the others; there is no word
to scan exactly when there are no words. -/
theorem words_eq (s : List α) :
    A.words s = ((A.word s).map fun r => r.1 :: A.words r.2).getD [] := by
  rcases h : A.word s with _ | ⟨w, rest⟩
  · rw [word] at h
    split_ifs at h with hnil
    rw [← words_skipSpace, hnil]
    rfl
  · obtain ⟨hs, hne, hw, hrest⟩ := word_eq_some h
    rw [← words_skipSpace, hs, words_append hne hw hrest]
    rfl

/-- Where there is a next word, scanning finds it, and leaves the words behind it. -/
theorem word_of_words (h : A.words s = w :: ws) :
    ∃ rest, A.word s = some (w, rest) ∧ A.words rest = ws := by
  rw [words_eq] at h
  rcases hword : A.word s with _ | ⟨w', rest⟩
  · rw [hword] at h
    cases h
  · rw [hword] at h
    obtain ⟨rfl, rfl⟩ := List.cons.inj h
    exact ⟨rest, rfl, rfl⟩

/-! ### Numerals -/

section Numeral

variable [DecidableEq α]

/-- A decimal numeral is found where it is the next word, and leaves the words behind it. -/
theorem numeral_of_words {n : ℕ} (h : A.words s = A.decimal n :: ws) :
    ∃ rest, A.numeral s = (some (n : ℤ), rest) ∧ A.words rest = ws := by
  obtain ⟨rest, hword, hws⟩ := word_of_words h
  obtain ⟨hs, -, -, hrest⟩ := word_eq_some hword
  refine ⟨rest, ?_, hws⟩
  rw [← numeral_skipSpace, hs]
  exact numeral_decimal n fun c hc => digit_of_space (hrest c hc)

/-- Decimal numerals are found wherever they are the next words, with what they convert to. -/
theorem numerals_of_words (conv : ℤ → Option β) {ns : List ℕ}
    (h : A.words s = ns.map A.decimal ++ ws) : ∃ rest,
      A.numerals conv ns.length s = (ns.mapM fun n : ℕ => conv n).map (·, rest) ∧
        A.words rest = ws := by
  induction ns generalizing s with
  | nil => exact ⟨s, rfl, h⟩
  | cons n ns ih =>
      obtain ⟨more, hnum, hmore⟩ := numeral_of_words h
      obtain ⟨rest, hnums, hws⟩ := ih hmore
      refine ⟨rest, ?_, hws⟩
      rw [List.length_cons, numerals_succ ns.length hnum, hnums, List.mapM_cons]
      rcases conv n with _ | x
      · rfl
      · rcases ns.mapM fun n : ℕ => conv n with _ | xs
        · rfl
        · rfl

/-- A list that is converted as a whole keeps its length. -/
theorem length_of_mapM {γ : Type*} {f : γ → Option β} {ns : List γ} {xs : List β}
    (h : ns.mapM f = some xs) : xs.length = ns.length := by
  induction ns generalizing xs with
  | nil =>
      obtain rfl := Option.some.inj h
      rfl
  | cons n ns ih =>
      simp only [List.mapM_cons, Option.bind_eq_bind, Option.bind_eq_some_iff] at h
      obtain ⟨x, -, ys, hys, heq⟩ := h
      obtain rfl := Option.some.inj heq
      rw [List.length_cons, List.length_cons, ih hys]

/-- Where the next word begins with neither a sign nor a digit there is no numeral, and the word
stays. -/
theorem numerals_of_word (conv : ℤ → Option β) {c : α} (h : A.words s = (c :: w) :: ws)
    (hdigit : A.digit c = none) (hminus : c ≠ A.minus) (hplus : c ≠ A.plus) (n : ℕ) :
    A.numerals conv (n + 1) s = some ([], A.skipSpace s) := by
  obtain ⟨rest, hword, -⟩ := word_of_words h
  obtain ⟨hs, -, -, -⟩ := word_eq_some hword
  have hnum : A.numeral s = (none, A.skipSpace s) := by
    rw [numeral, hs, List.cons_append, sign, if_neg hminus, if_neg hplus]
    simp [hdigit]
  rw [numerals, hnum]

end Numeral

end Alphabet

end Scan
