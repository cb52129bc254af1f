import Mathlib.Data.List.Basic
import Mathlib.InformationTheory.Coding.UniquelyDecodable

/-!
# Texts Made of Code Words

A code gives each item a word, and the text of a list of items has their words one behind the
other. The code is self-delimiting if no word begins another one: where a text begins with a word,
the text tells which, and where it ends. Such codes can be put together from smaller ones.

A printer that writes a list of records writes such a text, and whether the records can be told from
what is printed is whether the code is self-delimiting. The definition has the rest of the text in
it (`enc a ++ s = enc b ++ t`), which makes the codes compose: fields behind one another
(`SelfDelimiting.append`), a separator behind each field (`SelfDelimiting.append_right`), words
of one length (`SelfDelimiting.of_length`), and words whose first symbol tells their length
(`SelfDelimiting.of_head`). That a text tells its items is then one induction on the first list.

The last section goes the other way: when a given word stands somewhere in a text. If every word
ends with a symbol that is nowhere else in a word, it stands where a word ends.

## Main results

* `SelfDelimiting.of_head`: words whose first symbol tells their length.
* `SelfDelimiting.append`: the words of two codes, one behind the other.
* `SelfDelimiting.flatMap_injective`: **a text tells its items**.
* `suffix_of_infix`: a word that ends like no other symbol does stands in a text only at the end
  of a word.
-/

namespace PrefixCode

open InformationTheory

variable {α β σ : Type*}

/-- Where a text begins with a word, it tells which, and what is behind it. This is what a reader
needs that goes from left to right. -/
def SelfDelimiting (enc : α → List σ) : Prop :=
  ∀ a b s t, enc a ++ s = enc b ++ t → a = b ∧ s = t

namespace SelfDelimiting

variable {enc : α → List σ}

/-- No two items have the same word: a word would be the beginning of both. -/
theorem injective (h : SelfDelimiting enc) : Function.Injective enc := by
  intro a b heq
  exact (h a b [] [] (by rw [heq])).1

/-! ### Putting codes together -/

/-- **Words whose first symbol tells their length**: two words that begin a text have the same first
symbol, and then they are the same piece of it. -/
theorem of_head (hinj : Function.Injective enc) (hne : ∀ a, enc a ≠ [])
    (hlen : ∀ a b, (enc a).head? = (enc b).head? → (enc a).length = (enc b).length) :
    SelfDelimiting enc := by
  intro a b s t heq
  have hhead : (enc a).head? = (enc b).head? := by
    have hfirst := congrArg List.head? heq
    rwa [List.head?_append_of_ne_nil _ (hne a), List.head?_append_of_ne_nil _ (hne b)] at hfirst
  obtain ⟨hword, hrest⟩ := List.append_inj heq (hlen a b hhead)
  exact ⟨hinj hword, hrest⟩

/-- Words of one length need no more than to be different. -/
theorem of_length {n : ℕ} (hinj : Function.Injective enc) (hlen : ∀ a, (enc a).length = n) :
    SelfDelimiting enc := by
  intro a b s t heq
  obtain ⟨hword, hrest⟩ := List.append_inj heq ((hlen a).trans (hlen b).symm)
  exact ⟨hinj hword, hrest⟩

/-- **Two words, one behind the other**, are a code of pairs. -/
theorem append {enc' : β → List σ} (h : SelfDelimiting enc) (h' : SelfDelimiting enc') :
    SelfDelimiting fun x : α × β => enc x.1 ++ enc' x.2 := by
  rintro ⟨a, a'⟩ ⟨b, b'⟩ s t heq
  simp only [List.append_assoc] at heq
  obtain ⟨rfl, hrest⟩ := h a b _ _ heq
  obtain ⟨rfl, rfl⟩ := h' a' b' s t hrest
  exact ⟨rfl, rfl⟩

/-- The same symbols behind every word, as a separator is. -/
theorem append_right (h : SelfDelimiting enc) (tail : List σ) :
    SelfDelimiting fun a => enc a ++ tail := by
  intro a b s t heq
  simp only [List.append_assoc] at heq
  obtain ⟨rfl, hrest⟩ := h a b _ _ heq
  exact ⟨rfl, List.append_cancel_left hrest⟩

/-! ### Texts -/

/-- The words are uniquely decodable in the sense of Mathlib. -/
theorem uniquelyDecodable (h : SelfDelimiting enc) (hne : ∀ a, enc a ≠ []) :
    UniquelyDecodable (Set.range enc) := by
  intro l
  induction l with
  | nil =>
      rintro (_ | ⟨w, l'⟩) - hw' heq
      · rfl
      · obtain ⟨a, rfl⟩ := hw' w List.mem_cons_self
        exact absurd (List.append_eq_nil_iff.mp heq.symm).1 (hne a)
  | cons w l ih =>
      rintro (_ | ⟨w', l'⟩) hw hw' heq
      · obtain ⟨a, rfl⟩ := hw w List.mem_cons_self
        exact absurd (List.append_eq_nil_iff.mp heq).1 (hne a)
      · obtain ⟨a, rfl⟩ := hw w List.mem_cons_self
        obtain ⟨b, rfl⟩ := hw' w' List.mem_cons_self
        obtain ⟨rfl, hrest⟩ := h a b _ _ heq
        rw [ih l' (fun v hv => hw v (List.mem_cons_of_mem _ hv))
          (fun v hv => hw' v (List.mem_cons_of_mem _ hv)) hrest]

/-- **A text tells its items**, if no word is empty. By induction on the first list of items, with
the second one split where the code says. -/
theorem flatMap_injective (h : SelfDelimiting enc) (hne : ∀ a, enc a ≠ []) :
    Function.Injective (List.flatMap enc) := by
  intro l l' heq
  have hwords (l : List α) : ∀ w ∈ l.map enc, w ∈ Set.range enc := by
    intro w hw
    obtain ⟨a, -, rfl⟩ := List.mem_map.mp hw
    exact Set.mem_range_self a
  rw [List.flatMap_def, List.flatMap_def] at heq
  exact List.map_injective_iff.mpr h.injective
    (h.uniquelyDecodable hne _ _ (hwords l) (hwords l') heq)

end SelfDelimiting

/-! ### Words in a text -/

/-- Where `stop` comes for the first time is told by the text, so that a text with it splits in one
way there. -/
theorem split_first {stop : σ} {x y s t : List σ} (hx : stop ∉ x) (hy : stop ∉ y)
    (heq : x ++ stop :: s = y ++ stop :: t) : x = y ∧ s = t := by
  induction x generalizing y with
  | nil =>
      rcases y with _ | ⟨c, y⟩
      · exact ⟨rfl, (List.cons.inj heq).2⟩
      · exact absurd ((List.cons.inj heq).1 ▸ List.mem_cons_self) hy
  | cons c x ih =>
      rcases y with _ | ⟨d, y⟩
      · exact absurd ((List.cons.inj heq).1 ▸ List.mem_cons_self) hx
      · obtain ⟨rfl, htail⟩ := List.cons.inj heq
        obtain ⟨rfl, rfl⟩ := ih (fun hmem => hx (List.mem_cons_of_mem c hmem))
          (fun hmem => hy (List.mem_cons_of_mem c hmem)) htail
        exact ⟨rfl, rfl⟩

/-- A word that ends with `stop`, which is nowhere else in a word, stands in a text only where a
word ends. -/
theorem suffix_of_infix {enc : α → List σ} {stop : σ}
    (hstop : ∀ a, ∃ body, enc a = body ++ [stop] ∧ stop ∉ body) {a : α} {l : List α}
    (h : enc a <:+: l.flatMap enc) : ∃ b ∈ l, enc a <:+ enc b := by
  obtain ⟨body, ha, hbody⟩ := hstop a
  induction l with
  | nil =>
      rw [List.flatMap_nil, List.infix_nil, ha] at h
      exact absurd h (List.append_ne_nil_of_right_ne_nil _ (List.cons_ne_nil _ _))
  | cons b l ih =>
      -- the word stands in the words behind the first, if not in the first
      have hbehind (hin : enc a <:+: l.flatMap enc) : ∃ b' ∈ b :: l, enc a <:+ enc b' := by
        obtain ⟨b', hmem, hsuffix⟩ := ih hin
        exact ⟨b', List.mem_cons_of_mem b hmem, hsuffix⟩
      obtain ⟨pre, post, heq⟩ := h
      rw [List.flatMap_cons, List.append_assoc] at heq
      rcases List.append_eq_append_iff.mp heq with ⟨more, hb, hrest⟩ | ⟨more, rfl, hrest⟩
      · rcases List.eq_nil_or_concat' more with rfl | ⟨u, c, rfl⟩
        · exact hbehind ⟨[], post, hrest⟩
        · obtain ⟨body', hb', hbody'⟩ := hstop b
          rw [hb', ← List.append_assoc] at hb
          obtain ⟨rfl, hc⟩ := List.append_inj' hb rfl
          obtain rfl := List.singleton_inj.mp hc
          have hu : stop ∉ u := fun hmem => hbody' (List.mem_append_right pre hmem)
          rw [ha, List.append_assoc, List.append_assoc] at hrest
          obtain ⟨rfl, -⟩ := split_first hbody hu hrest
          exact ⟨b, List.mem_cons_self, pre, by rw [ha, hb', List.append_assoc]⟩
      · exact hbehind ⟨more, post, by rw [hrest, List.append_assoc]⟩

end PrefixCode
