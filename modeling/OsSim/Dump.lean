import OsSim.Lib.PrefixCode
import OsSim.Memphy

/-!
# The Memory Dump

`MEMPHY_dump` prints the bytes of a device in words of four, each on a line with its address. It
leaves out the words whose bytes add up to 0, as signed numbers, and the bytes behind the last whole
word.

## Reading a dump

To say what a dump tells, it has to be read again. The address has eight digits. A byte has two
digits if it is not negative as a `char`, and eight, the first of them `f`, if it is, since it is
printed as an `unsigned int`; so the number of characters of a line depends on its bytes. The first
digit of a byte says which it is, which makes bytes, words and lines codes that do not run into each
other (`Lib.PrefixCode`). A dump is a sequence of lines, so two dumps are equal exactly when their
lines are.

A line of one dump may stand anywhere in another. It begins with an address and a colon, and ends
with the only newline in it, so where it stands there is a line (`dumpLine_infix_iff`).

## What is lost

Two contents have the same dump when they differ only in words that add up to 0 in both, or behind
the last whole word (`memphyDump_ne_iff`). The bytes 1 and -1 in one word are an example.

## Main results

* `dumpLine_selfDelimiting`: lines of different lengths do not run into each other.
* `memphyDump_ne_iff`: **the dumps of two contents differ exactly when a printed word does**.
* `dumpLine_infix_iff`: which lines a dump contains.
* `dumpComplete_iff`: **when the dump loses nothing**.
-/

namespace OsSim

open PrefixCode

/-! ### Printing -/

/-- What `printf` prints for `%0wx`: an unsigned number with at least `w` hexadecimal digits. -/
def hex (w : ℕ) (x : BitVec 32) : List Char := (Nat.toDigits 16 x.toNat).leftpad w '0'

/-- `%02x` for a `BYTE`, which is made an `int` before. -/
def hexByte (b : Byte) : List Char := hex 2 (b.signExtend 32)

/-- Four bytes in a row, the unit of a dump. -/
abbrev Word : Type := Byte × Byte × Byte × Byte

/-- Word `i`: the four bytes from `storage[i * 4]` on. -/
def wordAt (storage : ℕ → Byte) (i : ℕ) : Word :=
  (storage (i * 4), storage (i * 4 + 1), storage (i * 4 + 2), storage (i * 4 + 3))

/-- The sum that `MEMPHY_dump` tests, of four signed bytes. -/
def wordSum (w : Word) : ℤ := w.1.toInt + w.2.1.toInt + w.2.2.1.toInt + w.2.2.2.toInt

/-- The bytes of a word, as they are printed. -/
def dumpBytes (w : Word) : List Char :=
  hexByte w.1 ++ (hexByte w.2.1 ++ (hexByte w.2.2.1 ++ hexByte w.2.2.2))

/-- The line of a word: its address, a colon, its bytes and a newline. -/
def dumpLine (x : BitVec 32 × Word) : List Char :=
  hex 8 x.1 ++ [':', ' '] ++ dumpBytes x.2 ++ ['\n']

/-- The loop of `MEMPHY_dump` from word `i` on, with `n` words to go. -/
def dumpLoop (storage : ℕ → Byte) : ℕ → ℕ → List Char
  | 0, _ => []
  | n + 1, i =>
      (if wordSum (wordAt storage i) ≠ 0 then
        dumpLine (BitVec.ofNat 32 (i * 4), wordAt storage i)
      else []) ++ dumpLoop storage n (i + 1)

variable {ι : Type}

/-- `MEMPHY_dump`: what it prints, for the whole words of the device. -/
def memphyDump (mp : Memphy ι) : List Char := dumpLoop mp.storage (mp.maxsz.tdiv 4).toNat 0

/-! ### Hexadecimal numerals -/

/-- The value of a hexadecimal digit. -/
def digitValue (c : Char) : ℕ := if c.isDigit then c.toNat - 48 else c.toNat - 87

/-- The value of the digit for `d` is `d`. -/
theorem digitValue_digitChar : ∀ d < 16, digitValue d.digitChar = d := by decide

/-- The value of hexadecimal digits, most significant first. -/
def hexValue (s : List Char) : ℕ := s.foldl (fun n c => 16 * n + digitValue c) 0

/-- One digit more. -/
theorem hexValue_concat (s : List Char) (c : Char) :
    hexValue (s ++ [c]) = 16 * hexValue s + digitValue c := by
  rw [hexValue, List.foldl_concat, hexValue]

/-- The digits of a number have its value. -/
theorem hexValue_toDigits (n : ℕ) : hexValue (Nat.toDigits 16 n) = n := by
  induction n using Nat.strong_induction_on with
  | _ n ih =>
      by_cases hn : n < 16
      · rw [Nat.toDigits_of_lt_base hn]
        exact (hexValue_concat [] n.digitChar).trans (by simp [hexValue, digitValue_digitChar n hn])
      · have hlast := digitValue_digitChar (n % 16) (by omega)
        rw [Nat.toDigits_of_base_le (by omega) (by omega), hexValue_concat, ih (n / 16) (by omega),
          hlast]
        omega

/-- Zeros in front do not count for the value of a numeral. -/
theorem hexValue_zeros (k : ℕ) (s : List Char) :
    hexValue (List.replicate k '0' ++ s) = hexValue s := by
  induction k with
  | zero => rfl
  | succ k ih => exact ih

/-- What is printed for a word has its value. -/
theorem hexValue_hex (w : ℕ) (x : BitVec 32) : hexValue (hex w x) = x.toNat := by
  rw [hex, List.leftpad, hexValue_zeros, hexValue_toDigits]

/-- Different words are printed differently, whatever the width. -/
theorem hex_injective (w : ℕ) : Function.Injective (hex w) := by
  intro x y heq
  rw [← BitVec.toNat_inj, ← hexValue_hex w x, heq, hexValue_hex]

/-- A word that has at most `w` digits is printed with `w` of them. -/
theorem length_hex {w : ℕ} {x : BitVec 32} (hw : 0 < w) (hx : x.toNat < 16 ^ w) :
    (hex w x).length = w := by
  have hle := (Nat.length_toDigits_le_iff (b := 16) (by omega) hw).mpr hx
  rw [hex, List.length_leftpad]
  omega

/-- The characters of a numeral are digits. -/
theorem mem_toDigits {n : ℕ} {c : Char} (hc : c ∈ Nat.toDigits 16 n) :
    ∃ d < 16, c = d.digitChar := by
  induction n using Nat.strong_induction_on with
  | _ n ih =>
      by_cases hn : n < 16
      · rw [Nat.toDigits_of_lt_base hn, List.mem_singleton] at hc
        exact ⟨n, hn, hc⟩
      · rw [Nat.toDigits_of_base_le (by omega) (by omega), List.mem_append,
          List.mem_singleton] at hc
        rcases hc with hc | hc
        · exact ih (n / 16) (by omega) hc
        · exact ⟨n % 16, by omega, hc⟩

/-- A character that is no hexadecimal digit is not printed. -/
theorem not_mem_hex {c : Char} (hc : ∀ d < 16, d.digitChar ≠ c) (w : ℕ) (x : BitVec 32) :
    c ∉ hex w x := by
  intro hmem
  rw [hex, List.leftpad, List.mem_append, List.mem_replicate] at hmem
  rcases hmem with ⟨-, rfl⟩ | hmem
  · exact hc 0 (by omega) rfl
  · obtain ⟨d, hd, rfl⟩ := mem_toDigits hmem
    exact hc d hd rfl

/-! ### A line of the dump -/

/-- With eight digits, all words are printed with as many characters. -/
theorem hex8_selfDelimiting : SelfDelimiting (hex 8) :=
  .of_length (hex_injective 8) fun x => length_hex (by omega) (show _ < 2 ^ 32 from x.isLt)

/-- A byte that is negative as a `char` is printed with eight digits, the first of them `f`. -/
theorem length_hexByte :
    ∀ b : Byte, (hexByte b).length = if (hexByte b).head? = some 'f' then 8 else 2 := by
  decide +kernel

/-- A byte is printed with some character. -/
theorem hexByte_ne_nil (b : Byte) : hexByte b ≠ [] := by
  intro heq
  have hlen := length_hexByte b
  rw [heq] at hlen
  cases hlen

/-- The first digit of a byte tells how many there are. -/
theorem hexByte_selfDelimiting : SelfDelimiting hexByte := by
  refine .of_head ?_ hexByte_ne_nil ?_
  · intro b b' heq
    have hext : b.signExtend 32 = b'.signExtend 32 := hex_injective 2 heq
    rw [← BitVec.toInt_inj, ← BitVec.toInt_signExtend_of_le (v := 32) (by omega), hext,
      BitVec.toInt_signExtend_of_le (by omega)]
  · intro b b' heq
    rw [length_hexByte, length_hexByte, heq]

/-- The bytes of a word do not run into each other. -/
theorem dumpBytes_selfDelimiting : SelfDelimiting dumpBytes :=
  hexByte_selfDelimiting.append (hexByte_selfDelimiting.append
    (hexByte_selfDelimiting.append hexByte_selfDelimiting))

/-- **Lines of different lengths do not run into each other.** -/
theorem dumpLine_selfDelimiting : SelfDelimiting dumpLine :=
  ((hex8_selfDelimiting.append_right [':', ' ']).append dumpBytes_selfDelimiting).append_right
    ['\n']

example : dumpLine (4, 65, -128, 0, 1) = "00000004: 41ffffff800001\n".toList := by decide

/-- The bytes of a word are printed with digits only. -/
theorem not_mem_dumpBytes {c : Char} (hc : ∀ d < 16, d.digitChar ≠ c) (w : Word) :
    c ∉ dumpBytes w := by
  simp only [dumpBytes, hexByte, List.mem_append, not_or]
  exact ⟨not_mem_hex hc 2 _, not_mem_hex hc 2 _, not_mem_hex hc 2 _, not_mem_hex hc 2 _⟩

/-- The end of a line comes at its end only. -/
theorem dumpLine_ends (x : BitVec 32 × Word) :
    ∃ body, dumpLine x = body ++ ['\n'] ∧ '\n' ∉ body := by
  have hdigit : ∀ d < 16, d.digitChar ≠ '\n' := by decide
  refine ⟨hex 8 x.1 ++ [':', ' '] ++ dumpBytes x.2, rfl, ?_⟩
  simp only [List.mem_append, not_or]
  exact ⟨⟨not_mem_hex hdigit 8 x.1, by decide⟩, not_mem_dumpBytes hdigit x.2⟩

/-- A line that ends another one is that line: the colon tells where its address is. -/
theorem dumpLine_suffix {x y : BitVec 32 × Word} (h : dumpLine x <:+ dumpLine y) :
    x = y := by
  have hdigit : ∀ d < 16, d.digitChar ≠ ':' := by decide
  have hsplit (z : BitVec 32 × Word) :
      dumpLine z = hex 8 z.1 ++ ':' :: (' ' :: (dumpBytes z.2 ++ ['\n'])) := by
    simp only [dumpLine, dumpBytes, List.append_assoc, List.cons_append, List.nil_append]
  have hrest (z : BitVec 32 × Word) : ':' ∉ ' ' :: (dumpBytes z.2 ++ ['\n']) := by
    simp only [List.mem_cons, List.mem_append, not_or]
    exact ⟨by decide, not_mem_dumpBytes hdigit z.2, by decide⟩
  have hlen (z : BitVec 32 × Word) : (hex 8 z.1).length = 8 :=
    length_hex (by omega) (show _ < 2 ^ 32 from z.1.isLt)
  obtain ⟨pre, heq⟩ := h
  have hpre := heq
  rw [hsplit x, hsplit y, ← List.append_assoc] at hpre
  obtain ⟨haddr, -, -⟩ := (List.append_cons_inj_of_notMem (not_mem_hex hdigit 8 y.1)
    (hrest y)).mp hpre.symm
  have hnil : pre = [] := by
    have hlength := congrArg List.length haddr
    rw [List.length_append, hlen x, hlen y] at hlength
    exact List.length_eq_zero_iff.mp (by omega)
  subst hnil
  exact dumpLine_selfDelimiting.injective heq

/-! ### The words of the dump -/

/-- The line that the loop prints for word `i`, if it prints one, as an address and a word. -/
def dumpEntry (storage : ℕ → Byte) (i : ℕ) : Option (BitVec 32 × Word) :=
  if wordSum (wordAt storage i) ≠ 0 then some (BitVec.ofNat 32 (i * 4), wordAt storage i) else none

/-- A line is printed for a word whose bytes do not add up to 0. -/
theorem dumpEntry_eq_some_iff {storage : ℕ → Byte} {i : ℕ} {x : BitVec 32 × Word} :
    dumpEntry storage i = some x ↔
      wordSum (wordAt storage i) ≠ 0 ∧ (BitVec.ofNat 32 (i * 4), wordAt storage i) = x := by
  rw [dumpEntry, Option.ite_none_right_eq_some, Option.some.injEq]

/-- The loop prints the lines of its entries, one after the other. -/
theorem dumpLoop_eq (storage : ℕ → Byte) (n i : ℕ) : dumpLoop storage n i =
    ((List.range' i n).filterMap (dumpEntry storage)).flatMap dumpLine := by
  induction n generalizing i with
  | zero => rfl
  | succ n ih =>
      rw [dumpLoop, ih, List.range'_succ, List.filterMap_cons, dumpEntry]
      split_ifs with hsum
      · rfl
      · rfl

/-- A line has some character. -/
theorem dumpLine_ne_nil (x : BitVec 32 × Word) : dumpLine x ≠ [] := by
  obtain ⟨body, heq, -⟩ := dumpLine_ends x
  rw [heq]
  exact List.append_ne_nil_of_right_ne_nil _ (List.cons_ne_nil _ _)

/-- Addresses below `2^31` are told apart. -/
theorem addr_inj {i j : ℕ} (hi : i < 536870912) (hj : j < 536870912)
    (heq : BitVec.ofNat 32 (i * 4) = BitVec.ofNat 32 (j * 4)) : i = j := by
  have hnat := congrArg BitVec.toNat heq
  rw [BitVec.toNat_ofNat, BitVec.toNat_ofNat] at hnat
  omega

/-- Which lines the loop prints, over `n` words: those of the words that do not add up to 0. -/
theorem mem_dumpEntries_iff {storage : ℕ → Byte} {n i : ℕ} {w : Word} (hn : n ≤ 536870912)
    (hi : i < 536870912) :
    (BitVec.ofNat 32 (i * 4), w) ∈ (List.range' 0 n).filterMap (dumpEntry storage) ↔
      i < n ∧ wordSum (wordAt storage i) ≠ 0 ∧ wordAt storage i = w := by
  simp only [List.mem_filterMap, dumpEntry_eq_some_iff, Prod.mk.injEq]
  constructor
  · rintro ⟨j, hj, hsum, haddr, hbytes⟩
    have hjn : j < n := by simpa using hj
    obtain rfl := addr_inj (by omega) hi haddr
    exact ⟨hjn, hsum, hbytes⟩
  · rintro ⟨hin, hsum, hbytes⟩
    exact ⟨i, by simpa using hin, hsum, rfl, hbytes⟩

/-- The loop prints the same exactly when the words it prints agree. -/
theorem dumpLoop_inj_iff {storage storage' : ℕ → Byte} {n : ℕ} (hn : n ≤ 536870912) :
    dumpLoop storage n 0 = dumpLoop storage' n 0 ↔
      ∀ i < n, wordSum (wordAt storage i) ≠ 0 ∨ wordSum (wordAt storage' i) ≠ 0 →
        wordAt storage i = wordAt storage' i := by
  have hword {s s' : ℕ → Byte} (heq : dumpLoop s n 0 = dumpLoop s' n 0) {i : ℕ} (hi : i < n)
      (hsum : wordSum (wordAt s i) ≠ 0) : wordAt s i = wordAt s' i := by
    rw [dumpLoop_eq, dumpLoop_eq] at heq
    have hentries := dumpLine_selfDelimiting.flatMap_injective dumpLine_ne_nil heq
    have hmem := (mem_dumpEntries_iff hn (by omega)).mpr ⟨hi, hsum, rfl⟩
    rw [hentries] at hmem
    exact ((mem_dumpEntries_iff hn (by omega)).mp hmem).2.2.symm
  constructor
  · rintro heq i hi (hsum | hsum)
    · exact hword heq hi hsum
    · exact (hword heq.symm hi hsum).symm
  · intro hagree
    rw [dumpLoop_eq, dumpLoop_eq]
    congr 1
    refine List.filterMap_congr fun i hi => ?_
    have hin : i < n := by simpa using hi
    by_cases hsum : wordSum (wordAt storage i) ≠ 0 ∨ wordSum (wordAt storage' i) ≠ 0
    · rw [dumpEntry, dumpEntry, hagree i hin hsum]
    · rw [not_or] at hsum
      rw [dumpEntry, dumpEntry, if_neg hsum.1, if_neg hsum.2]

/-! ### The dump of a device -/

/-- `MEMPHY_dump` prints word `i`: all of it is on the device, and its bytes do not add up to 0. -/
def Dumped (maxsz : ℤ) (storage : ℕ → Byte) (i : ℕ) : Prop :=
  4 * ((i : ℤ) + 1) ≤ maxsz ∧ wordSum (wordAt storage i) ≠ 0

/-- The loop runs over the whole words. -/
theorem lt_tdiv_iff {maxsz : ℤ} {i : ℕ} : i < (maxsz.tdiv 4).toNat ↔ 4 * ((i : ℤ) + 1) ≤ maxsz := by
  rcases le_or_gt 0 maxsz with hpos | hneg
  · rw [Int.tdiv_eq_ediv_of_nonneg hpos]
    omega
  · have hdiv : maxsz.tdiv 4 ≤ (0 : ℤ).tdiv 4 := Int.tdiv_le_tdiv (by omega) hneg.le
    rw [Int.zero_tdiv] at hdiv
    omega

/-- A device has at most `2 ^ 29` whole words. -/
theorem tdiv_le (mp : Memphy ι) : (mp.maxsz.tdiv 4).toNat ≤ 536870912 := by
  by_contra hlt
  have hle := lt_tdiv_iff.mp (not_le.mp hlt)
  have hmax := mp.maxsz_lt
  omega

/-- **The dumps of two contents differ exactly when a printed word does.** -/
theorem memphyDump_ne_iff (mp : Memphy ι) (storage' : ℕ → Byte) :
    memphyDump mp ≠ memphyDump { mp with storage := storage' } ↔
      ∃ i, (Dumped mp.maxsz mp.storage i ∨ Dumped mp.maxsz storage' i) ∧
        wordAt mp.storage i ≠ wordAt storage' i := by
  rw [memphyDump, memphyDump, ne_eq, dumpLoop_inj_iff (tdiv_le mp)]
  simp only [not_forall, lt_tdiv_iff, Dumped, exists_prop, ← and_or_left, and_assoc]

/-- **The line of a word is in the dump exactly when it is printed.** -/
theorem dumpLine_infix_iff (mp : Memphy ι) {i : ℕ} (hi : i < 536870912) :
    dumpLine (BitVec.ofNat 32 (i * 4), wordAt mp.storage i) <:+: memphyDump mp ↔
      Dumped mp.maxsz mp.storage i := by
  rw [memphyDump, dumpLoop_eq, Dumped, ← lt_tdiv_iff]
  constructor
  · intro h
    obtain ⟨x, hx, hsuffix⟩ := suffix_of_infix dumpLine_ends h
    obtain rfl := dumpLine_suffix hsuffix
    obtain ⟨hin, hsum, -⟩ := (mem_dumpEntries_iff (tdiv_le mp) hi).mp hx
    exact ⟨hin, hsum⟩
  · rintro ⟨hin, hsum⟩
    have hmem := (mem_dumpEntries_iff (tdiv_le mp) hi).mpr ⟨hin, hsum, rfl⟩
    rw [List.flatMap_def]
    exact List.infix_of_mem_flatten (List.mem_map_of_mem hmem)

/-- The dump loses nothing: it differs from that of contents which differ in a byte, and it has the
line of every byte that is not 0. -/
structure DumpComplete (mp : Memphy ι) (storage' : ℕ → Byte) : Prop where
  apart : (∃ a : ℕ, (a : ℤ) < mp.maxsz ∧ mp.storage a ≠ storage' a) →
    memphyDump mp ≠ memphyDump { mp with storage := storage' }
  shown : ∀ a : ℕ, (a : ℤ) < mp.maxsz → mp.storage a ≠ 0 →
    dumpLine (BitVec.ofNat 32 (a / 4 * 4), wordAt mp.storage (a / 4)) <:+: memphyDump mp

/-- **When the dump loses nothing**: two contents that differ do so in a whole word that does not
add up to 0 in both, and every byte that is not 0 is in a whole word that does not add up to 0. -/
theorem dumpComplete_iff (mp : Memphy ι) (storage' : ℕ → Byte) : DumpComplete mp storage' ↔
    ((∃ a : ℕ, (a : ℤ) < mp.maxsz ∧ mp.storage a ≠ storage' a) →
      ∃ i, (Dumped mp.maxsz mp.storage i ∨ Dumped mp.maxsz storage' i) ∧
        wordAt mp.storage i ≠ wordAt storage' i) ∧
      ∀ a : ℕ, (a : ℤ) < mp.maxsz → mp.storage a ≠ 0 → Dumped mp.maxsz mp.storage (a / 4) := by
  have hword {a : ℕ} (ha : (a : ℤ) < mp.maxsz) : a / 4 < 536870912 := by
    have hmax := mp.maxsz_lt
    omega
  constructor
  · intro h
    refine ⟨fun hdiffer => (memphyDump_ne_iff mp storage').mp (h.apart hdiffer), ?_⟩
    intro a ha hne
    exact (dumpLine_infix_iff mp (hword ha)).mp (h.shown a ha hne)
  · rintro ⟨hapart, hshown⟩
    exact
      { apart := fun hdiffer => (memphyDump_ne_iff mp storage').mpr (hapart hdiffer)
        shown := fun a ha hne => (dumpLine_infix_iff mp (hword ha)).mpr (hshown a ha hne) }

/-- The bytes 1 and -1, which add up to 0, and zeros. -/
def cancelling (a : ℕ) : Byte := if a = 0 then 1 else if a = 1 then -1 else 0

/-- The first word of these bytes adds up to 0, so that their dump is that of zeros. -/
theorem dumpComplete_fails : ¬ DumpComplete (initMemphy 256 true : Memphy Unit) cancelling := by
  intro h
  rw [initMemphy_eq] at h
  have hzero (i : ℕ) : wordSum (wordAt (fun _ => 0) i) = 0 := rfl
  have hcancel (i : ℕ) : wordSum (wordAt cancelling i) = 0 := by
    rcases i with _ | i
    · decide
    · have hpast : ∀ j < 4, cancelling ((i + 1) * 4 + j) = 0 := by
        intro j hj
        rw [cancelling, if_neg (by omega), if_neg (by omega)]
      have h0 := hpast 0 (by omega)
      rw [Nat.add_zero] at h0
      rw [wordAt, h0, hpast 1 (by omega), hpast 2 (by omega), hpast 3 (by omega)]
      rfl
  have hdiffer := h.apart ⟨0, by decide, by decide⟩
  obtain ⟨i, hdumped, -⟩ := (memphyDump_ne_iff _ _).mp hdiffer
  rcases hdumped with ⟨-, hsum⟩ | ⟨-, hsum⟩
  · exact hsum (hzero i)
  · exact hsum (hcancel i)

end OsSim
