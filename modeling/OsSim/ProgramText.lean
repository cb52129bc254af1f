import OsSim.Written

/-!
# Printing and Loading a Program

A list of instructions printed as a program text, with a header and one instruction a line, is
loaded again as it is. The header holds the number of instructions in 32 bits, so that a list has to
have fewer than `2^32` of them.

## How the argument goes

`Written` says which texts are loaded as they are written, so it is enough that a printed text is
plain and that the instructions are written in it (`plain_printText`). This is by induction over the
list. One instruction is printed on a line of its own; `fscanf` takes the white space behind its
last numeral, and the newline with it, while `fgets` takes the rest of the line, so that the text
goes on in one of two places. They differ by white space only, which `SameWords` allows for.

A system call is printed with all its four numbers, and the line has to fit into `buf` of 200
characters: four numerals of ten digits do.

The bound is exact. A list of `2 ^ 32` instructions has a header whose second number `%u` does not
take, and `load` is undefined.

## Main results

* `ProgInst.writtenInst_print`: a printed instruction is written in the text, with its operands in
  reach.
* `plain_printText`: **the text of a list of instructions is plain**.
* `load_printProgram`: **loading a printed program gives it back**.
* `load_printProgram_fails`: one instruction too many.
-/

namespace OsSim

open Scan

/-! ### Printing -/

/-- An instruction of a program, with just the operands that it requires. Those of a system call
are all four, and not negative as an `int`. -/
structure ProgInst extends WrittenInst where
  count : operands.length = operandCount 3 opcode
  small : opcode = .syscall → ∀ x ∈ operands, x.toNat < 2147483648

/-- The character between the words of a line, which is white space. -/
def blank : Byte := 32

/-- The line of an instruction. -/
def ProgInst.print (i : ProgInst) : List Byte :=
  i.opcode.opt ++ (ascii.decimals blank BitVec.toNat i.operands ++ [newline])

/-- The lines of a list of instructions. -/
def printText (is : List ProgInst) : List Byte := is.flatMap ProgInst.print

/-- The program text: the header, and one instruction a line. -/
def printProgram (priority : BitVec 32) (is : List ProgInst) : List Byte :=
  ascii.decimal priority.toNat ++ blank :: (ascii.decimal is.length ++ newline :: printText is)

/-! ### A printed instruction -/

/-- Where a text goes on is the same up to white space. -/
def SameWords (s s' : List Byte) : Prop := ascii.skipSpace s = ascii.skipSpace s'

/-- The same word comes up. -/
theorem SameWords.word_eq {s s' : List Byte} (h : SameWords s s') :
    ascii.word s = ascii.word s' := by
  rw [← Alphabet.word_skipSpace, h, Alphabet.word_skipSpace]

/-- The same instruction is written there. -/
theorem SameWords.writtenInst_eq {s s' : List Byte} (h : SameWords s s') (k : Fin 4) :
    writtenInst k s = writtenInst k s' := by
  rw [writtenInst, writtenInst, h.word_eq]

/-- The same operands are in reach. -/
theorem SameWords.buffered {s s' : List Byte} (h : SameWords s s') {i : WrittenInst}
    (hbuf : Buffered i s') : Buffered i s := by
  rw [Buffered, h.word_eq]
  exact hbuf

/-- A newline in front does not count. -/
theorem sameWords_newline (s : List Byte) : SameWords (newline :: s) s :=
  Alphabet.skipSpace_cons_of_space rfl s

/-- The operands of an instruction on its line, and the lines behind. -/
def operandText (xs : List (BitVec 32)) (s : List Byte) : List Byte :=
  ascii.decimals blank BitVec.toNat xs ++ newline :: s

section

variable (xs : List (BitVec 32)) (s : List Byte)

/-- Behind the word of an instruction there is white space. -/
theorem operandText_cons : ∃ b t, operandText xs s = b :: t ∧ ascii.isSpace b = true := by
  rcases xs with _ | ⟨x, xs⟩
  · exact ⟨newline, s, rfl, rfl⟩
  · exact ⟨blank, _, rfl, rfl⟩

/-- No numeral goes on over the end of a line. -/
theorem newline_not_digit : ∀ c ∈ (newline :: s).head?, ascii.digit c = none := by
  rintro c ⟨⟩
  rfl

variable {xs}

/-- What `fscanf` with `%u` for each operand finds. -/
theorem scanUnsigned_operandText {n : ℕ} (hn : xs.length = n) :
    scanUnsigned n (operandText xs s) = some (xs, ascii.skipSpace s) := by
  have hnum : ascii.numerals convU xs.length
      (ascii.decimals blank BitVec.toNat xs ++ newline :: s) = _ :=
    Alphabet.numerals_decimals (fun x _ => convU_toNat x) rfl (newline_not_digit s)
  subst hn
  rw [scanUnsigned, operandText, hnum, Option.map_some]
  simp only [if_true]
  rw [sameWords_newline s]

/-- The operands are on the line. -/
theorem line_operandText {n : ℕ} (hn : (ascii.decimals blank BitVec.toNat xs).length < n) :
    line newline n (operandText xs s) = ascii.decimals blank BitVec.toNat xs ++ [newline] := by
  refine line_append ?_ hn
  intro hmem
  rcases Alphabet.mem_decimals hmem with heq | hdigit
  · exact absurd heq (by decide)
  · exact absurd hdigit (by decide)

/-- Four operands have at most 44 characters. -/
theorem length_operands_lt (hlen : xs.length ≤ 4) :
    (ascii.decimals blank BitVec.toNat xs).length < 199 := by
  have hbound : (ascii.decimals blank BitVec.toNat xs).length ≤ xs.length * (10 + 1) := by
    refine Alphabet.length_decimals_le (by omega) fun x _ => ?_
    have hlt := x.isLt
    omega
  omega

/-- They fit into `buf`, where the string does not end before them. -/
theorem stored_line_operandText (hlen : xs.length ≤ 4) :
    stored (line newline 199 (operandText xs s)) =
      ascii.decimals blank BitVec.toNat xs ++ [newline] := by
  rw [line_operandText s (length_operands_lt hlen), stored, List.takeWhile_eq_self_iff]
  intro c hc
  have hne : c ≠ 0 := by
    rintro rfl
    rcases List.mem_append.mp hc with hmem | hmem
    · rcases Alphabet.mem_decimals hmem with heq | hdigit
      · exact absurd heq (by decide)
      · exact absurd hdigit (by decide)
    · exact absurd (List.mem_singleton.mp hmem) (by decide)
  exact decide_eq_true hne

/-- What `sscanf` with `%d` for each operand finds. -/
theorem numerals_line (hsmall : ∀ x ∈ xs, x.toNat < 2147483648) :
    ascii.numerals convD xs.length (ascii.decimals blank BitVec.toNat xs ++ [newline]) =
      some (xs, [newline]) :=
  Alphabet.numerals_decimals (fun x hx => convD_toNat (hsmall x hx)) rfl (newline_not_digit [])

end

/-- A printed instruction has its operands where the loader looks, and where they are written. -/
theorem ProgInst.operands_print (i : ProgInst) (s : List Byte) : ∃ behind,
    operandsAt i.opcode (operandText i.operands s) = some (i.operands, behind) ∧
      writtenOperands 3 i.opcode (operandText i.operands s) = some (i.operands, behind) ∧
        SameWords behind s := by
  have hskip : SameWords (ascii.skipSpace s) s := Alphabet.skipSpace_skipSpace s
  rcases i with ⟨⟨op, xs⟩, hcount, hsmall⟩
  cases op with
  | «calc» =>
      obtain rfl := List.length_eq_zero_iff.mp hcount
      exact ⟨newline :: s, rfl, rfl, sameWords_newline s⟩
  | syscall =>
      have hlen : xs.length = 4 := hcount
      have hbuf := stored_line_operandText s (by omega : xs.length ≤ 4)
      have hnum := numerals_line (hsmall rfl)
      rw [hlen] at hnum
      have hshort : (ascii.decimals blank BitVec.toNat xs).length < (operandText xs s).length := by
        rw [operandText, List.length_append, List.length_cons]
        omega
      have hdrop : (operandText xs s).drop (line newline 199 (operandText xs s)).length = s := by
        have hsplit : operandText xs s =
            ascii.decimals blank BitVec.toNat xs ++ [newline] ++ s := by
          rw [operandText, List.append_assoc, List.singleton_append]
        rw [line_operandText s (length_operands_lt hlen.le), hsplit, List.drop_left]
      refine ⟨s, ?_, ?_, rfl⟩
      · rw [operandsAt, hbuf, hnum, Option.map_some, hdrop]
      · have hfour : ((3 : Fin 4) : ℕ) + 1 = 4 := rfl
        rw [writtenOperands, line_operandText s hshort, hfour, hnum, Option.map_some, hdrop]
  | _ => exact ⟨ascii.skipSpace s, scanUnsigned_operandText s hcount,
      scanUnsigned_operandText s hcount, hskip⟩

/-- A printed instruction is written in the text, with its operands in reach. -/
theorem ProgInst.writtenInst_print (i : ProgInst) (s : List Byte) : ∃ behind,
    writtenInst 3 (i.print ++ s) = some (i.toWrittenInst, behind) ∧
      Buffered i.toWrittenInst (i.print ++ s) ∧ SameWords behind s := by
  obtain ⟨hne, hword, -, -⟩ := i.opcode.opt_word
  obtain ⟨b, t, htext, hb⟩ := operandText_cons i.operands s
  obtain ⟨behind, hargs, hwritten, hsame⟩ := i.operands_print s
  have hprint : i.print ++ s = i.opcode.opt ++ operandText i.operands s := by
    rw [ProgInst.print, operandText, List.append_assoc, List.append_assoc, List.singleton_append]
  have hat : WrittenAt 3 (i.print ++ s) i.toWrittenInst behind (operandText i.operands s) :=
    { word := by rw [hprint, htext, Alphabet.word_append hne hword hb]
      operands := hwritten
      length := i.count }
  exact ⟨behind, writtenInst_eq_some_iff.mpr ⟨_, hat⟩,
    hat.buffered_iff.mpr ⟨i.operands, behind, hargs, fun _ _ => rfl⟩, hsame⟩

/-! ### A printed program -/

/-- **The text of a list of instructions is plain**, and they are written in it. -/
theorem plain_printText (is : List ProgInst) {s : List Byte} (h : SameWords s (printText is)) :
    Plain 3 is.length s ∧ written 3 is.length s = some (is.map ProgInst.toWrittenInst) := by
  induction is generalizing s with
  | nil => exact ⟨trivial, rfl⟩
  | cons i is ih =>
      obtain ⟨behind, hinst, hbuf, hsame⟩ := i.writtenInst_print (printText is)
      have h' : SameWords s (i.print ++ printText is) := h
      rw [← h'.writtenInst_eq] at hinst
      obtain ⟨hplain, hwritten⟩ := ih hsame
      obtain ⟨rest, hat⟩ := writtenInst_eq_some_iff.mp hinst
      exact ⟨⟨i.toWrittenInst, behind, hinst, h'.buffered hbuf, hplain⟩,
        written_succ_eq_some_iff.mpr ⟨_, behind, rest, _, hat, hwritten, rfl⟩⟩

/-- The header of a printed program: the priority, and how many instructions there are. -/
theorem numerals_printProgram (priority : BitVec 32) (is : List ProgInst) :
    ascii.numerals convU 2 (printProgram priority is) =
      (convU is.length).map fun size => ([priority, size], newline :: printText is) := by
  have hpriority : ascii.numeral (printProgram priority is) =
      (some (priority.toNat : ℤ), blank :: (ascii.decimal is.length ++ newline :: printText is)) :=
    Alphabet.numeral_decimal priority.toNat (by rintro c ⟨⟩; rfl)
  have hsize : ascii.numeral (blank :: (ascii.decimal is.length ++ newline :: printText is)) =
      (some (is.length : ℤ), newline :: printText is) := by
    rw [← Alphabet.numeral_skipSpace, Alphabet.skipSpace_cons_of_space rfl,
      Alphabet.numeral_skipSpace]
    exact Alphabet.numeral_decimal is.length (newline_not_digit _)
  rw [Alphabet.numerals_succ 1 hpriority, convU_toNat, Option.bind_some,
    Alphabet.numerals_succ 0 hsize]
  rcases convU is.length with _ | size
  · rfl
  · rfl

/-- `load` returns a process with this priority and these instructions. -/
def LoadsBack (availPid : BitVec 32) (path : CStr) (priority : BitVec 32) (is : List ProgInst) :
    Prop :=
  ∃ pcb, load availPid path (some (printProgram priority is)) = .returned (pcb, availPid + 1) ∧
    pcb.priority = priority ∧ pcb.pc = 0 ∧ pcb.size.toNat = is.length ∧
      List.Forall₂ Carries pcb.text (is.map ProgInst.toWrittenInst)

/-- **Loading a printed program gives it back**, if its number of instructions fits into the 32 bits
of `code->size`. -/
theorem load_printProgram (availPid : BitVec 32) (path : CStr) (priority : BitVec 32)
    {is : List ProgInst} (hsize : is.length < 4294967296) :
    LoadsBack availPid path priority is := by
  have hlen : (BitVec.ofNat 32 is.length).toNat = is.length := by
    rw [BitVec.toNat_ofNat]
    omega
  have hheader : ascii.numerals convU 2 (printProgram priority is) =
      some ([priority, BitVec.ofNat 32 is.length], newline :: printText is) := by
    have hconv := convU_toNat (BitVec.ofNat 32 is.length)
    rw [hlen] at hconv
    rw [numerals_printProgram, hconv]
    rfl
  obtain ⟨hplain, hwritten⟩ := plain_printText is (sameWords_newline (printText is))
  have hstart : (⟨newline :: printText is, none, none⟩ : LoadState).file =
      newline :: printText is := rfl
  obtain ⟨text, is', htext, his, hcarries⟩ := loadLoop_of_plain (hstart ▸ hplain)
  obtain rfl := Option.some.inj (hwritten.symm.trans his)
  refine ⟨loadedPcb availPid path priority _ text, ?_, rfl, rfl, hlen, hcarries⟩
  rw [load_of_header hheader, hlen, htext]
  rfl

/-- With more instructions than that, the header is not defined. -/
theorem not_loadsBack_of_large (availPid : BitVec 32) (path : CStr) (priority : BitVec 32)
    {is : List ProgInst} (hsize : 4294967296 ≤ is.length) :
    ¬ LoadsBack availPid path priority is := by
  rintro ⟨pcb, hload, -⟩
  have hlarge : convU is.length = none := by
    rw [convU, if_neg (by omega)]
  have hundef : load availPid path (some (printProgram priority is)) = .undefined := by
    refine load_of_no_header fun p size rest heq => ?_
    rw [numerals_printProgram, hlarge] at heq
    cases heq
  rw [hundef] at hload
  cases hload

/-- The instruction `calc`. -/
def calcInst : ProgInst where
  opcode := .calc
  operands := []
  count := rfl
  small := by simp

/-- The instruction `syscall 101 1 0 0`. -/
def killInst : ProgInst where
  opcode := .syscall
  operands := [101, 1, 0, 0]
  count := rfl
  small := by simp

/-- These two instructions are loaded back. -/
theorem load_printProgram_two : LoadsBack 1 (cstr "input/proc/sc2") 20 [calcInst, killInst] :=
  load_printProgram 1 (cstr "input/proc/sc2") 20 (show 2 < 4294967296 by omega)

/-- The number of `2^32` instructions does not fit into `code->size`. -/
theorem load_printProgram_fails :
    ¬ LoadsBack 1 (cstr "input/proc/sc2") 20 (List.replicate 4294967296 calcInst) :=
  not_loadsBack_of_large 1 (cstr "input/proc/sc2") 20 List.length_replicate.ge

end OsSim
