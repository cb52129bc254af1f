import OsSim.Lib.Scan
import OsSim.Names
import OsSim.Simulation

/-!
# The Program Loader

`load` (`loader.c`) reads a program text with `fscanf`, `fgets` and `sscanf` and looks at none of
their results. A word that is not there leaves the buffer `opcode` as it was, a line that is not
there leaves `buf`, and a numeral that is not there leaves its field as `malloc` gave it. Using a
value that was never set, a word that is too long for its buffer and a numeral that is too large for
its field have no defined behaviour. `malloc` always succeeds here.

## Scanning

`Lib.Scan` has the functions of the C library over an alphabet: words, numerals and lines, and what
they leave of the text. Here the alphabet is that of bytes in the C locale, and the conversions
`%u` and `%d` say which numerals a field takes. A numeral outside it makes the call undefined, which
is what the C standard says of `fscanf`.

## The state of the loop

What is left over from one instruction to the next is the rest of the file and the two buffers
(`LoadState`), each `none` before something is stored in it. The outcome of a step is `Loaded`: it
returns, exits, which `get_opcode` does for a word that is no opcode, or is undefined. The arguments
of an instruction are `none` where `malloc` has left them.

## Main results

* `getOpcode_eq_some_iff`: which words are opcodes.
* `loadInst_of_word`: one instruction, where there is a word to read.
* `loadInst_of_end`: at the end of the file the opcode before is read again.
-/

namespace OsSim

open Scan

/-! ### Characters and numerals -/

/-- The value of a digit. -/
def digitOf (c : Byte) : Option ℕ := if 48 ≤ c ∧ c ≤ 57 then some (c.toNat - 48) else none

/-- A digit is no white space. -/
theorem isSpace_of_digit (c : Byte) (h : (digitOf c).isSome = true) : isSpace c = false := by
  rw [digitOf] at h
  split_ifs at h with hc
  · have hlow : 48 ≤ c.toNat := BitVec.le_def.mp hc.1
    rw [isSpace, decide_eq_false_iff_not]
    rintro (rfl | ⟨-, hhigh⟩)
    · exact absurd hlow (by decide)
    · have hle : c.toNat ≤ 13 := BitVec.le_def.mp hhigh
      omega
  · cases h

/-- The characters of a file. -/
def ascii : Alphabet Byte where
  isSpace := isSpace
  minus := 45
  plus := 43
  digit := digitOf
  ofDigit d := BitVec.ofNat 8 (48 + d)
  digit_ofDigit := by decide +kernel
  isSpace_digit := isSpace_of_digit
  digit_minus := rfl
  digit_plus := rfl

/-- The end of a line, which `fgets` stops at. -/
def newline : Byte := 10

/-- What `%u` stores for a numeral, as `strtoul` has it: a negative number is taken modulo
`2^32`. -/
def convU (v : ℤ) : Option (BitVec 32) :=
  if v.natAbs < 4294967296 then some (BitVec.ofInt 32 v) else none

/-- What `%d` stores for a numeral. -/
def convD (v : ℤ) : Option (BitVec 32) :=
  if -2147483648 ≤ v ∧ v < 2147483648 then some (BitVec.ofInt 32 v) else none

/-! ### Instructions -/

/-- `OPT_CALC` to `OPT_SYSCALL`. -/
def Opcode.opt : Opcode → CStr
  | .calc => cstr "calc"
  | .alloc => cstr "alloc"
  | .free => cstr "free"
  | .read => cstr "read"
  | .write => cstr "write"
  | .syscall => cstr "syscall"

/-- `get_opcode`; `none` where it calls `exit`. -/
def getOpcode (opt : CStr) : Option Opcode :=
  if opt = Opcode.calc.opt then some .calc
  else if opt = Opcode.alloc.opt then some .alloc
  else if opt = Opcode.free.opt then some .free
  else if opt = Opcode.read.opt then some .read
  else if opt = Opcode.write.opt then some .write
  else if opt = Opcode.syscall.opt then some .syscall
  else none

/-- `struct inst_t` as `malloc` and `load` leave it: an argument that was never set is `none`. -/
structure LoadedInst where
  opcode : Opcode
  arg0 : Option (BitVec 32)
  arg1 : Option (BitVec 32)
  arg2 : Option (BitVec 32)
  arg3 : Option (BitVec 32)
  deriving DecidableEq, Repr

/-- An instruction whose first arguments have been set. -/
def LoadedInst.ofArgs (opcode : Opcode) (xs : List (BitVec 32)) : LoadedInst :=
  ⟨opcode, xs[0]?, xs[1]?, xs[2]?, xs[3]?⟩

/-! ### Loading -/

/-- How loading goes: it returns, calls `exit`, or does something that is not defined. -/
inductive Loaded (β : Type) where
  | returned (b : β)
  | exited
  | undefined
  deriving DecidableEq, Repr

/-- One thing after the other: what exits or is undefined ends all of it. -/
def Loaded.bind {β γ : Type} (x : Loaded β) (f : β → Loaded γ) : Loaded γ :=
  match x with
  | .returned b => f b
  | .exited => .exited
  | .undefined => .undefined

/-- What `load` goes on with: the rest of the file, and the strings in `opcode` and `buf`, `none`
before they are set. -/
structure LoadState where
  file : List Byte
  opcode : Option CStr
  buf : Option CStr
  deriving DecidableEq, Repr

/-- The string that a buffer holds after these characters were stored in it. -/
def stored (cs : List Byte) : CStr := cs.takeWhile (· ≠ 0)

/-- `fscanf(file, "%s", opcode)`, for `char opcode[10]`. -/
def scanOpcode (st : LoadState) : Loaded LoadState :=
  match ascii.word st.file with
  | none => .returned { st with file := [] }
  | some (w, rest) =>
      if w.length < 10 then .returned { st with file := rest, opcode := some (stored w) }
      else .undefined

/-- `fscanf` with `n` times `%u` and a newline, which takes white space once all are read: the
numerals and the rest of the file. -/
def scanUnsigned (n : ℕ) (file : List Byte) : Option (List (BitVec 32) × List Byte) :=
  (ascii.numerals convU n file).map fun r =>
    (r.1, if r.1.length = n then ascii.skipSpace r.2 else r.2)

/-- `fgets(buf, sizeof(buf), file)`, for `char buf[200]`: at the end of the file `buf` stays. -/
def scanLine (st : LoadState) : LoadState :=
  if st.file = [] then st
  else
    { st with
      file := st.file.drop (line newline 199 st.file).length
      buf := some (stored (line newline 199 st.file)) }

/-- The numerals of an instruction, by one call of `fscanf`. -/
def scanArgs (opcode : Opcode) (n : ℕ) (st : LoadState) : Loaded (LoadedInst × LoadState) :=
  match scanUnsigned n st.file with
  | none => .undefined
  | some (xs, rest) => .returned (LoadedInst.ofArgs opcode xs, { st with file := rest })

/-- The `switch` over the opcode, which reads its operands. -/
def scanOperands (st : LoadState) : Opcode → Loaded (LoadedInst × LoadState)
  | .calc => .returned (LoadedInst.ofArgs .calc [], st)
  | .alloc => scanArgs .alloc 2 st
  | .free => scanArgs .free 1 st
  | .read => scanArgs .read 3 st
  | .write => scanArgs .write 3 st
  | .syscall =>
      match (scanLine st).buf with
      | none => .undefined
      | some buf =>
          match ascii.numerals convD 4 buf with
          | none => .undefined
          | some (xs, _) => .returned (LoadedInst.ofArgs .syscall xs, scanLine st)

/-- One instruction: its word, its opcode, and its operands. -/
def loadInst (st : LoadState) : Loaded (LoadedInst × LoadState) :=
  (scanOpcode st).bind fun st =>
    match st.opcode with
    | none => .undefined
    | some opcode =>
        match getOpcode opcode with
        | none => .exited
        | some opcode => scanOperands st opcode

/-- The loop of `load`, with `n` instructions to go. -/
def loadLoop : ℕ → LoadState → Loaded (List LoadedInst)
  | 0, _ => .returned []
  | n + 1, st =>
      (loadInst st).bind fun r =>
        (loadLoop n r.2).bind fun text => .returned (r.1 :: text)

/-- The fields of `struct pcb_t` that `load` sets; `size` and `text` are those of its `code`. -/
structure LoadedPcb where
  pid : BitVec 32
  priority : BitVec 32
  path : CStr
  size : BitVec 32
  text : List LoadedInst
  pc : BitVec 32
  bp : BitVec 32
  deriving DecidableEq, Repr

/-- `load`, with the value of the static variable `avail_pid`: the process and the value after it.
The file is `none` when it cannot be opened. -/
def load (availPid : BitVec 32) (path : CStr) (file : Option (List Byte)) :
    Loaded (LoadedPcb × BitVec 32) :=
  match file with
  | none => .exited
  | some content =>
      match ascii.numerals convU 2 content with
      | some ([priority, size], rest) =>
          (loadLoop size.toNat ⟨rest, none, none⟩).bind fun text =>
            .returned
              ({ pid := availPid
                 priority := priority
                 path := loadPath path
                 size := size
                 text := text
                 pc := 0
                 bp := 1024 }, availPid + 1)
      | _ => .undefined

/-! ### Opcodes and numerals -/

/-- **Which words are opcodes**: those in `OPT_CALC` to `OPT_SYSCALL`. -/
theorem getOpcode_eq_some_iff {opt : CStr} {op : Opcode} :
    getOpcode opt = some op ↔ opt = op.opt := by
  constructor
  · intro h
    rw [getOpcode] at h
    split_ifs at h with h₁ h₂ h₃ h₄ h₅ h₆ <;> cases h <;> assumption
  · rintro rfl
    cases op <;> rfl

/-- An opcode is a word, without a zero byte in it, that fits into its buffer. -/
theorem Opcode.opt_word (op : Opcode) : op.opt ≠ [] ∧ (∀ c ∈ op.opt, isSpace c = false) ∧
    stored op.opt = op.opt ∧ op.opt.length < 10 := by
  cases op <;> decide +kernel

/-- A word has every unsigned value. -/
theorem convU_toNat (x : BitVec 32) : convU x.toNat = some x := by
  have hlt := x.isLt
  rw [convU, if_pos (by omega), BitVec.ofInt_natCast, BitVec.ofNat_toNat, BitVec.setWidth_eq]

/-- A word that is not negative as an `int` has its value for `%d`. -/
theorem convD_toNat {x : BitVec 32} (hx : x.toNat < 2147483648) : convD x.toNat = some x := by
  rw [convD, if_pos (by omega), BitVec.ofInt_natCast, BitVec.ofNat_toNat, BitVec.setWidth_eq]

/-! ### What one instruction takes from the file -/

/-- The numerals that the `switch` finds for an opcode in a text that is not at its end, and the
text behind them. -/
def operandsAt : Opcode → List Byte → Option (List (BitVec 32) × List Byte)
  | .calc, s => some ([], s)
  | .alloc, s => scanUnsigned 2 s
  | .free, s => scanUnsigned 1 s
  | .read, s => scanUnsigned 3 s
  | .write, s => scanUnsigned 3 s
  | .syscall, s =>
      (ascii.numerals convD 4 (stored (line newline 199 s))).map fun r =>
        (r.1, s.drop (line newline 199 s).length)

section Operands

variable {st st' : LoadState} {op : Opcode}

/-- The numerals are there. -/
theorem scanArgs_of_some {n : ℕ} {xs : List (BitVec 32)} {rest : List Byte}
    (h : scanUnsigned n st.file = some (xs, rest)) :
    scanArgs op n st = .returned (LoadedInst.ofArgs op xs, ⟨rest, st.opcode, st.buf⟩) := by
  rw [scanArgs, h]

/-- One of them is too large for its field. -/
theorem scanArgs_of_none {n : ℕ} (h : scanUnsigned n st.file = none) :
    scanArgs op n st = .undefined := by
  rw [scanArgs, h]

/-- What the `switch` does, where `fgets` has something to get. -/
theorem scanOperands_of_some {xs : List (BitVec 32)} {rest : List Byte}
    (h : operandsAt op st.file = some (xs, rest)) (hline : op = .syscall → st.file ≠ []) :
    ∃ buf, scanOperands st op = .returned (LoadedInst.ofArgs op xs, ⟨rest, st.opcode, buf⟩) := by
  cases op with
  | «calc» =>
      obtain ⟨rfl, rfl⟩ := Prod.mk.inj (Option.some.inj h)
      exact ⟨st.buf, rfl⟩
  | alloc => exact ⟨st.buf, scanArgs_of_some h⟩
  | free => exact ⟨st.buf, scanArgs_of_some h⟩
  | read => exact ⟨st.buf, scanArgs_of_some h⟩
  | write => exact ⟨st.buf, scanArgs_of_some h⟩
  | syscall =>
      obtain ⟨⟨ys, more⟩, hnum, heq⟩ := Option.map_eq_some_iff.mp h
      obtain ⟨rfl, rfl⟩ := Prod.mk.inj heq
      refine ⟨some (stored (line newline 199 st.file)), ?_⟩
      simp only [scanOperands, scanLine, if_neg (hline rfl), hnum]

/-- What the `switch` does when a numeral is too large for its field. -/
theorem scanOperands_of_none (h : operandsAt op st.file = none)
    (hline : op = .syscall → st.file ≠ []) : scanOperands st op = .undefined := by
  cases op with
  | «calc» => cases h
  | alloc => exact scanArgs_of_none h
  | free => exact scanArgs_of_none h
  | read => exact scanArgs_of_none h
  | write => exact scanArgs_of_none h
  | syscall =>
      simp only [scanOperands, scanLine, if_neg (hline rfl), Option.map_eq_none_iff.mp h]

/-- At the end of the file there is nothing to take, and only `buf` to read again. -/
theorem scanOperands_of_nil (op : Opcode) (hfile : st.file = []) :
    scanOperands st op = .undefined ∨ ∃ inst, scanOperands st op = .returned (inst, st) := by
  have hargs (n : ℕ) : ∃ inst, scanArgs op n st = .returned (inst, st) := by
    have hnone : scanUnsigned n st.file = some ([], st.file) := by
      rw [hfile]
      rcases n with _ | n
      · rfl
      · rfl
    exact ⟨_, scanArgs_of_some hnone⟩
  cases op with
  | «calc» => exact Or.inr ⟨_, rfl⟩
  | alloc => exact Or.inr (hargs 2)
  | free => exact Or.inr (hargs 1)
  | read => exact Or.inr (hargs 3)
  | write => exact Or.inr (hargs 3)
  | syscall =>
      simp only [scanOperands, scanLine, if_pos hfile]
      rcases st.buf with _ | buf
      · exact Or.inl rfl
      · rcases hnum : ascii.numerals convD 4 buf with _ | ⟨xs, more⟩
        · left
          simp only [hnum]
        · right
          simp only [hnum]
          exact ⟨_, rfl⟩

end Operands

/-! ### One instruction -/

section Inst

variable {st : LoadState}

/-- An instruction whose word is there. -/
theorem loadInst_of_word {w rest : List Byte} (hword : ascii.word st.file = some (w, rest))
    (hlen : w.length < 10) {op : Opcode} (hop : getOpcode (stored w) = some op) :
    loadInst st = scanOperands ⟨rest, some (stored w), st.buf⟩ op := by
  rw [loadInst, scanOpcode, hword]
  simp only [if_pos hlen, Loaded.bind, hop]

/-- A word that is no opcode. -/
theorem loadInst_of_unknown {w rest : List Byte} (hword : ascii.word st.file = some (w, rest))
    (hlen : w.length < 10) (hop : getOpcode (stored w) = none) : loadInst st = .exited := by
  rw [loadInst, scanOpcode, hword]
  simp only [if_pos hlen, Loaded.bind, hop]

/-- A word that does not fit into its buffer. -/
theorem loadInst_of_long {w rest : List Byte} (hword : ascii.word st.file = some (w, rest))
    (hlen : ¬ w.length < 10) : loadInst st = .undefined := by
  rw [loadInst, scanOpcode, hword]
  simp only [if_neg hlen, Loaded.bind]

/-- **At the end of the file** the opcode before is read again, if there was one. -/
theorem loadInst_of_end (hword : ascii.word st.file = none)
    (hknown : ∀ o ∈ st.opcode, ∃ op, getOpcode o = some op) :
    loadInst st = .undefined ∨
      ∃ inst, loadInst st = .returned (inst, { st with file := [] }) := by
  rw [loadInst, scanOpcode, hword]
  simp only [Loaded.bind]
  rcases hst : st.opcode with _ | o
  · exact Or.inl rfl
  · obtain ⟨op, hop⟩ := hknown o hst
    simp only [hop]
    exact scanOperands_of_nil op rfl

end Inst

end OsSim
