import OsSim.Loader

/-!
# What a Program Text Says

The instructions that are written in a program text, and when `load` makes just those. A text that
says too little is not rejected: the loader takes the opcode, or the line, that it had before, and
leaves the operands it misses unset. It exits for a word that is no opcode, and for nothing else in
the file.

## What is written

An instruction is written where an opcode stands with the operands it requires behind it. Which
operands a system call requires is a matter of taste, as the loader reads up to four numbers from
its line and most calls use fewer; so the number of arguments is a parameter. `written` reads the
instructions one after the other, and is `none` where one is missing. It is a specification: it
never looks at what was read before.

## How the argument goes

The loader agrees with it on plain texts, in which every announced instruction is written and its
operands are in reach (`loadLoop_of_plain`, and `plain_of_returned` for the other direction). Both
go by induction over the instructions, with the file of the state as what is left of the text.

That leaves the other outcomes. The loop exits exactly when a word comes up that is no opcode, after
opcodes with operands that fit (`loadLoop_exited_iff`). Otherwise it is undefined, or returns
something that is not written: at the end of the file it reads the last opcode again.

## Main results

* `loadLoop_of_plain`: a plain text is loaded as it is written.
* `loadLoop_exited_iff`: **the loop exits exactly when a word that is no opcode comes up**.
* `neverInvents_iff`: **for which files the loader invents nothing**.
* `neverInvents_fails`: a text that announces two instructions and has one.
-/

namespace OsSim

open Scan

/-! ### Written instructions -/

/-- An instruction with the operands it requires. -/
structure WrittenInst where
  opcode : Opcode
  operands : List (BitVec 32)
  deriving DecidableEq, Repr

/-- The operands that an opcode requires. A system call requires its number, and as many of its
three arguments as `k` says. -/
def operandCount (k : Fin 4) : Opcode → ℕ
  | .calc => 0
  | .alloc => 2
  | .free => 1
  | .read => 3
  | .write => 3
  | .syscall => k + 1

/-- The numerals written behind an opcode, and the text behind them. The operands of a system call
are on its line; behind them is what `fgets` leaves of the line, and the other lines. -/
def writtenOperands (k : Fin 4) : Opcode → List Byte → Option (List (BitVec 32) × List Byte)
  | .syscall, s =>
      (ascii.numerals convD (k + 1) (line newline s.length s)).map fun r =>
        (r.1, s.drop (line newline 199 s).length)
  | op, s => operandsAt op s

/-- The first instruction written in a text, and the text behind it. -/
def writtenInst (k : Fin 4) (s : List Byte) : Option (WrittenInst × List Byte) := do
  let w ← ascii.word s
  let op ← getOpcode w.1
  let r ← writtenOperands k op w.2
  if r.1.length = operandCount k op then some (⟨op, r.1⟩, r.2) else none

/-- The first `n` instructions written in a text. -/
def written (k : Fin 4) : ℕ → List Byte → Option (List WrittenInst)
  | 0, _ => some []
  | n + 1, s => do
      let r ← writtenInst k s
      let is ← written k n r.2
      return r.1 :: is

/-- Argument `j` of an instruction. -/
def LoadedInst.arg (inst : LoadedInst) : ℕ → Option (BitVec 32)
  | 0 => inst.arg0
  | 1 => inst.arg1
  | 2 => inst.arg2
  | 3 => inst.arg3
  | _ => none

/-- An instruction carries the opcode and the operands of a written one. -/
structure Carries (inst : LoadedInst) (i : WrittenInst) : Prop where
  opcode : inst.opcode = i.opcode
  operands : ∀ j < i.operands.length, inst.arg j = i.operands[j]?

/-- `load` exits, or the file says what it returns. -/
def NeverInvents (k : Fin 4) (availPid : BitVec 32) (path : CStr) (file : Option (List Byte)) :
    Prop :=
  load availPid path file = .exited ∨
    ∃ pcb availPid' content rest is, load availPid path file = .returned (pcb, availPid') ∧
      file = some content ∧
      ascii.numerals convU 2 content = some ([pcb.priority, pcb.size], rest) ∧
      written k pcb.size.toNat rest = some is ∧ List.Forall₂ Carries pcb.text is

/-! ### Plain texts and unknown words -/

/-- The operands of the first instruction are what the loader finds of them: for a system call, also
in what `buf` holds of its line. -/
def Buffered (i : WrittenInst) (s : List Byte) : Prop :=
  ∃ w rest xs behind, ascii.word s = some (w, rest) ∧
    operandsAt i.opcode rest = some (xs, behind) ∧ ∀ j < i.operands.length, xs[j]? = i.operands[j]?

/-- A text that begins with `n` instructions, the operands of each in reach. -/
def Plain (k : Fin 4) : ℕ → List Byte → Prop
  | 0, _ => True
  | n + 1, s => ∃ i rest, writtenInst k s = some (i, rest) ∧ Buffered i s ∧ Plain k n rest

/-- In one of the first `n` places for an opcode there is a word that is none and fits into its
buffer; before it there are opcodes, and numerals that fit into their fields. -/
inductive Unknown : ℕ → List Byte → Prop
  | here {n : ℕ} {s w rest : List Byte} (hword : ascii.word s = some (w, rest))
      (hlen : w.length < 10) (hop : getOpcode (stored w) = none) : Unknown (n + 1) s
  | later {n : ℕ} {s w rest behind : List Byte} {op : Opcode} {xs : List (BitVec 32)}
      (hword : ascii.word s = some (w, rest)) (hlen : w.length < 10)
      (hop : getOpcode (stored w) = some op) (hargs : operandsAt op rest = some (xs, behind))
      (hmore : Unknown n behind) : Unknown (n + 1) s

/-- Nothing comes up in an empty text. -/
theorem not_unknown_nil {n : ℕ} : ¬ Unknown n [] := by
  intro h
  cases h with
  | here hword => cases hword
  | later hword => cases hword

/-- A text with something coming up behind a system call has something on its line. -/
theorem Unknown.ne_nil {n : ℕ} {rest behind : List Byte} {op : Opcode} {xs : List (BitVec 32)}
    (h : Unknown n behind) (hargs : operandsAt op rest = some (xs, behind)) (hop : op = .syscall) :
    rest ≠ [] := by
  rintro rfl
  subst hop
  rw [operandsAt] at hargs
  obtain ⟨r, -, heq⟩ := Option.map_eq_some_iff.mp hargs
  obtain ⟨-, rfl⟩ := Prod.mk.inj heq
  exact not_unknown_nil h

/-! ### The loop exits -/

/-- The string in `opcode`, if there is one, is an opcode. -/
def LoadState.Known (st : LoadState) : Prop := ∀ o ∈ st.opcode, ∃ op, getOpcode o = some op

/-- A text with one more instruction before it. -/
def consText (inst : LoadedInst) (x : Loaded (List LoadedInst)) : Loaded (List LoadedInst) :=
  x.bind fun text => .returned (inst :: text)

/-- A text with one more instruction exits where the others do. -/
theorem consText_exited_iff {inst : LoadedInst} {x : Loaded (List LoadedInst)} :
    consText inst x = .exited ↔ x = .exited := by
  cases x <;> simp [consText, Loaded.bind]

/-- It returns where the others do, with the instruction before them. -/
theorem consText_returned_iff {inst : LoadedInst} {x : Loaded (List LoadedInst)}
    {text : List LoadedInst} :
    consText inst x = .returned text ↔ ∃ more, x = .returned more ∧ inst :: more = text := by
  cases x <;> simp [consText, Loaded.bind]

/-- The loop after an instruction that is loaded. -/
theorem loadLoop_succ {n : ℕ} {st st' : LoadState} {inst : LoadedInst}
    (h : loadInst st = .returned (inst, st')) :
    loadLoop (n + 1) st = consText inst (loadLoop n st') := by
  rw [loadLoop, h]
  rfl

/-- With a word that is no opcode coming up, the loop exits. -/
theorem Unknown.loadLoop {n : ℕ} {st : LoadState} (h : Unknown n st.file) :
    loadLoop n st = .exited := by
  generalize hs : st.file = s at h
  induction h generalizing st with
  | here hword hlen hop =>
      subst hs
      rw [OsSim.loadLoop, loadInst_of_unknown hword hlen hop]
      rfl
  | @later n s w rest behind op xs hword hlen hop hargs hmore ih =>
      subst hs
      obtain ⟨buf, hscan⟩ : ∃ buf, scanOperands ⟨rest, some (stored w), st.buf⟩ op = _ :=
        scanOperands_of_some hargs (hmore.ne_nil hargs)
      rw [loadLoop_succ ((loadInst_of_word hword hlen hop).trans hscan), consText_exited_iff]
      exact ih rfl

/-- **The loop exits exactly when a word that is no opcode comes up.** -/
theorem loadLoop_exited_iff {n : ℕ} {st : LoadState} (hknown : st.Known) :
    loadLoop n st = .exited ↔ Unknown n st.file := by
  refine ⟨fun h => ?_, Unknown.loadLoop⟩
  induction n generalizing st with
  | zero => cases h
  | succ n ih =>
      rcases hword : ascii.word st.file with _ | ⟨w, rest⟩
      · rcases loadInst_of_end hword hknown with hinst | ⟨inst, hinst⟩
        · rw [loadLoop, hinst] at h
          cases h
        · rw [loadLoop_succ hinst, consText_exited_iff] at h
          have hend : LoadState.Known { st with file := [] } := hknown
          exact absurd (ih hend h) not_unknown_nil
      · by_cases hlen : w.length < 10
        · rcases hop : getOpcode (stored w) with _ | op
          · exact .here hword hlen hop
          · have hinst := loadInst_of_word hword hlen hop
            have hset : LoadState.Known ⟨rest, some (stored w), st.buf⟩ := by
              rintro o ⟨⟩
              exact ⟨op, hop⟩
            by_cases hline : op = .syscall → rest ≠ []
            · rcases hargs : operandsAt op rest with _ | ⟨xs, behind⟩
              · rw [loadLoop, hinst, scanOperands_of_none hargs hline] at h
                cases h
              · obtain ⟨buf, hscan⟩ :
                    ∃ buf, scanOperands ⟨rest, some (stored w), st.buf⟩ op = _ :=
                  scanOperands_of_some hargs hline
                rw [loadLoop_succ (hinst.trans hscan), consText_exited_iff] at h
                have hset' : LoadState.Known ⟨behind, some (stored w), buf⟩ := hset
                exact .later hword hlen hop hargs (ih hset' h)
            · -- behind the word there is nothing, not even the rest of a line
              have hnil : rest = [] := by
                by_contra hne
                exact hline fun _ => hne
              subst hnil
              have hfile : (⟨[], some (stored w), st.buf⟩ : LoadState).file = [] := rfl
              rcases scanOperands_of_nil op hfile with hscan | ⟨inst, hscan⟩
              · rw [loadLoop, hinst, hscan] at h
                cases h
              · rw [loadLoop_succ (hinst.trans hscan), consText_exited_iff] at h
                exact absurd (ih hset h) not_unknown_nil
        · rw [loadLoop, loadInst_of_long hword hlen] at h
          cases h

/-! ### The loop returns -/

/-- Argument `j` of an instruction whose first arguments were set. -/
theorem arg_ofArgs (op : Opcode) (xs : List (BitVec 32)) {j : ℕ} (hj : j < 4) :
    (LoadedInst.ofArgs op xs).arg j = xs[j]? := by
  interval_cases j <;> rfl

/-- No instruction requires more than four operands. -/
theorem operandCount_le (k : Fin 4) (op : Opcode) : operandCount k op ≤ 4 := by
  cases op <;> simp [operandCount]

/-- What it means that an instruction is written. -/
structure WrittenAt (k : Fin 4) (s : List Byte) (i : WrittenInst) (behind rest : List Byte) :
    Prop where
  word : ascii.word s = some (i.opcode.opt, rest)
  operands : writtenOperands k i.opcode rest = some (i.operands, behind)
  length : i.operands.length = operandCount k i.opcode

variable {k : Fin 4} {s behind rest : List Byte} {i : WrittenInst}

/-- An instruction is written at the start of a text in one way only. -/
theorem writtenInst_eq_some_iff :
    writtenInst k s = some (i, behind) ↔ ∃ rest, WrittenAt k s i behind rest := by
  constructor
  · intro h
    obtain ⟨⟨w, rest⟩, hword, h⟩ := Option.bind_eq_some_iff.mp h
    obtain ⟨op, hop, h⟩ := Option.bind_eq_some_iff.mp h
    obtain ⟨⟨ys, behind'⟩, hargs, h⟩ := Option.bind_eq_some_iff.mp h
    split_ifs at h with hlen
    cases h
    obtain rfl := getOpcode_eq_some_iff.mp hop
    exact ⟨rest, hword, hargs, hlen⟩
  · rintro ⟨rest, h⟩
    rw [writtenInst, h.word]
    simp only [Option.bind_eq_bind, Option.bind_some, getOpcode_eq_some_iff.mpr rfl, h.operands,
      if_pos h.length]

namespace WrittenAt

/-- There is a line behind the word of a system call. -/
theorem ne_nil (h : WrittenAt k s i behind rest) (hop : i.opcode = .syscall) : rest ≠ [] := by
  rintro rfl
  have hlen := h.length
  have hargs := h.operands
  rw [hop, writtenOperands] at hargs
  obtain ⟨r, hnum, heq⟩ := Option.map_eq_some_iff.mp hargs
  obtain ⟨hr, -⟩ := Prod.mk.inj heq
  rw [hop, ← hr] at hlen
  cases hnum
  cases hlen

/-- The loader goes on behind what is written. -/
theorem behind_eq (h : WrittenAt k s i behind rest) {xs : List (BitVec 32)} {behind' : List Byte}
    (hargs : operandsAt i.opcode rest = some (xs, behind')) : behind' = behind := by
  have hwritten := h.operands
  rcases i with ⟨op, ys⟩
  cases op with
  | syscall =>
      rw [writtenOperands] at hwritten
      rw [operandsAt] at hargs
      obtain ⟨r, -, hr⟩ := Option.map_eq_some_iff.mp hwritten
      obtain ⟨r', -, hr'⟩ := Option.map_eq_some_iff.mp hargs
      exact (Prod.mk.inj hr').2.symm.trans (Prod.mk.inj hr).2
  | _ => exact (Prod.mk.inj (Option.some.inj (hargs.symm.trans hwritten))).2

/-- What `load` makes of a written instruction whose numerals it can store. -/
theorem loadInst (h : WrittenAt k s i behind rest) {st : LoadState} (hfile : st.file = s)
    {xs : List (BitVec 32)} {behind' : List Byte}
    (hargs : operandsAt i.opcode rest = some (xs, behind')) :
    ∃ buf, loadInst st =
      .returned (LoadedInst.ofArgs i.opcode xs, ⟨behind, some i.opcode.opt, buf⟩) := by
  obtain ⟨-, -, hstored, hlen⟩ := i.opcode.opt_word
  obtain rfl := h.behind_eq hargs
  have hop : getOpcode (stored i.opcode.opt) = some i.opcode := by
    rw [hstored, getOpcode_eq_some_iff]
  have hinst := loadInst_of_word (by rw [hfile]; exact h.word) hlen hop
  obtain ⟨buf, hscan⟩ :
      ∃ buf, scanOperands ⟨rest, some (stored i.opcode.opt), st.buf⟩ i.opcode = _ :=
    scanOperands_of_some hargs h.ne_nil
  exact ⟨buf, by rw [hinst, hscan, hstored]⟩

/-- Numerals that it cannot store. -/
theorem loadInst_undefined (h : WrittenAt k s i behind rest) {st : LoadState}
    (hfile : st.file = s) (hargs : operandsAt i.opcode rest = none) :
    OsSim.loadInst st = .undefined := by
  obtain ⟨-, -, hstored, hlen⟩ := i.opcode.opt_word
  have hop : getOpcode (stored i.opcode.opt) = some i.opcode := by
    rw [hstored, getOpcode_eq_some_iff]
  rw [loadInst_of_word (by rw [hfile]; exact h.word) hlen hop]
  exact scanOperands_of_none hargs h.ne_nil

/-- The loaded instruction carries the written one exactly when its operands are in reach. -/
theorem carries_iff (h : WrittenAt k s i behind rest) {xs : List (BitVec 32)} :
    Carries (LoadedInst.ofArgs i.opcode xs) i ↔
      ∀ j < i.operands.length, xs[j]? = i.operands[j]? := by
  have hfour : i.operands.length ≤ 4 := by
    rw [h.length]
    exact operandCount_le k i.opcode
  constructor
  · intro hcarries j hj
    rw [← hcarries.operands j hj, arg_ofArgs _ _ (by omega)]
  · intro hreach
    refine ⟨rfl, fun j hj => ?_⟩
    rw [arg_ofArgs _ _ (by omega), hreach j hj]

/-- The operands are in reach exactly when the loader finds them there. -/
theorem buffered_iff (h : WrittenAt k s i behind rest) :
    Buffered i s ↔ ∃ xs behind', operandsAt i.opcode rest = some (xs, behind') ∧
      ∀ j < i.operands.length, xs[j]? = i.operands[j]? := by
  constructor
  · rintro ⟨w, rest', xs, behind', hword, hargs⟩
    obtain ⟨-, rfl⟩ := Prod.mk.inj (Option.some.inj (hword.symm.trans h.word))
    exact ⟨xs, behind', hargs⟩
  · rintro ⟨xs, behind', hargs⟩
    exact ⟨_, rest, xs, behind', h.word, hargs⟩

end WrittenAt

/-- A written text is written instruction by instruction. -/
theorem written_succ_eq_some_iff {n : ℕ} {is : List WrittenInst} :
    written k (n + 1) s = some is ↔ ∃ i behind rest more, WrittenAt k s i behind rest ∧
      written k n behind = some more ∧ i :: more = is := by
  rw [written]
  constructor
  · intro h
    obtain ⟨⟨i, behind⟩, hinst, h⟩ := Option.bind_eq_some_iff.mp h
    obtain ⟨more, hmore, h⟩ := Option.bind_eq_some_iff.mp h
    obtain ⟨rest, hat⟩ := writtenInst_eq_some_iff.mp hinst
    exact ⟨i, behind, rest, more, hat, hmore, Option.some.inj h⟩
  · rintro ⟨i, behind, rest, more, hat, hmore, rfl⟩
    rw [writtenInst_eq_some_iff.mpr ⟨rest, hat⟩]
    simp only [Option.bind_eq_bind, Option.bind_some, hmore]
    rfl

/-- **A plain text is loaded as it is written.** -/
theorem loadLoop_of_plain {n : ℕ} {st : LoadState} (h : Plain k n st.file) :
    ∃ text is, loadLoop n st = .returned text ∧ written k n st.file = some is ∧
      List.Forall₂ Carries text is := by
  induction n generalizing st with
  | zero => exact ⟨[], [], rfl, rfl, .nil⟩
  | succ n ih =>
      obtain ⟨i, behind, hinst, hbuf, hmore⟩ := h
      obtain ⟨rest, hat⟩ := writtenInst_eq_some_iff.mp hinst
      obtain ⟨xs, behind', hargs, hreach⟩ := hat.buffered_iff.mp hbuf
      obtain ⟨buf, hload⟩ := hat.loadInst rfl hargs
      have hfile : (⟨behind, some i.opcode.opt, buf⟩ : LoadState).file = behind := rfl
      obtain ⟨text, is, htext, his, hcarries⟩ := ih (hfile ▸ hmore)
      refine ⟨_, _, ?_, written_succ_eq_some_iff.mpr ⟨i, behind, rest, is, hat, his, rfl⟩,
        .cons (hat.carries_iff.mpr hreach) hcarries⟩
      rw [loadLoop_succ hload, htext]
      rfl

/-- A text that is loaded as it is written is plain. -/
theorem plain_of_returned {n : ℕ} {st : LoadState} {text : List LoadedInst}
    {is : List WrittenInst} (hload : loadLoop n st = .returned text)
    (hwritten : written k n st.file = some is) (hcarries : List.Forall₂ Carries text is) :
    Plain k n st.file := by
  induction n generalizing st text is with
  | zero => exact trivial
  | succ n ih =>
      obtain ⟨i, behind, rest, more, hat, hmore, rfl⟩ := written_succ_eq_some_iff.mp hwritten
      rcases hargs : operandsAt i.opcode rest with _ | ⟨xs, behind'⟩
      · rw [loadLoop, hat.loadInst_undefined rfl hargs] at hload
        cases hload
      · obtain ⟨buf, hinst⟩ := hat.loadInst rfl hargs
        rw [loadLoop_succ hinst, consText_returned_iff] at hload
        obtain ⟨text', htext, rfl⟩ := hload
        rw [List.forall₂_cons] at hcarries
        have hreach := hat.carries_iff.mp hcarries.1
        exact ⟨i, behind, writtenInst_eq_some_iff.mpr ⟨rest, hat⟩,
          hat.buffered_iff.mpr ⟨xs, behind', hargs, hreach⟩, ih htext hmore hcarries.2⟩

/-! ### Files -/

section Load

variable {availPid : BitVec 32} {path : CStr} {content : List Byte}

/-- The process `load` makes of a program text. -/
def loadedPcb (availPid : BitVec 32) (path : CStr) (priority size : BitVec 32)
    (text : List LoadedInst) : LoadedPcb :=
  { pid := availPid
    priority := priority
    path := loadPath path
    size := size
    text := text
    pc := 0
    bp := 1024 }

/-- Loading a file with a header. -/
theorem load_of_header {priority size : BitVec 32} {rest : List Byte}
    (h : ascii.numerals convU 2 content = some ([priority, size], rest)) :
    load availPid path (some content) = (loadLoop size.toNat ⟨rest, none, none⟩).bind fun text =>
      .returned (loadedPcb availPid path priority size text, availPid + 1) := by
  rw [load, h]
  rfl

/-- Loading a file without one. -/
theorem load_of_no_header
    (h : ∀ priority size rest, ascii.numerals convU 2 content ≠ some ([priority, size], rest)) :
    load availPid path (some content) = .undefined := by
  rw [load]
  split
  · rename_i priority size rest heq
    exact absurd heq (h priority size rest)
  · rfl

/-- Loading a file with a header returns where the loop does, the process with the text of the
loop. -/
theorem load_returned_iff {priority size : BitVec 32} {rest : List Byte} {pcb : LoadedPcb}
    {availPid' : BitVec 32}
    (h : ascii.numerals convU 2 content = some ([priority, size], rest)) :
    load availPid path (some content) = .returned (pcb, availPid') ↔
      ∃ text, loadLoop size.toNat ⟨rest, none, none⟩ = .returned text ∧
        loadedPcb availPid path priority size text = pcb ∧ availPid + 1 = availPid' := by
  rw [load_of_header h]
  cases loadLoop size.toNat ⟨rest, none, none⟩ <;> simp [Loaded.bind]

/-- It exits where a word comes up that is no opcode. -/
theorem load_exited_iff {priority size : BitVec 32} {rest : List Byte}
    (h : ascii.numerals convU 2 content = some ([priority, size], rest)) :
    load availPid path (some content) = .exited ↔ Unknown size.toNat rest := by
  have hnew : LoadState.Known ⟨rest, none, none⟩ := by
    rintro o ⟨⟩
  rw [load_of_header h]
  refine Iff.trans ?_ (loadLoop_exited_iff hnew)
  cases loadLoop size.toNat ⟨rest, none, none⟩ <;> simp [Loaded.bind]

end Load

/-- **For which files the loader invents nothing**: a file that is not there; or one with a header,
behind which a word comes up that is no opcode, or the announced instructions come with their
operands in reach. -/
theorem neverInvents_iff (k : Fin 4) (availPid : BitVec 32) (path : CStr)
    (file : Option (List Byte)) : NeverInvents k availPid path file ↔
      file = none ∨ ∃ content priority size rest, file = some content ∧
        ascii.numerals convU 2 content = some ([priority, size], rest) ∧
          (Unknown size.toNat rest ∨ Plain k size.toNat rest) := by
  constructor
  · intro h
    rcases file with _ | content
    · exact Or.inl rfl
    · right
      by_cases hheader : ∃ priority size rest,
          ascii.numerals convU 2 content = some ([priority, size], rest)
      · obtain ⟨priority, size, rest, hheader⟩ := hheader
        refine ⟨content, priority, size, rest, rfl, hheader, ?_⟩
        rcases h with hexit | ⟨pcb, avail, content', rest', is, hload, ⟨⟩, hheader', his, hcarries⟩
        · left
          exact (load_exited_iff hheader).mp hexit
        · right
          rw [hheader, Option.some.injEq, Prod.mk.injEq] at hheader'
          obtain ⟨-, rfl⟩ := hheader'
          obtain ⟨text, hloop, rfl, -⟩ := (load_returned_iff hheader).mp hload
          exact plain_of_returned hloop his hcarries
      · push Not at hheader
        have hundef : load availPid path (some content) = .undefined :=
          load_of_no_header hheader
        rcases h with hexit | ⟨pcb, avail, content', rest', is, hload, ⟨⟩, -⟩
        · rw [hundef] at hexit
          cases hexit
        · rw [hundef] at hload
          cases hload
  · rintro (rfl | ⟨content, priority, size, rest, rfl, hheader, hunknown | hplain⟩)
    · exact Or.inl rfl
    · left
      exact (load_exited_iff hheader).mpr hunknown
    · right
      have hstart : (⟨rest, none, none⟩ : LoadState).file = rest := rfl
      obtain ⟨text, is, htext, his, hcarries⟩ := loadLoop_of_plain (hstart ▸ hplain)
      exact ⟨loadedPcb availPid path priority size text, availPid + 1, content, rest, is,
        (load_returned_iff hheader).mpr ⟨text, htext, rfl, rfl⟩, rfl, hheader, his, hcarries⟩

/-- A text that announces two instructions and has one: the loader makes two of it. -/
theorem neverInvents_fails :
    ¬ NeverInvents 0 1 (cstr "input/proc/p0s") (some (cstr "1 2\ncalc\n")) := by
  have hload : load 1 (cstr "input/proc/p0s") (some (cstr "1 2\ncalc\n")) ≠ .exited := by
    decide +kernel
  have hheader : ascii.numerals convU 2 (cstr "1 2\ncalc\n") =
      some ([1, 2], cstr "\ncalc\n") := by
    decide +kernel
  have hone : written 0 2 (cstr "\ncalc\n") = none := by decide +kernel
  rintro (hexit | ⟨pcb, avail, content, rest, is, -, ⟨⟩, hheader', his, -⟩)
  · exact hload hexit
  · rw [hheader, Option.some.injEq, Prod.mk.injEq, List.cons.injEq, List.cons.injEq] at hheader'
    obtain ⟨⟨-, hsize, -⟩, rfl⟩ := hheader'
    have htwo : pcb.size.toNat = 2 := by
      rw [← hsize]
      rfl
    rw [htwo, hone] at his
    cases his

end OsSim
