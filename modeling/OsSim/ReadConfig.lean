import OsSim.Lib.Words
import OsSim.ProgramText

/-!
# The Configuration File

`read_config` (`os.c`) reads a configuration with `fscanf` and looks at none of its results. A
number that is not there leaves its variable as it was, which is 0 for the static ones and not set
for the fields that `malloc` gave. The name of a process goes through an array of 100 characters
that was not set before, to one of the same size behind the directory. Using a value that was never
set, a name that is too long and a numeral that is too large for its variable have no defined
behaviour. `malloc` always succeeds here, and `MM_FIXED_MEMSZ` is not defined.

## Words

The conversions skip white space, and a line ends where the format has a newline, which is white
space as well. So the layout of the file does not matter: two texts with the same words are read
alike. `Config.words` are the words of a configuration, and `readConfig_of_words` reads it from
every text that begins with them.

## Other files

What is read of a file that says less is not what it says, but it is still of a certain form:
`readConfig_wellFormed` has what holds of every result. The sample files come in two formats, and
those without the line of memory sizes belong to a build with `MM_FIXED_MEMSZ`. Reading one takes
the first start time for the size of RAM, finds a name where a number should be, and comes to a
process without a start time (`readConfig_legacy`).

## Main results

* `readConfig_of_words`: **a configuration is read from every text that has its words**.
* `readConfig_wellFormed`: what is read has a path for each process, made from a name.
* `readConfig_legacy`: a file in the format without memory sizes is not read.
-/

namespace OsSim

open Scan

/-! ### Reading -/

/-- What `%lu` stores for a numeral, as `convU` with 64 bits. -/
def convLU (v : ℤ) : Option (BitVec 64) :=
  if v.natAbs < 18446744073709551616 then some (BitVec.ofInt 64 v) else none

/-- `fscanf` with `n` times `%d` and a newline, as `scanUnsigned`. -/
def scanSigned (n : ℕ) (file : List Byte) : Option (List (BitVec 32) × List Byte) :=
  (ascii.numerals convD n file).map fun r =>
    (r.1, if r.1.length = n then ascii.skipSpace r.2 else r.2)

/-- `n` calls of `fscanf` with `%d`, for numbers that are 0 before. -/
def scanSizes : ℕ → List Byte → Option (List (BitVec 32) × List Byte)
  | 0, file => some ([], file)
  | n + 1, file =>
      (ascii.numerals convD 1 file).bind fun r =>
        (scanSizes n r.2).map fun sizes => (r.1[0]?.getD 0 :: sizes.1, sizes.2)

/-- `struct ld_args` for one process; a priority that was never set is `none`. -/
structure LdArgs where
  startTime : BitVec 64
  path : CStr
  prio : Option (BitVec 64)
  deriving DecidableEq, Repr

/-- The line of a process. Without a start time `fscanf` returns before the name, and without a
name `strcat` copies what was never set. -/
def scanProcess (file : List Byte) : Loaded (LdArgs × List Byte) :=
  match ascii.numerals convLU 1 file with
  | some ([startTime], rest) =>
      match ascii.word rest with
      | none => .undefined
      | some (proc, rest) =>
          if proc.length < 100 ∧ (procDir ++ stored proc).length < 100 then
            match ascii.numerals convLU 1 rest with
            | none => .undefined
            | some (prio, rest) =>
                .returned
                  ({ startTime := startTime, path := procDir ++ stored proc, prio := prio[0]? },
                    if prio.length = 1 then ascii.skipSpace rest else rest)
          else .undefined
  | _ => .undefined

/-- The loop of `read_config`, with `n` processes to go. -/
def scanProcesses : ℕ → List Byte → Loaded (List LdArgs)
  | 0, _ => .returned []
  | n + 1, file =>
      (scanProcess file).bind fun r =>
        (scanProcesses n r.2).bind fun args => .returned (r.1 :: args)

/-- What `read_config` sets: the static variables, and the arrays of `ld_processes`. -/
structure ConfigFile where
  timeSlot : BitVec 32
  numCpus : BitVec 32
  numProcesses : BitVec 32
  memramsz : BitVec 32
  memswpsz : List (BitVec 32)
  ldProcesses : List LdArgs
  deriving DecidableEq, Repr

/-- `read_config`; the file is `none` when it cannot be opened. -/
def readConfig (file : Option (List Byte)) : Loaded ConfigFile :=
  match file with
  | none => .exited
  | some content =>
      let sizes := do
        let header ← scanSigned 3 content
        let ram ← scanSigned 1 header.2
        let swp ← scanSizes pagingMaxMmswp ram.2
        return (header.1, ram.1, swp)
      match sizes with
      | none => .undefined
      | some (header, ram, memswpsz, rest) =>
          let numProcesses := header[2]?.getD 0
          (scanProcesses numProcesses.toInt.toNat (ascii.skipSpace rest)).bind fun args =>
            .returned
              { timeSlot := header[0]?.getD 0
                numCpus := header[1]?.getD 0
                numProcesses := numProcesses
                memramsz := ram[0]?.getD 0
                memswpsz := memswpsz
                ldProcesses := args }

/-! ### Configurations and their words -/

/-- A process of a configuration: its start time, its name and its priority. -/
structure ConfigProcess where
  startTime : BitVec 64
  proc : ProgName
  prio : BitVec 64

/-- A configuration, with numbers that are not negative as an `int`. -/
structure Config where
  timeSlot : BitVec 32
  numCpus : BitVec 32
  memramsz : BitVec 32
  memswpsz : List (BitVec 32)
  processes : List ConfigProcess
  length_memswpsz : memswpsz.length = pagingMaxMmswp
  small : ∀ x ∈ timeSlot :: numCpus :: memramsz :: memswpsz, x.toNat < 2147483648

/-- The words of its line, in the order of the file. -/
def ConfigProcess.words (p : ConfigProcess) : List CStr :=
  [ascii.decimal p.startTime.toNat, p.proc.chars, ascii.decimal p.prio.toNat]

/-- The words of a configuration. -/
def Config.words (c : Config) : List CStr :=
  [c.timeSlot.toNat, c.numCpus.toNat, c.processes.length].map ascii.decimal ++
    ([c.memramsz.toNat].map ascii.decimal ++
      ((c.memswpsz.map BitVec.toNat).map ascii.decimal ++
        c.processes.flatMap ConfigProcess.words))

/-- What there is of a process once its line has been read. -/
def ConfigProcess.ldArgs (p : ConfigProcess) : LdArgs where
  startTime := p.startTime
  path := readConfigPath p.proc
  prio := some p.prio

/-- What there is of a configuration once it has been read. -/
def Config.file (c : Config) : ConfigFile where
  timeSlot := c.timeSlot
  numCpus := c.numCpus
  numProcesses := BitVec.ofNat 32 c.processes.length
  memramsz := c.memramsz
  memswpsz := c.memswpsz
  ldProcesses := c.processes.map ConfigProcess.ldArgs

/-! ### Reading the words -/

section Words

variable {s : List Byte} {ws : List CStr}

/-- A word of 64 bits has every unsigned value. -/
theorem convLU_toNat (x : BitVec 64) : convLU x.toNat = some x := by
  have hlt := x.isLt
  rw [convLU, if_pos (by omega), BitVec.ofInt_natCast, BitVec.ofNat_toNat, BitVec.setWidth_eq]

/-- The numbers of a line. -/
theorem scanSigned_of_words {ns : List ℕ} (h : ascii.words s = ns.map ascii.decimal ++ ws) :
    ∃ rest, scanSigned ns.length s = (ns.mapM fun n : ℕ => convD n).map (·, rest) ∧
      ascii.words rest = ws := by
  obtain ⟨rest, hnums, hws⟩ := Alphabet.numerals_of_words convD h
  refine ⟨ascii.skipSpace rest, ?_, (Alphabet.words_skipSpace _).trans hws⟩
  rw [scanSigned, hnums]
  rcases hxs : ns.mapM fun n : ℕ => convD n with _ | xs
  · rfl
  · simp [Alphabet.length_of_mapM hxs]

/-- The sizes of the swap devices. -/
theorem scanSizes_of_words {xs : List (BitVec 32)} (hsmall : ∀ x ∈ xs, x.toNat < 2147483648)
    (h : ascii.words s = (xs.map BitVec.toNat).map ascii.decimal ++ ws) :
    ∃ rest, scanSizes xs.length s = some (xs, rest) ∧ ascii.words rest = ws := by
  induction xs generalizing s with
  | nil => exact ⟨s, rfl, h⟩
  | cons x xs ih =>
      have hfirst : ascii.words s =
          [x.toNat].map ascii.decimal ++ ((xs.map BitVec.toNat).map ascii.decimal ++ ws) := h
      obtain ⟨more, hnum, hmore⟩ := Alphabet.numerals_of_words convD hfirst
      obtain ⟨rest, hsizes, hws⟩ := ih (fun y hy => hsmall y (List.mem_cons_of_mem x hy)) hmore
      refine ⟨rest, ?_, hws⟩
      have hone : ascii.numerals convD 1 s = some ([x], more) := by
        rw [← List.length_singleton (a := x.toNat), hnum]
        simp [convD_toNat (hsmall x List.mem_cons_self)]
      rw [List.length_cons, scanSizes, hone, Option.bind_some, hsizes]
      rfl

/-- One number of 64 bits. -/
theorem numerals_convLU_of_words {x : BitVec 64} (h : ascii.words s = ascii.decimal x.toNat :: ws) :
    ∃ rest, ascii.numerals convLU 1 s = some ([x], rest) ∧ ascii.words rest = ws := by
  have hfirst : ascii.words s = [x.toNat].map ascii.decimal ++ ws := h
  obtain ⟨rest, hnum, hws⟩ := Alphabet.numerals_of_words convLU hfirst
  refine ⟨rest, hnum.trans ?_, hws⟩
  simp [convLU_toNat]

/-- A name has no zero byte that would end it. -/
theorem ProgName.stored_chars (t : ProgName) : stored t.chars = t.chars := by
  refine List.takeWhile_eq_self_iff.mpr fun c hc => decide_eq_true ?_
  rintro rfl
  exact t.no_nul hc

/-- The line of a process. -/
theorem scanProcess_of_words {p : ConfigProcess} (h : ascii.words s = p.words ++ ws) :
    ∃ rest, scanProcess s = .returned (p.ldArgs, rest) ∧ ascii.words rest = ws := by
  obtain ⟨r₁, hstart, h₁⟩ := numerals_convLU_of_words h
  obtain ⟨r₂, hproc, h₂⟩ := Alphabet.word_of_words h₁
  obtain ⟨r₃, hprio, h₃⟩ := numerals_convLU_of_words h₂
  have hfits := p.proc.fits
  rw [List.length_append] at hfits
  refine ⟨ascii.skipSpace r₃, ?_, (Alphabet.words_skipSpace _).trans h₃⟩
  rw [scanProcess, hstart]
  simp only [hproc, p.proc.stored_chars, List.length_append]
  rw [if_pos ⟨by omega, by omega⟩, hprio]
  rfl

/-- The lines of all processes. -/
theorem scanProcesses_of_words {ps : List ConfigProcess}
    (h : ascii.words s = ps.flatMap ConfigProcess.words ++ ws) :
    scanProcesses ps.length s = .returned (ps.map ConfigProcess.ldArgs) := by
  induction ps generalizing s with
  | nil => rfl
  | cons p ps ih =>
      rw [List.flatMap_cons, List.append_assoc] at h
      obtain ⟨rest, hproc, hrest⟩ := scanProcess_of_words h
      rw [List.length_cons, scanProcesses, hproc, Loaded.bind, ih hrest, Loaded.bind, List.map_cons]

/-- With the numbers found, the processes are left. -/
theorem readConfig_of_numbers {content r₁ r₂ r₃ : List Byte} {header ram swp : List (BitVec 32)}
    (hheader : scanSigned 3 content = some (header, r₁)) (hram : scanSigned 1 r₁ = some (ram, r₂))
    (hswp : scanSizes pagingMaxMmswp r₂ = some (swp, r₃)) :
    readConfig (some content) =
      (scanProcesses (header[2]?.getD 0).toInt.toNat (ascii.skipSpace r₃)).bind fun args =>
        .returned
          { timeSlot := header[0]?.getD 0
            numCpus := header[1]?.getD 0
            numProcesses := header[2]?.getD 0
            memramsz := ram[0]?.getD 0
            memswpsz := swp
            ldProcesses := args } := by
  simp only [readConfig, hheader, hram, hswp, Option.bind_eq_bind, Option.bind_some,
    Option.pure_def]

end Words

/-- **A configuration is read from every text that has its words**, however they are laid out and
whatever comes behind them, if its number of processes fits into an `int`. -/
theorem readConfig_of_words {c : Config} (hcount : c.processes.length < 2147483648)
    {content : List Byte} {ws : List CStr} (h : ascii.words content = c.words ++ ws) :
    readConfig (some content) = .returned c.file := by
  have hlen : (BitVec.ofNat 32 c.processes.length).toNat = c.processes.length := by
    rw [BitVec.toNat_ofNat]
    omega
  have hsmall : ∀ x ∈ c.timeSlot :: c.numCpus :: c.memramsz :: c.memswpsz,
      convD x.toNat = some x := fun x hx => convD_toNat (c.small x hx)
  have hcountD : convD c.processes.length = some (BitVec.ofNat 32 c.processes.length) := by
    have hconv := convD_toNat (x := BitVec.ofNat 32 c.processes.length) (by omega)
    rwa [hlen] at hconv
  have htoInt : (BitVec.ofNat 32 c.processes.length).toInt.toNat = c.processes.length := by
    rw [BitVec.toInt_eq_toNat_of_lt (by omega), hlen, Int.toNat_natCast]
  simp only [Config.words, List.append_assoc] at h
  have hnums : [c.timeSlot.toNat, c.numCpus.toNat, c.processes.length].mapM
      (fun n : ℕ => convD n) =
        some [c.timeSlot, c.numCpus, BitVec.ofNat 32 c.processes.length] := by
    simp [hsmall, hcountD]
  have hramNums : [c.memramsz.toNat].mapM (fun n : ℕ => convD n) = some [c.memramsz] := by
    simp [hsmall]
  obtain ⟨r₁, hheader, h₁⟩ := scanSigned_of_words h
  obtain ⟨r₂, hram, h₂⟩ := scanSigned_of_words h₁
  rw [hnums] at hheader
  rw [hramNums] at hram
  obtain ⟨r₃, hswp, h₃⟩ := scanSizes_of_words (fun x hx => c.small x (by simp [hx])) h₂
  have hprocs := scanProcesses_of_words (s := ascii.skipSpace r₃)
    ((Alphabet.words_skipSpace _).trans h₃)
  rw [c.length_memswpsz] at hswp
  rw [readConfig_of_numbers hheader hram hswp]
  have hcount : ([c.timeSlot, c.numCpus, BitVec.ofNat 32 c.processes.length][2]?.getD 0).toInt.toNat
      = c.processes.length := htoInt
  rw [hcount, hprocs]
  rfl

/-- The first process of `input/sched_0`. -/
def sZero : ConfigProcess where
  startTime := 0
  proc := ⟨cstr "s0", by decide, by decide, by decide, by decide⟩
  prio := 4

/-- The second. -/
def sOne : ConfigProcess where
  startTime := 4
  proc := ⟨cstr "s1", by decide, by decide, by decide, by decide⟩
  prio := 0

/-- What `input/sched_0` says. -/
def schedZero : Config where
  timeSlot := 2
  numCpus := 1
  memramsz := 2048
  memswpsz := [16777216, 0, 0, 0]
  processes := [sZero, sOne]
  length_memswpsz := rfl
  small := by simp

/-- Its text. -/
def schedText : List Byte := cstr "2 1 2\n2048 16777216 0 0 0\n0 s0 4\n4 s1 0\n"

example : readConfig (some schedText) = .returned schedZero.file := by decide +kernel

/-! ### Any file -/

/-- A path that `read_config` makes: the directory, and a name without white space. -/
def PathOk (path : CStr) : Prop :=
  ∃ name, path = procDir ++ name ∧ path.length < 100 ∧ ∀ b ∈ name, isSpace b = false ∧ b ≠ 0

/-- What `read_config` sets, if its behaviour is defined. -/
structure ConfigFile.WellFormed (c : ConfigFile) : Prop where
  count : c.ldProcesses.length = c.numProcesses.toInt.toNat
  sizes : c.memswpsz.length = pagingMaxMmswp
  path : ∀ args ∈ c.ldProcesses, PathOk args.path

/-- There are as many sizes as were asked for. -/
theorem length_scanSizes {n : ℕ} {s : List Byte} {sizes : List (BitVec 32) × List Byte}
    (h : scanSizes n s = some sizes) : sizes.1.length = n := by
  induction n generalizing s sizes with
  | zero =>
      obtain rfl := Option.some.inj h
      rfl
  | succ n ih =>
      obtain ⟨r, -, h⟩ := Option.bind_eq_some_iff.mp h
      obtain ⟨more, hmore, rfl⟩ := Option.map_eq_some_iff.mp h
      rw [List.length_cons, ih hmore]

/-- What returns has returned all along. -/
theorem Loaded.bind_eq_returned {β γ : Type} {x : Loaded β} {f : β → Loaded γ} {c : γ}
    (h : x.bind f = .returned c) : ∃ b, x = .returned b ∧ f b = .returned c := by
  cases x with
  | returned b => exact ⟨b, rfl, h⟩
  | exited => cases h
  | undefined => cases h

/-- The path of a process. -/
theorem pathOk_scanProcess {s rest : List Byte} {args : LdArgs}
    (h : scanProcess s = .returned (args, rest)) : PathOk args.path := by
  rw [scanProcess] at h
  split at h
  · split at h
    · cases h
    · rename_i proc more hword
      split_ifs at h with hroom
      · split at h
        · cases h
        · obtain ⟨rfl, -⟩ := Prod.mk.inj (Loaded.returned.inj h)
          obtain ⟨-, -, hspace, -⟩ := Alphabet.word_eq_some hword
          refine ⟨stored proc, rfl, hroom.2, fun b hb => ⟨hspace b ?_, ?_⟩⟩
          · exact (List.takeWhile_prefix _).subset hb
          · have hne := List.mem_takeWhile_imp hb
            exact of_decide_eq_true hne
  · cases h

/-- All processes. -/
theorem scanProcesses_returned {n : ℕ} {s : List Byte} {args : List LdArgs}
    (h : scanProcesses n s = .returned args) :
    args.length = n ∧ ∀ a ∈ args, PathOk a.path := by
  induction n generalizing s args with
  | zero =>
      obtain rfl := Loaded.returned.inj h
      exact ⟨rfl, by simp⟩
  | succ n ih =>
      obtain ⟨r, hproc, h⟩ := Loaded.bind_eq_returned h
      obtain ⟨more, hmore, h⟩ := Loaded.bind_eq_returned h
      obtain rfl := Loaded.returned.inj h
      obtain ⟨hlen, hpath⟩ := ih hmore
      refine ⟨by rw [List.length_cons, hlen], fun a ha => ?_⟩
      rcases List.mem_cons.mp ha with rfl | ha
      · exact pathOk_scanProcess hproc
      · exact hpath a ha

/-- **Whatever the file says**: if `read_config` returns, it has set as many processes as it says
there are, four sizes of swap devices, and for each process a path with a name. -/
theorem readConfig_wellFormed {file : Option (List Byte)} {c : ConfigFile}
    (h : readConfig file = .returned c) : c.WellFormed := by
  rcases file with _ | content
  · cases h
  · simp only [readConfig] at h
    split at h
    · cases h
    · rename_i header ram memswpsz rest hsizes
      obtain ⟨args, hargs, h⟩ := Loaded.bind_eq_returned h
      obtain rfl := Loaded.returned.inj h
      obtain ⟨hcount, hpath⟩ := scanProcesses_returned hargs
      refine ⟨hcount, ?_, hpath⟩
      simp only [Option.bind_eq_bind, Option.bind_eq_some_iff] at hsizes
      obtain ⟨r₁, -, r₂, -, r₃, hswp, heq⟩ := hsizes
      cases heq
      exact length_scanSizes hswp

/-! ### The format without memory sizes -/

/-- The name begins with neither a digit nor a sign. -/
def ProgName.NotNumeral (t : ProgName) : Prop :=
  ∃ c w, t.chars = c :: w ∧ ascii.digit c = none ∧ c ≠ ascii.minus ∧ c ≠ ascii.plus

section Legacy

variable {t : ProgName} {s : List Byte} {ws : List CStr}

/-- Numbers are not found before a name, which stays. -/
theorem numerals_of_name {γ : Type} {conv : ℤ → Option γ} (ht : t.NotNumeral)
    (h : ascii.words s = t.chars :: ws) :
    ascii.numerals conv 1 s = some ([], ascii.skipSpace s) := by
  obtain ⟨c, w, hchars, hdigit, hminus, hplus⟩ := ht
  rw [hchars] at h
  exact Alphabet.numerals_of_word conv h hdigit hminus hplus 0

/-- The sizes are not found before a name, which stays. -/
theorem scanSizes_of_name (ht : t.NotNumeral) (h : ascii.words s = t.chars :: ws) (n : ℕ) :
    ∃ xs rest, scanSizes n s = some (xs, rest) ∧ ascii.words rest = t.chars :: ws := by
  induction n generalizing s with
  | zero => exact ⟨[], s, rfl, h⟩
  | succ n ih =>
      obtain ⟨xs, rest, hsizes, hrest⟩ := ih ((Alphabet.words_skipSpace s).trans h)
      refine ⟨0 :: xs, rest, ?_, hrest⟩
      rw [scanSizes, numerals_of_name ht h, Option.bind_some, hsizes]
      rfl

/-- Without a start time the line of a process is undefined. -/
theorem scanProcess_of_name (ht : t.NotNumeral) (h : ascii.words s = t.chars :: ws) :
    scanProcess s = .undefined := by
  rw [scanProcess, numerals_of_name ht h]

/-- A number that `%d` takes, as a count. -/
theorem toInt_of_convD {n : ℕ} {x : BitVec 32} (h : convD n = some x) : x.toInt.toNat = n := by
  rw [convD] at h
  split_ifs at h with hrange
  obtain rfl := Option.some.inj h
  have hhigh : (n : ℤ) < 2 ^ (32 - 1) := hrange.2
  rw [BitVec.toInt_ofInt_eq_self (by omega) (by norm_num) hhigh, Int.toNat_natCast]

end Legacy

/-- **A file without the line of memory sizes is not read**: if it says that there are processes,
and the name of the first is no numeral, then its start time is taken for the size of RAM, and its
name comes where a start time should. -/
theorem readConfig_legacy {content : List Byte} {timeSlot numCpus n : ℕ} {p : ConfigProcess}
    {ws : List CStr} (hn : 0 < n) (hp : p.proc.NotNumeral)
    (h : ascii.words content = [timeSlot, numCpus, n].map ascii.decimal ++ (p.words ++ ws)) :
    readConfig (some content) = .undefined := by
  obtain ⟨r₁, hheader, h₁⟩ := scanSigned_of_words h
  have hfirst : ascii.words r₁ = [p.startTime.toNat].map ascii.decimal ++
      (p.proc.chars :: ascii.decimal p.prio.toNat :: ws) := h₁
  obtain ⟨r₂, hram, h₂⟩ := scanSigned_of_words hfirst
  obtain ⟨xs, r₃, hswp, h₃⟩ := scanSizes_of_name hp h₂ pagingMaxMmswp
  have hproc := scanProcess_of_name hp ((Alphabet.words_skipSpace r₃).trans h₃)
  rcases hnums : [timeSlot, numCpus, n].mapM (fun n : ℕ => convD n) with _ | header
  · rw [hnums] at hheader
    have hheader : scanSigned 3 content = none := hheader
    simp only [readConfig, hheader, Option.bind_eq_bind, Option.bind_none]
  · rw [hnums] at hheader
    have hheader : scanSigned 3 content = some (header, r₁) := hheader
    rcases hsize : [p.startTime.toNat].mapM (fun n : ℕ => convD n) with _ | ram
    · rw [hsize] at hram
      have hram : scanSigned 1 r₁ = none := hram
      simp only [readConfig, hheader, hram, Option.bind_eq_bind, Option.bind_none, Option.bind_some]
    · rw [hsize] at hram
      have hcount : (header[2]?.getD 0).toInt.toNat = n := by
        simp only [List.mapM_cons, List.mapM_nil, Option.bind_eq_bind,
          Option.bind_eq_some_iff] at hnums
        obtain ⟨x, -, y, ⟨z, -, _, ⟨count, hcount, _, ⟨⟩, ⟨⟩⟩, ⟨⟩⟩, ⟨⟩⟩ := hnums
        exact toInt_of_convD hcount
      obtain ⟨m, rfl⟩ : ∃ m, n = m + 1 := ⟨n - 1, by omega⟩
      rw [readConfig_of_numbers hheader hram hswp, hcount, scanProcesses, hproc]
      rfl

/-- The first process of `input/sched_0`, in the format without memory sizes. -/
theorem readConfig_legacy_sZero :
    readConfig (some (cstr "2 1 1\n0 s0 4\n")) = .undefined := by
  have hwords : ascii.words (cstr "2 1 1\n0 s0 4\n") =
      [2, 1, 1].map ascii.decimal ++ (sZero.words ++ []) := by
    decide +kernel
  exact readConfig_legacy Nat.one_pos ⟨115, cstr "0", rfl, rfl, by decide, by decide⟩ hwords

end OsSim
