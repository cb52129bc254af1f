import OsSim.Kernel
import OsSim.ReadConfig

/-!
# From the Files to the Simulation

`main` reads a configuration, and `ld_routine` loads the program of each process that it names. The
configuration of the simulation is what they come to. A program has to set the arguments that its
instructions use, since using one that was never set is undefined; so is a priority that is no index
of a ready queue.

## What the simulation starts with

`boot` puts `readConfig` and `load` together: the files are a function from paths to contents, and
the result is the configuration that `Kernel` runs. The threads start with it, and so do all results
about the simulation. The order of the processes is that of the file, and each has the number that
`load` gives it, which is one more than its place.

## Two directions

The first is for files that were written on purpose: programs printed as `ProgramText` has it, and a
configuration whose words name them. What is simulated is then what was written (`boot_of_files`).
The bounds are those of the variables on the way: the name of the configuration fits into an array
of 100 characters, the number of processes is an `int`, and the length of a program fits into 32
bits.

The second is for any files at all. If the simulation starts, then each of its processes comes from
a file that the configuration names, with the program that `load` makes of it (`boot_processes`).

## Main results

* `boot_of_files`: **what is written to the files is what is simulated**.
* `boot_processes`: each process has the program in its file, and they are numbered from 1 on.
-/

namespace OsSim

open Scan

/-! ### Loading the processes -/

/-- What `run` executes. An argument that it does not use need not be set. -/
def LoadedInst.inst (i : LoadedInst) : Option InstT :=
  match i.opcode with
  | .calc => some { opcode := .calc }
  | .alloc => do
      let arg0 ← i.arg0
      let arg1 ← i.arg1
      return { opcode := .alloc, arg0 := arg0, arg1 := arg1 }
  | .free => do
      let arg0 ← i.arg0
      return { opcode := .free, arg0 := arg0 }
  | .read => do
      let arg0 ← i.arg0
      let arg1 ← i.arg1
      -- `libread` sets the third
      return { opcode := .read, arg0 := arg0, arg1 := arg1, arg2 := i.arg2.getD 0 }
  | .write => do
      let arg0 ← i.arg0
      let arg1 ← i.arg1
      let arg2 ← i.arg2
      return { opcode := .write, arg0 := arg0, arg1 := arg1, arg2 := arg2 }
  | .syscall => do
      let nr ← i.arg0
      -- `sys_memmap` uses three arguments, `sys_killall` one
      let used := if nr = 17 then [i.arg1, i.arg2, i.arg3] else if nr = 101 then [i.arg1] else []
      if none ∈ used then none
      else
        return { opcode := .syscall, arg0 := nr, arg1 := i.arg1.getD 0, arg2 := i.arg2.getD 0,
                 arg3 := i.arg3.getD 0 }

/-- A process as the loader hands it over. -/
structure LoadedProc where
  pid : BitVec 32
  startTime : ℕ
  prio : Fin maxPrio
  path : CStr
  text : List InstT
  deriving DecidableEq

/-- The loop of `ld_routine`, with the value of `avail_pid`. The priority goes to a field of 32
bits. -/
def loadProcs (files : CStr → Option (List Byte)) :
    BitVec 32 → List LdArgs → Loaded (List LoadedProc)
  | _, [] => .returned []
  | availPid, args :: more =>
      (load availPid args.path (files args.path)).bind fun r =>
        match args.prio, r.1.text.mapM LoadedInst.inst with
        | some prio, some text =>
            if h : (prio.setWidth 32).toNat < maxPrio then
              (loadProcs files r.2 more).bind fun procs =>
                .returned
                  ({ pid := r.1.pid
                     startTime := args.startTime.toNat
                     prio := ⟨(prio.setWidth 32).toNat, h⟩
                     path := r.1.path
                     text := text } :: procs)
            else .undefined
        | _, _ => .undefined

/-- The configuration of the simulation. -/
def kernelConfig (c : ConfigFile) (procs : List LoadedProc) : KernelConfig where
  numCpus := c.numCpus.toInt.toNat
  timeSlot := c.timeSlot.toInt
  numProcesses := procs.length
  startTime p := procs[p].startTime
  prio p := procs[p].prio
  codeSize p := procs[p].text.length
  path p := procs[p].path
  text p := procs[p].text
  text_length _ := rfl
  memramsz := c.memramsz
  memswpsz sit := c.memswpsz[(sit : ℕ)]?.getD 0

/-- `main` up to the threads, and what the loader reads: the argument is the name of the
configuration, which goes to an array of 100 characters behind its directory. -/
def boot (files : CStr → Option (List Byte)) (arg : CStr) : Loaded KernelConfig :=
  let path := cstr "input/" ++ arg
  if path.length < 100 then
    (readConfig (files path)).bind fun c =>
      (loadProcs files 1 c.ldProcesses).bind fun procs => .returned (kernelConfig c procs)
  else .undefined

/-! ### Printed programs -/

/-- The instruction of a program. -/
def ProgInst.inst (i : ProgInst) : InstT where
  opcode := i.opcode
  arg0 := i.operands[0]?.getD 0
  arg1 := i.operands[1]?.getD 0
  arg2 := i.operands[2]?.getD 0
  arg3 := i.operands[3]?.getD 0

/-- A loaded instruction that carries it is executed as it. -/
theorem ProgInst.inst_of_carries {i : ProgInst} {inst : LoadedInst}
    (h : Carries inst i.toWrittenInst) : inst.inst = some i.inst := by
  rcases i with ⟨⟨op, xs⟩, hcount, hsmall⟩
  rcases inst with ⟨op', arg0, arg1, arg2, arg3⟩
  obtain rfl : op' = op := h.opcode
  have hargs : ∀ j < xs.length, LoadedInst.arg ⟨op', arg0, arg1, arg2, arg3⟩ j = xs[j]? :=
    h.operands
  cases op' with
  | «calc» =>
      obtain rfl := List.length_eq_zero_iff.mp hcount
      rfl
  | free =>
      obtain ⟨a, rfl⟩ := List.length_eq_one_iff.mp hcount
      obtain rfl : arg0 = some a := hargs 0 (by simp)
      rfl
  | alloc =>
      obtain ⟨a, b, rfl⟩ := List.length_eq_two.mp hcount
      obtain rfl : arg0 = some a := hargs 0 (by simp)
      obtain rfl : arg1 = some b := hargs 1 (by simp)
      rfl
  | syscall =>
      obtain ⟨a, b, c, d, rfl⟩ : ∃ a b c d, xs = [a, b, c, d] := by
        rcases xs with _ | ⟨a, _ | ⟨b, _ | ⟨c, _ | ⟨d, _ | ⟨e, xs⟩⟩⟩⟩⟩ <;>
          simp [operandCount] at hcount ⊢
      obtain rfl : arg0 = some a := hargs 0 (by simp)
      obtain rfl : arg1 = some b := hargs 1 (by simp)
      obtain rfl : arg2 = some c := hargs 2 (by simp)
      obtain rfl : arg3 = some d := hargs 3 (by simp)
      have hused : none ∉ (if a = 17 then [some b, some c, some d] else
          if a = 101 then [some b] else ([] : List (Option (BitVec 32)))) := by
        split_ifs <;> simp
      simp only [LoadedInst.inst, Option.bind_eq_bind, Option.bind_some, if_neg hused]
      rfl
  | _ =>
      obtain ⟨a, b, c, rfl⟩ := List.length_eq_three.mp hcount
      obtain rfl : arg0 = some a := hargs 0 (by simp)
      obtain rfl : arg1 = some b := hargs 1 (by simp)
      obtain rfl : arg2 = some c := hargs 2 (by simp)
      rfl

/-- A process with its program, to be written to the files. -/
structure PrintedProc where
  startTime : BitVec 64
  proc : ProgName
  prio : Fin maxPrio
  priority : BitVec 32
  text : List ProgInst
  length_text : text.length < 4294967296

/-- Its line of the configuration. -/
def PrintedProc.line (p : PrintedProc) : ConfigProcess where
  startTime := p.startTime
  proc := p.proc
  prio := BitVec.ofNat 64 p.prio

/-- The process as number `pid`. -/
def PrintedProc.loaded (p : PrintedProc) (pid : BitVec 32) : LoadedProc where
  pid := pid
  startTime := p.startTime.toNat
  prio := p.prio
  path := procPath p.proc
  text := p.text.map ProgInst.inst

/-- The processes, numbered from `pid` on. -/
def numbered : BitVec 32 → List PrintedProc → List LoadedProc
  | _, [] => []
  | pid, p :: ps => p.loaded pid :: numbered (pid + 1) ps

/-- Loaded instructions that carry those of a program are executed as they are. -/
theorem mapM_inst {text : List LoadedInst} {is : List ProgInst}
    (h : List.Forall₂ Carries text (is.map ProgInst.toWrittenInst)) :
    text.mapM LoadedInst.inst = some (is.map ProgInst.inst) := by
  induction is generalizing text with
  | nil =>
      obtain rfl := List.forall₂_nil_right_iff.mp h
      rfl
  | cons i is ih =>
      obtain ⟨inst, text, hinst, htext, rfl⟩ := List.forall₂_cons_right_iff.mp h
      rw [List.mapM_cons, i.inst_of_carries hinst, ih htext]
      rfl

/-- Loading a printed program. -/
theorem load_printed (availPid : BitVec 32) (p : PrintedProc) :
    ∃ text, load availPid (readConfigPath p.proc) (some (printProgram p.priority p.text)) =
        .returned (loadedPcb availPid (readConfigPath p.proc) p.priority
          (BitVec.ofNat 32 p.text.length) text, availPid + 1) ∧
      text.mapM LoadedInst.inst = some (p.text.map ProgInst.inst) := by
  have hlen : (BitVec.ofNat 32 p.text.length).toNat = p.text.length := by
    have hlt := p.length_text
    rw [BitVec.toNat_ofNat]
    omega
  have hheader : ascii.numerals convU 2 (printProgram p.priority p.text) =
      some ([p.priority, BitVec.ofNat 32 p.text.length], newline :: printText p.text) := by
    have hconv := convU_toNat (BitVec.ofNat 32 p.text.length)
    rw [hlen] at hconv
    rw [numerals_printProgram, hconv]
    rfl
  obtain ⟨hplain, hwritten⟩ := plain_printText p.text (sameWords_newline (printText p.text))
  have hfile : (⟨newline :: printText p.text, none, none⟩ : LoadState).file =
      newline :: printText p.text := rfl
  obtain ⟨text, is, htext, his, hcarries⟩ := loadLoop_of_plain (hfile ▸ hplain)
  obtain rfl := Option.some.inj (hwritten.symm.trans his)
  refine ⟨text, ?_, mapM_inst hcarries⟩
  rw [load_of_header hheader, hlen, htext]
  rfl

/-- Loading all of them. -/
theorem loadProcs_printed {files : CStr → Option (List Byte)} {ps : List PrintedProc}
    (hfiles : ∀ p ∈ ps, files (readConfigPath p.proc) = some (printProgram p.priority p.text))
    (pid : BitVec 32) :
    loadProcs files pid (ps.map fun p => p.line.ldArgs) = .returned (numbered pid ps) := by
  induction ps generalizing pid with
  | nil => rfl
  | cons p ps ih =>
      obtain ⟨text, hload, htext⟩ := load_printed pid p
      have hfile : files p.line.ldArgs.path = some (printProgram p.priority p.text) :=
        hfiles p List.mem_cons_self
      have hprio : ((BitVec.ofNat 64 p.prio).setWidth 32).toNat = p.prio := by
        have hlt : (p.prio : ℕ) < 140 := p.prio.isLt
        rw [BitVec.toNat_setWidth, BitVec.toNat_ofNat]
        omega
      have hmore := ih (fun q hq => hfiles q (List.mem_cons_of_mem p hq)) (pid + 1)
      have hload : load pid p.line.ldArgs.path (some (printProgram p.priority p.text)) = _ := hload
      rw [List.map_cons, loadProcs, hfile, hload, Loaded.bind]
      simp only [ConfigProcess.ldArgs, PrintedProc.line] at hmore ⊢
      simp only [loadedPcb, htext, hprio, Fin.is_lt, dite_true, hmore]
      rfl

/-- **What is written to the files is what is simulated.** The text of the configuration has the
words of `c`, however they are laid out, and its processes have their programs in the files of their
names; the processes are then those of the configuration, in its order, with their start times,
priorities, paths and programs. The name of the configuration fits into `path`, and the number of
processes into an `int`. -/
theorem boot_of_files {files : CStr → Option (List Byte)} {arg : CStr} {c : Config}
    {ps : List PrintedProc} (hc : c.processes = ps.map PrintedProc.line)
    (hcount : ps.length < 2147483648) (harg : (cstr "input/" ++ arg).length < 100)
    {content : List Byte} {ws : List CStr} (hfile : files (cstr "input/" ++ arg) = some content)
    (hwords : ascii.words content = c.words ++ ws)
    (hfiles : ∀ p ∈ ps, files (readConfigPath p.proc) = some (printProgram p.priority p.text)) :
    boot files arg = .returned (kernelConfig c.file (numbered 1 ps)) := by
  have hlen : c.processes.length < 2147483648 := by
    rw [hc, List.length_map]
    exact hcount
  have hargs : c.file.ldProcesses = ps.map fun p => p.line.ldArgs := by
    rw [Config.file, hc, List.map_map]
    rfl
  simp only [boot, if_pos harg, hfile, readConfig_of_words hlen hwords, Loaded.bind, hargs,
    loadProcs_printed hfiles]

/-- A program that allocates a region, writes a byte there and reads it, and frees the region. -/
def regionText : List ProgInst :=
  [⟨⟨.alloc, [300, 0]⟩, rfl, by simp⟩, ⟨⟨.write, [7, 0, 20]⟩, rfl, by simp⟩,
    ⟨⟨.read, [0, 20, 1]⟩, rfl, by simp⟩, ⟨⟨.free, [0]⟩, rfl, by simp⟩]

/-- The processes of `input/sched_0`, with this program and one that ends with a system call. -/
def schedProcs : List PrintedProc :=
  [{ startTime := 0
     proc := sZero.proc
     prio := 4
     priority := 12
     text := regionText
     length_text := show 4 < 4294967296 by omega },
    { startTime := 4
      proc := sOne.proc
      prio := 0
      priority := 20
      text := [calcInst, killInst]
      length_text := show 2 < 4294967296 by omega }]

/-- The configuration and the programs. -/
def schedFiles (path : CStr) : Option (List Byte) :=
  if path = cstr "input/sched_0" then some schedText
  else (schedProcs.find? fun p => path = readConfigPath p.proc).map fun p =>
    printProgram p.priority p.text

/-- These files are read as `input/sched_0` and its two programs. -/
theorem boot_of_files_schedZero : boot schedFiles (cstr "sched_0") =
    .returned (kernelConfig schedZero.file (numbered 1 schedProcs)) := by
  have hwords : ascii.words schedText = schedZero.words ++ [] := by decide +kernel
  have hfiles : ∀ p ∈ schedProcs,
      schedFiles (readConfigPath p.proc) = some (printProgram p.priority p.text) := by
    decide +kernel
  exact boot_of_files rfl (show 2 < 2147483648 by omega) (by decide) rfl hwords hfiles

/-! ### Any files -/

/-- Process `p` of the simulation comes from a file that the configuration names, as number
`p + 1`. -/
structure FromFile (files : CStr → Option (List Byte)) (cfg : KernelConfig) (p : cfg.Proc)
    (name : CStr) (pcb : LoadedPcb) : Prop where
  no_blank : ∀ b ∈ name, isSpace b = false ∧ b ≠ 0
  loaded : load (BitVec.ofNat 32 (p + 1)) (procDir ++ name) (files (procDir ++ name)) =
    .returned (pcb, BitVec.ofNat 32 (p + 1) + 1)
  pid : pcb.pid.toNat = (bootSim cfg.toSimConfig).pid p
  path : cfg.path p = pcb.path
  text : pcb.text.mapM LoadedInst.inst = some (cfg.text p)

/-- A loaded process has the number that was next. -/
theorem load_pid {availPid availPid' : BitVec 32} {path : CStr} {file : Option (List Byte)}
    {pcb : LoadedPcb} (h : load availPid path file = .returned (pcb, availPid')) :
    pcb.pid = availPid ∧ availPid' = availPid + 1 := by
  rcases file with _ | content
  · cases h
  · rw [load] at h
    split at h
    · obtain ⟨text, -, h⟩ := Loaded.bind_eq_returned h
      cases h
      exact ⟨rfl, rfl⟩
    · cases h

/-- What has been loaded of the processes. -/
theorem loadProcs_returned {files : CStr → Option (List Byte)} {pid : BitVec 32}
    {args : List LdArgs} {procs : List LoadedProc}
    (h : loadProcs files pid args = .returned procs) :
    procs.length = args.length ∧ ∀ i p, procs[i]? = some p → ∃ a pcb, args[i]? = some a ∧
      load (pid + BitVec.ofNat 32 i) a.path (files a.path) =
          .returned (pcb, pid + BitVec.ofNat 32 i + 1) ∧
        pcb.pid = pid + BitVec.ofNat 32 i ∧ p.path = pcb.path ∧
          pcb.text.mapM LoadedInst.inst = some p.text := by
  induction args generalizing pid procs with
  | nil =>
      obtain rfl := Loaded.returned.inj h
      simp
  | cons a args ih =>
      obtain ⟨⟨pcb, next⟩, hload, h⟩ := Loaded.bind_eq_returned h
      obtain ⟨hpid, rfl⟩ := load_pid hload
      split at h
      · rename_i prio text hprio htext
        split_ifs at h with hlt
        obtain ⟨more, hmore, h⟩ := Loaded.bind_eq_returned h
        obtain rfl := Loaded.returned.inj h
        obtain ⟨hlen, hall⟩ := ih hmore
        refine ⟨by rw [List.length_cons, List.length_cons, hlen], ?_⟩
        rintro (_ | i) p hp
        · cases hp
          exact ⟨a, pcb, rfl, by simpa using hload, by simpa using hpid, rfl, htext⟩
        · obtain ⟨b, pcb, hb, hrest⟩ := hall i p hp
          have hnext : pid + 1 + BitVec.ofNat 32 i = pid + BitVec.ofNat 32 (i + 1) := by
            rw [BitVec.add_assoc, BitVec.ofNat_add, BitVec.add_comm 1]
            rfl
          rw [hnext] at hrest
          exact ⟨b, pcb, hb, hrest⟩
      · cases h

/-- **Whatever the files say**: if the simulation starts, each process has the path and the program
that `load` makes of its file, and the processes are numbered from 1 on. -/
theorem boot_processes {files : CStr → Option (List Byte)} {arg : CStr} {cfg : KernelConfig}
    (h : boot files arg = .returned cfg) : ∀ p, ∃ name pcb, FromFile files cfg p name pcb := by
  simp only [boot] at h
  split_ifs at h
  obtain ⟨c, hc, h⟩ := Loaded.bind_eq_returned h
  obtain ⟨procs, hprocs, h⟩ := Loaded.bind_eq_returned h
  obtain rfl := Loaded.returned.inj h
  have hwf := readConfig_wellFormed hc
  obtain ⟨hlen, hall⟩ := loadProcs_returned hprocs
  intro p
  obtain ⟨a, pcb, ha, hload, hpid, hpath, htext⟩ :=
    hall p procs[p] (List.getElem?_eq_getElem p.isLt)
  obtain ⟨name, hname, -, hblank⟩ := hwf.path a (List.mem_of_getElem? ha)
  have hnumber : 1 + BitVec.ofNat 32 p = BitVec.ofNat 32 (p + 1) := by
    rw [BitVec.add_comm, BitVec.ofNat_add]
    rfl
  rw [hnumber] at hload hpid
  rw [hname] at hload
  refine ⟨name, pcb, ⟨hblank, hload, ?_, hpath, htext⟩⟩
  have hlt : (p : ℕ) < procs.length := p.isLt
  have hcount := hwf.count
  have hint := BitVec.toInt_lt (x := c.numProcesses)
  rw [hpid, BitVec.toNat_ofNat]
  exact Nat.mod_eq_of_lt (by omega)

/-- So each of the two processes comes from its file. -/
theorem boot_processes_schedZero : ∃ cfg, boot schedFiles (cstr "sched_0") = .returned cfg ∧
    ∀ p, ∃ name pcb, FromFile schedFiles cfg p name pcb := by
  obtain ⟨cfg, hcfg⟩ : ∃ cfg, boot schedFiles (cstr "sched_0") = .returned cfg := by
    have hfiles : ∀ p ∈ schedProcs,
        schedFiles (readConfigPath p.proc) = some (printProgram p.priority p.text) := by
      decide +kernel
    have hnumbered := loadProcs_printed hfiles 1
    have hconfig : readConfig (schedFiles (cstr "input/" ++ cstr "sched_0")) =
        .returned schedZero.file := by
      decide +kernel
    refine ⟨kernelConfig schedZero.file (numbered 1 schedProcs), ?_⟩
    rw [boot, if_pos (by decide), hconfig, Loaded.bind]
    exact congrArg (Loaded.bind · _) hnumbered
  exact ⟨cfg, hcfg, boot_processes hcfg⟩

end OsSim
