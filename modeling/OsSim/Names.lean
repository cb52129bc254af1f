import OsSim.Killall
import OsSim.MemInv

/-!
# Names of Programs

The way of a program's name to the comparison in `__sys_killall`. On one side `read_config` puts
`input/proc/` before it, and `load` copies the result to `proc->path` by an `snprintf` whose bound
is `2*sizeof(path)+1`. There `path` is a pointer of 8 bytes, so that 16 characters remain: the
directory and five characters of the name. On the other side `__sys_killall` reads the name from a
region, up to a byte -1, and nobody puts the directory before it.

## The two sides

`procPath` is the first side, a function of the configured name. The second side depends on the
memory of the caller: `readNameLoop` is the loop over `libread`, which stores into `proc_name` of
100 characters, and ends at the word -1. `Spells` says that reading the region byte after byte
delivers the bytes of the name and the byte -1; each of these reads may bring a page in, so it is
stated along the systems that the reads leave behind. A region whose pages are resident spells what
is stored there (`spells_of_resident`).

The two sides are the same string in a few odd cases only. A name that begins with the directory
spells the path of the process whose name follows it, and there is one name that spells its own
path, `input/proc/input`, as the path keeps five characters of it.

## Main results

* `spells_of_resident`: a region whose pages are resident spells the bytes stored there.
* `readName_of_spells`: what `__sys_killall` reads.
* `killName_iff`: **for which pairs of names the comparison tells whether they are the same**.
* `killName_fails`: the program `sc2`, which kills by the name `P0`.
-/

namespace OsSim

variable {ι : Type} [DecidableEq ι]

/-! ### From the configuration to the process -/

/-- The directory that `read_config` puts before the names of programs. -/
def procDir : CStr := cstr "input/proc/"

/-- `isspace` in the C locale: a blank, or one of the characters 9 to 13. -/
def isSpace (c : BitVec 8) : Bool := c = 32 ∨ (9 ≤ c ∧ c ≤ 13)

/-- A name that `fscanf` reads by `%s`, and that fits with the directory into the 100 characters of
`ld_processes.path`. -/
@[ext]
structure ProgName where
  chars : CStr
  ne_nil : chars ≠ []
  no_blank : ∀ c ∈ chars, isSpace c = false
  no_nul : 0 ∉ chars
  fits : (procDir ++ chars).length ≤ 99

/-- `ld_processes.path` for the name: two calls of `strcat`. -/
def readConfigPath (proc : ProgName) : CStr := procDir ++ proc.chars

/-- What `snprintf` with the format `%s` leaves in a buffer for `n` characters. -/
def snprintf (n : ℕ) (s : CStr) : CStr := s.take (n - 1)

/-- `sizeof(path)` in `load`, where `path` is a parameter. -/
def sizeofPath : ℕ := 8

/-- `proc->path` after `load`: the bound of `snprintf` leaves 16 characters of the path. -/
def loadPath (path : CStr) : CStr := snprintf (2 * sizeofPath + 1) path

/-- `proc->path` of the process that `load` makes for a configured program. -/
def procPath (t : ProgName) : CStr := loadPath (readConfigPath t)

/-- The path of a process is the directory and five characters of the program's name. -/
theorem procPath_eq (t : ProgName) : procPath t = procDir ++ t.chars.take 5 := by
  have hlen : procDir.length = 11 := rfl
  rw [procPath, loadPath, snprintf, readConfigPath, sizeofPath, List.take_append, hlen,
    List.take_of_length_le (by omega)]

/-! ### From the region to the caller -/

/-- The loop of `__sys_killall` that reads the name, from character `i` on, with `room` characters
left in `proc_name`: the characters it puts there, and the system. Writing beyond `proc_name` is
undefined. -/
def readNameLoop (caller : ι) (memrg : BitVec 32) :
    ℕ → Sys ι → ℕ → BitVec 32 → Option (List Byte × Sys ι)
  | 0, _, _, _ => none
  | room + 1, s, i, data => do
      let r ← libread s caller memrg (BitVec.ofNat 32 i)
      let data := r.2.1.getD data
      if data = -1 then return ([0], r.2.2)
      else
        let rest ← readNameLoop caller memrg room r.2.2 (i + 1) data
        return (data.setWidth 8 :: rest.1, rest.2)

/-- The string in a buffer: its characters up to the first 0. -/
def bufferStr (buf : List Byte) : CStr := buf.takeWhile (· ≠ 0)

/-- The name `__sys_killall` reads, and the system after it. -/
def readName (s : Sys ι) (caller : ι) (memrg : BitVec 32) : Option (CStr × Sys ι) :=
  (readNameLoop caller memrg 100 s 0 0).map fun r => (bufferStr r.1, r.2)

/-- Region `memrg` spells these bytes from offset `i` on: reading them one after the other delivers
them. -/
def Spells (p : ι) (memrg : BitVec 32) : Sys ι → ℕ → List Byte → Prop
  | _, _, [] => True
  | s, i, b :: bs => ∃ s',
      libread s p memrg (BitVec.ofNat 32 i) = some (0, some (b.signExtend 32), s') ∧
        Spells p memrg s' (i + 1) bs

instance decidableSpells (p : ι) (memrg : BitVec 32) :
    (s : Sys ι) → (i : ℕ) → (bs : List Byte) → Decidable (Spells p memrg s i bs)
  | _, _, [] => .isTrue trivial
  | s, i, b :: bs =>
      match h : libread s p memrg (BitVec.ofNat 32 i) with
      | none => .isFalse (by simp [Spells, h])
      | some (val, data, s') =>
          have : Decidable (Spells p memrg s' (i + 1) bs) := decidableSpells p memrg s' (i + 1) bs
          decidable_of_iff ((val = 0 ∧ data = some (b.signExtend 32)) ∧
            Spells p memrg s' (i + 1) bs) (by simp [Spells, h, and_assoc])

/-- A region whose pages are resident spells the bytes that are stored there. -/
theorem spells_of_resident {s : Sys ι} (hs : MemInv s) {p : ι} {memrg : BitVec 32} {i : ℕ}
    {bs : List Byte}
    (h : ∀ j (hj : j < bs.length), ∃ a,
      s.accessAddr p memrg (BitVec.ofNat 32 (i + j)) = some a ∧ s.ResidentAt p (pagingPgn a) ∧
        s.mram.storage (s.phyAddr p a) = bs[j]) : Spells p memrg s i bs := by
  induction bs generalizing i with
  | nil => exact trivial
  | cons b bs ih =>
      obtain ⟨a, ha, hres, hbyte⟩ := h 0 (by simp)
      obtain ⟨s₁, hread, -, -, -, hsame⟩ := hs.read ha (Or.inl hres)
      obtain rfl : s₁ = s := hsame hres
      rw [hbyte] at hread
      refine ⟨s₁, hread, ih ?_⟩
      intro j hj
      obtain ⟨a, ha, hrest⟩ := h (j + 1) (by simpa using hj)
      refine ⟨a, ?_, hrest⟩
      rw [← ha]
      congr 2
      omega

/-- Only the byte -1 reads as the word -1. -/
theorem signExtend_eq_neg_one (b : Byte) : b.signExtend 32 = -1 ↔ b = 255 := by
  revert b
  decide +kernel

/-- One character of the loop: a byte -1 ends the string, and any other goes into the buffer. -/
theorem readNameLoop_succ {caller : ι} {memrg : BitVec 32} {s s' : Sys ι} {i : ℕ} {b : Byte}
    (hread : libread s caller memrg (BitVec.ofNat 32 i) = some (0, some (b.signExtend 32), s'))
    (room : ℕ) (data : BitVec 32) :
    readNameLoop caller memrg (room + 1) s i data =
      if b = 255 then some ([0], s')
      else (readNameLoop caller memrg room s' (i + 1) (b.signExtend 32)).map
        fun r => (b :: r.1, r.2) := by
  rw [readNameLoop, hread]
  simp only [Option.bind_eq_bind, Option.bind_some, Option.getD_some, signExtend_eq_neg_one,
    setWidth_signExtend]
  split_ifs
  · rfl
  · rw [Option.map_eq_bind]
    rfl

/-- The bytes the loop puts into `proc_name`. -/
theorem readNameLoop_of_spells {caller : ι} {memrg : BitVec 32} {room : ℕ} {s : Sys ι} {i : ℕ}
    (data : BitVec 32) {bs : List Byte} (hroom : bs.length < room)
    (h : Spells caller memrg s i (bs ++ [255])) :
    ∃ s', readNameLoop caller memrg room s i data =
      some (bs.takeWhile (· ≠ 255) ++ [0], s') := by
  obtain ⟨room, rfl⟩ : ∃ n, room = n + 1 := ⟨room - 1, by omega⟩
  induction bs generalizing room s i data with
  | nil =>
      obtain ⟨s', hread, -⟩ := h
      exact ⟨s', by rw [readNameLoop_succ hread, if_pos rfl, List.takeWhile_nil, List.nil_append]⟩
  | cons b bs ih =>
      obtain ⟨s', hread, hrest⟩ := h
      by_cases hb : b = 255
      · refine ⟨s', ?_⟩
        rw [readNameLoop_succ hread, if_pos hb, List.takeWhile_cons_of_neg (by simpa using hb),
          List.nil_append]
      · obtain ⟨n, rfl⟩ : ∃ n, room = n + 1 := ⟨room - 1, by simp at hroom; omega⟩
        obtain ⟨s'', hloop⟩ := ih (b.signExtend 32) hrest n (by simpa using hroom)
        refine ⟨s'', ?_⟩
        rw [readNameLoop_succ hread, if_neg hb, hloop,
          List.takeWhile_cons_of_pos (by simpa using hb)]
        rfl

/-- The name up to its first byte -1: what there is of it in `proc_name`. -/
def ProgName.upToEnd (s : ProgName) : CStr := s.chars.takeWhile (· ≠ 255)

/-- **What `__sys_killall` reads** from a region that spells a name and the byte -1. -/
theorem readName_of_spells {sys : Sys ι} {caller : ι} {memrg : BitVec 32} {s : ProgName}
    (h : Spells caller memrg sys 0 (s.chars ++ [255])) :
    ∃ sys', readName sys caller memrg = some (s.upToEnd, sys') := by
  have hlen : s.chars.length < 100 := by
    have hfits := s.fits
    rw [List.length_append] at hfits
    omega
  obtain ⟨sys', hloop⟩ := readNameLoop_of_spells 0 hlen h
  refine ⟨sys', ?_⟩
  have hnul : ∀ c ∈ s.chars.takeWhile (· ≠ 255), decide (c ≠ 0) = true := by
    intro c hc
    have hmem := (List.takeWhile_prefix _).subset hc
    exact decide_eq_true (ne_of_mem_of_not_mem hmem s.no_nul)
  rw [readName, hloop, Option.map_some, bufferStr, List.takeWhile_append_of_pos hnul]
  simp [ProgName.upToEnd]

/-! ### The comparison -/

variable {α : Type} {path : α → CStr} {name : CStr} {proc : α}

/-- `__sys_killall` compares the path of the process with the name, and nothing else. -/
theorem victim_iff : victim path name (some proc) = some proc ↔ path proc = name := by
  simp [victim, Option.filter_some]

/-- The pairs that the comparison gets right: names that are the same, and spell the path of the
process; or names that are not, and do not spell it. -/
def ProgName.Distinguished (s t : ProgName) : Prop :=
  s = t ∧ s.upToEnd = cstr "input/proc/input" ∨
    s ≠ t ∧ s.upToEnd ≠ procDir ++ t.chars.take 5

/-- A name can spell its own path only if the path is `input/proc/input`. -/
theorem ProgName.upToEnd_eq_path_iff (s : ProgName) :
    s.upToEnd = procDir ++ s.chars.take 5 ↔ s.upToEnd = cstr "input/proc/input" := by
  have hpath : cstr "input/proc/input" = procDir ++ procDir.take 5 := rfl
  have hprefix (h : procDir <+: s.upToEnd) : s.chars.take 5 = procDir.take 5 := by
    obtain ⟨rest, hrest⟩ := h.trans (List.takeWhile_prefix _)
    rw [← hrest, List.take_append_of_le_length (by decide)]
  rw [hpath]
  constructor
  · intro h
    rw [h, hprefix (h ▸ List.prefix_append _ _)]
  · intro h
    rw [h, hprefix (h ▸ List.prefix_append _ _)]

/-- **The comparison in `__sys_killall`**, of a process that `read_config` and `load` made from
`t`, by a caller whose region spells `s` and the byte -1, matches if and only if `s = t` for just
these pairs of names. -/
theorem killName_iff {s t : ProgName} (hpath : path proc = procPath t)
    {sys : Sys ι} {caller : ι} {memrg : BitVec 32}
    (hspells : Spells caller memrg sys 0 (s.chars ++ [255])) :
    ∃ name sys', readName sys caller memrg = some (name, sys') ∧
      ((victim path name (some proc) = some proc ↔ s = t) ↔ s.Distinguished t) := by
  obtain ⟨sys', hname⟩ := readName_of_spells hspells
  refine ⟨s.upToEnd, sys', hname, ?_⟩
  rw [victim_iff, hpath, procPath_eq, ProgName.Distinguished]
  by_cases hst : s = t
  · subst hst
    rw [← s.upToEnd_eq_path_iff]
    simp [eq_comm]
  · simp [hst, eq_comm]

/-! ### The program `sc2` -/

/-- `sc2` up to its system call: it writes `P0`, and -1 after it, into region 1. -/
def scTwo : List Inst := [.alloc 100 1, .write 80 1 0, .write 48 1 1, .write (-1) 1 2]

/-- Running it alone, on eight frames of RAM. -/
def runScTwo : Option (Sys Unit) :=
  scTwo.foldlM (fun s inst => (run s () inst).map Prod.snd) (bootSys 2048 fun _ => 4096)

/-- The name it writes. -/
def pZero : ProgName where
  chars := cstr "P0"
  ne_nil := by decide
  no_blank := by decide
  no_nul := by decide
  fits := by decide

/-- After it the region spells the name and the byte -1. -/
theorem spells_runScTwo : ∃ sys : Sys Unit, runScTwo = some sys ∧
    Spells () 1 sys 0 (pZero.chars ++ [255]) := by
  have hstate : runScTwo.map (fun sys => decide (Spells () 1 sys 0 (pZero.chars ++ [255]))) =
      some true := by
    decide +kernel
  obtain ⟨sys, hsys, hdecide⟩ := Option.map_eq_some_iff.mp hstate
  exact ⟨sys, hsys, of_decide_eq_true hdecide⟩

/-- A program of that name is not killed by `sc2`: its path has the directory before the name. -/
theorem killName_fails : ∃ sys : Sys Unit, runScTwo = some sys ∧
    Spells () 1 sys 0 (pZero.chars ++ [255]) ∧
    ∃ name sys', readName sys () 1 = some (name, sys') ∧
      ¬(victim procPath name (some pZero) = some pZero ↔
        pZero = pZero) := by
  obtain ⟨sys, hsys, hspells⟩ := spells_runScTwo
  obtain ⟨sys', hname⟩ := readName_of_spells hspells
  refine ⟨sys, hsys, hspells, _, sys', hname, ?_⟩
  intro hiff
  have hpath : procPath pZero = pZero.upToEnd := victim_iff.mp (hiff.mpr rfl)
  exact absurd hpath (by decide)

/-- The pair of the name `P0` and a program of this name, which `sc2` asks about. -/
theorem killName_iff_scTwo : ∃ sys : Sys Unit, runScTwo = some sys ∧
    ∃ name sys', readName sys () 1 = some (name, sys') ∧
      ((victim procPath name (some pZero) = some pZero ↔
        pZero = pZero) ↔ pZero.Distinguished pZero) := by
  obtain ⟨sys, hsys, hspells⟩ := spells_runScTwo
  exact ⟨sys, hsys, killName_iff rfl hspells⟩

end OsSim
