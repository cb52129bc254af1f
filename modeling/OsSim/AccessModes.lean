import OsSim.Memphy

/-!
# Both Access Modes of a Device

A device should store bytes whether it is a random-access device or a sequential one.
`MEMPHY_read` and `MEMPHY_write` hand the calls for a sequential device on to `MEMPHY_seq_read` and
`MEMPHY_seq_write`, which refuse just these devices: their test of `rdmflg` is the wrong way round.

## How the argument goes

What a device should do is said without looking at the code: a call outside the range is refused and
changes nothing, and a read inside it delivers the byte last written there, 0 if none was
(`FaithfulCall`). `FaithfulCalls` asks this of every call of a sequence, each on the device that the
calls before it leave.

A call is one of three. Outside the range it is refused in both modes (`call_of_outside`); inside it
a random-access device makes it (`call_of_random`), and a sequential one refuses it
(`call_of_sequential`). The bytes of a random-access device are those last written, by induction
over the calls (`callsDo_storage`). So a sequential device is faithful to the sequences of calls
none of which is inside its range, and to no others.

## Main results

* `callsDo_storage`: the bytes of a random-access device are those last written.
* `faithfulCalls_iff`: **a device is faithful exactly when it is a random-access device**, or never
  called inside its range.
* `faithfulCalls_fails`: the write of one byte to a sequential device.
-/

namespace OsSim

variable {ι : Type}

/-! ### Calls -/

/-- A call of `MEMPHY_read` or `MEMPHY_write`. -/
inductive MemphyCall where
  | read (addr : ℤ)
  | write (addr : ℤ) (data : Byte)
  deriving DecidableEq, Repr

namespace MemphyCall

/-- The address of a call. -/
def addr : MemphyCall → ℤ
  | read addr => addr
  | write addr _ => addr

/-- What the bytes of a device should be after the call. -/
def store (storage : ℕ → Byte) : MemphyCall → ℕ → Byte
  | read _ => storage
  | write addr data => Function.update storage addr.toNat data

/-- The byte at `addr`, when it was `b` before the call. -/
def byteAfter (addr : ℤ) (b : Byte) : MemphyCall → Byte
  | read _ => b
  | write addr' data => if addr' = addr then data else b

end MemphyCall

/-- The byte last written to `addr`, 0 if none was. -/
def lastWritten (addr : ℤ) (calls : List MemphyCall) : Byte :=
  calls.foldl (MemphyCall.byteAfter addr) 0

/-- What a call returns: the code and the byte stored through `value`, if any. -/
structure MemphyRet where
  code : ℤ
  value : Option Byte
  deriving DecidableEq, Repr

namespace Memphy

/-- What a call returns, and the device after it; a refused call leaves it as it is. -/
def call (mp : Memphy ι) : MemphyCall → MemphyRet × Memphy ι
  | .read addr =>
      match memphyRead mp addr with
      | some r => (⟨0, some r.1⟩, r.2)
      | none => (⟨-1, none⟩, mp)
  | .write addr data =>
      match memphyWrite mp addr data with
      | some mp' => (⟨0, none⟩, mp')
      | none => (⟨-1, none⟩, mp)

/-- A device after some calls, first to last. -/
def callsDo (mp : Memphy ι) (calls : List MemphyCall) : Memphy ι :=
  calls.foldl (fun mp c => (mp.call c).2) mp

/-- The address is one of the device. -/
def Inside (mp : Memphy ι) (addr : ℤ) : Prop := 0 ≤ addr ∧ addr < mp.maxsz

instance (mp : Memphy ι) (addr : ℤ) : Decidable (mp.Inside addr) :=
  inferInstanceAs (Decidable (_ ∧ _))

variable {mp : Memphy ι} {c : MemphyCall}

/-- A call outside the range is refused. -/
theorem call_of_outside (h : ¬ mp.Inside c.addr) : mp.call c = (⟨-1, none⟩, mp) := by
  have hrange : c.addr < 0 ∨ c.addr ≥ mp.maxsz := by
    rw [Inside, not_and_or] at h
    omega
  cases c with
  | read addr =>
      have hrange : addr < 0 ∨ addr ≥ mp.maxsz := hrange
      simp only [call, memphyRead, if_pos hrange]
  | write addr data =>
      have hrange : addr < 0 ∨ addr ≥ mp.maxsz := hrange
      simp only [call, memphyWrite, if_pos hrange]

/-- A sequential device refuses every call. -/
theorem call_of_sequential (h : mp.rdmflg = false) (c : MemphyCall) :
    mp.call c = (⟨-1, none⟩, mp) := by
  cases c with
  | read addr => simp [call, memphyRead, memphySeqRead, h]
  | write addr data => simp [call, memphyWrite, memphySeqWrite, h]

/-- A random-access device does what it is called for. -/
theorem call_of_random (hr : mp.rdmflg = true) (h : mp.Inside c.addr) :
    (mp.call c).1.code = 0 ∧ (∀ addr, c = .read addr →
      (mp.call c).1.value = some (mp.storage addr.toNat)) ∧
      (mp.call c).2 = { mp with storage := c.store mp.storage } := by
  obtain ⟨h0, hlt⟩ := h
  cases c with
  | read addr =>
      have heq : mp.call (.read addr) = (⟨0, some (mp.storage addr.toNat)⟩, mp) := by
        simp only [call, memphyRead_of_mem hr (show 0 ≤ addr from h0) hlt]
      rw [heq]
      refine ⟨rfl, ?_, rfl⟩
      rintro addr' ⟨⟩
      rfl
  | write addr data =>
      have heq : mp.call (.write addr data) = (⟨0, none⟩, mp.setCell addr.toNat data) := by
        simp only [call, memphyWrite_of_mem hr (show 0 ≤ addr from h0) hlt]
      rw [heq]
      refine ⟨rfl, ?_, rfl⟩
      rintro addr' ⟨⟩

/-- A call changes at most the bytes and the cursor. -/
theorem sameShape_call (mp : Memphy ι) (c : MemphyCall) : mp.SameShape (mp.call c).2 := by
  by_cases h : mp.Inside c.addr
  · cases hr : mp.rdmflg with
    | false =>
        rw [call_of_sequential hr]
        exact SameShape.refl mp
    | true =>
        rw [(call_of_random hr h).2.2]
        exact ⟨rfl, rfl, rfl, rfl⟩
  · rw [call_of_outside h]
    exact SameShape.refl mp

/-- One call more, on the device that the calls before it leave. -/
theorem callsDo_concat (mp : Memphy ι) (calls : List MemphyCall) (c : MemphyCall) :
    mp.callsDo (calls ++ [c]) = ((mp.callsDo calls).call c).2 := by
  rw [callsDo, List.foldl_concat]
  rfl

/-- Calls change at most the bytes and the cursor. -/
theorem sameShape_callsDo (mp : Memphy ι) (calls : List MemphyCall) :
    mp.SameShape (mp.callsDo calls) := by
  induction calls using List.reverseRecOn with
  | nil => exact SameShape.refl mp
  | append_singleton calls c ih =>
      rw [callsDo_concat]
      exact ih.trans (sameShape_call _ c)

/-- **The bytes of a random-access device** after some calls are those last written. -/
theorem callsDo_storage (hr : mp.rdmflg = true) (hzero : ∀ a, mp.storage a = 0)
    (calls : List MemphyCall) {addr : ℤ} (h : mp.Inside addr) :
    (mp.callsDo calls).storage addr.toNat = lastWritten addr calls := by
  induction calls using List.reverseRecOn with
  | nil => exact hzero _
  | append_singleton calls c ih =>
      have hshape := sameShape_callsDo mp calls
      rw [callsDo_concat, lastWritten, List.foldl_concat, ← lastWritten, ← ih]
      by_cases hc : (mp.callsDo calls).Inside c.addr
      · rw [(call_of_random (hshape.rdmflg.trans hr) hc).2.2]
        cases c with
        | read addr' => rfl
        | write addr' data =>
            simp only [MemphyCall.store, MemphyCall.byteAfter]
            by_cases heq : addr' = addr
            · subst heq
              rw [if_pos rfl, Function.update_self]
            · have hne : addr.toNat ≠ addr'.toNat := by
                have h0 : 0 ≤ addr' := hc.1
                have h0' : 0 ≤ addr := h.1
                omega
              rw [if_neg heq, Function.update_of_ne hne]
      · -- a refused write was for another address
        rw [call_of_outside hc]
        cases c with
        | read addr' => rfl
        | write addr' data =>
            have hne : addr' ≠ addr := by
              rintro rfl
              exact hc ⟨h.1, hshape.maxsz ▸ h.2⟩
            rw [MemphyCall.byteAfter, if_neg hne]

end Memphy

/-! ### Faithful devices -/

/-- Call `c` does what it should on a device after the calls `calls`. -/
structure FaithfulCall (mp : Memphy ι) (calls : List MemphyCall) (c : MemphyCall) : Prop where
  outside : ¬ mp.Inside c.addr → mp.call c = (⟨-1, none⟩, mp)
  code : mp.Inside c.addr → (mp.call c).1.code = 0
  value : ∀ addr, c = .read addr → mp.Inside addr →
    (mp.call c).1.value = some (lastWritten addr calls)
  storage : mp.Inside c.addr → (mp.call c).2.storage = c.store mp.storage
  shape : mp.SameShape (mp.call c).2
  cursor : mp.Inside c.addr → (mp.call c).2.cursor = if mp.rdmflg then mp.cursor else c.addr

/-- Every call of the sequence does what it should, on a device that `init_memphy` made. -/
def FaithfulCalls (ι : Type) (maxSize : BitVec 32) (randomflg : Bool) (calls : List MemphyCall) :
    Prop :=
  ∀ pre c post, calls = pre ++ c :: post →
    FaithfulCall ((initMemphy maxSize randomflg : Memphy ι).callsDo pre) pre c

namespace FaithfulCall

variable {mp : Memphy ι} {calls : List MemphyCall} {c : MemphyCall}

/-- A call outside the range does what it should, in both modes. -/
theorem of_outside (h : ¬ mp.Inside c.addr) : FaithfulCall mp calls c where
  outside := Memphy.call_of_outside
  code hin := absurd hin h
  value addr heq hin := by
    subst heq
    exact absurd hin h
  storage hin := absurd hin h
  shape := Memphy.sameShape_call mp c
  cursor hin := absurd hin h

/-- A random-access device whose bytes are those last written does what it should. -/
theorem of_random (hr : mp.rdmflg = true)
    (hlast : ∀ addr, mp.Inside addr → mp.storage addr.toNat = lastWritten addr calls) :
    FaithfulCall mp calls c where
  outside := Memphy.call_of_outside
  code hin := (Memphy.call_of_random hr hin).1
  value addr heq hin := by
    subst heq
    have hval := (Memphy.call_of_random (c := MemphyCall.read addr) hr hin).2.1 addr rfl
    rw [hval, hlast addr hin]
  storage hin := by rw [(Memphy.call_of_random hr hin).2.2]
  shape := Memphy.sameShape_call mp c
  cursor hin := by
    rw [(Memphy.call_of_random hr hin).2.2, if_pos hr]

end FaithfulCall

/-- **A device is faithful exactly when it is a random-access device**, or never called inside its
range. -/
theorem faithfulCalls_iff (maxSize : BitVec 32) (randomflg : Bool) (calls : List MemphyCall) :
    FaithfulCalls ι maxSize randomflg calls ↔
      randomflg = true ∨ ∀ c ∈ calls, ¬(0 ≤ c.addr ∧ c.addr < maxSize.toInt) := by
  have hflg : (initMemphy maxSize randomflg : Memphy ι).rdmflg = randomflg := by
    rw [initMemphy_eq]
  have hmax : (initMemphy maxSize randomflg : Memphy ι).maxsz = maxSize.toInt := by
    rw [initMemphy_eq]
  have hzero : ∀ a, (initMemphy maxSize randomflg : Memphy ι).storage a = 0 := by
    rw [initMemphy_eq]
    exact fun _ => rfl
  rw [FaithfulCalls]
  generalize (initMemphy maxSize randomflg : Memphy ι) = mp at hflg hmax hzero
  constructor
  · intro hfaith
    rw [or_iff_not_imp_left, Bool.not_eq_true]
    intro hr c hc hin
    obtain ⟨pre, post, heq⟩ := List.append_of_mem hc
    have hshape := Memphy.sameShape_callsDo mp pre
    have hcode := (hfaith pre c post heq).code ⟨hin.1, by rw [hshape.maxsz, hmax]; exact hin.2⟩
    rw [Memphy.call_of_sequential (hshape.rdmflg.trans (hflg.trans hr))] at hcode
    exact absurd hcode (show (-1 : ℤ) ≠ 0 by omega)
  · rintro (hr | hout) pre c post heq
    · have hshape := Memphy.sameShape_callsDo mp pre
      refine FaithfulCall.of_random (hshape.rdmflg.trans (hflg.trans hr)) ?_
      intro addr hin
      exact Memphy.callsDo_storage (hflg.trans hr) hzero pre ⟨hin.1, hshape.maxsz ▸ hin.2⟩
    · have hshape := Memphy.sameShape_callsDo mp pre
      refine FaithfulCall.of_outside fun hin => hout c (by simp [heq]) ⟨hin.1, ?_⟩
      rw [← hmax, ← hshape.maxsz]
      exact hin.2

/-- The write of a byte to address 0 of a sequential device of 256 bytes is refused. -/
theorem faithfulCalls_fails : ¬ FaithfulCalls Unit 256 false [.write 0 7] := by
  intro hfaith
  have hin : (initMemphy 256 false : Memphy Unit).Inside 0 := by
    rw [initMemphy_eq]
    exact ⟨le_refl _, show (0 : ℤ) < BitVec.toInt 256#32 by decide⟩
  have hcode := (hfaith [] (.write 0 7) [] rfl).code hin
  rw [Memphy.call_of_sequential (by rfl)] at hcode
  exact absurd hcode (show (-1 : ℤ) ≠ 0 by omega)

end OsSim
