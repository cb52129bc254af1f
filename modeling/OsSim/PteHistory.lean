import OsSim.Pte

/-!
# The History of a Page-Table Entry

An entry is set over and over again, to a RAM frame by `pte_set_fpn` and to a swap frame by
`pte_set_swap`. The two encodings share bits, and a call leaves what it does not set as it was. Yet
the entry always tells the last setting: SWAPPED says which encoding to read, and each call sets
all bits of its own.

## How the argument goes

One call on any entry leaves an entry that tells the call (`setIn_apply`), whatever was there, so
the last of a sequence decides, and what came before it does not matter. Bits 26 to 29 are in no
field and are no flag: no call sets them, and by induction over the calls they stay as they were at
the start (`applyAll_getLsbD`).

The arguments are those that fit into their fields. A frame number that does not fit loses its upper
bits, which is the subject of `Representable`.

## Main results

* `setIn_apply`: one call is told by the entry, whatever it was before.
* `applyAll_getLsbD`: the bits between the two encodings are never set.
* `keepsLast_applyAll`: **after any calls, an entry tells the last one**.
-/

namespace OsSim

/-- A call of `pte_set_fpn` or `pte_set_swap` with arguments that fit into their fields. -/
inductive PteCall where
  | setFpn (fpn : Fin 8192)
  | setSwap (swptyp : Fin 32) (swpoff : Fin 2097152)
  deriving DecidableEq, Repr

namespace PteCall

/-- An entry after one call, whatever it was before. -/
def apply (pte : BitVec 32) : PteCall → BitVec 32
  | setFpn fpn => pteSetFpn pte fpn
  | setSwap swptyp swpoff => pteSetSwap pte swptyp swpoff

/-- An entry after some calls, first to last. -/
def applyAll (pte : BitVec 32) (calls : List PteCall) : BitVec 32 := calls.foldl apply pte

/-- The entry says what the call has set, in all fields of its encoding. -/
def SetIn (pte : BitVec 32) : PteCall → Prop
  | setFpn fpn =>
      pagingPageSwapped pte = false ∧ pagingPagePresent pte = true ∧ pagingFpn pte = fpn
  | setSwap swptyp swpoff =>
      pagingPageSwapped pte = true ∧ pagingSwptyp pte = swptyp ∧ pagingPteSwp pte = swpoff

/-! ### One call -/

/-- A call is told by the entry, whatever it was before. -/
theorem setIn_apply (pte : BitVec 32) (c : PteCall) : c.SetIn (apply pte c) := by
  cases c with
  | setFpn fpn =>
      exact ⟨pagingPageSwapped_pteSetFpn pte fpn, pagingPagePresent_pteSetFpn pte fpn,
        pagingFpn_pteSetFpn pte fpn.isLt⟩
  | setSwap swptyp swpoff =>
      exact ⟨pagingPageSwapped_pteSetSwap pte swptyp swpoff,
        pagingSwptyp_pteSetSwap pte swpoff swptyp.isLt,
        pagingPteSwp_pteSetSwap pte swptyp swpoff.isLt⟩

/-- No call sets a bit between the fields and the two flags. -/
theorem getLsbD_apply (pte : BitVec 32) (c : PteCall) {i : ℕ} (hlo : 26 ≤ i) (hhi : i ≤ 29) :
    (apply pte c).getLsbD i = pte.getLsbD i := by
  have hpresent : decide (31 = i) = false := decide_eq_false (by omega)
  have hswapped : decide (30 = i) = false := decide_eq_false (by omega)
  cases c with
  | setFpn fpn =>
      rw [apply, getLsbD_pteSetFpn pte fpn (by omega) (by omega), hpresent, hswapped,
        Bool.or_false, Bool.not_false, Bool.and_true]
  | setSwap swptyp swpoff =>
      rw [apply, getLsbD_pteSetSwap pte swptyp swpoff hlo (by omega), hpresent, hswapped,
        Bool.or_false, Bool.or_false]

/-! ### Any calls -/

/-- The last of the calls comes last. -/
theorem applyAll_concat (pte : BitVec 32) (calls : List PteCall) (last : PteCall) :
    applyAll pte (calls ++ [last]) = apply (applyAll pte calls) last := by
  rw [applyAll, List.foldl_concat, applyAll]

/-- The bits between the fields and the two flags stay as they were at the start. -/
theorem applyAll_getLsbD (pte : BitVec 32) (calls : List PteCall) {i : ℕ} (hlo : 26 ≤ i)
    (hhi : i ≤ 29) : (applyAll pte calls).getLsbD i = pte.getLsbD i := by
  induction calls generalizing pte with
  | nil => rfl
  | cons c calls ih => exact (ih (apply pte c)).trans (getLsbD_apply pte c hlo hhi)

end PteCall

/-- The entry tells the call `last`, and its bits 26 to 29 are those of `start`. -/
structure KeepsLast (start pte : BitVec 32) (last : PteCall) : Prop where
  setting : last.SetIn pte
  kept : ∀ i, 26 ≤ i → i ≤ 29 → pte.getLsbD i = start.getLsbD i

/-- **After any calls, an entry tells the last one**, whatever it was at the start. -/
theorem keepsLast_applyAll (pte : BitVec 32) (calls : List PteCall) (last : PteCall) :
    KeepsLast pte (PteCall.applyAll pte (calls ++ [last])) last where
  setting := by
    rw [PteCall.applyAll_concat]
    exact PteCall.setIn_apply _ last
  kept _ hlo hhi := PteCall.applyAll_getLsbD pte (calls ++ [last]) hlo hhi

end OsSim
