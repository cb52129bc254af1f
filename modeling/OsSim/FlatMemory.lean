import OsSim.Runs

/-!
# Paged Memory and Flat Memory

What paging is for: each process should see one flat array of bytes. The abstract memory is a
partial function from addresses to bytes, and a run of the paged system refines it if its
events, label for label, are a run of the flat one. An evicted page keeps its PRESENT bit, so
an access to it is served from whatever frame its swap entry happens to spell; runs whose
accesses keep away from such pages refine flat memory.

Flat memory has no frames and no failures. It shows at each read the byte last written to that
address by the same process, and says nothing of addresses that were not written. The relation
between the two (`Holds`) is that every byte written lies in a mapped page, and is in the frame of
that page as long as the page is resident. The byte of an evicted page is not looked for: an access
to it is excluded, and it never comes back.

One instruction keeps the relation (`Holds.run`). If it stores nothing in RAM, the pages that are
resident afterwards have their old entries or are new, and no byte was written to a new one; if it
writes, the byte goes to the frame of its own address, and no other resident address of any process
has the same physical address (`MemInv.phyAddr_inj`). Addresses from 4 MB on are excluded, since
their page numbers wrap, so that two of them would share a byte.

## Main results

* `paged_simulates_flat`: the forward simulation between the two systems.
* `paged_refines_flat`: **runs that touch no evicted page refine flat memory**.
* `paged_not_flat`: a disciplined run of five calls that does not.
-/

namespace OsSim

open TransitionSystem

variable {ι : Type} [DecidableEq ι]

/-! ### Flat memory -/

/-- Flat memory: the byte last written to each address of each process. -/
abbrev Flat (ι : Type) : Type := ι → BitVec 32 → Option Byte

/-- The memory after an event: a write through an address stores its byte, and nothing else changes
any. -/
def flatNext (f : Flat ι) (e : Event ι) : Flat ι :=
  match e.inst, e.addr with
  | .write data _ _, some a =>
      Function.update f e.proc (Function.update (f e.proc) a (some (data.setWidth 8)))
  | _, _ => f

/-- What a read may show: the byte last written to its address, if there is one. -/
def FlatRead (f : Flat ι) (e : Event ι) : Prop :=
  ∀ source offset, e.inst = .read source offset → ∀ a, e.addr = some a →
    ∀ b, f e.proc a = some b → e.out = ⟨0, some (b.signExtend 32)⟩

/-- Flat memory as a system over the same events, of which it allows those whose reads show what
they should. -/
def flatMemory : TransitionSystem (Flat ι) (Event ι) where
  init f := f = fun _ _ => none
  step f e f' := FlatRead f e ∧ f' = flatNext f e

/-- Flat memory after a run is what its events make it. -/
theorem flatMemory_run {as : List (Event ι)} {f : Flat ι} (h : flatMemory.Run as f) :
    f = as.foldl flatNext fun _ _ => none := by
  induction h with
  | init h => exact h
  | step _ hst ih => rw [List.foldl_concat, ← ih, hst.2]

/-! ### The refinement -/

/-- An instruction that is safe (a growth maps pages that are not mapped yet, to frames that an
entry can hold; an access is to a resident page, or to one that was never mapped while there is a
page to evict), and that accesses an address inside the 4 MB that page numbers reach. -/
def FlatSafe (s : Sys ι) (e : Event ι) : Prop :=
  (s.start e).Safe e.proc e.inst ∧ ∀ a ∈ e.addr, a.toNat < 4194304

instance (s : Sys ι) (e : Event ι) : Decidable (FlatSafe s e) :=
  have : Decidable (∀ a ∈ e.addr, a.toNat < 4194304) := Option.decidableForallMem e.addr
  inferInstanceAs (Decidable (_ ∧ _))

/-- Flat memory `f` is what `s` holds: every byte written lies in a mapped page, and if the
page is resident, in its frame. -/
structure Holds (s : Sys ι) (f : Flat ι) : Prop where
  inv : MemInv s
  lt : ∀ p a b, f p a = some b → a.toNat < 4194304
  mapped : ∀ p a b, f p a = some b → pagingPagePresent ((s.mm p).pgd (pagingPgn a)) = true
  byte : ∀ p a b, f p a = some b → s.ResidentAt p (pagingPgn a) →
    s.mram.storage (s.phyAddr p a) = b

omit [DecidableEq ι] in
/-- Two resident addresses inside the 4 MB with one physical address are the same. -/
theorem MemInv.phyAddr_inj {s : Sys ι} (hs : MemInv s) {p q : ι} {a b : BitVec 32}
    (ha : a.toNat < 4194304) (hb : b.toNat < 4194304) (hp : s.ResidentAt p (pagingPgn a))
    (hq : s.ResidentAt q (pagingPgn b)) (heq : s.phyAddr p a = s.phyAddr q b) :
    p = q ∧ a = b := by
  rw [Sys.phyAddr, Sys.phyAddr, pagingPhyaddr_eq, pagingPhyaddr_eq, pagingOffst_eq,
    pagingOffst_eq] at heq
  obtain ⟨rfl, hpgn⟩ := hs.frames.inj p (pagingPgn a) q (pagingPgn b) hp hq (by omega)
  rw [hpgn] at heq
  rw [pagingPgn_eq, pagingPgn_eq] at hpgn
  exact ⟨rfl, BitVec.eq_of_toNat_eq (by omega)⟩

/-- A step that stores nothing keeps what is held: a page that is resident afterwards has its old
entry, or has no byte written to it. -/
theorem Holds.of_effect {s s' : Sys ι} {f : Flat ι} (h : Holds s f) {p : ι} (hinv : MemInv s')
    (heff : Effect s p s') (hst : s'.mram.storage = s.mram.storage) : Holds s' f := by
  have hpgd (q : ι) (a : BitVec 32) (b : Byte) (hb : f q a = some b)
      (hres : s'.ResidentAt q (pagingPgn a)) :
      (s'.mm q).pgd (pagingPgn a) = (s.mm q).pgd (pagingPgn a) := by
    by_cases hq : q = p
    · subst hq
      rcases heff.page _ hres with hold | habsent
      · exact hold
      · have := h.mapped q a b hb
        rw [habsent] at this
        exact absurd this Bool.false_ne_true
    · rw [heff.other q hq]
  refine ⟨hinv, h.lt, ?_, ?_⟩
  · intro q a b hb
    by_cases hq : q = p
    · subst hq
      exact heff.present _ (h.mapped q a b hb)
    · rw [heff.other q hq]
      exact h.mapped q a b hb
  · intro q a b hb hres
    have hold := hpgd q a b hb hres
    rw [Sys.ResidentAt, hold] at hres
    rw [hst, ← h.byte q a b hb hres, Sys.phyAddr, Sys.fpnAt, hold, Sys.phyAddr]

/-- A write through address `a` stores its byte and no other. -/
theorem Holds.write {s₁ s' : Sys ι} {f : Flat ι} (h : Holds s₁ f) {p : ι} {a : BitVec 32}
    {data : Byte} (ha : a.toNat < 4194304) (hres : s₁.ResidentAt p (pagingPgn a))
    (hs' : s' = { s₁ with mram := s₁.mram.setCell (s₁.phyAddr p a) data }) (hinv : MemInv s') :
    Holds s' (Function.update f p (Function.update (f p) a (some data))) := by
  have hphy (q : ι) (b : BitVec 32) : s'.phyAddr q b = s₁.phyAddr q b := by
    rw [hs']
    rfl
  have hmm (q : ι) : s'.mm q = s₁.mm q := by
    rw [hs']
    rfl
  have hst : s'.mram.storage = Function.update s₁.mram.storage (s₁.phyAddr p a) data := by
    rw [hs']
    rfl
  -- a byte held afterwards is the one written or was held before
  have hcases {q : ι} {b : BitVec 32} {d : Byte}
      (hb : Function.update f p (Function.update (f p) a (some data)) q b = some d) :
      (q = p ∧ b = a ∧ d = data) ∨ (f q b = some d ∧ ¬ (q = p ∧ b = a)) := by
    by_cases hq : q = p
    · subst hq
      rw [Function.update_self] at hb
      by_cases hba : b = a
      · subst hba
        rw [Function.update_self] at hb
        exact Or.inl ⟨rfl, rfl, (Option.some.inj hb).symm⟩
      · rw [Function.update_of_ne hba] at hb
        exact Or.inr ⟨hb, fun hand => hba hand.2⟩
    · rw [Function.update_of_ne hq] at hb
      exact Or.inr ⟨hb, fun hand => hq hand.1⟩
  refine ⟨hinv, ?_, ?_, ?_⟩
  · intro q b d hb
    rcases hcases hb with ⟨rfl, rfl, rfl⟩ | ⟨hold, -⟩
    · exact ha
    · exact h.lt q b d hold
  · intro q b d hb
    rw [hmm q]
    rcases hcases hb with ⟨rfl, rfl, rfl⟩ | ⟨hold, -⟩
    · exact hres.1
    · exact h.mapped q b d hold
  · intro q b d hb hresb
    rw [Sys.ResidentAt, hmm q] at hresb
    rw [hst, hphy]
    rcases hcases hb with ⟨rfl, rfl, rfl⟩ | ⟨hold, hne⟩
    · exact Function.update_self _ _ _
    · rw [Function.update_of_ne, h.byte q b d hold hresb]
      intro heq
      obtain ⟨rfl, rfl⟩ := h.inv.phyAddr_inj (h.lt q b d hold) ha hresb hres heq
      exact hne ⟨rfl, rfl⟩

/-- **One instruction**: what it shows is what flat memory allows, and the memories stay
together. -/
theorem Holds.run {s s' : Sys ι} {f : Flat ι} (h : Holds s f) {p : ι} (behind : VmRg)
    {inst : Inst} {out : Out} (hsafe : s.Safe p inst)
    (hlt : ∀ a, s.instAddr p inst = some a → a.toNat < 4194304)
    (hrun : OsSim.run s p inst = some (out, s')) :
    FlatRead f ⟨p, behind, inst, s.instAddr p inst, out⟩ ∧
      Holds s' (flatNext f ⟨p, behind, inst, s.instAddr p inst, out⟩) := by
  cases inst with
  | read source offset =>
      have hr := run_read hrun
      obtain ⟨stat, destination⟩ := out
      rcases ha : s.accessAddr p source offset with _ | a
      · obtain ⟨vma, harea⟩ := h.inv.area p
        rw [libread_of_none harea ha, Option.some.injEq, Prod.mk.injEq, Prod.mk.injEq] at hr
        obtain ⟨-, -, rfl⟩ := hr
        refine ⟨?_, h⟩
        intro _ _ _ a haddr
        simp [Sys.instAddr, ha] at haddr
      · obtain ⟨s₁, hread, hs₁, heff, hram, hsame⟩ := h.inv.read ha (hsafe a ha)
        rw [hread, Option.some.injEq, Prod.mk.injEq, Prod.mk.injEq] at hr
        obtain ⟨rfl, rfl, rfl⟩ := hr
        refine ⟨?_, ?_⟩
        · intro _ _ _ a' haddr b hb
          obtain rfl : a = a' := by
            simpa [Sys.instAddr, ha] using haddr
          -- a byte was written here, so the page is mapped, and so resident
          have hres : s.ResidentAt p (pagingPgn a) := by
            rcases hsafe a ha with hres | ⟨habsent, -⟩
            · exact hres
            · have := h.mapped p a b hb
              rw [habsent] at this
              exact absurd this Bool.false_ne_true
          simp only [hsame hres, h.byte p a b hb hres]
        · exact h.of_effect hs₁ heff (by rw [hram])
  | write data destination offset =>
      have hr := run_write hrun
      refine ⟨fun _ _ hinst => by simp at hinst, ?_⟩
      rcases ha : s.accessAddr p destination offset with _ | a
      · obtain ⟨vma, harea⟩ := h.inv.area p
        rw [libwrite_of_none harea ha, Option.some.injEq, Prod.mk.injEq] at hr
        obtain ⟨-, rfl⟩ := hr
        simpa [flatNext, Sys.instAddr, ha] using h
      · obtain ⟨s₁, s₂, hwrite, hs₂, hs₁, hres, heff, hram, hinv⟩ :=
          h.inv.write ha (hsafe a ha) (data.setWidth 8)
        rw [hwrite, Option.some.injEq, Prod.mk.injEq] at hr
        obtain ⟨-, rfl⟩ := hr
        have h₁ := h.of_effect hs₁ heff (by rw [hram])
        simpa [flatNext, Sys.instAddr, ha] using h₁.write (hlt a ha) hres hs₂ hinv
  | «calc» =>
      obtain ⟨hinv, heff, hst⟩ := h.inv.step hsafe hrun
      refine ⟨fun _ _ hinst => by simp at hinst, h.of_effect hinv heff ?_⟩
      simpa [Stored] using hst
  | alloc size regIndex =>
      obtain ⟨hinv, heff, hst⟩ := h.inv.step hsafe hrun
      refine ⟨fun _ _ hinst => by simp at hinst, h.of_effect hinv heff ?_⟩
      simpa [Stored] using hst
  | free regIndex =>
      obtain ⟨hinv, heff, hst⟩ := h.inv.step hsafe hrun
      refine ⟨fun _ _ hinst => by simp at hinst, h.of_effect hinv heff ?_⟩
      simpa [Stored] using hst
  | memmap regs => exact hsafe.elim

/-- **The simulation**: the paged system, restricted to such instructions, is simulated by flat
memory, event for event. -/
theorem paged_simulates_flat :
    Simulation ((memSystem : TransitionSystem (Sys ι) (Event ι)).restrict FlatSafe) flatMemory
      Holds where
  init s hs := by
    refine ⟨fun _ _ => none, rfl, memInv_of_booted hs, ?_, ?_, ?_⟩ <;> intro p a b hb <;>
      simp at hb
  step s f e s' h hst := by
    obtain ⟨⟨hsafe, hlt⟩, hnext⟩ := hst
    obtain ⟨haddr, hrun⟩ := Sys.next_eq_some hnext
    have hstart : Holds (s.start e) f :=
      h.of_effect (h.inv.setBehind e.proc e.behind) (effect_setMm rfl) rfl
    rw [← haddr] at hlt
    have hevent : e = ⟨e.proc, e.behind, e.inst, (s.start e).instAddr e.proc e.inst, e.out⟩ := by
      rw [haddr]
    obtain ⟨hread, hholds⟩ := hstart.run e.behind hsafe hlt hrun
    rw [← hevent] at hread hholds
    exact ⟨flatNext f e, ⟨hread, rfl⟩, hholds⟩

/-- **Runs whose accesses keep away from evicted pages refine flat memory**: every read shows
the byte last written to its address. -/
theorem paged_refines_flat {as : List (Event ι)} {s : Sys ι}
    (h : (memSystem.restrict FlatSafe).Run as s) : ∃ f, flatMemory.Run as f := by
  obtain ⟨f, hf, -⟩ := paged_simulates_flat.run h
  exact ⟨f, hf⟩

/-- With two frames of RAM: each of two processes allocates a page and writes to its address 0. The
first allocates another page, which evicts its first one to swap, and writes to it. Both read what
they have in RAM. -/
def evictOwn : List (Event Bool) :=
  [ ⟨false, ⟨0, 0⟩, .alloc 256 0, none, { stat := 0 }⟩,
    ⟨false, ⟨0, 0⟩, .write 7 0 0, some 0, { stat := 0 }⟩,
    ⟨true, ⟨0, 0⟩, .alloc 256 0, none, { stat := 0 }⟩,
    ⟨true, ⟨0, 0⟩, .write 5 0 0, some 0, { stat := 0 }⟩,
    ⟨false, ⟨0, 0⟩, .alloc 256 1, none, { stat := 0 }⟩,
    ⟨false, ⟨0, 0⟩, .write 9 1 0, some 256, { stat := 0 }⟩,
    ⟨true, ⟨0, 0⟩, .read 0 0, some 0, { stat := 0, destination := some 5 }⟩,
    ⟨false, ⟨0, 0⟩, .read 1 0, some 256, { stat := 0, destination := some 9 }⟩ ]

/-- The run of the demo is one of flat memory, for which the condition holds at every step. -/
theorem paged_refines_flat_evictOwn : ∃ f, flatMemory.Run evictOwn f := by
  have hruns : (evictOwn.foldlM
      (fun (s : Sys Bool) e => if FlatSafe s e then s.next e else none)
      (bootSys 512 fun _ => 512)).isSome = true := by
    decide +kernel
  obtain ⟨s, hs⟩ := Option.isSome_iff_exists.mp hruns
  exact paged_refines_flat (Run.of_foldlM_restrict (fun _ _ _ h => h)
    (booted_bootSys 512 fun _ => 512) hs)

/-! ### A disciplined run that is not flat -/

/-- With one frame of RAM: allocate a page and write 7 to it, allocate another, which evicts the
first, and write 9 to it. The byte 7 is on the swap device then. -/
def twoPages : List (Event Unit) :=
  [ ⟨(), ⟨0, 0⟩, .alloc 256 0, none, { stat := 0 }⟩,
    ⟨(), ⟨0, 0⟩, .write 7 0 0, some 0, { stat := 0 }⟩,
    ⟨(), ⟨0, 0⟩, .alloc 256 1, none, { stat := 0 }⟩,
    ⟨(), ⟨0, 0⟩, .write 9 1 0, some 256, { stat := 0 }⟩ ]

/-- Reading the first page afterwards shows 9, the byte of another page. -/
def staleRead : Event Unit :=
  ⟨(), ⟨0, 0⟩, .read 0 0, some 0, { stat := 0, destination := some 9 }⟩

/-- A disciplined run that no flat memory has: every call of it succeeds, and every allocation
obtains its frames. -/
theorem paged_not_flat : ¬ ∀ (as : List (Event Unit)) (s : Sys Unit),
    (memSystem.restrict fun s e => s.growthObtained e = true).Run as s →
      Disciplined (fun _ _ => none) as = true → ∃ f, flatMemory.Run as f := by
  intro hflat
  have hruns : ((twoPages ++ [staleRead]).foldlM
      (fun (s : Sys Unit) e => if s.growthObtained e then s.next e else none)
      (bootSys 256 fun _ => 512)).isSome = true := by
    decide +kernel
  obtain ⟨s, hs⟩ := Option.isSome_iff_exists.mp hruns
  have hrun : (memSystem.restrict fun s e => s.growthObtained e = true).Run
      (twoPages ++ [staleRead]) s := by
    exact Run.of_foldlM_restrict (fun _ _ _ h => h) (booted_bootSys 256 fun _ => 512) hs
  obtain ⟨f, hf⟩ := hflat _ s hrun (by decide +kernel)
  obtain ⟨f', hf', hread, -⟩ := Run.of_concat hf
  rw [flatMemory_run hf'] at hread
  have hout := hread 0 0 rfl 0 rfl 7 (by decide +kernel)
  exact absurd hout (by decide +kernel)

end OsSim
