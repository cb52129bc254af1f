import OsSim.Cpu
import OsSim.Lib.Fifo

/-!
# The Order of Page Replacement

`fifo_pgn` is pushed at the head by `enlist_pgn_node` and popped at the tail by
`find_victim_page`. Read from its end it is a first-in first-out queue of pages, into which
`vmap_page_range` puts the pages it maps, in turn.

## How the argument goes

`Lib.Fifo` has the queue by itself, with what a run of calls says about it: what has been put in is
what has been taken out, in the same order, followed by what is still there. The list of the code is
shown to refine it, call by call (`pageNext_step`): the relation reverses the list. The one call
that is not a call of the queue at once is `vmap_page_range`, which enlists the pages that it maps,
as many as there are frames for (`vmapPages_fifo`).

Nothing is assumed about the calls. Pages may be enlisted more than once, and stay on the list when
they are swapped out by somebody else; the order is that of the calls.

## Main results

* `vmapPages_fifo`: what mapping does to the list.
* `pageSystem_simulation`: the list refines the queue.
* `findVictimPage_fifo`: **pages are evicted in the order they were enlisted**.
-/

namespace OsSim

open TransitionSystem

variable {ι : Type}

/-! ### What mapping enlists -/

/-- With fewer frames than pages, the loop stops early. -/
theorem vmapPages_min (n pgn : ℕ) (fs : List (Framephy ι)) (mm : Mm) :
    vmapPages n pgn fs mm = vmapPages (min n fs.length) pgn fs mm := by
  induction n generalizing pgn fs mm with
  | zero => simp
  | succ n ih =>
      rcases fs with _ | ⟨fp, fps⟩
      · rfl
      · rw [List.length_cons, Nat.add_min_add_right, vmapPages, vmapPages, ih]

/-- Mapping enlists the pages in turn, as many as there are frames for. -/
theorem vmapPages_fifo {n pgn : ℕ} {fs : List (Framephy ι)} {mm mm' : Mm}
    (h : vmapPages n pgn fs mm = some mm') :
    mm'.fifoPgn = (List.range' pgn (min n fs.length)).reverse ++ mm.fifoPgn := by
  rw [vmapPages_min] at h
  have hmapped := vmapPages_mapped (min_le_right n fs.length) h
  rw [hmapped.fifo, List.length_map, List.length_take, min_assoc, min_self]

/-! ### The calls -/

variable [DecidableEq ι]

/-- The calls that change `fifo_pgn`; `find_victim_page` with the page it stores, `none` for the
code -1. -/
inductive PageCall (ι : Type) where
  | enlistPgnNode (pgn : ℕ)
  | vmapPageRange (addr pgnum : ℤ) (frames : List (Framephy ι))
  | findVictimPage (retpgn : Option ℕ)

/-- The system after a call for process `p`, `none` where the call is not defined. -/
def pageNext (p : ι) (s : Sys ι) : PageCall ι → Option (Sys ι)
  | .enlistPgnNode pgn =>
      some (s.setMm p { s.mm p with fifoPgn := enlistPgnNode (s.mm p).fifoPgn pgn })
  | .vmapPageRange addr pgnum frames => (vmapPageRange s p addr pgnum frames).map Prod.snd
  | .findVictimPage retpgn =>
      match findVictimPage (s.mm p).fifoPgn with
      | none => if retpgn = none then some s else none
      | some v =>
          if retpgn = some v.1 then some (s.setMm p { s.mm p with fifoPgn := v.2 }) else none

/-- The calls in any order, from an empty list on. -/
def pageSystem (p : ι) : TransitionSystem (Sys ι) (PageCall ι) where
  init s := (s.mm p).fifoPgn = []
  step s c s' := pageNext p s c = some s'

/-- What a call does to the queue of pages: it puts pages in, or takes one out. -/
def PageCall.toCall : PageCall ι → Fifo.Call ℕ
  | .enlistPgnNode pgn => .put [pgn]
  | .vmapPageRange addr pgnum frames =>
      .put (List.range' (pagingPgn (BitVec.ofInt 32 addr)) (min pgnum.toNat frames.length))
  | .findVictimPage retpgn => .take retpgn

/-- The pages enlisted so far, in turn. -/
def enlisted (cs : List (PageCall ι)) : List ℕ := cs.flatMap fun c => c.toCall.putIn

/-- The pages evicted so far, in turn. -/
def evicted (cs : List (PageCall ι)) : List ℕ := cs.flatMap fun c => c.toCall.takenOut

/-- **One call** does to the list, read from its end, what it does to the queue. -/
theorem pageNext_step {p : ι} {s s' : Sys ι} {c : PageCall ι} (h : pageNext p s c = some s') :
    Fifo.Step (s.mm p).fifoPgn.reverse c.toCall (s'.mm p).fifoPgn.reverse := by
  cases c with
  | enlistPgnNode pgn =>
      obtain rfl := Option.some.inj h
      rw [Sys.mm_setMm_self, OsSim.enlistPgnNode, List.reverse_cons]
      exact .put _ _
  | vmapPageRange addr pgnum frames =>
      obtain ⟨r, hr, rfl⟩ := Option.map_eq_some_iff.mp h
      obtain ⟨mm', hmm', rfl⟩ := Option.map_eq_some_iff.mp hr
      rw [Sys.mm_setMm_self, vmapPages_fifo hmm', List.reverse_append, List.reverse_reverse]
      exact .put _ _
  | findVictimPage retpgn =>
      rw [pageNext] at h
      rcases hvic : OsSim.findVictimPage (s.mm p).fifoPgn with _ | v
      · simp only [hvic] at h
        split at h
        · rename_i hret
          obtain rfl := Option.some.inj h
          rw [findVictimPage_eq_none.mp hvic, hret]
          exact .takeNone
        · cases h
      · simp only [hvic] at h
        split at h
        · rename_i hret
          obtain rfl := Option.some.inj h
          rw [Sys.mm_setMm_self, findVictimPage_eq_some hvic, hret, List.reverse_append]
          exact .takeSome _ _
        · cases h

/-- The list refines the queue, which is the list read from its end. -/
theorem pageSystem_simulation (p : ι) :
    Simulation (pageSystem p) ((Fifo.queue ℕ).comap PageCall.toCall)
      fun s l => l = (s.mm p).fifoPgn.reverse where
  init s hs := by
    have hnil : (s.mm p).fifoPgn = [] := hs
    exact ⟨[], rfl, by rw [hnil, List.reverse_nil]⟩
  step s l c s' hl hst := by
    obtain rfl := hl
    exact ⟨_, pageNext_step hst, rfl⟩

/-- The queue after a run, with what each call has done to it. -/
theorem queue_run {p : ι} {cs : List (PageCall ι)} {s : Sys ι} (h : (pageSystem p).Run cs s) :
    (Fifo.queue ℕ).Run (cs.map PageCall.toCall) (s.mm p).fifoPgn.reverse := by
  obtain ⟨l, hrun, rfl⟩ := (pageSystem_simulation p).run h
  exact hrun.of_comap

/-- **Pages are evicted in the order they were enlisted**, whatever calls were made before: the
code is -1 where the list is empty, and otherwise the page is the first one enlisted of those
that have not been evicted; it alone leaves the list. -/
theorem findVictimPage_fifo {p : ι} {cs : List (PageCall ι)} {s : Sys ι}
    (h : (pageSystem p).Run cs s) :
    enlisted cs = evicted cs ++ (s.mm p).fifoPgn.reverse ∧
      (findVictimPage (s.mm p).fifoPgn = none ↔ (s.mm p).fifoPgn = []) ∧
      ∀ pgn rest, findVictimPage (s.mm p).fifoPgn = some (pgn, rest) →
        (enlisted cs)[(evicted cs).length]? = some pgn ∧ (s.mm p).fifoPgn = rest ++ [pgn] := by
  have hqueue := queue_run h
  have hput : (cs.map PageCall.toCall).flatMap Fifo.Call.putIn = enlisted cs :=
    List.flatMap_map _ _ _
  have htaken : (cs.map PageCall.toCall).flatMap Fifo.Call.takenOut = evicted cs :=
    List.flatMap_map _ _ _
  refine ⟨?_, findVictimPage_eq_none, ?_⟩
  · rw [← hput, ← htaken]
    exact Fifo.put_eq hqueue
  · rintro pgn rest hvic
    have hlist : (s.mm p).fifoPgn = rest ++ [pgn] := findVictimPage_eq_some hvic
    rw [hlist, List.reverse_append] at hqueue
    refine ⟨?_, hlist⟩
    rw [← hput, ← htaken]
    exact Fifo.first_waiting hqueue

/-- Three pages are mapped, and one of them is evicted. -/
def mapThree : List (PageCall Unit) :=
  [.vmapPageRange 0 3 [⟨5, ()⟩, ⟨6, ()⟩, ⟨7, ()⟩], .findVictimPage (some 0)]

/-- The first of the three pages has left, and the next victim is the second. -/
theorem findVictimPage_fifo_mapThree : ∃ s : Sys Unit,
    (pageSystem ()).Run mapThree s ∧ (s.mm ()).fifoPgn = [2, 1] ∧
      findVictimPage (s.mm ()).fifoPgn = some (1, [2]) ∧
      (enlisted mapThree)[(evicted mapThree).length]? = some 1 := by
  have hstate : (mapThree.foldlM (pageNext ()) (bootSys 256 fun _ => 512 : Sys Unit)).map
      (fun s => (s.mm ()).fifoPgn) = some [2, 1] := by
    decide +kernel
  obtain ⟨s, hs, hlist⟩ := Option.map_eq_some_iff.mp hstate
  have hrun : (pageSystem ()).Run mapThree s := Run.of_foldlM (fun _ _ _ h => h) rfl hs
  have hvic : findVictimPage (s.mm ()).fifoPgn = some (1, [2]) := by rw [hlist]; rfl
  exact ⟨s, hrun, hlist, hvic, ((findVictimPage_fifo hrun).2.2 1 [2] hvic).1⟩

end OsSim
