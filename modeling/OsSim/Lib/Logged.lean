import Mathlib.Data.List.Basic

/-!
# Logged Computations

Computations that may get stuck and keep a log of what they did. What was logged before a
computation got stuck stays in the log, so that a step that goes wrong can be seen there.

With an optional result alone nothing can be said of a computation that gets stuck: it is `none`,
wherever that happened. A property of what it has touched on its way, as that all indices were in
bounds, would then hold of it for want of a result. Here the log and the result are two fields of
one structure, and binding keeps the log of a first part whose result is missing.

A function is turned into a logged one by writing it in this monad and adding `tell` where it does
something worth recording. That nothing else has changed is one equation about `result`, proved by
`simp` with the lemmas below, since `result` goes through `>>=` (`result_bind`); the log is computed
by following the function to where it stops (`log_bind_of_some`, `log_bind_of_none`).

## Main results

* `result_bind`: the log does not change the result.
* `log_bind_of_some`, `log_bind_of_none`: the log of two computations in turn.
-/

universe u

/-- A computation of an `α`: what it logged, first to last, and its result, `none` where it got
stuck. The log is there in both cases. -/
structure Logged (ω α : Type u) where
  log : List ω
  result : Option α

namespace Logged

variable {ω α β : Type u}

instance : Monad (Logged ω) where
  pure a := ⟨[], some a⟩
  bind x f :=
    match x.result with
    | none => ⟨x.log, none⟩
    | some a => ⟨x.log ++ (f a).log, (f a).result⟩

/-- A computation that logs nothing, given by its result. -/
def lift (o : Option α) : Logged ω α := ⟨[], o⟩

/-- Logging `w`, and then computing what follows. -/
def tell (w : ω) (x : Logged ω α) : Logged ω α := ⟨w :: x.log, x.result⟩

@[simp] theorem log_lift (o : Option α) : (lift o : Logged ω α).log = [] := rfl

@[simp] theorem result_lift (o : Option α) : (lift o : Logged ω α).result = o := rfl

@[simp] theorem log_tell (w : ω) (x : Logged ω α) : (tell w x).log = w :: x.log := rfl

@[simp] theorem result_tell (w : ω) (x : Logged ω α) : (tell w x).result = x.result := rfl

@[simp] theorem result_pure (a : α) : (pure a : Logged ω α).result = some a := rfl

/-- The log does not change the result: it is that of the two optional computations in turn. -/
@[simp] theorem result_bind (x : Logged ω α) (f : α → Logged ω β) :
    (x >>= f).result = x.result.bind fun a => (f a).result := by
  change (match x.result with
    | none => (⟨x.log, none⟩ : Logged ω β)
    | some a => ⟨x.log ++ (f a).log, (f a).result⟩).result = _
  rcases x.result with _ | a
  · rfl
  · rfl

/-- Where the first computation has a result, the log of the second follows its log. -/
theorem log_bind_of_some {x : Logged ω α} {a : α} (h : x.result = some a) (f : α → Logged ω β) :
    (x >>= f).log = x.log ++ (f a).log := by
  change (match x.result with
    | none => (⟨x.log, none⟩ : Logged ω β)
    | some a => ⟨x.log ++ (f a).log, (f a).result⟩).log = _
  rw [h]

/-- Where the first computation gets stuck, its log is all there is. -/
theorem log_bind_of_none {x : Logged ω α} (h : x.result = none) (f : α → Logged ω β) :
    (x >>= f).log = x.log := by
  change (match x.result with
    | none => (⟨x.log, none⟩ : Logged ω β)
    | some a => ⟨x.log ++ (f a).log, (f a).result⟩).log = _
  rw [h]

/-- A last step that logs nothing, whether it has a result or not. -/
theorem log_lift_bind_pure (o : Option α) (f : α → β) :
    (lift o >>= fun a => (pure (f a) : Logged ω β)).log = [] := by
  rcases o with _ | a
  · exact log_bind_of_none rfl _
  · exact log_bind_of_some rfl _

end Logged
