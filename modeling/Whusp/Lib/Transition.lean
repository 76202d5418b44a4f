import Mathlib.Logic.Basic

/-!
# Labelled transition systems and invariants over whole runs

A system is a predicate for its initial states and a partial step function: the
label of a step carries every choice that the environment makes (which task
runs, which message arrives, what an allocator answers), so that the step itself
is a function and a run can be executed.

`Reachable ok s` says that `s` is reached by a run all of whose steps meet the
condition `ok`.  The condition sees the state before the step and the label, so
the same system gives both its unrestricted runs (`anyStep`) and the runs in
which the environment keeps to an assumption.
-/

namespace Whusp

universe u

variable {α : Type u} {p : Prop} [Decidable p] {a b : α}

/-- A step that is enabled by its guard. -/
lemma of_guard (h : (if p then some a else none) = some b) : p ∧ a = b := by
  obtain ⟨hp, h⟩ := Option.ite_none_right_eq_some.mp h
  exact ⟨hp, Option.some.inj h⟩

/-- A step that is refused by its guard. -/
lemma of_refusal (h : (if p then none else some a) = some b) : ¬ p ∧ a = b := by
  obtain ⟨hp, h⟩ := Option.ite_none_left_eq_some.mp h
  exact ⟨hp, Option.some.inj h⟩

end Whusp

namespace Whusp.Lib

universe u v

/-- A labelled transition system with a partial step function. -/
structure System (σ : Type u) (α : Type v) where
  init : σ → Prop
  /-- The step function; `none` where the label is not enabled. -/
  step : σ → α → Option σ

namespace System

variable {σ : Type u} {α : Type v} {M : System σ α} {ok ok' : σ → α → Prop}

/-- The condition that every step meets. -/
def anyStep (_ : σ) (_ : α) : Prop := True

instance : DecidableRel (anyStep (σ := σ) (α := α)) :=
  fun _ _ => inferInstanceAs (Decidable True)

/-- States reached by runs whose steps all meet `ok`. -/
inductive Reachable (M : System σ α) (ok : σ → α → Prop) : σ → Prop where
  | init {s : σ} (h : M.init s) : Reachable M ok s
  | step {s s' : σ} {a : α} (hs : Reachable M ok s) (hok : ok s a)
      (h : M.step s a = some s') : Reachable M ok s'

/-- **Invariant rule**: what holds initially and is kept by every step that
meets the condition holds in every state reached. -/
theorem Reachable.invariant {Inv : σ → Prop} {s : σ} (h : M.Reachable ok s)
    (hinit : ∀ s, M.init s → Inv s)
    (hstep : ∀ s a s', Inv s → ok s a → M.step s a = some s' → Inv s') : Inv s := by
  induction h with
  | init h => exact hinit _ h
  | step _ hok h ih => exact hstep _ _ _ ih hok h

/-- A weaker condition on the steps reaches at least the same states. -/
theorem Reachable.mono {s : σ} (h : M.Reachable ok s)
    (hle : ∀ s a, ok s a → ok' s a) : M.Reachable ok' s := by
  induction h with
  | init h => exact .init h
  | step _ hok h ih => exact .step ih (hle _ _ hok) h

/-- Execute a list of labels, giving up at the first step that is not enabled or
does not meet the condition. -/
def runWhile (M : System σ α) (ok : σ → α → Prop) [DecidableRel ok] :
    σ → List α → Option σ
  | s, [] => some s
  | s, a :: as =>
    if ok s a then
      match M.step s a with
      | some s' => runWhile M ok s' as
      | none => none
    else none

theorem reachable_of_runWhile [DecidableRel ok] {s s' : σ} {as : List α}
    (hs : M.Reachable ok s) (h : M.runWhile ok s as = some s') : M.Reachable ok s' := by
  induction as generalizing s with
  | nil =>
    cases h
    exact hs
  | cons a as ih =>
    simp only [runWhile] at h
    split at h
    next hok =>
      split at h
      next ht =>
        exact ih (.step hs hok ht) h
      · cases h
    · cases h

/-- What a computed summary of an executed run says of a reachable state. -/
lemma exists_reachable [DecidableRel ok] {β : Type*} {f : σ → β} {v : β} {s : σ} {as : List α}
    (h : (M.runWhile ok s as).map f = some v) (hs : M.init s) :
    ∃ s', M.Reachable ok s' ∧ M.runWhile ok s as = some s' ∧ f s' = v := by
  obtain ⟨s', hrun, hv⟩ := Option.map_eq_some_iff.mp h
  exact ⟨s', reachable_of_runWhile (.init hs) hrun, hrun, hv⟩

end System

end Whusp.Lib
