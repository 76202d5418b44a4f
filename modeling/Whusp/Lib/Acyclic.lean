import Mathlib.Logic.Relation

/-!
# Relations without cycles

A relation is acyclic if no element reaches itself in one step or more.  A graph that grows stays
acyclic as long as every new edge ends in a sink.
-/

namespace Whusp.Lib

universe u

variable {α : Type u} {r r' : α → α → Prop}

/-- No element reaches itself. -/
def Acyclic (r : α → α → Prop) : Prop := ∀ a, ¬ Relation.TransGen r a a

/-- A path that can be prolonged uses old edges only, if each new edge ends in a sink. -/
lemma transGen_of_sinks (hnew : ∀ a b, r' a b → r a b ∨ ∀ c, ¬ r' b c) {a b c : α}
    (hpath : Relation.TransGen r' a b) (hout : r' b c) : Relation.TransGen r a b := by
  induction hpath generalizing c with
  | single hab =>
    rcases hnew _ _ hab with hold | hsink
    · exact .single hold
    · exact absurd hout (hsink c)
  | tail _ hbd ih =>
    rcases hnew _ _ hbd with hold | hsink
    · exact .tail (ih hbd) hold
    · exact absurd hout (hsink c)

/-- **Edges into sinks close no cycle.** -/
theorem Acyclic.of_sinks (h : Acyclic r) (hnew : ∀ a b, r' a b → r a b ∨ ∀ c, ¬ r' b c) :
    Acyclic r' := by
  intro a hcycle
  -- the first edge of the cycle leaves the element where it ends
  obtain ⟨c, hout, -⟩ := Relation.TransGen.head'_iff.mp hcycle
  exact h a (transGen_of_sinks hnew hcycle hout)

lemma Acyclic.mono (h : Acyclic r) (hsub : ∀ a b, r' a b → r a b) : Acyclic r' :=
  h.of_sinks fun a b hab => .inl (hsub a b hab)

end Whusp.Lib
