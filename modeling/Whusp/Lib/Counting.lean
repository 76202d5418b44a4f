import Mathlib.Data.List.Basic
import Mathlib.Data.List.Count
import Mathlib.Data.List.Flatten
import Mathlib.Algebra.GroupWithZero.Nat

/-!
# Copies of a token in a table of bags

A table whose entries each hold some tokens.  The number of copies of one token in the whole
table changes with an entry by what the entry lost or gained.
-/

namespace Whusp.Lib

open List

universe u v

variable {α : Type u} {β : Type v} [DecidableEq β]
variable {i : Nat} {l : List α} {x a : α}

/-- **Balance**: what the table has after the change and what the old entry had, against what
the table had and what the new entry has. -/
theorem sum_map_set (f : α → Nat) (y : α) (h : l[i]? = some x) :
    ((l.set i y).map f).sum + f x = (l.map f).sum + f y := by
  induction l generalizing i with
  | nil => exact absurd h (by simp)
  | cons a l ih =>
    cases i with
    | zero =>
      obtain rfl : a = x := by simpa using h
      simp only [set_cons_zero, map_cons, sum_cons]
      omega
    | succ i =>
      have hi := ih (i := i) (by simpa using h)
      simp only [set_cons_succ, map_cons, sum_cons]
      omega

lemma le_sum_map (f : α → Nat) (ha : a ∈ l) : f a ≤ (l.map f).sum := by
  induction l with
  | nil => cases ha
  | cons b l ih =>
    rw [map_cons, sum_cons]
    rcases mem_cons.mp ha with rfl | ha
    · simp
    · exact Nat.le_add_left_of_le (ih ha)

open Function

/-- The same balance for the copies of a token. -/
theorem count_flatMap_set (f : α → List β) (b : β) (y : α) (h : l[i]? = some x) :
    ((l.set i y).flatMap f).count b + (f x).count b = (l.flatMap f).count b + (f y).count b := by
  simpa [count_flatMap, comp_def] using sum_map_set (fun x => (f x).count b) y h

omit [DecidableEq β] in
/-- The tokens of a table whose entry at `p` gains `d`. -/
theorem flatMap_update_perm {κ : Type u} [DecidableEq κ] {f : κ → List β} {l : List κ} {p : κ}
    {x d : List β} (hnd : l.Nodup) (hp : p ∈ l) (h : x.Perm (d ++ f p)) :
    (l.flatMap (update f p x)).Perm (d ++ l.flatMap f) := by
  induction l with
  | nil => cases hp
  | cons a l ih =>
    obtain ⟨ha, hnd⟩ := nodup_cons.mp hnd
    rw [flatMap_cons, flatMap_cons]
    rcases eq_or_ne a p with rfl | hap
    · -- the rest of the table does not hold the entry
      have hrest : l.flatMap (update f a x) = l.flatMap f := by
        apply flatMap_congr
        intro b hb
        rw [update_of_ne (fun he : b = a => ha (he ▸ hb))]
      rw [hrest, update_self, ← append_assoc]
      exact h.append_right _
    · rw [update_of_ne hap]
      have hp' := (mem_cons.mp hp).resolve_left (Ne.symm hap)
      exact ((ih hnd hp').append_left (f a)).trans (perm_append_comm_assoc _ _ _)

theorem count_flatMap_append (f : α → List β) (b : β) (l : List α) (x : α) :
    ((l ++ [x]).flatMap f).count b = (l.flatMap f).count b + (f x).count b := by
  simp

lemma count_flatten_set (b : β) {l : List (List β)} {x : List β} (y : List β) (h : l[i]? = some x) :
    (l.set i y).flatten.count b + x.count b = l.flatten.count b + y.count b := by
  simpa using count_flatMap_set id b y h

section

variable (f : α → List β)

lemma count_le_flatMap (b : β) (h : l[i]? = some x) :
    (f x).count b ≤ (l.flatMap f).count b := by
  simpa [count_flatMap, comp_def] using
    le_sum_map (fun x => (f x).count b) (mem_of_getElem? h)

def copiesAt (f : α → List β) (l : List α) (b : β) (i : Nat) : Nat :=
  match l[i]? with
  | some x => (f x).count b
  | none => 0

lemma copiesAt_cons_succ (a : α) (l : List α) (b : β) (i : Nat) :
    copiesAt f (a :: l) b (i + 1) = copiesAt f l b i := by
  simp [copiesAt]

theorem copiesAt_le (l : List α) (b : β) (i : Nat) :
    copiesAt f l b i ≤ (l.flatMap f).count b := by
  unfold copiesAt
  split
  next x hx => exact count_le_flatMap f b hx
  simp

/-- Two entries of the table share its copies. -/
theorem copiesAt_add_le (l : List α) (b : β) {j : Nat} (hne : i ≠ j) :
    copiesAt f l b i + copiesAt f l b j ≤ (l.flatMap f).count b := by
  induction l generalizing i j with
  | nil => simp [copiesAt]
  | cons a l ih =>
    have hhead : copiesAt f (a :: l) b 0 = (f a).count b := rfl
    rw [flatMap_cons, count_append]
    cases i with
    | zero =>
      cases j with
      | zero => exact absurd rfl hne
      | succ j =>
        rw [hhead, copiesAt_cons_succ]
        exact Nat.add_le_add_left (copiesAt_le f l b j) _
    | succ i =>
      cases j with
      | zero =>
        rw [hhead, copiesAt_cons_succ, Nat.add_comm]
        exact Nat.add_le_add_left (copiesAt_le f l b i) _
      | succ j =>
        rw [copiesAt_cons_succ, copiesAt_cons_succ]
        exact Nat.le_add_left_of_le (ih fun h => hne (h ▸ rfl))

/-- A token of the table lies in one of its entries. -/
lemma exists_copiesAt_pos (l : List α) (b : β)
    (h : 0 < (l.flatMap f).count b) : ∃ i, 0 < copiesAt f l b i := by
  obtain ⟨x, hx, hb⟩ := mem_flatMap.mp (count_pos_iff.mp h)
  obtain ⟨i, hi⟩ := mem_iff_getElem?.mp hx
  refine ⟨i, ?_⟩
  rw [copiesAt, hi]
  exact count_pos_iff.mpr hb

end

end Whusp.Lib
