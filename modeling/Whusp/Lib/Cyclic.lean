import Mathlib.Data.List.GetD
import Mathlib.Data.Nat.ModEq

/-!
# Cyclic ranges of an array

A ring buffer keeps a queue in a range of an array that goes on at the front when it reaches the
end.  `cyclic a start n` is such a range as a list, and `copyCyclic a start src` the array after
`src` is copied over one, in two slices where it wraps.
-/

namespace Whusp.Lib

open List

variable {α : Type*} [Inhabited α]

/-- The `n` cells of an array from `start` on, round its end. -/
def cyclic (a : List α) (start n : Nat) : List α :=
  (List.range n).map fun i => a.getD ((start + i) % a.length) default

@[simp] lemma length_cyclic (a : List α) (start n : Nat) : (cyclic a start n).length = n := by
  simp [cyclic]

lemma cyclic_mod (a : List α) (start n : Nat) :
    cyclic a (start % a.length) n = cyclic a start n := by
  apply map_congr_left
  simp

theorem cyclic_append (a : List α) (start m n : Nat) :
    cyclic a start (m + n) = cyclic a start m ++ cyclic a (start + m) n := by
  unfold cyclic
  rw [range_add, map_append, map_map]
  congr 1
  apply map_congr_left
  intro i hi
  simp only [Function.comp, add_assoc]

variable {m n start j p pos : Nat} {a src : List α}

lemma take_cyclic (a : List α) (start : Nat) (h : m ≤ n) :
    (cyclic a start n).take m = cyclic a start m := by
  obtain ⟨k, rfl⟩ := Nat.exists_eq_add_of_le h
  rw [cyclic_append, take_left' (length_cyclic a start m)]

lemma drop_cyclic (a : List α) (start : Nat) (h : m ≤ n) :
    (cyclic a start n).drop m = cyclic a (start + m) (n - m) := by
  obtain ⟨k, rfl⟩ := Nat.exists_eq_add_of_le h
  rw [cyclic_append, drop_left' (length_cyclic a start m), Nat.add_sub_cancel_left]

/-- A slice is a range that does not wrap. -/
theorem take_drop_eq_cyclic (h : start + n ≤ a.length) :
    (a.drop start).take n = cyclic a start n := by
  apply ext_getElem
  · simp only [length_take, length_drop, length_cyclic]
    omega
  · intro i h₁ h₂
    rw [length_cyclic] at h₂
    have hlt : start + i < a.length := by omega
    simp only [getElem_take, getElem_drop, cyclic, getElem_map, getElem_range,
      Nat.mod_eq_of_lt hlt, getD_eq_getElem _ _ hlt]

/-- Two slices, the second from the front, are a range that wraps. -/
lemma slices_eq_cyclic {first second : Nat} (hstart : start + first = a.length)
    (hsecond : second ≤ a.length) :
    (a.drop start).take first ++ a.take second = cyclic a start (first + second) := by
  have htake : a.take second = cyclic a 0 second := by
    simpa using take_drop_eq_cyclic (show 0 + second ≤ a.length by omega)
  rw [cyclic_append, take_drop_eq_cyclic (by omega), htake, hstart, ← cyclic_mod a a.length,
    Nat.mod_self]

/-! ## One turn -/

/-- `(p + j) % n` for less than one turn. -/
lemma add_mod_of_lt (hp : p < n) (hj : j < n) :
    (p + j) % n = if p + j < n then p + j else p + j - n := by
  split
  · exact Nat.mod_eq_of_lt ‹_›
  · rw [Nat.mod_eq_sub_mod (by omega), Nat.mod_eq_of_lt (by omega)]

/-- Only no step and a full turn lead back. -/
lemma add_mod_eq_left_iff (hp : p < n) (hj : j ≤ n) : (p + j) % n = p ↔ j = 0 ∨ j = n := by
  rcases lt_or_eq_of_le hj with hlt | rfl
  · rw [add_mod_of_lt hp hlt]
    split <;> omega
  · simp [Nat.mod_eq_of_lt hp]

/-! ## Copies -/

/-- `a[pos .. pos + src.len()].copy_from_slice(src)`. -/
def copyAt (a : List α) (pos : Nat) (src : List α) : List α :=
  a.take pos ++ src ++ a.drop (pos + src.length)

omit [Inhabited α] in
lemma length_copyAt (h : pos + src.length ≤ a.length) : (copyAt a pos src).length = a.length := by
  simp only [copyAt, length_append, length_take, length_drop]
  omega

lemma getD_copyAt (h : pos + src.length ≤ a.length) (i : Nat) : (copyAt a pos src).getD i default =
      if pos ≤ i ∧ i < pos + src.length then src.getD (i - pos) default else a.getD i default := by
  have hpos : (a.take pos).length = pos := length_take_of_le (by omega)
  unfold copyAt
  by_cases hlo : i < pos
  · rw [if_neg (by omega), append_assoc, getD_append _ _ _ _ (by omega)]
    simp [getD_eq_getElem?_getD, getElem?_take_of_lt hlo]
  by_cases hhi : i < pos + src.length
  · rw [if_pos ⟨by omega, hhi⟩, getD_append _ _ _ _ (by simp [hpos]; omega),
      getD_append_right _ _ _ _ (by omega), hpos]
  · rw [if_neg (by omega), getD_append_right _ _ _ _ (by simp [hpos]; omega)]
    simp only [length_append, hpos, getD_eq_getElem?_getD, getElem?_drop]
    congr 2
    omega

/-- A copy over a range: up to the end of the array, and the rest from its front. -/
def copyCyclic (a : List α) (pos : Nat) (src : List α) : List α :=
  let first := min src.length (a.length - pos)
  copyAt (copyAt a pos (src.take first)) 0 (src.drop first)

section Copy

variable {a : List α} {pos : Nat} {src : List α}

omit [Inhabited α] in
lemma copyCyclic_fits (hpos : pos < a.length) (hsrc : src.length ≤ a.length) :
    pos + (src.take (min src.length (a.length - pos))).length ≤ a.length ∧
      0 + (src.drop (min src.length (a.length - pos))).length ≤ a.length := by
  rw [length_take, length_drop]
  omega

omit [Inhabited α] in
lemma length_copyCyclic (hpos : pos < a.length) (hsrc : src.length ≤ a.length) :
    (copyCyclic a pos src).length = a.length := by
  obtain ⟨h₁, h₂⟩ := copyCyclic_fits hpos hsrc
  rw [copyCyclic, length_copyAt, length_copyAt h₁]
  rw [length_copyAt h₁]
  exact h₂

section

variable (hpos : pos < a.length) (hsrc : src.length ≤ a.length)
include hpos hsrc

/-- A cell after a copy: `j` cells after `pos`, round the end, it is `src[j]`. -/
lemma getD_copyCyclic {i : Nat}
    (hi : i < a.length) : (copyCyclic a pos src).getD i default =
      if (if pos ≤ i then i - pos else i + a.length - pos) < src.length then
        src.getD (if pos ≤ i then i - pos else i + a.length - pos) default
      else a.getD i default := by
  obtain ⟨h₁, h₂⟩ := copyCyclic_fits hpos hsrc
  have hdrop : ∀ k j, (src.drop k).getD j default = src.getD (k + j) default := by
    simp
  have htake : ∀ k j, j < k → (src.take k).getD j default = src.getD j default := by
    intro k j hj
    simp [getD_eq_getElem?_getD, getElem?_take_of_lt hj]
  rw [copyCyclic, getD_copyAt (by rw [length_copyAt h₁]; exact h₂), getD_copyAt h₁,
    length_drop, length_take]
  by_cases hlo : pos ≤ i
  · rw [if_neg (by omega)]
    simp only [if_pos hlo]
    by_cases hj : i - pos < src.length
    · rw [if_pos (by omega), if_pos hj, htake _ _ (by omega)]
    · rw [if_neg (by omega), if_neg hj]
  · simp only [if_neg hlo]
    by_cases hj : i + a.length - pos < src.length
    · rw [if_pos (by omega), if_pos hj, hdrop]
      congr 1
      omega
    · rw [if_neg (by omega), if_neg (by omega), if_neg hj]

theorem cyclic_copyCyclic_self :
    cyclic (copyCyclic a pos src) pos src.length = src := by
  apply ext_getElem (length_cyclic _ _ _)
  intro j h₁ h₂
  have hlt : (pos + j) % a.length < a.length := Nat.mod_lt _ (by omega)
  simp only [cyclic, getElem_map, getElem_range, length_copyCyclic hpos hsrc,
    getD_copyCyclic hpos hsrc hlt]
  have hback : (if pos ≤ (pos + j) % a.length then (pos + j) % a.length - pos
      else (pos + j) % a.length + a.length - pos) = j := by
    rw [add_mod_of_lt hpos (by omega)]
    split <;> split <;> omega
  rw [hback, if_pos h₂, getD_eq_getElem _ _ h₂]

end

/-- A copy leaves the range before it alone while there is room for both. -/
theorem cyclic_copyCyclic_before {start n : Nat} (hstart : start < a.length)
    (hfit : n + src.length ≤ a.length) (hn : pos = (start + n) % a.length) :
    cyclic (copyCyclic a pos src) start n = cyclic a start n := by
  have hpos : pos < a.length := hn ▸ Nat.mod_lt _ (by omega)
  apply map_congr_left
  intro i hi
  have hi := mem_range.mp hi
  have hlt : (start + i) % a.length < a.length := Nat.mod_lt _ (by omega)
  rw [length_copyCyclic hpos (by omega), getD_copyCyclic hpos (by omega) hlt, if_neg]
  -- cell `i` of the range is `len - n + i` cells after `pos`
  by_cases hfull : n = a.length
  · omega
  · rw [hn, add_mod_of_lt hstart (show i < a.length by omega),
      add_mod_of_lt hstart (show n < a.length by omega)]
    split <;> split <;> split <;> omega

end Copy

end Whusp.Lib
