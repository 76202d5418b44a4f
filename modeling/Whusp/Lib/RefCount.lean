import Mathlib.Data.List.Nodup

/-!
# Reference counts

A map from indices to optional values, and the number of indices that hold a given value.
A reference count is correct when it is this number; the lemmas follow the count through
updates of one index.
-/

namespace Whusp.Lib

open Function

universe u v

variable {ι : Type u} {α : Type v}

/-- The value `a` is held at exactly `n` indices. -/
def Holders (m : ι → Option α) (a : α) (n : Nat) : Prop :=
  ∃ l : List ι, l.Nodup ∧ (∀ i, i ∈ l ↔ m i = some a) ∧ l.length = n

namespace Holders

variable {m : ι → Option α} {a : α} {n : Nat} {i j : ι}

lemma of_none (h : ∀ i, m i ≠ some a) : Holders m a 0 :=
  ⟨[], List.nodup_nil, fun i => ⟨fun hi => absurd hi List.not_mem_nil, fun hi => absurd hi (h i)⟩,
    rfl⟩

lemma pos (h : Holders m a n) (hi : m i = some a) : 0 < n := by
  obtain ⟨l, -, hmem, rfl⟩ := h
  exact List.length_pos_of_mem ((hmem i).mpr hi)

lemma ne_of_zero (h : Holders m a 0) : m i ≠ some a :=
  fun hi => absurd (h.pos hi) (Nat.lt_irrefl 0)

/-- **Uniqueness**: a count of at most one leaves room for one holder. -/
theorem eq_of_le_one (h : Holders m a n) (hn : n ≤ 1) (hi : m i = some a) (hj : m j = some a) :
    i = j := by
  obtain ⟨l, -, hmem, rfl⟩ := h
  have hi' := (hmem i).mpr hi
  have hj' := (hmem j).mpr hj
  match l, hn with
  | [], _ => exact absurd hi' List.not_mem_nil
  | [x], _ => exact (List.mem_singleton.mp hi').trans (List.mem_singleton.mp hj').symm

lemma two_le (h : Holders m a n) (hi : m i = some a) (hj : m j = some a) (hne : i ≠ j) : 2 ≤ n := by
  apply Nat.not_lt.mp
  intro hlt
  exact hne (h.eq_of_le_one (Nat.le_of_lt_succ hlt) hi hj)

variable [DecidableEq ι] {b : Option α}

theorem insert (h : Holders m a n) (hi : m i ≠ some a) :
    Holders (update m i (some a)) a (n + 1) := by
  obtain ⟨l, hnodup, hmem, rfl⟩ := h
  refine ⟨i :: l, List.nodup_cons.mpr ⟨fun hm => hi ((hmem i).mp hm), hnodup⟩, fun j => ?_, rfl⟩
  rcases eq_or_ne j i with rfl | hne
  · simp
  · rw [update_of_ne hne, List.mem_cons, or_iff_right hne, hmem]

theorem erase (h : Holders m a n) (hi : m i = some a) (hb : b ≠ some a) :
    Holders (update m i b) a (n - 1) := by
  obtain ⟨l, hnodup, hmem, rfl⟩ := h
  refine ⟨l.erase i, hnodup.erase i, fun j => ?_, List.length_erase_of_mem ((hmem i).mpr hi)⟩
  rw [hnodup.mem_erase_iff]
  rcases eq_or_ne j i with rfl | hne
  · simp [hb]
  · rw [update_of_ne hne, hmem]
    exact ⟨fun hj => hj.2, fun hj => ⟨hne, hj⟩⟩

/-- An update that neither takes nor gives up the value. -/
theorem other (h : Holders m a n) (hi : m i ≠ some a) (hb : b ≠ some a) :
    Holders (update m i b) a n := by
  obtain ⟨l, hnodup, hmem, rfl⟩ := h
  refine ⟨l, hnodup, fun j => ?_, rfl⟩
  rcases eq_or_ne j i with rfl | hne
  · rw [update_self, hmem]
    exact ⟨fun hj => absurd hj hi, fun hj => absurd hj hb⟩
  · rw [update_of_ne hne, hmem]

variable [DecidableEq α] {count : α → Nat}

/-- Counts of all values, after an index that held none takes the value `a`. -/
theorem insert_all (h : ∀ b, Holders m b (count b)) (hi : m i = none) (a b : α) :
    Holders (update m i (some a)) b (update count a (count a + 1) b) := by
  have hne : m i ≠ some b := by
    rw [hi]
    exact nofun
  rcases eq_or_ne b a with rfl | hba
  · rw [update_self]
    exact (h b).insert hne
  · rw [update_of_ne hba]
    exact (h b).other hne fun heq => hba (Option.some.inj heq).symm

/-- Counts of all values, after an index gives up the value `a`. -/
theorem erase_all (h : ∀ b, Holders m b (count b)) (hi : m i = some a) (b : α) :
    Holders (update m i none) b (update count a (count a - 1) b) := by
  rcases eq_or_ne b a with rfl | hba
  · rw [update_self]
    exact (h b).erase hi nofun
  · rw [update_of_ne hba]
    exact (h b).other (fun heq => hba (Option.some.inj (hi.symm.trans heq)).symm) nofun

end Holders

/-- An update to the present value changes nothing. -/
lemma eq_update [DecidableEq ι] {β : Type v} {m : ι → β} {i : ι} {b : β} (h : m i = b) :
    m = update m i b := by
  subst h
  simp

end Whusp.Lib
