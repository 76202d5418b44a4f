import Mathlib.Order.Lattice
import Mathlib.Data.List.Perm.Basic

/-!
# Ordered maps as sorted lists

A finite map kept as the list of its entries in increasing key order.  The order is a
field of the structure, so that iteration order, uniqueness of keys and the search for
the last entry at or below a key need no further assumption.
-/

namespace Whusp.Lib

open List

universe u v

/-- A map from `κ` to `ν` with its entries in increasing key order. -/
structure SortedMap (κ : Type u) (ν : Type v) [LinearOrder κ] where
  entries : List (κ × ν)
  sorted : entries.Pairwise fun a b => a.1 < b.1

namespace SortedMap

variable {κ : Type u} {ν : Type v} [LinearOrder κ]

def empty : SortedMap κ ν := ⟨[], List.Pairwise.nil⟩

/-- Insertion into a sorted list of entries; an entry with the key is replaced. -/
def insertEntries (k : κ) (v : ν) : List (κ × ν) → List (κ × ν)
  | [] => [(k, v)]
  | e :: l =>
    if k < e.1 then (k, v) :: e :: l
    else if k = e.1 then (k, v) :: l
    else e :: insertEntries k v l

variable {l : List (κ × ν)} {x : κ × ν}

lemma mem_of_mem_insertEntries {k : κ} {v : ν} (h : x ∈ insertEntries k v l) :
    x = (k, v) ∨ x ∈ l := by
  induction l with
  | nil => exact .inl (mem_singleton.mp h)
  | cons e l ih =>
    unfold insertEntries at h
    split at h
    · rcases mem_cons.mp h with h | h
      · exact .inl h
      · exact .inr h
    split at h
    · rcases mem_cons.mp h with h | h
      · exact .inl h
      · exact .inr (mem_cons_of_mem _ h)
    · rcases mem_cons.mp h with h | h
      · exact .inr (h ▸ mem_cons_self)
      · rcases ih h with h | h
        · exact .inl h
        · exact .inr (mem_cons_of_mem _ h)

lemma sorted_insertEntries {k : κ} {v : ν} (h : l.Pairwise fun a b => a.1 < b.1) :
    (insertEntries k v l).Pairwise fun a b => a.1 < b.1 := by
  induction l with
  | nil => exact pairwise_singleton _ _
  | cons e l ih =>
    obtain ⟨he, hl⟩ := pairwise_cons.mp h
    unfold insertEntries
    split
    next hlt =>
      refine pairwise_cons.mpr ⟨?_, h⟩
      intro x hx
      rcases mem_cons.mp hx with rfl | hx
      · exact hlt
      · exact hlt.trans (he x hx)
    · split
      next heq =>
        refine pairwise_cons.mpr ⟨?_, hl⟩
        intro x hx
        rw [heq]
        exact he x hx
      next hnlt hne =>
        refine pairwise_cons.mpr ⟨?_, ih hl⟩
        intro x hx
        rcases mem_of_mem_insertEntries hx with rfl | hx
        · exact lt_of_le_of_ne (not_lt.mp hnlt) (Ne.symm hne)
        · exact he x hx

def insert (m : SortedMap κ ν) (k : κ) (v : ν) : SortedMap κ ν :=
  ⟨insertEntries k v m.entries, sorted_insertEntries m.sorted⟩

def erase (m : SortedMap κ ν) (k : κ) : SortedMap κ ν :=
  ⟨m.entries.filter fun e => e.1 ≠ k, m.sorted.filter _⟩

def get? (m : SortedMap κ ν) (k : κ) : Option ν :=
  (m.entries.find? fun e => e.1 = k).map Prod.snd

/-- The last entry with a key at or below `k`. -/
def lastLE (m : SortedMap κ ν) (k : κ) : Option (κ × ν) :=
  (m.entries.filter fun e => e.1 ≤ k).getLast?

variable {m : SortedMap κ ν} {k k' : κ} {v v' : ν}

/-! ## Lookup -/

lemma entry_unique {y : κ × ν} (hx : x ∈ m.entries) (hy : y ∈ m.entries) (h : x.1 = y.1) :
    x = y := by
  have hpair : m.entries.Pairwise fun a b => a.1 = b.1 → a = b :=
    m.sorted.imp fun hlt heq => absurd heq hlt.ne
  have hflip : m.entries.Pairwise fun a b => b.1 = a.1 → b = a :=
    m.sorted.imp fun hlt heq => absurd heq hlt.ne'
  exact List.Pairwise.forall_of_forall_of_flip (fun _ _ _ => rfl) hpair hflip hx hy h

theorem get?_eq_some_iff : m.get? k = some v ↔ (k, v) ∈ m.entries := by
  unfold get?
  rw [Option.map_eq_some_iff]
  constructor
  · rintro ⟨e, he, rfl⟩
    have hk : e.1 = k := by simpa using find?_some he
    rw [← hk]
    exact mem_of_find?_eq_some he
  · intro h
    obtain ⟨e, he⟩ := Option.isSome_iff_exists.mp
      (find?_isSome.mpr ⟨(k, v), h, by simp⟩ :
        (m.entries.find? fun e => e.1 = k).isSome)
    have hk : e.1 = k := by simpa using find?_some he
    exact ⟨e, he, congrArg Prod.snd (entry_unique (mem_of_find?_eq_some he) h hk)⟩

lemma get?_eq_none_iff : m.get? k = none ↔ ∀ v, (k, v) ∉ m.entries := by
  constructor
  · intro h v hv
    simp [get?_eq_some_iff.mpr hv] at h
  · intro h
    cases hg : m.get? k with
    | none => rfl
    | some v => exact absurd (get?_eq_some_iff.mp hg) (h v)

/-! ## Insertion and removal -/

lemma mem_erase : x ∈ (m.erase k).entries ↔ x ∈ m.entries ∧ x.1 ≠ k := by
  simp [erase]

lemma insertEntries_perm (h : l.Pairwise fun a b => a.1 < b.1) :
    (insertEntries k v l).Perm ((k, v) :: l.filter fun e => e.1 ≠ k) := by
  induction l with
  | nil => exact List.Perm.refl _
  | cons e l ih =>
    obtain ⟨he, hl⟩ := pairwise_cons.mp h
    unfold insertEntries
    split
    next hlt =>
      -- every key is above `k`
      have hkeep : (e :: l).filter (fun e => e.1 ≠ k) = e :: l := by
        rw [filter_eq_self]
        intro x hx
        rcases mem_cons.mp hx with rfl | hx
        · simpa using hlt.ne'
        · simpa using (hlt.trans (he x hx)).ne'
      rw [hkeep]
    · split
      next heq =>
        have hdrop : (e :: l).filter (fun e => e.1 ≠ k) = l := by
          rw [filter_cons_of_neg (by simp [heq]), filter_eq_self]
          intro x hx
          simpa [heq] using (he x hx).ne'
        rw [hdrop]
      next hne =>
        rw [filter_cons_of_pos (by simpa using Ne.symm hne)]
        exact ((ih hl).cons e).trans (List.Perm.swap _ _ _)

theorem entries_insert_perm : (m.insert k v).entries.Perm ((k, v) :: (m.erase k).entries) :=
  insertEntries_perm m.sorted

lemma mem_insert : x ∈ (m.insert k v).entries ↔ x = (k, v) ∨ (x ∈ m.entries ∧ x.1 ≠ k) := by
  rw [entries_insert_perm.mem_iff, mem_cons, mem_erase]

/-- Inserting an entry that is there changes nothing. -/
lemma insertEntries_eq_self (h : l.Pairwise fun a b => a.1 < b.1) (hmem : (k, v) ∈ l) :
    insertEntries k v l = l := by
  induction l with
  | nil => cases hmem
  | cons e l ih =>
    obtain ⟨he, hl⟩ := pairwise_cons.mp h
    unfold insertEntries
    rcases mem_cons.mp hmem with rfl | hmem
    · simp
    · have hlt : e.1 < k := he (k, v) hmem
      rw [if_neg hlt.not_gt, if_neg hlt.ne', ih hl hmem]

theorem entries_perm_of_mem (h : (k, v) ∈ m.entries) :
    m.entries.Perm ((k, v) :: (m.erase k).entries) := by
  have hperm := entries_insert_perm (m := m) (k := k) (v := v)
  rwa [show (m.insert k v).entries = m.entries from insertEntries_eq_self m.sorted h] at hperm

/-- Removing a key that was just written leaves the other entries. -/
lemma entries_erase_insert_perm : ((m.insert k v).erase k).entries.Perm (m.erase k).entries := by
  have hperm := (entries_insert_perm (m := m) (k := k) (v := v)).filter fun e => e.1 ≠ k
  refine hperm.trans ?_
  unfold erase
  simp

/-- The entries without a key that no entry has. -/
lemma erase_eq_self (h : ∀ v, (k, v) ∉ m.entries) : (m.erase k).entries = m.entries := by
  unfold erase
  rw [filter_eq_self]
  intro x hx
  have : x.1 ≠ k := by
    rintro rfl
    exact h x.2 hx
  simpa using this

lemma get?_insert_self : (m.insert k v).get? k = some v :=
  get?_eq_some_iff.mpr (mem_insert.mpr (.inl rfl))

lemma get?_insert_of_ne (h : k' ≠ k) : (m.insert k v).get? k' = m.get? k' := by
  apply Option.ext
  intro w
  rw [get?_eq_some_iff, get?_eq_some_iff, mem_insert]
  constructor
  · rintro (heq | ⟨hmem, -⟩)
    · exact absurd (congrArg Prod.fst heq) h
    · exact hmem
  · exact fun hmem => .inr ⟨hmem, h⟩

lemma get?_erase_self : (m.erase k).get? k = none :=
  get?_eq_none_iff.mpr fun _ hv => (mem_erase.mp hv).2 rfl

lemma get?_erase_of_ne (h : k' ≠ k) : (m.erase k).get? k' = m.get? k' := by
  apply Option.ext
  intro w
  rw [get?_eq_some_iff, get?_eq_some_iff, mem_erase]
  exact ⟨And.left, fun hmem => ⟨hmem, h⟩⟩

lemma get?_insert_eq_some :
    (m.insert k v).get? k' = some v' ↔ k' = k ∧ v = v' ∨ k' ≠ k ∧ m.get? k' = some v' := by
  rcases eq_or_ne k' k with rfl | h
  · simp [get?_insert_self]
  · simp [get?_insert_of_ne h, h]

lemma get?_erase_eq_some : (m.erase k).get? k' = some v' ↔ k' ≠ k ∧ m.get? k' = some v' := by
  rcases eq_or_ne k' k with rfl | h
  · simp [get?_erase_self]
  · simp [get?_erase_of_ne h, h]

/-! ## A table and the index of its keys -/

section Index

universe w

variable {α : Type w} {has : ν → α → Prop} [LinearOrder α] {index index' : SortedMap α κ}
  {key : α}

/-- The index leads from a key to the entry of the table that has it. -/
def Indexes (has : ν → α → Prop) (index : SortedMap α κ) (m : SortedMap κ ν) : Prop :=
  ∀ key k, index.get? key = some k ↔ ∃ v, m.get? k = some v ∧ has v key

section

variable (h : Indexes has index m)
include h

lemma Indexes.get? (hget : m.get? k = some v) : index.get? key = some k ↔ has v key := by
  rw [h key k, hget]
  simp

/-- An entry is written, and the keys that led to it are replaced by those it has now. -/
lemma Indexes.insert (hindex : ∀ key k', index'.get? key = some k' ↔
      k' = k ∧ has v key ∨ k' ≠ k ∧ index.get? key = some k') :
    Indexes has index' (m.insert k v) := by
  intro key k'
  rw [hindex, h key k']
  simp only [get?_insert_eq_some]
  rcases eq_or_ne k' k with rfl | hne
  · simp
  · simp [hne]

/-- An entry is taken out with the keys that led to it. -/
lemma Indexes.erase {m' : SortedMap κ ν}
    (hm : ∀ k' v, m'.get? k' = some v ↔ k' ≠ k ∧ m.get? k' = some v)
    (hindex : ∀ key k', index'.get? key = some k' ↔ index.get? key = some k' ∧ k' ≠ k) :
    Indexes has index' m' := by
  intro key k'
  rw [hindex, h key k']
  simp only [hm]
  rcases eq_or_ne k' k with rfl | hne
  · simp
  · simp [hne]

lemma Indexes.replace (hget : m.get? k = some v) (hsame : ∀ key, has v' key ↔ has v key) :
    Indexes has index (m.insert k v') := by
  refine h.insert fun key k' => ?_
  rcases eq_or_ne k' k with rfl | hne
  · simp [hsame, h.get? hget]
  · simp [hne]

/-- No key leads to what is not in the table. -/
lemma Indexes.ne_of_get? {k' : κ} (hget : m.get? k = none) (hindex : index.get? key = some k') :
    k' ≠ k := by
  rintro rfl
  obtain ⟨v, hv, -⟩ := (h key k').mp hindex
  simp [hget] at hv

/-- A fresh entry, with a key of its own or with none. -/
lemma Indexes.insert_fresh (hget : m.get? k = none) (keyed : Prop) [Decidable keyed]
    (hkey : keyed → index.get? key = none) (hhas : ∀ key', has v key' ↔ key' = key ∧ keyed) :
    Indexes has (if keyed then index.insert key k else index) (m.insert k v) := by
  refine h.insert fun key' k' => ?_
  have hne : index.get? key' = some k' → k' ≠ k := h.ne_of_get? hget
  rw [hhas]
  split
  next hk =>
    rw [get?_insert_eq_some]
    constructor
    · rintro (⟨rfl, rfl⟩ | ⟨-, hold⟩)
      · exact .inl ⟨rfl, rfl, hk⟩
      · exact .inr ⟨hne hold, hold⟩
    · rintro (⟨rfl, rfl, -⟩ | ⟨-, hold⟩)
      · simp
      · refine .inr ⟨?_, hold⟩
        rintro rfl
        simp [hkey hk] at hold
  next hk =>
    simp only [hk, and_false, false_or]
    exact ⟨fun hold => ⟨hne hold, hold⟩, And.right⟩

/-- The keys that are left when the key of an entry was taken out. -/
lemma Indexes.erase_key (hget : m.get? k = some v) (hhas : has v key) (hone : ∀ key', has v key' →
    key' = key) (key' : α) (k' : κ) :
    (index.erase key).get? key' = some k' ↔ index.get? key' = some k' ∧ k' ≠ k := by
  have hown := (h.get? hget).mpr hhas
  rw [get?_erase_eq_some, and_comm]
  refine and_congr_right fun hold => not_congr ⟨?_, ?_⟩
  · rintro rfl
    exact Option.some.inj (hold.symm.trans hown)
  · rintro rfl
    exact hone key' ((h.get? hget).mp hold)

/-- The keys that lead to an entry without one. -/
lemma Indexes.keyless (hget : m.get? k = some v) (hnone : ∀ key, ¬ has v key) (key : α) (k' : κ) :
    index.get? key = some k' ↔ index.get? key = some k' ∧ k' ≠ k := by
  refine (and_iff_left_of_imp fun hold => ?_).symm
  rintro rfl
  exact hnone key ((h.get? hget).mp hold)

end

end Index

/-! ## Changing every value -/

/-- Every value is changed in place. -/
def mapValues (m : SortedMap κ ν) (f : ν → ν) : SortedMap κ ν where
  entries := m.entries.map fun e => (e.1, f e.2)
  sorted := pairwise_map.mpr m.sorted

@[simp] lemma get?_mapValues (f : ν → ν) : (m.mapValues f).get? k = (m.get? k).map f := by
  unfold get? mapValues
  rw [find?_map, Option.map_map, Option.map_map]
  rfl

/-! ## The last entry at or below a key -/

theorem lastLE_eq_some (h : m.lastLE k = some x) :
    x ∈ m.entries ∧ x.1 ≤ k ∧ ∀ y ∈ m.entries, y.1 ≤ k → y.1 ≤ x.1 := by
  have hmem := mem_of_getLast? h
  obtain ⟨hx, hle⟩ := mem_filter.mp hmem
  refine ⟨hx, by simpa using hle, ?_⟩
  intro y hy hyk
  have hy' : y ∈ m.entries.filter fun e => e.1 ≤ k := mem_filter.mpr ⟨hy, by simpa using hyk⟩
  obtain ⟨init, hinit⟩ := getLast?_eq_some_iff.mp h
  have hs := m.sorted.filter (fun e => decide (e.1 ≤ k))
  rw [hinit] at hs hy'
  rcases mem_append.mp hy' with hy' | hy'
  · exact ((pairwise_append.mp hs).2.2 y hy' x (by simp)).le
  · rw [mem_singleton.mp hy']

end SortedMap

end Whusp.Lib
