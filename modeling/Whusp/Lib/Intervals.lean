import Mathlib.Data.List.Basic

/-!
# Vectors of ordered intervals

A list of items that each span an interval `[lo, hi)`, kept in order: every item ends at or
before the next one starts.  Empty intervals are allowed.  The list is searched by
bisection on the starts, and edited by inserting, replacing and splitting items at an
index.
-/

namespace Whusp.Lib

open List

universe u

/-! ## Bisection -/

/-- The loop of a binary search for the first position where `p` fails; the distance of the
bounds is enough fuel. -/
def partitionLoop (p : Nat → Bool) : Nat → Nat → Nat → Nat
  | 0, low, _ => low
  | fuel + 1, low, high =>
    if low < high then
      if p ((low + high) / 2) then partitionLoop p fuel ((low + high) / 2 + 1) high
      else partitionLoop p fuel low ((low + high) / 2)
    else low

def partitionPoint (p : Nat → Bool) (n : Nat) : Nat := partitionLoop p n 0 n

variable {n : Nat} {p : Nat → Bool}

/-- Below `low` the test holds, from `high` on it fails: the loop ends at the boundary. -/
lemma partitionLoop_spec {fuel low high : Nat}
    (hmono : ∀ i j, i ≤ j → j < n → p j = true → p i = true) (hfuel : high - low ≤ fuel)
    (hle : low ≤ high) (hn : high ≤ n) (hbelow : ∀ i, i < low → p i = true)
    (habove : ∀ i, high ≤ i → i < n → p i = false) : partitionLoop p fuel low high ≤ n ∧
      (∀ i, i < partitionLoop p fuel low high → p i = true) ∧
      ∀ i, partitionLoop p fuel low high ≤ i → i < n → p i = false := by
  induction fuel generalizing low high with
  | zero =>
    obtain rfl : low = high := by omega
    exact ⟨hn, hbelow, habove⟩
  | succ fuel ih =>
    unfold partitionLoop
    split
    · split
      next hmid =>
        apply ih (by omega) (by omega) hn
        · intro i hi
          exact hmono i _ (by omega) (by omega) hmid
        · exact habove
      next hmid =>
        apply ih (by omega) (by omega) (by omega) hbelow
        intro i hi hin
        -- a later position where the test holds would make it hold at the middle
        cases hp : p i with
        | false => rfl
        | true => exact absurd (hmono _ i hi hin hp) hmid
    · obtain rfl : low = high := by omega
      exact ⟨hn, hbelow, habove⟩

theorem partitionPoint_spec (hmono : ∀ i j, i ≤ j → j < n → p j = true → p i = true) :
    partitionPoint p n ≤ n ∧ (∀ i, i < partitionPoint p n → p i = true) ∧
      ∀ i, partitionPoint p n ≤ i → i < n → p i = false :=
  partitionLoop_spec hmono (Nat.le_refl _) (Nat.zero_le _) (Nat.le_refl _)
    (fun _ hi => absurd hi (Nat.not_lt_zero _)) (fun _ h1 h2 => absurd h2 (Nat.not_lt.mpr h1))

/-! ## Edits at an index -/

variable {α : Type u}

def insertAt (l : List α) (i : Nat) (a : α) : List α := l.take i ++ a :: l.drop i

variable {l : List α} {i : Nat} {a : α}

lemma mem_insertAt {b : α} : b ∈ insertAt l i a ↔ b = a ∨ b ∈ l := by
  rw [insertAt, mem_append, mem_cons, or_left_comm, ← mem_append, take_append_drop]

lemma set_eq_of_getElem? {a' : α} (h : l[i]? = some a) :
    l.set i a' = l.take i ++ a' :: l.drop (i + 1) := by
  rw [List.set_eq_take_append_cons_drop, if_pos (List.getElem?_eq_some_iff.mp h).1]

lemma eq_of_getElem? (h : l[i]? = some a) : l = l.take i ++ a :: l.drop (i + 1) := by
  obtain ⟨hi, ha⟩ := List.getElem?_eq_some_iff.mp h
  rw [← ha, getElem_cons_drop, take_append_drop]

/-- Replacing an item and inserting another one behind it. -/
lemma insertAt_set {b c : α} (h : l[i]? = some a) :
    insertAt (l.set i b) (i + 1) c = l.take i ++ b :: c :: l.drop (i + 1) := by
  have hi := (List.getElem?_eq_some_iff.mp h).1
  have hlen : (l.take i).length = i := by
    rw [List.length_take]
    omega
  have hle : (l.take i).length ≤ i + 1 := by omega
  have hsub : i + 1 - (l.take i).length = 1 := by omega
  unfold insertAt
  rw [set_eq_of_getElem? h, List.take_append, List.drop_append, hsub,
    List.take_of_length_le hle, List.drop_of_length_le hle]
  simp

/-! ## Ordered intervals -/

/-- The interval `[lo, hi)` that an item spans. -/
structure Span (α : Type u) where
  lo : α → Nat
  hi : α → Nat
  le : ∀ a, lo a ≤ hi a

namespace Span

variable (S : Span α)

/-- Every item ends at or before the next one starts. -/
def Ordered (l : List α) : Prop := l.Pairwise fun a b => S.hi a ≤ S.lo b

def Contains (a : α) (x : Nat) : Prop := S.lo a ≤ x ∧ x < S.hi a

instance (a : α) (x : Nat) : Decidable (S.Contains a x) := inferInstanceAs (Decidable (_ ∧ _))

/-- The first index whose item starts at or past `x`. -/
def lowerBound (l : List α) (x : Nat) : Nat :=
  partitionPoint (fun i => l[i]?.any fun a => decide (S.lo a < x)) l.length

/-- The first index whose item starts past `x`. -/
def upperBound (l : List α) (x : Nat) : Nat :=
  partitionPoint (fun i => l[i]?.any fun a => decide (S.lo a ≤ x)) l.length

variable {S} {l : List α}

variable {i : Nat} {a b : α}
variable {j x : Nat} {l' : List α}

section

variable (h : S.Ordered l)
include h

section

variable (hij : i ≤ j) (ha : l[i]? = some a) (hb : l[j]? = some b)
include hij ha hb

/-- Of two positions, the item at the first is the other one or ends before it starts. -/
lemma Ordered.eq_or_le :
    a = b ∨ S.hi a ≤ S.lo b := by
  rcases Nat.lt_or_eq_of_le hij with hlt | rfl
  · obtain ⟨hi, rfl⟩ := List.getElem?_eq_some_iff.mp ha
    obtain ⟨hj, rfl⟩ := List.getElem?_eq_some_iff.mp hb
    exact .inr (pairwise_iff_getElem.mp h i j hi hj hlt)
  · exact .inl (Option.some.inj (ha.symm.trans hb))

lemma Ordered.lo_le :
    S.lo a ≤ S.lo b := by
  rcases h.eq_or_le hij ha hb with rfl | hle
  · simp
  · exact Nat.le_trans (S.le a) hle

lemma Ordered.hi_le :
    S.hi a ≤ S.hi b := by
  rcases h.eq_or_le hij ha hb with rfl | hle
  · simp
  · exact Nat.le_trans hle (S.le b)

end

/-- What the last item of a prefix ends before, all of the prefix ends before. -/
lemma Ordered.hi_le_of_mem_take {k : Nat}
    (hlast : ∀ p, 0 < k → l[k - 1]? = some p → S.hi p ≤ x) (hk : k ≤ l.length) (hb : b ∈ l.take k) :
    S.hi b ≤ x := by
  obtain ⟨i, hi⟩ := mem_iff_getElem?.mp hb
  have hik : i < k := by
    have := (List.getElem?_eq_some_iff.mp hi).1
    rw [length_take] at this
    omega
  rw [getElem?_take_of_lt hik] at hi
  have hlt : k - 1 < l.length := by omega
  have hlast' := getElem?_eq_getElem hlt
  exact Nat.le_trans (h.hi_le (by omega) hi hlast') (hlast _ (by omega) hlast')

/-- A bound on the starts that is downward closed is found by bisection. -/
lemma Ordered.partition {q : Nat → Bool}
    (hq : ∀ x y, x ≤ y → q y = true → q x = true) :
    let k := partitionPoint (fun i => l[i]?.any fun a => q (S.lo a)) l.length
    k ≤ l.length ∧ (∀ a ∈ l.take k, q (S.lo a) = true) ∧ ∀ a ∈ l.drop k, q (S.lo a) = false := by
  intro k
  obtain ⟨hk, hbelow, habove⟩ := partitionPoint_spec
    (p := fun i => l[i]?.any fun a => q (S.lo a)) (n := l.length) (by
      intro i j hij hj hpj
      have hi : i < l.length := by omega
      simp only [getElem?_eq_getElem hi, getElem?_eq_getElem hj, Option.any_some] at hpj ⊢
      exact hq _ _ (h.lo_le hij (getElem?_eq_getElem hi) (getElem?_eq_getElem hj)) hpj)
  refine ⟨hk, ?_, ?_⟩
  · intro a ha
    obtain ⟨i, hi, rfl⟩ := mem_iff_getElem.mp ha
    rw [length_take] at hi
    have := hbelow i (by omega)
    rw [getElem?_eq_getElem (by omega)] at this
    rw [getElem_take]
    exact this
  · intro a ha
    obtain ⟨i, hi, rfl⟩ := mem_iff_getElem.mp ha
    rw [length_drop] at hi
    have := habove (k + i) (Nat.le_add_right _ _) (by omega)
    rw [getElem?_eq_getElem (by omega)] at this
    rw [getElem_drop]
    exact this

lemma Ordered.lowerBound_spec (x : Nat) :
    S.lowerBound l x ≤ l.length ∧ (∀ a ∈ l.take (S.lowerBound l x), S.lo a < x) ∧
      ∀ a ∈ l.drop (S.lowerBound l x), x ≤ S.lo a := by
  obtain ⟨hk, hb, ha⟩ := h.partition (q := fun y => decide (y < x))
    (fun y z hyz hz => decide_eq_true (Nat.lt_of_le_of_lt hyz (of_decide_eq_true hz)))
  exact ⟨hk, fun a hm => of_decide_eq_true (hb a hm),
    fun a hm => Nat.not_lt.mp (of_decide_eq_false (ha a hm))⟩

lemma Ordered.upperBound_spec (x : Nat) :
    S.upperBound l x ≤ l.length ∧ (∀ a ∈ l.take (S.upperBound l x), S.lo a ≤ x) ∧
      ∀ a ∈ l.drop (S.upperBound l x), x < S.lo a := by
  obtain ⟨hk, hb, ha⟩ := h.partition (q := fun y => decide (y ≤ x))
    (fun y z hyz hz => decide_eq_true (Nat.le_trans hyz (of_decide_eq_true hz)))
  exact ⟨hk, fun a hm => of_decide_eq_true (hb a hm),
    fun a hm => Nat.not_le.mp (of_decide_eq_false (ha a hm))⟩

/-! ## Edits that keep the order -/

lemma Ordered.join (h' : S.Ordered l')
    (hcross : ∀ b ∈ l, ∀ c ∈ l', S.hi b ≤ S.lo c) (hbefore : ∀ b ∈ l, S.hi b ≤ S.lo a)
    (hafter : ∀ b ∈ l', S.hi a ≤ S.lo b) : S.Ordered (l ++ a :: l') := by
  refine pairwise_append.mpr ⟨h, pairwise_cons.mpr ⟨hafter, h'⟩, fun b hb => ?_⟩
  exact forall_mem_cons.mpr ⟨hbefore b hb, hcross b hb⟩

theorem Ordered.insertAt (hbefore : ∀ b ∈ l.take i, S.hi b ≤ S.lo a)
    (hafter : ∀ b ∈ l.drop i, S.hi a ≤ S.lo b) : S.Ordered (insertAt l i a) := by
  rw [← take_append_drop i l] at h
  obtain ⟨hl, hr, hcross⟩ := pairwise_append.mp h
  exact Ordered.join hl hr hcross hbefore hafter

lemma Ordered.parts (ha : l[i]? = some a) :
    S.Ordered (l.take i) ∧ S.Ordered (l.drop (i + 1)) ∧ (∀ b ∈ l.take i, S.hi b ≤ S.lo a) ∧
      (∀ b ∈ l.drop (i + 1), S.hi a ≤ S.lo b) ∧
      ∀ b ∈ l.take i, ∀ c ∈ l.drop (i + 1), S.hi b ≤ S.lo c := by
  rw [eq_of_getElem? ha] at h
  obtain ⟨hl, hr, hcross⟩ := pairwise_append.mp h
  obtain ⟨har, hr⟩ := pairwise_cons.mp hr
  exact ⟨hl, hr, fun b hb => hcross b hb a mem_cons_self, har,
    fun b hb c hc => hcross b hb c (mem_cons_of_mem _ hc)⟩

theorem Ordered.set {a' : α} (ha : l[i]? = some a)
    (hbefore : ∀ b ∈ l.take i, S.hi b ≤ S.lo a') (hafter : ∀ b ∈ l.drop (i + 1), S.hi a' ≤ S.lo b) :
    S.Ordered (l.set i a') := by
  obtain ⟨hl, hr, -, -, hcross⟩ := h.parts ha
  rw [set_eq_of_getElem? ha]
  exact hl.join hr hcross hbefore hafter

/-- Splitting an item in two at a point of its interval. -/
theorem Ordered.split {c : α} (ha : l[i]? = some a) (hb : S.lo b = S.lo a)
    (hbc : S.hi b = S.lo c) (hc : S.hi c = S.hi a) :
    S.Ordered (Lib.insertAt (l.set i b) (i + 1) c) := by
  obtain ⟨hl, hr, hbefore, hafter, hcross⟩ := h.parts ha
  rw [insertAt_set ha]
  have hle := S.le b
  have hle' := S.le c
  refine hl.join (pairwise_cons.mpr ⟨fun d hd => hc ▸ hafter d hd, hr⟩)
    (fun d hd => forall_mem_cons.mpr ⟨?_, hcross d hd⟩) (fun d hd => hb ▸ hbefore d hd)
    (forall_mem_cons.mpr ⟨Nat.le_of_eq hbc, fun d hd => ?_⟩)
  · have := hbefore d hd
    omega
  · have := hafter d hd
    omega

lemma Ordered.sublist (hs : l'.Sublist l) : S.Ordered l' :=
  List.Pairwise.sublist hs h

/-! ## Search -/

/-- **The predecessor decides**: an item contains `x` exactly when the last item that starts
at or below `x` does. -/
theorem Ordered.predecessor (ha : l[i]? = some a) (hc : S.Contains a x) :
    S.upperBound l x = i + 1 := by
  obtain ⟨hk, hbelow, habove⟩ := h.upperBound_spec x
  obtain ⟨hi, rfl⟩ := List.getElem?_eq_some_iff.mp ha
  obtain ⟨hlo, hhi⟩ := hc
  rcases Nat.lt_trichotomy (S.upperBound l x) (i + 1) with hlt | heq | hgt
  · -- the item would start past `x`
    have hmem : l[i] ∈ l.drop (S.upperBound l x) := by
      rw [mem_drop_iff_getElem]
      exact ⟨i - S.upperBound l x, by omega, by congr 1; omega⟩
    have := habove _ hmem
    omega
  · exact heq
  · -- the next item starts at or below `x`, but not before this one ends
    have hmem : l[i + 1] ∈ l.take (S.upperBound l x) := by
      rw [mem_take_iff_getElem]
      exact ⟨i + 1, by omega, rfl⟩
    have h1 := hbelow _ hmem
    have h2 := pairwise_iff_getElem.mp h i (i + 1) hi (by omega) (by omega)
    omega

end

end Span

end Whusp.Lib
