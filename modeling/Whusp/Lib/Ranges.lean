import Mathlib.Data.List.Basic
import Mathlib.Order.Basic
import Mathlib.Data.List.Pairwise

/-!
# Lists of labelled integer ranges

Closed, nonempty ranges of integers between two fixed bounds, and lists of such ranges that each
carry a label.  A list stands for the relation between labels and the points that its ranges
cover.  Two edits are described by what they do to that relation: carving a range out of the
ranges of some labels, and joining neighbours of one label that touch.
-/

namespace Whusp.Lib

open List

universe u

variable {bot top : Int}

/-- A nonempty closed range `[lo, hi]` inside `[bot, top]`. -/
structure Range (bot top : Int) where
  lo : Int
  hi : Int
  bot_le : bot ≤ lo
  le : lo ≤ hi
  le_top : hi ≤ top
  deriving DecidableEq

namespace Range

variable {r s : Range bot top} {x : Int}

instance : Membership Int (Range bot top) := ⟨fun r x => r.lo ≤ x ∧ x ≤ r.hi⟩

lemma mem_def : x ∈ r ↔ r.lo ≤ x ∧ x ≤ r.hi := Iff.rfl

instance : Decidable (x ∈ r) := inferInstanceAs (Decidable (r.lo ≤ x ∧ x ≤ r.hi))

def overlaps (r s : Range bot top) : Bool := decide (r.lo ≤ s.hi) && decide (s.lo ≤ r.hi)

/-- Overlapping is having a point in common. -/
lemma overlaps_iff : r.overlaps s = true ↔ ∃ x, x ∈ r ∧ x ∈ s := by
  have hr := r.le
  have hs := s.le
  unfold overlaps
  rw [Bool.and_eq_true, decide_eq_true_iff, decide_eq_true_iff]
  constructor
  · rintro ⟨h1, h2⟩
    -- the later of the two starts lies in both
    rcases Int.le_total r.lo s.lo with h | h
    · exact ⟨s.lo, ⟨h, h2⟩, ⟨Int.le_refl _, hs⟩⟩
    · exact ⟨r.lo, ⟨Int.le_refl _, hr⟩, ⟨h, h1⟩⟩
  · rintro ⟨x, ⟨h1, h2⟩, ⟨h3, h4⟩⟩
    exact ⟨Int.le_trans h1 h4, Int.le_trans h3 h2⟩

lemma overlaps_symm (h : r.overlaps s = true) : s.overlaps r = true := by
  obtain ⟨x, hr, hs⟩ := overlaps_iff.mp h
  exact overlaps_iff.mpr ⟨x, hs, hr⟩

def before (r s : Range bot top) : Option (Range bot top) :=
  if h : r.lo < s.lo then
    some ⟨r.lo, s.lo - 1, r.bot_le, by omega, by have := s.le; have := s.le_top; omega⟩
  else none

/-- The part of `r` behind `s`; nothing lies behind a range that ends at the upper bound. -/
def behind (r s : Range bot top) : Option (Range bot top) :=
  if h : s.hi ≠ top ∧ s.hi < r.hi then
    some ⟨s.hi + 1, r.hi, by have := s.le; have := s.bot_le; omega, by omega, r.le_top⟩
  else none

def minus (r s : Range bot top) : List (Range bot top) :=
  (r.before s).toList ++ (r.behind s).toList

lemma mem_before {p : Range bot top} (h : r.before s = some p) :
    p.lo = r.lo ∧ p.hi = s.lo - 1 ∧ r.lo < s.lo := by
  unfold before at h
  split at h
  next hlt =>
    cases h
    exact ⟨rfl, rfl, hlt⟩
  · cases h

lemma mem_behind {p : Range bot top} (h : r.behind s = some p) : p.lo = s.hi + 1 ∧ p.hi = r.hi := by
  unfold behind at h
  split at h
  · cases h
    simp
  · cases h

/-- What is left of a range: a part in front and a part behind. -/
lemma mem_minus {p : Range bot top} :
    p ∈ r.minus s ↔ r.before s = some p ∨ r.behind s = some p := by
  simp [minus]

/-- **Points of a difference** of two ranges that overlap. -/
theorem exists_mem_minus (h : r.overlaps s = true) : (∃ p ∈ r.minus s, x ∈ p) ↔ x ∈ r ∧ x ∉ s := by
  obtain ⟨y, ⟨hy1, hy2⟩, hy3, hy4⟩ := overlaps_iff.mp h
  constructor
  · rintro ⟨p, hp, hx1, hx2⟩
    rcases mem_minus.mp hp with hp | hp
    · obtain ⟨hlo, hhi, -⟩ := mem_before hp
      exact ⟨⟨by omega, by omega⟩, fun hs => by have := hs.1; omega⟩
    · obtain ⟨hlo, hhi⟩ := mem_behind hp
      exact ⟨⟨by omega, by omega⟩, fun hs => by have := hs.2; omega⟩
  · rintro ⟨⟨hx1, hx2⟩, hxs⟩
    by_cases hlt : x < s.lo
    · have hb : r.lo < s.lo := by omega
      exact ⟨_, mem_minus.mpr (.inl (dif_pos hb)), hx1, show x ≤ s.lo - 1 by omega⟩
    have hgt : s.hi < x := by
      by_contra hle
      exact hxs ⟨by omega, by omega⟩
    have hb : s.hi ≠ top ∧ s.hi < r.hi := by
      have := r.le_top
      omega
    exact ⟨_, mem_minus.mpr (.inr (dif_pos hb)), show s.hi + 1 ≤ x by omega, hx2⟩

/-- The parts that are left do not overlap. -/
lemma pairwise_minus : (r.minus s).Pairwise fun p q => ¬ p.overlaps q = true := by
  have hs := s.le
  unfold minus
  cases hb : r.before s with
  | none =>
    cases r.behind s with
    | none => exact List.Pairwise.nil
    | some q => exact pairwise_singleton _ _
  | some p =>
    rcases hq : r.behind s with _ | q
    · simp
    apply pairwise_pair.mpr
    intro hover
    obtain ⟨x, ⟨-, hx1⟩, hx2, -⟩ := overlaps_iff.mp hover
    obtain ⟨-, hhi, -⟩ := mem_before hb
    obtain ⟨hlo, -⟩ := mem_behind hq
    omega

/-- The part that two ranges have in common. -/
def clip (r s : Range bot top) (h : r.overlaps s = true) : Range bot top :=
  ⟨max r.lo s.lo, min r.hi s.hi, by have := r.bot_le; omega, by
    obtain ⟨x, ⟨h1, h2⟩, h3, h4⟩ := overlaps_iff.mp h
    omega, by have := r.le_top; omega⟩

/-- The clipped range is the intersection. -/
lemma mem_clip (h : r.overlaps s = true) : x ∈ r.clip s h ↔ x ∈ r ∧ x ∈ s := by
  simp only [mem_def, clip]
  omega

/-- `s` starts inside `r` or right behind it. -/
def touches (r s : Range bot top) : Bool :=
  decide (r.hi = top) || decide (s.lo ≤ min (r.hi + 1) top)

/-- `r`, prolonged to the end of `s` where that lies further. -/
def extend (r s : Range bot top) : Range bot top :=
  ⟨r.lo, max r.hi s.hi, r.bot_le, by have := r.le; omega,
    by have := r.le_top; have := s.le_top; omega⟩

/-- Ranges that touch join to their union. -/
lemma mem_extend (htouch : r.touches s = true) (hlo : r.lo ≤ s.lo) :
    x ∈ r.extend s ↔ x ∈ r ∨ x ∈ s := by
  have htop := s.le_top
  unfold touches at htouch
  rw [Bool.or_eq_true, decide_eq_true_iff, decide_eq_true_iff] at htouch
  simp only [mem_def, extend]
  omega

end Range

/-! ## Labelled ranges -/

structure Labelled (τ : Type u) (bot top : Int) where
  tag : τ
  range : Range bot top
  deriving DecidableEq

variable {τ : Type u} {l : List (Labelled τ bot top)} {a b : Labelled τ bot top} {t : τ} {x : Int}

def Covers (l : List (Labelled τ bot top)) (t : τ) (x : Int) : Prop :=
  ∃ a ∈ l, a.tag = t ∧ x ∈ a.range

@[simp]
lemma covers_nil : ¬ Covers ([] : List (Labelled τ bot top)) t x := by
  simp [Covers]

@[simp]
lemma covers_cons : Covers (a :: l) t x ↔ (a.tag = t ∧ x ∈ a.range) ∨ Covers l t x := by
  simp [Covers]

variable {l' : List (Labelled τ bot top)}

@[simp]
lemma covers_append : Covers (l ++ l') t x ↔ Covers l t x ∨ Covers l' t x := by
  simp only [Covers, mem_append, or_and_right, exists_or]

lemma covers_perm (h : l.Perm l') : Covers l t x ↔ Covers l' t x := by
  simp only [Covers, h.mem_iff]

lemma covers_map_mk {ranges : List (Range bot top)} {t' : τ} :
    Covers (ranges.map (Labelled.mk t')) t x ↔ t' = t ∧ ∃ r ∈ ranges, x ∈ r := by
  constructor
  · rintro ⟨a, ha, rfl, hx⟩
    obtain ⟨r, hr, rfl⟩ := mem_map.mp ha
    exact ⟨rfl, r, hr, hx⟩
  · rintro ⟨rfl, r, hr, hx⟩
    exact ⟨⟨t', r⟩, mem_map_of_mem hr, rfl, hx⟩

/-- Filtering by the tag filters what is covered. -/
lemma covers_filter_tag {q : τ → Bool} :
    Covers (l.filter fun a => q a.tag) t x ↔ Covers l t x ∧ q t = true := by
  constructor
  · rintro ⟨a, ha, rfl, hx⟩
    obtain ⟨ha, hq⟩ := mem_filter.mp ha
    exact ⟨⟨a, ha, rfl, hx⟩, hq⟩
  · rintro ⟨⟨a, ha, rfl, hx⟩, hq⟩
    exact ⟨a, mem_filter.mpr ⟨ha, hq⟩, rfl, hx⟩

/-- Ranges of related labels do not overlap. -/
def Apart (same : τ → τ → Prop) (a b : Labelled τ bot top) : Prop :=
  same a.tag b.tag → ¬ a.range.overlaps b.range = true

def Separate (same : τ → τ → Prop) (l : List (Labelled τ bot top)) : Prop :=
  l.Pairwise (Apart same)

variable {same : τ → τ → Prop}

open Range

/-- A range is apart from a whole list where no point of it is covered under a related label. -/
lemma apart_of_not_covers (h : ∀ t x, x ∈ a.range → same a.tag t → ¬ Covers l t x) :
    ∀ b ∈ l, Apart same a b := by
  intro b hb hsame hover
  obtain ⟨x, hxa, hxb⟩ := overlaps_iff.mp hover
  exact h b.tag x hxa hsame ⟨b, hb, rfl, hxb⟩

/-- Nothing in the list covers a point of a range that is apart from it. -/
lemma not_covers_of_apart (h : ∀ b ∈ l, Apart same a b) (hx : x ∈ a.range)
    (hsame : same a.tag t) : ¬ Covers l t x := by
  rintro ⟨b, hb, rfl, hxb⟩
  exact h b hb hsame (overlaps_iff.mpr ⟨x, hx, hxb⟩)

section Separate

variable [Std.Symm same]

instance : Std.Symm (Apart same : Labelled τ bot top → Labelled τ bot top → Prop) :=
  ⟨fun _ _ h hsame hover => h (Std.Symm.symm _ _ hsame) (Range.overlaps_symm hover)⟩

lemma Separate.perm {l' : List (Labelled τ bot top)} (h : Separate same l)
    (hperm : l.Perm l') : Separate same l' :=
  hperm.pairwise h fun hab => Std.Symm.symm _ _ hab

/-- Two related labels that cover one point are the same label. -/
lemma Separate.unique (h : Separate same l) {t' : τ} (ht : Covers l t x) (ht' : Covers l t' x)
    (hsame : same t t') : t = t' := by
  obtain ⟨a, ha, rfl, hxa⟩ := ht
  obtain ⟨b, hb, rfl, hxb⟩ := ht'
  by_contra hne
  have hab : Apart same a b := List.Pairwise.forall h ha hb fun hab => hne (congrArg _ hab)
  exact hab hsame (overlaps_iff.mpr ⟨x, hxa, hxb⟩)

end Separate

/-! ## Carving a range out -/

/-- What is left of one range. -/
def carveOne (p : τ → Bool) (r : Range bot top) (a : Labelled τ bot top) :
    List (Labelled τ bot top) :=
  if p a.tag && a.range.overlaps r then (a.range.minus r).map (Labelled.mk a.tag) else [a]

/-- Take the points of `r` away from the ranges whose label meets `p`. -/
def carve (p : τ → Bool) (r : Range bot top) (l : List (Labelled τ bot top)) :
    List (Labelled τ bot top) :=
  l.flatMap (carveOne p r)

variable {p : τ → Bool} {r : Range bot top}

/-- Carving takes out the points of the range, for the tags in question. -/
lemma covers_carveOne :
    Covers (carveOne p r a) t x ↔ (a.tag = t ∧ x ∈ a.range) ∧ ¬ (p t = true ∧ x ∈ r) := by
  unfold carveOne
  split
  next hcut =>
    rw [Bool.and_eq_true] at hcut
    rw [covers_map_mk, exists_mem_minus hcut.2, and_assoc]
    refine and_congr_right fun htag => and_congr_right fun _ => ?_
    simp [← htag, hcut.1]
  next hkeep =>
    simp only [covers_cons, covers_nil, or_false]
    refine (and_iff_left_of_imp ?_).symm
    -- a range that is kept whole has no point to lose
    rintro ⟨rfl, hx⟩ ⟨hp, hr⟩
    exact hkeep (Bool.and_eq_true_iff.mpr ⟨hp, overlaps_iff.mpr ⟨x, hx, hr⟩⟩)

/-- **Carving removes exactly** the points of the range, for exactly the labels that meet the
test. -/
theorem covers_carve : Covers (carve p r l) t x ↔ Covers l t x ∧ ¬ (p t = true ∧ x ∈ r) := by
  induction l with
  | nil => simp [carve]
  | cons a l ih =>
    have hcons : carve p r (a :: l) = carveOne p r a ++ carve p r l := flatMap_cons
    rw [hcons, covers_append, ih, covers_cons, covers_carveOne, or_and_right]

/-- A piece lies inside the range that it is cut from. -/
lemma mem_carveOne (h : b ∈ carveOne p r a) : b.tag = a.tag ∧ ∀ x ∈ b.range, x ∈ a.range := by
  have hpoint : ∀ x ∈ b.range, a.tag = b.tag ∧ x ∈ a.range := fun x hx =>
    (covers_carveOne.mp ⟨b, h, rfl, hx⟩).1
  exact ⟨(hpoint _ ⟨Int.le_refl _, b.range.le⟩).1.symm, fun x hx => (hpoint x hx).2⟩

lemma pairwise_carveOne : (carveOne p r a).Pairwise (Apart same) := by
  unfold carveOne
  split
  · refine pairwise_map.mpr (pairwise_minus.imp ?_)
    intro first second hover _
    exact hover
  · simp

/-- Carving keeps ranges apart. -/
theorem Separate.carve (h : Separate same l) (p : τ → Bool) (r : Range bot top) :
    Separate same (carve p r l) := by
  apply pairwise_flatMap.mpr
  refine ⟨fun a _ => pairwise_carveOne, h.imp ?_⟩
  -- pieces of two different ranges
  intro a b hab a' ha' b' hb' hsame hover
  obtain ⟨x, hxa, hxb⟩ := overlaps_iff.mp hover
  obtain ⟨hta, hsuba⟩ := mem_carveOne ha'
  obtain ⟨htb, hsubb⟩ := mem_carveOne hb'
  rw [hta, htb] at hsame
  exact hab hsame (overlaps_iff.mpr ⟨x, hsuba x hxa, hsubb x hxb⟩)

/-! ## Joining neighbours -/

variable [DecidableEq τ]

/-- The loop of `coalesce` with the last range it has put out. -/
def coalesceLoop : Labelled τ bot top → List (Labelled τ bot top) → List (Labelled τ bot top)
  | last, [] => [last]
  | last, a :: l =>
    if last.tag = a.tag && last.range.touches a.range then
      coalesceLoop { last with range := last.range.extend a.range } l
    else last :: coalesceLoop a l

/-- Join each range with the one before it where the labels agree and the ranges touch. -/
def coalesce : List (Labelled τ bot top) → List (Labelled τ bot top)
  | [] => []
  | a :: l => coalesceLoop a l

/-- Ranges of one label stand in the order of their starts. -/
def Ascending (l : List (Labelled τ bot top)) : Prop :=
  l.Pairwise fun a b => a.tag = b.tag → a.range.lo ≤ b.range.lo

omit [DecidableEq τ] in
/-- Joining the first two ranges keeps the order. -/
lemma Ascending.extend (h : Ascending (a :: b :: l)) :
    Ascending ({ a with range := a.range.extend b.range } :: l) := by
  obtain ⟨ha, hl⟩ := pairwise_cons.mp h
  obtain ⟨-, hl⟩ := pairwise_cons.mp hl
  exact pairwise_cons.mpr ⟨fun c hc => ha c (mem_cons_of_mem _ hc), hl⟩

lemma covers_coalesceLoop (h : Ascending (a :: l)) :
    Covers (coalesceLoop a l) t x ↔ Covers (a :: l) t x := by
  induction l generalizing a with
  | nil => rfl
  | cons b l ih =>
    unfold coalesceLoop
    split
    swap
    · rw [covers_cons, ih (pairwise_cons.mp h).2, covers_cons (a := a)]
    rename_i hjoin
    rw [Bool.and_eq_true, decide_eq_true_iff] at hjoin
    obtain ⟨htag, htouch⟩ := hjoin
    have hlo := (pairwise_cons.mp h).1 b mem_cons_self htag
    rw [ih h.extend]
    simp only [covers_cons, mem_extend htouch hlo, ← htag]
    tauto

/-- Coalescing covers what the list covered. -/
theorem covers_coalesce (h : Ascending l) : Covers (coalesce l) t x ↔ Covers l t x := by
  cases l with
  | nil => rfl
  | cons a l => exact covers_coalesceLoop h

lemma Separate.coalesceLoop (h : Separate same (a :: l)) (hasc : Ascending (a :: l)) :
    Separate same (coalesceLoop a l) := by
  induction l generalizing a with
  | nil => exact h
  | cons b l ih =>
    obtain ⟨ha, hl⟩ := pairwise_cons.mp h
    unfold Lib.coalesceLoop
    split
    next hjoin =>
      rw [Bool.and_eq_true, decide_eq_true_iff] at hjoin
      obtain ⟨htag, htouch⟩ := hjoin
      have hlo := (pairwise_cons.mp hasc).1 b mem_cons_self htag
      apply ih _ hasc.extend
      refine pairwise_cons.mpr ⟨apart_of_not_covers ?_, (pairwise_cons.mp hl).2⟩
      intro t x hx hsame hcov
      -- a point of the joined range is a point of one of the two
      rcases (mem_extend htouch hlo).mp hx with hx | hx
      · exact not_covers_of_apart (fun c hc => ha c (mem_cons_of_mem _ hc)) hx hsame hcov
      · exact not_covers_of_apart (pairwise_cons.mp hl).1 hx (htag ▸ hsame) hcov
    · have hasc' := (pairwise_cons.mp hasc).2
      refine pairwise_cons.mpr ⟨apart_of_not_covers ?_, ih hl hasc'⟩
      intro t x hx hsame hcov
      exact not_covers_of_apart ha hx hsame ((covers_coalesceLoop hasc').mp hcov)

/-- Coalescing keeps ranges apart. -/
theorem Separate.coalesce (h : Separate same l) (hasc : Ascending l) :
    Separate same (coalesce l) := by
  cases l with
  | nil => exact h
  | cons a l => exact Separate.coalesceLoop h hasc

end Whusp.Lib
