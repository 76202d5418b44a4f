import Mathlib.Order.Basic
import Mathlib.Data.Nat.Basic
import Mathlib.Tactic.Tauto
import Whusp.Config
import Whusp.Lib.Transition

/-!
# Dirty ranges of a page

`DirtyPage::mark_dirty` of `fs/inode_state/dirty.rs`, on the ranges of the page.
-/

namespace Whusp.Fs.DirtyPage

open List
open Whusp.Lib (System)

abbrev DirtyRanges := List (Nat × Nat)

/-- The loop of `mark_dirty`, over the ranges from `index` on. -/
def markDirtyLoop (mergedStart mergedEnd : Nat) : DirtyRanges → DirtyRanges
  | [] => [(mergedStart, mergedEnd)]
  | (rangeStart, rangeEnd) :: rest =>
    if rangeEnd < mergedStart then
      (rangeStart, rangeEnd) :: markDirtyLoop mergedStart mergedEnd rest
    else if mergedEnd < rangeStart then
      (mergedStart, mergedEnd) :: (rangeStart, rangeEnd) :: rest
    else markDirtyLoop (min mergedStart rangeStart) (max mergedEnd rangeEnd) rest

def markDirty (ranges : DirtyRanges) (start stop : Nat) : DirtyRanges :=
  if start = stop then ranges else markDirtyLoop start stop ranges

/-- A page from `DirtyPage::empty` or `DirtyPage::full`, and the calls on it. -/
def system : System DirtyRanges (Nat × Nat) where
  init ranges := ranges = [] ∨ ranges = [(0, PAGE_SIZE)]
  step ranges call :=
    if call.1 ≤ call.2 ∧ call.2 ≤ PAGE_SIZE then some (markDirty ranges call.1 call.2) else none

/-- Nonempty ranges inside the page, in order and with a clean byte between each two. -/
def Merged (ranges : DirtyRanges) : Prop :=
  (∀ r ∈ ranges, r.1 < r.2 ∧ r.2 ≤ PAGE_SIZE) ∧ ranges.Pairwise fun a b => a.2 < b.1

/-- The byte `x` is dirty. -/
def Dirty (ranges : DirtyRanges) (x : Nat) : Prop := ∃ r ∈ ranges, r.1 ≤ x ∧ x < r.2

variable {ranges : DirtyRanges} {r : Nat × Nat} {start stop : Nat}

lemma merged_cons : Merged (r :: ranges) ↔
    (r.1 < r.2 ∧ r.2 ≤ PAGE_SIZE) ∧ (∀ b ∈ ranges, r.2 < b.1) ∧ Merged ranges := by
  simp only [Merged, forall_mem_cons, pairwise_cons]
  tauto

lemma dirty_cons {x : Nat} : Dirty (r :: ranges) x ↔ (r.1 ≤ x ∧ x < r.2) ∨ Dirty ranges x := by
  simp [Dirty]

/-- The loop makes dirty what it is given, and cleans nothing. -/
lemma dirty_markDirtyLoop (h : Merged ranges) (hlt : start < stop) (x : Nat) :
    Dirty (markDirtyLoop start stop ranges) x ↔ Dirty ranges x ∨ start ≤ x ∧ x < stop := by
  induction ranges generalizing start stop with
  | nil => simp [markDirtyLoop, Dirty]
  | cons r rest ih =>
    obtain ⟨hr, -, hrest⟩ := merged_cons.mp h
    unfold markDirtyLoop
    split
    · rw [dirty_cons, ih hrest hlt, dirty_cons, or_assoc]
    split
    · rw [dirty_cons, or_comm]
    · -- the two ranges meet or touch, so the merged one has no other bytes
      have hunion : min start r.1 ≤ x ∧ x < max stop r.2 ↔
          (r.1 ≤ x ∧ x < r.2) ∨ start ≤ x ∧ x < stop := by omega
      rw [ih hrest (by omega), dirty_cons, hunion, or_left_comm, or_assoc]

/-- The loop keeps the ranges in order and apart. -/
lemma merged_markDirtyLoop (h : Merged ranges) (hlt : start < stop) (hstop : stop ≤ PAGE_SIZE) :
    Merged (markDirtyLoop start stop ranges) := by
  induction ranges generalizing start stop with
  | nil => simp [markDirtyLoop, hlt, hstop, Merged]
  | cons r rest ih =>
    obtain ⟨hr, hpast, hrest⟩ := merged_cons.mp h
    unfold markDirtyLoop
    split
    next hbefore =>
      have hm := ih hrest hlt hstop
      refine merged_cons.mpr ⟨hr, fun b hb => ?_, hm⟩
      -- the first byte of a later range is one of `rest` or of the call
      rcases (dirty_markDirtyLoop hrest hlt b.1).mp ⟨b, hb, le_rfl, (hm.1 b hb).1⟩ with
        ⟨c, hc, hle, -⟩ | ⟨hle, -⟩
      · exact (hpast c hc).trans_le hle
      · omega
    split
    next hbehind =>
      refine merged_cons.mpr ⟨⟨hlt, hstop⟩, forall_mem_cons.mpr ⟨hbehind, fun b hb => ?_⟩, h⟩
      have := hpast b hb
      omega
    · exact ih hrest (by omega) (by omega)

/-- **Dirty ranges** after any calls. -/
theorem dirty_ranges_merged (h : system.Reachable System.anyStep ranges) :
    Merged ranges ∧ ∀ start stop, start ≤ stop → stop ≤ PAGE_SIZE → ∀ x,
      (Dirty (markDirty ranges start stop) x ↔ Dirty ranges x ∨ start ≤ x ∧ x < stop) := by
  have hmerged : Merged ranges := by
    refine h.invariant ?_ ?_
    · rintro _ (rfl | rfl) <;> simp [Merged, PAGE_SIZE]
    · rintro s ⟨start, stop⟩ _ hs - hstep
      obtain ⟨⟨hle, hstop⟩, rfl⟩ := of_guard hstep
      unfold markDirty
      split
      · exact hs
      · exact merged_markDirtyLoop hs (by omega) hstop
  refine ⟨hmerged, fun start stop hle _ x => ?_⟩
  unfold markDirty
  split
  · rw [or_iff_left (by omega)]
  · exact dirty_markDirtyLoop hmerged (by omega) x

/-- Three writes, of which the last joins the first. -/
theorem dirty_ranges_merged_joined : Merged [(0, 5), (9, 10)] :=
  (dirty_ranges_merged (.step (a := (0, 2)) (.step (a := (9, 10)) (.step (a := (2, 5))
    (.init (.inl rfl)) trivial rfl) trivial rfl) trivial rfl)).1

end Whusp.Fs.DirtyPage
