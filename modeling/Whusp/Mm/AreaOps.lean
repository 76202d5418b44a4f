import Whusp.Mm.AreaList

/-!
# The area operations keep the order

One lemma for each operation on the list of areas.  Removals, splits, `munmap`, `mprotect`,
detaching, shrinking the heap and grow-down faults keep the order unconditionally.  The
others insert or extend an area, and are given the room that they do not (fully) check for
themselves.
-/

namespace Whusp.Mm

open List Option

open Whusp.Lib (Span insertAt)
open Whusp.Syscall (Arch USIZE_RANGE)

namespace MemorySet

variable {s s' : MemorySet} {m : Machine}

/-! ## One operation -/

lemma Ordered.of_areas (hs : s.Ordered) (h : s'.areas = s.areas) : s'.Ordered := by
  unfold Ordered
  rw [h]
  exact hs

lemma Ordered.sublist (hs : s.Ordered) (h : s'.areas.Sublist s.areas) : s'.Ordered :=
  Span.Ordered.sublist hs h

variable {perm : MapPermission}
variable {endVa startVa start idx oldAddr : Nat} {fresh : MapArea} {info : MmapInfo} {mapped : Bool}
  {access : MmapFaultAccess}

open MapArea

/-- Inserting a fresh area, whatever is recorded in it besides its range. -/
lemma Ordered.insertNew (hs : s.Ordered) (area : MapArea)
    (hnew : new? m.arch startVa endVa perm = some fresh)
    (hrange : area.vpnRange = fresh.vpnRange)
    (hfit : ∀ b ∈ s.areas, Fits (m.arch.floor startVa) (ceil m.arch endVa) b) :
    (s.insertAreaSorted area).Ordered := by
  obtain ⟨hstart, hstop⟩ := new?_eq_some hnew
  apply hs.insertAreaSorted
  intro b hb
  have hlo : area.start = m.arch.floor startVa := (congrArg VpnRange.start hrange).trans hstart
  have hhi : area.stop = ceil m.arch endVa := (congrArg VpnRange.stop hrange).trans hstop
  rw [hlo, hhi]
  exact hfit b hb

lemma Ordered.splitTwice (hs : s.Ordered) (at₁ at₂ : Nat) :
    ((s.splitAreaAt at₁).splitAreaAt at₂).Ordered :=
  (hs.splitAreaAt at₁).splitAreaAt at₂

/-- What is left of the list when a range was cleared fits beside the range. -/
lemma fits_clearRange (hs : s.Ordered) {startVpn endVpn : Nat} (hno : s.NoEmptyAt startVpn)
    {b : MapArea} (hb : b ∈ (s.clearRange startVpn endVpn).areas) : Fits startVpn endVpn b := by
  have hs₁ := hs.splitAreaAt startVpn
  have hs₂ := hs.splitTwice startVpn endVpn
  have hcut := (cutAt_splitAreaAt hs startVpn).splitAreaAt hs₁ endVpn
  have hno₂ := (hno.splitAreaAt hs startVpn).splitAreaAt hs₁ endVpn
  unfold clearRange at hb
  generalize (s.splitAreaAt startVpn).splitAreaAt endVpn = t at *
  rcases mem_append.mp hb with hb | hb
  · -- below the first area that ends after the start
    have hle := le_trans (firstAreaIdxEndingAfter_le t startVpn) (le_refl _)
    have hmem : b ∈ t.areas.take (t.areaInsertIndex startVpn) :=
      (take_sublist_take_left hle).subset hb
    have hlt : b.start < startVpn := (hs₂.lowerBound_spec startVpn).2.1 b hmem
    exact ⟨hcut b (mem_of_mem_take hb), fun h => absurd hlt (not_lt.mpr h)⟩
  · have hmem := mem_of_mem_drop ((removeScan_sublist _ _ _).subset hb)
    have hdone : (t.areas.drop (t.firstAreaIdxEndingAfter startVpn)).Pairwise fun a b =>
        decide (endVpn ≤ a.start) = true → decide (endVpn ≤ b.start) = true := by
      apply (List.Pairwise.sublist (drop_sublist _ _) hs₂).imp
      intro x y hxy hx
      have hle : x.stop ≤ y.start := hxy
      have := x.start_le_stop
      exact decide_eq_true (by have := of_decide_eq_true hx; omega)
    apply fits_of_not_meets (hcut b hmem) _ (hno₂ b hmem)
    rcases mem_removeScan hdone hb with h | h
    · exact .inr (of_decide_eq_true h)
    · rw [Bool.and_eq_false_iff, decide_eq_false_iff_not, decide_eq_false_iff_not] at h
      omega

variable {len addr : Nat} {r : Option Nat}

section

variable (hs : s.Ordered)
include hs

/-- `mmap_area` keeps the order if the hole it finds is clear. -/
lemma Ordered.mmapArea
    (hclear : ∀ mapLen, checkedPageAlignUp len = some mapLen → HoleSearchClear m s mapLen)
    (h : s.mmapArea m len perm info = some (r, s')) : s'.Ordered := by
  unfold MemorySet.mmapArea at h
  split at h
  · cases h
    exact hs
  rename_i mapLen hlen
  split at h
  · cases h
    exact hs
  rename_i start hstart
  split at h
  · cases h
    exact hs
  rename_i hstop
  obtain ⟨area, harea, ⟨⟩⟩ := map_eq_some_iff.mp h
  obtain ⟨rfl, -⟩ := checkedAdd_eq_some hstop
  exact hs.insertNew { area with mmapInfo := some info } harea rfl fun b hb =>
    fits_of_allocMmapRange hs hstart (hclear mapLen hlen) hb

/-- `mmap_fixed_area` clears the range first. -/
lemma Ordered.mmapFixedArea (hno : s.NoEmptyAt (m.arch.floor start))
    (h : s.mmapFixedArea m start len perm info = some (r, s')) : s'.Ordered := by
  unfold MemorySet.mmapFixedArea at h
  split at h
  · cases h
    exact hs
  rename_i halign
  split at h
  · cases h
    exact hs
  rename_i stop hstop
  obtain ⟨area, harea, ⟨⟩⟩ := map_eq_some_iff.mp h
  obtain ⟨hmod, hlt, -⟩ := mapEnd_eq_some hstop (Decidable.not_not.mp halign)
  have hcleared : (s.clearRange (m.arch.floor start) (m.arch.floor stop)).Ordered :=
    (hs.splitTwice _ _).removeFrom _ _ _
  apply hcleared.insertNew { area with mmapInfo := some info } harea rfl
  intro b hb
  rw [ceil_eq_floor hmod hlt]
  exact fits_clearRange hs hno hb

lemma Ordered.sysMmapFixed {noReplace : Bool}
    (hno : s.NoEmptyAt (m.arch.floor addr))
    (h : s.sysMmapFixed m addr len noReplace perm info = some (r, s')) : s'.Ordered := by
  unfold MemorySet.sysMmapFixed at h
  split at h
  · cases h
    exact hs
  split at h
  · cases h
    exact hs
  · split at h
    · cases h
      exact hs
    · exact hs.mmapFixedArea hno h

/-- An aligned range that passed the overlap check can be inserted. -/
lemma Ordered.insertChecked (area : MapArea) {stop : Nat}
    (hmod : stop % PAGE_SIZE = 0) (hlt : stop < USIZE_RANGE) (hle : start < stop)
    (hover : s.rangeOverlaps m start stop = false) (hno : s.NoEmptyAt (m.arch.floor start))
    (hnew : new? m.arch start stop perm = some fresh)
    (hrange : area.vpnRange = fresh.vpnRange) : (s.insertAreaSorted area).Ordered := by
  apply hs.insertNew area hnew hrange
  intro b hb
  rw [ceil_eq_floor hmod hlt]
  exact fits_of_rangeOverlaps hs hle hover hno hb

lemma Ordered.mapExecSegmentArea {file : BackingFile}
    (hno : s.NoEmptyAt (m.arch.floor start))
    (h : s.mapExecSegmentArea m start len perm file = some (r, s')) : s'.Ordered := by
  unfold MemorySet.mapExecSegmentArea at h
  split at h
  · cases h
    exact hs
  rename_i hargs
  split at h
  · cases h
    exact hs
  rename_i hstop
  split at h
  · cases h
    exact hs
  rename_i hover
  obtain ⟨area, harea, ⟨⟩⟩ := map_eq_some_iff.mp h
  rw [not_or, Decidable.not_not] at hargs
  obtain ⟨hmod, hlt, hle⟩ := mapEnd_eq_some hstop hargs.1
  exact hs.insertChecked _ hmod hlt (by omega) (Bool.eq_false_iff.mpr hover) hno harea rfl

lemma Ordered.mapVdsoImage {imageLen : Nat} {r : Bool}
    (hno : s.NoEmptyAt (m.arch.floor VDSO_BASE))
    (h : s.mapVdsoImage m imageLen mapped = some (r, s')) : s'.Ordered := by
  unfold MemorySet.mapVdsoImage at h
  split at h
  · cases h
    exact hs
  rename_i hstop
  obtain ⟨rfl, hlt⟩ := checkedAdd_eq_some hstop
  split at h
  · cases h
    exact hs
  rename_i hargs
  obtain ⟨area, harea, heq⟩ := map_eq_some_iff.mp h
  simp only [not_or, Decidable.not_not, Bool.not_eq_true] at hargs
  obtain ⟨hne, hmod, hover⟩ := hargs
  have hbase : VDSO_BASE % PAGE_SIZE = 0 := by decide
  have hend : (VDSO_BASE + imageLen) % PAGE_SIZE = 0 := by
    unfold PAGE_SIZE at *
    omega
  cases mapped with
  | false =>
    cases heq
    exact hs
  | true =>
    cases heq
    exact hs.insertChecked area hend hlt (by omega) hover hno harea rfl

/-- A new area at the end of the list needs a clear range. -/
lemma Ordered.pushFramed {r : Bool}
    (hfit : ∀ b ∈ s.areas, Fits (m.arch.floor startVa) (ceil m.arch endVa) b)
    (h : s.pushFramed m startVa endVa perm mapped = some (r, s')) : s'.Ordered := by
  obtain ⟨area, harea, heq⟩ := map_eq_some_iff.mp h
  cases mapped with
  | false =>
    cases heq
    exact hs
  | true =>
    cases heq
    exact hs.insertNew area harea rfl hfit

lemma Ordered.setupHeap {maxEndVa : Nat}
    (hfit : ∀ b ∈ s.areas, Fits (m.arch.floor (pageAlignUp (maxEndVa + PAGE_SIZE)))
      (ceil m.arch (pageAlignUp (maxEndVa + PAGE_SIZE))) b)
    (h : s.setupHeap m maxEndVa = some s') : s'.Ordered := by
  obtain ⟨area, harea, ⟨⟩⟩ := map_eq_some_iff.mp h
  exact hs.insertNew area harea rfl hfit

lemma Ordered.attachShmArea {leafPaths : Bool} (hlen : len ≠ 0)
    (hclear : addr = 0 → ∀ mapLen, checkedPageAlignUp len = some mapLen →
      HoleSearchClear m s mapLen) (hno : addr ≠ 0 → s.NoEmptyAt (m.arch.floor addr))
    (h : s.attachShmArea m addr len perm leafPaths = some (r, s')) : s'.Ordered := by
  unfold MemorySet.attachShmArea at h
  split at h
  · cases h
    exact hs
  rename_i mapLen hmapLen
  obtain ⟨halign, hle⟩ := checkedPageAlignUp_eq_some hmapLen
  dsimp only at h
  split at h
  · cases h
    exact hs
  rename_i start hstart
  split at h
  · cases h
    exact hs
  rename_i stop hstop
  obtain ⟨area, harea, heq⟩ := map_eq_some_iff.mp h
  obtain ⟨rfl, hlt⟩ := checkedAdd_eq_some hstop
  cases leafPaths with
  | false =>
    cases heq
    exact hs
  | true =>
    cases heq
    split at hstart
    next hzero =>
      exact hs.insertNew { area with isShm := true } harea rfl fun b hb =>
        fits_of_allocMmapRange hs hstart (hclear hzero mapLen hmapLen) hb
    next hne =>
      obtain ⟨hmod, hstart⟩ := ite_none_left_eq_some.mp hstart
      obtain ⟨stop, hstop', hcheck⟩ := bind_eq_some_iff.mp hstart
      obtain ⟨hover, rfl⟩ := of_refusal hcheck
      obtain ⟨rfl, -⟩ := checkedAdd_eq_some hstop'
      rw [not_or, Bool.not_eq_true] at hover
      have hend : (addr + mapLen) % PAGE_SIZE = 0 := by
        unfold PAGE_SIZE at *
        omega
      exact hs.insertChecked { area with isShm := true } hend hlt (by omega) hover.2
        (hno hne) harea rfl

lemma Ordered.detachShmArea (start : Nat) :
    (s.detachShmArea m start).2.Ordered := by
  unfold MemorySet.detachShmArea
  split
  · exact hs
  · split
    · exact hs
    · exact hs.sublist (eraseIdx_sublist _ _)

lemma Ordered.removeAreaWithStartVpn (vpn : Nat) :
    (s.removeAreaWithStartVpn vpn).Ordered := by
  unfold MemorySet.removeAreaWithStartVpn
  split
  · exact hs
  · exact hs.sublist (eraseIdx_sublist _ _)

/-- `munmap_area` splits and removes. -/
lemma Ordered.munmapArea (start len : Nat) :
    (s.munmapArea m start len).2.Ordered := by
  unfold MemorySet.munmapArea
  split
  · exact hs
  · split
    · exact hs
    · exact (hs.splitTwice _ _).removeFrom _ _ _

end

/-- Remapping changes no range. -/
lemma remapLoop_ranges (startVpn endVpn : Nat) (perm : MapPermission)
    (remap : MapArea → Bool) (l : List MapArea) (touched : Bool) :
    (remapLoop startVpn endVpn perm remap l touched).1.map vpnRange =
      l.map vpnRange := by
  induction l generalizing touched with
  | nil => rfl
  | cons a rest ih =>
    unfold remapLoop
    split
    · split
      · simp [ih]
      · rfl
    · simp [ih]

lemma Ordered.of_ranges (hs : s.Ordered)
    (h : s'.areas.map vpnRange = s.areas.map vpnRange) : s'.Ordered := by
  have hranges : (s.areas.map vpnRange).Pairwise fun a b => a.stop ≤ b.start :=
    pairwise_map.mpr hs
  rw [← h] at hranges
  exact pairwise_map.mp hranges

lemma overlapAreaIdxBounds_le (s : MemorySet) (start stop : Nat) :
    (s.overlapAreaIdxBounds start stop).1 ≤ (s.overlapAreaIdxBounds start stop).2 := by
  unfold overlapAreaIdxBounds
  split
  · exact le_refl _
  · simp

section

variable (hs : s.Ordered)
include hs

/-- `mprotect_area` splits and changes no range. -/
lemma Ordered.mprotectArea (start len : Nat) (perm : MapPermission)
    (remap : MapArea → Bool) : (s.mprotectArea m start len perm remap).2.Ordered := by
  unfold MemorySet.mprotectArea
  split
  · exact hs
  split
  · exact hs
  split
  · exact hs
  rename_i stop hstop
  dsimp only
  split
  · exact hs
  split
  · exact hs
  have ht := hs.splitTwice (m.arch.floor start) (m.arch.floor stop)
  generalize (s.splitAreaAt (m.arch.floor start)).splitAreaAt (m.arch.floor stop) = t at *
  have hle := overlapAreaIdxBounds_le t (m.arch.floor start) (m.arch.floor stop)
  generalize t.overlapAreaIdxBounds (m.arch.floor start) (m.arch.floor stop) = bounds at *
  apply ht.of_ranges
  -- the three parts of the new list have the ranges of the three parts of the old one
  have hparts : t.areas = t.areas.take bounds.1 ++
      (t.areas.take bounds.2).drop bounds.1 ++ t.areas.drop bounds.2 := by
    have htake : t.areas.take bounds.1 = (t.areas.take bounds.2).take bounds.1 := by
      rw [take_take, min_eq_left hle]
    rw [htake, take_append_drop, take_append_drop]
  conv_rhs => rw [hparts]
  simp [remapLoop_ranges]

/-- **In-place growth**: an area may be given a new end that the areas behind it leave room
for. -/
theorem Ordered.setRange {area : MapArea} {range : VpnRange}
    (harea : s.areas[idx]? = some area) (hstart : range.start = area.start)
    (hroom : ∀ b ∈ s.areas.drop (idx + 1), range.stop ≤ b.start) :
    span.Ordered (s.areas.set idx { area with vpnRange := range }) := by
  obtain ⟨-, -, hbefore, -, -⟩ := Span.Ordered.parts hs harea
  apply Span.Ordered.set hs harea
  · intro b hb
    have hle : b.stop ≤ area.start := hbefore b hb
    show b.stop ≤ range.start
    omega
  · exact hroom

lemma Ordered.mremapGrow {oldStartVpn oldEndVpn newEnd : Nat}
    (hfit : ∀ b ∈ s.areas, Fits oldEndVpn (m.arch.floor newEnd) b)
    (h : s.mremapGrow m oldAddr oldStartVpn oldEndVpn newEnd = some (r, s')) : s'.Ordered := by
  have hs₁ := hs.splitAreaAt oldStartVpn
  have ht := hs.splitTwice oldStartVpn oldEndVpn
  have hcut : (s.splitAreaAt oldStartVpn).CutAt oldEndVpn :=
    CutAt.splitAreaAt (fun b hb => (hfit b hb).1) hs oldStartVpn
  have hmem {b} := @mem_splitAreaAt _ b hs₁ oldEndVpn
  unfold MemorySet.mremapGrow at h
  dsimp only at h
  split at h
  · cases h
    exact ht
  rename_i area hfound
  obtain ⟨range, hrange, ⟨⟩⟩ := map_eq_some_iff.mp h
  obtain ⟨hlo, hhi⟩ := VpnRange.new?_eq_some hrange
  obtain ⟨-, harea, hstart, hstop⟩ := findAreaIdxByStart_eq_some hfound
  have hend : area.stop = oldEndVpn := beq_iff_eq.mp hstop
  apply ht.setRange harea (hlo.trans hstart.symm)
  intro b hb
  have hle : area.stop ≤ b.start := (Span.Ordered.parts ht harea).2.2.2.1 b hb
  have hareaLe := area.start_le_stop
  rw [hhi]
  -- an area behind the grown one was there before the splits
  rcases hmem (mem_of_mem_drop hb) with ⟨hb₁, -⟩ | ⟨a, ha₁, hin, -⟩
  · rcases mem_splitAreaAt hs hb₁ with ⟨hb₀, -⟩ | ⟨a, ha₀, hin, hpiece⟩
    · exact (hfit b hb₀).2 (by omega)
    · have hcut₀ := (hfit a ha₀).1
      omega
  · have := hcut a ha₁ hin.1
    omega

/-- `mremap_area` shrinks, or grows into clear pages. -/
lemma Ordered.mremapArea {oldLen newLen : Nat}
    (hno : ∀ oldEnd newEnd, mapEnd oldAddr oldLen = some oldEnd →
      mapEnd oldAddr newLen = some newEnd → oldEnd < newEnd → s.NoEmptyAt (m.arch.floor oldEnd))
    (h : s.mremapArea m oldAddr oldLen newLen = some (r, s')) : s'.Ordered := by
  unfold MemorySet.mremapArea at h
  split at h
  · cases h
    exact hs
  split at h
  next oldMapLen newMapLen oldEnd newEnd holdLen hnewLen holdEnd hnewEnd =>
    dsimp only at h
    split at h
    · cases h
      exact hs
    split at h
    · cases h
      exact hs
    split at h
    · -- shrink
      have hunmap := hs.munmapArea (m := m) newEnd (oldMapLen - newMapLen)
      generalize s.munmapArea m newEnd (oldMapLen - newMapLen) = res at *
      obtain ⟨_ | _, t⟩ := res <;> cases h <;> exact hunmap
    · split at h
      · cases h
        exact hs
      rename_i hover
      have hgrow : oldEnd < newEnd := by
        unfold mapEnd at holdEnd hnewEnd
        rw [holdLen] at holdEnd
        rw [hnewLen] at hnewEnd
        have h1 := (checkedAdd_eq_some holdEnd).1
        have h2 := (checkedAdd_eq_some hnewEnd).1
        omega
      have hnoEnd := hno oldEnd newEnd holdEnd hnewEnd hgrow
      have hfit : ∀ b ∈ s.areas, Fits (m.arch.floor oldEnd) (m.arch.floor newEnd) b :=
        fun b hb => fits_of_rangeOverlaps hs hgrow (Bool.eq_false_iff.mpr hover) hnoEnd hb
      exact hs.mremapGrow hfit h
  · cases h
    exact hs

/-! ## Program break, faults and fork -/

lemma Ordered.shrinkBrkAreas (heapStartVpn newEndVpn oldEndVpn : Nat) :
    (s.shrinkBrkAreas heapStartVpn newEndVpn oldEndVpn).Ordered :=
  (hs.splitTwice newEndVpn oldEndVpn).sublist filter_sublist

end

/-- Room for the growth of the heap: every area but the one that is extended fits beside
the new pages. -/
def BrkClear (m : Machine) (s : MemorySet) (newMappedEnd : Nat) : Prop :=
  ∀ p ∈ s.areas.zipIdx,
    s.findBrkExtensionArea (m.arch.floor s.brkBase) (m.arch.floor s.brkMappedEnd) ≠ some p.2 →
    Fits (m.arch.floor s.brkMappedEnd) (m.arch.floor newMappedEnd) p.1

instance (m : Machine) (s : MemorySet) (newMappedEnd : Nat) :
    Decidable (BrkClear m s newMappedEnd) :=
  inferInstanceAs (Decidable (∀ p ∈ s.areas.zipIdx, _))

section

variable (hs : s.Ordered)
include hs

lemma Ordered.growBrkAreas {newMappedEnd : Nat}
    (hmod : newMappedEnd % PAGE_SIZE = 0) (hlt : newMappedEnd < USIZE_RANGE)
    (hclear : BrkClear m s newMappedEnd) (h : s.growBrkAreas m newMappedEnd = some s') :
    s'.Ordered := by
  unfold MemorySet.growBrkAreas at h
  dsimp only at h
  split at h
  next hnone =>
    obtain ⟨area, harea, ⟨⟩⟩ := map_eq_some_iff.mp h
    apply hs.insertNew area harea rfl
    intro b hb
    obtain ⟨i, hi⟩ := mem_iff_getElem?.mp hb
    rw [ceil_eq_floor hmod hlt]
    apply hclear (b, i) (mem_zipIdx_iff_getElem?.mpr hi)
    rw [hnone]
    exact nofun
  next idx hidx =>
    obtain ⟨area, harea, hmap⟩ := bind_eq_some_iff.mp h
    obtain ⟨range, hrange, ⟨⟩⟩ := map_eq_some_iff.mp hmap
    obtain ⟨hlo, hhi⟩ := VpnRange.new?_eq_some hrange
    have hend : area.stop = m.arch.floor s.brkMappedEnd := by
      obtain ⟨hlen, htest, -⟩ := findIdx?_eq_some_iff_getElem.mp hidx
      rw [(List.getElem?_eq_some_iff.mp harea).2, Bool.and_eq_true] at htest
      exact beq_iff_eq.mp htest.2
    apply hs.setRange harea hlo
    intro b hb
    have hle : area.stop ≤ b.start := (Span.Ordered.parts hs harea).2.2.2.1 b hb
    obtain ⟨j, hj⟩ := mem_iff_getElem?.mp hb
    rw [getElem?_drop] at hj
    rw [hhi]
    have hfits : Fits (m.arch.floor s.brkMappedEnd) (m.arch.floor newMappedEnd) b := by
      apply hclear (b, idx + 1 + j) (mem_zipIdx_iff_getElem?.mpr hj)
      rw [hidx]
      intro heq
      have : idx = idx + 1 + j := some.inj heq
      omega
    exact hfits.2 (by omega)

/-- The break moves down, or up into clear pages. -/
lemma Ordered.setProgramBreak {r : Nat}
    (hclear : s.brkBase ≤ addr → addr ≤ s.brkLimit → s.brkMappedEnd < pageAlignUp addr →
      BrkClear m s (pageAlignUp addr))
    (h : s.setProgramBreak m addr = some (r, s')) : s'.Ordered := by
  unfold MemorySet.setProgramBreak at h
  split at h
  · cases h
    exact hs
  split at h
  · cases h
    exact hs
  rename_i hrange
  rw [not_or, not_lt, not_lt] at hrange
  obtain ⟨t, ht, ⟨⟩⟩ := map_eq_some_iff.mp h
  show t.Ordered
  obtain ⟨hmod, hlt⟩ := pageAlignUp_aligned addr
  split at ht
  next hgrow =>
    exact hs.growBrkAreas hmod hlt (hclear hrange.1 hrange.2 hgrow) ht
  · split at ht
    · cases ht
      exact hs.shrinkBrkAreas _ _ _
    · cases ht
      exact hs

/-- A grow-down fault is safe because the lookup for its page failed and the guard gap is
clear. -/
lemma Ordered.growDown {vpn : Nat} {r : Option GrowDownMmapFault}
    (hmiss : ∀ a ∈ s.areas, ¬ span.Contains a vpn)
    (h : s.growDownMmapAreaForFault vpn access = some (r, s')) : s'.Ordered := by
  unfold growDownMmapAreaForFault at h
  split at h
  · cases h
    exact hs
  rename_i idx area hfound
  split at h
  · cases h
    exact hs
  obtain ⟨range, hrange, ⟨⟩⟩ := map_eq_some_iff.mp h
  obtain ⟨hlo, hhi⟩ := VpnRange.new?_eq_some hrange
  obtain ⟨hfirst, harea, hstart, -⟩ := findAreaIdxByStart_eq_some hfound
  obtain ⟨-, -, hbefore, hafter, -⟩ := Span.Ordered.parts hs harea
  apply Span.Ordered.set hs harea
  · intro b hb
    have hbelow : b.start < vpn + 1 :=
      (hs.lowerBound_spec (vpn + 1)).2.1 b (by rw [hfirst] at hb; exact hb)
    show b.stop ≤ range.start
    -- an area that starts at the page would contain it unless it is empty
    have hnot : ¬ (b.start ≤ vpn ∧ vpn < b.stop) := hmiss b (mem_of_mem_take hb)
    omega
  · intro b hb
    show range.stop ≤ b.start
    rw [hhi]
    exact hafter b hb

lemma Ordered.prepareMmapPageFault {r : Option GrowDownMmapFault}
    (h : s.prepareMmapPageFault m addr access = some (r, s')) : s'.Ordered := by
  unfold MemorySet.prepareMmapPageFault at h
  have hareas := findAreaIdxContaining_areas s (m.arch.floor addr)
  have hiff := findAreaIdxContaining_iff hs (m.arch.floor addr)
  generalize s.findAreaIdxContaining (m.arch.floor addr) = res at *
  obtain ⟨found, t⟩ := res
  have ht : t.Ordered := hs.of_areas hareas
  cases found with
  | some idx =>
    cases h
    exact ht
  | none =>
    apply ht.growDown _ h
    intro a ha hc
    rw [show t.areas = s.areas from hareas] at ha
    exact absurd (hiff.mpr ⟨a, ha, hc⟩) Bool.false_ne_true

end

/-- Empty areas share their start with empty areas only. -/
def EmptiesApart (s : MemorySet) : Prop :=
  ∀ a ∈ s.areas, ∀ b ∈ s.areas, a.IsEmpty → b.start = a.start → b.IsEmpty

instance (s : MemorySet) : Decidable s.EmptiesApart :=
  inferInstanceAs (Decidable (∀ a ∈ s.areas, _))

/-- The copies go in at the end of the child's list, because every copy so far ends before
the next one starts and only empty areas can tie with it. -/
lemma Ordered.forkLoop (hapart : s.EmptiesApart) {retain : Nat → Bool} {l : List MapArea}
    {child : MemorySet} (hc : child.Ordered) (hl : span.Ordered l)
    (hcross : ∀ b ∈ child.areas, ∀ a ∈ l, b.stop ≤ a.start) (hcs : child.areas ⊆ s.areas)
    (hls : l ⊆ s.areas) : (forkLoop retain idx l child).Ordered := by
  induction l generalizing idx child with
  | nil => exact hc
  | cons a rest ih =>
    obtain ⟨hhead, hrest⟩ := pairwise_cons.mp hl
    have hrests : rest ⊆ s.areas := fun x hx => hls (mem_cons_of_mem _ hx)
    unfold MemorySet.forkLoop
    split
    · exact ih hc hrest (fun b hb x hx => hcross b hb x (mem_cons_of_mem _ hx)) hcs hrests
    have hmem : a ∈ s.areas := hls mem_cons_self
    apply ih _ hrest _ _ hrests
    · apply hc.insertAreaSorted
      intro b hb
      have hle := hcross b hb a mem_cons_self
      have hb' := b.start_le_stop
      refine ⟨fun _ => hle, fun hge => ?_⟩
      -- the copy `b` is empty and starts where `a` does, so `a` is empty too
      have hempty : b.IsEmpty := show b.stop = b.start by omega
      have ha : a.stop = a.start := hapart b (hcs hb) a hmem hempty (by omega)
      omega
    · intro b hb x hx
      rcases Lib.mem_insertAt.mp hb with rfl | hb
      · exact hhead x hx
      · exact hcross b hb x (mem_cons_of_mem _ hx)
    · intro b hb
      rcases Lib.mem_insertAt.mp hb with rfl | hb
      · exact hmem
      · exact hcs hb

/-- A fork copies the list, or what it retains of it. -/
lemma Ordered.fromExistedUser (hs : s.Ordered) (hapart : s.EmptiesApart)
    (retain : Nat → Bool) : (s.fromExistedUser retain).Ordered :=
  Ordered.forkLoop hapart List.Pairwise.nil hs (fun _ hb => absurd hb not_mem_nil)
    (fun _ hb => absurd hb not_mem_nil) (fun _ hb => hb)

end MemorySet

end Whusp.Mm
