import Whusp.Lib.Transition
import Whusp.Mm.MemorySet

/-!
# What the area operations keep

The list of an address space is `Ordered` when every area ends at or before the next one
starts.  This is stronger than being sorted and disjoint, because an empty area also has
its place: the bisection of `find_area_idx_containing` looks at one predecessor only, and
an empty area in front of it hides the area behind.
-/

namespace Whusp.Mm

open List Option

open Whusp.Lib (Span insertAt mem_insertAt insertAt_set)
open Whusp.Syscall (Arch USIZE_RANGE)

/-- The area leaves room for the range `[lo, hi)` at the place where `lo` is inserted: it
does not reach into it from below and does not start inside. -/
def Fits (lo hi : Nat) (b : MapArea) : Prop :=
  (b.start < lo → b.stop ≤ lo) ∧ (lo ≤ b.start → hi ≤ b.start)

instance (lo hi : Nat) (b : MapArea) : Decidable (Fits lo hi b) :=
  inferInstanceAs (Decidable (_ ∧ _))

def MapArea.IsEmpty (b : MapArea) : Prop := b.stop = b.start

instance (b : MapArea) : Decidable b.IsEmpty := inferInstanceAs (Decidable (_ = _))

lemma MapArea.start_le_stop (b : MapArea) : b.start ≤ b.stop := b.vpnRange.le

lemma MapArea.stop_lt (b : MapArea) : b.stop < VPN_RANGE := b.vpnRange.lt

/-- An area that is cut at `lo` and does not meet the range fits beside it, unless it is
empty and starts at `lo`. -/
lemma fits_of_not_meets {lo hi : Nat} {b : MapArea} (hcut : b.start < lo → b.stop ≤ lo)
    (hmeet : b.stop ≤ lo ∨ hi ≤ b.start) (hempty : b.IsEmpty → b.start ≠ lo) : Fits lo hi b := by
  refine ⟨hcut, fun hle => ?_⟩
  have hb := b.start_le_stop
  rcases hmeet with h | h
  · exact absurd (show b.start = lo by omega) (hempty (show b.stop = b.start by omega))
  · exact h

variable {start stop addr vpn len : Nat} {a : MapArea} {arch : Arch}

lemma VpnRange.new?_eq_some {r : VpnRange} (h : VpnRange.new? start stop = some r) :
    r.start = start ∧ r.stop = stop := by
  unfold VpnRange.new? at h
  split at h
  · cases h
    simp
  · cases h

lemma MapArea.new?_eq_some {startVa endVa : Nat} {perm : MapPermission}
    (h : MapArea.new? arch startVa endVa perm = some a) :
    a.start = arch.floor startVa ∧ a.stop = ceil arch endVa := by
  obtain ⟨r, hr, rfl⟩ := map_eq_some_iff.mp h
  exact VpnRange.new?_eq_some hr

lemma MapArea.splitOff_eq_some {left right : MapArea} {at_ : Nat}
    (h : a.splitOff at_ = some (left, right)) :
    (a.start < at_ ∧ at_ < a.stop) ∧ (left.start = a.start ∧ left.stop = at_) ∧
      right.start = at_ ∧ right.stop = a.stop := by
  unfold MapArea.splitOff at h
  split at h
  next hin =>
    cases h
    exact ⟨hin, ⟨rfl, rfl⟩, rfl, rfl⟩
  · cases h

namespace MemorySet

variable {s : MemorySet} {m : Machine}

/-- Every area ends at or before the next one starts. -/
def Ordered (s : MemorySet) : Prop := span.Ordered s.areas

/-! ## Lookup -/

@[simp] lemma findAreaIdxContaining_areas (s : MemorySet) (vpn : Nat) :
    (s.findAreaIdxContaining vpn).2.areas = s.areas := by
  unfold findAreaIdxContaining
  split <;> rfl

lemma hintContaining_eq_some {vpn idx : Nat} (h : s.hintContaining vpn = some idx) :
    ∃ a, s.areas[idx]? = some a ∧ span.Contains a vpn := by
  obtain ⟨-, hany⟩ := filter_eq_some_iff.mp h
  obtain ⟨a, ha, hc⟩ := (any_eq_true _ _).mp hany
  rw [Bool.and_eq_true, decide_eq_true_iff, decide_eq_true_iff] at hc
  exact ⟨a, ha, hc⟩

/-- **The bisection is exact** in an ordered list. -/
theorem searchContaining_eq_some (hs : s.Ordered) {vpn idx : Nat} :
    s.searchContaining vpn = some idx ↔ ∃ a, s.areas[idx]? = some a ∧ span.Contains a vpn := by
  obtain ⟨hk, hbelow, -⟩ := hs.upperBound_spec vpn
  constructor
  · intro h
    unfold searchContaining at h
    split at h
    · cases h
    rename_i low hlow
    obtain ⟨hany, hidx⟩ := ite_none_right_eq_some.mp h
    obtain rfl : low = idx := some.inj hidx
    obtain ⟨a, ha, hstop⟩ := (any_eq_true _ _).mp hany
    refine ⟨a, ha, hbelow _ ?_, of_decide_eq_true hstop⟩
    rw [hlow]
    exact mem_of_getElem? ((getElem?_take_of_lt (Nat.lt_succ_self low)).trans ha)
  · rintro ⟨a, ha, hc⟩
    unfold searchContaining
    rw [hs.predecessor ha hc]
    have hstop : vpn < a.stop := hc.2
    show (if _ then _ else _) = _
    rw [ha, any_some, if_pos (decide_eq_true hstop)]

lemma findAreaIdxContaining_eq_some (hs : s.Ordered) {vpn idx : Nat}
    (h : (s.findAreaIdxContaining vpn).1 = some idx) :
    ∃ a, s.areas[idx]? = some a ∧ span.Contains a vpn := by
  unfold findAreaIdxContaining at h
  split at h
  next hhint =>
    cases h
    exact hintContaining_eq_some hhint
  · exact (searchContaining_eq_some hs).mp h

/-- **The lookup is exact**: from the cached index or by bisection, it finds an area
exactly when some area contains the page. -/
theorem findAreaIdxContaining_iff (hs : s.Ordered) (vpn : Nat) :
    (s.findAreaIdxContaining vpn).1.isSome = true ↔ ∃ a ∈ s.areas, span.Contains a vpn := by
  constructor
  · intro h
    obtain ⟨idx, hidx⟩ := isSome_iff_exists.mp h
    obtain ⟨a, ha, hc⟩ := findAreaIdxContaining_eq_some hs hidx
    exact ⟨a, mem_of_getElem? ha, hc⟩
  · rintro ⟨a, ha, hc⟩
    obtain ⟨idx, hidx⟩ := mem_iff_getElem?.mp ha
    unfold findAreaIdxContaining
    split
    · rfl
    · rw [(searchContaining_eq_some hs).mpr ⟨a, hidx, hc⟩]
      rfl

lemma findAreaIdxByStart_eq_some {vpn idx : Nat} {p : MapArea → Bool}
    (h : ((s.findAreaIdxByStart vpn).bind fun i => (s.areas[i]?.filter p).map (i, ·)) =
      some (idx, a)) :
    idx = s.areaInsertIndex vpn ∧ s.areas[idx]? = some a ∧ a.start = vpn ∧ p a = true := by
  obtain ⟨i, hi, hpair⟩ := bind_eq_some_iff.mp h
  obtain ⟨b, ha, ⟨⟩⟩ := map_eq_some_iff.mp hpair
  obtain ⟨harea, hp⟩ := filter_eq_some_iff.mp ha
  obtain ⟨hany, rfl⟩ := of_guard hi
  rw [harea] at hany
  exact ⟨rfl, harea, beq_iff_eq.mp hany, hp⟩

/-! ## Insertion and splits -/

theorem Ordered.insertAreaSorted (hs : s.Ordered) (hfit : ∀ b ∈ s.areas, Fits a.start a.stop b) :
    (s.insertAreaSorted a).Ordered := by
  obtain ⟨-, hbelow, habove⟩ := hs.lowerBound_spec a.start
  apply Span.Ordered.insertAt hs
  · intro b hb
    exact (hfit b (mem_of_mem_take hb)).1 (hbelow b hb)
  · intro b hb
    exact (hfit b (mem_of_mem_drop hb)).2 (habove b hb)

/-- **What a split does**: nothing when no area has the page strictly inside, and else one
area is replaced by its two halves. -/
theorem splitAreaAt_cases (hs : s.Ordered) (at_ : Nat) : ((s.splitAreaAt at_).areas = s.areas ∧
        ∀ a ∈ s.areas, ¬ (a.start < at_ ∧ at_ < a.stop)) ∨
      ∃ idx a left right, s.areas[idx]? = some a ∧ (a.start < at_ ∧ at_ < a.stop) ∧
        (left.start = a.start ∧ left.stop = at_) ∧ (right.start = at_ ∧ right.stop = a.stop) ∧
        (s.splitAreaAt at_).areas = insertAt (s.areas.set idx left) (idx + 1) right := by
  unfold splitAreaAt
  have hareas := findAreaIdxContaining_areas s at_
  have hiff := findAreaIdxContaining_iff hs at_
  have hsome := @findAreaIdxContaining_eq_some s hs at_
  generalize s.findAreaIdxContaining at_ = r at hareas hiff hsome
  obtain ⟨found, s'⟩ := r
  cases found with
  | none =>
    refine .inl ⟨hareas, fun a ha hin => ?_⟩
    exact absurd (hiff.mpr ⟨a, ha, hin.1.le, hin.2⟩) Bool.false_ne_true
  | some idx =>
    obtain ⟨a, ha, hc⟩ := hsome rfl
    simp only at hareas ⊢
    rw [hareas, ha, bind_some]
    cases hsplit : a.splitOff at_ with
    | none =>
      refine .inl ⟨hareas, fun b hb hin => ?_⟩
      -- the area that contains the page is the one found, and it starts there
      obtain ⟨j, hj⟩ := mem_iff_getElem?.mp hb
      have hij := (hs.predecessor ha hc).symm.trans (hs.predecessor hj ⟨hin.1.le, hin.2⟩)
      obtain rfl : idx = j := by omega
      rw [ha] at hj
      cases hj
      simp [MapArea.splitOff, dif_pos hin] at hsplit
    | some halves =>
      obtain ⟨left, right⟩ := halves
      obtain ⟨hin, hleft, hright⟩ := MapArea.splitOff_eq_some hsplit
      exact .inr ⟨idx, a, left, right, ha, hin, hleft, hright, rfl⟩

lemma Ordered.splitAreaAt (hs : s.Ordered) (at_ : Nat) : (s.splitAreaAt at_).Ordered := by
  rcases splitAreaAt_cases hs at_ with ⟨h, -⟩ | ⟨idx, a, left, right, ha, -, hl, hr, h⟩
  · unfold Ordered
    rw [h]
    exact hs
  · unfold Ordered
    rw [h]
    exact Span.Ordered.split hs ha hl.1 (hl.2.trans hr.1.symm) hr.2

variable {b : MapArea}

/-- The areas after a split: those there were, and two proper parts of one of them. -/
lemma mem_splitAreaAt (hs : s.Ordered) {at_ : Nat} (hb : b ∈ (s.splitAreaAt at_).areas) :
    (b ∈ s.areas ∧ ¬ (b.start < at_ ∧ at_ < b.stop)) ∨
      ∃ a ∈ s.areas, (a.start < at_ ∧ at_ < a.stop) ∧
        (b.start = a.start ∧ b.stop = at_ ∨ b.start = at_ ∧ b.stop = a.stop) := by
  rcases splitAreaAt_cases hs at_ with ⟨h, hno⟩ | ⟨idx, a, left, right, ha, hin, hl, hr, h⟩
  · rw [h] at hb
    exact .inl ⟨hb, hno b hb⟩
  have hmem := mem_of_getElem? ha
  obtain ⟨-, -, hbefore, hafter, -⟩ := Span.Ordered.parts hs ha
  rw [h, insertAt_set ha] at hb
  rcases mem_append.mp hb with hb | hb
  · have hle : b.stop ≤ a.start := hbefore b hb
    exact .inl ⟨mem_of_mem_take hb, by omega⟩
  rcases mem_cons.mp hb with rfl | hb
  · exact .inr ⟨a, hmem, hin, .inl hl⟩
  rcases mem_cons.mp hb with rfl | hb
  · exact .inr ⟨a, hmem, hin, .inr hr⟩
  · have hle : a.stop ≤ b.start := hafter b hb
    exact .inl ⟨mem_of_mem_drop hb, by omega⟩

def CutAt (s : MemorySet) (vpn : Nat) : Prop := ∀ b ∈ s.areas, b.start < vpn → b.stop ≤ vpn

lemma cutAt_splitAreaAt (hs : s.Ordered) (at_ : Nat) : (s.splitAreaAt at_).CutAt at_ := by
  intro b hb hlt
  rcases mem_splitAreaAt hs hb with ⟨-, hno⟩ | ⟨a, -, hin, h | h⟩ <;> omega

lemma CutAt.splitAreaAt {vpn : Nat} (hcut : s.CutAt vpn) (hs : s.Ordered) (at_ : Nat) :
    (s.splitAreaAt at_).CutAt vpn := by
  intro b hb hlt
  rcases mem_splitAreaAt hs hb with ⟨hmem, -⟩ | ⟨a, ha, hin, h | h⟩
  · exact hcut b hmem hlt
  · have := hcut a ha (by omega)
    omega
  · have := hcut a ha (by omega)
    omega

def NoEmptyAt (s : MemorySet) (vpn : Nat) : Prop := ∀ b ∈ s.areas, b.IsEmpty → b.start ≠ vpn

instance (s : MemorySet) (vpn : Nat) : Decidable (s.NoEmptyAt vpn) :=
  inferInstanceAs (Decidable (∀ b ∈ s.areas, _))

lemma NoEmptyAt.splitAreaAt {vpn : Nat} (hno : s.NoEmptyAt vpn) (hs : s.Ordered) (at_ : Nat) :
    (s.splitAreaAt at_).NoEmptyAt vpn := by
  intro b hb hempty
  rcases mem_splitAreaAt hs hb with ⟨hmem, -⟩ | ⟨a, -, hin, h | h⟩
  · exact hno b hmem hempty
  · unfold MapArea.IsEmpty at hempty
    omega
  · unfold MapArea.IsEmpty at hempty
    omega

/-! ## Removal loops -/

lemma removeScan_sublist (done drop : MapArea → Bool) (l : List MapArea) :
    (removeScan done drop l).Sublist l := by
  induction l with
  | nil => exact List.Sublist.refl _
  | cons a rest ih =>
    unfold removeScan
    split
    · simp
    · split
      · exact ih.trans (sublist_cons_self _ _)
      · exact ih.cons_cons a

lemma Ordered.removeFrom (hs : s.Ordered) (idx : Nat) (done drop : MapArea → Bool) :
    (s.removeFrom idx done drop).Ordered := by
  apply Span.Ordered.sublist hs
  have h := (List.Sublist.refl (s.areas.take idx)).append
    (removeScan_sublist done drop (s.areas.drop idx))
  rwa [take_append_drop] at h

/-- Where the stopping test is kept by all later areas, a removed area is gone: what is left
is past the stop or was not to be removed. -/
lemma mem_removeScan {done drop : MapArea → Bool} {l : List MapArea}
    (hdone : l.Pairwise fun a b => done a = true → done b = true)
    (hb : b ∈ removeScan done drop l) : done b = true ∨ drop b = false := by
  induction l with
  | nil => cases hb
  | cons a rest ih =>
    obtain ⟨hhead, hrest⟩ := pairwise_cons.mp hdone
    unfold removeScan at hb
    split at hb
    next ha =>
      rcases mem_cons.mp hb with rfl | hb
      · exact .inl ha
      · exact .inl (hhead b hb ha)
    · split at hb
      · exact ih hrest hb
      rename_i hkeep
      rcases mem_cons.mp hb with rfl | hb
      · exact .inr (Bool.eq_false_iff.mpr hkeep)
      · exact ih hrest hb

lemma firstAreaIdxEndingAfter_le (s : MemorySet) (start : Nat) :
    s.firstAreaIdxEndingAfter start ≤ s.areaInsertIndex start := by
  unfold firstAreaIdxEndingAfter
  split <;> omega

end MemorySet

/-! ## Address arithmetic -/

lemma floor_eq_div (h : addr < 2 ^ 39) : arch.floor addr = addr / PAGE_SIZE := by
  cases arch with
  | riscv64 => exact congrArg (· / PAGE_SIZE) (Nat.mod_eq_of_lt h)
  | loongarch64 => rfl

lemma canonicalizeVirtAddr_aligned (arch : Arch) (h : addr % PAGE_SIZE = 0)
    (hlt : addr < USIZE_RANGE) : arch.canonicalizeVirtAddr addr % PAGE_SIZE = 0 ∧
      arch.canonicalizeVirtAddr addr < USIZE_RANGE := by
  cases arch with
  | riscv64 =>
    show addr % 2 ^ 39 % PAGE_SIZE = 0 ∧ addr % 2 ^ 39 < USIZE_RANGE
    unfold PAGE_SIZE USIZE_RANGE at *
    omega
  | loongarch64 => exact ⟨h, hlt⟩

/-- The end of a page-aligned range rounds up to the same page as it rounds down. -/
lemma ceil_eq_floor (h : addr % PAGE_SIZE = 0) (hlt : addr < USIZE_RANGE) :
    ceil arch addr = arch.floor addr := by
  obtain ⟨hc, hclt⟩ := canonicalizeVirtAddr_aligned arch h hlt
  unfold ceil Arch.floor
  unfold PAGE_SIZE USIZE_RANGE at *
  split <;> omega

lemma floor_mul_le (arch : Arch) (addr : Nat) : arch.floor addr * PAGE_SIZE ≤ addr := by
  cases arch with
  | riscv64 => exact le_trans (Nat.div_mul_le_self _ _) (Nat.mod_le _ _)
  | loongarch64 => exact Nat.div_mul_le_self _ _

lemma ceil_le (h : addr ≤ vpn * PAGE_SIZE) (hlt : addr < 2 ^ 39) : ceil arch addr ≤ vpn := by
  have hc : arch.canonicalizeVirtAddr addr = addr := by
    cases arch with
    | riscv64 => exact Nat.mod_eq_of_lt hlt
    | loongarch64 => rfl
  unfold ceil
  unfold PAGE_SIZE USIZE_RANGE at *
  split <;> omega

lemma checkedAdd_eq_some {a b c : Nat} (h : checkedAdd a b = some c) :
    c = a + b ∧ c < USIZE_RANGE := by
  obtain ⟨hlt, rfl⟩ := of_guard h
  exact ⟨rfl, hlt⟩

lemma checkedPageAlignUp_eq_some {mapLen : Nat} (h : checkedPageAlignUp len = some mapLen) :
    mapLen % PAGE_SIZE = 0 ∧ len ≤ mapLen := by
  obtain ⟨a, ha, rfl⟩ := map_eq_some_iff.mp h
  obtain ⟨rfl, -⟩ := checkedAdd_eq_some ha
  unfold PAGE_SIZE
  omega

lemma mapEnd_eq_some (h : mapEnd start len = some stop) (hstart : start % PAGE_SIZE = 0) :
    stop % PAGE_SIZE = 0 ∧ stop < USIZE_RANGE ∧ start + len ≤ stop := by
  obtain ⟨mapLen, hlen, hadd⟩ := bind_eq_some_iff.mp h
  obtain ⟨halign, hle⟩ := checkedPageAlignUp_eq_some hlen
  obtain ⟨rfl, hlt⟩ := checkedAdd_eq_some hadd
  refine ⟨?_, hlt, by omega⟩
  unfold PAGE_SIZE at *
  omega

lemma le_pageAlignUp (h : addr + (PAGE_SIZE - 1) < USIZE_RANGE) : addr ≤ pageAlignUp addr := by
  unfold pageAlignUp
  rw [Nat.mod_eq_of_lt h]
  unfold PAGE_SIZE
  omega

lemma pageAlignUp_aligned (addr : Nat) :
    pageAlignUp addr % PAGE_SIZE = 0 ∧ pageAlignUp addr < USIZE_RANGE := by
  unfold pageAlignUp PAGE_SIZE USIZE_RANGE
  omega

lemma pageAlignUp_le {bound : Nat} (h : addr ≤ bound) (hb : bound % PAGE_SIZE = 0)
    (hlt : bound + (PAGE_SIZE - 1) < USIZE_RANGE) : pageAlignUp addr ≤ bound := by
  unfold pageAlignUp PAGE_SIZE USIZE_RANGE at *
  omega

/-- Sign extension only raises an address, and keeps it aligned. -/
lemma vaOfVpn_spec (arch : Arch) (h : vpn < VPN_RANGE) :
    vpn * PAGE_SIZE ≤ vaOfVpn arch vpn ∧ vaOfVpn arch vpn % PAGE_SIZE = 0 ∧
      vaOfVpn arch vpn < USIZE_RANGE ∧
      (vaOfVpn arch vpn = vpn * PAGE_SIZE ∨ 2 ^ 38 ≤ vpn * PAGE_SIZE) := by
  have hlt : vpn * PAGE_SIZE < 2 ^ 64 := by
    unfold VPN_RANGE USIZE_RANGE PAGE_SIZE at *
    omega
  have hmod : vpn * PAGE_SIZE % PAGE_SIZE = 0 := Nat.mul_mod_left _ _
  cases arch with
  | loongarch64 => exact ⟨le_refl _, hmod, hlt, .inl rfl⟩
  | riscv64 =>
    have hva : vaOfVpn .riscv64 vpn = if 2 ^ 38 ≤ vpn * PAGE_SIZE then
        vpn * PAGE_SIZE ||| (2 ^ 64 - 2 ^ 39) else vpn * PAGE_SIZE := rfl
    rw [hva]
    split
    swap
    · exact ⟨le_refl _, hmod, hlt, .inl rfl⟩
    rename_i hbig
    have hmask : 2 ^ 64 - 2 ^ 39 < 2 ^ 64 := by decide
    refine ⟨Nat.left_le_or, ?_, Nat.or_lt_two_pow hlt hmask, .inr hbig⟩
    have hor := Nat.or_mod_two_pow (a := vpn * PAGE_SIZE) (b := 2 ^ 64 - 2 ^ 39) (n := 12)
    show (vpn * PAGE_SIZE ||| (2 ^ 64 - 2 ^ 39)) % 2 ^ 12 = 0
    rw [hor, show vpn * PAGE_SIZE % 2 ^ 12 = 0 from hmod]
    rfl

lemma le_of_le_vaOfVpn {x : Nat} (h : vpn < VPN_RANGE) (hx : x ≤ vaOfVpn arch vpn)
    (hlt : x ≤ 2 ^ 38) : x ≤ vpn * PAGE_SIZE := by
  obtain ⟨-, -, -, heq | hbig⟩ := vaOfVpn_spec arch h
  · exact heq ▸ hx
  · exact le_trans hlt hbig

lemma le_pageAlignUp_vaOfVpn (arch : Arch) (h : vpn < VPN_RANGE) :
    vaOfVpn arch vpn ≤ pageAlignUp (vaOfVpn arch vpn) := by
  obtain ⟨-, hmod, hlt, -⟩ := vaOfVpn_spec arch h
  apply le_pageAlignUp
  unfold PAGE_SIZE USIZE_RANGE at *
  omega

namespace MemorySet

variable {s : MemorySet} {m : Machine}

/-! ## The overlap check and the hole search -/

variable {b : MapArea} {start c len limit : Nat}

/-- **The overlap check**: it looks at the neighbours of the insertion point only, so an
empty area that starts there can hide the next one. -/
theorem fits_of_rangeOverlaps (hs : s.Ordered) (hlt : start < stop)
    (h : s.rangeOverlaps m start stop = false) (hno : s.NoEmptyAt (m.arch.floor start))
    (hb : b ∈ s.areas) : Fits (m.arch.floor start) (m.arch.floor stop) b := by
  unfold rangeOverlaps at h
  rw [if_neg (not_le.mpr hlt)] at h
  split at h
  · cases h
  dsimp only at h
  split at h
  · cases h
  rename_i hprev
  obtain ⟨hk, hbelow, habove⟩ := hs.lowerBound_spec (m.arch.floor start)
  rw [← take_append_drop (s.areaInsertIndex (m.arch.floor start)) s.areas] at hb
  rcases mem_append.mp hb with hb | hb
  · have hstop : b.stop ≤ m.arch.floor start := by
      apply hs.hi_le_of_mem_take _ hk hb
      intro p hpos hp
      apply not_lt.mp
      intro hlt
      apply hprev
      refine ⟨hpos, (any_eq_true _ _).mpr ⟨p, hp, decide_eq_true hlt⟩⟩
    have hstart : b.start < m.arch.floor start := hbelow b hb
    exact ⟨fun _ => hstop, fun hle => absurd hstart (not_lt.mpr hle)⟩
  · have hstart : m.arch.floor start ≤ b.start := habove b hb
    refine ⟨fun hlt => absurd hlt (not_lt.mpr hstart), fun _ => ?_⟩
    obtain ⟨j, hj⟩ := mem_iff_getElem?.mp hb
    rw [getElem?_drop] at hj
    -- the first area at or past the start decides for all later ones
    have hidx : s.areaInsertIndex (m.arch.floor start) < s.areas.length := by
      have := (List.getElem?_eq_some_iff.mp hj).1
      omega
    have hc := getElem?_eq_getElem hidx
    rw [hc, any_some, Bool.and_eq_false_iff, decide_eq_false_iff_not, decide_eq_false_iff_not] at h
    have hcmem : s.areas[s.areaInsertIndex (m.arch.floor start)] ∈
        s.areas.drop (s.areaInsertIndex (m.arch.floor start)) := by
      rw [drop_eq_getElem_cons hidx]
      exact mem_cons_self
    have hclo : m.arch.floor start ≤
        (s.areas[s.areaInsertIndex (m.arch.floor start)]).start := habove _ hcmem
    have hle : (s.areas[s.areaInsertIndex (m.arch.floor start)]).start ≤ b.start :=
      hs.lo_le (Nat.le_add_right _ _) hc hj
    have hcne := hno _ (mem_of_getElem? hc)
    have hcle := (s.areas[s.areaInsertIndex (m.arch.floor start)]).start_le_stop
    generalize s.areas[s.areaInsertIndex (m.arch.floor start)] = c at *
    unfold MapArea.IsEmpty at hcne
    omega

/-- What `find_mmap_hole` has checked when it returns a cursor. -/
structure HoleAt (m : Machine) (s : MemorySet) (limit len cursor : Nat) : Prop where
  le_limit : cursor + len ≤ limit
  prev : ∀ p, 0 < s.areaInsertIndex (m.arch.floor cursor) →
    s.areas[s.areaInsertIndex (m.arch.floor cursor) - 1]? = some p →
    vaOfVpn m.arch p.stop ≤ cursor
  next : ∀ a, ((s.areas.drop (s.areaInsertIndex (m.arch.floor cursor))).find?
      fun a => decide (cursor < vaOfVpn m.arch a.stop)) = some a →
    cursor + len ≤ vaOfVpn m.arch a.start

/-- The area is in the way of a range at the cursor: it reaches past the cursor, and starts
below the end of the range. -/
structure InTheWay (m : Machine) (len cursor : Nat) (a : MapArea) : Prop where
  past : cursor < vaOfVpn m.arch a.stop
  start_lt : a.start * PAGE_SIZE < cursor + len

/-- **One round of the hole search**: it gives up at the limit, returns the cursor, or moves it
past an area that is in the way. -/
theorem findMmapHoleLoop_round (hs : s.Ordered) (m : Machine) (limit len cursor : Nat) :
    (limit < cursor + len ∨ USIZE_RANGE ≤ cursor + len) ∧
        (∀ fuel, findMmapHoleLoop m s limit len (fuel + 1) cursor = some none) ∨
      HoleAt m s limit len cursor ∧
        (∀ fuel, findMmapHoleLoop m s limit len (fuel + 1) cursor = some (some cursor)) ∨
      ∃ a ∈ s.areas, InTheWay m len cursor a ∧
        ∀ fuel, findMmapHoleLoop m s limit len (fuel + 1) cursor =
          findMmapHoleLoop m s limit len fuel (pageAlignUp (vaOfVpn m.arch a.stop)) := by
  simp only [findMmapHoleLoop]
  cases hadd : checkedAdd cursor len with
  | none => exact .inl ⟨.inr (by simpa [checkedAdd] using hadd), fun _ => rfl⟩
  | some stop =>
  obtain ⟨rfl, -⟩ := checkedAdd_eq_some hadd
  by_cases hlim : limit < cursor + len
  · exact .inl ⟨.inl hlim, fun _ => if_pos hlim⟩
  simp only [if_neg hlim]
  cases hprev : ((if 0 < s.areaInsertIndex (m.arch.floor cursor) then
      s.areas[s.areaInsertIndex (m.arch.floor cursor) - 1]? else none).map
        fun a => vaOfVpn m.arch a.stop).filter fun e => decide (cursor < e) with
  | some e =>
    -- past the area below, which starts below the page of the cursor
    obtain ⟨he, hlt⟩ := filter_eq_some_iff.mp hprev
    obtain ⟨p, hp, rfl⟩ := map_eq_some_iff.mp he
    obtain ⟨hpos, hp⟩ := ite_none_right_eq_some.mp hp
    have hstart : p.start < m.arch.floor cursor :=
      (hs.lowerBound_spec _).2.1 p (mem_of_getElem? ((getElem?_take_of_lt (by
        show _ < s.areaInsertIndex (m.arch.floor cursor)
        omega)).trans hp))
    have hfloor := floor_mul_le m.arch cursor
    have hmul := Nat.mul_lt_mul_of_pos_right hstart (show 0 < PAGE_SIZE by decide)
    exact .inr (.inr ⟨p, mem_of_getElem? hp, ⟨of_decide_eq_true hlt, by omega⟩, fun _ => rfl⟩)
  | none =>
  have hbelow : ∀ p, 0 < s.areaInsertIndex (m.arch.floor cursor) →
      s.areas[s.areaInsertIndex (m.arch.floor cursor) - 1]? = some p →
      vaOfVpn m.arch p.stop ≤ cursor := by
    intro p hpos hp
    rw [if_pos hpos, hp] at hprev
    simpa using hprev
  cases hnext : (s.areas.drop (s.areaInsertIndex (m.arch.floor cursor))).find?
      fun a => decide (cursor < vaOfVpn m.arch a.stop) with
  | none => exact .inr (.inl ⟨⟨not_lt.mp hlim, hbelow, by simp [hnext]⟩, fun _ => rfl⟩)
  | some a =>
    by_cases hroom : cursor + len ≤ vaOfVpn m.arch a.start
    · refine .inr (.inl ⟨⟨not_lt.mp hlim, hbelow, ?_⟩, fun _ => ?_⟩)
      · rw [hnext]
        rintro _ ⟨⟩
        exact hroom
      · simp [if_pos hroom]
    · -- past the area above
      have hlt : cursor < vaOfVpn m.arch a.stop := by simpa using find?_some hnext
      have hva := (vaOfVpn_spec m.arch (lt_of_le_of_lt a.start_le_stop a.stop_lt)).1
      refine .inr (.inr ⟨a, mem_of_mem_drop (mem_of_find?_eq_some hnext), ⟨hlt, by omega⟩,
        fun _ => ?_⟩)
      simp only [if_neg hroom]
      exact if_neg (by omega)

lemma getD_none_eq_some {α : Type} {o : Option (Option α)} {a : α} :
    o.getD none = some a ↔ o = some (some a) := by
  cases o <;> simp

/-- The loop only ever moves its cursor up, and returns it after the checks. -/
lemma holeAt_of_findMmapHoleLoop (hs : s.Ordered) {fuel base cursor : Nat}
    (hbase : base ≤ cursor) (halign : cursor % PAGE_SIZE = 0)
    (h : findMmapHoleLoop m s limit len fuel cursor = some (some c)) :
    base ≤ c ∧ c % PAGE_SIZE = 0 ∧ HoleAt m s limit len c := by
  induction fuel generalizing cursor with
  | zero => cases h
  | succ fuel ih =>
    rcases findMmapHoleLoop_round hs m limit len cursor with
      ⟨-, hr⟩ | ⟨hhole, hr⟩ | ⟨a, -, hway, hr⟩ <;> rw [hr] at h
    · cases h
    · cases h
      exact ⟨hbase, halign, hhole⟩
    · have hup := le_pageAlignUp_vaOfVpn m.arch a.stop_lt
      have hpast := hway.past
      exact ih (by omega) (pageAlignUp_aligned _).1 h

def Between (s : MemorySet) (len c : Nat) : Prop :=
  ∀ b ∈ s.areas, b.stop * PAGE_SIZE ≤ c ∨ c + len ≤ b.start * PAGE_SIZE

/-- A hole lies between areas: those in front of the insertion point end with the last of them,
and of the others the first that reaches past the cursor decides. -/
theorem HoleAt.between (hs : s.Ordered) (h : HoleAt m s limit len c)
    (hlimit : limit ≤ USER_MMAP_LIMIT) : s.Between len c := by
  intro b hb
  have hlim : c + len ≤ 2 ^ 37 := le_trans h.le_limit hlimit
  have hfloor := floor_mul_le m.arch c
  have hva : ∀ p : MapArea, vaOfVpn m.arch p.stop ≤ c → p.stop * PAGE_SIZE ≤ c :=
    fun p hp => le_trans (vaOfVpn_spec m.arch p.stop_lt).1 hp
  rw [← take_append_drop (s.areaInsertIndex (m.arch.floor c)) s.areas] at hb
  rcases mem_append.mp hb with hb | hb
  · left
    refine le_trans (Nat.mul_le_mul_right _ ?_) hfloor
    refine hs.hi_le_of_mem_take (fun p hpos hp => ?_) (hs.lowerBound_spec _).1 hb
    rw [floor_eq_div (by omega)]
    exact (Nat.le_div_iff_mul_le (by decide)).mpr (hva p (h.prev p hpos hp))
  · by_cases hend : vaOfVpn m.arch b.stop ≤ c
    · exact .inl (hva b hend)
    · right
      cases hfind : (s.areas.drop (s.areaInsertIndex (m.arch.floor c))).find?
          fun a => decide (c < vaOfVpn m.arch a.stop) with
      | none => exact absurd (find?_eq_none.mp hfind b hb) (by simpa using hend)
      | some a =>
        have hroom := le_of_le_vaOfVpn (lt_of_le_of_lt a.start_le_stop a.stop_lt)
          (h.next a hfind) (by omega)
        obtain ⟨-, l, r, hl, hno⟩ := find?_eq_some_iff_append.mp hfind
        have hord : span.Ordered (l ++ a :: r) := hl ▸ hs.sublist (drop_sublist _ _)
        rw [hl] at hb
        rcases mem_append.mp hb with hb | hb
        · exact absurd (hno b hb) (by simpa using hend)
        rcases mem_cons.mp hb with rfl | hb
        · exact hroom
        · have hab : a.stop ≤ b.start :=
            rel_of_pairwise_cons (pairwise_append.mp hord).2.1 hb
          have hle := Nat.mul_le_mul_right PAGE_SIZE (le_trans a.start_le_stop hab)
          omega

lemma HoleAt.fits (hs : s.Ordered) (h : HoleAt m s limit len c)
    (hlimit : limit ≤ USER_MMAP_LIMIT) (hno : s.NoEmptyAt (m.arch.floor c)) (hb : b ∈ s.areas) :
    Fits (m.arch.floor c) (ceil m.arch (c + len)) b := by
  have hlim : c + len ≤ 2 ^ 37 := le_trans h.le_limit hlimit
  have hfloor : m.arch.floor c = c / PAGE_SIZE := floor_eq_div (by omega)
  have hbetween := h.between hs hlimit b hb
  refine fits_of_not_meets (fun hlt => ?_) ?_ (hno b hb)
  · have hmul := Nat.mul_lt_mul_of_pos_right hlt (show 0 < PAGE_SIZE by decide)
    have hle := floor_mul_le m.arch c
    rw [hfloor]
    exact (Nat.le_div_iff_mul_le (by decide)).mpr (hbetween.resolve_right (by omega))
  · rw [hfloor, Nat.le_div_iff_mul_le (by decide)]
    exact hbetween.imp_right fun hle => ceil_le hle (by omega)

def NoEmptyIn (s : MemorySet) (lo hi : Nat) : Prop :=
  ∀ b ∈ s.areas, b.IsEmpty → ¬ (lo ≤ b.start ∧ b.start < hi)

instance (s : MemorySet) (lo hi : Nat) : Decidable (s.NoEmptyIn lo hi) :=
  inferInstanceAs (Decidable (∀ b ∈ s.areas, _))

/-- The empty areas are out of the way of a hole search: none starts above the hint, and
none in the whole window when the search has to start over. -/
def HoleSearchClear (m : Machine) (s : MemorySet) (len : Nat) : Prop :=
  s.NoEmptyIn (m.arch.floor (normalizedMmapHint m.arch s.mmapNext))
      (m.arch.floor USER_MMAP_LIMIT) ∧
    (s.findMmapHole m (normalizedMmapHint m.arch s.mmapNext) USER_MMAP_LIMIT len = none →
      s.NoEmptyIn (m.arch.floor (USER_MMAP_BASE m.arch)) (m.arch.floor USER_MMAP_LIMIT))

instance (m : Machine) (s : MemorySet) (len : Nat) : Decidable (HoleSearchClear m s len) :=
  inferInstanceAs (Decidable (_ ∧ _))

lemma normalizedMmapHint_bounds (arch : Arch) (hint : Nat) :
    USER_MMAP_BASE arch ≤ normalizedMmapHint arch hint ∧
      normalizedMmapHint arch hint ≤ USER_MMAP_LIMIT := by
  unfold normalizedMmapHint
  split
  next h =>
    have hup : hint ≤ pageAlignUp hint := by
      apply le_pageAlignUp
      unfold USER_MMAP_LIMIT PAGE_SIZE USIZE_RANGE at *
      omega
    exact ⟨le_trans h.1 hup, pageAlignUp_le h.2.le (by decide) (by decide)⟩
  · cases arch <;> decide

/-- A hole found from `start` on begins in the pages `[start, limit)`. -/
lemma holeAt_of_findMmapHole (hs : s.Ordered) (hlimit : limit ≤ USER_MMAP_LIMIT)
    (h : s.findMmapHole m start limit len = some c) :
    HoleAt m s limit len c ∧ start ≤ c ∧ c % PAGE_SIZE = 0 := by
  obtain ⟨hne, h⟩ := ite_none_left_eq_some.mp h
  have hlim : limit ≤ 2 ^ 37 := hlimit
  have hup : start ≤ pageAlignUp start := by
    apply le_pageAlignUp
    unfold PAGE_SIZE USIZE_RANGE
    omega
  obtain ⟨hle, halign, hhole⟩ :=
    holeAt_of_findMmapHoleLoop hs hup (pageAlignUp_aligned start).1 (getD_none_eq_some.mp h)
  exact ⟨hhole, hle, halign⟩

/-- Such a hole begins in the pages of the window. -/
lemma HoleAt.floor_bounds (h : HoleAt m s limit len c) (hlimit : limit ≤ USER_MMAP_LIMIT)
    (hlen : len ≠ 0) (hle : start ≤ c) : m.arch.floor start ≤ m.arch.floor c ∧
      m.arch.floor c < m.arch.floor USER_MMAP_LIMIT := by
  have hend := h.le_limit
  have hM : (USER_MMAP_LIMIT : Nat) = 2 ^ 37 := rfl
  rw [floor_eq_div (show start < 2 ^ 39 by omega), floor_eq_div (show c < 2 ^ 39 by omega),
    floor_eq_div (show USER_MMAP_LIMIT < 2 ^ 39 by decide), hM]
  unfold PAGE_SIZE
  omega

/-- **The hole search**: the range it returns has room in the list, as long as the empty
areas are out of its way. -/
theorem fits_of_allocMmapRange (hs : s.Ordered) (h : s.allocMmapRange m len = some c)
    (hclear : HoleSearchClear m s len) (hb : b ∈ s.areas) :
    Fits (m.arch.floor c) (ceil m.arch (c + len)) b := by
  obtain ⟨hbase, hmax⟩ := normalizedMmapHint_bounds m.arch s.mmapNext
  obtain ⟨hlen, h⟩ := ite_none_left_eq_some.mp h
  rw [not_or] at hlen
  rcases or_eq_some_iff.mp h with h | ⟨hnone, h⟩
  · obtain ⟨hhole, hle, -⟩ := holeAt_of_findMmapHole hs (le_refl _) h
    obtain ⟨hlo, hhi⟩ := hhole.floor_bounds (le_refl _) hlen.1 hle
    apply hhole.fits hs (le_refl _) _ hb
    intro a ha hempty heq
    exact hclear.1 a ha hempty ⟨heq ▸ hlo, heq ▸ hhi⟩
  · obtain ⟨hhole, hle, -⟩ := holeAt_of_findMmapHole hs hmax h
    obtain ⟨hlo, hhi⟩ := hhole.floor_bounds hmax hlen.1 hle
    apply hhole.fits hs hmax _ hb
    intro a ha hempty heq
    exact hclear.2 hnone a ha hempty ⟨heq ▸ hlo, heq ▸ hhi⟩

end MemorySet

end Whusp.Mm
