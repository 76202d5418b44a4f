import Whusp.Lib.Transition
import Whusp.Fs.TmpfsInode

/-!
# Range operations of a tmpfs file, by their effect on its bytes

`byteAt` is the byte of an inode at a file position: an extent that covers it, else the
inline data, else 0.  Each range operation of the inode is specified by what it does to
`byteAt`, and keeps the representation invariant `Sound`.
-/

namespace Whusp.Fs

open Whusp.Lib (Byte SortedMap)
open TmpfsSparseExtent List Option

/-! ## Inline data -/

@[simp] lemma resize_length (data : List Byte) (n : Nat) : (resize data n).length = n := by
  simp only [resize, length_append, length_take, length_replicate]
  omega

lemma resize_getD (data : List Byte) (n i : Nat) :
    (resize data n).getD i 0 = if i < n then data.getD i 0 else 0 := by
  simp only [resize, getD_eq_getElem?_getD]
  split
  next hi =>
    by_cases hd : i < data.length
    · rw [getElem?_append_left (by rw [length_take]; omega), getElem?_take_of_lt hi]
    · rw [getElem?_append_right (by rw [length_take]; omega), getElem?_replicate,
        getElem?_eq_none (not_lt.mp hd)]
      split <;> rfl
  · rw [getElem?_eq_none]
    · rfl
    · rw [length_append, length_take, length_replicate]
      omega

variable {bytes data : List Byte} {start : Nat}

lemma splice_length (h : start + bytes.length ≤ data.length) :
    (splice data start bytes).length = data.length := by
  simp only [splice, length_append, length_take, length_drop]
  omega

lemma splice_getD (h : start + bytes.length ≤ data.length) (i : Nat) :
    (splice data start bytes).getD i 0 =
      if start ≤ i ∧ i < start + bytes.length then bytes.getD (i - start) 0
      else data.getD i 0 := by
  have htake : (data.take start).length = start := by
    rw [length_take]
    omega
  simp only [splice, getD_eq_getElem?_getD, append_assoc]
  by_cases hlow : i < start
  · rw [getElem?_append_left (by omega), getElem?_take_of_lt hlow, if_neg (by omega)]
  rw [getElem?_append_right (by omega), htake]
  by_cases hin : i - start < bytes.length
  · rw [getElem?_append_left hin, if_pos (by omega)]
  · rw [getElem?_append_right (not_lt.mp hin), getElem?_drop, if_neg (by omega)]
    congr 2
    omega

lemma getD_of_length_le {i : Nat} (h : data.length ≤ i) : data.getD i 0 = 0 := by
  rw [getD_eq_getElem?_getD, getElem?_eq_none h]
  rfl

namespace TmpfsInode

def byteAt (inode : TmpfsInode) (i : Nat) : Byte :=
  (sparseAt inode.sparseData i).getD (inode.data.getD i 0)

/-- `inode'` is sound, has the size of `inode` and these bytes. -/
structure Effect (limit : Nat) (inode inode' : TmpfsInode) (content : Nat → Byte) : Prop where
  sound : Sound limit inode'
  size : inode'.size = inode.size
  byte : ∀ i, inode'.byteAt i = content i

/-- `inode'` differs from `inode` in the inline data only. -/
structure InlineEdit (limit : Nat) (inode inode' : TmpfsInode) : Prop where
  sound : Sound limit inode'
  size : inode'.size = inode.size
  sparse : inode'.sparseData = inode.sparseData

variable {limit : Nat} {inode inode' : TmpfsInode} {alloc : Nat → Bool}

variable {n start stop offset : Nat}

section

variable (h : Sound limit inode)
include h

lemma Sound.resizeInline (hn : n ≤ limit) :
    InlineEdit limit inode (inode.resizeInline n) := by
  refine ⟨⟨?_, h.extent, h.disjoint, ?_⟩, rfl, rfl⟩
  · show (resize inode.data n).length ≤ limit
    rw [resize_length]
    exact hn
  · have hpay := h.payload
    show inode.allocatedPayloadLen + (n - inode.data.length) - (inode.data.length - n) =
      (resize inode.data n).length + inode.total stored
    rw [resize_length]
    omega

lemma Sound.writeInline (hfit : start + bytes.length ≤ inode.data.length) :
    InlineEdit limit inode (inode.writeInline start bytes) := by
  refine ⟨⟨?_, h.extent, h.disjoint, ?_⟩, rfl, rfl⟩
  · show (splice inode.data start bytes).length ≤ limit
    rw [splice_length hfit]
    exact h.data_le
  · show inode.allocatedPayloadLen = (splice inode.data start bytes).length + inode.total stored
    rw [splice_length hfit]
    exact h.payload

/-- Growing the inline data adds zeros where zeros were read before. -/
lemma Sound.growInline (hn : n ≤ limit)
    (heq : inode.growInline alloc n = some inode') :
    InlineEdit limit inode inode' ∧ inode'.data.length = max inode.data.length n ∧
      ∀ i, inode'.data.getD i 0 = inode.data.getD i 0 := by
  unfold TmpfsInode.growInline at heq
  split at heq
  · obtain ⟨-, rfl⟩ := of_refusal heq
    refine ⟨h.resizeInline hn, ?_, ?_⟩
    · show (resize inode.data n).length = _
      rw [resize_length]
      omega
    intro i
    show (resize inode.data n).getD i 0 = _
    rw [resize_getD]
    split
    · rfl
    · exact (getD_of_length_le (by omega)).symm
  · cases heq
    exact ⟨⟨h, rfl, rfl⟩, by omega, fun _ => rfl⟩

end

variable {i a b c k : Nat} {l : List (Nat × TmpfsSparseExtent)} {inode1 : TmpfsInode}
  {e : TmpfsSparseExtent}

section

variable (h : Sound limit inode)
include h

lemma Sound.sparseAt_below (hi : i < limit) :
    sparseAt inode.sparseData i = none := by
  rw [sparseAt_eq_none_iff]
  intro x hx hc
  have := (h.extent x hx).inline
  have := hc.1
  omega

lemma Sound.data_above (hi : limit ≤ i) :
    inode.data.getD i 0 = 0 := getD_of_length_le (le_trans h.data_le hi)

lemma Sound.fillInline (hss : start ≤ stop)
    (hstop : stop ≤ inode.data.length) : InlineEdit limit inode (inode.fillInline start stop) ∧
      ∀ i, (inode.fillInline start stop).data.getD i 0 =
        if start ≤ i ∧ i < stop then 0 else inode.data.getD i 0 := by
  have hfit : start + (List.replicate (stop - start) (0 : Byte)).length ≤ inode.data.length := by
    rw [length_replicate]
    omega
  refine ⟨h.writeInline hfit, ?_⟩
  intro i
  show (splice inode.data start (List.replicate (stop - start) 0)).getD i 0 = _
  rw [splice_getD hfit, length_replicate, Nat.add_sub_cancel' hss]
  simp

end

/-! ## Reserving zeros -/

open TmpfsSparseExtent

section

variable (h : Sound limit inode)
include h

/-- A zero extent over a hole past the inline limit changes no byte. -/
lemma Sound.insertZeroExtent (hlim : limit ≤ a) (hab : a < b)
    (hb : b < U64_RANGE) (hfree : Free inode.sparseData a b) :
    SparseEdit limit inode (inode.insertZeroExtent a b) ∧
      (inode.insertZeroExtent a b).sparseData.entries.Perm
        ((a, .repeated [0] (b - a)) :: inode.sparseData.entries) ∧
      ∀ i, (inode.insertZeroExtent a b).byteAt i = inode.byteAt i := by
  have hlen : a + (b - a) = b := by omega
  have hnew : inode.insertZeroExtent a b = inode.insertSparseExtent a (.repeated [0] (b - a)) := by
    simp [TmpfsInode.insertZeroExtent, repeatedValue, if_neg (Nat.not_le.mpr hab),
      if_neg (Nat.sub_ne_zero_of_lt hab), TmpfsInode.insertPiece]
  have hok : ExtentOk limit (a, .repeated [0] (b - a)) :=
    ⟨repeated_singleton_ok 0 (by omega), hlim, by simp only [len]; omega⟩
  obtain ⟨hedit, hperm⟩ := h.insert hok (by
    simp only [len, hlen]
    exact hfree)
  rw [hnew]
  refine ⟨hedit, hperm, ?_⟩
  intro i
  simp only [byteAt, sparseAt_of_perm hperm hedit.sound.disjoint i, hedit.data]
  split
  next hc =>
    obtain ⟨hc1, hc2⟩ := hc
    simp only [len] at hc1 hc2
    rw [sparseAt_of_free hfree hc1 (by omega), repeated_singleton_byte, getD_none,
      h.data_above (by omega)]
    rfl
  · rfl

/-- The gap that one round of the reserving loop fills. -/
lemma Sound.fillGap {sparseStart : Nat}
    {x : Nat × TmpfsSparseExtent}
    (hlim : limit ≤ c) (hstart : sparseStart ≤ c) (hstop : stop < U64_RANGE)
    (hsorted : ∀ y ∈ l, x.1 < y.1) (hmem : ∀ y ∈ x :: l, y ∈ inode.sparseData.entries ∧ y.1 < stop)
    (hrest : c < stop → ∀ y ∈ inode.sparseData.entries, y.1 < stop → c < y.1 + y.2.len →
      y ∈ x :: l) :
    let state := TmpfsInode.fillGap (c, inode) (max x.1 sparseStart, min (x.1 + x.2.len) stop)
    SparseEdit limit inode state.2 ∧ (∀ i, state.2.byteAt i = inode.byteAt i) ∧ c ≤ state.1 ∧
      (∀ y ∈ l, y ∈ state.2.sparseData.entries) ∧
      (state.1 < stop → ∀ y ∈ state.2.sparseData.entries, y.1 < stop →
        state.1 < y.1 + y.2.len → y ∈ l) := by
  have hx := hmem x mem_cons_self
  -- an extent of the map that still meets the rest is one of the list, and not `x`
  have hold : max c (min (x.1 + x.2.len) stop) < stop → ∀ y ∈ inode.sparseData.entries,
      y.1 < stop → max c (min (x.1 + x.2.len) stop) < y.1 + y.2.len → y ∈ l := by
    intro hlt y hy hy1 hy2
    rcases mem_cons.mp (hrest (by omega) y hy hy1 (by omega)) with rfl | hy
    · omega
    · exact hy
  simp only [TmpfsInode.fillGap]
  split
  next hgap =>
    have ha : max x.1 sparseStart = x.1 := by omega
    rw [ha] at hgap ⊢
    have hfree : Free inode.sparseData c x.1 := by
      intro y hy _
      by_cases hin : y.1 < stop ∧ c < y.1 + y.2.len
      · rcases mem_cons.mp (hrest (by omega) y hy hin.1 hin.2) with rfl | hyl
        · simp
        · exact .inr (hsorted y hyl).le
      · omega
    obtain ⟨hedit, hperm, hbyte⟩ := h.insertZeroExtent hlim hgap (by omega) hfree
    refine ⟨hedit, hbyte, by omega, ?_, ?_⟩
    · intro y hy
      exact hperm.mem_iff.mpr (mem_cons_of_mem _ (hmem y (mem_cons_of_mem _ hy)).1)
    intro hlt y hy hy1 hy2
    rcases mem_cons.mp (hperm.mem_iff.mp hy) with rfl | hy
    · -- the new zeros end where `x` starts
      simp only [len] at hy1 hy2
      omega
    · exact hold hlt y hy hy1 hy2
  · exact ⟨h.edit_refl, fun _ => rfl, by omega,
      fun y hy => (hmem y (mem_cons_of_mem _ hy)).1, hold⟩

/-- The reserving loop: afterwards the range from the cursor on is free. -/
lemma Sound.fillGaps (sparseStart stop : Nat) (hlim : limit ≤ c)
    (hstart : sparseStart ≤ c) (hstop : stop < U64_RANGE)
    (hsorted : l.Pairwise fun a b => a.1 < b.1)
    (hmem : ∀ y ∈ l, y ∈ inode.sparseData.entries ∧ y.1 < stop)
    (hrest : c < stop → ∀ y ∈ inode.sparseData.entries, y.1 < stop → c < y.1 + y.2.len → y ∈ l) :
    let state := (l.map fun x => (max x.1 sparseStart, min (x.1 + x.2.len) stop)).foldl
      TmpfsInode.fillGap (c, inode)
    SparseEdit limit inode state.2 ∧ (∀ i, state.2.byteAt i = inode.byteAt i) ∧ c ≤ state.1 ∧
      (state.1 < stop → Free state.2.sparseData state.1 stop) := by
  induction l generalizing c inode with
  | nil =>
    refine ⟨h.edit_refl, fun _ => rfl, le_refl _, ?_⟩
    intro hlt y hy _
    by_cases hin : y.1 < stop ∧ c < y.1 + y.2.len
    · exact absurd (hrest hlt y hy hin.1 hin.2) not_mem_nil
    · show y.1 + y.2.len ≤ c ∨ stop ≤ y.1
      omega
  | cons x l ih =>
    obtain ⟨hx, hsorted'⟩ := pairwise_cons.mp hsorted
    obtain ⟨hedit, hbyte, hc, hmem', hrest'⟩ :=
      h.fillGap hlim hstart hstop hx hmem hrest
    obtain ⟨hedit2, hbyte2, hc2, hfree⟩ := ih hedit.sound (by omega) (by omega) hsorted'
      (fun y hy => ⟨hmem' y hy, (hmem y (mem_cons_of_mem _ hy)).2⟩) hrest'
    exact ⟨hedit.trans hedit2, fun i => (hbyte2 i).trans (hbyte i), hc.trans hc2, hfree⟩

/-- The sparse part of `reserve_zero_range`. -/
lemma Sound.reserveSparse (hlim : limit ≤ start)
    (hstop : stop < U64_RANGE) :
    let allocated := (inode.sparseData.entries.filter fun x =>
      x.1 < stop ∧ start < satAdd x.1 x.2.len).map fun x =>
        (max x.1 start, min (satAdd x.1 x.2.len) stop)
    let filled := allocated.foldl TmpfsInode.fillGap (start, inode)
    Effect limit inode
      (if filled.1 < stop then filled.2.insertZeroExtent filled.1 stop else filled.2)
      inode.byteAt := by
  intro allocated filled
  have hsat : ∀ x ∈ inode.sparseData.entries, satAdd x.1 x.2.len = x.1 + x.2.len :=
    fun x hx => satAdd_eq (h.extent x hx).bound
  have hlist : allocated = ((inode.sparseData.entries.filter fun x =>
      decide (x.1 < stop ∧ start < satAdd x.1 x.2.len)).map fun x =>
        (max x.1 start, min (x.1 + x.2.len) stop)) := by
    apply map_congr_left
    intro x hx
    rw [hsat x (mem_filter.mp hx).1]
  have hloop := h.fillGaps start stop (c := start)
    (l := inode.sparseData.entries.filter fun x =>
      decide (x.1 < stop ∧ start < satAdd x.1 x.2.len)) hlim (le_refl _) hstop
    (inode.sparseData.sorted.filter _)
    (by
      intro y hy
      obtain ⟨hy, hcond⟩ := mem_filter.mp hy
      exact ⟨hy, (of_decide_eq_true hcond).1⟩)
    (by
      intro _ y hy hy1 hy2
      exact mem_filter.mpr ⟨hy, decide_eq_true ⟨hy1, by rw [hsat y hy]; exact hy2⟩⟩)
  rw [← hlist] at hloop
  obtain ⟨hedit, hbyte, hc, hfree⟩ := hloop
  split
  next hlt =>
    obtain ⟨hedit2, -, hbyte2⟩ := hedit.sound.insertZeroExtent (le_trans hlim hc) hlt hstop
      (hfree hlt)
    exact ⟨hedit2.sound, hedit2.size.trans hedit.size, fun i => (hbyte2 i).trans (hbyte i)⟩
  · exact { hedit with byte := hbyte }

end

lemma InlineEdit.effect (h : InlineEdit limit inode inode')
    (hdata : ∀ i, inode'.data.getD i 0 = inode.data.getD i 0) :
    Effect limit inode inode' inode.byteAt :=
  ⟨h.sound, h.size, fun i => by simp only [byteAt, h.sparse, hdata i]⟩

/-- **Reserving changes no byte.** -/
theorem Sound.reserveZeroRange (h : Sound limit inode) (hstop : stop < U64_RANGE)
    (heq : inode.reserveZeroRange alloc offset stop limit = some inode') :
    Effect limit inode inode' inode.byteAt := by
  unfold TmpfsInode.reserveZeroRange at heq
  split at heq
  · cases heq
    exact ⟨h, rfl, fun _ => rfl⟩
  obtain ⟨inode1, hgrow, heq⟩ := map_eq_some_iff.mp heq
  have h1 : Effect limit inode inode1 inode.byteAt := by
    split at hgrow
    · obtain ⟨hedit, -, hdata⟩ := h.growInline (min_le_right _ _) hgrow
      exact hedit.effect hdata
    · cases hgrow
      exact ⟨h, rfl, fun _ => rfl⟩
  have h2 : Effect limit inode1 inode' inode1.byteAt := by
    simp only at heq
    split at heq
    · rw [← heq]
      exact ⟨h1.sound, rfl, fun _ => rfl⟩
    · rw [← heq]
      exact h1.sound.reserveSparse (le_max_right _ _) hstop
  exact ⟨h2.sound, h2.size.trans h1.size, fun i => (h2.byte i).trans (h1.byte i)⟩

/-! ## Writing zeros and punching holes -/

/-- Bytes with zeros in a range. -/
def zeroed (f : Nat → Byte) (start stop i : Nat) : Byte := if start ≤ i ∧ i < stop then 0 else f i

lemma Sound.zeroRange (h : InlineEdit limit inode inode') (halloc : HeapServes alloc)
    (hss : start ≤ stop)
    (hdata : ∀ i, inode'.data.getD i 0 = if start ≤ i ∧ i < stop then 0 else inode.data.getD i 0) :
    Effect limit inode (inode'.removeSparseRange alloc start stop)
        (zeroed inode.byteAt start stop) ∧
      (start < stop → Free (inode'.removeSparseRange alloc start stop).sparseData start stop) := by
  rcases lt_or_eq_of_le hss with hlt | rfl
  · obtain ⟨hedit, hfree, hout, -⟩ := h.sound.removeSparseRange halloc hlt
    refine ⟨⟨hedit.sound, hedit.size.trans h.size, ?_⟩, fun _ => hfree⟩
    intro i
    simp only [byteAt, zeroed, hedit.data, hdata i]
    split
    next hi =>
      rw [sparseAt_of_free hfree hi.1 hi.2]
      rfl
    next hi =>
      rw [hout i hi, h.sparse]
  · -- an empty range
    have hnone : inode'.removeSparseRange alloc start start = inode' := if_pos (le_refl _)
    rw [hnone]
    refine ⟨⟨h.sound, h.size, ?_⟩, fun hlt => absurd hlt (lt_irrefl _)⟩
    intro i
    have hi : ¬ (start ≤ i ∧ i < start) := by omega
    simp only [byteAt, zeroed, hdata i, if_neg hi, h.sparse]

/-- The inline part of `write_zero_range`: grown, then filled with zeros. -/
lemma Sound.growFill (h : Sound limit inode) {inlineEnd : Nat} (hoff : offset ≤ inlineEnd)
    (hend : inlineEnd = min stop limit) (hgrow : inode.growInline alloc inlineEnd = some inode1) :
    InlineEdit limit inode (inode1.fillInline offset inlineEnd) ∧
      ∀ i, (inode1.fillInline offset inlineEnd).data.getD i 0 =
        if offset ≤ i ∧ i < stop then 0 else inode.data.getD i 0 := by
  obtain ⟨hedit1, hlen, hdata1⟩ := h.growInline (by omega) hgrow
  obtain ⟨hedit2, hdata2⟩ := hedit1.sound.fillInline hoff (by omega)
  refine ⟨⟨hedit2.sound, hedit2.size.trans hedit1.size, hedit2.sparse.trans hedit1.sparse⟩, ?_⟩
  intro i
  rw [hdata2 i, hdata1 i]
  by_cases hi : i < limit
  · simp [hend, hi]
  · -- past the limit the inline data is empty
    rw [h.data_above (not_lt.mp hi)]
    simp

section

variable (h : Sound limit inode) (halloc : HeapServes alloc) (hle : offset ≤ stop)
include h halloc hle

/-- **Writing zeros**: the range reads as zeros, the rest is unchanged. -/
theorem Sound.writeZeroRange (hstop : stop < U64_RANGE)
    (heq : inode.writeZeroRange alloc offset stop limit = some inode') :
    Effect limit inode inode' (zeroed inode.byteAt offset stop) := by
  unfold TmpfsInode.writeZeroRange at heq
  split at heq
  next hinl =>
    obtain ⟨inode1, hgrow, rfl⟩ := map_eq_some_iff.mp heq
    obtain ⟨hedit, hdata⟩ := h.growFill hle (min_eq_left hinl).symm hgrow
    exact (Sound.zeroRange hedit halloc hle hdata).1
  · obtain ⟨inode1, hpre, rfl⟩ := map_eq_some_iff.mp heq
    have hinline : InlineEdit limit inode inode1 ∧ ∀ i, inode1.data.getD i 0 =
        if offset ≤ i ∧ i < stop then 0 else inode.data.getD i 0 := by
      split at hpre
      · obtain ⟨inode0, hgrow, rfl⟩ := map_eq_some_iff.mp hpre
        exact h.growFill (by omega) rfl hgrow
      cases hpre
      refine ⟨⟨h, rfl, rfl⟩, ?_⟩
      intro i
      split
      · exact h.data_above (by omega)
      · rfl
    obtain ⟨heff, hfree⟩ := Sound.zeroRange hinline.1 halloc hle hinline.2
    by_cases hlt : max offset limit < stop
    · obtain ⟨hedit2, -, hbyte2⟩ := heff.sound.insertZeroExtent (le_max_right _ _) hlt hstop
        (Free.mono (hfree (by omega)) (le_max_left _ _) (le_refl _))
      exact ⟨hedit2.sound, hedit2.size.trans heff.size, fun i => (hbyte2 i).trans (heff.byte i)⟩
    · rw [show (inode1.removeSparseRange alloc offset stop).insertZeroExtent
          (max offset limit) stop =
        inode1.removeSparseRange alloc offset stop from if_pos (not_lt.mp hlt)]
      exact heff

/-- **Punching a hole**: the range reads as zeros, the rest is unchanged. -/
theorem Sound.punchHoleRange : Effect limit inode (inode.punchHoleRange alloc offset stop limit)
      (zeroed inode.byteAt offset stop) := by
  -- where nothing is filled, the inline data ends before the range
  have hskip : inode.data.length ≤ offset ∨ stop ≤ offset → ∀ i, inode.data.getD i 0 =
      if offset ≤ i ∧ i < stop then 0 else inode.data.getD i 0 := by
    intro hout i
    split
    · exact getD_of_length_le (by omega)
    · rfl
  have hfill : ∀ {a b : Nat}, a ≤ b → b ≤ inode.data.length →
      (∀ i, i < inode.data.length → ((a ≤ i ∧ i < b) ↔ (offset ≤ i ∧ i < stop))) →
      InlineEdit limit inode (inode.fillInline a b) ∧ ∀ i, (inode.fillInline a b).data.getD i 0 =
        if offset ≤ i ∧ i < stop then 0 else inode.data.getD i 0 := by
    intro a b hab hb hiff
    obtain ⟨hedit, hdata⟩ := h.fillInline hab hb
    refine ⟨hedit, ?_⟩
    intro i
    rw [hdata i]
    by_cases hi : i < inode.data.length
    · simp [hiff i hi]
    · rw [getD_of_length_le (not_lt.mp hi)]
      simp
  unfold TmpfsInode.punchHoleRange
  split
  · simp only
    split
    · obtain ⟨hedit, hdata⟩ := hfill (a := min offset inode.data.length)
        (b := min stop inode.data.length) (by omega) (by omega) (by omega)
      exact (Sound.zeroRange hedit halloc hle hdata).1
    · exact (Sound.zeroRange ⟨h, rfl, rfl⟩ halloc hle (hskip (by omega))).1
  · split
    · obtain ⟨hedit, hdata⟩ := hfill (a := offset)
        (b := min stop inode.data.length) (by omega) (by omega) (by omega)
      exact (Sound.zeroRange hedit halloc hle hdata).1
    · exact (Sound.zeroRange ⟨h, rfl, rfl⟩ halloc hle (hskip (by omega))).1

end

/-! ## Appending to the extent before a range -/

/-- What `append_sparse_tail` found and did. -/
structure TailAppend (alloc : Nat → Bool) (inode inode' : TmpfsInode) (offset : Nat)
    (buf : List Byte) (n k : Nat) (e e' : TmpfsSparseExtent) : Prop where
  mem : (k, e) ∈ inode.sparseData.entries
  tail : k + e.len = offset
  sparse : inode'.sparseData = inode.sparseData.insert k e'
  data : inode'.data = inode.data
  size : inode'.size = inode.size
  payload : inode'.allocatedPayloadLen =
    inode.allocatedPayloadLen - e.allocatedLen + e'.allocatedLen
  result : Appended e e' buf n ∨ n = 0 ∧ e' = e ∧
    ¬ (HeapServes alloc ∧ inode.allocatedPayloadLen + buf.length ≤ TMPFS_ALLOCATED_PAYLOAD_LIMIT)

variable {buf : List Byte}

lemma Sound.appendSparseTail (h : Sound limit inode) (hbuf : buf ≠ [])
    (hfit : offset + buf.length < U64_RANGE)
    (heq : inode.appendSparseTail alloc offset buf = some (n, inode')) :
    ∃ k e e', TailAppend alloc inode inode' offset buf n k e e' := by
  unfold TmpfsInode.appendSparseTail at heq
  split at heq
  · cases heq
  rename_i k e hlast
  obtain ⟨hmem, -⟩ := SortedMap.lastLE_eq_some hlast
  have hok := h.extent _ hmem
  have hbound : k + e.len < U64_RANGE := hok.bound
  obtain ⟨htail, heq⟩ := ite_none_left_eq_some.mp heq
  rw [satAdd_eq hbound, not_not] at htail
  obtain ⟨⟨n', e'⟩, happ, ⟨⟩⟩ := map_eq_some_iff.mp heq
  have hres := tryAppend_cases (show e.Ok from hok.ok) hbuf (by omega) happ
  exact ⟨k, e, e', hmem, htail, rfl, rfl, rfl, rfl, hres⟩

/-- A refused append changes nothing that a read sees. -/
lemma TailAppend.refused (h : Sound limit inode)
    (ht : TailAppend alloc inode inode' offset buf 0 k e e) :
    Effect limit inode inode' inode.byteAt := by
  have hsame : inode'.sparseData = inode.sparseData := by
    rw [ht.sparse]
    have := SortedMap.insertEntries_eq_self inode.sparseData.sorted ht.mem
    cases hs : inode.sparseData with
    | mk entries sorted =>
      rw [hs] at this
      simp only [SortedMap.insert, SortedMap.mk.injEq]
      exact this
  have hle : e.allocatedLen ≤ inode.total stored := le_total (w := stored) ht.mem
  refine ⟨⟨?_, ?_, ?_, ?_⟩, ht.size, ?_⟩
  · rw [ht.data]
    exact h.data_le
  · rw [hsame]
    exact h.extent
  · rw [hsame]
    exact h.disjoint
  · have hpay := h.payload
    rw [ht.payload, ht.data]
    simp only [total, hsame] at hle hpay ⊢
    omega
  · intro i
    simp [byteAt, hsame, ht.data]

/-- **A successful append** into a free range: the first `n` bytes of the buffer. -/
theorem TailAppend.appended {e' : TmpfsSparseExtent} (h : Sound limit inode)
    (ht : TailAppend alloc inode inode' offset buf n k e e') (happ : Appended e e' buf n)
    (hfit : offset + buf.length < U64_RANGE) (hfree : Free inode.sparseData offset (offset + n)) :
    SparseEdit limit inode inode' ∧ (∀ i, sparseAt inode'.sparseData i =
        if offset ≤ i ∧ i < offset + n then some (buf.getD (i - offset) 0)
        else sparseAt inode.sparseData i) ∧
      inode'.allocatedPayloadLen ≤ inode.allocatedPayloadLen + n := by
  obtain ⟨hmem, htail, hsparse, hdata, hsize, hpayload, -⟩ := ht
  have hok := h.extent _ hmem
  have hlim : limit ≤ k := hok.inline
  have hlen := happ.len
  have hle := happ.le
  have hperm := SortedMap.entries_perm_of_mem hmem
  have hperm' : inode'.sparseData.entries.Perm ((k, e') :: (inode.sparseData.erase k).entries) := by
    rw [hsparse]
    exact SortedMap.entries_insert_perm
  have hold : ∀ x ∈ (inode.sparseData.erase k).entries, x ∈ inode.sparseData.entries ∧ x.1 ≠ k :=
    fun x hx => SortedMap.mem_erase.mp hx
  have hdisj : DisjointExtents inode'.sparseData := by
    intro x hx y hy hlt
    rcases mem_cons.mp (hperm'.mem_iff.mp hx) with rfl | hx <;>
      rcases mem_cons.mp (hperm'.mem_iff.mp hy) with rfl | hy
    · exact absurd hlt (lt_irrefl _)
    · -- an extent past the tail lies past the appended bytes too
      obtain ⟨hy, -⟩ := hold y hy
      have h1 : k + e.len ≤ y.1 := h.disjoint _ hmem y hy hlt
      have h2 := hfree y hy
      have h3 := (h.extent y hy).ok.len_pos
      simp only
      omega
    · exact h.disjoint x (hold x hx).1 (k, e) hmem hlt
    · exact h.disjoint x (hold x hx).1 y (hold y hy).1 hlt
  have hsum : inode.total stored =
      e.allocatedLen + ((inode.sparseData.erase k).entries.map stored).sum := by
    unfold total
    rw [(hperm.map stored).sum_eq, map_cons, sum_cons]
    rfl
  have hsum' : inode'.total stored =
      e'.allocatedLen + ((inode.sparseData.erase k).entries.map stored).sum := by
    unfold total
    rw [(hperm'.map stored).sum_eq, map_cons, sum_cons]
    rfl
  have hpay := h.payload
  have halloc := happ.alloc
  refine ⟨⟨⟨?_, ?_, hdisj, ?_⟩, hdata, hsize⟩, ?_, ?_⟩
  · rw [hdata]
    exact h.data_le
  · intro x hx
    rcases mem_cons.mp (hperm'.mem_iff.mp hx) with rfl | hx
    · exact ⟨happ.ok, hlim, by simp only; omega⟩
    · exact h.extent x (hold x hx).1
  · rw [hpayload, hdata]
    omega
  · intro i
    rw [sparseAt_of_perm hperm' hdisj i, sparseAt_of_perm hperm h.disjoint i]
    by_cases hnew : offset ≤ i ∧ i < offset + n
    · have hc : Covers (k, e') i := ⟨by simp only; omega, by simp only; omega⟩
      have hbyte := happ.new (i - offset) (by omega)
      rw [show e.len + (i - offset) = i - k by omega] at hbyte
      rw [if_pos hc, if_pos hnew]
      exact congrArg some hbyte
    · rw [if_neg hnew]
      by_cases hc : Covers (k, e) i
      · have hc' : Covers (k, e') i := ⟨hc.1, by have := hc.2; simp only at this ⊢; omega⟩
        rw [if_pos hc', if_pos hc]
        exact congrArg some (happ.old _ (by have := hc.1; have := hc.2; simp only at *; omega))
      · have hc' : ¬ Covers (k, e') i := by
          simp only [Covers] at hc ⊢
          omega
        rw [if_neg hc', if_neg hc]
  · omega

/-! ## Writing into a free range -/

/-- `inode'` has the first `n` bytes of `buf` at `offset`, and nothing else has changed. -/
structure Wrote (limit : Nat) (inode inode' : TmpfsInode) (offset : Nat) (buf : List Byte)
    (n : Nat) : Prop where
  edit : SparseEdit limit inode inode'
  sparse : ∀ i, sparseAt inode'.sparseData i =
    if offset ≤ i ∧ i < offset + n then some (buf.getD (i - offset) 0)
    else sparseAt inode.sparseData i
  payload : inode'.allocatedPayloadLen ≤ inode.allocatedPayloadLen + n

/-- Where no byte is stored no extent lies. -/
lemma Sound.free_of_sparseAt (h : Sound limit inode)
    (hnone : ∀ i, a ≤ i → i < b → sparseAt inode.sparseData i = none) :
    Free inode.sparseData a b := by
  intro x hx hab
  by_contra hmeets
  have hpos := (h.extent x hx).ok.len_pos
  -- the first position of the extent inside the range
  have hc : Covers x (max x.1 a) := ⟨by omega, by omega⟩
  have := hnone (max x.1 a) (by omega) (by omega)
  exact sparseAt_eq_none_iff.mp this x hx hc

/-- A fresh extent that holds a prefix of the buffer. -/
lemma Sound.wrote_insert (h : Sound limit inode) (hlim : limit ≤ offset) (hn : n ≤ buf.length)
    (hfit : offset + buf.length < U64_RANGE) (hfree : Free inode.sparseData offset (offset + n))
    (he : Holds e (buf.take n)) :
    Wrote limit inode (inode.insertSparseExtent offset e) offset buf n := by
  have hlen : e.len = n := by
    rw [he.len, length_take]
    omega
  have hok : ExtentOk limit (offset, e) := ⟨he.ok, hlim, by simp only [hlen]; omega⟩
  obtain ⟨hedit, hperm⟩ := h.insert hok (by rw [hlen]; exact hfree)
  refine ⟨hedit, ?_, ?_⟩
  · intro i
    rw [sparseAt_of_perm hperm hedit.sound.disjoint i]
    by_cases hi : offset ≤ i ∧ i < offset + n
    · have hc : Covers (offset, e) i := ⟨hi.1, by simp only [hlen]; omega⟩
      have htake : i - offset < (buf.take n).length := by
        rw [length_take]
        omega
      rw [if_pos hc, if_pos hi, he.byte _ htake, getD_eq_getElem?_getD,
        getElem?_take_of_lt (by omega), ← getD_eq_getElem?_getD]
    · have hc : ¬ Covers (offset, e) i := by
        simp only [Covers, hlen]
        exact hi
      rw [if_neg hc, if_neg hi]
  · have hsum : (inode.insertSparseExtent offset e).total stored =
        e.allocatedLen + inode.total stored := total_of_perm hperm
    have halloc := he.alloc
    rw [length_take] at halloc
    rw [hedit.sound.payload, hedit.data, hsum, h.payload]
    omega

/-- Writing a prefix and then the rest. -/
lemma Wrote.cons {inode2 : TmpfsInode} (h1 : Wrote limit inode inode1 offset buf n)
    (hn : n ≤ buf.length)
    (h2 : Wrote limit inode1 inode2 (offset + n) (buf.drop n) (buf.length - n)) :
    Wrote limit inode inode2 offset buf buf.length := by
  refine ⟨h1.edit.trans h2.edit, ?_, ?_⟩
  · intro i
    rw [h2.sparse i, h1.sparse i]
    by_cases hrest : offset + n ≤ i ∧ i < offset + n + (buf.length - n)
    · rw [if_pos hrest, if_pos (by omega), getD_eq_getElem?_getD, getElem?_drop,
        ← getD_eq_getElem?_getD]
      congr 2
      omega
    · rw [if_neg hrest]
      by_cases hfirst : offset ≤ i ∧ i < offset + n
      · rw [if_pos hfirst, if_pos (by omega)]
      · rw [if_neg hfirst, if_neg (by omega)]
  · have := h1.payload
    have := h2.payload
    omega

/-- **The loop of `write_sparse_data` writes the whole buffer** into a free range, where the
heap serves and the payload fits.  The induction is on the fuel; each round leaves a
free range for the rest. -/
theorem Sound.writeSparseLoop (h : Sound limit inode) (halloc : HeapServes alloc) {fuel : Nat}
    (hlim : limit ≤ offset) (hfuel : buf.length ≤ fuel) (hfit : offset + buf.length < U64_RANGE)
    (hfree : Free inode.sparseData offset (offset + buf.length))
    (hpay : inode.allocatedPayloadLen + buf.length ≤ TMPFS_ALLOCATED_PAYLOAD_LIMIT) :
    ∃ inode', TmpfsInode.writeSparseLoop alloc fuel inode offset buf = (true, inode') ∧
      Wrote limit inode inode' offset buf buf.length := by
  induction fuel generalizing inode offset buf with
  | zero =>
    obtain rfl := length_eq_zero_iff.mp (Nat.le_zero.mp hfuel)
    refine ⟨inode, by unfold TmpfsInode.writeSparseLoop; rfl, h.edit_refl, ?_, le_refl _⟩
    simp
  | succ fuel ih =>
    cases buf with
    | nil =>
      refine ⟨inode, by unfold TmpfsInode.writeSparseLoop; rfl, h.edit_refl, ?_, le_refl _⟩
      simp
    | cons b rest =>
      -- the rest of the buffer after a round that wrote `n` bytes
      have hrest : ∀ {inode1 : TmpfsInode} {n : Nat}, 0 < n → n ≤ (b :: rest).length →
          Wrote limit inode inode1 offset (b :: rest) n →
          ∃ inode', TmpfsInode.writeSparseLoop alloc fuel inode1 (offset + n)
              ((b :: rest).drop n) = (true, inode') ∧
            Wrote limit inode inode' offset (b :: rest) (b :: rest).length := by
        intro inode1 n hpos hn hw
        have hlen : ((b :: rest).drop n).length = (b :: rest).length - n := length_drop
        have hwp := hw.payload
        obtain ⟨inode', heq, hw'⟩ := ih hw.edit.sound
          (show limit ≤ offset + n by omega) (show ((b :: rest).drop n).length ≤ fuel by omega)
          (by omega) (hw.edit.sound.free_of_sparseAt (by
            intro i h1 h2
            rw [hw.sparse i, if_neg (by omega)]
            exact sparseAt_of_free hfree (by omega) (by omega))) (by omega)
        rw [hlen] at hw'
        exact ⟨inode', heq, hw.cons hn hw'⟩
      simp only [TmpfsInode.writeSparseLoop]
      cases happ : inode.appendSparseTail alloc offset (b :: rest) with
      | some p =>
        obtain ⟨k, e, e', ht⟩ := h.appendSparseTail (cons_ne_nil _ _) hfit happ
        rcases ht.result with hres | ⟨-, -, hno⟩
        · obtain ⟨hedit, hsparse, hpl⟩ := ht.appended h hres hfit
            (Free.mono hfree (le_refl _) (by have := hres.le; omega))
          simp only [if_neg hres.pos.ne']
          exact hrest hres.pos hres.le ⟨hedit, hsparse, hpl⟩
        · exact absurd ⟨halloc, hpay⟩ hno
      | none =>
        have hn : min (b :: rest).length TMPFS_SPARSE_EXTENT_LIMIT ≤ (b :: rest).length :=
          min_le_left _ _
        have hpos : 0 < min (b :: rest).length TMPFS_SPARSE_EXTENT_LIMIT := by
          simp only [length_cons, TMPFS_SPARSE_EXTENT_LIMIT]
          omega
        have hfree' : Free inode.sparseData offset
            (offset + min (b :: rest).length TMPFS_SPARSE_EXTENT_LIMIT) :=
          Free.mono hfree (le_refl _) (by omega)
        cases hrep : repeatedByte
            ((b :: rest).take (min (b :: rest).length TMPFS_SPARSE_EXTENT_LIMIT)) with
        | some e =>
          exact hrest hpos hn (h.wrote_insert hlim hn hfit hfree' (repeatedByte_holds hrep))
        | none =>
          have hserve : alloc (min (b :: rest).length TMPFS_SPARSE_EXTENT_LIMIT) = true :=
            halloc _ (min_le_right _ _)
          simp only [hserve, Bool.true_eq_false, or_false]
          rw [if_neg (by omega)]
          have htake : ((b :: rest).take (min (b :: rest).length
              TMPFS_SPARSE_EXTENT_LIMIT)).length =
              min (b :: rest).length TMPFS_SPARSE_EXTENT_LIMIT := by
            simp
          refine hrest hpos hn (h.wrote_insert hlim hn hfit hfree' (holds_bytes ?_ ?_))
          · omega
          · simp

end TmpfsInode

end Whusp.Fs
