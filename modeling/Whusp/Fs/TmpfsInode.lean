import Mathlib.Data.List.Lemmas
import Mathlib.Algebra.Order.BigOperators.Group.List
import Whusp.Fs.TmpfsExtent
import Whusp.Lib.SortedMap

/-!
# The inode of a tmpfs regular file

`TmpfsInode` keeps the bytes below the inline limit in `data` and the rest in a map of
sparse extents by their start.  The first part of this module is the code's inode
operations; the second gives the content of the map as a partial function `sparseAt`
and specifies insertion, removal, range removal and truncation by their effect on it.

`Sound` is the representation invariant of the map: extents are well formed, lie at or
past the inline limit, are pairwise disjoint, and the payload counter counts what is
stored.
-/

namespace Whusp.Fs

open Whusp.Lib (Byte SortedMap)
open TmpfsSparseExtent List Option

/-- `saturating_add` on `u64`. -/
def satAdd (a b : Nat) : Nat := min (a + b) (U64_RANGE - 1)

lemma satAdd_eq {a b : Nat} (h : a + b < U64_RANGE) : satAdd a b = a + b :=
  Nat.min_eq_left (Nat.le_sub_one_of_lt h)

/-- The fields of the inode that the data operations use. -/
structure TmpfsInode where
  size : Nat
  data : List Byte
  sparseData : SortedMap Nat TmpfsSparseExtent
  allocatedPayloadLen : Nat
  allocatedLogicalLen : Nat

/-- `Vec::resize` with zeros. -/
def resize (data : List Byte) (n : Nat) : List Byte :=
  data.take n ++ List.replicate (n - data.length) 0

def splice (data : List Byte) (start : Nat) (bytes : List Byte) : List Byte :=
  data.take start ++ bytes ++ data.drop (start + bytes.length)

namespace TmpfsInode

/-- `TmpfsInode::new` for a regular file. -/
def new : TmpfsInode := ⟨0, [], .empty, 0, 0⟩

/-- `data.resize` or `data.truncate`, with `account_inline_len_change`. -/
def resizeInline (inode : TmpfsInode) (n : Nat) : TmpfsInode :=
  { inode with
    data := resize inode.data n
    allocatedPayloadLen :=
      inode.allocatedPayloadLen + (n - inode.data.length) - (inode.data.length - n)
    allocatedLogicalLen :=
      satAdd inode.allocatedLogicalLen (n - inode.data.length) - (inode.data.length - n) }

/-- The block that extends the inline data up to `inlineEnd`; `none` where it does not fit. -/
def growInline (alloc : Nat → Bool) (inode : TmpfsInode) (inlineEnd : Nat) : Option TmpfsInode :=
  if inode.data.length < inlineEnd then
    let extra := inlineEnd - inode.data.length
    if TMPFS_ALLOCATED_PAYLOAD_LIMIT < inode.allocatedPayloadLen + extra ∨ alloc extra = false then
      none
    else some (inode.resizeInline inlineEnd)
  else some inode

/-- `self.data[start..].copy_from_slice(bytes)`. -/
def writeInline (inode : TmpfsInode) (start : Nat) (bytes : List Byte) : TmpfsInode :=
  { inode with data := splice inode.data start bytes }

/-- `self.data[start..stop].fill(0)`. -/
def fillInline (inode : TmpfsInode) (start stop : Nat) : TmpfsInode :=
  inode.writeInline start (List.replicate (stop - start) 0)

def subtractSparseAccounting (inode : TmpfsInode) (e : TmpfsSparseExtent) : TmpfsInode :=
  { inode with
    allocatedPayloadLen := inode.allocatedPayloadLen - e.allocatedLen
    allocatedLogicalLen := inode.allocatedLogicalLen - e.len }

def insertSparseExtent (inode : TmpfsInode) (offset : Nat) (e : TmpfsSparseExtent) : TmpfsInode :=
  let old := inode.sparseData.get? offset
  let inode := { inode with sparseData := inode.sparseData.insert offset e }
  let inode := match old with
    | some old => inode.subtractSparseAccounting old
    | none => inode
  { inode with
    allocatedPayloadLen := inode.allocatedPayloadLen + e.allocatedLen
    allocatedLogicalLen := satAdd inode.allocatedLogicalLen e.len }

def removeSparseExtent (inode : TmpfsInode) (offset : Nat) :
    Option (TmpfsSparseExtent × TmpfsInode) :=
  (inode.sparseData.get? offset).map fun e =>
    (e, { inode with sparseData := inode.sparseData.erase offset }.subtractSparseAccounting e)

def clearPayload (inode : TmpfsInode) : TmpfsInode :=
  { inode with
    data := [], sparseData := .empty, allocatedPayloadLen := 0, allocatedLogicalLen := 0 }

def insertPiece (inode : TmpfsInode) (offset : Nat) : Option TmpfsSparseExtent → TmpfsInode
  | some e => inode.insertSparseExtent offset e
  | none => inode

/-- The body of the loop of `remove_sparse_range`. -/
def cutExtent (alloc : Nat → Bool) (start stop : Nat) (inode : TmpfsInode) (extentStart : Nat) :
    TmpfsInode :=
  match inode.removeSparseExtent extentStart with
  | none => inode
  | some (e, inode) =>
    let extentEnd := satAdd extentStart e.len
    let left := if extentStart < start then e.slice alloc 0 (start - extentStart) else none
    let right :=
      if stop < extentEnd then e.slice alloc (stop - extentStart) (extentEnd - stop) else none
    (inode.insertPiece extentStart left).insertPiece stop right

def removeSparseRange (alloc : Nat → Bool) (inode : TmpfsInode) (start stop : Nat) : TmpfsInode :=
  if stop ≤ start then inode
  else
    let overlapping := (inode.sparseData.entries.filter fun x =>
      x.1 < stop ∧ start < satAdd x.1 x.2.len).map Prod.fst
    overlapping.foldl (cutExtent alloc start stop) inode

/-- The body of the loop of `truncate_sparse_to`. -/
def truncateExtent (len : Nat) (inode : TmpfsInode) (extentStart : Nat) : TmpfsInode :=
  match inode.removeSparseExtent extentStart with
  | none => inode
  | some (e, inode) =>
    if extentStart < len then
      let e := e.truncateTo (len - extentStart)
      if 0 < e.len then inode.insertSparseExtent extentStart e else inode
    else inode

def truncateSparseTo (inode : TmpfsInode) (len : Nat) : TmpfsInode :=
  let affected := (inode.sparseData.entries.filter fun x =>
    len ≤ x.1 ∨ len < satAdd x.1 x.2.len).map Prod.fst
  affected.foldl (truncateExtent len) inode

def copySparseTo (inode : TmpfsInode) (offset : Nat) (buf : List Byte) : List Byte :=
  (inode.sparseData.entries.filter fun x => x.1 < satAdd offset buf.length).foldl
    (fun buf x => if satAdd x.1 x.2.len ≤ offset then buf else x.2.copyTo x.1 offset buf) buf

def insertZeroExtent (inode : TmpfsInode) (offset stop : Nat) : TmpfsInode :=
  if stop ≤ offset then inode else inode.insertPiece offset (repeatedValue 0 (stop - offset))

/-- The body of the loop of `reserve_zero_range`: the cursor and the inode. -/
def fillGap (state : Nat × TmpfsInode) (allocated : Nat × Nat) : Nat × TmpfsInode :=
  (max state.1 allocated.2,
    if state.1 < allocated.1 then state.2.insertZeroExtent state.1 allocated.1 else state.2)

/-- `none` is the code's `false`, which it returns before any change. -/
def reserveZeroRange (alloc : Nat → Bool) (inode : TmpfsInode) (offset stop inlineFileLimit : Nat) :
    Option TmpfsInode :=
  if stop ≤ offset then some inode
  else
    (if offset < inlineFileLimit then growInline alloc inode (min stop inlineFileLimit)
      else some inode).map fun inode =>
      let sparseStart := max offset inlineFileLimit
      if stop ≤ sparseStart then inode
      else
        let allocated := (inode.sparseData.entries.filter fun x =>
          x.1 < stop ∧ sparseStart < satAdd x.1 x.2.len).map fun x =>
            (max x.1 sparseStart, min (satAdd x.1 x.2.len) stop)
        let filled := allocated.foldl fillGap (sparseStart, inode)
        if filled.1 < stop then filled.2.insertZeroExtent filled.1 stop else filled.2

/-- `none` is the code's `false`, which it returns before any change. -/
def writeZeroRange (alloc : Nat → Bool) (inode : TmpfsInode) (offset stop inlineFileLimit : Nat) :
    Option TmpfsInode :=
  if stop ≤ inlineFileLimit then
    (growInline alloc inode stop).map fun inode =>
      (inode.fillInline offset stop).removeSparseRange alloc offset stop
  else
    (if offset < inlineFileLimit then
        (growInline alloc inode (min stop inlineFileLimit)).map
          (·.fillInline offset (min stop inlineFileLimit))
      else some inode).map fun inode =>
      (inode.removeSparseRange alloc offset stop).insertZeroExtent (max offset inlineFileLimit) stop

def punchHoleRange (alloc : Nat → Bool) (inode : TmpfsInode) (offset stop inlineFileLimit : Nat) :
    TmpfsInode :=
  if stop ≤ inlineFileLimit then
    let inlineEnd := min stop inode.data.length
    let start := min offset inode.data.length
    (if start < inlineEnd then inode.fillInline start inlineEnd else inode).removeSparseRange
      alloc offset stop
  else
    (if offset < inode.data.length then inode.fillInline offset (min stop inode.data.length)
      else inode).removeSparseRange alloc offset stop

def appendSparseTail (alloc : Nat → Bool) (inode : TmpfsInode) (offset : Nat) (buf : List Byte) :
    Option (Nat × TmpfsInode) :=
  match inode.sparseData.lastLE offset with
  | none => none
  | some (extentStart, e) =>
    if satAdd extentStart e.len ≠ offset then none
    else
      (e.tryAppend alloc buf inode.allocatedPayloadLen).map fun (appended, e') =>
        (appended, { inode with
            sparseData := inode.sparseData.insert extentStart e'
            allocatedPayloadLen := inode.allocatedPayloadLen - e.allocatedLen + e'.allocatedLen
            allocatedLogicalLen := satAdd (inode.allocatedLogicalLen - e.len) e'.len })

/-- The loop of `write_sparse_data`; every round takes at least one byte of `buf`, so its
length is enough fuel. -/
def writeSparseLoop (alloc : Nat → Bool) :
    Nat → TmpfsInode → Nat → List Byte → Bool × TmpfsInode
  | _, inode, _, [] => (true, inode)
  | 0, inode, _, _ :: _ => (false, inode)
  | fuel + 1, inode, offset, b :: rest =>
    match inode.appendSparseTail alloc offset (b :: rest) with
    | some (appended, inode) =>
      if appended = 0 then (false, inode)
      else writeSparseLoop alloc fuel inode (offset + appended) ((b :: rest).drop appended)
    | none =>
      let copyLen := min (b :: rest).length TMPFS_SPARSE_EXTENT_LIMIT
      match repeatedByte ((b :: rest).take copyLen) with
      | some e =>
        writeSparseLoop alloc fuel (inode.insertSparseExtent offset e) (offset + copyLen)
          ((b :: rest).drop copyLen)
      | none =>
        if TMPFS_ALLOCATED_PAYLOAD_LIMIT < inode.allocatedPayloadLen + copyLen ∨
            alloc copyLen = false then (false, inode)
        else
          writeSparseLoop alloc fuel
            (inode.insertSparseExtent offset (.bytes ((b :: rest).take copyLen)))
            (offset + copyLen) ((b :: rest).drop copyLen)

def writeSparseData (alloc : Nat → Bool) (inode : TmpfsInode) (offset : Nat) (buf : List Byte) :
    Bool × TmpfsInode :=
  writeSparseLoop alloc buf.length inode offset buf

def allocatedBytesInRange (inode : TmpfsInode) (start stop : Nat) : Nat :=
  if stop ≤ start then 0
  else
    (inode.sparseData.entries.filter fun x => x.1 < stop ∧ start < satAdd x.1 x.2.len).foldl
      (fun allocated x => satAdd allocated (min (satAdd x.1 x.2.len) stop - max x.1 start))
      (min inode.data.length stop - start)

def writeAllocatedGrowth (inode : TmpfsInode) (start stop : Nat) : Nat :=
  stop - start - inode.allocatedBytesInRange start stop

end TmpfsInode

/-! ## The content of the sparse map -/

def Covers (x : Nat × TmpfsSparseExtent) (i : Nat) : Prop := x.1 ≤ i ∧ i < x.1 + x.2.len

instance (x : Nat × TmpfsSparseExtent) (i : Nat) : Decidable (Covers x i) :=
  inferInstanceAs (Decidable (_ ∧ _))

def sparseAt (m : SortedMap Nat TmpfsSparseExtent) (i : Nat) : Option Byte :=
  m.entries.findSome? fun x => if Covers x i then some (x.2.byte (i - x.1)) else none

def DisjointExtents (m : SortedMap Nat TmpfsSparseExtent) : Prop :=
  ∀ x ∈ m.entries, ∀ y ∈ m.entries, x.1 < y.1 → x.1 + x.2.len ≤ y.1

/-- No extent of the map meets the range from `start` up to `stop`. -/
def Free (m : SortedMap Nat TmpfsSparseExtent) (start stop : Nat) : Prop :=
  ∀ x ∈ m.entries, start < stop → x.1 + x.2.len ≤ start ∨ stop ≤ x.1

variable {i : Nat} {x : Nat × TmpfsSparseExtent}

lemma sparseAt_eq_none_iff {m : SortedMap Nat TmpfsSparseExtent} :
    sparseAt m i = none ↔ ∀ x ∈ m.entries, ¬ Covers x i := by
  unfold sparseAt
  simp

/-- In a map of disjoint extents the covering extent decides. -/
lemma sparseAt_of_mem {m : SortedMap Nat TmpfsSparseExtent} (hd : DisjointExtents m)
    (hx : x ∈ m.entries) (hc : Covers x i) : sparseAt m i = some (x.2.byte (i - x.1)) := by
  rcases hs : sparseAt m i with _ | b
  · exact absurd hc (sparseAt_eq_none_iff.mp hs x hx)
  obtain ⟨y, hy, hb⟩ := exists_of_findSome?_eq_some hs
  obtain ⟨hcy, hb⟩ := ite_none_right_eq_some.mp hb
  -- two extents that cover `i` have the same start
  have hkey : x.1 = y.1 := by
    obtain ⟨hx1, hx2⟩ := hc
    obtain ⟨hy1, hy2⟩ := hcy
    rcases lt_trichotomy x.1 y.1 with hlt | heq | hgt
    · have := hd x hx y hy hlt
      omega
    · exact heq
    · have := hd y hy x hx hgt
      omega
  rw [SortedMap.entry_unique hx hy hkey, hb]

/-- The content after one more extent. -/
lemma sparseAt_of_perm {m m' : SortedMap Nat TmpfsSparseExtent}
    (hperm : m'.entries.Perm (x :: m.entries)) (hd' : DisjointExtents m') (i : Nat) :
    sparseAt m' i = if Covers x i then some (x.2.byte (i - x.1)) else sparseAt m i := by
  split
  next hc =>
    exact sparseAt_of_mem hd' (hperm.mem_iff.mpr mem_cons_self) hc
  rename_i hc
  cases hs : sparseAt m i with
  | none =>
    rw [sparseAt_eq_none_iff] at hs ⊢
    intro y hy
    rcases mem_cons.mp (hperm.mem_iff.mp hy) with rfl | hy
    · exact hc
    · exact hs y hy
  | some b =>
    obtain ⟨y, hy, hb⟩ := exists_of_findSome?_eq_some hs
    obtain ⟨hcy, hb⟩ := ite_none_right_eq_some.mp hb
    rw [← hb]
    exact sparseAt_of_mem hd' (hperm.mem_iff.mpr (mem_cons_of_mem _ hy)) hcy

lemma sparseAt_of_free {m : SortedMap Nat TmpfsSparseExtent} {start stop : Nat}
    (h : Free m start stop) (h1 : start ≤ i) (h2 : i < stop) : sparseAt m i = none := by
  rw [sparseAt_eq_none_iff]
  intro x hx hc
  obtain ⟨hc1, hc2⟩ := hc
  have := h x hx
  omega

/-! ## The representation invariant -/

namespace TmpfsInode

def total (w : Nat × TmpfsSparseExtent → Nat) (inode : TmpfsInode) : Nat :=
  (inode.sparseData.entries.map w).sum

variable {w : Nat × TmpfsSparseExtent → Nat} {a b c : TmpfsInode} {e : TmpfsSparseExtent}
  {offset k start stop len : Nat} {left right : Option TmpfsSparseExtent}
  {f : TmpfsInode → Nat → TmpfsInode} {ks : List Nat} {alloc : Nat → Bool}

lemma total_of_perm {inode inode' : TmpfsInode} {x : Nat × TmpfsSparseExtent}
    (h : inode'.sparseData.entries.Perm (x :: inode.sparseData.entries)) :
    inode'.total w = w x + inode.total w := by
  unfold total
  rw [(h.map w).sum_eq, map_cons, sum_cons]

lemma total_congr {w' : Nat × TmpfsSparseExtent → Nat} {inode : TmpfsInode}
    (h : ∀ x ∈ inode.sparseData.entries, w x = w' x) : inode.total w = inode.total w' := by
  unfold total
  rw [map_congr_left h]

lemma le_total {inode : TmpfsInode} {x : Nat × TmpfsSparseExtent}
    (h : x ∈ inode.sparseData.entries) : w x ≤ inode.total w :=
  single_le_sum (fun _ _ => Nat.zero_le _) _ (mem_map_of_mem h)

def stored (x : Nat × TmpfsSparseExtent) : Nat := x.2.allocatedLen

/-- What a sparse extent of a file with this inline limit satisfies. -/
structure ExtentOk (inlineFileLimit : Nat) (x : Nat × TmpfsSparseExtent) : Prop where
  ok : x.2.Ok
  inline : inlineFileLimit ≤ x.1
  bound : x.1 + x.2.len < U64_RANGE

/-- **Representation invariant** of the inline data, the extents and the payload counter. -/
structure Sound (inlineFileLimit : Nat) (inode : TmpfsInode) : Prop where
  data_le : inode.data.length ≤ inlineFileLimit
  extent : ∀ x ∈ inode.sparseData.entries, ExtentOk inlineFileLimit x
  disjoint : DisjointExtents inode.sparseData
  payload : inode.allocatedPayloadLen = inode.data.length + inode.total stored

/-- `inode'` differs from `inode` in the extents only, and is sound. -/
structure SparseEdit (inlineFileLimit : Nat) (inode inode' : TmpfsInode) : Prop where
  sound : Sound inlineFileLimit inode'
  data : inode'.data = inode.data
  size : inode'.size = inode.size

lemma SparseEdit.trans {limit : Nat} (h : SparseEdit limit a b) (h' : SparseEdit limit b c) :
    SparseEdit limit a c :=
  ⟨h'.sound, h'.data.trans h.data, h'.size.trans h.size⟩

variable {limit : Nat} {inode : TmpfsInode}

lemma Sound.edit_refl (h : Sound limit inode) : SparseEdit limit inode inode := ⟨h, rfl, rfl⟩

/-! ## Inserting and removing one extent -/

/-- **Insertion into a free range.** -/
theorem Sound.insert (h : Sound limit inode) (he : ExtentOk limit (offset, e))
    (hfree : Free inode.sparseData offset (offset + e.len)) :
    SparseEdit limit inode (inode.insertSparseExtent offset e) ∧
      (inode.insertSparseExtent offset e).sparseData.entries.Perm
        ((offset, e) :: inode.sparseData.entries) := by
  have hlen : 0 < e.len := he.ok.len_pos
  -- an extent at the offset itself would meet the range
  have hfresh : ∀ v, (offset, v) ∉ inode.sparseData.entries := by
    intro v hv
    have hpos := (h.extent _ hv).ok.len_pos
    rcases hfree _ hv (by omega) with hbefore | hafter
    · exact absurd hpos (by simp only at hbefore ⊢; omega)
    · exact absurd hlen (by simp only at hafter ⊢; omega)
  have hperm : (inode.sparseData.insert offset e).entries.Perm
      ((offset, e) :: inode.sparseData.entries) := by
    have := SortedMap.entries_insert_perm (m := inode.sparseData) (k := offset) (v := e)
    rwa [SortedMap.erase_eq_self hfresh] at this
  have hnew : inode.insertSparseExtent offset e =
      { inode with
        sparseData := inode.sparseData.insert offset e
        allocatedPayloadLen := inode.allocatedPayloadLen + e.allocatedLen
        allocatedLogicalLen := satAdd inode.allocatedLogicalLen e.len } := by
    simp [insertSparseExtent, SortedMap.get?_eq_none_iff.mpr hfresh]
  rw [hnew]
  refine ⟨⟨⟨h.data_le, ?_, ?_, ?_⟩, rfl, rfl⟩, hperm⟩
  · intro x hx
    rcases mem_cons.mp (hperm.mem_iff.mp hx) with rfl | hx
    · exact he
    · exact h.extent x hx
  · intro x hx y hy hlt
    rcases mem_cons.mp (hperm.mem_iff.mp hx) with rfl | hx <;>
      rcases mem_cons.mp (hperm.mem_iff.mp hy) with rfl | hy
    · exact absurd hlt (lt_irrefl _)
    · have := hfree y hy
      simp only at hlt ⊢
      omega
    · have := hfree x hx
      omega
    · exact h.disjoint x hx y hy hlt
  · have hsum := @total_of_perm stored inode
      { inode with sparseData := inode.sparseData.insert offset e } _ hperm
    have hpay := h.payload
    simp only [total, stored] at hsum hpay ⊢
    omega

lemma removeSparseExtent_of_mem (hmem : (offset, e) ∈ inode.sparseData.entries) :
    inode.removeSparseExtent offset = some (e,
      { inode with sparseData := inode.sparseData.erase offset }.subtractSparseAccounting e) := by
  unfold removeSparseExtent
  rw [SortedMap.get?_eq_some_iff.mpr hmem]
  rfl

lemma Sound.remove (h : Sound limit inode) {inode' : TmpfsInode}
    (hrem : inode.removeSparseExtent offset = some (e, inode')) : SparseEdit limit inode inode' ∧
      inode.sparseData.entries.Perm ((offset, e) :: inode'.sparseData.entries) := by
  obtain ⟨_, he, ⟨⟩⟩ := map_eq_some_iff.mp hrem
  have hmem := SortedMap.get?_eq_some_iff.mp he
  have hperm := SortedMap.entries_perm_of_mem hmem
  have hsub : ∀ x ∈ (inode.sparseData.erase offset).entries, x ∈ inode.sparseData.entries :=
    fun x hx => (SortedMap.mem_erase.mp hx).1
  refine ⟨⟨⟨h.data_le, ?_, ?_, ?_⟩, rfl, rfl⟩, hperm⟩
  · intro x hx
    exact h.extent x (hsub x hx)
  · intro x hx y hy
    exact h.disjoint x (hsub x hx) y (hsub y hy)
  · have hsum := @total_of_perm stored
      { inode with sparseData := inode.sparseData.erase offset } inode _ hperm
    have hpay := h.payload
    simp only [total, stored, subtractSparseAccounting] at hsum hpay ⊢
    omega

lemma Sound.free_of_remove (h : Sound limit inode) {x : Nat × TmpfsSparseExtent}
    {inode' : TmpfsInode} (hperm : inode.sparseData.entries.Perm (x :: inode'.sparseData.entries)) :
    Free inode'.sparseData x.1 (x.1 + x.2.len) := by
  intro y hy _
  have hx : x ∈ inode.sparseData.entries := hperm.mem_iff.mpr mem_cons_self
  have hy' : y ∈ inode.sparseData.entries := hperm.mem_iff.mpr (mem_cons_of_mem _ hy)
  rcases lt_trichotomy x.1 y.1 with hlt | heq | hgt
  · exact .inr (h.disjoint x hx y hy' hlt)
  · -- keys are unique, so `y` would be `x` itself, twice in the list
    have hsorted := inode.sparseData.sorted.imp fun {a b : Nat × TmpfsSparseExtent}
      (hab : a.1 < b.1) => hab.ne
    have hne := pairwise_cons.mp ((hperm.pairwise_iff
      (fun {a b : Nat × TmpfsSparseExtent} (hab : a.1 ≠ b.1) => hab.symm)).mp hsorted)
    exact absurd heq (hne.1 y hy)
  · exact .inl (h.disjoint y hy' x hx hgt)

lemma Free.mono {m : SortedMap Nat TmpfsSparseExtent} {a b a' b' : Nat} (h : Free m a b)
    (ha : a ≤ a') (hb : b' ≤ b) : Free m a' b' := by
  intro x hx
  have := h x hx
  omega

/-! ## Cutting a range out of the extents -/

/-- Insertion of an optional piece into a free range. -/
lemma Sound.insertPiece (h : Sound limit inode) (offset : Nat) (p : Option TmpfsSparseExtent)
    (hp : ∀ e ∈ p, ExtentOk limit (offset, e) ∧ Free inode.sparseData offset (offset + e.len)) :
    SparseEdit limit inode (inode.insertPiece offset p) ∧
      (inode.insertPiece offset p).sparseData.entries.Perm
        (p.toList.map (Prod.mk offset) ++ inode.sparseData.entries) := by
  cases p with
  | none => exact ⟨h.edit_refl, List.Perm.refl _⟩
  | some e =>
    obtain ⟨hok, hfree⟩ := hp e rfl
    exact h.insert hok hfree

def Meets (start stop : Nat) (x : Nat × TmpfsSparseExtent) : Prop :=
  x.1 < stop ∧ start < x.1 + x.2.len

instance (start stop : Nat) (x : Nat × TmpfsSparseExtent) : Decidable (Meets start stop x) :=
  inferInstanceAs (Decidable (_ ∧ _))

/-- What stays of an extent before the range. -/
structure LeftPiece (start k : Nat) (e : TmpfsSparseExtent) (left : Option TmpfsSparseExtent) :
    Prop where
  some : ∀ l ∈ left, l.Ok ∧ k + l.len = min start (k + e.len) ∧
    ∀ p, p < l.len → l.byte p = e.byte p
  none : left = none → start ≤ k

/-- What stays of an extent past the range. -/
structure RightPiece (stop k : Nat) (e : TmpfsSparseExtent) (right : Option TmpfsSparseExtent) :
    Prop where
  some : ∀ r ∈ right, r.Ok ∧ stop + r.len = k + e.len ∧
    ∀ p, p < r.len → r.byte p = e.byte (stop - k + p)
  none : right = none → k + e.len ≤ stop

/-- The pieces that stay of an extent once a range is cut out of it. -/
structure Pieces (start stop k : Nat) (e : TmpfsSparseExtent)
    (left right : Option TmpfsSparseExtent) : Prop where
  left : LeftPiece start k e left
  right : RightPiece stop k e right

def pieceEntries (stop k : Nat) (left right : Option TmpfsSparseExtent) :
    List (Nat × TmpfsSparseExtent) :=
  left.toList.map (Prod.mk k) ++ right.toList.map (Prod.mk stop)

lemma Pieces.not_meets (h : Pieces start stop k e left right) {x : Nat × TmpfsSparseExtent}
    (hx : x ∈ pieceEntries stop k left right) : ¬ Meets start stop x ∧ (x.1 = k ∨ x.1 = stop) := by
  rcases mem_append.mp hx with hx | hx
  · obtain ⟨l, hl, rfl⟩ := mem_map.mp hx
    obtain ⟨-, hlen, -⟩ := h.left.some l (mem_toList.mp hl)
    refine ⟨?_, .inl rfl⟩
    intro hm
    have := hm.2
    simp only at this
    omega
  · obtain ⟨r, -, rfl⟩ := mem_map.mp hx
    exact ⟨fun hm => lt_irrefl _ hm.1, .inr rfl⟩

/-- `inode'` is `inode` with bytes inside the range lost only; `w` is the weight that the
pieces of an extent share with it. -/
structure Cut (limit start stop : Nat) (w : Nat × TmpfsSparseExtent → Nat)
    (inode inode' : TmpfsInode) : Prop where
  edit : SparseEdit limit inode inode'
  outside : ∀ i, ¬ (start ≤ i ∧ i < stop) →
    sparseAt inode'.sparseData i = sparseAt inode.sparseData i
  weight : inode'.total w = inode.total w

lemma Cut.trans {limit : Nat} (h : Cut limit start stop w a b) (h' : Cut limit start stop w b c) :
    Cut limit start stop w a c :=
  ⟨h.edit.trans h'.edit, fun i hi => (h'.outside i hi).trans (h.outside i hi),
    h'.weight.trans h.weight⟩

/-- A loop body that replaces the extent at a key by its pieces. -/
structure CutsWith (limit start stop : Nat) (w : Nat × TmpfsSparseExtent → Nat)
    (f : TmpfsInode → Nat → TmpfsInode) : Prop where
  absent : ∀ inode k, inode.removeSparseExtent k = none → f inode k = inode
  present : ∀ inode k e inode1, k < stop → inode.removeSparseExtent k = some (e, inode1) →
    ExtentOk limit (k, e) → Meets start stop (k, e) →
    ∃ left right, Pieces start stop k e left right ∧
      ((pieceEntries stop k left right).map w).sum = w (k, e) ∧
      f inode k = (inode1.insertPiece k left).insertPiece stop right

/-- The pieces go back into the range of the extent that was taken out. -/
lemma Sound.putBack (h : Sound limit inode) {inode1 : TmpfsInode}
    (hrem : inode.removeSparseExtent k = some (e, inode1))
    (hpc : Pieces start stop k e left right) (hss : start < stop) (hk : k < stop) :
    SparseEdit limit inode ((inode1.insertPiece k left).insertPiece stop right) ∧
      ((inode1.insertPiece k left).insertPiece stop right).sparseData.entries.Perm
        (pieceEntries stop k left right ++ inode1.sparseData.entries) := by
  obtain ⟨hedit1, hperm1⟩ := h.remove hrem
  have hx := h.extent _ (hperm1.mem_iff.mpr mem_cons_self)
  have hinl : limit ≤ k := hx.inline
  have hbound : k + e.len < U64_RANGE := hx.bound
  have hfree1 : Free inode1.sparseData k (k + e.len) := h.free_of_remove hperm1
  obtain ⟨hedit2, hperm2⟩ := hedit1.sound.insertPiece k left (by
    intro l hl
    obtain ⟨hok, hlen, -⟩ := hpc.left.some l hl
    refine ⟨⟨hok, hinl, ?_⟩, Free.mono hfree1 (le_refl _) ?_⟩
    · simp only
      omega
    · omega)
  obtain ⟨hedit3, hperm3⟩ := hedit2.sound.insertPiece stop right (by
    intro r hr
    obtain ⟨hok, hlen, -⟩ := hpc.right.some r hr
    refine ⟨⟨hok, ?_, ?_⟩, ?_⟩
    · omega
    · simp only
      omega
    -- the left piece ends before the range, the other extents lie outside the old one
    intro y hy
    rcases mem_append.mp (hperm2.mem_iff.mp hy) with hy | hy
    · obtain ⟨l, hl, rfl⟩ := mem_map.mp hy
      obtain ⟨-, hlen', -⟩ := hpc.left.some l (mem_toList.mp hl)
      simp only
      omega
    · have := hfree1 y hy
      omega)
  refine ⟨(hedit1.trans hedit2).trans hedit3, hperm3.trans ((hperm2.append_left _).trans ?_)⟩
  rw [pieceEntries, ← append_assoc]
  exact perm_append_comm.append_right _

/-- Replacing an extent by its pieces keeps the bytes outside the range. -/
lemma sparseAt_pieces {m m1 m' : SortedMap Nat TmpfsSparseExtent} {i : Nat}
    (hperm : m.entries.Perm ((k, e) :: m1.entries)) (hd : DisjointExtents m)
    (hperm' : m'.entries.Perm (pieceEntries stop k left right ++ m1.entries))
    (hd' : DisjointExtents m') (hpc : Pieces start stop k e left right) (hk : k < stop)
    (hi : ¬ (start ≤ i ∧ i < stop)) : sparseAt m' i = sparseAt m i := by
  by_cases hc : Covers (k, e) i
  · rw [sparseAt_of_mem hd (hperm.mem_iff.mpr mem_cons_self) hc]
    obtain ⟨hc1, hc2⟩ := hc
    simp only at hc1 hc2
    by_cases hlow : i < start
    · -- before the range: the left piece covers `i`
      cases hl : left with
      | none =>
        have := hpc.left.none hl
        omega
      | some l =>
        obtain ⟨-, hlen, hbyte⟩ := hpc.left.some l hl
        have hmem : (k, l) ∈ m'.entries := hperm'.mem_iff.mpr (by simp [pieceEntries, hl])
        rw [sparseAt_of_mem hd' hmem ⟨hc1, by simp only; omega⟩]
        exact congrArg some (hbyte _ (by simp only; omega))
    · -- past the range: the right piece does
      cases hr : right with
      | none =>
        have := hpc.right.none hr
        omega
      | some r =>
        obtain ⟨-, hlen, hbyte⟩ := hpc.right.some r hr
        have hmem : (stop, r) ∈ m'.entries := hperm'.mem_iff.mpr (by simp [pieceEntries, hr])
        rw [sparseAt_of_mem hd' hmem ⟨by simp only; omega, by simp only; omega⟩]
        rw [hbyte _ (by omega)]
        congr 2
        omega
  · cases hs : sparseAt m i with
    | none =>
      rw [sparseAt_eq_none_iff] at hs ⊢
      intro y hy hcy
      rcases mem_append.mp (hperm'.mem_iff.mp hy) with hy | hy
      swap
      · exact hs y (hperm.mem_iff.mpr (mem_cons_of_mem _ hy)) hcy
      simp only [Covers] at hc hcy
      rcases mem_append.mp hy with hy | hy
      · obtain ⟨l, hl, rfl⟩ := mem_map.mp hy
        obtain ⟨-, hlen, -⟩ := hpc.left.some l (mem_toList.mp hl)
        simp only at hcy
        omega
      · obtain ⟨r, hr, rfl⟩ := mem_map.mp hy
        obtain ⟨-, hlen, -⟩ := hpc.right.some r (mem_toList.mp hr)
        simp only at hcy
        omega
    | some b =>
      obtain ⟨y, hy, hb⟩ := exists_of_findSome?_eq_some hs
      obtain ⟨hcy, hb⟩ := ite_none_right_eq_some.mp hb
      rw [← hb]
      rcases mem_cons.mp (hperm.mem_iff.mp hy) with rfl | hy
      · exact absurd hcy hc
      · exact sparseAt_of_mem hd' (hperm'.mem_iff.mpr (mem_append_right _ hy)) hcy

section

variable (h : Sound limit inode) (hf : CutsWith limit start stop w f) (hss : start < stop)
include h hf hss

theorem Sound.cutRound (hks : ∀ k' ∈ k :: ks, k' < stop) (hnodup : (k :: ks).Nodup)
    (hmeets : ∀ x ∈ inode.sparseData.entries, Meets start stop x ↔ x.1 ∈ k :: ks) :
    Cut limit start stop w inode (f inode k) ∧
      ∀ x ∈ (f inode k).sparseData.entries, Meets start stop x ↔ x.1 ∈ ks := by
  have hk : k < stop := hks k mem_cons_self
  obtain ⟨hknot, -⟩ := nodup_cons.mp hnodup
  have hstop : stop ∉ ks := fun hmem => lt_irrefl _ (hks stop (mem_cons_of_mem _ hmem))
  cases hrem : inode.removeSparseExtent k with
  | none =>
    -- no extent starts at `k`
    rw [hf.absent inode k hrem]
    refine ⟨⟨h.edit_refl, fun _ _ => rfl, rfl⟩, ?_⟩
    intro x hx
    have hne : x.1 ≠ k := by
      intro heq
      have := removeSparseExtent_of_mem
        (show (k, x.2) ∈ inode.sparseData.entries from heq ▸ hx)
      simp [hrem] at this
    rw [hmeets x hx, mem_cons, or_iff_right hne]
  | some p =>
    obtain ⟨e, inode1⟩ := p
    obtain ⟨hedit1, hperm1⟩ := h.remove hrem
    have hx : (k, e) ∈ inode.sparseData.entries := hperm1.mem_iff.mpr mem_cons_self
    have heok := h.extent _ hx
    have hfree1 : Free inode1.sparseData k (k + e.len) := h.free_of_remove hperm1
    obtain ⟨left, right, hpc, hw, heq⟩ := hf.present inode k e inode1 hk hrem heok
      ((hmeets _ hx).mpr mem_cons_self)
    obtain ⟨hedit, hperm⟩ := h.putBack hrem hpc hss hk
    rw [heq]
    refine ⟨⟨hedit, ?_, ?_⟩, ?_⟩
    · intro i hi
      exact sparseAt_pieces hperm1 h.disjoint hperm hedit.sound.disjoint hpc hk hi
    · unfold total
      rw [(hperm.map _).sum_eq, map_append, sum_append, hw, (hperm1.map _).sum_eq,
        map_cons, sum_cons]
    intro y hy
    rcases mem_append.mp (hperm.mem_iff.mp hy) with hy | hy
    · -- a piece lies outside the range, and its start is not in the list
      obtain ⟨hnot, hkey⟩ := hpc.not_meets hy
      refine iff_of_false hnot ?_
      rcases hkey with hkey | hkey
      · rw [hkey]
        exact hknot
      · rw [hkey]
        exact hstop
    · have hne : y.1 ≠ k := by
        intro heq
        have hpos := (hedit1.sound.extent y hy).ok.len_pos
        have := hfree1 y hy
        have := show 0 < e.len from heok.ok.len_pos
        omega
      rw [hmeets y (hperm1.mem_iff.mpr (mem_cons_of_mem _ hy)), mem_cons, or_iff_right hne]

/-- **The whole loop**: no extent that is left meets the range. -/
theorem Sound.cutLoop (hks : ∀ k ∈ ks, k < stop) (hnodup : ks.Nodup)
    (hmeets : ∀ x ∈ inode.sparseData.entries, Meets start stop x ↔ x.1 ∈ ks) :
    Cut limit start stop w inode (ks.foldl f inode) ∧
      ∀ x ∈ (ks.foldl f inode).sparseData.entries, ¬ Meets start stop x := by
  induction ks generalizing inode with
  | nil =>
    refine ⟨⟨h.edit_refl, fun _ _ => rfl, rfl⟩, ?_⟩
    intro x hx hm
    exact not_mem_nil ((hmeets x hx).mp hm)
  | cons k ks ih =>
    obtain ⟨hcut, hmeets'⟩ := h.cutRound hf hss hks hnodup hmeets
    obtain ⟨hcut', hnone⟩ := ih hcut.edit.sound (fun k' hk' => hks k' (mem_cons_of_mem _ hk'))
      (nodup_cons.mp hnodup).2 hmeets'
    exact ⟨hcut.trans hcut', hnone⟩

/-- The loop over the keys that the code collects. -/
lemma Sound.cutSelected (sel : Nat × TmpfsSparseExtent → Bool)
    (hsel : ∀ x ∈ inode.sparseData.entries, sel x = true ↔ Meets start stop x) :
    Cut limit start stop w inode
        (((inode.sparseData.entries.filter sel).map Prod.fst).foldl f inode) ∧
      ∀ x ∈ (((inode.sparseData.entries.filter sel).map Prod.fst).foldl f inode).sparseData.entries,
        ¬ Meets start stop x := by
  apply h.cutLoop hf hss
  · intro k hk
    obtain ⟨x, hx, rfl⟩ := mem_map.mp hk
    obtain ⟨hx, hs⟩ := mem_filter.mp hx
    exact ((hsel x hx).mp hs).1
  · exact pairwise_map.mpr ((inode.sparseData.sorted.filter _).imp ne_of_lt)
  · intro x hx
    constructor
    · intro hm
      exact mem_map_of_mem (mem_filter.mpr ⟨hx, (hsel x hx).mpr hm⟩)
    · intro hmem
      obtain ⟨y, hy, heq⟩ := mem_map.mp hmem
      obtain ⟨hy, hs⟩ := mem_filter.mp hy
      obtain rfl := SortedMap.entry_unique hy hx heq
      exact (hsel y hy).mp hs

end

/-! ## `remove_sparse_range` -/

/-- The bytes an extent still stores once a range is cut out of it: those of the piece
before the range and of the piece after it. -/
def keptOutside (start stop : Nat) (x : Nat × TmpfsSparseExtent) : Nat :=
  if Meets start stop x then
    min x.2.allocatedLen (start - x.1) + min x.2.allocatedLen (x.1 + x.2.len - stop)
  else x.2.allocatedLen

lemma keptOutside_of_not_meets {x : Nat × TmpfsSparseExtent} (h : ¬ Meets start stop x) :
    keptOutside start stop x = stored x := if_neg h

def pieceLen (p : Option TmpfsSparseExtent) : Nat := (p.map allocatedLen).getD 0

lemma sum_stored_pieceEntries (stop k : Nat) (left right : Option TmpfsSparseExtent) :
    ((pieceEntries stop k left right).map stored).sum = pieceLen left + pieceLen right := by
  cases left <;> cases right <;> simp [pieceEntries, pieceLen, stored]

lemma left_slice (he : e.Ok) (halloc : HeapServes alloc) (hend : start < k + e.len) :
    LeftPiece start k e (if k < start then e.slice alloc 0 (start - k) else none) ∧
      pieceLen (if k < start then e.slice alloc 0 (start - k) else none) =
        min e.allocatedLen (start - k) := by
  split
  · obtain ⟨l, hs, hok, hlen, hal, hbyte⟩ :=
      slice_some 0 (start - k) he halloc (by omega) he.len_pos
    rw [hs]
    refine ⟨⟨?_, nofun⟩, ?_⟩
    · intro l' hl'
      cases hl'
      refine ⟨hok, by omega, ?_⟩
      intro p hp
      rw [hbyte p hp, zero_add]
    · show l.allocatedLen = _
      omega
  · refine ⟨⟨nofun, fun _ => by omega⟩, ?_⟩
    show 0 = _
    omega

lemma right_slice (he : e.Ok) (halloc : HeapServes alloc) (hk : k < stop) : RightPiece stop k e
        (if stop < k + e.len then e.slice alloc (stop - k) (k + e.len - stop) else none) ∧
      pieceLen (if stop < k + e.len then e.slice alloc (stop - k) (k + e.len - stop) else none) =
        min e.allocatedLen (k + e.len - stop) := by
  split
  · obtain ⟨r, hs, hok, hlen, hal, hbyte⟩ :=
      slice_some (stop - k) (k + e.len - stop) he halloc (by omega) (by omega)
    rw [hs]
    refine ⟨⟨?_, nofun⟩, ?_⟩
    · intro r' hr'
      cases hr'
      exact ⟨hok, by omega, hbyte⟩
    · show r.allocatedLen = _
      omega
  · refine ⟨⟨nofun, fun _ => by omega⟩, ?_⟩
    show 0 = _
    omega

open TmpfsInode

lemma cutExtent_cuts (halloc : HeapServes alloc) :
    CutsWith limit start stop (keptOutside start stop) (cutExtent alloc start stop) := by
  constructor
  · intro inode k hrem
    simp [cutExtent, hrem]
  intro inode k e inode1 hk hrem heok hmeets
  obtain ⟨hleft, hwl⟩ := left_slice heok.ok halloc hmeets.2
  obtain ⟨hright, hwr⟩ := right_slice heok.ok halloc hk
  have hpc : Pieces start stop k e _ _ := ⟨hleft, hright⟩
  refine ⟨_, _, hpc, ?_, ?_⟩
  · rw [map_congr_left fun x hx => keptOutside_of_not_meets (hpc.not_meets hx).1,
      sum_stored_pieceEntries, hwl, hwr]
    exact (if_pos hmeets).symm
  · simp [cutExtent, hrem, satAdd_eq (show k + e.len < U64_RANGE from heok.bound)]

/-- **Range removal**: a hole in the range, the same bytes outside it, and the payload that
the pieces outside store. -/
theorem Sound.removeSparseRange (h : Sound limit inode) (halloc : HeapServes alloc)
    (hss : start < stop) : SparseEdit limit inode (inode.removeSparseRange alloc start stop) ∧
      Free (inode.removeSparseRange alloc start stop).sparseData start stop ∧
      (∀ i, ¬ (start ≤ i ∧ i < stop) →
        sparseAt (inode.removeSparseRange alloc start stop).sparseData i =
          sparseAt inode.sparseData i) ∧
      (inode.removeSparseRange alloc start stop).allocatedPayloadLen =
        inode.data.length + inode.total (keptOutside start stop) := by
  unfold TmpfsInode.removeSparseRange
  rw [if_neg (not_le.mpr hss)]
  obtain ⟨hcut, hnone⟩ := h.cutSelected (cutExtent_cuts halloc) hss
    (fun x => decide (x.1 < stop ∧ start < satAdd x.1 x.2.len)) (by
      intro x hx
      rw [decide_eq_true_iff, satAdd_eq (h.extent x hx).bound]
      exact Iff.rfl)
  refine ⟨hcut.edit, ?_, hcut.outside, ?_⟩
  · intro x hx
    have := hnone x hx
    simp only [Meets] at this
    omega
  · rw [hcut.edit.sound.payload, hcut.edit.data, ← hcut.weight,
      total_congr fun x hx => keptOutside_of_not_meets (hnone x hx)]

/-! ## `truncate_sparse_to` -/

/-- The bytes an extent still stores once the file is cut to `len` bytes; a pattern is kept
whole. -/
def keptBelow (len : Nat) (x : Nat × TmpfsSparseExtent) : Nat :=
  if Meets len U64_RANGE x then
    if x.1 < len then (x.2.truncateTo (len - x.1)).allocatedLen else 0
  else x.2.allocatedLen

lemma keptBelow_of_not_meets {x : Nat × TmpfsSparseExtent} (h : ¬ Meets len U64_RANGE x) :
    keptBelow len x = stored x := if_neg h

lemma left_truncate (he : e.Ok) (hend : len < k + e.len) :
    LeftPiece len k e (if k < len then some (e.truncateTo (len - k)) else none) := by
  split
  swap
  · exact ⟨nofun, fun _ => by omega⟩
  refine ⟨?_, nofun⟩
  intro l hl
  cases hl
  refine ⟨truncateTo_ok he (by omega), ?_, ?_⟩
  · rw [truncateTo_len]
    omega
  · intro p hp
    rw [truncateTo_len] at hp
    exact truncateTo_byte (by omega)

lemma truncateExtent_cuts (len : Nat) :
    CutsWith limit len U64_RANGE (keptBelow len) (truncateExtent len) := by
  constructor
  · intro inode k hrem
    simp [truncateExtent, hrem]
  intro inode k e inode1 _ hrem heok hmeets
  have he : e.Ok := heok.ok
  have hpc : Pieces len U64_RANGE k e
      (if k < len then some (e.truncateTo (len - k)) else none) none :=
    ⟨left_truncate he hmeets.2, nofun, fun _ => (show k + e.len < U64_RANGE from heok.bound).le⟩
  refine ⟨_, _, hpc, ?_, ?_⟩
  · rw [map_congr_left fun x hx => keptBelow_of_not_meets (hpc.not_meets hx).1,
      sum_stored_pieceEntries]
    simp only [keptBelow, if_pos hmeets]
    split
    · rfl
    · rfl
  · simp only [truncateExtent, hrem]
    split
    · have hpos : 0 < (e.truncateTo (len - k)).len := (truncateTo_ok he (by omega)).len_pos
      rw [if_pos hpos]
      rfl
    · rfl

/-- **Truncation**: a hole from `len` on, and the payload that the extents below store. -/
theorem Sound.truncateSparseTo (h : Sound limit inode) (hlen : len < U64_RANGE) :
    SparseEdit limit inode (inode.truncateSparseTo len) ∧
      Free (inode.truncateSparseTo len).sparseData len U64_RANGE ∧ (∀ i, i < len →
        sparseAt (inode.truncateSparseTo len).sparseData i = sparseAt inode.sparseData i) ∧
      (inode.truncateSparseTo len).allocatedPayloadLen =
        inode.data.length + inode.total (keptBelow len) := by
  unfold TmpfsInode.truncateSparseTo
  obtain ⟨hcut, hnone⟩ := h.cutSelected (truncateExtent_cuts len) hlen
    (fun x => decide (len ≤ x.1 ∨ len < satAdd x.1 x.2.len)) (by
      intro x hx
      have hb := (h.extent x hx).bound
      have hpos := (h.extent x hx).ok.len_pos
      rw [decide_eq_true_iff, satAdd_eq hb]
      simp only [Meets]
      omega)
  refine ⟨hcut.edit, ?_, ?_, ?_⟩
  · intro x hx
    have := hnone x hx
    simp only [Meets] at this
    omega
  · intro i hi
    exact hcut.outside i (by omega)
  · rw [hcut.edit.sound.payload, hcut.edit.data, ← hcut.weight,
      total_congr fun x hx => keptBelow_of_not_meets (hnone x hx)]

end TmpfsInode

end Whusp.Fs
