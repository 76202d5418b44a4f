import Mathlib.Data.List.GetD
import Whusp.Lib.Codec

/-!
# Sparse extents of a tmpfs file

`TmpfsSparseExtent`: a run of file bytes, stored as they are or as a pattern that
repeats.  `byte p` is the byte at position `p` of the run; every operation is specified
by what it does to the length and to these bytes.

`alloc n` says whether the kernel heap serves a `try_reserve` of `n` bytes.
-/

namespace Whusp.Fs

open List Option

open Whusp.Lib (Byte)

def TMPFS_SPARSE_EXTENT_LIMIT : Nat := 64 * 1024
def TMPFS_ALLOCATED_PAYLOAD_LIMIT : Nat := 64 * 1024 * 1024
def U64_RANGE : Nat := 2 ^ 64

inductive TmpfsSparseExtent where
  | bytes (data : List Byte)
  | repeated (pattern : List Byte) (len : Nat)
  deriving DecidableEq

namespace TmpfsSparseExtent

def len : TmpfsSparseExtent → Nat
  | .bytes data => data.length
  | .repeated _ len => len

def allocatedLen : TmpfsSparseExtent → Nat
  | .bytes data => data.length
  | .repeated pattern _ => pattern.length

def byte : TmpfsSparseExtent → Nat → Byte
  | .bytes data, p => data.getD p 0
  | .repeated pattern _, p => pattern.getD (p % pattern.length) 0

def repeatedValue (value : Byte) (len : Nat) : Option TmpfsSparseExtent :=
  if len = 0 then none else some (.repeated [value] len)

def repeatedByte : List Byte → Option TmpfsSparseExtent
  | [] => none
  | first :: rest =>
    if rest.all (· == first) then repeatedValue first (rest.length + 1) else none

/-- How many bytes of `buf` continue the pattern from `patternOffset` on. -/
def matchingPatternPrefix (pattern : List Byte) : Nat → List Byte → Nat
  | _, [] => 0
  | patternOffset, b :: buf =>
    if pattern ≠ [] ∧ pattern.getD (patternOffset % pattern.length) 0 = b then
      matchingPatternPrefix pattern (patternOffset + 1) buf + 1
    else 0

def rotatedPattern (alloc : Nat → Bool) (pattern : List Byte) (offset len : Nat) :
    Option (List Byte) :=
  if pattern = [] ∨ len = 0 then none
  else if alloc (min pattern.length len) then
    some ((List.range (min pattern.length len)).map fun i =>
      pattern.getD ((offset + i) % pattern.length) 0)
  else none

def slice (alloc : Nat → Bool) (e : TmpfsSparseExtent) (offset len : Nat) :
    Option TmpfsSparseExtent :=
  if len = 0 ∨ e.len ≤ offset then none
  else
    let len := min len (e.len - offset)
    match e with
    | .bytes data => some (.bytes ((data.drop offset).take len))
    | .repeated pattern _ =>
      (rotatedPattern alloc pattern offset len).map fun rotated =>
        -- a piece shorter than one period is stored as plain bytes
        if len < pattern.length then .bytes rotated else .repeated rotated len

/-- The part of the run that lies in `buf`, which starts at file position `offset`. -/
def copyTo (e : TmpfsSparseExtent) (extentStart offset : Nat) (buf : List Byte) : List Byte :=
  let srcStart := offset - extentStart
  let dstStart := extentStart - offset
  -- the last case is a repeated extent without a pattern
  if e.len ≤ srcStart ∨ buf.length ≤ dstStart ∨ e.allocatedLen = 0 then buf
  else
    let copyLen := min (e.len - srcStart) (buf.length - dstStart)
    buf.take dstStart ++ (List.range copyLen).map (fun i => e.byte (srcStart + i)) ++
      buf.drop (dstStart + copyLen)

def truncateTo : TmpfsSparseExtent → Nat → TmpfsSparseExtent
  | .bytes data, n => .bytes (data.take n)
  | .repeated pattern len, n => .repeated pattern (min len n)

/-- The number of bytes appended and the extent after it; `none` where the extent does not take the
bytes. -/
def tryAppend (alloc : Nat → Bool) (e : TmpfsSparseExtent) (buf : List Byte) (payload : Nat) :
    Option (Nat × TmpfsSparseExtent) :=
  match e with
  | .bytes data =>
    if data ≠ [] ∧ matchingPatternPrefix data data.length buf = buf.length then
      -- the data was moved out before the length is checked
      if U64_RANGE ≤ data.length + buf.length then some (0, .bytes [])
      else some (buf.length, .repeated data (data.length + buf.length))
    else if TMPFS_SPARSE_EXTENT_LIMIT ≤ data.length then none
    else
      let copyLen := min buf.length (TMPFS_SPARSE_EXTENT_LIMIT - data.length)
      if TMPFS_ALLOCATED_PAYLOAD_LIMIT < payload + copyLen ∨ alloc copyLen = false then some (0, e)
      else some (copyLen, .bytes (data ++ buf.take copyLen))
  | .repeated pattern len =>
    let matched := matchingPatternPrefix pattern len buf
    if matched = 0 then none
    else if U64_RANGE ≤ len + matched then some (0, e)
    else some (matched, .repeated pattern (len + matched))

/-- The extents that a file holds: not empty, and with at most one extent's worth of
stored bytes. -/
structure Ok (e : TmpfsSparseExtent) : Prop where
  len_pos : 0 < e.len
  alloc_pos : 0 < e.allocatedLen
  alloc_le : e.allocatedLen ≤ TMPFS_SPARSE_EXTENT_LIMIT

/-- Every reservation of at most one extent is served. -/
def HeapServes (alloc : Nat → Bool) : Prop :=
  ∀ n, n ≤ TMPFS_SPARSE_EXTENT_LIMIT → alloc n = true

/-! ## Slices -/

variable {n : Nat}
variable {i len offset : Nat} {data pattern : List Byte}

lemma getD_map_range (f : Nat → Byte) (hi : i < n) : ((List.range n).map f).getD i 0 = f i := by
  rw [getD_eq_getElem?_getD, getElem?_map, getElem?_range hi]
  rfl

variable {alloc : Nat → Bool}

/-- A slice of plain bytes. -/
lemma slice_bytes (hlen : len ≠ 0) (hoff : offset < data.length) :
    slice alloc (.bytes data) offset len =
      some (.bytes ((data.drop offset).take (min len (data.length - offset)))) := by
  have hcond : ¬ (len = 0 ∨ (bytes data).len ≤ offset) := by
    simp only [TmpfsSparseExtent.len]
    omega
  exact if_neg hcond

/-- A slice of a pattern: the rotated pattern, or bytes if it is shorter. -/
lemma slice_repeated (hpat : pattern ≠ [])
    (halloc : alloc (min pattern.length (min len (n - offset))) = true) (hlen : len ≠ 0)
    (hoff : offset < n) : slice alloc (.repeated pattern n) offset len = some
      (if min len (n - offset) < pattern.length then
        .bytes ((List.range (min len (n - offset))).map fun i =>
          pattern.getD ((offset + i) % pattern.length) 0)
      else .repeated ((List.range pattern.length).map fun i =>
          pattern.getD ((offset + i) % pattern.length) 0) (min len (n - offset))) := by
  have hcond : ¬ (len = 0 ∨ (repeated pattern n).len ≤ offset) := by
    simp only [TmpfsSparseExtent.len]
    omega
  have hpos : ¬ (pattern = [] ∨ min len (n - offset) = 0) := by
    simp only [hpat, false_or]
    omega
  unfold slice
  rw [if_neg hcond]
  show (rotatedPattern alloc pattern offset (min len (n - offset))).map (fun rotated =>
      if min len (n - offset) < pattern.length then bytes rotated
      else repeated rotated (min len (n - offset))) = _
  simp only [rotatedPattern, if_neg hpos, halloc, if_true, map_some]
  split
  next hshort =>
    rw [min_eq_right hshort.le]
  next hlong =>
    rw [min_eq_left (not_lt.mp hlong)]

variable {e : TmpfsSparseExtent}

/-- What a slice holds, where its pattern can be allocated. -/
lemma slice_some (offset len : Nat) (he : e.Ok) (halloc : HeapServes alloc) (hlen : len ≠ 0)
    (hoff : offset < e.len) :
    ∃ e', slice alloc e offset len = some e' ∧ e'.Ok ∧ e'.len = min len (e.len - offset) ∧
      e'.allocatedLen = min e.allocatedLen e'.len ∧
      ∀ p, p < e'.len → e'.byte p = e.byte (offset + p) := by
  obtain ⟨-, hpos, hle⟩ := he
  cases e with
  | bytes data =>
    simp only [TmpfsSparseExtent.len, allocatedLen] at hpos hle hoff
    rw [slice_bytes hlen hoff]
    have hl : ((data.drop offset).take (min len (data.length - offset))).length =
        min len (data.length - offset) := by
      simp
    refine ⟨_, rfl, ⟨?_, ?_, ?_⟩, hl, ?_, ?_⟩
    · simp only [TmpfsSparseExtent.len, hl]
      omega
    · simp only [allocatedLen, hl]
      omega
    · simp only [allocatedLen, hl]
      omega
    · simp only [allocatedLen, TmpfsSparseExtent.len, hl]
      omega
    · intro p hp
      simp only [TmpfsSparseExtent.len, hl] at hp
      simp only [byte, getD_eq_getElem?_getD]
      rw [getElem?_take_of_lt hp, getElem?_drop]
  | repeated pattern n =>
    simp only [TmpfsSparseExtent.len, allocatedLen] at hpos hle hoff
    have hres : alloc (min pattern.length (min len (n - offset))) = true :=
      halloc _ (le_trans (min_le_left _ _) hle)
    rw [slice_repeated (length_pos_iff.mp hpos) hres hlen hoff]
    refine ⟨_, rfl, ?_⟩
    split
    · refine ⟨⟨?_, ?_, ?_⟩, ?_, ?_, ?_⟩
      all_goals simp only [TmpfsSparseExtent.len, allocatedLen, length_map, length_range]
      · omega
      · omega
      · omega
      · omega
      · intro p hp
        exact getD_map_range _ hp
    · refine ⟨⟨?_, ?_, ?_⟩, rfl, ?_, ?_⟩
      · simp only [TmpfsSparseExtent.len]
        omega
      · simpa [allocatedLen] using hpos
      · simpa [allocatedLen] using hle
      · simp only [TmpfsSparseExtent.len, allocatedLen, length_map, length_range]
        omega
      · intro p _
        simp only [byte, length_map, length_range]
        rw [getD_map_range _ (Nat.mod_lt _ hpos), Nat.add_mod, Nat.mod_mod, ← Nat.add_mod]

/-! ## Truncation -/

lemma truncateTo_len (e : TmpfsSparseExtent) (n : Nat) : (e.truncateTo n).len = min e.len n := by
  cases e with
  | bytes data => simp [truncateTo, len, min_comm]
  | repeated pattern m => rfl

/-- Truncation leaves the bytes in front alone. -/
lemma truncateTo_byte {p : Nat} (hp : p < n) : (e.truncateTo n).byte p = e.byte p := by
  cases e with
  | bytes data => simp [truncateTo, byte, getElem?_take_of_lt hp]
  | repeated pattern m => rfl

lemma truncateTo_ok (he : e.Ok) (hn : 0 < n) : (e.truncateTo n).Ok := by
  obtain ⟨hlen, hpos, hle⟩ := he
  refine ⟨by rw [truncateTo_len]; omega, ?_, ?_⟩
  all_goals
    cases e with
    | bytes data =>
      simp only [truncateTo, allocatedLen, length_take] at *
      omega
    | repeated pattern m => assumption

/-! ## Fresh extents -/

/-- The extent `e` holds exactly the bytes `buf`. -/
structure Holds (e : TmpfsSparseExtent) (buf : List Byte) : Prop where
  ok : e.Ok
  len : e.len = buf.length
  alloc : e.allocatedLen ≤ buf.length
  byte : ∀ p, p < buf.length → e.byte p = buf.getD p 0

variable {buf : List Byte}

lemma holds_bytes (hpos : 0 < buf.length) (hle : buf.length ≤ TMPFS_SPARSE_EXTENT_LIMIT) :
    Holds (.bytes buf) buf :=
  ⟨⟨hpos, hpos, hle⟩, rfl, le_refl _, fun _ _ => rfl⟩

lemma repeated_singleton_byte (value : Byte) (n p : Nat) : (repeated [value] n).byte p = value := by
  simp [byte, Nat.mod_one]

lemma repeated_singleton_ok (value : Byte) (hn : 0 < n) : (repeated [value] n).Ok :=
  ⟨hn, one_pos, by simp [allocatedLen, TMPFS_SPARSE_EXTENT_LIMIT]⟩

/-- A buffer of one value becomes a pattern of one byte. -/
lemma repeatedByte_holds (h : repeatedByte buf = some e) : Holds e buf := by
  rcases buf with _ | ⟨first, rest⟩
  · cases h
  obtain ⟨hall, h⟩ := ite_none_right_eq_some.mp h
  cases h
  refine ⟨repeated_singleton_ok first (Nat.succ_pos _), rfl, Nat.succ_le_succ (Nat.zero_le _), ?_⟩
  intro p hp
  rw [repeated_singleton_byte]
  rcases p with _ | p
  · rfl
  have hp' : p < rest.length := Nat.lt_of_succ_lt_succ hp
  have hmem : rest.getD p 0 ∈ rest := by
    rw [getD_eq_getElem?_getD, getElem?_eq_getElem hp']
    simp
  exact (beq_iff_eq.mp (all_eq_true.mp hall _ hmem)).symm

/-! ## Appending -/

lemma matchingPatternPrefix_le (pattern : List Byte) (off : Nat) (buf : List Byte) :
    matchingPatternPrefix pattern off buf ≤ buf.length := by
  induction buf generalizing off with
  | nil => exact le_refl 0
  | cons b buf ih =>
    unfold matchingPatternPrefix
    split
    · exact Nat.succ_le_succ (ih _)
    · simp

/-- The matching part of a buffer goes on with the pattern. -/
lemma matchingPatternPrefix_spec {off q : Nat} (hq : q < matchingPatternPrefix pattern off buf) :
    pattern.getD ((off + q) % pattern.length) 0 = buf.getD q 0 := by
  induction buf generalizing off q with
  | nil => exact absurd hq (Nat.not_lt_zero _)
  | cons b buf ih =>
    unfold matchingPatternPrefix at hq
    split at hq
    next hb =>
      cases q with
      | zero => exact hb.2
      | succ q =>
        rw [getD_cons_succ, ← ih (Nat.lt_of_succ_lt_succ hq), Nat.add_right_comm, Nat.add_assoc]
    · exact absurd hq (Nat.not_lt_zero _)

/-- The extent `e'` is `e` followed by the first `n` bytes of `buf`. -/
structure Appended (e e' : TmpfsSparseExtent) (buf : List Byte) (n : Nat) : Prop where
  pos : 0 < n
  le : n ≤ buf.length
  ok : e'.Ok
  len : e'.len = e.len + n
  alloc : e'.allocatedLen ≤ e.allocatedLen + n
  old : ∀ p, p < e.len → e'.byte p = e.byte p
  new : ∀ q, q < n → e'.byte (e.len + q) = buf.getD q 0

/-- Bytes that repeat become a pattern. -/
lemma appended_bytes_repeated (he : (bytes data).Ok) (hbuf : buf ≠ [])
    (hmatch : matchingPatternPrefix data data.length buf = buf.length) :
    Appended (.bytes data) (.repeated data (data.length + buf.length)) buf buf.length := by
  refine ⟨length_pos_iff.mpr hbuf, le_refl _, { he with len_pos := ?_ }, rfl,
    Nat.le_add_right _ _, ?_, ?_⟩
  · exact Nat.lt_of_lt_of_le he.len_pos (Nat.le_add_right _ _)
  · intro p hp
    show data.getD (p % data.length) 0 = data.getD p 0
    rw [Nat.mod_eq_of_lt (show p < data.length from hp)]
  · intro q hq
    exact matchingPatternPrefix_spec (hmatch.symm ▸ hq)

lemma appended_bytes_bytes (hpos : 0 < n) (hle : n ≤ buf.length)
    (hfit : data.length + n ≤ TMPFS_SPARSE_EXTENT_LIMIT) :
    Appended (.bytes data) (.bytes (data ++ buf.take n)) buf n := by
  have hl : (data ++ buf.take n).length = data.length + n := by
    rw [length_append, length_take, min_eq_left hle]
  have hlen : (bytes (data ++ buf.take n)).len = data.length + n := hl
  have halloc : (bytes (data ++ buf.take n)).allocatedLen = data.length + n := hl
  refine ⟨hpos, hle, ⟨?_, ?_, ?_⟩, hlen, halloc.le, ?_, ?_⟩
  · omega
  · omega
  · omega
  · intro p hp
    simp only [byte, getD_eq_getElem?_getD]
    rw [getElem?_append_left hp]
  · intro q hq
    simp only [byte, TmpfsSparseExtent.len, getD_eq_getElem?_getD]
    rw [getElem?_append_right (Nat.le_add_right _ _), Nat.add_sub_cancel_left,
      getElem?_take_of_lt hq]

/-- A pattern grows by the part that matches. -/
lemma appended_repeated (he : (repeated pattern len).Ok)
    (hpos : matchingPatternPrefix pattern len buf ≠ 0) : Appended (.repeated pattern len)
      (.repeated pattern (len + matchingPatternPrefix pattern len buf)) buf
      (matchingPatternPrefix pattern len buf) := by
  refine ⟨pos_of_ne_zero hpos, matchingPatternPrefix_le _ _ _,
    { he with len_pos := ?_ }, rfl, Nat.le_add_right _ _, fun p _ => rfl, ?_⟩
  · exact Nat.lt_of_lt_of_le he.len_pos (Nat.le_add_right _ _)
  · intro q hq
    exact matchingPatternPrefix_spec hq

/-- **What `try_append` does**: it appends, or it reports 0 and leaves the extent as it is;
the latter only at the payload limit or where the heap refuses. -/
theorem tryAppend_cases {e' : TmpfsSparseExtent} {payload : Nat} (he : e.Ok) (hbuf : buf ≠ [])
    (hfit : e.len + buf.length < U64_RANGE) (h : tryAppend alloc e buf payload = some (n, e')) :
    Appended e e' buf n ∨ n = 0 ∧ e' = e ∧
        ¬ (HeapServes alloc ∧ payload + buf.length ≤ TMPFS_ALLOCATED_PAYLOAD_LIMIT) := by
  cases e with
  | bytes data =>
    simp only [tryAppend] at h
    split at h
    next hmatch =>
      have hlt : ¬ U64_RANGE ≤ data.length + buf.length := not_le.mpr hfit
      rw [if_neg hlt] at h
      cases h
      exact .inl (appended_bytes_repeated he hbuf hmatch.2)
    · split at h
      · cases h
      have hpos : 0 < buf.length := length_pos_iff.mpr hbuf
      split at h
      next hfull =>
        cases h
        refine .inr ⟨rfl, rfl, ?_⟩
        rintro ⟨hheap, hpay⟩
        rcases hfull with hfull | hfull
        · omega
        · rw [hheap _ (by omega)] at hfull
          cases hfull
      · cases h
        exact .inl (appended_bytes_bytes (by omega) (by omega) (by omega))
  | repeated pattern len =>
    simp only [tryAppend] at h
    split at h
    · cases h
    rename_i hpos
    have hle := matchingPatternPrefix_le pattern len buf
    simp only [TmpfsSparseExtent.len] at hfit
    rw [if_neg (by omega)] at h
    cases h
    exact .inl (appended_repeated he hpos)

/-! ## Reading -/

@[simp] lemma copyTo_length (e : TmpfsSparseExtent) (extentStart offset : Nat)
    (buf : List Byte) : (e.copyTo extentStart offset buf).length = buf.length := by
  simp only [copyTo]
  split
  · rfl
  · simp only [length_append, length_take, length_map, length_range, length_drop]
    omega

/-- Copying an extent replaces exactly the bytes that the extent covers. -/
lemma copyTo_getD (he : e.Ok) {extentStart : Nat} (hi : i < buf.length) :
    (e.copyTo extentStart offset buf).getD i 0 =
      if extentStart ≤ offset + i ∧ offset + i < extentStart + e.len then
        e.byte (offset + i - extentStart) else buf.getD i 0 := by
  have halloc := he.alloc_pos
  simp only [copyTo]
  split
  · rw [if_neg (by omega)]
  have htake : (buf.take (extentStart - offset)).length = extentStart - offset := by
    rw [length_take]
    omega
  simp only [getD_eq_getElem?_getD, append_assoc]
  by_cases hlow : i < extentStart - offset
  · -- before the extent
    rw [getElem?_append_left (by omega), getElem?_take_of_lt hlow, if_neg (by omega)]
  rw [getElem?_append_right (by omega), htake]
  by_cases hin : i - (extentStart - offset) <
      min (e.len - (offset - extentStart)) (buf.length - (extentStart - offset))
  · rw [getElem?_append_left (by simpa using hin), getElem?_map,
      getElem?_range hin, if_pos (by omega)]
    simp only [map_some, getD_some]
    congr 1
    omega
  · -- past its end
    rw [getElem?_append_right (by
      rw [length_map, length_range]; exact not_lt.mp hin),
      getElem?_drop, if_neg (by omega)]
    congr 2
    simp only [length_map, length_range]
    omega

end TmpfsSparseExtent

end Whusp.Fs
