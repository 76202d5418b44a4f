import Whusp.Fs.TmpfsRange
import Whusp.Lib.ByteFile

/-!
# tmpfs regular files refine byte-array files

The data operations of `TmpFs` on one regular file, and their comparison with the
abstract file `ByteFile`.  A run is any sequence of calls; beside the inode the state
keeps the abstract file, which each call moves by what it reported: a write for the number
of bytes it returned, any other operation only where it returned `Ok`.

What the call does not decide itself is part of its label: whether the heap serves a
reservation, and how many logical bytes the other files of the mount use.

`StepOk` names the calls that keep the refinement; the others lose or misplace bytes:

- a zero write that begins where an extent ends is appended to that extent without
  removing the extents that it runs into;
- a write past the inline limit removes what it overwrites before it finds that the payload
  does not fit, and then reports 0 bytes;
- `set_len` cuts the file before it finds the payload over the limit, and then fails;
- where the heap refuses the copy of a pattern, the piece of the extent is dropped.
-/

namespace Whusp.Fs

open Whusp.Lib (Byte SortedMap ByteFile System)
open TmpfsSparseExtent List Option

/-- The errors of the data operations on a regular file. -/
inductive FsError where
  | invalidInput
  | noSpace

abbrev FsResult := Except FsError Unit

structure TmpFs where
  logicalQuotaBytes : Option Nat
  inlineFileLimit : Nat

/-- What the environment answers during a call. -/
structure Env where
  /-- Whether a reservation of this many bytes is served. -/
  alloc : Nat → Bool
  /-- The logical bytes of the other regular files. -/
  others : Nat

namespace TmpFs

variable (fs : TmpFs) (env : Env) (inode : TmpfsInode)

/-! ## Quota -/

/-- The sum over all regular files, in `u64`. -/
def allocatedLogicalLen : Nat := (env.others + inode.allocatedLogicalLen) % U64_RANGE

def writeFitsQuota (offset len : Nat) : FsResult :=
  match fs.logicalQuotaBytes with
  | none => .ok ()
  | some quota =>
    if U64_RANGE ≤ offset + len then .error .invalidInput
    else if quota < satAdd (allocatedLogicalLen env inode)
        (inode.writeAllocatedGrowth offset (offset + len)) then .error .noSpace
    else .ok ()

/-- The loop of `quota_limited_write_len`, which accepts up to 4096 bytes a round. -/
def quotaLoop (quota offset len : Nat) : Nat → Nat → Nat → Nat
  | 0, _, accepted => accepted
  | fuel + 1, used, accepted =>
    if len ≤ accepted ∨ U64_RANGE ≤ offset + accepted then accepted
    else
      let next := min len (satAdd accepted 4096)
      if U64_RANGE ≤ offset + next then accepted
      else
        let growth := inode.writeAllocatedGrowth (offset + accepted) (offset + next)
        if quota < satAdd used growth then accepted
        else quotaLoop quota offset len fuel (satAdd used growth) next

def quotaLimitedWriteLen (offset len : Nat) : Nat :=
  match fs.logicalQuotaBytes with
  | none => len
  | some quota => quotaLoop inode quota offset len len (allocatedLogicalLen env inode) 0

/-! ## Data operations -/

/-- The end of a successful operation that reaches up to `stop`. -/
def growSize (inode : TmpfsInode) (stop : Nat) : TmpfsInode :=
  { inode with size := if inode.size < stop then stop else inode.size }

def setLen (len : Nat) : FsResult × TmpfsInode :=
  let inode' :=
    if len = 0 then inode.clearPayload
    else if len < inode.size then
      let cut := inode.truncateSparseTo len
      if len ≤ fs.inlineFileLimit then cut.resizeInline len
      else if len < cut.data.length then cut.resizeInline len
      else cut
    else if len < inode.data.length then inode.resizeInline len
    else inode
  if TMPFS_ALLOCATED_PAYLOAD_LIMIT < inode'.allocatedPayloadLen then (.error .noSpace, inode')
  else (.ok (), { inode' with size := len })

/-- The frame that `allocate_range` and `zero_range` share around their range operation. -/
def rangeCall (offset len : Nat) (keepSize : Bool) (op : Option TmpfsInode) :
    FsResult × TmpfsInode :=
  if U64_RANGE ≤ offset + len then (.error .invalidInput, inode)
  else
    match writeFitsQuota fs env inode offset len with
    | .error e => (.error e, inode)
    | .ok () =>
      match op with
      | none => (.error .noSpace, inode)
      | some inode' => (.ok (), if keepSize then inode' else growSize inode' (offset + len))

def allocateRange (offset len : Nat) (keepSize : Bool) : FsResult × TmpfsInode :=
  rangeCall fs env inode offset len keepSize
    (inode.reserveZeroRange env.alloc offset (offset + len) fs.inlineFileLimit)

def zeroRange (offset len : Nat) (keepSize : Bool) : FsResult × TmpfsInode :=
  rangeCall fs env inode offset len keepSize
    (inode.writeZeroRange env.alloc offset (offset + len) fs.inlineFileLimit)

def punchHole (offset len : Nat) : FsResult × TmpfsInode :=
  if U64_RANGE ≤ offset + len then (.error .invalidInput, inode)
  else (.ok (), inode.punchHoleRange env.alloc offset (offset + len) fs.inlineFileLimit)

/-- The bytes put at the start of a buffer of length `n`. -/
def readAt (offset n : Nat) : List Byte :=
  if inode.size ≤ offset then []
  else
    let len := min n (inode.size - offset)
    let inlineLen := min len (inode.data.length - offset)
    inode.copySparseTo offset
      (if offset < inode.data.length then
        (inode.data.drop offset).take inlineLen ++ List.replicate (len - inlineLen) 0
      else List.replicate len 0)

/-- The branch of `write_at` for a buffer of zeros. -/
def writeZeros (offset : Nat) (buf : List Byte) : Nat × TmpfsInode :=
  let stop := offset + buf.length
  match (if fs.inlineFileLimit ≤ offset then inode.appendSparseTail env.alloc offset buf
    else none) with
  | some (appended, inode1) =>
    if appended = 0 then (0, inode1)
    else if appended < buf.length then
      match inode1.writeZeroRange env.alloc (offset + appended) stop fs.inlineFileLimit with
      | none => (0, inode1)
      | some inode2 => (buf.length, growSize inode2 stop)
    else (buf.length, growSize inode1 stop)
  | none =>
    match inode.writeZeroRange env.alloc offset stop fs.inlineFileLimit with
    | none => (0, inode)
    | some inode1 => (buf.length, growSize inode1 stop)

/-- The end of `write_at`: the part of the buffer past the inline limit. -/
def writeSparse (inode : TmpfsInode) (sparseOffset : Nat) (sparseBuf : List Byte)
    (stop n : Nat) : Nat × TmpfsInode :=
  let inode1 := inode.removeSparseRange env.alloc sparseOffset stop
  if TMPFS_ALLOCATED_PAYLOAD_LIMIT < inode1.allocatedPayloadLen + sparseBuf.length then (0, inode1)
  else
    match inode1.writeSparseData env.alloc sparseOffset sparseBuf with
    | (false, inode2) => (0, inode2)
    | (true, inode2) => (n, growSize inode2 stop)

/-- The branch of `write_at` for any other buffer. -/
def writeBytes (offset : Nat) (buf : List Byte) : Nat × TmpfsInode :=
  let stop := offset + buf.length
  if offset < fs.inlineFileLimit then
    let inlineEnd := min stop fs.inlineFileLimit
    match inode.growInline env.alloc inlineEnd with
    | none => (0, inode)
    | some inode1 =>
      let inlineLen := inlineEnd - offset
      let inode2 := (inode1.writeInline offset (buf.take inlineLen)).removeSparseRange
        env.alloc offset inlineEnd
      if inlineEnd = stop then (buf.length, growSize inode2 stop)
      else writeSparse env inode2 inlineEnd (buf.drop inlineLen) stop buf.length
  else writeSparse env inode offset buf stop buf.length

def writeAt (offset : Nat) (buf : List Byte) : Nat × TmpfsInode :=
  let writeLen := quotaLimitedWriteLen fs env inode offset buf.length
  if writeLen = 0 ∧ buf ≠ [] then (0, inode)
  else if U64_RANGE ≤ offset + (buf.take writeLen).length then (0, inode)
  else if (buf.take writeLen).all (· == 0) then
    writeZeros fs env inode offset (buf.take writeLen)
  else writeBytes fs env inode offset (buf.take writeLen)

end TmpFs

/-! ## Runs -/

/-- The operations on the file; a read changes nothing and is what `Safe` observes. -/
inductive Op where
  | write (offset : UInt64) (buf : List Byte)
  | setLen (len : UInt64)
  | allocateRange (offset len : UInt64) (keepSize : Bool)
  | zeroRange (offset len : UInt64) (keepSize : Bool)
  | punchHole (offset len : UInt64)
  | read (offset : UInt64) (n : Nat)

/-- The inode, and the abstract file that the reported results describe. -/
structure FileState where
  inode : TmpfsInode
  file : ByteFile

/-- Apply `f` to the abstract file where the call returned `Ok`. -/
def onOk (r : FsResult × TmpfsInode) (file : ByteFile) (f : ByteFile → ByteFile) : FileState :=
  ⟨r.2, match r.1 with
    | .ok () => f file
    | .error _ => file⟩

def step (fs : TmpFs) (s : FileState) (call : Env × Op) : Option FileState :=
  match call with
  | (env, .write offset buf) =>
    if buf = [] then none
    else
      let r := fs.writeAt env s.inode offset.toNat buf
      some ⟨r.2, s.file.write offset.toNat (buf.take r.1)⟩
  | (_, .setLen len) => some (onOk (fs.setLen s.inode len.toNat) s.file (·.setLen len.toNat))
  | (env, .allocateRange offset len keepSize) =>
    some (onOk (fs.allocateRange env s.inode offset.toNat len.toNat keepSize) s.file fun file =>
      if keepSize then file else file.extend (offset.toNat + len.toNat))
  | (env, .zeroRange offset len keepSize) =>
    some (onOk (fs.zeroRange env s.inode offset.toNat len.toNat keepSize) s.file fun file =>
      let zeroed := file.zero offset.toNat (offset.toNat + len.toNat)
      if keepSize then zeroed else zeroed.extend (offset.toNat + len.toNat))
  | (env, .punchHole offset len) =>
    some (onOk (fs.punchHole env s.inode offset.toNat len.toNat) s.file
      (·.zero offset.toNat (offset.toNat + len.toNat)))
  | (_, .read _ _) => some s

/-- The runs on a file of the mount, from its creation. -/
def tmpfsSystem (fs : TmpFs) : System FileState (Env × Op) where
  init s := s = ⟨.new, .empty⟩
  step := step fs

/-- **The refinement**: the extents are disjoint, and every read returns what the abstract
file holds. -/
def Safe (s : FileState) : Prop :=
  DisjointExtents s.inode.sparseData ∧
    ∀ offset n, TmpFs.readAt s.inode offset n = s.file.read offset n

/-! ## Reading -/

namespace TmpFs

variable {limit : Nat} {inode inode' : TmpfsInode}

open TmpfsInode

variable {buf : List Byte} {i offset : Nat}

/-- Copying extents over a buffer: where every extent that covers a position agrees on its
byte, the result has that byte. -/
lemma copyExtents_getD {b : Byte} {l : List (Nat × TmpfsSparseExtent)} (hi : i < buf.length)
    (hok : ∀ x ∈ l, x.2.Ok ∧ x.1 + x.2.len < U64_RANGE)
    (hagree : ∀ x ∈ l, Covers x (offset + i) → x.2.byte (offset + i - x.1) = b)
    (hb : (∃ x ∈ l, Covers x (offset + i)) ∨ buf.getD i 0 = b) :
    (l.foldl (fun buf x => if satAdd x.1 x.2.len ≤ offset then buf
      else x.2.copyTo x.1 offset buf) buf).getD i 0 = b := by
  induction l generalizing buf with
  | nil =>
    rcases hb with ⟨x, hx, -⟩ | hb
    · cases hx
    · exact hb
  | cons x l ih =>
    obtain ⟨hxok, hbound⟩ := hok x mem_cons_self
    rw [foldl_cons, satAdd_eq hbound]
    apply ih
    · split
      · exact hi
      · rw [copyTo_length]
        exact hi
    · exact fun y hy => hok y (mem_cons_of_mem _ hy)
    · exact fun y hy => hagree y (mem_cons_of_mem _ hy)
    · by_cases hc : Covers x (offset + i)
      · -- this extent writes the byte
        right
        obtain ⟨hc1, hc2⟩ := hc
        rw [if_neg (by omega), copyTo_getD hxok hi, if_pos ⟨hc1, hc2⟩]
        exact hagree x mem_cons_self ⟨hc1, hc2⟩
      · rcases hb with ⟨y, hy, hcy⟩ | hb
        · rcases mem_cons.mp hy with rfl | hy
          · exact absurd hcy hc
          · exact .inl ⟨y, hy, hcy⟩
        · right
          split
          · exact hb
          · rw [copyTo_getD hxok hi]
            exact (if_neg hc).trans hb

lemma copyExtents_length (offset : Nat) (l : List (Nat × TmpfsSparseExtent)) (buf : List Byte) :
    (l.foldl (fun buf x => if satAdd x.1 x.2.len ≤ offset then buf
      else x.2.copyTo x.1 offset buf) buf).length = buf.length := by
  induction l generalizing buf with
  | nil => rfl
  | cons x l ih =>
    rw [foldl_cons, ih]
    split
    · rfl
    · simp

open TmpfsInode

/-- The extents over a buffer that holds the inline bytes give the bytes of the file. -/
lemma copySparseTo_getD (h : Sound limit inode) (hi : i < buf.length)
    (hfit : offset + buf.length < U64_RANGE)
    (hbuf : buf.getD i 0 = inode.data.getD (offset + i) 0) :
    (inode.copySparseTo offset buf).getD i 0 = inode.byteAt (offset + i) := by
  unfold copySparseTo
  rw [satAdd_eq hfit]
  apply copyExtents_getD hi
  · intro x hx
    have hx := h.extent x (mem_filter.mp hx).1
    exact ⟨hx.ok, hx.bound⟩
  · intro x hx hc
    rw [byteAt, sparseAt_of_mem h.disjoint (mem_filter.mp hx).1 hc]
    rfl
  · cases hs : sparseAt inode.sparseData (offset + i) with
    | none =>
      right
      rw [byteAt, hs, hbuf]
      rfl
    | some b =>
      left
      obtain ⟨x, hx, hb⟩ := exists_of_findSome?_eq_some hs
      obtain ⟨hc, -⟩ := ite_none_right_eq_some.mp hb
      have := hc.1
      exact ⟨x, mem_filter.mpr ⟨hx, decide_eq_true (by omega)⟩, hc⟩

/-- The buffer before the extents are copied over it. -/
lemma inlineBuf_getD (data : List Byte) (offset len i : Nat) : (if offset < data.length then
        (data.drop offset).take (min len (data.length - offset)) ++
          List.replicate (len - min len (data.length - offset)) 0
      else List.replicate len 0).length = len ∧ (i < len → (if offset < data.length then
        (data.drop offset).take (min len (data.length - offset)) ++
          List.replicate (len - min len (data.length - offset)) 0
      else List.replicate len (0 : Byte)).getD i 0 = data.getD (offset + i) 0) := by
  split
  · refine ⟨?_, ?_⟩
    · simp
    intro hi
    simp only [getD_eq_getElem?_getD]
    by_cases hin : i < data.length - offset
    · rw [getElem?_append_left (by
          rw [length_take, length_drop]; omega),
        getElem?_take_of_lt (by omega), getElem?_drop]
    · rw [getElem?_append_right (by
          rw [length_take, length_drop]; omega), getElem?_replicate,
        getElem?_eq_none (by omega : data.length ≤ offset + i)]
      split <;> rfl
  · refine ⟨length_replicate, ?_⟩
    intro _
    have hdata : data.getD (offset + i) 0 = 0 := getD_of_length_le (by omega)
    rw [hdata, getD_eq_getElem?_getD, getElem?_replicate]
    split <;> rfl

/-- **A read returns the bytes of the file**, up to its size. -/
theorem readAt_eq (h : Sound limit inode) (hsize : inode.size < U64_RANGE) (offset n : Nat) :
    readAt inode offset n =
      (List.range (min n (inode.size - offset))).map fun i => inode.byteAt (offset + i) := by
  unfold readAt
  split
  next hpast =>
    rw [Nat.sub_eq_zero_of_le hpast, Nat.min_zero]
    rfl
  have hlen := (inlineBuf_getD inode.data offset (min n (inode.size - offset)) 0).1
  apply ext_getElem?
  intro i
  by_cases hi : i < min n (inode.size - offset)
  · have hcopy := copySparseTo_getD h (i := i) (by rw [hlen]; exact hi) (by rw [hlen]; omega)
      ((inlineBuf_getD _ _ _ i).2 hi)
    rw [getD_eq_getElem?_getD] at hcopy
    rw [getElem?_map, getElem?_range hi, map_some, ← hcopy]
    rw [getElem?_eq_getElem (by
      unfold copySparseTo
      rw [copyExtents_length, hlen]
      exact hi)]
    rfl
  · rw [getElem?_eq_none (by
        unfold copySparseTo
        rw [copyExtents_length, hlen]
        exact not_lt.mp hi),
      getElem?_eq_none (by
        rw [length_map, length_range]
        exact not_lt.mp hi)]

end TmpFs

/-! ## The refinement invariant -/

/-- The representation is sound, and the abstract file has its size and bytes. -/
structure Inv (fs : TmpFs) (s : FileState) : Prop where
  sound : s.inode.Sound fs.inlineFileLimit
  size_lt : s.inode.size < U64_RANGE
  size : s.file.size = s.inode.size
  byte : ∀ i, s.file.byte i = s.inode.byteAt i

lemma Inv.safe {fs : TmpFs} {s : FileState} (h : Inv fs s) : Safe s := by
  refine ⟨h.sound.disjoint, ?_⟩
  intro offset n
  rw [TmpFs.readAt_eq h.sound h.size_lt, ByteFile.read, h.size]
  simp [h.byte]

lemma inv_new (fs : TmpFs) : Inv fs ⟨.new, .empty⟩ := by
  refine ⟨⟨Nat.zero_le _, nofun, nofun, rfl⟩, by decide, rfl, fun _ => rfl⟩

/-! ## Writes -/

namespace TmpFs

open TmpfsInode

variable {fs : TmpFs} {env : Env} {inode inode' : TmpfsInode} {offset : Nat} {buf : List Byte}

/-- Bytes with a buffer stored at an offset. -/
def written (f : Nat → Byte) (offset : Nat) (buf : List Byte) (i : Nat) : Byte :=
  if offset ≤ i ∧ i < offset + buf.length then buf.getD (i - offset) 0 else f i

/-- What a write may report: nothing written and nothing changed, or the whole buffer. -/
inductive WriteOutcome (fs : TmpFs) (inode : TmpfsInode) (offset : Nat) (buf : List Byte) :
    Nat × TmpfsInode → Prop where
  | refused {inode' : TmpfsInode} (h : Effect fs.inlineFileLimit inode inode' inode.byteAt) :
      WriteOutcome fs inode offset buf (0, inode')
  | done {inode' : TmpfsInode}
      (h : Effect fs.inlineFileLimit inode inode' (written inode.byteAt offset buf)) :
      WriteOutcome fs inode offset buf (buf.length, growSize inode' (offset + buf.length))

variable {limit stop n m len : Nat} {f : Nat → Byte} {alloc : Nat → Bool}

lemma sound_growSize (h : Sound limit inode) (stop : Nat) :
    Sound limit (growSize inode stop) := { h with }

/-- Where an extent ends at the offset of a zero write, the zeros run into no other extent. -/
def ZeroWriteOk (fs : TmpFs) (inode : TmpfsInode) (offset len : Nat) : Prop :=
  fs.inlineFileLimit ≤ offset → (∃ x ∈ inode.sparseData.entries, x.1 + x.2.len = offset) →
    Free inode.sparseData offset (offset + len)

lemma zeroed_eq_written (hzero : buf.all (· == 0) = true) :
    zeroed f offset (offset + buf.length) = written f offset buf := by
  funext i
  unfold zeroed written
  split
  · have hlt : i - offset < buf.length := by omega
    rw [getD_eq_getElem?_getD, getElem?_eq_getElem hlt]
    exact (beq_iff_eq.mp (all_eq_true.mp hzero _ (getElem_mem hlt))).symm
  · rfl

/-- Past the inline limit `write_zero_range` cannot fail. -/
lemma writeZeroRange_ne_none (hlim : limit ≤ offset) (hstop : limit < stop) :
    inode.writeZeroRange alloc offset stop limit ≠ none := by
  unfold writeZeroRange
  rw [if_neg (not_le.mpr hstop), if_neg (not_lt.mpr hlim)]
  nofun

/-- Appended zeros, where the range is free. -/
lemma appended_zeros {k : Nat} {e e' : TmpfsSparseExtent} (h : Sound limit inode)
    (hzero : buf.all (· == 0) = true) (hfit : offset + buf.length < U64_RANGE)
    (ht : TailAppend alloc inode inode' offset buf n k e e') (happ : Appended e e' buf n)
    (hfree : Free inode.sparseData offset (offset + n)) :
    Effect limit inode inode' (zeroed inode.byteAt offset (offset + n)) := by
  obtain ⟨hedit, hsparse, -⟩ := ht.appended h happ hfit hfree
  refine { hedit with byte := ?_ }
  intro i
  simp only [byteAt, zeroed, hsparse i, hedit.data]
  split
  · have hlt : i - offset < buf.length := by
      have := happ.le
      omega
    rw [getD_some, getD_eq_getElem?_getD, getElem?_eq_getElem hlt]
    exact beq_iff_eq.mp (all_eq_true.mp hzero _ (getElem_mem hlt))
  · rfl

theorem writeZeros_outcome (h : Sound fs.inlineFileLimit inode) (halloc : HeapServes env.alloc)
    (hbuf : buf ≠ []) (hzero : buf.all (· == 0) = true) (hfit : offset + buf.length < U64_RANGE)
    (hok : ZeroWriteOk fs inode offset buf.length) :
    WriteOutcome fs inode offset buf (writeZeros fs env inode offset buf) := by
  unfold writeZeros
  simp only
  split
  · -- an extent ends at the offset
    rename_i n inode1 happ
    split at happ
    swap
    · cases happ
    rename_i hlim
    obtain ⟨k, e, e', ht⟩ := h.appendSparseTail hbuf hfit happ
    rcases ht.result with hres | ⟨rfl, rfl, -⟩
    swap
    · exact .refused (ht.refused h)
    have hfree := hok hlim ⟨(k, e), ht.mem, ht.tail⟩
    have hle := hres.le
    have heff := appended_zeros h hzero hfit ht hres
      (Free.mono hfree (le_refl _) (by omega))
    rw [if_neg hres.pos.ne']
    split
    · split
      next hnone =>
        exact absurd hnone (writeZeroRange_ne_none (by omega) (by omega))
      rename_i hsome
      have heff2 := heff.sound.writeZeroRange halloc (by omega) hfit hsome
      refine .done ⟨heff2.sound, heff2.size.trans heff.size, ?_⟩
      intro i
      rw [heff2.byte i, ← zeroed_eq_written hzero]
      simp only [zeroed, heff.byte i]
      split
      · rw [if_pos (by omega)]
      · split
        · rw [if_pos (by omega)]
        · rw [if_neg (by omega)]
    · obtain rfl : n = buf.length := by omega
      rw [zeroed_eq_written hzero] at heff
      exact .done heff
  · split
    · exact .refused ⟨h, rfl, fun _ => rfl⟩
    rename_i hsome
    have heff := h.writeZeroRange halloc (Nat.le_add_right _ _) hfit hsome
    rw [zeroed_eq_written hzero] at heff
    exact .done heff

/-- The payload that the file stores once everything a write covers is cut out. -/
def payloadAfterCut (fs : TmpFs) (inode : TmpfsInode) (offset stop : Nat) : Nat :=
  (if offset < fs.inlineFileLimit then fs.inlineFileLimit else inode.data.length) +
    inode.total (keptOutside (max offset fs.inlineFileLimit) stop)

/-- The part of a write past the inline limit fits in the payload. -/
def SparseWriteOk (fs : TmpFs) (inode : TmpfsInode) (offset len : Nat) : Prop :=
  fs.inlineFileLimit < offset + len →
    payloadAfterCut fs inode offset (offset + len) +
      (offset + len - max offset fs.inlineFileLimit) ≤ TMPFS_ALLOCATED_PAYLOAD_LIMIT

/-- The sparse part of a write: it succeeds where the payload fits. -/
lemma writeSparse_done (h : Sound limit inode) (halloc : HeapServes env.alloc)
    (hlim : limit ≤ offset) (hbuf : buf ≠ []) (hfit : offset + buf.length < U64_RANGE)
    (hpay : inode.data.length + inode.total (keptOutside offset (offset + buf.length)) +
      buf.length ≤ TMPFS_ALLOCATED_PAYLOAD_LIMIT) :
    ∃ inode', writeSparse env inode offset buf (offset + buf.length) n =
        (n, growSize inode' (offset + buf.length)) ∧
      Effect limit inode inode' (written inode.byteAt offset buf) := by
  have hpos : 0 < buf.length := length_pos_iff.mpr hbuf
  obtain ⟨hedit, hfree, hout, hpl⟩ := h.removeSparseRange halloc
    (show offset < offset + buf.length by omega)
  obtain ⟨inode2, hloop, hw⟩ := hedit.sound.writeSparseLoop halloc hlim
    (le_refl buf.length) hfit hfree (by omega)
  refine ⟨inode2, ?_, hw.edit.sound, hw.edit.size.trans hedit.size, ?_⟩
  · simp only [writeSparse, writeSparseData, hloop]
    rw [if_neg (by omega)]
  intro i
  simp only [byteAt, written, hw.sparse i, hw.edit.data, hedit.data]
  split
  · rfl
  next hi =>
    rw [hout i hi]

lemma removeSparseRange_inline {start : Nat} (h : Sound limit inode) (hstop : stop ≤ limit) :
    inode.removeSparseRange alloc start stop = inode := by
  unfold removeSparseRange
  split
  · rfl
  have hnil : (inode.sparseData.entries.filter fun x =>
      decide (x.1 < stop ∧ start < satAdd x.1 x.2.len)) = [] := by
    rw [filter_eq_nil_iff]
    intro x hx hsel
    have := (of_decide_eq_true hsel).1
    have := (h.extent x hx).inline
    omega
  rw [hnil]
  rfl

lemma writeInline_effect {inode1 : TmpfsInode} (h : Sound limit inode) (hm : offset + m ≤ limit)
    (hlen : m ≤ buf.length) (hgrow : inode.growInline alloc (offset + m) = some inode1) :
    InlineEdit limit inode (inode1.writeInline offset (buf.take m)) ∧
      (inode1.writeInline offset (buf.take m)).data.length = max inode.data.length (offset + m) ∧
      ∀ i, (inode1.writeInline offset (buf.take m)).byteAt i =
        written inode.byteAt offset (buf.take m) i := by
  obtain ⟨hedit1, hlen1, hdata1⟩ := h.growInline hm hgrow
  have htake : (buf.take m).length = m := by
    rw [length_take]
    omega
  have hfit : offset + (buf.take m).length ≤ inode1.data.length := by omega
  have hedit2 := hedit1.sound.writeInline hfit
  refine ⟨⟨hedit2.sound, hedit2.size.trans hedit1.size, hedit2.sparse.trans hedit1.sparse⟩, ?_, ?_⟩
  · show (splice inode1.data offset (buf.take m)).length = _
    rw [splice_length hfit, hlen1]
  intro i
  simp only [byteAt, written, hedit2.sparse, hedit1.sparse]
  rw [show (inode1.writeInline offset (buf.take m)).data = splice inode1.data offset (buf.take m)
    from rfl, splice_getD hfit, hdata1 i]
  split
  · rw [h.sparseAt_below (by omega)]
    rfl
  · rfl

/-- Storing a prefix and then the rest stores the whole. -/
lemma written_append (hm : m ≤ buf.length) :
    written (written f offset (buf.take m)) (offset + m) (buf.drop m) = written f offset buf := by
  funext i
  simp only [written, length_take, length_drop, min_eq_left hm, getD_eq_getElem?_getD]
  by_cases hrest : offset + m ≤ i ∧ i < offset + m + (buf.length - m)
  · rw [if_pos hrest, if_pos (by omega), getElem?_drop]
    congr 2
    omega
  · rw [if_neg hrest]
    by_cases hfirst : offset ≤ i ∧ i < offset + m
    · rw [if_pos hfirst, if_pos (by omega), getElem?_take_of_lt (by omega)]
    · rw [if_neg hfirst, if_neg (by omega)]

theorem writeBytes_outcome (h : Sound fs.inlineFileLimit inode) (halloc : HeapServes env.alloc)
    (hbuf : buf ≠ []) (hfit : offset + buf.length < U64_RANGE)
    (hok : SparseWriteOk fs inode offset buf.length) :
    WriteOutcome fs inode offset buf (writeBytes fs env inode offset buf) := by
  have hpos : 0 < buf.length := length_pos_iff.mpr hbuf
  unfold writeBytes
  simp only
  split
  next hin =>
    -- `m` bytes go to the inline data
    obtain ⟨m, hm⟩ : ∃ m, min (offset + buf.length) fs.inlineFileLimit = offset + m :=
      ⟨min (offset + buf.length) fs.inlineFileLimit - offset, by omega⟩
    rw [hm, Nat.add_sub_cancel_left]
    split
    · exact .refused ⟨h, rfl, fun _ => rfl⟩
    rename_i inode1 hgrow
    obtain ⟨hedit, hlen, hbyte⟩ := writeInline_effect h (by omega)
      (show m ≤ buf.length by omega) hgrow
    rw [removeSparseRange_inline hedit.sound (by omega)]
    split
    · rw [take_of_length_le (by omega)] at hedit hbyte ⊢
      exact .done { hedit with byte := hbyte }
    have hdrop : (buf.drop m).length = buf.length - m := length_drop
    have hstop : offset + m + (buf.drop m).length = offset + buf.length := by omega
    have hsum : (inode1.writeInline offset (buf.take m)).total
        (keptOutside (offset + m) (offset + buf.length)) =
          inode.total (keptOutside (offset + m) (offset + buf.length)) := by
      simp [total, hedit.sparse]
    have hpay := hok (by omega)
    simp only [payloadAfterCut, if_pos hin,
      show max offset fs.inlineFileLimit = offset + m by omega] at hpay
    obtain ⟨inode2, heq, heff⟩ := writeSparse_done (n := buf.length) hedit.sound halloc
      (show fs.inlineFileLimit ≤ offset + m by omega)
      (length_pos_iff.mp (by omega) : buf.drop m ≠ []) (by omega)
      (by rw [hstop, hsum, hlen, hdrop]; have := h.data_le; omega)
    rw [hstop] at heq
    rw [heq]
    refine .done ⟨heff.sound, heff.size.trans hedit.size, ?_⟩
    intro i
    rw [heff.byte i, show (inode1.writeInline offset (buf.take m)).byteAt =
      written inode.byteAt offset (buf.take m) from funext hbyte, written_append (by omega)]
  next hout =>
    have hpay := hok (by omega)
    simp only [payloadAfterCut, if_neg hout,
      show max offset fs.inlineFileLimit = offset by omega] at hpay
    obtain ⟨inode2, heq, heff⟩ := writeSparse_done (n := buf.length) h halloc
      (not_lt.mp hout) hbuf hfit (by omega)
    rw [heq]
    exact .done heff

lemma quotaLoop_le {quota fuel used accepted : Nat} (h : accepted ≤ len) :
    quotaLoop inode quota offset len fuel used accepted ≤ len := by
  induction fuel generalizing used accepted with
  | zero => exact h
  | succ fuel ih =>
    unfold quotaLoop
    split
    · exact h
    simp only
    split
    · exact h
    · split
      · exact h
      · exact ih (min_le_left _ _)

lemma quotaLimitedWriteLen_le (fs : TmpFs) (env : Env) (inode : TmpfsInode) (offset len : Nat) :
    quotaLimitedWriteLen fs env inode offset len ≤ len := by
  unfold quotaLimitedWriteLen
  split
  · exact le_refl _
  · exact quotaLoop_le (Nat.zero_le _)

/-- A write that loses nothing: the heap serves reservations of up to one extent, and the
bytes that the quota accepts neither run over an extent as zeros nor overflow the
payload. -/
def WriteOk (fs : TmpFs) (env : Env) (inode : TmpfsInode) (offset : Nat) (buf : List Byte) : Prop :=
  let accepted := quotaLimitedWriteLen fs env inode offset buf.length
  HeapServes env.alloc ∧
    if (buf.take accepted).all (· == 0) then ZeroWriteOk fs inode offset accepted
    else SparseWriteOk fs inode offset accepted

section

variable (h : Sound fs.inlineFileLimit inode)
include h

/-- **Writes**: `n` bytes are reported, and exactly the first `n` are stored. -/
theorem writeAt_effect (hsize : inode.size < U64_RANGE)
    (hbuf : buf ≠ []) (hok : WriteOk fs env inode offset buf) :
    let r := writeAt fs env inode offset buf
    Sound fs.inlineFileLimit r.2 ∧ r.2.size < U64_RANGE ∧
      r.2.size = (if buf.take r.1 = [] then inode.size
        else max inode.size (offset + (buf.take r.1).length)) ∧
      ∀ i, r.2.byteAt i = written inode.byteAt offset (buf.take r.1) i := by
  -- a write that reports 0 and changes nothing
  have hrefused : ∀ {inode' : TmpfsInode}, Effect fs.inlineFileLimit inode inode' inode.byteAt →
      Sound fs.inlineFileLimit inode' ∧ inode'.size < U64_RANGE ∧
        inode'.size = (if buf.take 0 = [] then inode.size
          else max inode.size (offset + (buf.take 0).length)) ∧
        ∀ i, inode'.byteAt i = written inode.byteAt offset (buf.take 0) i := by
    intro inode' heff
    refine ⟨heff.sound, heff.size ▸ hsize, ?_, ?_⟩
    · exact heff.size
    · intro i
      rw [heff.byte i, written, take_zero, if_neg (by rw [length_nil]; omega)]
  have hle := quotaLimitedWriteLen_le fs env inode offset buf.length
  obtain ⟨halloc, hcond⟩ := hok
  unfold writeAt
  simp only
  revert hle hcond
  generalize quotaLimitedWriteLen fs env inode offset buf.length = accepted
  intro hle hcond
  have hlen : (buf.take accepted).length = accepted := by
    rw [length_take]
    omega
  split
  · exact hrefused ⟨h, rfl, fun _ => rfl⟩
  rename_i hsome
  split
  · exact hrefused ⟨h, rfl, fun _ => rfl⟩
  rename_i hfit
  have hnil : buf.take accepted ≠ [] := by
    intro hnil
    exact hsome ⟨by rw [← hlen, hnil]; rfl, hbuf⟩
  have hout : WriteOutcome fs inode offset (buf.take accepted)
      (if (buf.take accepted).all (· == 0) then
        writeZeros fs env inode offset (buf.take accepted)
      else writeBytes fs env inode offset (buf.take accepted)) := by
    split
    next hzero =>
      rw [if_pos hzero] at hcond
      exact writeZeros_outcome h halloc hnil hzero (not_le.mp hfit) (by rwa [hlen])
    next hzero =>
      rw [if_neg hzero] at hcond
      exact writeBytes_outcome h halloc hnil (not_le.mp hfit) (by rwa [hlen])
  revert hout
  generalize (if (buf.take accepted).all (· == 0) then
    writeZeros fs env inode offset (buf.take accepted)
    else writeBytes fs env inode offset (buf.take accepted)) = r
  intro hout
  cases hout with
  | refused heff => exact hrefused heff
  | @done inode' heff =>
    rw [hlen]
    refine ⟨sound_growSize heff.sound _, ?_, ?_, heff.byte⟩
    · simp only [growSize, heff.size]
      split <;> omega
    · simp only [growSize, heff.size]
      split <;> omega

/-- A shrinking `set_len` stays within the payload limit: with a pattern kept whole, and
the inline data that it may grow. -/
def SetLenOk (fs : TmpFs) (inode : TmpfsInode) (len : Nat) : Prop :=
  0 < len → len < inode.size →
    (if len ≤ fs.inlineFileLimit then len else inode.data.length) + inode.total (keptBelow len) ≤
      TMPFS_ALLOCATED_PAYLOAD_LIMIT

/-- The shrinking branch of `set_len`. -/
lemma shrink_effect (hlen : len < U64_RANGE) :
    let cut := inode.truncateSparseTo len
    let inode' := if len ≤ fs.inlineFileLimit then cut.resizeInline len
      else if len < cut.data.length then cut.resizeInline len
      else cut
    Effect fs.inlineFileLimit inode inode' (fun i => if i < len then inode.byteAt i else 0) ∧
      inode'.allocatedPayloadLen =
        (if len ≤ fs.inlineFileLimit then len else inode.data.length) +
          inode.total (keptBelow len) := by
  obtain ⟨hedit, hfree, hbelow, hpay⟩ := h.truncateSparseTo hlen
  have hdl := h.data_le
  -- no byte is left in the extents from `len` on
  have habove : ∀ i, len ≤ i → sparseAt (inode.truncateSparseTo len).sparseData i = none := by
    intro i hi
    rw [sparseAt_eq_none_iff]
    intro x hx hc
    have h1 := hfree x hx hlen
    have h2 := (hedit.sound.extent x hx).bound
    have h4 := hc.2
    omega
  simp only
  split
  next hin =>
    have hres := hedit.sound.resizeInline hin
    refine ⟨⟨hres.sound, hres.size.trans hedit.size, ?_⟩, ?_⟩
    · intro i
      simp only [byteAt, hres.sparse]
      rw [show ((inode.truncateSparseTo len).resizeInline len).data =
        resize (inode.truncateSparseTo len).data len from rfl, resize_getD, hedit.data]
      split
      next hi =>
        rw [hbelow i hi]
      next hi =>
        rw [habove i (not_lt.mp hi)]
        rfl
    · show (inode.truncateSparseTo len).allocatedPayloadLen +
          (len - (inode.truncateSparseTo len).data.length) -
          ((inode.truncateSparseTo len).data.length - len) = _
      rw [hpay, hedit.data]
      omega
  · rw [if_neg (by rw [hedit.data]; omega)]
    refine ⟨{ hedit with byte := ?_ }, hpay⟩
    intro i
    simp only [byteAt, hedit.data]
    split
    next hi =>
      rw [hbelow i hi]
    next hi =>
      rw [habove i (not_lt.mp hi), getD_of_length_le (by omega)]
      rfl

/-- The growing branch of `set_len` drops inline bytes past the size, which are zeros. -/
lemma grow_effect
    (htail : ∀ i, inode.size ≤ i → inode.byteAt i = 0) (hle : inode.size ≤ len) :
    Effect fs.inlineFileLimit inode
      (if len < inode.data.length then inode.resizeInline len else inode) inode.byteAt := by
  split
  swap
  · exact ⟨h, rfl, fun _ => rfl⟩
  have hres := h.resizeInline (n := len) (by have := h.data_le; omega)
  refine { hres with byte := ?_ }
  intro i
  have hzero := htail i
  simp only [byteAt, hres.sparse] at hzero ⊢
  rw [show (inode.resizeInline len).data = resize inode.data len from rfl, resize_getD]
  split
  · rfl
  cases hs : sparseAt inode.sparseData i with
  | none =>
    rw [hs] at hzero
    exact (hzero (by omega)).symm
  | some b => rfl

end

end TmpFs

/-! ## Steps -/

open TmpFs in
/-- The calls that keep the refinement, by the state before them. -/
def StepOk (fs : TmpFs) (s : FileState) : Env × Op → Prop
  | (env, .write offset buf) => WriteOk fs env s.inode offset.toNat buf
  | (_, .setLen len) => SetLenOk fs s.inode len.toNat
  | (env, .zeroRange _ _ _) => HeapServes env.alloc
  | (env, .punchHole _ _) => HeapServes env.alloc
  | (_, .allocateRange _ _ _) => True
  | (_, .read _ _) => True

section Steps

open TmpFs TmpfsInode

variable {fs : TmpFs} {s : FileState} {env : Env}

lemma Inv.of_effect (h : Inv fs s) {inode' : TmpfsInode} {file' : ByteFile}
    {content : Nat → Byte} (heff : Effect fs.inlineFileLimit s.inode inode' content)
    (hsize : file'.size = s.file.size) (hbyte : ∀ i, file'.byte i = content i) :
    Inv fs ⟨inode', file'⟩ := by
  refine ⟨heff.sound, ?_, ?_, ?_⟩
  · rw [heff.size]
    exact h.size_lt
  · rw [hsize, heff.size]
    exact h.size
  · intro i
    rw [hbyte i, heff.byte i]

lemma Inv.extend {inode : TmpfsInode} {file : ByteFile} (h : Inv fs ⟨inode, file⟩) {stop : Nat}
    (hstop : stop < U64_RANGE) : Inv fs ⟨growSize inode stop, file.extend stop⟩ := by
  have hs : file.size = inode.size := h.size
  have hlt : inode.size < U64_RANGE := h.size_lt
  refine ⟨sound_growSize h.sound stop, ?_, ?_, h.byte⟩
  · simp only [growSize]
    split <;> omega
  · simp only [growSize, ByteFile.extend]
    split <;> omega

variable {offset len : Nat}

lemma Inv.of_write (h : Inv fs s) {buf : List Byte} (hbuf : buf ≠ [])
    (hok : WriteOk fs env s.inode offset buf) : Inv fs ⟨(fs.writeAt env s.inode offset buf).2,
      s.file.write offset (buf.take (fs.writeAt env s.inode offset buf).1)⟩ := by
  obtain ⟨hsound, hlt, hsize, hbyte⟩ := writeAt_effect h.sound h.size_lt hbuf hok
  refine ⟨hsound, hlt, ?_, ?_⟩
  · simp only [ByteFile.write, h.size]
    exact hsize.symm
  · intro i
    simp only [ByteFile.write, h.byte]
    exact (hbyte i).symm

lemma Inv.of_setLen (h : Inv fs s) (hlen : len < U64_RANGE) (hok : SetLenOk fs s.inode len) :
    Inv fs (onOk (fs.setLen s.inode len) s.file (·.setLen len)) := by
  have htail : ∀ i, s.inode.size ≤ i → s.inode.byteAt i = 0 := by
    intro i hi
    rw [← h.byte i]
    exact s.file.tail i (h.size ▸ hi)
  -- what the call reports on an inode with the bytes below `len`
  have hdone : ∀ {inode' : TmpfsInode}, Effect fs.inlineFileLimit s.inode inode'
      (fun i => if i < len then s.inode.byteAt i else 0) →
      Inv fs ⟨{ inode' with size := len }, s.file.setLen len⟩ := by
    intro inode' heff
    refine ⟨{ heff.sound with }, hlen, rfl, ?_⟩
    intro i
    simp only [ByteFile.setLen, h.byte]
    exact (heff.byte i).symm
  unfold TmpFs.setLen
  by_cases hzero : len = 0
  · subst hzero
    refine hdone ⟨⟨Nat.zero_le _, by rintro _ ⟨⟩, by rintro _ ⟨⟩, rfl⟩, rfl, fun i => ?_⟩
    rfl
  · simp only [if_neg hzero]
    by_cases hshrink : len < s.inode.size
    · obtain ⟨heff, hpay⟩ := shrink_effect h.sound hlen
      have hfit := hok (pos_of_ne_zero hzero) hshrink
      simp only [if_pos hshrink]
      rw [if_neg (by rw [hpay]; omega)]
      exact hdone heff
    · have heff := grow_effect h.sound htail (not_lt.mp hshrink)
      simp only [if_neg hshrink]
      revert heff
      generalize (if len < s.inode.data.length then s.inode.resizeInline len else s.inode) = inode'
      intro heff
      split
      · -- the payload is over the limit, and no byte has changed
        exact h.of_effect heff rfl h.byte
      refine hdone { heff with byte := ?_ }
      intro i
      rw [heff.byte i]
      split
      · rfl
      · exact htail i (by omega)

lemma Inv.of_rangeCall (h : Inv fs s) {keepSize : Bool}
    {op : Option TmpfsInode} {g : ByteFile → ByteFile} (hsize : (g s.file).size = s.file.size)
    (hop : offset + len < U64_RANGE → ∀ inode', op = some inode' →
      Effect fs.inlineFileLimit s.inode inode' (g s.file).byte) :
    Inv fs (onOk (rangeCall fs env s.inode offset len keepSize op) s.file fun file =>
      if keepSize then g file else (g file).extend (offset + len)) := by
  unfold rangeCall
  split
  · exact h
  rename_i hfit
  split
  · exact h
  cases op with
  | none => exact h
  | some inode' =>
    have hinv : Inv fs ⟨inode', g s.file⟩ :=
      h.of_effect (hop (not_le.mp hfit) inode' rfl) hsize (fun _ => rfl)
    cases keepSize with
    | true => exact hinv
    | false => exact hinv.extend (not_le.mp hfit)

/-- **One call** that meets the condition keeps the refinement. -/
theorem Inv.step {call : Env × Op} {s' : FileState} (h : Inv fs s) (hok : StepOk fs s call)
    (hstep : step fs s call = some s') : Inv fs s' := by
  obtain ⟨env, op⟩ := call
  -- the bytes of the abstract file with a zeroed range
  have hzeroed : ∀ a b, (s.file.zero a b).byte = zeroed s.inode.byteAt a b := by
    intro a b
    funext i
    simp [ByteFile.zero, zeroed, h.byte]
  cases op with
  | write offset buf =>
    obtain ⟨hbuf, rfl⟩ := of_refusal hstep
    exact h.of_write hbuf hok
  | setLen len =>
    cases hstep
    exact h.of_setLen len.toNat_lt hok
  | allocateRange offset len keepSize =>
    cases hstep
    apply h.of_rangeCall (g := id) rfl
    intro hfit inode' hop
    have heff := h.sound.reserveZeroRange hfit hop
    exact { heff with byte := fun i => (heff.byte i).trans (h.byte i).symm }
  | zeroRange offset len keepSize =>
    cases hstep
    apply h.of_rangeCall (g := fun file => file.zero offset.toNat (offset.toNat + len.toNat)) rfl
    intro hfit inode' hop
    rw [hzeroed]
    exact h.sound.writeZeroRange hok (Nat.le_add_right _ _) hfit hop
  | punchHole offset len =>
    cases hstep
    unfold TmpFs.punchHole
    split
    · exact h
    · have heff := h.sound.punchHoleRange hok (Nat.le_add_right offset.toNat len.toNat)
      exact h.of_effect heff rfl
        (fun i => congrFun (hzeroed _ _) i)
  | read offset n =>
    cases hstep
    exact h

end Steps

/-- **Refinement over whole runs**: whatever the inline limit and the quota, in every state
reached by calls that meet `StepOk` the extents are disjoint and every read returns the
bytes and the length of the abstract file. -/
theorem tmpfs_refines_byteFile {fs : TmpFs} {s : FileState}
    (h : (tmpfsSystem fs).Reachable (StepOk fs) s) : Safe s := by
  have hinv : Inv fs s := by
    apply h.invariant
    · intro s hs
      obtain rfl : s = ⟨.new, .empty⟩ := hs
      exact inv_new fs
    · intro s call s' hinv hok hstep
      exact hinv.step hok hstep
  exact hinv.safe

/-- A write across the inline limit and a hole across it: the refinement holds and the read
returns what is left. -/
theorem tmpfs_refines_byteFile_punched :
    ∃ s, (tmpfsSystem ⟨none, 4⟩).Reachable (StepOk ⟨none, 4⟩) s ∧ Safe s ∧
      TmpFs.readAt s.inode 0 8 = [0, 0, 1, 0, 0, 4] := by
  let env : Env := ⟨fun _ => true, 0⟩
  have hserve : HeapServes env.alloc := fun _ _ => rfl
  have hwrite : StepOk ⟨none, 4⟩ ⟨.new, .empty⟩ (env, .write 2 [1, 2, 3, 4]) := by
    refine ⟨hserve, ?_⟩
    intro _
    decide
  have hrun := System.Reachable.step (M := tmpfsSystem ⟨none, 4⟩) (.init rfl) hwrite rfl
  have hpunch : ∀ s, StepOk ⟨none, 4⟩ s (env, .punchHole 3 2) := fun _ => hserve
  have hrun := hrun.step (hpunch _) rfl
  exact ⟨_, hrun, tmpfs_refines_byteFile hrun, by decide⟩

/-- Zeros written between two extents are appended to the first and leave the second in
place: the extents overlap, and a byte that was overwritten with 0 is read back. -/
theorem tmpfs_zero_write_overlaps : ∃ s, (tmpfsSystem ⟨none, 0⟩).Reachable System.anyStep s ∧
      ¬ DisjointExtents s.inode.sparseData ∧
      TmpFs.readAt s.inode 0 6 = [1, 2, 0, 0, 3, 0] ∧ s.file.read 0 6 = [1, 2, 0, 0, 0, 0] ∧
      ¬ Safe s := by
  let env : Env := ⟨fun _ => true, 0⟩
  obtain ⟨s, hrun, hread, hfile⟩ : ∃ s, (tmpfsSystem ⟨none, 0⟩).runWhile System.anyStep
      ⟨.new, .empty⟩ [(env, .write 0 [1, 2]), (env, .write 4 [3]), (env, .write 2 [0, 0, 0, 0])] =
        some s ∧ (TmpFs.readAt s.inode 0 6 = [1, 2, 0, 0, 3, 0] ∧
          ∃ x ∈ s.inode.sparseData.entries, ∃ y ∈ s.inode.sparseData.entries,
            x.1 < y.1 ∧ ¬ x.1 + x.2.len ≤ y.1) ∧ s.file.read 0 6 = [1, 2, 0, 0, 0, 0] :=
    ⟨_, rfl, by decide, by decide⟩
  obtain ⟨hread, x, hx, y, hy, hlt, hover⟩ := hread
  refine ⟨s, System.reachable_of_runWhile (.init rfl) hrun, ?_, hread, hfile, ?_⟩
  · intro hd
    exact hover (hd x hx y hy hlt)
  · intro hsafe
    have := hsafe.2 0 6
    rw [hread, hfile] at this
    exact absurd this (by decide)

end Whusp.Fs
