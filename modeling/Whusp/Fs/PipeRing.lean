import Whusp.Lib.Codec
import Whusp.Lib.Cyclic

/-!
# The ring buffer of a pipe

`PipeRingBuffer` of `fs/pipe.rs`: an array with a head, a tail and a status that tells a full ring
from an empty one.  The bytes in the ring are a queue: reads take from its front, writes add to its
back, a transfer moves bytes from one ring to another and a duplication copies them.  The last part
compares runs of these operations on rings with runs on queues.
-/

namespace Whusp.Fs.Pipe

open List

open Whusp.Lib

def PIPE_MIN_CAPACITY : Nat := 4096

inductive RingBufferStatus where
  | full
  | empty
  | normal
  deriving DecidableEq

/-- The array and its two marks; the ends and the queues are in `PipeState`. -/
structure PipeRingBuffer where
  arr : List Byte
  head : Nat
  tail : Nat
  status : RingBufferStatus

namespace PipeRingBuffer

def capacity (r : PipeRingBuffer) : Nat := r.arr.length

def new (capacity : Nat) : PipeRingBuffer :=
  ⟨List.replicate (max capacity PIPE_MIN_CAPACITY) 0, 0, 0, .empty⟩

def availableRead (r : PipeRingBuffer) : Nat :=
  if r.status = .empty then 0
  else if r.head < r.tail then r.tail - r.head
  else r.tail + r.capacity - r.head

def availableWrite (r : PipeRingBuffer) : Nat :=
  if r.status = .full then 0 else r.capacity - r.availableRead

def advanceHead (r : PipeRingBuffer) (len : Nat) : PipeRingBuffer :=
  let head := (r.head + len) % r.capacity
  { r with head, status := if head = r.tail then .empty else .normal }

def advanceTail (r : PipeRingBuffer) (len : Nat) : PipeRingBuffer :=
  let tail := (r.tail + len) % r.capacity
  { r with tail, status := if tail = r.head then .full else .normal }

/-- `write_from`, with the number of bytes written. -/
def writeFrom (r : PipeRingBuffer) (src : List Byte) : PipeRingBuffer × Nat :=
  let len := min src.length r.availableWrite
  if len = 0 then (r, 0)
  else
    let firstLen := min len (r.capacity - r.tail)
    let arr := copyAt r.arr r.tail (src.take firstLen)
    let secondLen := len - firstLen
    let arr := if 0 < secondLen then copyAt arr 0 ((src.take len).drop firstLen) else arr
    ({ r with arr }.advanceTail len, len)

/-- `read_into` of a buffer of `len` bytes, with the bytes read. -/
def readInto (r : PipeRingBuffer) (len : Nat) : PipeRingBuffer × List Byte :=
  let len := min len r.availableRead
  if len = 0 then (r, [])
  else
    let firstLen := min len (r.capacity - r.head)
    let secondLen := len - firstLen
    let data := (r.arr.drop r.head).take firstLen ++ r.arr.take secondLen
    (r.advanceHead len, data)

def contiguousReadLen (r : PipeRingBuffer) : Nat :=
  if r.availableRead = 0 then 0
  else if r.head < r.tail then r.tail - r.head
  else r.capacity - r.head

def contiguousReadLenFrom (r : PipeRingBuffer) (pos : Nat) : Nat :=
  if r.availableRead = 0 then 0
  else if pos < r.tail then r.tail - pos
  else r.capacity - pos

def contiguousWriteLen (r : PipeRingBuffer) : Nat :=
  let available := r.availableWrite
  if available = 0 then 0
  else if r.head ≤ r.tail then min (r.capacity - r.tail) available
  else min (r.head - r.tail) available

/-- The loop of `transfer_to`. -/
def transferLoop : Nat → PipeRingBuffer → PipeRingBuffer → Nat → Nat →
    PipeRingBuffer × PipeRingBuffer × Nat
  | 0, r, out, _, moved => (r, out, moved)
  | fuel + 1, r, out, remaining, moved =>
    if remaining = 0 then (r, out, moved)
    else
      let chunk := min (min remaining r.contiguousReadLen) out.contiguousWriteLen
      if chunk = 0 then (r, out, moved)
      else
        let arr := copyAt out.arr out.tail ((r.arr.drop r.head).take chunk)
        transferLoop fuel (r.advanceHead chunk) ({ out with arr }.advanceTail chunk)
          (remaining - chunk) (moved + chunk)

def transferTo (r out : PipeRingBuffer) (len : Nat) : PipeRingBuffer × PipeRingBuffer × Nat :=
  let remaining := min (min len r.availableRead) out.availableWrite
  transferLoop remaining r out remaining 0

/-- The loop of `duplicate_to`. -/
def duplicateLoop (r : PipeRingBuffer) : Nat → PipeRingBuffer → Nat → Nat → Nat →
    PipeRingBuffer × Nat
  | 0, out, _, _, copied => (out, copied)
  | fuel + 1, out, readPos, remaining, copied =>
    if remaining = 0 then (out, copied)
    else
      let chunk := min (min remaining (r.contiguousReadLenFrom readPos)) out.contiguousWriteLen
      if chunk = 0 then (out, copied)
      else
        let arr := copyAt out.arr out.tail ((r.arr.drop readPos).take chunk)
        duplicateLoop r fuel ({ out with arr }.advanceTail chunk)
          ((readPos + chunk) % r.capacity) (remaining - chunk) (copied + chunk)

def duplicateTo (r out : PipeRingBuffer) (len : Nat) : PipeRingBuffer × Nat :=
  let remaining := min (min len r.availableRead) out.availableWrite
  duplicateLoop r remaining out r.head remaining 0

/-! ## What the ring holds -/

/-- The bytes in the ring, oldest first. -/
def bytes (r : PipeRingBuffer) : List Byte := cyclic r.arr r.head r.availableRead

/-- The marks are in the array, and the status fits them. -/
structure Ok (r : PipeRingBuffer) : Prop where
  head_lt : r.head < r.capacity
  tail_lt : r.tail < r.capacity
  status_eq : r.status = .normal ↔ r.head ≠ r.tail

variable {r out : PipeRingBuffer}

@[simp] theorem length_bytes (r : PipeRingBuffer) : r.bytes.length = r.availableRead :=
  length_cyclic _ _ _

lemma new_ok (capacity : Nat) : (new capacity).Ok := by
  have hpos : 0 < (new capacity).capacity := by
    simp only [new, PipeRingBuffer.capacity, length_replicate, PIPE_MIN_CAPACITY]
    omega
  exact ⟨hpos, hpos, by simp [new]⟩

/-- The tail is `availableRead` cells after the head, and a full ring is told by its status. -/
theorem Ok.tail_eq (h : r.Ok) :
    r.tail = (r.head + r.availableRead) % r.capacity ∧ r.availableRead ≤ r.capacity ∧
      (r.status = .full ↔ r.availableRead = r.capacity) := by
  obtain ⟨hhead, htail, hstatus⟩ := h
  unfold availableRead
  cases hs : r.status with
  | empty =>
    have heq : r.head = r.tail := by simpa [hs] using hstatus
    rw [if_pos rfl, Nat.add_zero, Nat.mod_eq_of_lt hhead]
    exact ⟨heq.symm, Nat.zero_le _, by simp; omega⟩
  | full =>
    have heq : r.head = r.tail := by simpa [hs] using hstatus
    rw [if_neg (by simp), if_neg (by omega),
      show r.tail + r.capacity - r.head = r.capacity by omega,
      Nat.add_mod_right, Nat.mod_eq_of_lt hhead]
    exact ⟨heq.symm, le_refl _, by simp⟩
  | normal =>
    have hne : r.head ≠ r.tail := hstatus.mp hs
    rw [if_neg (by simp)]
    split
    · rw [Nat.add_sub_cancel' (by omega), Nat.mod_eq_of_lt htail]
      exact ⟨rfl, by omega, by simp; omega⟩
    · rw [show r.head + (r.tail + r.capacity - r.head) = r.tail + r.capacity by omega,
        Nat.add_mod_right, Nat.mod_eq_of_lt htail]
      exact ⟨rfl, by omega, by simp; omega⟩

lemma Ok.availableRead_le (h : r.Ok) : r.availableRead ≤ r.capacity := h.tail_eq.2.1

lemma Ok.availableWrite_eq (h : r.Ok) : r.availableWrite = r.capacity - r.availableRead := by
  unfold availableWrite
  split
  next hfull =>
    rw [h.tail_eq.2.2.mp hfull, Nat.sub_self]
  · rfl

variable {n fuel remaining : Nat} {src : List Byte}

/-- A ring is known by its head and how much it holds. -/
lemma ok_of_tail_eq (hhead : r.head < r.capacity) (hn : n ≤ r.capacity)
    (htail : r.tail = (r.head + n) % r.capacity)
    (hstatus : r.status = if n = 0 then .empty else if n = r.capacity then .full else .normal) :
    r.Ok ∧ r.availableRead = n := by
  have hback := add_mod_eq_left_iff hhead hn
  refine ⟨⟨hhead, htail ▸ Nat.mod_lt _ (by omega), ?_⟩, ?_⟩
  · rw [hstatus, htail, ne_comm, ne_eq, hback]
    split <;> simp_all
  unfold availableRead
  rcases eq_zero_or_pos n with rfl | hpos
  · rw [if_pos (by simpa using hstatus)]
  rw [if_neg (ne_of_gt hpos)] at hstatus
  rcases lt_or_eq_of_le hn with hlt | rfl
  · rw [if_neg (ne_of_lt hlt)] at hstatus
    rw [if_neg (by rw [hstatus]; nofun), htail, add_mod_of_lt hhead hlt]
    split <;> split <;> omega
  · rw [if_pos rfl] at hstatus
    rw [if_neg (by rw [hstatus]; nofun), if_neg (by omega)]
    omega

/-- Taking `n` bytes from the front moves the head. -/
lemma advanceHead_spec (h : r.Ok) (hpos : 0 < n) (hn : n ≤ r.availableRead) :
    (r.advanceHead n).Ok ∧ (r.advanceHead n).availableRead = r.availableRead - n ∧
      (r.advanceHead n).bytes = r.bytes.drop n := by
  obtain ⟨htail, hle, -⟩ := h.tail_eq
  have hcap : 0 < r.capacity := Nat.zero_lt_of_lt h.head_lt
  have hhead : (r.head + n) % r.capacity < r.capacity := Nat.mod_lt _ hcap
  have htail' : r.tail = ((r.head + n) % r.capacity + (r.availableRead - n)) % r.capacity := by
    rw [Nat.mod_add_mod, htail]
    congr 1
    omega
  have hspec : (r.advanceHead n).Ok ∧ (r.advanceHead n).availableRead = r.availableRead - n := by
    apply ok_of_tail_eq hhead (by simp only [advanceHead, capacity] at hle ⊢; omega) htail'
    -- the ring is empty when the head meets the tail: it cannot be full
    have hback := add_mod_eq_left_iff hhead
      (show r.availableRead - n ≤ r.capacity by omega)
    rw [← htail'] at hback
    change (if (r.head + n) % r.capacity = r.tail then RingBufferStatus.empty else .normal) = _
    by_cases hzero : r.availableRead - n = 0
    · rw [if_pos (hback.mpr (.inl hzero)).symm, if_pos hzero]
    rw [if_neg (fun heq => ?_), if_neg hzero, if_neg (fun heq => ?_)]
    · change r.availableRead - n = r.capacity at heq
      omega
    · omega
  refine ⟨hspec.1, hspec.2, ?_⟩
  unfold bytes
  rw [hspec.2, drop_cyclic _ _ hn]
  exact cyclic_mod _ _ _

/-- Adding bytes at the back copies them behind the tail and moves it. -/
lemma advanceTail_spec (h : r.Ok) (hpos : 0 < src.length)
    (hfit : r.availableRead + src.length ≤ r.capacity) :
    let next := { r with arr := copyCyclic r.arr r.tail src }.advanceTail src.length
    next.Ok ∧ next.availableRead = r.availableRead + src.length ∧ next.capacity = r.capacity ∧
      next.bytes = r.bytes ++ src := by
  intro next
  obtain ⟨htail, hle, -⟩ := h.tail_eq
  have hlen : (copyCyclic r.arr r.tail src).length = r.capacity :=
    length_copyCyclic h.tail_lt (by simp only [capacity] at hfit; omega)
  have hcap : next.capacity = r.capacity := hlen
  have hnext : next.tail = (r.head + (r.availableRead + src.length)) % r.capacity := by
    change (r.tail + src.length) % (copyCyclic r.arr r.tail src).length = _
    rw [hlen, htail, Nat.mod_add_mod, Nat.add_assoc]
  have hspec : next.Ok ∧ next.availableRead = r.availableRead + src.length := by
    apply ok_of_tail_eq
    · exact hcap ▸ h.head_lt
    · exact hcap ▸ hfit
    · exact hcap ▸ hnext
    -- the ring is full when the tail meets the head: it cannot be empty
    have hback := add_mod_eq_left_iff h.head_lt hfit
    rw [← hnext] at hback
    rw [hcap, if_neg (by omega)]
    change (if next.tail = r.head then RingBufferStatus.full else .normal) = _
    by_cases hfull : r.availableRead + src.length = r.capacity
    · rw [if_pos (hback.mpr (.inr hfull)), if_pos hfull]
    · rw [if_neg (fun heq => ?_), if_neg hfull]
      omega
  refine ⟨hspec.1, hspec.2, hcap, ?_⟩
  unfold bytes
  rw [hspec.2, cyclic_append]
  congr 1
  · exact cyclic_copyCyclic_before h.head_lt hfit htail
  · change cyclic (copyCyclic r.arr r.tail src) (r.head + r.availableRead) src.length = src
    rw [← cyclic_mod, hlen, ← htail]
    exact cyclic_copyCyclic_self h.tail_lt (by simp only [capacity] at hfit; omega)

/-! ## Reads and writes -/

/-- A write that does not wrap is one slice. -/
lemma copyAt_eq_copyCyclic {a : List Byte} {pos : Nat} (h : pos + src.length ≤ a.length) :
    copyAt a pos src = copyCyclic a pos src := by
  simp [copyCyclic, min_eq_left (show src.length ≤ a.length - pos by omega), copyAt]

/-- A write appends what fits. -/
lemma writeFrom_spec (h : r.Ok) (src : List Byte) :
    (r.writeFrom src).2 = min src.length (r.capacity - r.availableRead) ∧
      (r.writeFrom src).1.Ok ∧ (r.writeFrom src).1.capacity = r.capacity ∧
      (r.writeFrom src).1.bytes = r.bytes ++ src.take (r.writeFrom src).2 := by
  unfold writeFrom
  dsimp only
  rw [h.availableWrite_eq]
  split
  next hzero =>
    exact ⟨hzero.symm, h, rfl, by simp⟩
  set len := min src.length (r.capacity - r.availableRead) with hlen
  have htake : (src.take len).length = len := length_take_of_le (by omega)
  -- both slices together are the copy over the range behind the tail
  have harr : (if 0 < len - min len (r.capacity - r.tail) then
      copyAt (copyAt r.arr r.tail (src.take (min len (r.capacity - r.tail)))) 0
        ((src.take len).drop (min len (r.capacity - r.tail)))
      else copyAt r.arr r.tail (src.take (min len (r.capacity - r.tail)))) =
      copyCyclic r.arr r.tail (src.take len) := by
    have hcopy : copyCyclic r.arr r.tail (src.take len) =
        copyAt (copyAt r.arr r.tail (src.take (min len (r.capacity - r.tail)))) 0
          ((src.take len).drop (min len (r.capacity - r.tail))) := by
      simp [copyCyclic, htake, take_take, capacity]
    rw [hcopy]
    split
    · rfl
    · rw [drop_eq_nil_of_le (by omega)]
      simp [copyAt]
  rw [harr]
  have hspec := advanceTail_spec h (show 0 < (src.take len).length by omega)
    (show r.availableRead + (src.take len).length ≤ r.capacity by
      omega)
  rw [htake] at hspec
  exact ⟨rfl, hspec.1, hspec.2.2.1, hspec.2.2.2⟩

/-- A read takes bytes off the front. -/
lemma readInto_spec (h : r.Ok) (n : Nat) : (r.readInto n).2 = r.bytes.take n ∧ (r.readInto n).1.Ok ∧
      (r.readInto n).1.capacity = r.capacity ∧ (r.readInto n).1.bytes = r.bytes.drop n := by
  unfold readInto
  dsimp only
  split
  next hzero =>
    rcases Nat.min_eq_zero_iff.mp hzero with rfl | havail
    · exact ⟨by simp, h, rfl, by simp⟩
    · have hnil : r.bytes = [] := eq_nil_of_length_eq_zero (by rw [length_bytes, havail])
      exact ⟨by simp [hnil], h, rfl, by simp [hnil]⟩
  next hne =>
    have hle := h.availableRead_le
    have hhead := h.head_lt
    have hcut : min n r.availableRead ≤ r.availableRead := min_le_right _ _
    have hspec := advanceHead_spec h (pos_of_ne_zero hne) hcut
    refine ⟨?_, hspec.1, rfl, ?_⟩
    · have htake : r.bytes.take n = cyclic r.arr r.head (min n r.availableRead) := by
        rw [bytes, ← take_cyclic _ _ hcut, ← take_take, take_of_length_le
          (le_of_eq (length_cyclic _ _ r.availableRead))]
      rw [htake]
      simp only [capacity] at hhead hle ⊢
      by_cases hwrap : min n r.availableRead ≤ r.arr.length - r.head
      · rw [Nat.min_eq_left hwrap, Nat.sub_self, take_zero, append_nil,
          take_drop_eq_cyclic (by omega)]
      · rw [min_eq_right (by omega), slices_eq_cyclic (by omega) (by omega)]
        congr 1
        omega
    · rw [hspec.2.2]
      simp

/-! ## Transfers between rings -/

lemma Ok.contiguousReadLen_le (h : r.Ok) :
    r.contiguousReadLen ≤ r.availableRead ∧ r.head + r.contiguousReadLen ≤ r.capacity ∧
      (0 < r.availableRead → 0 < r.contiguousReadLen) := by
  obtain ⟨hhead, htail, -⟩ := h
  unfold contiguousReadLen
  split
  · omega
  rename_i hne
  by_cases hempty : r.status = .empty
  · simp [availableRead, hempty] at hne
  · simp only [availableRead, if_neg hempty] at hne ⊢
    split <;> omega

lemma Ok.contiguousWriteLen_le (h : r.Ok) : r.availableRead + r.contiguousWriteLen ≤ r.capacity ∧
      r.tail + r.contiguousWriteLen ≤ r.capacity ∧
      (r.availableRead < r.capacity → 0 < r.contiguousWriteLen) := by
  have hle := h.availableRead_le
  have htail := h.tail_lt
  have hhead := h.head_lt
  unfold contiguousWriteLen
  rw [h.availableWrite_eq]
  dsimp only
  split
  · omega
  · split <;> omega

/-- One chunk of a copy between rings adds to the back of `out`. -/
lemma chunk_spec (hout : out.Ok) {chunk : List Byte} (hpos : 0 < chunk.length)
    (hle : chunk.length ≤ out.contiguousWriteLen) :
    let next := { out with arr := copyAt out.arr out.tail chunk }.advanceTail chunk.length
    next.Ok ∧ next.availableRead = out.availableRead + chunk.length ∧
      next.capacity = out.capacity ∧ next.bytes = out.bytes ++ chunk := by
  obtain ⟨hroom, hend, -⟩ := hout.contiguousWriteLen_le
  rw [copyAt_eq_copyCyclic (show out.tail + chunk.length ≤ out.arr.length by
    simp only [capacity] at hend
    omega)]
  exact advanceTail_spec hout hpos (by omega)

/-- A transfer moves bytes from the front of one ring to the back of another. -/
lemma transferLoop_spec (moved : Nat) (hr : r.Ok) (hout : out.Ok) (hfuel : remaining ≤ fuel)
    (hread : remaining ≤ r.availableRead) (hwrite : out.availableRead + remaining ≤ out.capacity) :
    let done := transferLoop fuel r out remaining moved
    done.1.Ok ∧ done.2.1.Ok ∧ done.1.capacity = r.capacity ∧ done.2.1.capacity = out.capacity ∧
      done.2.2 = moved + remaining ∧ done.1.bytes = r.bytes.drop remaining ∧
      done.2.1.bytes = out.bytes ++ r.bytes.take remaining := by
  induction fuel generalizing r out remaining moved with
  | zero =>
    obtain rfl := Nat.le_zero.mp hfuel
    exact ⟨hr, hout, rfl, rfl, rfl, by simp [transferLoop], by simp [transferLoop]⟩
  | succ fuel ih =>
    intro done
    by_cases hzero : remaining = 0
    · subst hzero
      simp only [done, transferLoop, if_pos]
      exact ⟨hr, hout, by simp, by simp, by simp, by simp, by simp⟩
    obtain ⟨hrd, hrend, hrpos⟩ := hr.contiguousReadLen_le
    obtain ⟨hwr, hwend, hwpos⟩ := hout.contiguousWriteLen_le
    set chunk := min (min remaining r.contiguousReadLen) out.contiguousWriteLen with hchunk
    have hpos : 0 < chunk := by
      omega
    have hslice : (r.arr.drop r.head).take chunk = r.bytes.take chunk := by
      rw [bytes, take_cyclic _ _ (by omega),
        take_drop_eq_cyclic (by simp only [capacity] at hrend; omega)]
    have hlen : (r.bytes.take chunk).length = chunk :=
      length_take_of_le (by rw [length_bytes]; omega)
    obtain ⟨hrok, hravail, hrbytes⟩ := advanceHead_spec hr hpos (show chunk ≤ _ by omega)
    have hspec := chunk_spec hout (show 0 < (r.bytes.take chunk).length by omega) (by omega)
    rw [hlen] at hspec
    obtain ⟨hook, hoavail, hocap, hobytes⟩ := hspec
    have hstep : done = transferLoop fuel (r.advanceHead chunk)
        ({ out with arr := copyAt out.arr out.tail (r.bytes.take chunk) }.advanceTail chunk)
        (remaining - chunk) (moved + chunk) := by
      simp only [done, transferLoop]
      rw [if_neg hzero, ← hchunk, if_neg (by omega), hslice]
    rw [hstep]
    have hrest := ih (moved + chunk) hrok hook (show remaining - chunk ≤ fuel by omega)
      (by omega) (by omega)
    obtain ⟨h₁, h₂, h₃, h₄, h₅, h₆, h₇⟩ := hrest
    refine ⟨h₁, h₂, h₃, h₄.trans hocap, by rw [h₅]; omega, ?_, ?_⟩
    · rw [h₆, hrbytes, drop_drop]
      congr 1
      omega
    · rw [h₇, hobytes, hrbytes, append_assoc]
      congr 1
      rw [← take_add]
      congr 1
      omega

/-- **`transfer_to`.**  It moves as many bytes as are asked for, there, and have room. -/
theorem transferTo_spec (hr : r.Ok) (hout : out.Ok) (len : Nat) :
    let n := min (min len r.availableRead) out.availableWrite
    let done := r.transferTo out len
    done.1.Ok ∧ done.2.1.Ok ∧ done.1.capacity = r.capacity ∧ done.2.1.capacity = out.capacity ∧
      done.2.2 = n ∧ done.1.bytes = r.bytes.drop n ∧
        done.2.1.bytes = out.bytes ++ r.bytes.take n := by
  intro n done
  have hle := hout.availableRead_le
  have hroom := hout.availableWrite_eq
  have hspec := transferLoop_spec 0 hr hout (le_refl n) (by omega) (by omega)
  rwa [zero_add] at hspec

lemma Ok.contiguousReadLenFrom_le (h : r.Ok) {copied : Nat} (hlt : copied < r.availableRead) :
    let pos := (r.head + copied) % r.capacity
    copied + r.contiguousReadLenFrom pos ≤ r.availableRead ∧
      pos + r.contiguousReadLenFrom pos ≤ r.capacity ∧ 0 < r.contiguousReadLenFrom pos := by
  intro pos
  obtain ⟨htail, hle, -⟩ := h.tail_eq
  have hhead := h.head_lt
  have hpos : pos = _ := add_mod_of_lt hhead (show copied < r.capacity by omega)
  unfold contiguousReadLenFrom
  rw [if_neg (by omega)]
  rcases lt_or_eq_of_le hle with hlt' | hfull
  · rw [add_mod_of_lt hhead hlt'] at htail
    split at hpos <;> split at htail <;> split <;> omega
  · rw [hfull, Nat.add_mod_right, Nat.mod_eq_of_lt hhead] at htail
    split at hpos <;> split <;> omega

/-- A duplication leaves the first ring as it was. -/
lemma duplicateLoop_spec (copied : Nat) (hr : r.Ok) (hout : out.Ok) (hfuel : remaining ≤ fuel)
    (hread : copied + remaining ≤ r.availableRead)
    (hwrite : out.availableRead + remaining ≤ out.capacity) :
    let done := r.duplicateLoop fuel out ((r.head + copied) % r.capacity) remaining copied
    done.1.Ok ∧ done.1.capacity = out.capacity ∧ done.2 = copied + remaining ∧
      done.1.bytes = out.bytes ++ (r.bytes.drop copied).take remaining := by
  induction fuel generalizing out remaining copied with
  | zero =>
    obtain rfl := Nat.le_zero.mp hfuel
    exact ⟨hout, rfl, rfl, by simp [duplicateLoop]⟩
  | succ fuel ih =>
    intro done
    by_cases hzero : remaining = 0
    · subst hzero
      simp only [done, duplicateLoop, if_pos]
      exact ⟨hout, by simp, by simp, by simp⟩
    obtain ⟨hrd, hrend, hrpos⟩ := hr.contiguousReadLenFrom_le (show copied < _ by omega)
    obtain ⟨hwr, hwend, hwpos⟩ := hout.contiguousWriteLen_le
    set pos := (r.head + copied) % r.capacity with hposdef
    set chunk := min (min remaining (r.contiguousReadLenFrom pos)) out.contiguousWriteLen
      with hchunk
    have hslice : (r.arr.drop pos).take chunk = (r.bytes.drop copied).take chunk := by
      rw [bytes, drop_cyclic _ _ (by omega), take_cyclic _ _ (by omega),
        take_drop_eq_cyclic (by simp only [capacity] at hrend; omega), hposdef]
      exact cyclic_mod _ _ _
    have hlen : ((r.bytes.drop copied).take chunk).length = chunk :=
      length_take_of_le (by rw [length_drop, length_bytes]; omega)
    have hspec := chunk_spec hout
      (show 0 < ((r.bytes.drop copied).take chunk).length by omega) (by omega)
    rw [hlen] at hspec
    obtain ⟨hook, hoavail, hocap, hobytes⟩ := hspec
    have hstep : done = r.duplicateLoop fuel
        ({ out with arr := copyAt out.arr out.tail ((r.bytes.drop copied).take chunk) }.advanceTail
          chunk) ((r.head + (copied + chunk)) % r.capacity) (remaining - chunk)
        (copied + chunk) := by
      simp only [done, duplicateLoop]
      rw [if_neg hzero, ← hposdef, ← hchunk, if_neg (by omega), hslice, hposdef, Nat.mod_add_mod,
        add_assoc]
    rw [hstep]
    obtain ⟨h₁, h₂, h₃, h₄⟩ := ih (copied + chunk) hook
      (show remaining - chunk ≤ fuel by omega)
      (show copied + chunk + (remaining - chunk) ≤ _ by omega) (by omega)
    refine ⟨h₁, h₂.trans hocap, by rw [h₃]; omega, ?_⟩
    rw [h₄, hobytes, append_assoc, ← drop_drop, ← take_add]
    congr 2
    omega

/-- **`duplicate_to`.**  It copies as many bytes as are asked for, there, and have room. -/
theorem duplicateTo_spec (hr : r.Ok) (hout : out.Ok) (len : Nat) :
    let n := min (min len r.availableRead) out.availableWrite
    let done := r.duplicateTo out len
    done.1.Ok ∧ done.1.capacity = out.capacity ∧ done.2 = n ∧
      done.1.bytes = out.bytes ++ r.bytes.take n := by
  intro n done
  have hle := hout.availableRead_le
  have hroom := hout.availableWrite_eq
  have hspec := duplicateLoop_spec 0 hr hout (Nat.le_refl n)
    (show 0 + n ≤ r.availableRead by omega) (by omega)
  rwa [Nat.add_zero, Nat.mod_eq_of_lt hr.head_lt, Nat.zero_add, drop_zero] at hspec

/-! ## Rings as bounded queues -/

/-- `resize`; `none` is `Busy`. -/
def resize (r : PipeRingBuffer) (capacity : Nat) : Option (PipeRingBuffer × Nat) :=
  let capacity := max capacity PIPE_MIN_CAPACITY
  let occupied := r.availableRead
  if capacity < occupied then none
  else
    let next := (range occupied).map fun index => r.arr.getD ((r.head + index) % r.capacity) 0
    some (⟨next ++ replicate (capacity - occupied) 0, 0,
      if occupied = capacity then 0 else occupied,
      if occupied = 0 then .empty else if occupied = capacity then .full else .normal⟩, capacity)

/-- A bounded queue. -/
structure ByteQueue where
  content : List Byte
  capacity : Nat

namespace ByteQueue

def room (q : ByteQueue) : Nat := q.capacity - q.content.length

def push (q : ByteQueue) (src : List Byte) : ByteQueue := { q with content := q.content ++ src }

def pop (q : ByteQueue) (n : Nat) : ByteQueue := { q with content := q.content.drop n }

end ByteQueue

def queue (r : PipeRingBuffer) : ByteQueue := ⟨r.bytes, r.capacity⟩

/-- A resize keeps the bytes, or is refused. -/
lemma resize_spec {m : Nat} (hm : max m PIPE_MIN_CAPACITY = n) (hfit : ¬ n < r.availableRead) :
    ∃ out, r.resize m = some (out, n) ∧ out.Ok ∧ out.queue = ⟨r.bytes, n⟩ := by
  have hpos : 0 < n := by simp [← hm, PIPE_MIN_CAPACITY]
  simp only [resize, hm, if_neg hfit, Option.some.injEq, Prod.mk.injEq, and_true, exists_eq_left']
  set out : PipeRingBuffer := ⟨_, _, _, _⟩
  have harr : out.arr = r.bytes ++ replicate (n - r.availableRead) 0 := rfl
  have hcap : out.capacity = n := by
    rw [capacity, harr, length_append, length_bytes, length_replicate]
    omega
  obtain ⟨hok, hread⟩ : out.Ok ∧ out.availableRead = r.availableRead := by
    apply ok_of_tail_eq (hcap ▸ hpos) (by omega) _ (hcap ▸ rfl)
    rw [hcap, Nat.zero_add]
    change (if r.availableRead = n then 0 else r.availableRead) = _
    split
    next heq => rw [heq, Nat.mod_self]
    next hne => rw [Nat.mod_eq_of_lt (by omega)]
  have hbytes : out.bytes = r.bytes := by
    rw [bytes, hread, ← take_drop_eq_cyclic (by simp [out]), harr]
    simp [out]
  exact ⟨hok, by rw [queue, hbytes, hcap]⟩

/-- What can be done with rings, or with queues. -/
structure Buffers (ρ : Type) where
  writeFrom : ρ → List Byte → ρ × Nat
  readInto : ρ → Nat → ρ × List Byte
  transferTo : ρ → ρ → Nat → ρ × ρ × Nat
  duplicateTo : ρ → ρ → Nat → ρ × Nat
  resize : ρ → Nat → Option (ρ × Nat)

def rings : Buffers PipeRingBuffer := ⟨writeFrom, readInto, transferTo, duplicateTo, resize⟩

def queues : Buffers ByteQueue where
  writeFrom q src :=
    let n := min src.length q.room
    (q.push (src.take n), n)
  readInto q len := (q.pop len, q.content.take len)
  transferTo q out len :=
    let n := min (min len q.content.length) out.room
    (q.pop n, out.push (q.content.take n), n)
  duplicateTo q out len :=
    let n := min (min len q.content.length) out.room
    (out.push (q.content.take n), n)
  resize q capacity :=
    let capacity := max capacity PIPE_MIN_CAPACITY
    if capacity < q.content.length then none else some ({ q with capacity }, capacity)

inductive RingOp where
  | write (i : Nat) (src : List Byte)
  | read (i len : Nat)
  | transfer (i j len : Nat)
  | duplicate (i j len : Nat)
  | resize (i capacity : Nat)

open Function

variable {ρ : Type} (b : Buffers ρ) {s : Nat → PipeRingBuffer}

/-- An operation, with the number and the bytes it answers; two buffers are never one. -/
def Buffers.apply (s : Nat → ρ) : RingOp → Option ((Nat → ρ) × Nat × List Byte)
  | .write i src =>
    let (r, n) := b.writeFrom (s i) src
    some (update s i r, n, [])
  | .read i len =>
    let (r, data) := b.readInto (s i) len
    some (update s i r, data.length, data)
  | .transfer i j len =>
    let (r, out, n) := b.transferTo (s i) (s j) len
    if i = j then none else some (update (update s i r) j out, n, [])
  | .duplicate i j len =>
    let (out, n) := b.duplicateTo (s i) (s j) len
    if i = j then none else some (update s j out, n, [])
  | .resize i capacity => (b.resize (s i) capacity).map fun (r, n) => (update s i r, n, [])

/-- The answers to a sequence of operations, and what they leave. -/
def Buffers.run (s : Nat → ρ) : List RingOp → List (Option (Nat × List Byte)) × (Nat → ρ)
  | [] => ([], s)
  | op :: ops =>
    let done := b.apply s op
    let (answers, s) := Buffers.run ((done.map Prod.fst).getD s) ops
    (done.map Prod.snd :: answers, s)

lemma room_queue (h : r.Ok) : r.queue.room = r.availableWrite := by
  simp [h.availableWrite_eq, ByteQueue.room, queue]

lemma ok_update (h : ∀ i, (s i).Ok) (hr : r.Ok) (i : Nat) : ∀ k, (update s i r k).Ok :=
  (forall_update_iff s (p := fun _ r => Ok r)).mpr ⟨hr, fun k _ => h k⟩

lemma apply_queue (h : ∀ i, (s i).Ok) (op : RingOp) :
    queues.apply (queue ∘ s) op = (rings.apply s op).map (Prod.map (queue ∘ ·) id) ∧
      ∀ done ∈ rings.apply s op, ∀ i, (done.1 i).Ok := by
  cases op with
  | write i src =>
    obtain ⟨hn, hr, hcap, hbytes⟩ := writeFrom_spec (h i) src
    have hq : queues.writeFrom (queue (s i)) src = Prod.map queue id (writeFrom (s i) src) := by
      simp [queues, queue, ByteQueue.push, ByteQueue.room, hcap, hbytes, hn, Prod.ext_iff]
    simp [Buffers.apply, rings, comp_update, hq, ok_update h hr]
  | read i len =>
    obtain ⟨hdata, hr, hcap, hbytes⟩ := readInto_spec (h i) len
    have hq : queues.readInto (queue (s i)) len = Prod.map queue id (readInto (s i) len) := by
      simp [queues, queue, ByteQueue.pop, hcap, hbytes, hdata, Prod.ext_iff]
    simp [Buffers.apply, rings, comp_update, hq, ok_update h hr]
  | transfer i j len =>
    obtain ⟨hr, hout, hcap, hcap', hn, hbytes, hbytes'⟩ := transferTo_spec (h i) (h j) len
    have hq : queues.transferTo (queue (s i)) (queue (s j)) len =
        Prod.map queue (Prod.map queue id) (transferTo (s i) (s j) len) := by
      simp only [queues, room_queue (h j)]
      simp [queue, ByteQueue.pop, ByteQueue.push, hcap, hcap', hbytes, hbytes', hn, Prod.ext_iff]
    by_cases hij : i = j
    · simp [Buffers.apply, hij]
    · simp [Buffers.apply, rings, comp_update, hq, hij, ok_update (ok_update h hr i) hout]
  | duplicate i j len =>
    obtain ⟨hout, hcap, hn, hbytes⟩ := duplicateTo_spec (h i) (h j) len
    have hq : queues.duplicateTo (queue (s i)) (queue (s j)) len =
        Prod.map queue id (duplicateTo (s i) (s j) len) := by
      simp only [queues, room_queue (h j)]
      simp [queue, ByteQueue.push, hcap, hbytes, hn, Prod.ext_iff]
    by_cases hij : i = j
    · simp [Buffers.apply, hij]
    · simp [Buffers.apply, rings, comp_update, hq, hij, ok_update h hout]
  | resize i capacity =>
    -- simp would split a comparison with the maximum
    obtain ⟨n, hn⟩ : ∃ n, max capacity PIPE_MIN_CAPACITY = n := ⟨_, rfl⟩
    have hq : queues.resize (queue (s i)) capacity =
        if n < (s i).availableRead then none else some (⟨(s i).bytes, n⟩, n) := by
      rw [← hn, ← length_bytes]
      rfl
    by_cases hbusy : n < (s i).availableRead
    · have hnone : (s i).resize capacity = none := by simp only [resize, hn, if_pos hbusy]
      simp [Buffers.apply, rings, hq, hnone, hbusy]
    · obtain ⟨out, hdone, hok, hout⟩ := resize_spec hn hbusy
      simp [Buffers.apply, rings, hq, hdone, hbusy, comp_update, hout, ok_update h hok]

/-- **Run lemma**: the rings answer like the queues in every run. -/
lemma run_queue (h : ∀ i, (s i).Ok) (ops : List RingOp) :
    queues.run (queue ∘ s) ops = (rings.run s ops).map id (queue ∘ ·) := by
  induction ops generalizing s with
  | nil => rfl
  | cons op ops ih =>
    obtain ⟨hop, hok⟩ := apply_queue h op
    cases hdone : rings.apply s op with
    | none => simp [Buffers.run, hop, hdone, ih h]
    | some done => simp [Buffers.run, hop, hdone, ih (hok done hdone)]

/-- **Rings are bounded queues**: through any sequence of operations on any number of rings, every
answer and every content is the one of queues of the same capacities. -/
theorem rings_refine_queues (capacity : Nat → Nat) (ops : List RingOp) :
    queues.run (fun i => ⟨[], max (capacity i) PIPE_MIN_CAPACITY⟩) ops =
      (rings.run (fun i => new (capacity i)) ops).map id (queue ∘ ·) := by
  rw [← run_queue fun i => new_ok (capacity i)]
  congr 1
  funext i
  simp [queue, bytes, new, availableRead, cyclic, PipeRingBuffer.capacity]

end PipeRingBuffer

end Whusp.Fs.Pipe
