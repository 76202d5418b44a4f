import Whusp.Lib.SortedMap
import Whusp.Mm.MemorySet

/-!
# System V shared memory segments

The segment table of `mm/shm.rs`: creation and lookup by key, attach, retain, detach, removal
and the limits beside it.  A call runs in one critical section of `SHM_MANAGER`.

Two fields are ghosts: every segment has a serial number, and the table remembers the
segments it dropped, as they were then.  Dropping a segment releases its frames.
-/

namespace Whusp.Mm

open Function List Option

open Whusp.Lib (SortedMap)
open Whusp.Syscall (USIZE_RANGE)

/-! ## Constants and arguments -/

def IPC_PRIVATE : Int := 0
def IPC_CREAT : BitVec 32 := 0o1000
def IPC_EXCL : BitVec 32 := 0o2000
def SHM_HUGETLB : BitVec 32 := 0o4000
def SHM_MIN : Nat := 1
def SHM_MAX : Nat := 16 * 1024 * 1024
def SHMMNI : Nat := 4096
def SHMALL : Nat := SHM_MAX / PAGE_SIZE * SHMMNI

inductive ShmError where
  | notFound
  | exists_
  | invalid
  | noMem
  | noSpace
  | accessDenied
  | notPermitted

structure ShmCreateContext where
  uid : Nat
  gid : Nat

structure ShmCaller where
  euid : Nat
  egid : Nat
  groups : List Nat
  canOverrideRead : Bool
  canOverrideOwner : Bool

structure ShmSetAttrs where
  uid : Nat
  gid : Nat
  mode : BitVec 32

/-! ## Segments -/

structure ShmSegment where
  key : Int
  size : Nat
  alignedLen : Nat
  mode : BitVec 32
  uid : Nat
  gid : Nat
  cuid : Nat
  attachCount : Nat
  markedForDelete : Bool
  pages : List Nat
  /-- Ghost: the number of segments created before this one. -/
  serial : Nat

/-- A page of an attachment: its index in the segment and the frame there. -/
structure ShmPageMapping where
  pageIndex : Nat
  ppn : Nat

structure ShmAttach where
  shmid : Nat
  len : Nat
  pages : List ShmPageMapping

namespace ShmSegment

/-- `ShmSegment::new`; `frameAlloc i` is the answer of the `i`-th `frame_alloc`. -/
def new (key : Int) (size alignedLen : Nat) (mode : BitVec 32) (context : ShmCreateContext)
    (serial : Nat) (frameAlloc : Nat → Option Nat) : Option ShmSegment :=
  ((List.range (alignedLen / PAGE_SIZE)).mapM frameAlloc).map fun pages =>
    { key, size, alignedLen, mode, uid := context.uid, gid := context.gid, cuid := context.uid,
      attachCount := 0, markedForDelete := false, pages, serial }

def pageMappings (s : ShmSegment) : List ShmPageMapping :=
  s.pages.zipIdx.map fun (ppn, pageIndex) => ⟨pageIndex, ppn⟩

def modeAllows (s : ShmSegment) (caller : ShmCaller) (ownerBit groupBit otherBit : BitVec 32) :
    Bool :=
  if caller.euid = s.uid then s.mode &&& ownerBit ≠ 0
  else if caller.egid = s.gid ∨ s.gid ∈ caller.groups then s.mode &&& groupBit ≠ 0
  else s.mode &&& otherBit ≠ 0

def canRead (s : ShmSegment) (caller : ShmCaller) : Bool :=
  s.modeAllows caller 0o400 0o040 0o004 || caller.canOverrideRead

def canWrite (s : ShmSegment) (caller : ShmCaller) : Bool :=
  s.modeAllows caller 0o200 0o020 0o002 || caller.canOverrideRead

def isOwnerOrCreator (s : ShmSegment) (caller : ShmCaller) : Bool :=
  caller.euid = s.uid || caller.euid = s.cuid || caller.canOverrideOwner

def pageCount (s : ShmSegment) : Nat := s.alignedLen / PAGE_SIZE

end ShmSegment

/-! ## The table -/

/-- `ShmManager` with the limits kept beside it. -/
structure ShmManager where
  /-- A `usize` in the source; it does not come round here, as no run creates that many. -/
  nextId : Nat
  segments : SortedMap Nat ShmSegment
  keyedSegments : SortedMap Int Nat
  shmMaxLimit : Nat
  shmmniLimit : Nat
  shmallLimit : Nat
  shmNextId : Int
  /-- Ghost: the segments that were dropped, as they were then. -/
  dropped : List ShmSegment
  /-- Ghost: the number of segments created so far. -/
  created : Nat

namespace ShmManager

def new : ShmManager where
  nextId := 1
  segments := .empty
  keyedSegments := .empty
  shmMaxLimit := SHM_MAX
  shmmniLimit := SHMMNI
  shmallLimit := SHMALL
  shmNextId := -1
  dropped := []
  created := 0

def containsId (m : ShmManager) (id : Nat) : Bool := (m.segments.get? id).isSome

def highestIndex (m : ShmManager) : Nat := (m.segments.entries.getLast?.map Prod.fst).getD 0

/-- `usage_info().total_pages`. -/
def totalPages (m : ShmManager) : Nat := (m.segments.entries.map fun e => e.2.pageCount).sum

def requestedNextId (m : ShmManager) : Option Nat :=
  if 0 ≤ m.shmNextId then some m.shmNextId.toNat else none

/-- The loops `while self.segments.contains_key(&self.next_id) { self.next_id += 1 }`; past
the highest id nothing is in use. -/
def skipUsed (m : ShmManager) : Nat → Nat → Nat
  | 0, id => id
  | fuel + 1, id => if m.containsId id then m.skipUsed fuel (id + 1) else id

def nextUnused (m : ShmManager) (id : Nat) : Nat := m.skipUsed (m.highestIndex + 1 - id) id

def allocId (m : ShmManager) : Nat × ShmManager :=
  match m.requestedNextId.filter fun id => !m.containsId id with
  | some id => (id, m)
  | none => (m.nextUnused m.nextId, { m with nextId := m.nextUnused (m.nextUnused m.nextId + 1) })

/-- The write through the `&mut ShmSegment` of `self.segments.get_mut(&shmid)`. -/
def setSegment (m : ShmManager) (shmid : Nat) (segment : ShmSegment) : ShmManager :=
  { m with segments := m.segments.insert shmid segment }

/-- The last part of `create_segment`: the new segment and its key. -/
def insertSegment (m : ShmManager) (shmid : Nat) (segment : ShmSegment) : ShmManager :=
  { m with
    segments := m.segments.insert shmid segment
    keyedSegments :=
      if segment.key ≠ IPC_PRIVATE then m.keyedSegments.insert segment.key shmid
      else m.keyedSegments
    shmNextId := -1
    created := m.created + 1 }

def createSegment (m : ShmManager) (key : Int) (size : Nat) (mode : BitVec 32)
    (context : ShmCreateContext) (frameAlloc : Nat → Option Nat) :
    Except ShmError Nat × ShmManager :=
  if ¬ (SHM_MIN ≤ size ∧ size ≤ m.shmMaxLimit) then (.error .invalid, m)
  else if m.shmmniLimit ≤ m.segments.entries.length then (.error .noSpace, m)
  else
    match checkedPageAlignUp size with
    | none => (.error .invalid, m)
    | some alignedLen =>
      if m.shmallLimit < min (m.totalPages + alignedLen / PAGE_SIZE) (USIZE_RANGE - 1) then
        (.error .noSpace, m)
      else
        let (shmid, m) := m.allocId
        match ShmSegment.new key size alignedLen mode context m.created frameAlloc with
        | none => (.error .noMem, m)
        | some segment => (.ok shmid, m.insertSegment shmid segment)

def getOrCreate (m : ShmManager) (key : Int) (size : Nat) (shmflg : BitVec 32)
    (context : ShmCreateContext) (caller : ShmCaller) (frameAlloc : Nat → Option Nat) :
    Except ShmError Nat × ShmManager :=
  let mode := shmflg &&& 0o777
  let flags := shmflg &&& ~~~0o777
  if flags &&& SHM_HUGETLB ≠ 0 then (.error .invalid, m)
  else if key = IPC_PRIVATE then m.createSegment key size mode context frameAlloc
  else
    match m.keyedSegments.get? key with
    | some shmid =>
      if flags &&& (IPC_CREAT ||| IPC_EXCL) = IPC_CREAT ||| IPC_EXCL then (.error .exists_, m)
      else
        match m.segments.get? shmid with
        | none => (.error .notFound, m)
        | some segment =>
          if segment.size < size then (.error .invalid, m)
          else if !segment.canRead caller && !segment.canWrite caller then
            (.error .accessDenied, m)
          else (.ok shmid, m)
    | none =>
      if flags &&& IPC_CREAT = 0 then (.error .notFound, m)
      else m.createSegment key size mode context frameAlloc

def attach (m : ShmManager) (shmid : Nat) : Except ShmError ShmAttach × ShmManager :=
  match m.segments.get? shmid with
  | none => (.error .invalid, m)
  | some segment =>
    if segment.markedForDelete then (.error .invalid, m)
    else
      (.ok ⟨shmid, segment.alignedLen, segment.pageMappings⟩,
        m.setSegment shmid { segment with attachCount := segment.attachCount + 1 })

def retainAttached (m : ShmManager) (shmid : Nat) : Bool × ShmManager :=
  match m.segments.get? shmid with
  | none => (false, m)
  | some segment =>
    (true, m.setSegment shmid { segment with attachCount := segment.attachCount + 1 })

/-- `attached_segment_pages(shmid).unwrap_or_default()`. -/
def attachedSegmentPages (m : ShmManager) (shmid : Nat) : List ShmPageMapping :=
  ((m.segments.get? shmid).map ShmSegment.pageMappings).getD []

def removeKeyIfCurrent (m : ShmManager) (key : Int) (shmid : Nat) : ShmManager :=
  if m.keyedSegments.get? key = some shmid then
    { m with keyedSegments := m.keyedSegments.erase key }
  else m

/-- `self.segments.remove(&shmid)`. -/
def removeSegment (m : ShmManager) (shmid : Nat) (segment : ShmSegment) : ShmManager :=
  { m with segments := m.segments.erase shmid, dropped := m.dropped ++ [segment] }

/-- `if key != IPC_PRIVATE { self.remove_key_if_current(key, shmid) }`. -/
def removeKey (m : ShmManager) (key : Int) (shmid : Nat) : ShmManager :=
  if key ≠ IPC_PRIVATE then m.removeKeyIfCurrent key shmid else m

def detach (m : ShmManager) (shmid : Nat) : Except ShmError Unit × ShmManager :=
  match m.segments.get? shmid with
  | none => (.error .invalid, m)
  | some segment =>
    let segment := { segment with attachCount := segment.attachCount - 1 }
    let m := m.setSegment shmid segment
    if segment.attachCount = 0 ∧ segment.markedForDelete then
      (.ok (), (m.removeSegment shmid segment).removeKey segment.key shmid)
    else (.ok (), m)

def markForDelete (m : ShmManager) (shmid : Nat) (caller : ShmCaller) :
    Except ShmError Unit × ShmManager :=
  match m.segments.get? shmid with
  | none => (.error .invalid, m)
  | some segment =>
    if ¬ segment.isOwnerOrCreator caller then (.error .notPermitted, m)
    else
      let segment := { segment with markedForDelete := true }
      let m := (m.setSegment shmid segment).removeKey segment.key shmid
      if segment.attachCount = 0 then (.ok (), m.removeSegment shmid segment) else (.ok (), m)

def setAttrs (m : ShmManager) (shmid : Nat) (attrs : ShmSetAttrs) (caller : ShmCaller) :
    Except ShmError Unit × ShmManager :=
  match m.segments.get? shmid with
  | none => (.error .invalid, m)
  | some segment =>
    if ¬ segment.isOwnerOrCreator caller then (.error .notPermitted, m)
    else
      (.ok (), m.setSegment shmid
        { segment with uid := attrs.uid, gid := attrs.gid, mode := attrs.mode &&& 0o777 })

def setShmmax (m : ShmManager) (value : Nat) : Bool × ShmManager :=
  if value < SHM_MIN then (false, m) else (true, { m with shmMaxLimit := value })

def setShmmni (m : ShmManager) (value : Nat) : Bool × ShmManager :=
  if value = 0 then (false, m) else (true, { m with shmmniLimit := value })

def setShmall (m : ShmManager) (value : Nat) : Bool × ShmManager :=
  (true, { m with shmallLimit := value })

def setShmNextId (m : ShmManager) (value : Int) : Bool × ShmManager :=
  if value < -1 then (false, m) else (true, { m with shmNextId := value })

/-! ## The invariant -/

/-- A live, not removal-marked, non-private segment with this key has this id. -/
def HasKey (m : ShmManager) (key : Int) (id : Nat) : Prop :=
  ∃ seg, m.segments.get? id = some seg ∧ seg.key = key ∧ seg.markedForDelete = false ∧
    key ≠ IPC_PRIVATE

/-- The table agrees with `refs`, the number of references that the rest of the kernel has
to each id. -/
structure Ok (refs : Nat → Nat) (m : ShmManager) : Prop where
  keyed : ∀ key id, m.keyedSegments.get? key = some id ↔ m.HasKey key id
  count : ∀ id seg, m.segments.get? id = some seg → seg.attachCount = refs id
  dead : ∀ id, m.segments.get? id = none → refs id = 0
  /-- A removal-marked segment that is still there has references. -/
  marked : ∀ id seg, m.segments.get? id = some seg → seg.markedForDelete = true →
    0 < seg.attachCount
  /-- A segment is only dropped with the mark and without references. -/
  gone : ∀ seg ∈ m.dropped, seg.markedForDelete = true ∧ seg.attachCount = 0
  /-- Every segment that was created is live or was dropped, and only one of the two. -/
  serials : (m.segments.entries.map (fun e => e.2.serial) ++ m.dropped.map (·.serial)).Perm
    (List.range m.created)

/-- The call left every segment that is still there with its frames. -/
def Keeps (m m' : ShmManager) : Prop :=
  ∀ id seg seg', m.segments.get? id = some seg → m'.segments.get? id = some seg' →
    seg'.pages = seg.pages

/-- The call left the frames of every segment, and every segment. -/
def SamePages (m m' : ShmManager) : Prop :=
  ∀ id, (m'.segments.get? id).map ShmSegment.pages = (m.segments.get? id).map ShmSegment.pages

/-- A live segment has the frame `ppn` at `pageIndex`. -/
def Backed (m : ShmManager) (id pageIndex ppn : Nat) : Prop :=
  ∃ seg, m.segments.get? id = some seg ∧ seg.pages[pageIndex]? = some ppn

lemma ok_new : Ok (fun _ => 0) new where
  keyed _ _ := ⟨nofun, fun ⟨_, h, _⟩ => nomatch h⟩
  count _ _ h := nomatch h
  dead _ _ := rfl
  marked _ _ h := nomatch h
  gone _ h := nomatch h
  serials := .refl _

variable {m m' : ShmManager} {refs refs' : Nat → Nat} {shmid : Nat} {seg seg' : ShmSegment}

/-! ### One segment is written -/

lemma Keeps.of_segments (h : m'.segments = m.segments) : m.Keeps m' := by
  intro id seg seg' hget hget'
  rw [h] at hget'
  rw [some.inj (hget.symm.trans hget')]

lemma SamePages.refl (m : ShmManager) : m.SamePages m := fun _ => rfl

variable {m'' : ShmManager} {id pageIndex ppn : Nat} {key : Int} {a : ShmAttach}
  {q : ShmPageMapping}

lemma SamePages.trans (h : m.SamePages m') (h' : m'.SamePages m'') : m.SamePages m'' :=
  fun id => (h' id).trans (h id)

lemma SamePages.keeps (h : m.SamePages m') : m.Keeps m' := by
  intro id seg seg' hget hget'
  have hid := h id
  rw [hget, hget'] at hid
  exact some.inj hid

lemma Backed.of_keeps (h : m.Backed id pageIndex ppn) (hkeeps : m.Keeps m')
    (hlive : m'.segments.get? id ≠ none) : m'.Backed id pageIndex ppn := by
  obtain ⟨seg, hget, hpage⟩ := h
  obtain ⟨seg', hget'⟩ := ne_none_iff_exists'.mp hlive
  exact ⟨seg', hget', hkeeps id seg seg' hget hget' ▸ hpage⟩

lemma Backed.of_samePages (h : m'.Backed id pageIndex ppn) (hsame : m.SamePages m') :
    m.Backed id pageIndex ppn := by
  obtain ⟨seg', hget', hpage⟩ := h
  have hid := hsame id
  rw [hget', map_some] at hid
  obtain ⟨seg, hget, hseg⟩ := map_eq_some_iff.mp hid.symm
  exact ⟨seg, hget, hseg ▸ hpage⟩

lemma Keeps.of_insert (h : ∀ old, m.segments.get? shmid = some old → seg.pages = old.pages)
    (hm : m'.segments = m.segments.insert shmid seg) : m.Keeps m' := by
  intro id a a' ha ha'
  rw [hm] at ha'
  rcases eq_or_ne id shmid with rfl | hne
  · rw [SortedMap.get?_insert_self] at ha'
    cases ha'
    exact h a ha
  · rw [SortedMap.get?_insert_of_ne hne] at ha'
    rw [some.inj (ha.symm.trans ha')]

lemma Keeps.of_erase (h : m.Keeps m') (hm : m''.segments = m'.segments.erase shmid) :
    m.Keeps m'' := by
  intro id a a' ha ha'
  rw [hm] at ha'
  rcases eq_or_ne id shmid with rfl | hne
  · simp [SortedMap.get?_erase_self] at ha'
  · rw [SortedMap.get?_erase_of_ne hne] at ha'
    exact h id a a' ha ha'

/-- What it takes for a segment to have a key. -/
def Keyed (seg : ShmSegment) (key : Int) : Prop :=
  seg.key = key ∧ seg.markedForDelete = false ∧ key ≠ IPC_PRIVATE

lemma Ok.indexes (h : Ok refs m) : SortedMap.Indexes Keyed m.keyedSegments m.segments := h.keyed

/-- The invariant for a table whose segments differ in one place.  The key table and the
ghosts are left to the caller. -/
lemma Ok.of_insert (h : Ok refs m) (hm : m'.segments = m.segments.insert shmid seg)
    (hcount : seg.attachCount = refs' shmid)
    (hmarked : seg.markedForDelete = true → 0 < seg.attachCount)
    (hrefs : ∀ id, id ≠ shmid → refs' id = refs id)
    (hkeyed : SortedMap.Indexes Keyed m'.keyedSegments m'.segments)
    (hgone : ∀ seg ∈ m'.dropped, seg.markedForDelete = true ∧ seg.attachCount = 0)
    (hserials : (m'.segments.entries.map (fun e => e.2.serial) ++
      m'.dropped.map (·.serial)).Perm (List.range m'.created)) : Ok refs' m' where
  keyed := hkeyed
  count id seg' hget := by
    rw [hm, SortedMap.get?_insert_eq_some] at hget
    rcases hget with ⟨rfl, rfl⟩ | ⟨hne, hget⟩
    · exact hcount
    · rw [hrefs id hne]
      exact h.count id seg' hget
  dead id hget := by
    rw [hm] at hget
    rcases eq_or_ne id shmid with rfl | hne
    · exact nomatch SortedMap.get?_insert_self.symm.trans hget
    · rw [SortedMap.get?_insert_of_ne hne] at hget
      rw [hrefs id hne]
      exact h.dead id hget
  marked id seg' hget hmark := by
    rw [hm, SortedMap.get?_insert_eq_some] at hget
    rcases hget with ⟨rfl, rfl⟩ | ⟨-, hget⟩
    · exact hmarked hmark
    · exact h.marked id seg' hget hmark
  gone := hgone
  serials := hserials

/-- Writing a segment back under its id keeps the serial numbers. -/
lemma serials_insert (hget : m.segments.get? shmid = some seg)
    (hserial : seg'.serial = seg.serial) :
    ((m.segments.insert shmid seg').entries.map fun e => e.2.serial).Perm
      (m.segments.entries.map fun e => e.2.serial) := by
  refine (SortedMap.entries_insert_perm.map _).trans ?_
  refine List.Perm.trans ?_
    ((SortedMap.entries_perm_of_mem (SortedMap.get?_eq_some_iff.mp hget)).map _).symm
  rw [map_cons, map_cons, hserial]

/-- **A segment is written back** with its key, mark and serial number. -/
theorem Ok.setSegment (h : Ok refs m) (hget : m.segments.get? shmid = some seg)
    (hkey : seg'.key = seg.key) (hmark : seg'.markedForDelete = seg.markedForDelete)
    (hserial : seg'.serial = seg.serial) (hcount : seg'.attachCount = refs' shmid)
    (hpos : seg.markedForDelete = true → 0 < refs' shmid)
    (hrefs : ∀ id, id ≠ shmid → refs' id = refs id) : Ok refs' (m.setSegment shmid seg') := by
  refine h.of_insert (show (m.setSegment shmid seg').segments = _ from rfl) hcount
    (fun hmarked => ?_) hrefs (h.indexes.replace hget fun key => ?_) h.gone ?_
  · rw [hcount]
    exact hpos (hmark ▸ hmarked)
  · rw [Keyed, Keyed, hkey, hmark]
  · exact ((serials_insert hget hserial).append_right _).trans h.serials

/-! ## Creation -/

lemma le_highestIndex (h : m.segments.get? shmid = some seg) : shmid ≤ m.highestIndex := by
  have hmem := SortedMap.get?_eq_some_iff.mp h
  unfold highestIndex
  obtain ⟨last, hlast⟩ : ∃ last, m.segments.entries.getLast? = some last := by
    rw [← isSome_iff_exists, getLast?_isSome]
    exact ne_nil_of_mem hmem
  rw [hlast, map_some, getD_some]
  -- the last entry is the one with the greatest key
  obtain ⟨front, hfront⟩ := getLast?_eq_some_iff.mp hlast
  have hsorted := m.segments.sorted
  rw [hfront] at hsorted hmem
  rcases mem_append.mp hmem with hmem | hmem
  · exact le_of_lt ((pairwise_append.mp hsorted).2.2 _ hmem last mem_cons_self)
  · rw [← mem_singleton.mp hmem]

lemma skipUsed_unused {fuel : Nat} (h : m.highestIndex < id + fuel) :
    m.segments.get? (m.skipUsed fuel id) = none := by
  induction fuel generalizing id with
  | zero =>
    cases hget : m.segments.get? id with
    | none => exact hget
    | some seg => exact absurd (le_highestIndex hget) (by omega)
  | succ fuel ih =>
    unfold skipUsed
    split
    · exact ih (by omega)
    next hnot =>
      exact not_isSome_iff_eq_none.mp hnot

/-- **The loop of `alloc_id` ends at an unused id.** -/
theorem nextUnused_unused (id : Nat) : m.segments.get? (m.nextUnused id) = none :=
  skipUsed_unused (by omega)

lemma allocId_unused : m.segments.get? m.allocId.1 = none := by
  unfold allocId
  split
  next hid =>
    obtain ⟨-, hnot⟩ := filter_eq_some_iff.mp hid
    apply not_isSome_iff_eq_none.mp
    simpa [containsId] using hnot
  · exact nextUnused_unused _

lemma allocId_snd (m : ShmManager) : ∃ n, m.allocId.2 = { m with nextId := n } := by
  unfold allocId
  split
  · exact ⟨m.nextId, rfl⟩
  · simp

lemma new_eq_some {size alignedLen serial : Nat} {mode : BitVec 32} {context : ShmCreateContext}
    {frameAlloc : Nat → Option Nat}
    (h : ShmSegment.new key size alignedLen mode context serial frameAlloc = some seg) :
    seg.key = key ∧ seg.attachCount = 0 ∧ seg.markedForDelete = false ∧ seg.serial = serial := by
  obtain ⟨pages, -, rfl⟩ := map_eq_some_iff.mp h
  simp

lemma Ok.same (h : Ok refs m) : Ok refs m ∧ m.Keeps m := ⟨h, .of_segments rfl⟩

section

variable (h : Ok refs m)
include h

/-- **A fresh segment** enters under an unused id and, if it has a key, under an unused key. -/
theorem Ok.insertSegment (hid : m.segments.get? shmid = none)
    (hkey : seg.key ≠ IPC_PRIVATE → m.keyedSegments.get? seg.key = none)
    (hcount : seg.attachCount = 0) (hmark : seg.markedForDelete = false)
    (hserial : seg.serial = m.created) : Ok refs (m.insertSegment shmid seg) := by
  have hkeyed : ∀ key, Keyed seg key ↔ key = seg.key ∧ seg.key ≠ IPC_PRIVATE := by
    intro key
    constructor
    · rintro ⟨rfl, -, hpriv⟩
      exact ⟨rfl, hpriv⟩
    · rintro ⟨rfl, hpriv⟩
      exact ⟨rfl, hmark, hpriv⟩
  refine h.of_insert (show (m.insertSegment shmid seg).segments = _ from rfl) ?_
    (fun hm => nomatch hmark.symm.trans hm) (fun _ _ => rfl)
    (h.indexes.insert_fresh hid _ hkey hkeyed) h.gone ?_
  · rw [hcount, h.dead shmid hid]
  · have hperm : (m.segments.insert shmid seg).entries.Perm
        ((shmid, seg) :: m.segments.entries) :=
      SortedMap.erase_eq_self (SortedMap.get?_eq_none_iff.mp hid) ▸ SortedMap.entries_insert_perm
    have hrange : List.range (m.insertSegment shmid seg).created =
        List.range m.created ++ [m.created] := range_succ
    rw [hrange]
    refine ((hperm.map _).append_right _).trans ?_
    rw [map_cons, cons_append, hserial]
    exact (h.serials.cons _).trans (perm_append_singleton _ _).symm

/-- The invariant reads the two tables and the ghosts only. -/
lemma Ok.of_tables (hsegs : m'.segments = m.segments)
    (hkeys : m'.keyedSegments = m.keyedSegments) (hdropped : m'.dropped = m.dropped)
    (hcreated : m'.created = m.created) : Ok refs m' := by
  obtain ⟨h1, h2, h3, h4, h5, h6⟩ := h
  constructor
  · intro key id
    rw [hkeys, h1, HasKey, HasKey, hsegs]
  · rwa [hsegs]
  · rwa [hsegs]
  · rwa [hsegs]
  · rwa [hdropped]
  · rwa [hsegs, hdropped, hcreated]

lemma Ok.createSegment
    (hkey : key ≠ IPC_PRIVATE → m.keyedSegments.get? key = none) (size : Nat) (mode : BitVec 32)
    (context : ShmCreateContext) (frameAlloc : Nat → Option Nat) :
    Ok refs (m.createSegment key size mode context frameAlloc).2 ∧
      m.Keeps (m.createSegment key size mode context frameAlloc).2 := by
  unfold ShmManager.createSegment
  split
  · exact h.same
  split
  · exact h.same
  split
  · exact h.same
  split
  · exact h.same
  obtain ⟨n, hn⟩ := m.allocId_snd
  rw [show m.allocId = (m.allocId.1, { m with nextId := n }) from Prod.ext rfl hn]
  dsimp only
  split
  · exact ⟨h.of_tables rfl rfl rfl rfl, .of_segments rfl⟩
  rename_i hnew
  obtain ⟨rfl, hcount, hmark, hserial⟩ := new_eq_some hnew
  have hok : Ok refs { m with nextId := n } := h.of_tables rfl rfl rfl rfl
  refine ⟨hok.insertSegment allocId_unused hkey hcount hmark hserial, ?_⟩
  refine .of_insert (fun old hold => ?_) rfl
  exact nomatch allocId_unused.symm.trans hold

/-- **`shmget`** moves no reference. -/
theorem Ok.getOrCreate (key : Int) (size : Nat) (shmflg : BitVec 32)
    (context : ShmCreateContext) (caller : ShmCaller) (frameAlloc : Nat → Option Nat) :
    Ok refs (m.getOrCreate key size shmflg context caller frameAlloc).2 ∧
      m.Keeps (m.getOrCreate key size shmflg context caller frameAlloc).2 := by
  unfold ShmManager.getOrCreate
  dsimp only
  split
  · exact h.same
  split
  next hpriv =>
    exact h.createSegment (fun hne => absurd hpriv hne) _ _ _ _
  split
  · split
    · exact h.same
    split
    · exact h.same
    split
    · exact h.same
    split
    · exact h.same
    · exact h.same
  next hnone =>
    split
    · exact h.same
    · exact h.createSegment (fun _ => hnone) _ _ _ _

end

/-! ## References -/

/-- The table of references with one more to `shmid`. -/
def addRef (refs : Nat → Nat) (shmid : Nat) : Nat → Nat :=
  update refs shmid (refs shmid + 1)

/-- The table of references with one less to `shmid`. -/
def dropRef (refs : Nat → Nat) (shmid : Nat) : Nat → Nat :=
  update refs shmid (refs shmid - 1)

lemma samePages_addAttachment (hget : m.segments.get? shmid = some seg) :
    m.SamePages (m.setSegment shmid { seg with attachCount := seg.attachCount + 1 }) := by
  intro id
  rcases eq_or_ne id shmid with rfl | hne
  · rw [show (m.setSegment id _).segments.get? id = some _ from SortedMap.get?_insert_self, hget]
    rfl
  · rw [show (m.setSegment shmid _).segments.get? id = m.segments.get? id from
      SortedMap.get?_insert_of_ne hne]

/-- One more attachment is written into a live segment. -/
lemma Ok.addAttachment (h : Ok refs m) (hget : m.segments.get? shmid = some seg) :
    Ok (addRef refs shmid)
      (m.setSegment shmid { seg with attachCount := seg.attachCount + 1 }) := by
  have hself : addRef refs shmid shmid = refs shmid + 1 := update_self ..
  refine h.setSegment hget rfl rfl rfl ?_ (fun _ => ?_) fun id hne => update_of_ne hne ..
  · rw [hself, ← h.count shmid seg hget]
  · omega

lemma attach_eq_ok (h : m.attach shmid = (.ok a, m')) :
    ∃ seg, m.segments.get? shmid = some seg ∧ seg.markedForDelete = false ∧
      a = ⟨shmid, seg.alignedLen, seg.pageMappings⟩ ∧
      m' = m.setSegment shmid { seg with attachCount := seg.attachCount + 1 } := by
  unfold ShmManager.attach at h
  split at h
  · cases h
  rename_i seg hget
  split at h
  · cases h
  next hmark =>
    cases h
    exact ⟨seg, hget, by simpa using hmark, rfl, rfl⟩

lemma attach_eq_error {e : ShmError} (h : m.attach shmid = (.error e, m')) : m' = m := by
  unfold ShmManager.attach at h
  split at h
  · cases h
    rfl
  · split at h
    · cases h
      rfl
    · cases h

theorem Ok.attach (h : Ok refs m) (ha : m.attach shmid = (.ok a, m')) :
    Ok (addRef refs shmid) m' ∧ m.SamePages m' := by
  obtain ⟨seg, hget, -, -, rfl⟩ := attach_eq_ok ha
  exact ⟨h.addAttachment hget, samePages_addAttachment hget⟩

lemma backed_of_mem_pageMappings (hget : m.segments.get? shmid = some seg)
    (hq : q ∈ seg.pageMappings) : m.Backed shmid q.pageIndex q.ppn := by
  obtain ⟨⟨ppn, idx⟩, hmem, rfl⟩ := mem_map.mp hq
  exact ⟨seg, hget, mem_zipIdx_iff_getElem?.mp hmem⟩

lemma backed_of_mem_attach (ha : m.attach shmid = (.ok a, m')) (hq : q ∈ a.pages) :
    m.Backed a.shmid q.pageIndex q.ppn := by
  obtain ⟨seg, hget, -, rfl, -⟩ := attach_eq_ok ha
  exact backed_of_mem_pageMappings hget hq

lemma backed_of_mem_attachedSegmentPages (hq : q ∈ m.attachedSegmentPages shmid) :
    m.Backed shmid q.pageIndex q.ppn := by
  unfold attachedSegmentPages at hq
  cases hget : m.segments.get? shmid with
  | none =>
    simp [hget] at hq
  | some seg =>
    rw [hget] at hq
    exact backed_of_mem_pageMappings hget hq

lemma retainAttached_of_get? (h : m.segments.get? shmid = some seg) : m.retainAttached shmid =
      (true, m.setSegment shmid { seg with attachCount := seg.attachCount + 1 }) := by
  unfold retainAttached
  rw [h]

/-- **Retain** takes one reference to a segment that has one. -/
theorem Ok.retainAttached (h : Ok refs m) (shmid : Nat) (hpos : 0 < refs shmid) :
    (m.retainAttached shmid).1 = true ∧ Ok (addRef refs shmid) (m.retainAttached shmid).2 ∧
      m.SamePages (m.retainAttached shmid).2 := by
  cases hget : m.segments.get? shmid with
  | none => exact absurd (h.dead shmid hget) (by omega)
  | some seg =>
    rw [retainAttached_of_get? hget]
    exact ⟨rfl, h.addAttachment hget, samePages_addAttachment hget⟩

/-! ## Removal -/

@[simp] lemma removeKeyIfCurrent_segments (key : Int) :
    (m.removeKeyIfCurrent key shmid).segments = m.segments := by
  unfold removeKeyIfCurrent
  split <;> rfl

@[simp] lemma removeKey_segments (key : Int) : (m.removeKey key shmid).segments = m.segments := by
  unfold removeKey
  split
  · simp
  · rfl

@[simp] lemma removeKey_dropped (key : Int) : (m.removeKey key shmid).dropped = m.dropped := by
  unfold removeKey removeKeyIfCurrent
  split
  · split <;> rfl
  · rfl

@[simp] lemma removeKey_created (key : Int) : (m.removeKey key shmid).created = m.created := by
  unfold removeKey removeKeyIfCurrent
  split
  · split <;> rfl
  · rfl

section

variable (h : Ok refs m)
include h

/-- **A segment is dropped**, marked and without references, and no key leads to it. -/
theorem Ok.of_remove (hget : m.segments.get? shmid = some seg)
    (hsegs : m'.segments = (m.segments.insert shmid seg').erase shmid)
    (hkeyed : ∀ key id, m'.keyedSegments.get? key = some id ↔
      m.keyedSegments.get? key = some id ∧ id ≠ shmid)
    (hdropped : m'.dropped = m.dropped ++ [seg']) (hcreated : m'.created = m.created)
    (hmark : seg'.markedForDelete = true) (hcount : seg'.attachCount = 0)
    (hserial : seg'.serial = seg.serial) (hzero : refs' shmid = 0)
    (hrefs : ∀ id, id ≠ shmid → refs' id = refs id) : Ok refs' m' := by
  have hother : ∀ id, id ≠ shmid → m'.segments.get? id = m.segments.get? id := by
    intro id hne
    rw [hsegs, SortedMap.get?_erase_of_ne hne, SortedMap.get?_insert_of_ne hne]
  have hlive (id : Nat) (old : ShmSegment) :
      m'.segments.get? id = some old ↔ id ≠ shmid ∧ m.segments.get? id = some old := by
    rw [hsegs, SortedMap.get?_erase_eq_some]
    exact and_congr_right fun hne => by rw [SortedMap.get?_insert_of_ne hne]
  refine ⟨h.indexes.erase hlive hkeyed, fun id old hold => ?_, fun id hnone => ?_,
    fun id old hold => h.marked id old ((hlive id old).mp hold).2, ?_, ?_⟩
  · obtain ⟨hne, hold⟩ := (hlive id old).mp hold
    rw [hrefs id hne]
    exact h.count id old hold
  · rcases eq_or_ne id shmid with rfl | hne
    · exact hzero
    · rw [hrefs id hne]
      exact h.dead id ((hother id hne).symm.trans hnone)
  · intro old hold
    rw [hdropped] at hold
    rcases mem_append.mp hold with hold | hold
    · exact h.gone old hold
    · rw [mem_singleton.mp hold]
      exact ⟨hmark, hcount⟩
  · rw [hsegs, hdropped, hcreated, map_append]
    refine List.Perm.trans ?_ h.serials
    refine ((SortedMap.entries_erase_insert_perm.map _).append_right _).trans ?_
    have hperm := (SortedMap.entries_perm_of_mem (SortedMap.get?_eq_some_iff.mp hget)).map
      fun e => e.2.serial
    refine List.Perm.trans ?_ (hperm.append_right _).symm
    simp only [map_cons, map_nil, hserial, cons_append]
    rw [← append_assoc]
    exact perm_append_singleton _ _

/-- After `remove_key_if_current` no key leads to the segment. -/
lemma Ok.removeKey (hget : m.segments.get? shmid = some seg)
    (hm : m'.keyedSegments = m.keyedSegments) (key : Int) (id : Nat) :
    (m'.removeKey seg.key shmid).keyedSegments.get? key = some id ↔
      m.keyedSegments.get? key = some id ∧ id ≠ shmid := by
  have hown {key : Int} (hk : m.keyedSegments.get? key = some shmid) : Keyed seg key :=
    (h.indexes.get? hget).mp hk
  -- a table without the entry has no key of the segment
  have hnone (hcur : Keyed seg seg.key → m.keyedSegments.get? seg.key ≠ some shmid) :
      m.keyedSegments.get? key = some id ↔ m.keyedSegments.get? key = some id ∧ id ≠ shmid := by
    refine h.indexes.keyless hget (fun key' hk => ?_) key id
    obtain rfl : seg.key = key' := hk.1
    exact hcur hk ((h.indexes.get? hget).mpr hk)
  unfold ShmManager.removeKey removeKeyIfCurrent
  split
  · split
    next hcur =>
      rw [hm] at hcur
      rw [hm]
      exact h.indexes.erase_key hget (hown hcur) (fun _ hk => hk.1.symm) key id
    next hcur =>
      rw [hm] at hcur ⊢
      exact hnone fun _ => hcur
  next hpriv =>
    rw [hm]
    exact hnone fun hk => absurd hk.2.2 hpriv

/-- **Detach** gives one reference back, and drops the segment with the last one if it is
marked. -/
theorem Ok.detach (shmid : Nat) (hpos : 0 < refs shmid) :
    Ok (dropRef refs shmid) (m.detach shmid).2 ∧ m.Keeps (m.detach shmid).2 := by
  have hself : dropRef refs shmid shmid = refs shmid - 1 := update_self ..
  have hother : ∀ id, id ≠ shmid → dropRef refs shmid id = refs id :=
    fun id hne => update_of_ne hne ..
  rcases hget : m.segments.get? shmid with _ | seg
  · exact absurd (h.dead shmid hget) (by omega)
  have hcount := h.count shmid seg hget
  have hkeeps : m.Keeps (m.setSegment shmid { seg with attachCount := seg.attachCount - 1 }) :=
    .of_insert (fun old hold => by rw [some.inj (hget.symm.trans hold)]) rfl
  unfold ShmManager.detach
  rw [hget]
  dsimp only
  split
  next hlast =>
    refine ⟨?_, hkeeps.of_erase (removeKey_segments _)⟩
    refine h.of_remove hget (removeKey_segments _) (h.removeKey hget rfl) (removeKey_dropped _)
      (removeKey_created _) hlast.2 hlast.1 rfl ?_ hother
    omega
  next hkeep =>
    refine ⟨h.setSegment hget rfl rfl rfl ?_ (fun hmark => ?_) hother, hkeeps⟩
    · rw [hself, hcount]
    · rw [hself, ← hcount]
      exact pos_of_ne_zero fun hzero => hkeep ⟨hzero, hmark⟩

/-- **`IPC_RMID`** moves no reference: it drops a segment without references and marks any
other one. -/
theorem Ok.markForDelete (shmid : Nat) (caller : ShmCaller) :
    Ok refs (m.markForDelete shmid caller).2 ∧ m.Keeps (m.markForDelete shmid caller).2 := by
  unfold ShmManager.markForDelete
  split
  · exact h.same
  rename_i seg hget
  split
  · exact h.same
  have hcount := h.count shmid seg hget
  have hkeeps : m.Keeps (m.setSegment shmid { seg with markedForDelete := true }) :=
    .of_insert (fun old hold => by rw [some.inj (hget.symm.trans hold)]) rfl
  dsimp only
  split
  next hzero =>
    refine ⟨?_, hkeeps.of_erase (congrArg (SortedMap.erase · shmid) (removeKey_segments _))⟩
    refine h.of_remove hget (congrArg (SortedMap.erase · shmid) (removeKey_segments _))
      (h.removeKey hget rfl) (congrArg (· ++ _) (removeKey_dropped _)) (removeKey_created _) rfl
      hzero rfl ?_ fun _ _ => rfl
    omega
  next hpos =>
    have hsegs : ((m.setSegment shmid { seg with markedForDelete := true }).removeKey seg.key
        shmid).segments = m.segments.insert shmid { seg with markedForDelete := true } :=
      removeKey_segments _
    refine ⟨h.of_insert hsegs hcount (fun _ => pos_of_ne_zero hpos) (fun _ _ => rfl) ?_ ?_ ?_,
      .of_insert (fun old hold => ?_) hsegs⟩
    · rw [hsegs]
      refine h.indexes.insert fun key id => (h.removeKey hget (by rfl) key id).trans ?_
      -- the mark takes the segment out of the key table
      have hno : ¬ Keyed { seg with markedForDelete := true } key := fun hk => nomatch hk.2.1
      rw [and_comm, or_iff_right fun hk => hno hk.2]
    · rw [removeKey_dropped]
      exact h.gone
    · rw [hsegs, removeKey_dropped, removeKey_created]
      refine ((serials_insert hget ?_).append_right _).trans h.serials
      rfl
    · rw [some.inj (hget.symm.trans hold)]

/-- **`IPC_SET`** changes the owner and the mode only. -/
theorem Ok.setAttrs (shmid : Nat) (attrs : ShmSetAttrs) (caller : ShmCaller) :
    Ok refs (m.setAttrs shmid attrs caller).2 ∧ m.Keeps (m.setAttrs shmid attrs caller).2 := by
  unfold ShmManager.setAttrs
  split
  · exact h.same
  rename_i seg hget
  split
  · exact h.same
  refine ⟨h.setSegment hget rfl rfl rfl (h.count shmid seg hget) (fun hmark => ?_)
    fun _ _ => rfl, .of_insert (fun old hold => ?_) rfl⟩
  · rw [← h.count shmid seg hget]
    exact h.marked shmid seg hget hmark
  · rw [some.inj (hget.symm.trans hold)]

end

end ShmManager

end Whusp.Mm
