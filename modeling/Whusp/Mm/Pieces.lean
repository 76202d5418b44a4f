import Mathlib.Data.List.Perm.Basic
import Whusp.Mm.MemorySet

/-!
# Mapped pieces

The areas of an address space with what they hold of a shared object: a piece of a System V
segment or of a mapped file (`mm/area.rs`, `mm/user_space.rs`).  The list operations are those
of `Mm.MemorySet`, at the level of page numbers, with the two things that the owners of shared
objects see of them: the right halves that `split_off` makes and the areas that are removed.

Searches are the ones of `Mm.MemorySet`, on the ranges of the pieces.
-/

namespace Whusp.Mm.Pieces

open List

open Whusp.Lib (insertAt eq_of_getElem? set_eq_of_getElem? insertAt_set)

/-! ## Pieces -/

/-- A page of a segment in a piece, with the frame that `map_shm_frame` entered for it. -/
structure ShmPage where
  vpn : Nat
  pageIndex : Nat
  ppn : Nat

structure ShmAreaInfo where
  shmid : Nat
  len : Nat
  offset : Nat
  pages : List ShmPage

/-- An open file that backs a mapping: the memfd behind it, if it is one, and the access mode
of the description. -/
structure MappedFile where
  memfd : Option Nat
  writable : Bool

structure MmapInfo where
  shared : Bool
  writable : Bool
  growDown : Bool
  backingFile : Option MappedFile

/-- What an area is: one with `mmap_info`, one with `shm_info`, or neither. -/
inductive Kind where
  | mmap (info : MmapInfo)
  | shm (info : ShmAreaInfo)
  | framed

structure Piece where
  vpnRange : VpnRange
  mapPerm : MapPermission
  kind : Kind

namespace Kind

def isMmap : Kind → Bool
  | .mmap _ => true
  | .shm _ | .framed => false

def isShm : Kind → Bool
  | .shm _ => true
  | .mmap _ | .framed => false

def shmSegmentId : Kind → Option Nat
  | .shm info => some info.shmid
  | .mmap _ | .framed => none

end Kind

/-- `ShmAreaInfo::split_off`: the left and the right half. -/
def ShmAreaInfo.splitOff (i : ShmAreaInfo) (offset at_ : Nat) : ShmAreaInfo × ShmAreaInfo :=
  ({ i with
      len := min i.len offset
      pages := i.pages.filter fun p => decide (p.vpn < at_) },
    { i with
      len := i.len - offset
      offset := i.offset + offset
      pages := i.pages.filter fun p => decide (at_ ≤ p.vpn) })

def Kind.splitOff (offset at_ : Nat) : Kind → Kind × Kind
  | .mmap info => (.mmap info, .mmap info)
  | .shm info => (.shm (info.splitOff offset at_).1, .shm (info.splitOff offset at_).2)
  | .framed => (.framed, .framed)

namespace Piece

def start (a : Piece) : Nat := a.vpnRange.start
def stop (a : Piece) : Nat := a.vpnRange.stop

/-- The area as the searches see it. -/
def area (a : Piece) : MapArea where
  vpnRange := a.vpnRange
  mapPerm := a.mapPerm
  mmapInfo :=
    match a.kind with
    | .mmap info =>
      some ⟨info.shared, info.growDown, info.backingFile.map fun f => ⟨f.writable, false⟩⟩
    | .shm _ | .framed => none
  isShm := a.kind.isShm

/-- The left and the right half. -/
def splitOff (a : Piece) (at_ : Nat) : Option (Piece × Piece) :=
  if h : a.start < at_ ∧ at_ < a.stop then
    let (left, right) := a.kind.splitOff ((at_ - a.start) * PAGE_SIZE) at_
    some
      ({ a with vpnRange := ⟨a.start, at_, h.1.le, h.2.trans a.vpnRange.lt⟩, kind := left },
        { a with vpnRange := ⟨at_, a.stop, h.2.le, a.vpnRange.lt⟩, kind := right })
  else none

end Piece

/-- The area list and its cached index. -/
structure Space where
  areas : List Piece
  lastAreaIdxContaining : Option Nat

/-- What an operation on an area list did: the list it leaves, the right halves it split off,
and the areas it removed. -/
structure Edit where
  space : Space
  halves : List Piece
  removed : List Piece

/-- Two operations, one after the other. -/
def Edit.andThen (e : Edit) (f : Space → Edit) : Edit where
  space := (f e.space).space
  halves := e.halves ++ (f e.space).halves
  removed := e.removed ++ (f e.space).removed

/-! ## Operations -/

namespace Space

def empty : Space := ⟨[], none⟩

/-- The list as the searches see it; they do not read the break or the mmap hint. -/
def set (s : Space) : MemorySet where
  areas := s.areas.map Piece.area
  lastAreaIdxContaining := s.lastAreaIdxContaining
  brkBase := 0
  brk := 0
  brkLimit := 0
  brkMappedEnd := 0
  mmapNext := 0

def keep (s : Space) : Edit := ⟨s, [], []⟩

def insertAreaSorted (s : Space) (a : Piece) : Space where
  areas := insertAt s.areas (s.set.areaInsertIndex a.start) a
  lastAreaIdxContaining := none

def splitAreaAt (s : Space) (at_ : Nat) : Edit :=
  let (idx?, set) := s.set.findAreaIdxContaining at_
  let s := { s with lastAreaIdxContaining := set.lastAreaIdxContaining }
  match idx?.bind fun idx => (s.areas[idx]?.bind fun a => a.splitOff at_).map (idx, ·) with
  | none => s.keep
  | some (idx, left, right) =>
    ⟨{ s with areas := insertAt (s.areas.set idx left) (idx + 1) right }, [right], []⟩

def splitRange (s : Space) (startVpn endVpn : Nat) : Edit :=
  (s.splitAreaAt startVpn).andThen fun s => s.splitAreaAt endVpn

/-- A `while` loop that removes areas from the list it walks: it stops at the first area with
`done` and removes those with `drop`.  The areas that stay and the ones that go. -/
def removeScan (done drop : Piece → Bool) : List Piece → List Piece × List Piece
  | [] => ([], [])
  | a :: rest =>
    if done a then (a :: rest, [])
    else
      let (kept, removed) := removeScan done drop rest
      if drop a then (kept, a :: removed) else (a :: kept, removed)

def removeFrom (s : Space) (idx : Nat) (done drop : Piece → Bool) : Edit :=
  let (kept, removed) := removeScan done drop (s.areas.drop idx)
  ⟨{ s with areas := s.areas.take idx ++ kept }, [], removed⟩

/-- The edit of `munmap_area`: it removes mmap areas only. -/
def munmapArea (s : Space) (startVpn endVpn : Nat) : Edit :=
  (s.splitRange startVpn endVpn).andThen fun s =>
    s.removeFrom (s.set.firstAreaIdxEndingAfter startVpn) (fun a => decide (endVpn ≤ a.start))
      fun a => a.kind.isMmap && decide (startVpn ≤ a.start) && decide (a.stop ≤ endVpn)

/-- The edit of `mmap_fixed_area` before the new area is inserted: it removes any area. -/
def clearRange (s : Space) (startVpn endVpn : Nat) : Edit :=
  (s.splitRange startVpn endVpn).andThen fun s =>
    s.removeFrom (s.set.firstAreaIdxEndingAfter startVpn) (fun a => decide (endVpn ≤ a.start))
      fun a => decide (a.start < endVpn) && decide (startVpn < a.stop)

/-- It removes areas that are neither. -/
def shrinkBrkAreas (s : Space) (heapStartVpn newEndVpn oldEndVpn : Nat) : Edit :=
  (s.splitRange newEndVpn oldEndVpn).andThen fun s =>
    s.removeFrom 0 (fun _ => false) fun a =>
      !a.kind.isMmap && !a.kind.isShm && decide (heapStartVpn ≤ a.start) &&
        decide (newEndVpn ≤ a.start) && decide (a.stop ≤ oldEndVpn)

/-- `self.areas.remove(idx)`. -/
def removeIdx (s : Space) (idx : Nat) : Edit :=
  match s.areas[idx]? with
  | none => s.keep
  | some a => ⟨{ s with areas := s.areas.eraseIdx idx }, [], [a]⟩

/-- `detach_shm_area`, with the number of the page it is called for. -/
def detachShmArea (s : Space) (startVpn : Nat) : Option Edit :=
  (s.areas.findIdx? fun a => a.kind.isShm && a.start == startVpn).map s.removeIdx

def removeAreaWithStartVpn (s : Space) (startVpn : Nat) : Option Edit :=
  (s.set.findAreaIdxByStart startVpn).map fun idx =>
    let e := s.removeIdx idx
    { e with space := { e.space with lastAreaIdxContaining := none } }

/-- `can_mprotect_write`; `blocks` is the answer of `blocks_shared_writable_mmap`. -/
def canMprotectWrite (s : Space) (blocks : MappedFile → Bool) (startVpn endVpn : Nat) : Bool :=
  let (startIdx, endIdx) := s.set.overlapAreaIdxBounds startVpn endVpn
  ((s.areas.take endIdx).drop startIdx).all fun a =>
    if a.start < endVpn ∧ startVpn < a.stop then
      match a.kind with
      | .mmap info =>
        !info.shared || !info.backingFile.any fun file => !file.writable || blocks file
      | .shm _ | .framed => true
    else true

/-- What `remap_permission` answers for an area: it failed at a resident frame, it failed at
a page-cache page, or it succeeded.  It has written `info.writable` in the last two. -/
inductive Remap where
  | failed
  | failedLate
  | done
  deriving DecidableEq

def Kind.setWritable (writable : Bool) : Kind → Kind
  | .mmap info => .mmap { info with writable }
  | .shm info => .shm info
  | .framed => .framed

def remapPermission (perm : MapPermission) (a : Piece) : Remap → Piece
  | .failed => a
  | .failedLate => { a with kind := Kind.setWritable perm.w a.kind }
  | .done => { a with mapPerm := perm, kind := Kind.setWritable perm.w a.kind }

/-- The loop of `mprotect_area` over the areas of the range; it stops at the first failure. -/
def remapLoop (startVpn endVpn : Nat) (perm : MapPermission) (remap : Piece → Remap) :
    List Piece → List Piece
  | [] => []
  | a :: rest =>
    if startVpn ≤ a.start ∧ a.stop ≤ endVpn then
      if remap a = .done then
        remapPermission perm a .done :: remapLoop startVpn endVpn perm remap rest
      else remapPermission perm a (remap a) :: rest
    else a :: remapLoop startVpn endVpn perm remap rest

/-- The last part of `mprotect_area`. -/
def remapRange (s : Space) (startVpn endVpn : Nat) (perm : MapPermission)
    (remap : Piece → Remap) : Space :=
  let (startIdx, endIdx) := s.set.overlapAreaIdxBounds startVpn endVpn
  { s with areas := s.areas.take startIdx ++
      (remapLoop startVpn endVpn perm remap ((s.areas.take endIdx).drop startIdx) ++
        s.areas.drop endIdx) }

def mprotectArea (s : Space) (blocks : MappedFile → Bool) (startVpn endVpn : Nat)
    (perm : MapPermission) (remap : Piece → Remap) : Edit :=
  if ¬ s.set.rangeIsMappedVpn startVpn endVpn then s.keep
  else if perm.w && !s.canMprotectWrite blocks startVpn endVpn then s.keep
  else
    let e := s.splitRange startVpn endVpn
    { e with space := e.space.remapRange startVpn endVpn perm remap }

/-- An area changes its range: the end of a growing `mremap`, the growth of the heap. -/
def setRange (s : Space) (idx : Nat) (range : VpnRange) : Space :=
  match s.areas[idx]? with
  | none => s
  | some a => { s with areas := s.areas.set idx { a with vpnRange := range } }

/-- The growing branch of `mremap_area`. -/
def mremapGrow (s : Space) (oldStartVpn oldEndVpn newEndVpn : Nat) : Option Edit :=
  let e := s.splitRange oldStartVpn oldEndVpn
  match (e.space.set.findAreaIdxByStart oldStartVpn).filter fun idx =>
    e.space.areas[idx]?.any fun a => a.stop == oldEndVpn with
  | none => some e
  | some idx =>
    (VpnRange.new? oldStartVpn newEndVpn).map fun range =>
      { e with space := { e.space.setRange idx range with lastAreaIdxContaining := none } }

/-- `mremap_area` for a mapped range: a shrink unmaps the tail, a growth happens in place. -/
def mremapArea (s : Space) (oldStartVpn oldEndVpn newEndVpn : Nat) : Option Edit :=
  if ¬ s.set.rangeIsMappedVpn oldStartVpn oldEndVpn then some s.keep
  else if newEndVpn = oldEndVpn then some s.keep
  else if newEndVpn < oldEndVpn then some (s.munmapArea newEndVpn oldEndVpn)
  else s.mremapGrow oldStartVpn oldEndVpn newEndVpn

/-- Exit, and the drop of a whole `MemorySet`. -/
def removeAll (s : Space) : Edit := ⟨empty, [], s.areas⟩

end Space

/-! ## Balance -/

section Balance

variable {γ : Type} {g : Kind → γ}

/-- What the pieces hold, by a function `g` of their kind. -/
def held (g : Kind → γ) (as : List Piece) : List γ := as.map fun a => g a.kind

@[simp] lemma held_append (as bs : List Piece) : held g (as ++ bs) = held g as ++ held g bs :=
  map_append

@[simp] lemma held_cons (a : Piece) (as : List Piece) :
    held g (a :: as) = g a.kind :: held g as := rfl

@[simp] lemma held_nil : held g [] = [] := rfl

variable {as : List Piece} {a left right : Piece} {at_ : Nat}

/-- What a list holds is what the kinds of its areas show. -/
lemma mem_held {c : γ} : c ∈ held g as ↔ ∃ a ∈ as, g a.kind = c :=
  mem_map

/-- Both halves of a split hold what the whole held. -/
def Splits (g : Kind → γ) : Prop :=
  ∀ offset at_ k, g (k.splitOff offset at_).1 = g k ∧ g (k.splitOff offset at_).2 = g k

/-- Both parts of a split attachment name the segment. -/
lemma splits_shmSegmentId : Splits Kind.shmSegmentId := by
  intro offset at_ k
  cases k with
  | mmap | shm | framed => exact ⟨rfl, rfl⟩

/-- **Balance**: what is held after an operation and by the areas it removed is what was held
before it and by the halves it made, and each half is of something that was there. -/
structure Edit.Balanced (g : Kind → γ) (before : List Piece) (e : Edit) : Prop where
  perm : (held g e.space.areas ++ held g e.removed).Perm (held g before ++ held g e.halves)
  halves : ∀ c ∈ held g e.halves, c ∈ held g before

/-- A page of the segment `shmid` that a piece has mapped. -/
def Maps (as : List Piece) (shmid : Nat) (p : ShmPage) : Prop :=
  ∃ a ∈ as, ∃ info, a.kind = .shm info ∧ info.shmid = shmid ∧ p ∈ info.pages

/-- No page of a segment is mapped that was not mapped before. -/
def PagesFrom (before after : List Piece) : Prop :=
  ∀ shmid p, Maps after shmid p → Maps before shmid p

lemma PagesFrom.of_subset {before after : List Piece} (h : ∀ a ∈ after, a ∈ before) :
    PagesFrom before after := by
  rintro shmid p ⟨a, ha, hrest⟩
  exact ⟨a, h a ha, hrest⟩

/-- Two edits in a row map no new page of a segment. -/
lemma PagesFrom.trans {bs cs : List Piece} (h : PagesFrom as bs) (h' : PagesFrom bs cs) :
    PagesFrom as cs :=
  fun shmid p hp => h shmid p (h' shmid p hp)

namespace Edit.Balanced

variable {before : List Piece} {e : Edit}
variable {s : Space}

lemma of_areas (h : held g s.areas = held g before) : Balanced g before s.keep where
  perm := by
    show (held g s.areas ++ []).Perm (held g before ++ [])
    rw [h]
  halves _ hc := nomatch hc

/-- A later step that changes nothing that is held. -/
lemma withSpace (h : e.Balanced g before) (hheld : held g s.areas = held g e.space.areas) :
    Balanced g before { e with space := s } where
  perm := by
    rw [hheld]
    exact h.perm
  halves := h.halves

/-- One edit after another: what is taken out adds up. -/
theorem andThen [DecidableEq γ] (h : e.Balanced g before) {f : Space → Edit}
    (hf : (f e.space).Balanced g e.space.areas) : (e.andThen f).Balanced g before where
  perm := by
    rw [perm_iff_count]
    intro c
    have h1 := h.perm.count_eq c
    have h2 := hf.perm.count_eq c
    simp only [Edit.andThen, held_append, count_append] at h1 h2 ⊢
    omega
  halves c hc := by
    simp only [Edit.andThen, held_append, mem_append] at hc
    rcases hc with hc | hc
    · exact h.halves c hc
    -- a half of the second operation is of a piece that the first one left
    have hmem := h.perm.subset (mem_append_left _ (hf.halves c hc))
    rcases mem_append.mp hmem with hmem | hmem
    · exact hmem
    · exact h.halves c hmem

end Edit.Balanced

/-! ### The operations -/

namespace Space

variable {s : Space}

/-- A new area adds what it holds, wherever it is inserted. -/
lemma held_insertAreaSorted (a : Piece) :
    (held g (s.insertAreaSorted a).areas).Perm (g a.kind :: held g s.areas) := by
  show (held g (insertAt s.areas _ a)).Perm _
  unfold insertAt
  rw [held_append, held_cons]
  refine perm_middle.trans (List.Perm.cons _ ?_)
  rw [← held_append, take_append_drop]

lemma mem_insertAreaSorted {b : Piece} : b ∈ (s.insertAreaSorted a).areas ↔ b = a ∨ b ∈ s.areas :=
  Whusp.Lib.mem_insertAt

/-- What a split does: nothing, or one area becomes two. -/
lemma splitAreaAt_cases (s : Space) (at_ : Nat) :
    (∃ c, s.splitAreaAt at_ = ({ s with lastAreaIdxContaining := c } : Space).keep) ∨
    ∃ c idx a left right, s.areas[idx]? = some a ∧ a.splitOff at_ = some (left, right) ∧
      s.splitAreaAt at_ = ⟨⟨s.areas.take idx ++ left :: right :: s.areas.drop (idx + 1), c⟩,
        [right], []⟩ := by
  unfold splitAreaAt
  dsimp only
  split
  · exact .inl ⟨_, rfl⟩
  rename_i idx left right hsplit
  obtain ⟨idx', -, hmap⟩ := Option.bind_eq_some_iff.mp hsplit
  obtain ⟨⟨l, r⟩, hbind, ⟨⟩⟩ := Option.map_eq_some_iff.mp hmap
  obtain ⟨a, ha, hoff⟩ := Option.bind_eq_some_iff.mp hbind
  refine .inr ⟨(s.set.findAreaIdxContaining at_).2.lastAreaIdxContaining, idx, a, left, right,
    ha, hoff, ?_⟩
  rw [insertAt_set ha]

end Space

/-- The two parts share the cut and cover the area between them. -/
lemma Piece.splitOff_eq_some (h : a.splitOff at_ = some (left, right)) :
    ((a.start < at_ ∧ at_ < a.stop) ∧ (left.start = a.start ∧ left.stop = at_) ∧
      right.start = at_ ∧ right.stop = a.stop) ∧
    ∃ offset, left.kind = (a.kind.splitOff offset at_).1 ∧
      right.kind = (a.kind.splitOff offset at_).2 := by
  unfold Piece.splitOff at h
  split at h
  next hin =>
    cases h
    exact ⟨⟨hin, ⟨rfl, rfl⟩, rfl, rfl⟩, _, rfl, rfl⟩
  · cases h

lemma Piece.maps_splitOff {b : Piece} (h : a.splitOff at_ = some (left, right))
    (hb : b = left ∨ b = right) : PagesFrom [a] [b] := by
  obtain ⟨-, offset, hleft, hright⟩ := Piece.splitOff_eq_some h
  rintro shmid p ⟨c, hc, info, hkind, hid, hp⟩
  obtain rfl := mem_singleton.mp hc
  -- the piece was one of a segment too
  cases hk : a.kind with
  | mmap | framed =>
    rw [hk] at hleft hright
    rcases hb with rfl | rfl
    · exact nomatch hkind.symm.trans hleft
    · exact nomatch hkind.symm.trans hright
  | shm i =>
    rw [hk] at hleft hright
    refine ⟨a, mem_singleton_self a, i, hk, ?_⟩
    rcases hb with rfl | rfl
    · cases Kind.shm.inj (hkind.symm.trans hleft)
      exact ⟨hid, mem_of_mem_filter hp⟩
    · cases Kind.shm.inj (hkind.symm.trans hright)
      exact ⟨hid, mem_of_mem_filter hp⟩

namespace Space

variable {s : Space}

/-- A split takes nothing out. -/
theorem balanced_splitAreaAt (hg : Splits g) (s : Space) (at_ : Nat) :
    (s.splitAreaAt at_).Balanced g s.areas := by
  rcases s.splitAreaAt_cases at_ with ⟨c, heq⟩ | ⟨c, idx, a, left, right, ha, hoff, heq⟩
  · rw [heq]
    exact .of_areas rfl
  rw [heq]
  obtain ⟨-, offset, hleft, hright⟩ := Piece.splitOff_eq_some hoff
  have hl : g left.kind = g a.kind := hleft ▸ (hg offset at_ a.kind).1
  have hr : g right.kind = g a.kind := hright ▸ (hg offset at_ a.kind).2
  have hs : held g s.areas =
      held g (s.areas.take idx) ++ g a.kind :: held g (s.areas.drop (idx + 1)) := by
    rw [← held_cons, ← held_append, ← eq_of_getElem? ha]
  constructor
  · simp only [held_append, held_cons, held_nil, hl, hr, append_nil, hs]
    exact perm_middle.trans (perm_append_singleton _ _).symm
  · intro c hc
    rw [held_cons, held_nil, mem_singleton] at hc
    rw [hc, hr]
    exact mem_held.mpr ⟨a, mem_of_getElem? ha, rfl⟩

lemma pagesFrom_splitAreaAt (s : Space) (at_ : Nat) :
    PagesFrom s.areas (s.splitAreaAt at_).space.areas := by
  rcases s.splitAreaAt_cases at_ with ⟨c, heq⟩ | ⟨c, idx, a, left, right, ha, hoff, heq⟩
  · rw [heq]
    exact .of_subset fun _ h => h
  rw [heq]
  rintro shmid p ⟨b, hb, hmaps⟩
  have hcases : (b = left ∨ b = right) ∨ b ∈ s.areas := by
    rcases mem_append.mp hb with hb | hb
    · exact .inr (mem_of_mem_take hb)
    rcases mem_cons.mp hb with hb | hb
    · exact .inl (.inl hb)
    rcases mem_cons.mp hb with hb | hb
    · exact .inl (.inr hb)
    · exact .inr (mem_of_mem_drop hb)
  rcases hcases with hb | hb
  · obtain ⟨a', ha', hrest⟩ :=
      Piece.maps_splitOff hoff hb shmid p ⟨b, mem_singleton_self b, hmaps⟩
    rw [mem_singleton.mp ha'] at hrest
    exact ⟨a, mem_of_getElem? ha, hrest⟩
  · exact ⟨b, hb, hmaps⟩

lemma balanced_splitRange [DecidableEq γ] (hg : Splits g) (s : Space) (lo hi : Nat) :
    (s.splitRange lo hi).Balanced g s.areas :=
  (balanced_splitAreaAt hg s lo).andThen (balanced_splitAreaAt hg _ hi)

lemma pagesFrom_splitRange (s : Space) (lo hi : Nat) :
    PagesFrom s.areas (s.splitRange lo hi).space.areas :=
  (pagesFrom_splitAreaAt s lo).trans (pagesFrom_splitAreaAt _ hi)

/-- A removal scan keeps an area or returns it. -/
lemma removeScan_perm (done drop : Piece → Bool) (as : List Piece) :
    ((removeScan done drop as).1 ++ (removeScan done drop as).2).Perm as := by
  induction as with
  | nil => exact .refl _
  | cons a rest ih =>
    unfold removeScan
    split
    · rw [append_nil]
    dsimp only
    split
    · exact perm_middle.trans (ih.cons a)
    · exact ih.cons a

variable {as : List Piece} {hi lo : Nat} {perm : MapPermission} {remap : Piece → Remap}

section

variable (s : Space) (idx : Nat)

/-- A removal returns exactly what it takes out. -/
lemma balanced_removeFrom (done drop : Piece → Bool) :
    (s.removeFrom idx done drop).Balanced g s.areas where
  perm := by
    show (held g (_ ++ _) ++ held g _).Perm (_ ++ [])
    have hperm := (removeScan_perm done drop (s.areas.drop idx)).map fun a => g a.kind
    rw [map_append] at hperm
    rw [held_append, append_assoc, append_nil]
    refine (hperm.append_left _).trans ?_
    rw [show List.map (fun a => g a.kind) (s.areas.drop idx) = held g (s.areas.drop idx) from rfl,
      ← held_append, take_append_drop]
  halves _ hc := nomatch hc

lemma pagesFrom_removeFrom (done drop : Piece → Bool) :
    PagesFrom s.areas (s.removeFrom idx done drop).space.areas := by
  apply PagesFrom.of_subset
  intro a ha
  rcases mem_append.mp ha with ha | ha
  · exact mem_of_mem_take ha
  · exact mem_of_mem_drop
      ((removeScan_perm done drop (s.areas.drop idx)).subset (mem_append_left _ ha))

lemma balanced_removeIdx : (s.removeIdx idx).Balanced g s.areas := by
  unfold removeIdx
  split
  · exact .of_areas rfl
  rename_i a ha
  refine ⟨?_, fun _ hc => nomatch hc⟩
  show (held g (s.areas.eraseIdx idx) ++ [g a.kind]).Perm (held g s.areas ++ [])
  rw [append_nil]
  refine perm_append_singleton _ _ |>.trans ?_
  obtain ⟨hlt, rfl⟩ := List.getElem?_eq_some_iff.mp ha
  exact (getElem_cons_eraseIdx_perm hlt).map fun a => g a.kind

lemma pagesFrom_removeIdx :
    PagesFrom s.areas (s.removeIdx idx).space.areas := by
  unfold removeIdx
  split
  · exact .of_subset fun _ h => h
  · exact .of_subset fun _ h => mem_of_mem_eraseIdx h

lemma held_setRange (range : VpnRange) :
    held g (s.setRange idx range).areas = held g s.areas := by
  unfold setRange
  split
  · rfl
  rename_i ha
  rw [set_eq_of_getElem? ha]
  conv => rhs; rw [eq_of_getElem? ha]
  simp

lemma pagesFrom_setRange (range : VpnRange) :
    PagesFrom s.areas (s.setRange idx range).areas := by
  unfold setRange
  split
  · exact .of_subset fun _ h => h
  rename_i a ha
  rintro shmid p ⟨b, hb, hmaps⟩
  rcases mem_or_eq_of_mem_set hb with hb | rfl
  · exact ⟨b, hb, hmaps⟩
  · exact ⟨a, mem_of_getElem? ha, hmaps⟩

end

/-- `munmap_area` returns exactly what it takes out. -/
lemma balanced_munmapArea [DecidableEq γ] (hg : Splits g) (s : Space) (lo hi : Nat) :
    (s.munmapArea lo hi).Balanced g s.areas :=
  (balanced_splitRange hg s lo hi).andThen (balanced_removeFrom _ _ _ _)

lemma pagesFrom_munmapArea (s : Space) (lo hi : Nat) :
    PagesFrom s.areas (s.munmapArea lo hi).space.areas :=
  (pagesFrom_splitRange s lo hi).trans (pagesFrom_removeFrom _ _ _ _)

/-- `mmap_fixed_area` returns what it takes out of the way. -/
lemma balanced_clearRange [DecidableEq γ] (hg : Splits g) (s : Space) (lo hi : Nat) :
    (s.clearRange lo hi).Balanced g s.areas :=
  (balanced_splitRange hg s lo hi).andThen (balanced_removeFrom _ _ _ _)

lemma pagesFrom_clearRange (s : Space) (lo hi : Nat) :
    PagesFrom s.areas (s.clearRange lo hi).space.areas :=
  (pagesFrom_splitRange s lo hi).trans (pagesFrom_removeFrom _ _ _ _)

/-- A smaller break returns exactly what it takes out. -/
lemma balanced_shrinkBrkAreas [DecidableEq γ] (hg : Splits g) (s : Space)
    (heapStart newEnd oldEnd : Nat) :
    (s.shrinkBrkAreas heapStart newEnd oldEnd).Balanced g s.areas :=
  (balanced_splitRange hg s newEnd oldEnd).andThen (balanced_removeFrom _ _ _ _)

lemma pagesFrom_shrinkBrkAreas (s : Space) (heapStart newEnd oldEnd : Nat) :
    PagesFrom s.areas (s.shrinkBrkAreas heapStart newEnd oldEnd).space.areas :=
  (pagesFrom_splitRange s newEnd oldEnd).trans (pagesFrom_removeFrom _ _ _ _)

/-- `mremap_area` returns what it takes out, maps no new segment page. -/
lemma balanced_mremapArea [DecidableEq γ] (hg : Splits g) {e : Edit}
    {oldStart oldEnd newEnd : Nat} (h : s.mremapArea oldStart oldEnd newEnd = some e) :
    e.Balanced g s.areas ∧ PagesFrom s.areas e.space.areas := by
  have hkeep : (s.keep).Balanced g s.areas ∧ PagesFrom s.areas s.keep.space.areas :=
    ⟨.of_areas rfl, .of_subset fun _ h => h⟩
  have hsplit := balanced_splitRange hg s oldStart oldEnd
  have hpages := pagesFrom_splitRange s oldStart oldEnd
  unfold mremapArea at h
  split at h
  · cases h
    exact hkeep
  split at h
  · cases h
    exact hkeep
  split at h
  · cases h
    exact ⟨balanced_munmapArea hg s _ _, pagesFrom_munmapArea s _ _⟩
  unfold mremapGrow at h
  dsimp only at h
  split at h
  · cases h
    exact ⟨hsplit, hpages⟩
  · obtain ⟨range, -, rfl⟩ := Option.map_eq_some_iff.mp h
    exact ⟨hsplit.withSpace (held_setRange _ _ _), hpages.trans (pagesFrom_setRange _ _ _)⟩

lemma balanced_removeAll (s : Space) : s.removeAll.Balanced g s.areas where
  perm := by
    show ([] ++ held g s.areas).Perm (held g s.areas ++ [])
    simp
  halves _ hc := nomatch hc

/-! ### `mprotect` -/

lemma remapPermission_cases (perm : MapPermission) (a : Piece) (r : Remap) :
    (remapPermission perm a r).kind = a.kind ∨
      (remapPermission perm a r).kind = Kind.setWritable perm.w a.kind := by
  cases r with
  | failed => exact .inl rfl
  | failedLate | done => exact .inr rfl

/-- The loop changes nothing that is held if no remapped area would. -/
lemma held_remapLoop
    (h : ∀ a ∈ as, lo ≤ a.start ∧ a.stop ≤ hi → g (Kind.setWritable perm.w a.kind) = g a.kind) :
    held g (remapLoop lo hi perm remap as) = held g as := by
  have hone : ∀ a ∈ as, ∀ r, lo ≤ a.start ∧ a.stop ≤ hi →
      g (remapPermission perm a r).kind = g a.kind := by
    intro a ha r hin
    rcases remapPermission_cases perm a r with heq | heq
    · rw [heq]
    · rw [heq, h a ha hin]
  induction as with
  | nil => rfl
  | cons a rest ih =>
    have ih := ih (fun b hb => h b (mem_cons_of_mem _ hb))
      fun b hb => hone b (mem_cons_of_mem _ hb)
    unfold remapLoop
    split
    next hin =>
      split
      · rw [held_cons, held_cons, ih, hone a mem_cons_self _ hin]
      · rw [held_cons, held_cons, hone a mem_cons_self _ hin]
    · rw [held_cons, held_cons, ih]

lemma take_slice_drop {α : Type} {l : List α} {i j : Nat} (h : i ≤ j) :
    l.take i ++ ((l.take j).drop i ++ l.drop j) = l := by
  rw [← append_assoc]
  conv => lhs; arg 1; arg 1; rw [← Nat.min_eq_left h, ← take_take]
  simp

lemma overlapAreaIdxBounds_le (s : Space) (lo hi : Nat) :
    (s.set.overlapAreaIdxBounds lo hi).1 ≤ (s.set.overlapAreaIdxBounds lo hi).2 := by
  unfold MemorySet.overlapAreaIdxBounds
  split
  · simp
  · simp

/-- A new permission changes what is held at most by the writable flag. -/
lemma held_remapRange (h : ∀ a ∈ s.areas, lo ≤ a.start ∧ a.stop ≤ hi →
      g (Kind.setWritable perm.w a.kind) = g a.kind) :
    held g (s.remapRange lo hi perm remap).areas = held g s.areas := by
  show held g (s.areas.take (s.set.overlapAreaIdxBounds lo hi).1 ++ (remapLoop lo hi perm remap
    ((s.areas.take (s.set.overlapAreaIdxBounds lo hi).2).drop
      (s.set.overlapAreaIdxBounds lo hi).1) ++
    s.areas.drop (s.set.overlapAreaIdxBounds lo hi).2)) = _
  rw [held_append, held_append, held_remapLoop, ← held_append, ← held_append,
    take_slice_drop (s.overlapAreaIdxBounds_le lo hi)]
  intro a ha
  exact h a (mem_of_mem_take (mem_of_mem_drop ha))

lemma setWritable_shm {w : Bool} {k : Kind} {info : ShmAreaInfo}
    (h : Kind.setWritable w k = .shm info) : k = .shm info := by
  cases k with
  | mmap | framed => cases h
  | shm i => exact h

lemma pagesFrom_remapLoop (lo hi : Nat) (perm : MapPermission) (remap : Piece → Remap)
    (as : List Piece) : PagesFrom as (remapLoop lo hi perm remap as) := by
  have hone : ∀ (a : Piece) r info, (remapPermission perm a r).kind = .shm info →
      a.kind = .shm info := by
    intro a r info h
    rcases remapPermission_cases perm a r with heq | heq
    · exact heq ▸ h
    · exact setWritable_shm (heq ▸ h)
  intro shmid p
  induction as with
  | nil => exact id
  | cons a rest ih =>
    have hrest : Maps (remapLoop lo hi perm remap rest) shmid p → Maps (a :: rest) shmid p := by
      intro hmaps
      obtain ⟨b, hb, hb'⟩ := ih hmaps
      exact ⟨b, mem_cons_of_mem _ hb, hb'⟩
    unfold remapLoop
    split
    · split
      · rintro ⟨b, hb, info, hkind, hb'⟩
        rcases mem_cons.mp hb with rfl | hb
        · exact ⟨a, mem_cons_self, info, hone a _ info hkind, hb'⟩
        · exact hrest ⟨b, hb, info, hkind, hb'⟩
      · rintro ⟨b, hb, info, hkind, hb'⟩
        rcases mem_cons.mp hb with rfl | hb
        · exact ⟨a, mem_cons_self, info, hone a _ info hkind, hb'⟩
        · exact ⟨b, mem_cons_of_mem _ hb, info, hkind, hb'⟩
    · rintro ⟨b, hb, hb'⟩
      rcases mem_cons.mp hb with rfl | hb
      · exact ⟨b, mem_cons_self, hb'⟩
      · exact hrest ⟨b, hb, hb'⟩

lemma pagesFrom_remapRange (s : Space) (lo hi : Nat) (perm : MapPermission)
    (remap : Piece → Remap) : PagesFrom s.areas (s.remapRange lo hi perm remap).areas := by
  rintro shmid p ⟨a, ha, hmaps⟩
  rcases mem_append.mp ha with ha | ha
  · exact ⟨a, mem_of_mem_take ha, hmaps⟩
  rcases mem_append.mp ha with ha | ha
  · obtain ⟨b, hb, hb'⟩ := pagesFrom_remapLoop lo hi perm remap _ shmid p ⟨a, ha, hmaps⟩
    exact ⟨b, mem_of_mem_take (mem_of_mem_drop hb), hb'⟩
  · exact ⟨a, mem_of_mem_drop ha, hmaps⟩

/-- `mprotect_area` takes nothing out if the flag it sets is not looked at. -/
lemma balanced_mprotectArea [DecidableEq γ] (hg : Splits g) (s : Space)
    (blocks : MappedFile → Bool) (lo hi : Nat) (perm : MapPermission) (remap : Piece → Remap)
    (h : ∀ a ∈ (s.splitRange lo hi).space.areas, lo ≤ a.start ∧ a.stop ≤ hi →
      g (Kind.setWritable perm.w a.kind) = g a.kind) :
    (s.mprotectArea blocks lo hi perm remap).Balanced g s.areas := by
  unfold mprotectArea
  split
  · exact .of_areas rfl
  split
  · exact .of_areas rfl
  exact (balanced_splitRange hg s lo hi).withSpace (held_remapRange h)

/-- `mprotect_area` maps no new page of a segment. -/
lemma pagesFrom_mprotectArea (s : Space) (blocks : MappedFile → Bool) (lo hi : Nat)
    (perm : MapPermission) (remap : Piece → Remap) :
    PagesFrom s.areas (s.mprotectArea blocks lo hi perm remap).space.areas := by
  unfold mprotectArea
  split
  · exact .of_subset fun _ h => h
  split
  · exact .of_subset fun _ h => h
  exact (pagesFrom_splitRange s lo hi).trans (pagesFrom_remapRange _ lo hi perm remap)

end Space

end Balance

end Whusp.Mm.Pieces
