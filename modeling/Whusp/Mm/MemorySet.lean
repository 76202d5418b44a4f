import Whusp.Lib.Intervals
import Whusp.Syscall.UserPtr

/-!
# The area list of an address space

The virtual memory areas of a user `MemorySet` and the operations that edit them
(`mm/memory_set.rs`, `mm/user_space.rs`, `mm/user_space/layout.rs`): `mmap`, `munmap`,
`mprotect`, `mremap`, `brk`, the System V attach and detach, the grow-down fault, and the
copy that `fork` makes.

An operation that fails returns its error and the state it leaves behind.  The only panic
on these paths is the assertion `start <= end` of `VPNRange::new`; a function that can
reach it returns `none` there.  What the environment answers (whether a page-table path
can be allocated, whether the leaves of an area can be remapped, whether a shared segment
can be retained) is an argument.
-/

namespace Whusp.Mm

open Whusp.Lib (Span insertAt)
open Whusp.Syscall (Arch USIZE_RANGE)

/-! ## Addresses and pages -/

/-- Page numbers are quotients of 64-bit addresses. -/
def VPN_RANGE : Nat := USIZE_RANGE / PAGE_SIZE

def USER_STACK_SIZE : Nat := 4096 * 1024
def USER_HEAP_SIZE : Nat := 0x200000
def USER_MMAP_LIMIT : Nat := 0x2000000000
def VDSO_BASE : Nat := USER_MMAP_LIMIT - PAGE_SIZE
def STACK_GUARD_GAP_PAGES : Nat := 256

def USER_MMAP_BASE : Arch → Nat
  | .riscv64 => 0x800000000
  | .loongarch64 => 0x60000000

def ceil (arch : Arch) (addr : Nat) : Nat :=
  if arch.canonicalizeVirtAddr addr = 0 then 0
  else (arch.canonicalizeVirtAddr addr - 1 + PAGE_SIZE) % USIZE_RANGE / PAGE_SIZE

/-- `usize::from(VirtAddr::from(vpn))`. -/
def vaOfVpn (arch : Arch) (vpn : Nat) : Nat := arch.signExtendVirtAddr (vpn * PAGE_SIZE)

def pageAlignUp (addr : Nat) : Nat :=
  (addr + (PAGE_SIZE - 1)) % USIZE_RANGE / PAGE_SIZE * PAGE_SIZE

def checkedAdd (a b : Nat) : Option Nat := if a + b < USIZE_RANGE then some (a + b) else none

def checkedPageAlignUp (addr : Nat) : Option Nat :=
  (checkedAdd addr (PAGE_SIZE - 1)).map fun a => a / PAGE_SIZE * PAGE_SIZE

/-- The end of a mapping at `start`: `start.checked_add(checked_page_align_up(len)?)`. -/
def mapEnd (start len : Nat) : Option Nat := (checkedPageAlignUp len).bind (checkedAdd start)

def normalizedMmapHint (arch : Arch) (hint : Nat) : Nat :=
  if USER_MMAP_BASE arch ≤ hint ∧ hint < USER_MMAP_LIMIT then pageAlignUp hint
  else USER_MMAP_BASE arch

def nextMmapHint (arch : Arch) (stop : Nat) : Nat :=
  if USER_MMAP_LIMIT ≤ stop then USER_MMAP_BASE arch else stop

/-! ## Areas -/

/-- A `VPNRange`: its constructor asserts that it is not inverted. -/
structure VpnRange where
  start : Nat
  stop : Nat
  le : start ≤ stop
  lt : stop < VPN_RANGE

/-- `VPNRange::new`; `none` is the failed assertion.  The second bound holds of every page
number that is taken from an address. -/
def VpnRange.new? (start stop : Nat) : Option VpnRange :=
  if h : start ≤ stop ∧ stop < VPN_RANGE then some ⟨start, stop, h.1, h.2⟩ else none

structure MapPermission where
  r : Bool
  w : Bool
  x : Bool
  u : Bool

/-- What `can_mprotect_write` asks a backing file. -/
structure BackingFile where
  writable : Bool
  blocksSharedWritableMmap : Bool

structure MmapInfo where
  shared : Bool
  growDown : Bool
  backingFile : Option BackingFile

structure MapArea where
  vpnRange : VpnRange
  mapPerm : MapPermission
  mmapInfo : Option MmapInfo
  isShm : Bool

namespace MapArea

def start (a : MapArea) : Nat := a.vpnRange.start
def stop (a : MapArea) : Nat := a.vpnRange.stop
def isMmap (a : MapArea) : Bool := a.mmapInfo.isSome

def new? (arch : Arch) (startVa endVa : Nat) (perm : MapPermission) : Option MapArea :=
  (VpnRange.new? (arch.floor startVa) (ceil arch endVa)).map fun r => ⟨r, perm, none, false⟩

/-- `MapArea::split_off`: the left and the right half. -/
def splitOff (a : MapArea) (at_ : Nat) : Option (MapArea × MapArea) :=
  if h : a.start < at_ ∧ at_ < a.stop then
    some ({ a with vpnRange := ⟨a.start, at_, h.1.le, h.2.trans a.vpnRange.lt⟩ },
      { a with vpnRange := ⟨at_, a.stop, h.2.le, a.vpnRange.lt⟩ })
  else none

end MapArea

open MapArea

def span : Span MapArea where
  lo := start
  hi := stop
  le a := a.vpnRange.le

inductive MmapFaultAccess where
  | read
  | write
  | execute

def MmapFaultAccess.isAllowedBy : MmapFaultAccess → MapPermission → Bool
  | .read, p => p.r
  | .write, p => p.w
  | .execute, p => p.x

/-! ## The list and its search functions -/

/-- The fields of a `MemorySet` that the area operations read and write. -/
structure MemorySet where
  areas : List MapArea
  lastAreaIdxContaining : Option Nat
  brkBase : Nat
  brk : Nat
  brkLimit : Nat
  brkMappedEnd : Nat
  mmapNext : Nat

/-- The architecture and the root entries that the page table shares with the kernel
(`range_intersects_shared_root`). -/
structure Machine where
  arch : Arch
  rangeIntersectsSharedRoot : Nat → Nat → Bool

namespace MemorySet

def areaInsertIndex (s : MemorySet) (startVpn : Nat) : Nat := span.lowerBound s.areas startVpn

def insertAreaSorted (s : MemorySet) (area : MapArea) : MemorySet :=
  { s with
    areas := insertAt s.areas (s.areaInsertIndex area.start) area
    lastAreaIdxContaining := none }

def findAreaIdxByStart (s : MemorySet) (startVpn : Nat) : Option Nat :=
  if s.areas[s.areaInsertIndex startVpn]?.any fun a => a.start == startVpn then
    some (s.areaInsertIndex startVpn)
  else none

/-- The cached index, if it names an area that contains `vpn`. -/
def hintContaining (s : MemorySet) (vpn : Nat) : Option Nat :=
  s.lastAreaIdxContaining.filter fun idx =>
    s.areas[idx]?.any fun a => decide (a.start ≤ vpn) && decide (vpn < a.stop)

/-- The bisection: the last area that starts at or below `vpn`, if it reaches past `vpn`. -/
def searchContaining (s : MemorySet) (vpn : Nat) : Option Nat :=
  match span.upperBound s.areas vpn with
  | 0 => none
  | idx + 1 => if s.areas[idx]?.any fun a => decide (vpn < a.stop) then some idx else none

def findAreaIdxContaining (s : MemorySet) (vpn : Nat) : Option Nat × MemorySet :=
  match s.hintContaining vpn with
  | some idx => (some idx, s)
  | none => (s.searchContaining vpn, { s with lastAreaIdxContaining := s.searchContaining vpn })

def removeAreaWithStartVpn (s : MemorySet) (startVpn : Nat) : MemorySet :=
  match s.findAreaIdxByStart startVpn with
  | none => s
  | some idx => { s with areas := s.areas.eraseIdx idx, lastAreaIdxContaining := none }

def firstAreaIdxEndingAfter (s : MemorySet) (start : Nat) : Nat :=
  if 0 < s.areaInsertIndex start ∧
      s.areas[s.areaInsertIndex start - 1]?.any (fun a => decide (start < a.stop)) = true then
    s.areaInsertIndex start - 1
  else s.areaInsertIndex start

def overlapAreaIdxBounds (s : MemorySet) (start stop : Nat) : Nat × Nat :=
  if stop ≤ start then (0, 0)
  else (min (s.firstAreaIdxEndingAfter start) (s.areaInsertIndex stop), s.areaInsertIndex stop)

def rangeOverlaps (m : Machine) (s : MemorySet) (start stop : Nat) : Bool :=
  if stop ≤ start then false
  else if m.rangeIntersectsSharedRoot start stop then true
  else
    let startVpn := m.arch.floor start
    let endVpn := m.arch.floor stop
    let idx := s.areaInsertIndex startVpn
    if 0 < idx ∧ s.areas[idx - 1]?.any (fun a => decide (startVpn < a.stop)) = true then true
    else s.areas[idx]?.any fun a => decide (a.start < endVpn) && decide (startVpn < a.stop)

/-- The loop of `range_is_mapped_vpn` from its first area on. -/
def rangeIsMappedLoop (stop : Nat) : List MapArea → Nat → Bool
  | [], cursor => decide (stop ≤ cursor)
  | a :: rest, cursor =>
    if cursor < stop then
      if cursor < a.start ∨ a.stop ≤ cursor then false
      else rangeIsMappedLoop stop rest (min a.stop stop)
    else true

def rangeIsMappedVpn (s : MemorySet) (start stop : Nat) : Bool :=
  rangeIsMappedLoop stop (s.areas.drop (s.firstAreaIdxEndingAfter start)) start

def canMprotectWrite (s : MemorySet) (start stop : Nat) : Bool :=
  let (startIdx, endIdx) := s.overlapAreaIdxBounds start stop
  ((s.areas.take endIdx).drop startIdx).all fun a =>
    if a.start < stop ∧ start < a.stop then
      match a.mmapInfo with
      | none => true
      | some info =>
        !info.shared ||
          !info.backingFile.any fun file => !file.writable || file.blocksSharedWritableMmap
    else true

def splitAreaAt (s : MemorySet) (at_ : Nat) : MemorySet :=
  match s.findAreaIdxContaining at_ with
  | (none, s) => s
  | (some idx, s) =>
    match s.areas[idx]?.bind fun a => a.splitOff at_ with
    | none => s
    | some (left, right) => { s with areas := insertAt (s.areas.set idx left) (idx + 1) right }

/-- A `while` loop that removes areas from the list it walks: it stops at the first area
with `done`, and removes those with `drop`. -/
def removeScan (done drop : MapArea → Bool) : List MapArea → List MapArea
  | [] => []
  | a :: rest =>
    if done a then a :: rest
    else if drop a then removeScan done drop rest
    else a :: removeScan done drop rest

def removeFrom (s : MemorySet) (idx : Nat) (done drop : MapArea → Bool) : MemorySet :=
  { s with areas := s.areas.take idx ++ removeScan done drop (s.areas.drop idx) }

/-! ## Placement of mappings -/

/-- The cursor loop of `find_mmap_hole`, for a number of rounds: `none` if they do not suffice, and
otherwise what the loop returns.  Each round moves the cursor to the end of an area that reached
past it, so there are at most as many rounds as areas, and one more. -/
def findMmapHoleLoop (m : Machine) (s : MemorySet) (limit len : Nat) :
    Nat → Nat → Option (Option Nat)
  | 0, _ => none
  | fuel + 1, cursor =>
    match checkedAdd cursor len with
    | none => some none
    | some stop =>
      if limit < stop then some none
      else
        let idx := s.areaInsertIndex (m.arch.floor cursor)
        let prevEnd := (if 0 < idx then s.areas[idx - 1]? else none).map
          fun a => vaOfVpn m.arch a.stop
        match prevEnd.filter fun e => decide (cursor < e) with
        | some prevEnd => findMmapHoleLoop m s limit len fuel (pageAlignUp prevEnd)
        | none =>
          match (s.areas.drop idx).find? fun a => decide (cursor < vaOfVpn m.arch a.stop) with
          | none => some (some cursor)
          | some area =>
            if limit ≤ vaOfVpn m.arch area.start then some (some cursor)
            else if stop ≤ vaOfVpn m.arch area.start then some (some cursor)
            else findMmapHoleLoop m s limit len fuel (pageAlignUp (vaOfVpn m.arch area.stop))

/-- The rounds suffice on every ordered list, so the default is never taken there. -/
def findMmapHole (m : Machine) (s : MemorySet) (start limit len : Nat) : Option Nat :=
  if limit ≤ start ∨ len = 0 then none
  else (findMmapHoleLoop m s limit len (s.areas.length + 1) (pageAlignUp start)).getD none

def allocMmapRange (m : Machine) (s : MemorySet) (len : Nat) : Option Nat :=
  if len = 0 ∨ USER_MMAP_LIMIT - USER_MMAP_BASE m.arch < len then none
  else
    let hint := normalizedMmapHint m.arch s.mmapNext
    (s.findMmapHole m hint USER_MMAP_LIMIT len).or
      (s.findMmapHole m (USER_MMAP_BASE m.arch) hint len)

/-! ## System calls

A result `none` is an error return; the state beside it is the one the call leaves. -/

def mmapArea (m : Machine) (s : MemorySet) (len : Nat) (perm : MapPermission) (info : MmapInfo) :
    Option (Option Nat × MemorySet) :=
  match checkedPageAlignUp len with
  | none => some (none, s)
  | some mapLen =>
    match s.allocMmapRange m mapLen with
    | none => some (none, s)
    | some start =>
      match checkedAdd start mapLen with
      | none => some (none, s)
      | some stop =>
        (new? m.arch start stop perm).map fun area =>
          (some start, { s.insertAreaSorted { area with mmapInfo := some info } with
            mmapNext := nextMmapHint m.arch stop })

/-- The edit of the list made by `mmap_fixed_area` before the new area is inserted. -/
def clearRange (s : MemorySet) (startVpn endVpn : Nat) : MemorySet :=
  let s := (s.splitAreaAt startVpn).splitAreaAt endVpn
  s.removeFrom (s.firstAreaIdxEndingAfter startVpn) (fun a => decide (endVpn ≤ a.start))
    (fun a => decide (a.start < endVpn) && decide (startVpn < a.stop))

def mmapFixedArea (m : Machine) (s : MemorySet) (start len : Nat) (perm : MapPermission)
    (info : MmapInfo) : Option (Option Nat × MemorySet) :=
  if start % PAGE_SIZE ≠ 0 then some (none, s)
  else
    match mapEnd start len with
    | none => some (none, s)
    | some stop =>
      let s := s.clearRange (m.arch.floor start) (m.arch.floor stop)
      (new? m.arch start stop perm).map fun area =>
        (some start, s.insertAreaSorted { area with mmapInfo := some info })

/-- The fixed branch of `sys_mmap_impl`, with its argument checks and the overlap check of
`MAP_FIXED_NOREPLACE`. -/
def sysMmapFixed (m : Machine) (s : MemorySet) (addr len : Nat) (noReplace : Bool)
    (perm : MapPermission) (info : MmapInfo) : Option (Option Nat × MemorySet) :=
  if addr % PAGE_SIZE ≠ 0 ∨ addr = 0 ∨ len = 0 then some (none, s)
  else
    match mapEnd addr len with
    | none => some (none, s)
    | some stop =>
      if noReplace && s.rangeOverlaps m addr stop then some (none, s)
      else s.mmapFixedArea m addr len perm info

def mapExecSegmentArea (m : Machine) (s : MemorySet) (start len : Nat) (perm : MapPermission)
    (file : BackingFile) : Option (Option Nat × MemorySet) :=
  if start % PAGE_SIZE ≠ 0 ∨ len = 0 then some (none, s)
  else
    match mapEnd start len with
    | none => some (none, s)
    | some stop =>
      if s.rangeOverlaps m start stop then some (none, s)
      else
        (new? m.arch start stop perm).map fun area =>
          (some start, s.insertAreaSorted { area with mmapInfo := some ⟨false, false, some file⟩ })

/-- `map_vdso_image` at `VDSO_BASE`; `mapped` says whether its pages could be allocated. -/
def mapVdsoImage (m : Machine) (s : MemorySet) (imageLen : Nat) (mapped : Bool) :
    Option (Bool × MemorySet) :=
  match checkedAdd VDSO_BASE imageLen with
  | none => some (false, s)
  | some stop =>
    if imageLen = 0 ∨ imageLen % PAGE_SIZE ≠ 0 ∨ s.rangeOverlaps m VDSO_BASE stop = true then
      some (false, s)
    else
      (new? m.arch VDSO_BASE stop ⟨true, false, true, true⟩).map fun area =>
        if mapped then (true, s.insertAreaSorted area) else (false, s)

/-- `push`, `insert_lazy_framed_area` and `insert_kernel_private_framed_area_uninit`: an area
is inserted with no look at the areas that are there. -/
def pushFramed (m : Machine) (s : MemorySet) (startVa endVa : Nat) (perm : MapPermission)
    (mapped : Bool) : Option (Bool × MemorySet) :=
  (new? m.arch startVa endVa perm).map fun area =>
    if mapped then (true, s.insertAreaSorted area) else (false, s)

/-- The end of `from_elf` and `from_elf_lazy`: program break, heap area and mmap hint. -/
def setupHeap (m : Machine) (s : MemorySet) (maxEndVa : Nat) : Option MemorySet :=
  let heapBase := pageAlignUp (maxEndVa + PAGE_SIZE)
  let brkLimit := heapBase + USER_HEAP_SIZE
  let userStackBase := brkLimit + PAGE_SIZE
  (new? m.arch heapBase heapBase ⟨true, true, false, true⟩).map fun area =>
    { s.insertAreaSorted area with
      brkBase := heapBase
      brk := heapBase
      brkLimit := brkLimit
      brkMappedEnd := heapBase
      mmapNext := max (pageAlignUp (userStackBase + USER_STACK_SIZE + PAGE_SIZE))
        (USER_MMAP_BASE m.arch) }

/-- `leafPaths` says whether `prepare_empty_leaf_path` succeeded for every page. -/
def attachShmArea (m : Machine) (s : MemorySet) (requestedAddr len : Nat) (perm : MapPermission)
    (leafPaths : Bool) : Option (Option Nat × MemorySet) :=
  match checkedPageAlignUp len with
  | none => some (none, s)
  | some mapLen =>
    let start : Option Nat :=
      if requestedAddr = 0 then s.allocMmapRange m mapLen
      else if requestedAddr % PAGE_SIZE ≠ 0 then none
      else
        (checkedAdd requestedAddr mapLen).bind fun stop =>
          if USER_MMAP_LIMIT < stop ∨ s.rangeOverlaps m requestedAddr stop = true then none
          else some requestedAddr
    match start with
    | none => some (none, s)
    | some start =>
      match checkedAdd start mapLen with
      | none => some (none, s)
      | some stop =>
        (new? m.arch start stop perm).map fun area =>
          if leafPaths then
            (some start, { s.insertAreaSorted { area with isShm := true } with
              mmapNext := nextMmapHint m.arch stop })
          else (none, s)

/-- The cached index is not reset. -/
def detachShmArea (m : Machine) (s : MemorySet) (start : Nat) : Option Unit × MemorySet :=
  if start % PAGE_SIZE ≠ 0 then (none, s)
  else
    match s.areas.findIdx? fun a => a.isShm && a.start == m.arch.floor start with
    | none => (none, s)
    | some idx => (some (), { s with areas := s.areas.eraseIdx idx })

def munmapArea (m : Machine) (s : MemorySet) (start len : Nat) : Option Unit × MemorySet :=
  if len = 0 ∨ start % PAGE_SIZE ≠ 0 then (none, s)
  else
    match mapEnd start len with
    | none => (none, s)
    | some stop =>
      let startVpn := m.arch.floor start
      let endVpn := m.arch.floor stop
      let s := (s.splitAreaAt startVpn).splitAreaAt endVpn
      (some (), s.removeFrom (s.firstAreaIdxEndingAfter startVpn)
        (fun a => decide (endVpn ≤ a.start))
        (fun a => a.isMmap && decide (startVpn ≤ a.start) && decide (a.stop ≤ endVpn)))

inductive MemoryProtectError where
  | unmapped
  | accessDenied

/-- The loop of `mprotect_area` over the areas of the range, with `remap` for the answer of
`remap_permission`: the areas, whether one failed, and whether one was changed. -/
def remapLoop (startVpn endVpn : Nat) (perm : MapPermission) (remap : MapArea → Bool) :
    List MapArea → Bool → List MapArea × Bool × Bool
  | [], touched => ([], false, touched)
  | a :: rest, touched =>
    if startVpn ≤ a.start ∧ a.stop ≤ endVpn then
      if remap a then
        let (rest, failed, touched) := remapLoop startVpn endVpn perm remap rest true
        ({ a with mapPerm := perm } :: rest, failed, touched)
      else (a :: rest, true, touched)
    else
      let (rest, failed, touched) := remapLoop startVpn endVpn perm remap rest touched
      (a :: rest, failed, touched)

def mprotectArea (m : Machine) (s : MemorySet) (start len : Nat) (perm : MapPermission)
    (remap : MapArea → Bool) : Except MemoryProtectError Unit × MemorySet :=
  if len = 0 then (.ok (), s)
  else if start % PAGE_SIZE ≠ 0 then (.error .unmapped, s)
  else
    match checkedAdd start len with
    | none => (.error .unmapped, s)
    | some stop =>
      let startVpn := m.arch.floor start
      let endVpn := m.arch.floor stop
      if ¬ s.rangeIsMappedVpn startVpn endVpn then (.error .unmapped, s)
      else if perm.w && !s.canMprotectWrite startVpn endVpn then (.error .accessDenied, s)
      else
        let s := (s.splitAreaAt startVpn).splitAreaAt endVpn
        let (startIdx, endIdx) := s.overlapAreaIdxBounds startVpn endVpn
        let (areas, failed, touched) :=
          remapLoop startVpn endVpn perm remap ((s.areas.take endIdx).drop startIdx) false
        (if failed || !touched then .error .unmapped else .ok (),
          { s with areas := s.areas.take startIdx ++ areas ++ s.areas.drop endIdx })

/-- The last part of `mremap_area`: an area that ends at the old end grows in place. -/
def mremapGrow (m : Machine) (s : MemorySet) (oldAddr oldStartVpn oldEndVpn newEnd : Nat) :
    Option (Option Nat × MemorySet) :=
  let s := (s.splitAreaAt oldStartVpn).splitAreaAt oldEndVpn
  match (s.findAreaIdxByStart oldStartVpn).bind fun idx =>
    (s.areas[idx]?.filter fun a => a.stop == oldEndVpn).map (idx, ·) with
  | none => some (none, s)
  | some (idx, area) =>
    (VpnRange.new? oldStartVpn (m.arch.floor newEnd)).map fun range =>
      (some oldAddr, { s with
        areas := s.areas.set idx { area with vpnRange := range }
        lastAreaIdxContaining := none })

/-- A shrink unmaps the tail, a growth happens in place or not at all. -/
def mremapArea (m : Machine) (s : MemorySet) (oldAddr oldLen newLen : Nat) :
    Option (Option Nat × MemorySet) :=
  if oldAddr % PAGE_SIZE ≠ 0 ∨ oldLen = 0 ∨ newLen = 0 then some (none, s)
  else
    match checkedPageAlignUp oldLen, checkedPageAlignUp newLen, mapEnd oldAddr oldLen,
      mapEnd oldAddr newLen with
    | some oldMapLen, some newMapLen, some oldEnd, some newEnd =>
      let oldStartVpn := m.arch.floor oldAddr
      let oldEndVpn := m.arch.floor oldEnd
      if ¬ s.rangeIsMappedVpn oldStartVpn oldEndVpn then some (none, s)
      else if newMapLen = oldMapLen then some (some oldAddr, s)
      else if newMapLen < oldMapLen then
        match s.munmapArea m newEnd (oldMapLen - newMapLen) with
        | (none, s) => some (none, s)
        | (some (), s) => some (some oldAddr, s)
      else if s.rangeOverlaps m oldEnd newEnd then some (none, s)
      else s.mremapGrow m oldAddr oldStartVpn oldEndVpn newEnd
    | _, _, _, _ => some (none, s)

/-! ## Program break -/

def findBrkExtensionArea (s : MemorySet) (heapStartVpn oldEndVpn : Nat) : Option Nat :=
  s.areas.findIdx? fun a => decide (heapStartVpn ≤ a.start) && a.stop == oldEndVpn

def shrinkBrkAreas (s : MemorySet) (heapStartVpn newEndVpn oldEndVpn : Nat) : MemorySet :=
  let s := (s.splitAreaAt newEndVpn).splitAreaAt oldEndVpn
  { s with
    areas := s.areas.filter fun a =>
      !(!a.isMmap && !a.isShm && decide (heapStartVpn ≤ a.start) && decide (newEndVpn ≤ a.start) &&
        decide (a.stop ≤ oldEndVpn)) }

/-- The growth of the heap: the area that ends at the old break is extended, or a new one
is inserted, with no look at the areas above. -/
def growBrkAreas (m : Machine) (s : MemorySet) (newMappedEnd : Nat) : Option MemorySet :=
  let oldEndVpn := m.arch.floor s.brkMappedEnd
  match s.findBrkExtensionArea (m.arch.floor s.brkBase) oldEndVpn with
  | none =>
    (new? m.arch s.brkMappedEnd newMappedEnd ⟨true, true, false, true⟩).map
      s.insertAreaSorted
  | some idx =>
    s.areas[idx]?.bind fun area =>
      (VpnRange.new? area.start (m.arch.floor newMappedEnd)).map fun range =>
        { s with areas := s.areas.set idx { area with vpnRange := range } }

def setProgramBreak (m : Machine) (s : MemorySet) (addr : Nat) : Option (Nat × MemorySet) :=
  if addr = 0 then some (s.brk, s)
  else if addr < s.brkBase ∨ s.brkLimit < addr then some (s.brk, s)
  else
    let newMappedEnd := pageAlignUp addr
    let edited : Option MemorySet :=
      if s.brkMappedEnd < newMappedEnd then s.growBrkAreas m newMappedEnd
      else if newMappedEnd < s.brkMappedEnd then
        some (s.shrinkBrkAreas (m.arch.floor s.brkBase) (m.arch.floor newMappedEnd)
          (m.arch.floor s.brkMappedEnd))
      else some s
    edited.map fun s => (addr, { s with brk := addr, brkMappedEnd := newMappedEnd })

/-! ## Faults and fork -/

def growDownGuardGapIsClear (s : MemorySet) (newStart growIdx : Nat) : Bool :=
  s.areas.zipIdx.all fun (a, idx) =>
    idx == growIdx || decide (newStart ≤ a.start) ||
      decide (a.stop ≤ newStart - STACK_GUARD_GAP_PAGES)

inductive GrowDownMmapFault where
  | grown (idx : Nat)
  | guardBlocked

def growDownMmapAreaForFault (s : MemorySet) (vpn : Nat) (access : MmapFaultAccess) :
    Option (Option GrowDownMmapFault × MemorySet) :=
  match (s.findAreaIdxByStart (vpn + 1)).bind fun idx =>
    (s.areas[idx]?.filter fun a =>
      (a.mmapInfo.any fun info => info.growDown && info.backingFile.isNone) &&
        access.isAllowedBy a.mapPerm).map (idx, ·) with
  | none => some (none, s)
  | some (idx, area) =>
    if ¬ s.growDownGuardGapIsClear vpn idx then some (some .guardBlocked, s)
    else
      (VpnRange.new? vpn area.stop).map fun range =>
        (some (.grown idx), { s with areas := s.areas.set idx { area with vpnRange := range } })

/-- The area part of `prepare_mmap_page_fault`: the lookup, and the growth when it fails. -/
def prepareMmapPageFault (m : Machine) (s : MemorySet) (addr : Nat) (access : MmapFaultAccess) :
    Option (Option GrowDownMmapFault × MemorySet) :=
  match s.findAreaIdxContaining (m.arch.floor addr) with
  | (some _, s) => some (none, s)
  | (none, s) => s.growDownMmapAreaForFault (m.arch.floor addr) access

/-- The copies that `from_existed_user_inner` inserts in the child, in the parent's order;
a shared-memory area is left out when its segment cannot be retained. -/
def forkLoop (retain : Nat → Bool) : Nat → List MapArea → MemorySet → MemorySet
  | _, [], child => child
  | idx, a :: rest, child =>
    if a.isShm && !retain idx then forkLoop retain (idx + 1) rest child
    else forkLoop retain (idx + 1) rest (child.insertAreaSorted a)

def fromExistedUser (s : MemorySet) (retain : Nat → Bool) : MemorySet :=
  forkLoop retain 0 s.areas { s with areas := [], lastAreaIdxContaining := none }

end MemorySet

end Whusp.Mm
