import Whusp.Lib.RefCount
import Whusp.Mm.MemorySet

/-!
# Sharing of physical frames between address spaces

The page tables and the ownership records of a family of address spaces: which frame backs
a page, who owns it, and with what flags it is mapped (`mm/area.rs`, `mm/page_table.rs`,
`mm/frame_allocator.rs`, and the fork, copy-on-write and fault paths of
`mm/user_space.rs`).

A page is named by its address space and page number.  `dataFrames` is the union of the
`data_frames` of the areas of a space, and `extPages` that of `page_cache_pages` and of the
pages of attached segments; the areas of a space do not overlap, so a page is in one of
them.  A loop over the pages of an area visits them in ascending order.  Only the leaves of
a page table are kept, `none` for an entry whose bits are zero.
-/

namespace Whusp.Mm.Sharing

open Function
open Whusp.Syscall (Arch PageTableEntry)
open Whusp.Lib (Byte)

/-! ## Page-table entries -/

structure PTEFlags where
  v : Bool
  r : Bool
  w : Bool
  x : Bool
  u : Bool
  cow : Bool

namespace PTEFlags

/-- `PTEFlags::from_bits_truncate(permission.bits())`. -/
def ofPerm (p : MapPermission) : PTEFlags := ⟨false, p.r, p.w, p.x, p.u, false⟩

/-- `PageTableEntry::flags`. -/
def ofEntry (e : PageTableEntry) : PTEFlags :=
  ⟨e.valid, e.readable, e.writable, e.executable, e.user, e.cow⟩

/-- `intersects(R | W | X)`. -/
def leaf (f : PTEFlags) : Bool := f.r || f.w || f.x

/-- `normalized_leaf_flags`, without the accessed and dirty bits. -/
def normalized (f : PTEFlags) : PTEFlags := if f.leaf then { f with v := true } else f

/-- The flags of a page that is shared for copy-on-write. -/
def toCow (f : PTEFlags) : PTEFlags := { f with w := false, cow := true }

/-- The flags of a page that is private again. -/
def toWritable (f : PTEFlags) : PTEFlags := { f with w := true, cow := false }

end PTEFlags

/-- `PageTableEntry::new` for a user leaf.  On LoongArch every nonzero entry is valid. -/
def newEntry (arch : Arch) (ppn : Nat) (f : PTEFlags) : PageTableEntry where
  ppn := ppn
  valid := match arch with
    | .riscv64 => f.v
    | .loongarch64 => true
  readable := f.r
  writable := f.w
  executable := f.x
  user := f.u
  cow := f.cow

open PTEFlags

def markCowReadonly (arch : Arch) (e : PageTableEntry) : Option PageTableEntry :=
  if ¬ e.valid then none
  else if e.cow && !e.writable then some e
  else some (newEntry arch e.ppn (ofEntry e).toCow)

def restoreWriteClearCow (arch : Arch) (e : PageTableEntry) : Option PageTableEntry :=
  if ¬ e.valid ∨ ¬ e.cow then none
  else some (newEntry arch e.ppn (ofEntry e).toWritable)

/-- A copy-on-write entry keeps its mark, also across `PROT_NONE`. -/
def remapResidentFrame (arch : Arch) (pte : Option PageTableEntry) (ppn : Nat) (f : PTEFlags)
    (hasLeafPermission : Bool) : Option PageTableEntry :=
  let f := if pte.any (·.cow) then f.toCow else f
  if hasLeafPermission then
    match pte with
    | none => some (newEntry arch ppn f.normalized)
    | some e => some (newEntry arch e.ppn f.normalized)
  else if f.cow then pte.map fun e => newEntry arch e.ppn f.normalized
  else none

/-! ## Areas -/

structure MmapKind where
  shared : Bool
  writable : Bool
  backed : Bool
  pageCacheId : Option Nat
  deriving DecidableEq

inductive AreaKind where
  | framed
  | mmap (info : MmapKind)
  | shm
  deriving DecidableEq

structure Vma where
  start : Nat
  stop : Nat
  perm : MapPermission
  kind : AreaKind

namespace Vma

def contains (a : Vma) (vpn : Nat) : Bool := decide (a.start ≤ vpn) && decide (vpn < a.stop)

def pages (a : Vma) : List Nat := List.range' a.start (a.stop - a.start)

def isPrivate (a : Vma) : Bool :=
  match a.kind with
  | .framed => true
  | .mmap info => !info.shared
  | .shm => false

def isPrivateUserWritable (a : Vma) : Bool := a.perm.w && a.perm.u && a.isPrivate

def isPrivateUserMmap (a : Vma) : Bool :=
  a.perm.u &&
    match a.kind with
    | .mmap info => !info.shared
    | _ => false

end Vma

/-- The read, write and execute bits of a `PROT_` argument or of a program header. -/
structure Prot where
  r : Bool
  w : Bool
  x : Bool

/-- Write permission brings read permission. -/
def protToMapPermission (p : Prot) : MapPermission := ⟨p.r || p.w, p.w, p.x, true⟩

def mapPermissionFromPhFlags (p : Prot) : MapPermission := ⟨p.r, p.w, p.x, true⟩

/-- The callers that create an area. -/
inductive NewArea where
  /-- A load segment mapped lazily; only read-only segments use the page cache. -/
  | execSegment (ph : Prot) (pageCacheId : Option Nat)
  /-- A load segment, or the vDSO, mapped and filled at exec. -/
  | eagerSegment (ph : Prot)
  | framedUser
  | trapContext
  | mmap (prot : Prot) (shared backed : Bool) (pageCacheId : Option Nat)
  | shm (writable exec : Bool)

def NewArea.perm : NewArea → MapPermission
  | .execSegment ph _ => mapPermissionFromPhFlags ph
  | .eagerSegment ph => mapPermissionFromPhFlags ph
  | .framedUser => ⟨true, true, false, true⟩
  | .trapContext => ⟨true, true, false, false⟩
  | .mmap prot _ _ _ => protToMapPermission prot
  | .shm writable exec => ⟨true, writable, exec, true⟩

def NewArea.kind : NewArea → AreaKind
  | .execSegment ph id => .mmap ⟨false, ph.w, true, if ph.w then none else id⟩
  | .mmap prot shared backed id =>
    .mmap ⟨shared, prot.w, backed, if shared || !prot.w then id else none⟩
  | .shm _ _ => .shm
  | .eagerSegment _ | .framedUser | .trapContext => .framed

/-- Areas whose pages are allocated when they are mapped. -/
def NewArea.eager : NewArea → Bool
  | .eagerSegment _ | .trapContext => true
  | .execSegment _ _ | .framedUser | .mmap _ _ _ _ | .shm _ _ => false

def NewArea.toVma (n : NewArea) (start stop : Nat) : Vma := ⟨start, stop, n.perm, n.kind⟩

/-! ## The state -/

/-- An address space and a page number in it. -/
abbrev Page := Nat × Nat

/-- What owns a frame besides the areas: a page of the page cache (the generation is `none`
for the version that shared mappings use), or a page of a System V segment. -/
inductive Key where
  | file (id page : Nat) (generation : Option Nat)
  | segment (shmid index : Nat)
  deriving DecidableEq

structure State where
  areas : Nat → List Vma
  pt : Page → Option PageTableEntry
  dataFrames : Page → Option Nat
  extPages : Page → Option Key
  /-- The frames of cached file pages and of segments. -/
  cache : Key → Option Nat
  pins : Key → Nat
  refs : Nat → Nat
  free : List Nat
  bytes : Nat → Nat → Byte

namespace State

def areaAt (s : State) (x : Page) : Option Vma := (s.areas x.1).find? fun a => a.contains x.2

def setPte (s : State) (x : Page) (e : Option PageTableEntry) : State :=
  { s with pt := update s.pt x e }

def setAreas (s : State) (p : Nat) (l : List Vma) : State :=
  { s with areas := update s.areas p l }

/-- Some free frame, with its first owner. `contents` is what the caller fills it with. -/
def frameAlloc (s : State) (contents : Nat → Byte) : Option (Nat × State) :=
  match s.free with
  | [] => none
  | f :: rest => some (f, { s with
      free := rest
      refs := update s.refs f 1
      bytes := update s.bytes f contents })

/-- Dropping a `FrameTracker`. -/
def frameDealloc (s : State) (f : Nat) : State :=
  { s with
    refs := update s.refs f (s.refs f - 1)
    free := if s.refs f = 1 then f :: s.free else s.free }

/-- Publishing a leaf and its owner, the last part of `map_existing_frame_with_flags`; without
leaf permission the entry stays empty. -/
def publishFrame (arch : Arch) (s : State) (x : Page) (f : Nat) (flags : PTEFlags) : State :=
  { s with
    pt := update s.pt x
      (if flags.leaf then some (newEntry arch f flags.normalized) else none)
    dataFrames := update s.dataFrames x (some f) }

/-- A page that is already there keeps its frame. -/
def mapExistingFrameWithFlags (arch : Arch) (s : State) (x : Page) (f : Nat) (flags : PTEFlags) :
    State :=
  if (s.dataFrames x).isSome || (s.pt x).isSome then
    (if flags.leaf then s else s.setPte x none).frameDealloc f
  else s.publishFrame arch x f flags

/-- `map_page_cache_frame` and `map_shm_frame` on a page that is not there yet; the reference
of the area is recorded with the leaf. -/
def mapExtFrame (arch : Arch) (s : State) (x : Page) (k : Key) (ppn : Nat) (flags : PTEFlags) :
    State :=
  { s with
    pt := update s.pt x (some (newEntry arch ppn flags.normalized))
    extPages := update s.extPages x (some k)
    pins := update s.pins k (s.pins k + 1) }

/-- No frame, cached page or leaf at the page. -/
def vacant (s : State) (x : Page) : Bool :=
  (s.dataFrames x).isNone && (s.extPages x).isNone && (s.pt x).isNone

/-- The leaf flags of a cached page: a writable mapping starts write-protected. -/
def cacheFlags (a : Vma) (info : MmapKind) : PTEFlags :=
  if info.writable then { ofPerm a.perm with w := false } else ofPerm a.perm

/-! ## Faults -/

/-- `resolve_lazy_framed_page_fault`, and an mmap fault that is resolved by a frame of its own
(`build_frame` and `install_mmap_fault_page`). -/
def pageFault (arch : Arch) (s : State) (x : Page) (access : MmapFaultAccess)
    (contents : Nat → Byte) : State :=
  match s.areaAt x with
  | none => s
  | some a =>
    if a.kind = .shm ∨ ¬ a.perm.u ∨ ¬ access.isAllowedBy a.perm then s
    else if (s.pt x).isSome || (s.dataFrames x).isSome then s
    else
      match s.frameAlloc contents with
      | none => s
      | some (f, s) => s.mapExistingFrameWithFlags arch x f (ofPerm a.perm)

/-- An mmap fault that is resolved by a page of the page cache: private mappings use the
current version of the file, shared ones the version of their own. -/
def pageCacheFault (arch : Arch) (s : State) (x : Page) (access : MmapFaultAccess)
    (page : Nat) (generation : Nat) : State :=
  match s.areaAt x with
  | none => s
  | some a =>
    match a.kind with
    | .mmap info =>
      match info.pageCacheId with
      | none => s
      | some id =>
        let k := Key.file id page (if info.shared then none else some generation)
        if ¬ access.isAllowedBy a.perm ∨ ¬ (info.shared || !info.writable) ∨ ¬ s.vacant x then s
        else
          match s.cache k with
          | none => s
          | some ppn => s.mapExtFrame arch x k ppn (cacheFlags a info)
    | _ => s

/-- `map_shm_frame` for one page of an attached segment. -/
def shmMap (arch : Arch) (s : State) (x : Page) (shmid index : Nat) : State :=
  match s.areaAt x with
  | none => s
  | some a =>
    if a.kind ≠ .shm ∨ ¬ s.vacant x then s
    else
      match s.cache (.segment shmid index) with
      | none => s
      | some ppn => s.mapExtFrame arch x (.segment shmid index) ppn (ofPerm a.perm)

/-- The write-fault branch of `prepare_mmap_page_fault`: the first store to a page of a
shared writable file mapping. -/
def sharedWriteFault (arch : Arch) (s : State) (x : Page) : State :=
  match s.areaAt x, s.pt x with
  | some a, some e =>
    match a.kind with
    | .mmap info =>
      if a.perm.w && !e.writable && info.shared && info.writable && (s.extPages x).isSome then
        s.setPte x (some (newEntry arch e.ppn (ofPerm a.perm).normalized))
      else s
    | _ => s
  | _, _ => s

def resolveCowPageFault (arch : Arch) (s : State) (x : Page) : State :=
  match s.pt x, s.areaAt x, s.dataFrames x with
  | some e, some a, some old =>
    if ¬ e.valid ∨ e.writable ∨ ¬ e.cow ∨ ¬ a.perm.w then s
    else if s.refs e.ppn = 1 then
      match restoreWriteClearCow arch e with
      | none => s
      | some e' => s.setPte x (some e')
    else
      match s.frameAlloc (s.bytes e.ppn) with
      | none => s
      | some (f, s) =>
        { s with
          pt := update s.pt x
            (some (newEntry arch f (ofEntry e).toWritable.normalized))
          dataFrames := update s.dataFrames x (some f) }.frameDealloc old
  | _, _, _ => s

/-- A store by user code: it goes to the frame of a valid, writable user leaf. -/
def store (s : State) (x : Page) (offset : Nat) (value : Byte) : State :=
  match s.pt x with
  | none => s
  | some e =>
    if e.valid && e.writable && e.user then
      { s with
        bytes := update s.bytes e.ppn (update (s.bytes e.ppn) offset value) }
    else s

/-! ## Unmapping -/

/-- One page of `unmap_resident_deferred` or `discard_mmap_resident_range`. -/
def dropPage (s : State) (x : Page) : State :=
  match s.dataFrames x with
  | some f =>
    { s with
      pt := update s.pt x none
      dataFrames := update s.dataFrames x none }.frameDealloc f
  | none =>
    match s.extPages x with
    | some k =>
      { s with
        pt := update s.pt x none
        extPages := update s.extPages x none
        pins := update s.pins k (s.pins k - 1) }
    | none => s

def dropPages (s : State) (p : Nat) : List Nat → State
  | [] => s
  | v :: vs => (s.dropPage (p, v)).dropPages p vs

/-- An area leaves the address space (`munmap`, `MAP_FIXED`, detach, break shrinking). -/
def unmapArea (s : State) (p idx : Nat) : State :=
  match (s.areas p)[idx]? with
  | none => s
  | some a => (s.dropPages p a.pages).setAreas p ((s.areas p).eraseIdx idx)

/-- `madvise(MADV_DONTNEED)` on one area. -/
def discardRange (s : State) (p idx lo hi : Nat) : State :=
  match (s.areas p)[idx]? with
  | none => s
  | some a =>
    match a.kind with
    | .mmap _ => s.dropPages p (a.pages.filter fun v => decide (lo ≤ v) && decide (v < hi))
    | _ => s

def dropAreas (s : State) (p : Nat) : List Vma → State
  | [] => s.setAreas p []
  | a :: rest => (s.dropPages p a.pages).dropAreas p rest

/-! ## Mapping and protection -/

/-- The frames of an area that is populated at once; `none` when memory runs out. -/
def populate (arch : Arch) (s : State) (p : Nat) (flags : PTEFlags) (contents : Nat → Nat → Byte) :
    List Nat → Option State
  | [] => some s
  | v :: vs =>
    match s.frameAlloc (contents v) with
    | none => none
    | some (f, s) =>
      (s.mapExistingFrameWithFlags arch (p, v) f flags).populate arch p flags contents vs

def mapArea (arch : Arch) (s : State) (p : Nat) (n : NewArea) (start stop : Nat)
    (contents : Nat → Nat → Byte) : State :=
  let a := n.toVma start stop
  let mapped := s.setAreas p (s.areas p ++ [a])
  if n.eager then
    (mapped.populate arch p (ofPerm a.perm) contents a.pages).getD s
  else mapped

/-- `MapArea::split_off`; frames and cached pages stay with their pages. -/
def splitArea (s : State) (p idx at_ : Nat) : State :=
  match (s.areas p)[idx]? with
  | none => s
  | some a =>
    if a.start < at_ ∧ at_ < a.stop then
      s.setAreas p (Lib.insertAt ((s.areas p).set idx { a with stop := at_ }) (idx + 1)
        { a with start := at_ })
    else s

/-- The range of an area grows (`brk`, `mremap`, a grow-down fault). -/
def extendArea (s : State) (p idx start stop : Nat) : State :=
  match (s.areas p)[idx]? with
  | none => s
  | some a =>
    if start ≤ a.start ∧ a.stop ≤ stop then
      s.setAreas p ((s.areas p).set idx { a with start := start, stop := stop })
    else s

/-- `materialize_page_cache_pages`: cached pages become private copies; `none` when memory
runs out before any of them is published. -/
def materializePages (arch : Arch) (s : State) (p : Nat) (flags : PTEFlags) :
    List Nat → Option State
  | [] => some s
  | v :: vs =>
    match s.dataFrames (p, v), s.extPages (p, v), s.pt (p, v) with
    | none, some k, some e =>
      match s.frameAlloc (s.bytes e.ppn) with
      | none => none
      | some (f, s) =>
        materializePages arch { s with
          pt := update s.pt (p, v) (some (newEntry arch f flags.normalized))
          dataFrames := update s.dataFrames (p, v) (some f)
          extPages := update s.extPages (p, v) none
          pins := update s.pins k (s.pins k - 1) } p flags vs
    | none, some _, none => none
    | _, _, _ => s.materializePages arch p flags vs

/-- The new leaf of a page when its area gets the permission `perm`. -/
def remappedLeaf (arch : Arch) (s : State) (a : Vma) (perm : MapPermission) (x : Page) :
    Option PageTableEntry :=
  let flags := ofPerm perm
  match s.dataFrames x with
  | some f => remapResidentFrame arch (s.pt x) f flags flags.leaf
  | none =>
    match a.kind, s.extPages x with
    | .mmap _, some _ =>
      (s.pt x).map fun e =>
        newEntry arch e.ppn (if perm.w then { flags with w := false } else flags).normalized
    | _, _ => s.pt x

def remappedArea (a : Vma) (perm : MapPermission) : Vma :=
  { a with
    perm := perm
    kind := match a.kind with
      | .mmap info => .mmap { info with writable := perm.w }
      | kind => kind }

/-- `remap_permission`.  Its loops rewrite the leaf of every resident page of the area. -/
def remapPermission (arch : Arch) (s : State) (p idx : Nat) (perm : MapPermission) : State :=
  match (s.areas p)[idx]? with
  | none => s
  | some a =>
    let materialized : Option State :=
      match a.kind with
      | .mmap info =>
        if !info.shared && perm.w then
          s.materializePages arch p (ofPerm perm) a.pages
        else some s
      | _ => some s
    match materialized with
    | none => s
    | some s =>
      { s with
        pt := fun x => if x.1 = p ∧ a.contains x.2 then s.remappedLeaf arch a perm x else s.pt x
        areas := update s.areas p ((s.areas p).set idx (remappedArea a perm)) }

/-! ## Fork -/

/-- What the environment answers during a fork: whether a page-table path of the child can
be allocated, and whether a segment can be retained for the area at an index. -/
structure ForkEnv where
  paths : Nat → Bool
  retain : Nat → Bool

/-- The child takes over a retained frame. -/
def retainInto (arch : Arch) (env : ForkEnv) (q v f : Nat) (flags : PTEFlags) (s : State) :
    State × Bool :=
  if s.refs f = 0 ∨ ¬ env.paths v then (s, false)
  else
    ({ s with refs := update s.refs f (s.refs f + 1) }.mapExistingFrameWithFlags arch
      (q, v) f flags, true)

def copyInto (arch : Arch) (env : ForkEnv) (q v src : Nat) (flags : PTEFlags) (s : State) :
    State × Bool :=
  match s.frameAlloc (s.bytes src) with
  | none => (s, false)
  | some (f, t) =>
    if ¬ env.paths v then (s, false)
    else (t.mapExistingFrameWithFlags arch (q, v) f flags, true)

/-- Parent and child share the frame of the leaf `e` for copy-on-write. -/
def cowInto (arch : Arch) (env : ForkEnv) (p q v : Nat) (f : Nat) (e : PageTableEntry)
    (s : State) : State × Bool :=
  match s.retainInto arch env q v f (ofEntry e).toCow with
  | (s, false) => (s, false)
  | (s, true) =>
    match (s.pt (p, v)).bind (markCowReadonly arch) with
    | none => (s, false)
    | some e' => (s.setPte (p, v) (some e'), true)

/-- A resident leaf that can carry the copy-on-write mark. -/
def cowLeaf (s : State) (x : Page) : Option PageTableEntry :=
  (s.pt x).filter fun e => e.valid && (ofEntry e).leaf

/-- The page of an area with a frame of its own, in the branches of
`from_existed_user_inner`. -/
def forkDataPage (arch : Arch) (env : ForkEnv) (p q : Nat) (a : Vma) (v : Nat) (s : State) :
    State × Bool :=
  match a.kind with
  | .shm => (s, true)
  | .mmap info =>
    match s.dataFrames (p, v) with
    | none => (s, true)
    | some f =>
      match if a.isPrivateUserMmap then s.cowLeaf (p, v) else none with
      | some e => s.cowInto arch env p q v f e
      | none =>
        if info.shared then s.retainInto arch env q v f (ofPerm a.perm)
        else s.copyInto arch env q v f (ofPerm a.perm)
  | .framed =>
    if a.isPrivateUserWritable then
      match s.dataFrames (p, v), s.pt (p, v) with
      | none, _ => (s, true)
      | some _, none => (s, false)
      | some _, some e => s.cowInto arch env p q v e.ppn e
    else if a.perm.w then
      match s.pt (p, v) with
      | none => (s, false)
      | some e => s.copyInto arch env q v e.ppn (ofPerm a.perm)
    else
      match s.dataFrames (p, v) with
      | none => (s, true)
      | some f =>
        if a.perm.u then
          match s.cowLeaf (p, v) with
          | some e => s.cowInto arch env p q v f e
          | none => s.copyInto arch env q v f (ofPerm a.perm)
        else s.retainInto arch env q v f (ofPerm a.perm)

/-- The page of an area with a reference to the page cache or to a segment. -/
def forkExtPage (arch : Arch) (env : ForkEnv) (p q : Nat) (a : Vma) (v : Nat) (s : State) :
    State × Bool :=
  match s.extPages (p, v) with
  | none => (s, true)
  | some k =>
    match a.kind, s.cache k with
    | .framed, _ => (s, true)
    | .mmap _, none => (s, false)
    | .shm, none => (s, true)
    | .mmap info, some ppn =>
      if ¬ env.paths v then (s, false)
      else if s.vacant (q, v) then (s.mapExtFrame arch (q, v) k ppn (cacheFlags a info), true)
      else (s, true)
    | .shm, some ppn =>
      if ¬ env.paths v then (s, false)
      else if s.vacant (q, v) then
        (s.mapExtFrame arch (q, v) k ppn (ofPerm a.perm), true)
      else (s, true)

/-- A loop over pages that stops at the first failure. -/
def whileOk (step : Nat → State → State × Bool) : List Nat → State → State × Bool
  | [], s => (s, true)
  | v :: vs, s =>
    match step v s with
    | (s, false) => (s, false)
    | (s, true) => whileOk step vs s

/-- One page of `ensure_shared_anonymous_mmap_resident`; a frame for a page that already has
one would be dropped again. -/
def ensureResident (arch : Arch) (p : Nat) (a : Vma) (v : Nat) (s : State) : State × Bool :=
  if (s.pt (p, v)).isSome || (s.dataFrames (p, v)).isSome then (s, true)
  else
    match s.frameAlloc fun _ => 0 with
    | none => (s, false)
    | some (f, s) =>
      (s.mapExistingFrameWithFlags arch (p, v) f (ofPerm a.perm), true)

def isSharedAnonymous (a : Vma) : Bool :=
  match a.kind with
  | .mmap info => info.shared && !info.backed && info.pageCacheId.isNone
  | _ => false

def forkArea (arch : Arch) (env : ForkEnv) (p q idx : Nat) (a : Vma) (s : State) : State × Bool :=
  match if isSharedAnonymous a then whileOk (ensureResident arch p a) a.pages s else (s, true) with
  | (s, false) => (s, false)
  | (s, true) =>
    if a.kind = .shm ∧ ¬ env.retain idx then (s, true)
    else
      match whileOk (forkDataPage arch env p q a) a.pages (s.setAreas q (s.areas q ++ [a])) with
      | (s, false) => (s, false)
      | (s, true) => whileOk (forkExtPage arch env p q a) a.pages s

def forkAreas (arch : Arch) (env : ForkEnv) (p q : Nat) : Nat → List Vma → State → State × Bool
  | _, [], s => (s, true)
  | idx, a :: rest, s =>
    match s.forkArea arch env p q idx a with
    | (s, false) => (s, false)
    | (s, true) => forkAreas arch env p q (idx + 1) rest s

/-- `from_existed_user` into the empty address space `q`; a child that could not be completed
is dropped. -/
def fork (arch : Arch) (env : ForkEnv) (s : State) (p q : Nat) : State :=
  if q = p ∨ s.areas q ≠ [] then s
  else
    match s.forkAreas arch env p q 0 (s.areas p) with
    | (s, true) => s
    | (s, false) => s.dropAreas q (s.areas q)

/-! ## Page cache and segments -/

/-- A file page is loaded, or a segment page created. -/
def loadKey (s : State) (k : Key) (contents : Nat → Byte) : State :=
  if (s.cache k).isSome then s
  else
    match s.frameAlloc contents with
    | none => s
    | some (f, s) => { s with cache := update s.cache k (some f) }

/-- A page without references is evicted, or its segment removed. -/
def evictKey (s : State) (k : Key) : State :=
  match s.cache k with
  | none => s
  | some f =>
    if s.pins k = 0 then
      { s with cache := update s.cache k none }.frameDealloc f
    else s

end State

end Whusp.Mm.Sharing
