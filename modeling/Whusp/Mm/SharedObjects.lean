import Whusp.Lib.Counting
import Whusp.Lib.Transition
import Whusp.Mm.Pieces
import Whusp.Mm.Shm

/-!
# Shared objects under their mappings

The address spaces of all processes, the segment table and the memfds that their areas refer
to, and the calls that change them (`syscall/memory.rs`, `mm/user_space.rs`,
`mm/memory_set.rs`, `fs/memfd.rs`): `mmap`, `munmap`, `mprotect`, `mremap`, `brk`, the System V
calls, the seals of a memfd, fork, exec and exit.

What a call does to an address space happens under the lock of its process and is one step.
`shmat` has two: it attaches, and then maps or gives up.  `mmap` has three: it looks at the file
before it takes the lock, inserts the area under it, and tells the memfd afterwards.  The
references of a removed segment piece are given back after the page tables of all processors have
been invalidated, each in a step of its own.
-/

namespace Whusp.Mm.Pieces

open Whusp.Lib (System)

/-! ## Memfds -/

def F_SEAL_SEAL : BitVec 32 := 0x0001
def F_SEAL_SHRINK : BitVec 32 := 0x0002
def F_SEAL_GROW : BitVec 32 := 0x0004
def F_SEAL_WRITE : BitVec 32 := 0x0008
def F_SEAL_KNOWN : BitVec 32 := F_SEAL_SEAL ||| F_SEAL_SHRINK ||| F_SEAL_GROW ||| F_SEAL_WRITE

/-- The fields of a `MemfdInner` that sealing reads and writes. -/
structure Memfd where
  seals : BitVec 32
  writableSharedMmaps : Nat

inductive SealError where
  | permissionDenied
  | invalidInput
  | busy

namespace Memfd

/-- `make_memfd`. -/
def make (allowSealing : Bool) : Memfd where
  seals := if allowSealing then 0 else F_SEAL_SEAL
  writableSharedMmaps := 0

def hasSeal (m : Memfd) (bits : BitVec 32) : Bool := m.seals &&& bits ≠ 0

/-- `add_seals` on a description with access mode `writable`. -/
def addSeals (m : Memfd) (writable : Bool) (seals : BitVec 32) : Except SealError Unit × Memfd :=
  if ¬ writable then (.error .permissionDenied, m)
  else if seals &&& ~~~F_SEAL_KNOWN ≠ 0 then (.error .invalidInput, m)
  else if m.hasSeal F_SEAL_SEAL then (.error .permissionDenied, m)
  else if seals &&& F_SEAL_WRITE ≠ 0 ∧ 0 < m.writableSharedMmaps then (.error .busy, m)
  else (.ok (), { m with seals := m.seals ||| seals })

def incWritableSharedMmap (m : Memfd) : Memfd :=
  { m with writableSharedMmaps := m.writableSharedMmaps + 1 }

def decWritableSharedMmap (m : Memfd) : Memfd :=
  { m with writableSharedMmaps := m.writableSharedMmaps - 1 }

end Memfd

/-- The memfd that an area maps shared and writable. -/
def Kind.writer : Kind → Option Nat
  | .mmap info =>
    if info.shared && info.writable then info.backingFile.bind MappedFile.memfd else none
  | .shm _ | .framed => none

/-- Other files never do. -/
def blocksSharedWritableMmap (memfds : Nat → Memfd) (file : MappedFile) : Bool :=
  file.memfd.any fun f => (memfds f).hasSeal F_SEAL_WRITE

/-- `inc_writable_shared_mmap` on the file of a mapping. -/
def incWriter (memfds : Nat → Memfd) (a : Piece) : Nat → Memfd :=
  match a.kind.writer with
  | none => memfds
  | some f => Function.update memfds f (memfds f).incWritableSharedMmap

def releaseMmapRefs (memfds : Nat → Memfd) (a : Piece) : Nat → Memfd :=
  match a.kind.writer with
  | none => memfds
  | some f => Function.update memfds f (memfds f).decWritableSharedMmap

/-- `retain_attached_segment` in `split_off`; its answer is not looked at. -/
def retainHalf (shm : ShmManager) (a : Piece) : ShmManager :=
  match a.kind.shmSegmentId with
  | none => shm
  | some shmid => (shm.retainAttached shmid).2

/-! ## Fork -/

/-- What `map_shm_frame` meets in the page table of the child. -/
inductive Leaf where
  | empty
  /-- The entry is there already; nothing is recorded. -/
  | present
  | noPath

/-- What a fork meets, area by area. -/
structure ForkEnv where
  resident : Nat → Bool
  leaf : Nat → Nat → Leaf
  /-- The pages of an area that is no segment piece could be shared or copied. -/
  copied : Nat → Bool

/-- The loop over the pages of a segment piece: whether it got to the end, and the pages it
mapped. -/
def forkShmPages (leaf : Nat → Leaf) (mappings : List ShmPageMapping) :
    List ShmPage → Bool × List ShmPage
  | [] => (true, [])
  | p :: rest =>
    match mappings.find? fun q => q.pageIndex == p.pageIndex with
    | none => forkShmPages leaf mappings rest
    | some q =>
      match leaf p.vpn with
      | .noPath => (false, [])
      | .present => forkShmPages leaf mappings rest
      | .empty =>
        let (done, pages) := forkShmPages leaf mappings rest
        (done, ⟨p.vpn, p.pageIndex, q.ppn⟩ :: pages)

/-- One round of `from_existed_user_inner`; `false` is the `return None`. -/
def forkArea (env : ForkEnv) (idx : Nat) (a : Piece) (shm : ShmManager) (child : Space) :
    Bool × ShmManager × Space :=
  if ¬ env.resident idx then (false, shm, child)
  else
    match a.kind with
    | .shm info =>
      let (retained, shm) := shm.retainAttached info.shmid
      if ¬ retained then (true, shm, child)
      else
        let (mapped, pages) :=
          forkShmPages (env.leaf idx) (shm.attachedSegmentPages info.shmid) info.pages
        (mapped, shm, child.insertAreaSorted { a with kind := .shm { info with pages } })
    | .mmap _ | .framed => (env.copied idx, shm, child.insertAreaSorted a)

def forkLoop (env : ForkEnv) : Nat → List Piece → ShmManager → Space → Bool × ShmManager × Space
  | _, [], shm, child => (true, shm, child)
  | idx, a :: rest, shm, child =>
    match forkArea env idx a shm child with
    | (false, shm, child) => (false, shm, child)
    | (true, shm, child) => forkLoop env (idx + 1) rest shm child

/-! ## The system -/

/-- The arguments of `mmap` after the address has been chosen, and what it meets. -/
structure MmapArgs where
  range : VpnRange
  perm : MapPermission
  shared : Bool
  growDown : Bool
  file : Option MappedFile
  readable : Bool
  /-- `MAP_POPULATE` was asked for and `prefault_mmap_range` failed. -/
  populateFailed : Bool

def MmapArgs.piece (args : MmapArgs) : Piece where
  vpnRange := args.range
  mapPerm := args.perm
  kind := .mmap ⟨args.shared, args.perm.w, args.growDown, args.file⟩

structure World where
  shm : ShmManager
  memfds : Nat → Memfd
  spaces : List Space
  /-- Attaches in flight: `attach_segment` has returned, the area is not mapped yet. -/
  attaching : List ShmAttach
  /-- The ids of removed segment pieces that are still to be detached. -/
  retired : List Nat
  /-- Calls of `mmap` that have looked at their file, and calls whose area is in place. -/
  checked : List MmapArgs
  mapped : List MmapArgs

structure ExecArea where
  range : VpnRange
  perm : MapPermission
  file : Option MappedFile

def ExecArea.piece (a : ExecArea) : Piece where
  vpnRange := a.range
  mapPerm := a.perm
  kind :=
    match a.file with
    | none => .framed
    | some file => .mmap ⟨false, a.perm.w, false, some file⟩

inductive SharedEvent where
  | shmget (key : Int) (size : Nat) (shmflg : BitVec 32) (context : ShmCreateContext)
      (caller : ShmCaller) (frameAlloc : Nat → Option Nat)
  | shmRmid (shmid : Nat) (caller : ShmCaller)
  | shmSet (shmid : Nat) (attrs : ShmSetAttrs) (caller : ShmCaller)
  | setShmmax (value : Nat)
  | setShmmni (value : Nat)
  | setShmall (value : Nat)
  | setShmNextId (value : Int)
  | shmatAttach (shmid : Nat)
  /-- `attach_shm_area` of an attach in flight, at the chosen address. -/
  | shmatMap (k i startVpn : Nat) (perm : MapPermission)
  /-- `attach_shm_area` found no place or no page-table path. -/
  | shmatGiveUp (k : Nat)
  | shmdt (i startVpn : Nat)
  /-- `detach_segment` for one retired piece. -/
  | release (k : Nat)
  | addSeals (memfd : Nat) (writable : Bool) (seals : BitVec 32)
  | mmapCheck (args : MmapArgs)
  /-- The `k`-th checked call maps its area in process `i`, without or with `MAP_FIXED`. -/
  | mmap (k i : Nat)
  | mmapFixed (k i : Nat)
  | mmapFinish (k : Nat)
  | munmap (i startVpn endVpn : Nat)
  | mprotect (i startVpn endVpn : Nat) (perm : MapPermission) (remap : Piece → Space.Remap)
  | mremap (i oldStartVpn oldEndVpn newEndVpn : Nat)
  | brkShrink (i heapStartVpn newEndVpn oldEndVpn : Nat)
  /-- The heap grows: an area is extended, or a new one is inserted. -/
  | brkExtend (i idx : Nat) (range : VpnRange)
  /-- A user stack, a trap-context page, a new heap area. -/
  | pushFramed (i : Nat) (range : VpnRange) (perm : MapPermission)
  /-- A thread gives its stack or trap-context page back. -/
  | removeArea (i startVpn : Nat)
  | fork (i : Nat) (env : ForkEnv)
  | exec (i : Nat) (image : List ExecArea)
  | exit (i : Nat)

namespace World

/-- One operation on the areas of process `i`: the segments of the halves are retained, those
of the removed areas wait to be detached. -/
def applyEdit (w : World) (i : Nat) (e : Edit) : World :=
  { w with
    shm := e.halves.foldl retainHalf w.shm
    spaces := w.spaces.set i e.space
    retired := w.retired ++ (held Kind.shmSegmentId e.removed).reduceOption }

/-- The same where the code also calls `release_mmap_refs` on what it removed. -/
def applyUnmap (w : World) (i : Nat) (e : Edit) : World :=
  { w.applyEdit i e with memfds := e.removed.foldl releaseMmapRefs w.memfds }

def insertArea (w : World) (i : Nat) (s : Space) (a : Piece) : World :=
  { w with spaces := w.spaces.set i (s.insertAreaSorted a) }

/-- The checks of `sys_mmap_impl` on the file. -/
def mmapAllowed (w : World) (args : MmapArgs) : Bool :=
  match args.file with
  | none => true
  | some file =>
    args.readable &&
      (!(args.shared && args.perm.w) || (file.writable && !blocksSharedWritableMmap w.memfds file))

/-- The end of `sys_mmap_impl`: the file is told of the area unless `MAP_POPULATE` failed. -/
def finishMmap (w : World) (args : MmapArgs) : World :=
  if args.populateFailed then w else { w with memfds := incWriter w.memfds args.piece }

def mmapFixed (w : World) (i : Nat) (s : Space) (args : MmapArgs) : World :=
  let e := s.clearRange args.range.start args.range.stop
  (w.applyUnmap i e).insertArea i e.space args.piece

/-- The section of the `k`-th checked call under the lock of process `i`. -/
def mapChecked (w : World) (k i : Nat) (insert : World → Space → MmapArgs → World) :
    Option World := do
  let args ← w.checked[k]?
  let s ← w.spaces[i]?
  return { insert w s args with
    checked := w.checked.eraseIdx k
    mapped := w.mapped ++ [args] }

/-- A child that was built to the end joins; a partial one is dropped. -/
def sysFork (w : World) (s : Space) (env : ForkEnv) : World :=
  match forkLoop env 0 s.areas w.shm .empty with
  | (true, shm, child) => { w with shm, spaces := w.spaces ++ [child] }
  | (false, shm, child) =>
    { w with
      shm
      memfds := child.areas.foldl releaseMmapRefs w.memfds
      retired := w.retired ++ (held Kind.shmSegmentId child.areas).reduceOption }

/-- The new image replaces the old one, which is dropped. -/
def sysExec (w : World) (i : Nat) (s : Space) (image : List ExecArea) : World :=
  { w.applyUnmap i s.removeAll with spaces := w.spaces.set i ⟨image.map ExecArea.piece, none⟩ }

/-- The piece that `attach_shm_area` inserts. -/
def attachPiece (a : ShmAttach) (startVpn : Nat) (perm : MapPermission) (range : VpnRange) :
    Piece where
  vpnRange := range
  mapPerm := perm
  kind := .shm ⟨a.shmid, a.len, 0,
    (a.pages.filter fun q => decide (q.pageIndex < range.stop - range.start)).map fun q =>
      ⟨startVpn + q.pageIndex, q.pageIndex, q.ppn⟩⟩

def shmatMap (w : World) (k i startVpn : Nat) (perm : MapPermission) : Option World := do
  let a ← w.attaching[k]?
  let s ← w.spaces[i]?
  let mapLen ← checkedPageAlignUp a.len
  let range ← VpnRange.new? startVpn (startVpn + mapLen / PAGE_SIZE)
  return { w with
    spaces := w.spaces.set i (s.insertAreaSorted (attachPiece a startVpn perm range))
    attaching := w.attaching.eraseIdx k }

def step (w : World) : SharedEvent → Option World
  | .shmget key size shmflg context caller frameAlloc =>
    some { w with shm := (w.shm.getOrCreate key size shmflg context caller frameAlloc).2 }
  | .shmRmid shmid caller => some { w with shm := (w.shm.markForDelete shmid caller).2 }
  | .shmSet shmid attrs caller => some { w with shm := (w.shm.setAttrs shmid attrs caller).2 }
  | .setShmmax value => some { w with shm := (w.shm.setShmmax value).2 }
  | .setShmmni value => some { w with shm := (w.shm.setShmmni value).2 }
  | .setShmall value => some { w with shm := (w.shm.setShmall value).2 }
  | .setShmNextId value => some { w with shm := (w.shm.setShmNextId value).2 }
  | .shmatAttach shmid =>
    match w.shm.attach shmid with
    | (.ok a, shm) => some { w with shm, attaching := w.attaching ++ [a] }
    | (.error _, shm) => some { w with shm }
  | .shmatMap k i startVpn perm => w.shmatMap k i startVpn perm
  | .shmatGiveUp k =>
    w.attaching[k]?.map fun a =>
      { w with shm := (w.shm.detach a.shmid).2, attaching := w.attaching.eraseIdx k }
  | .shmdt i startVpn => w.spaces[i]?.bind fun s => (s.detachShmArea startVpn).map (w.applyEdit i)
  | .release k =>
    w.retired[k]?.map fun shmid =>
      { w with shm := (w.shm.detach shmid).2, retired := w.retired.eraseIdx k }
  | .addSeals f writable seals =>
    some { w with memfds := Function.update w.memfds f ((w.memfds f).addSeals writable seals).2 }
  | .mmapCheck args =>
    some (if w.mmapAllowed args then { w with checked := w.checked ++ [args] } else w)
  | .mmap k i => w.mapChecked k i fun w s args => w.insertArea i s args.piece
  | .mmapFixed k i => w.mapChecked k i fun w s args => w.mmapFixed i s args
  | .mmapFinish k =>
    w.mapped[k]?.map fun args => { w.finishMmap args with mapped := w.mapped.eraseIdx k }
  | .munmap i startVpn endVpn =>
    w.spaces[i]?.map fun s => w.applyUnmap i (s.munmapArea startVpn endVpn)
  | .mprotect i startVpn endVpn perm remap =>
    w.spaces[i]?.map fun s => w.applyEdit i
      (s.mprotectArea (blocksSharedWritableMmap w.memfds) startVpn endVpn perm remap)
  | .mremap i oldStartVpn oldEndVpn newEndVpn =>
    w.spaces[i]?.bind fun s =>
      (s.mremapArea oldStartVpn oldEndVpn newEndVpn).map (w.applyUnmap i)
  | .brkShrink i heapStartVpn newEndVpn oldEndVpn =>
    w.spaces[i]?.map fun s => w.applyEdit i (s.shrinkBrkAreas heapStartVpn newEndVpn oldEndVpn)
  | .brkExtend i idx range =>
    w.spaces[i]?.map fun s => { w with spaces := w.spaces.set i (s.setRange idx range) }
  | .pushFramed i range perm =>
    w.spaces[i]?.map fun s => w.insertArea i s ⟨range, perm, .framed⟩
  | .removeArea i startVpn =>
    w.spaces[i]?.bind fun s => (s.removeAreaWithStartVpn startVpn).map (w.applyEdit i)
  | .fork i env => w.spaces[i]?.map fun s => w.sysFork s env
  | .exec i image => w.spaces[i]?.map fun s => w.sysExec i s image
  | .exit i => w.spaces[i]?.map fun s => w.applyUnmap i s.removeAll

/-- The first process has no areas, and no memfd is mapped. -/
def boot (allowSealing : Nat → Bool) : World where
  shm := .new
  memfds f := .make (allowSealing f)
  spaces := [.empty]
  attaching := []
  retired := []
  checked := []
  mapped := []

def system : System World SharedEvent where
  init w := ∃ allowSealing, w = boot allowSealing
  step := step

end World

end Whusp.Mm.Pieces
