import Whusp.Mm.AddressSpace

/-!
# Loading an ELF image

`MemorySet::from_elf_lazy` of `mm/elf_loader.rs`: a fresh address space with one lazily filled
area for each loadable segment of the program and of its interpreter, the empty heap area, and
the vDSO page.

A result `none` is the failed assertion of `VPNRange::new`, as in the other area operations; the
option inside it is the one the source returns.
-/

namespace Whusp.Mm

open Whusp.Lib (Byte)
open Whusp.Syscall (Arch USIZE_RANGE)

def DL_INTERP_OFFSET : Nat := 0x3000000000

inductive SegmentType where
  | load
  | phdr
  | other

structure ProgramHeader where
  /-- `get_type`, where `none` is its error. -/
  type : Option SegmentType
  virtualAddr : Nat
  offset : Nat
  fileSize : Nat
  memSize : Nat
  align : Nat
  isRead : Bool
  isWrite : Bool
  isExecute : Bool

structure ElfFile where
  magic : List Byte
  isSharedObject : Bool
  entryPoint : Nat
  phOffset : Nat
  phEntrySize : Nat
  programHeaders : List (Option ProgramHeader)

/-- An ELF image with the file that backs it. -/
structure ElfImage where
  elf : ElfFile
  file : BackingFile
  fileSize : Nat

structure ElfLoadInfo where
  token : Nat
  memorySet : MemorySet
  ustackBase : Nat
  entryPoint : Nat
  programEntry : Nat
  phdr : Nat
  phent : Nat
  phnum : Nat
  interpBase : Nat
  sysinfoEhdr : Nat

/-- What the frame allocator answers while an image is loaded. -/
structure LoadEnv where
  /-- The token of the page table that `try_new_user_bare` builds. -/
  root : Option Nat
  /-- The vDSO image is built and its page is mapped. -/
  vdso : Bool

def mainLoadBias (arch : Arch) (elf : ElfFile) : Nat :=
  if elf.isSharedObject then USER_MMAP_BASE arch else 0

def biasNonzeroAddr (loadBias addr : Nat) : Nat :=
  if addr = 0 then 0 else (loadBias + addr) % USIZE_RANGE

def mapPermissionFromPhFlags (ph : ProgramHeader) : MapPermission :=
  ⟨ph.isRead, ph.isWrite, ph.isExecute, true⟩

/-! ## Program headers -/

/-- The loop of `phdr_address_checked`. -/
def phdrAddressLoop (phOffset phSize : Nat) : List (Option ProgramHeader) → Nat → Option Nat
  | [], phdr => some phdr
  | none :: _, _ => none
  | some ph :: rest, phdr =>
    match ph.type with
    | none => none
    | some .phdr => some ph.virtualAddr
    | some .load =>
      if phdr = 0 then
        match checkedAdd ph.offset ph.fileSize with
        | none => none
        | some loadFileEnd =>
          if ph.offset ≤ phOffset then
            match checkedAdd phOffset phSize with
            | none => none
            | some phEnd =>
              if phEnd ≤ loadFileEnd then
                phdrAddressLoop phOffset phSize rest
                  ((ph.virtualAddr + (phOffset - ph.offset)) % USIZE_RANGE)
              else phdrAddressLoop phOffset phSize rest phdr
          else phdrAddressLoop phOffset phSize rest phdr
      else phdrAddressLoop phOffset phSize rest phdr
    | some .other => phdrAddressLoop phOffset phSize rest phdr

def phdrAddressChecked (elf : ElfFile) : Option Nat :=
  phdrAddressLoop elf.phOffset (elf.phEntrySize * elf.programHeaders.length) elf.programHeaders 0

def validateLoadSegment (ph : ProgramHeader) (backingFileSize : Nat) : Bool :=
  if ph.memSize < ph.fileSize then false
  else
    match checkedAdd ph.offset ph.fileSize with
    | none => false
    | some fileEnd =>
      if backingFileSize < fileEnd then false
      else !(decide (1 < ph.align) && ph.virtualAddr % ph.align != ph.offset % ph.align)

/-! ## Segments -/

/-- The loop of `map_elf_load_segments_lazy`: the area list, and the highest end of a segment. -/
def mapElfLoadSegmentsLazy (m : Machine) (image : ElfImage) (loadBias : Nat) :
    List (Option ProgramHeader) → MemorySet → Nat → Option (Option (MemorySet × Nat))
  | [], s, maxEndVa => some (some (s, maxEndVa))
  | none :: _, _, _ => some none
  | some ph :: rest, s, maxEndVa =>
    match ph.type with
    | none => some none
    | some .load =>
      if !validateLoadSegment ph image.fileSize then some none
      else if ph.memSize = 0 then mapElfLoadSegmentsLazy m image loadBias rest s maxEndVa
      else
        match checkedAdd loadBias ph.virtualAddr with
        | none => some none
        | some segmentStart =>
          match checkedAdd segmentStart ph.memSize with
          | none => some none
          | some segmentEnd =>
            let mapStart := segmentStart / PAGE_SIZE * PAGE_SIZE
            match checkedAdd (segmentStart - mapStart) ph.memSize with
            | none => some none
            | some mapLen =>
              match s.mapExecSegmentArea m mapStart mapLen (mapPermissionFromPhFlags ph)
                image.file with
              | none => none
              | some (none, _) => some none
              | some (some _, s) =>
                mapElfLoadSegmentsLazy m image loadBias rest s (max maxEndVa segmentEnd)
    | some _ => mapElfLoadSegmentsLazy m image loadBias rest s maxEndVa

/-! ## The image -/

/-- The base of the user stack, one page above the limit of the heap. -/
def userStackBase (maxEndVa : Nat) : Nat :=
  (pageAlignUp (maxEndVa + PAGE_SIZE) + USER_HEAP_SIZE + PAGE_SIZE) % USIZE_RANGE

/-- The end of `from_elf_lazy`: the heap area, the vDSO and the layout above them. -/
def finishImage (m : Machine) (env : LoadEnv) (token : Nat) (elf : ElfFile)
    (interpEntry : Option Nat) (phdr : Nat) (s : MemorySet)
    (maxEndVa : Nat) : Option ElfLoadInfo := do
  let s ← s.setupHeap m maxEndVa
  let (mapped, s) ← s.mapVdsoImage m PAGE_SIZE env.vdso
  let programEntry := (mainLoadBias m.arch elf + elf.entryPoint) % USIZE_RANGE
  return {
    token
    memorySet := s
    ustackBase := userStackBase maxEndVa
    entryPoint := interpEntry.elim programEntry
      fun entry => (DL_INTERP_OFFSET + entry) % USIZE_RANGE
    programEntry
    phdr
    phent := elf.phEntrySize
    phnum := elf.programHeaders.length
    interpBase := interpEntry.elim 0 fun _ => DL_INTERP_OFFSET
    sysinfoEhdr := if mapped then VDSO_BASE else 0 }

/-- The segments of the interpreter, if there is one. -/
def mapInterpreter (m : Machine) (s : MemorySet) : Option ElfImage → Option (Option MemorySet)
  | none => some (some s)
  | some image =>
    match mapElfLoadSegmentsLazy m image DL_INTERP_OFFSET image.elf.programHeaders s 0 with
    | none => none
    | some none => some none
    | some (some (s, _)) => some (some s)

def fromElfLazy (m : Machine) (env : LoadEnv) (image : ElfImage) (interpreter : Option ElfImage) :
    Option (Option ElfLoadInfo) :=
  match env.root with
  | none => some none
  | some token =>
    if image.elf.magic ≠ [0x7f, 0x45, 0x4c, 0x46] then some none
    else
      match phdrAddressChecked image.elf with
      | none => some none
      | some phdr =>
        let loadBias := mainLoadBias m.arch image.elf
        match mapElfLoadSegmentsLazy m image loadBias image.elf.programHeaders (.bare m.arch) 0 with
        | none => none
        | some none => some none
        | some (some (s, maxEndVa)) =>
          match mapInterpreter m s interpreter with
          | none => none
          | some none => some none
          | some (some s) =>
            -- the heap is placed by the main program alone
            (finishImage m env token image.elf (interpreter.map fun i => i.elf.entryPoint)
              (biasNonzeroAddr loadBias phdr) s maxEndVa).map some

/-! ## What a loaded image is -/

lemma userStackBase_dvd (maxEndVa : Nat) : PAGE_SIZE ∣ userStackBase maxEndVa := by
  have hrange : PAGE_SIZE ∣ USIZE_RANGE := by decide
  have hheap : PAGE_SIZE ∣ pageAlignUp (maxEndVa + PAGE_SIZE) := Nat.dvd_mul_left ..
  exact (Nat.dvd_mod_iff hrange).mpr
    (Nat.dvd_add (Nat.dvd_add hheap (by decide)) (Nat.dvd_refl _))

variable {env : LoadEnv} {info : ElfLoadInfo} {m : Machine}

lemma finishImage_spec {token phdr maxEndVa : Nat} {elf : ElfFile} {interpEntry : Option Nat}
    {s : MemorySet} (h : finishImage m env token elf interpEntry phdr s maxEndVa = some info) :
    info.token = token ∧ info.ustackBase = userStackBase maxEndVa := by
  obtain ⟨s', -, h⟩ := Option.bind_eq_some_iff.mp h
  obtain ⟨⟨mapped, s''⟩, -, h⟩ := Option.bind_eq_some_iff.mp h
  cases h
  simp

/-- **A loaded image** has the root it was given and a stack at a page boundary. -/
theorem fromElfLazy_spec {image : ElfImage} {interpreter : Option ElfImage}
    (h : fromElfLazy m env image interpreter = some (some info)) :
    env.root = some info.token ∧ PAGE_SIZE ∣ info.ustackBase ∧ info.ustackBase < USIZE_RANGE := by
  unfold fromElfLazy at h
  split at h
  · cases h
  next token hroot =>
  split at h
  · cases h
  split at h
  · cases h
  next phdr _ =>
  simp only at h
  split at h
  · cases h
  · cases h
  next s maxEndVa _ =>
  split at h
  · cases h
  · cases h
  next s' _ =>
  obtain ⟨info', hfinish, ⟨⟩⟩ := Option.map_eq_some_iff.mp h
  obtain ⟨htoken, hbase⟩ := finishImage_spec hfinish
  rw [htoken, hbase]
  exact ⟨hroot, userStackBase_dvd maxEndVa, Nat.mod_lt _ (by decide)⟩

end Whusp.Mm
