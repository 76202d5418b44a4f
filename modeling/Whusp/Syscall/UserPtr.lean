import Whusp.Config
import Whusp.Lib.Codec

/-!
# User-memory access

The usercopy helpers of `syscall/user_ptr.rs`: the permission check on a page-table
entry, the fault-and-retry loops around it, and the copies, string readers and cross
address-space writes built on them.

An address space is an arbitrary state `σ` with a page-table walk and the effects of
the fault handlers; `others` stands for what other threads do between two walks.  The
loops run on fuel, and a call that is still running has accessed nothing yet.  Every
helper is modelled by the list of its `Access`es: the address it checked, the entry it
found there, and the bytes of the page that it then reads or writes.
-/

namespace Whusp.Syscall

open List

open Whusp.Lib (Byte)

inductive Errno where
  | EFAULT
  | ENOMEM
  | ENAMETOOLONG
  | EINVAL

/-! ## Addresses -/

inductive Arch where
  | riscv64
  | loongarch64

def USIZE_RANGE : Nat := 2 ^ 64

namespace Arch

/-- `canonicalize_virt_addr`, the conversion of a `usize` to a `VirtAddr`. -/
def canonicalizeVirtAddr : Arch → Nat → Nat
  | .riscv64, addr => addr % 2 ^ 39
  | .loongarch64, addr => addr

/-- `sign_extend_virt_addr`, the conversion back. -/
def signExtendVirtAddr : Arch → Nat → Nat
  | .riscv64, addr => if 2 ^ 38 ≤ addr then addr ||| (2 ^ 64 - 2 ^ 39) else addr
  | .loongarch64, addr => addr

def floor (arch : Arch) (addr : Nat) : Nat := arch.canonicalizeVirtAddr addr / PAGE_SIZE

def pageOffset (arch : Arch) (addr : Nat) : Nat := arch.canonicalizeVirtAddr addr % PAGE_SIZE

/-- `VirtAddr` of the page after `addr`'s, as an unextended `usize`. -/
def nextPage (arch : Arch) (addr : Nat) : Nat :=
  (arch.floor addr + 1) * PAGE_SIZE % USIZE_RANGE

/-- The addresses the hardware translates: the bits above the virtual address width
(Sv39, and 48 bits on LoongArch) repeat its top bit. -/
def canonical : Arch → Nat → Prop
  | .riscv64, addr => addr < 2 ^ 38 ∨ 2 ^ 64 - 2 ^ 38 ≤ addr
  | .loongarch64, addr => addr < 2 ^ 47 ∨ 2 ^ 64 - 2 ^ 47 ≤ addr

instance (arch : Arch) (addr : Nat) : Decidable (arch.canonical addr) := by
  cases arch <;> unfold canonical <;> infer_instance

end Arch

/-! ## Page-table entries and fault handlers -/

structure PageTableEntry where
  ppn : Nat
  valid : Bool
  readable : Bool
  writable : Bool
  executable : Bool
  user : Bool
  cow : Bool

inductive UserBufferAccess where
  | read
  | write
  deriving DecidableEq

def PageTableEntry.right (pte : PageTableEntry) : UserBufferAccess → Bool
  | .read => pte.readable
  | .write => pte.writable

def userPteAllows (pte : PageTableEntry) (access : UserBufferAccess) (rejectZeroPpn : Bool) :
    Bool :=
  if !pte.valid || (rejectZeroPpn && pte.ppn == 0) then false else pte.right access

inductive UserFaultOutcome where
  | resolved
  | retry
  | fatal

structure UserSpace (σ : Type) where
  translate : σ → Nat → Option PageTableEntry
  /-- `MemorySet::resolve_cow_page_fault` of the current process. -/
  resolveCow : σ → Nat → Bool × σ
  resolveCurrentCow : σ → Nat → Bool × σ
  lazyFramed : σ → Nat → UserBufferAccess → Bool × σ
  retain : σ → Nat → Bool
  /-- `try_reserve_exact` for so many segments succeeds. -/
  reserve : σ → Nat → Bool
  /-- Physical memory, by page and offset. -/
  byte : σ → Nat → Nat → Byte
  /-- What other threads do before the next walk. -/
  others : σ → σ

abbrev UserFaultHandler (σ : Type) := σ → Nat → UserBufferAccess → UserFaultOutcome × σ

inductive EffectiveUserFault (σ : Type) where
  | none
  | function (handler : UserFaultHandler σ)
  | currentLazyFramed

structure UserFaultResolver (σ : Type) where
  fault : EffectiveUserFault σ
  currentProcess : Bool

inductive CopyResult (α : Type) where
  /-- Still in a loop when the fuel ran out. -/
  | pending
  | panicked
  | error (e : Errno)
  | ok (value : α)

variable {σ : Type}

namespace UserFaultResolver

def canFault (r : UserFaultResolver σ) : Bool :=
  match r.fault with
  | .none => false
  | _ => true

def resolve (r : UserFaultResolver σ) (us : UserSpace σ) (s : σ) (addr : Nat)
    (access : UserBufferAccess) : UserFaultOutcome × σ :=
  match r.fault with
  | .none => (.fatal, s)
  | .function handler => handler s addr access
  | .currentLazyFramed =>
    match us.lazyFramed s addr access with
    | (true, s') => (.resolved, s')
    | (false, s') => (.fatal, s')

def resolveCow (r : UserFaultResolver σ) (us : UserSpace σ) (s : σ) (addr : Nat) : Bool × σ :=
  if r.currentProcess then us.resolveCow s addr else us.resolveCurrentCow s addr

end UserFaultResolver

/-! ## The page check -/

section PageCheck

variable (arch : Arch) (us : UserSpace σ) (r : UserFaultResolver σ)

/-- A write that only needs its copy-on-write page resolved. -/
def needsCow (pte : PageTableEntry) (access : UserBufferAccess) : Bool :=
  access == .write && pte.cow && !pte.writable

/-- The second half of `checked_user_pte`: the entry found, checked, and checked again
after a fault. -/
def recheckUserPte (s : σ) (addr : Nat) (access : UserBufferAccess) (pte : PageTableEntry) :
    CopyResult (PageTableEntry × σ) :=
  let again (s' : σ) : CopyResult (PageTableEntry × σ) :=
    match us.translate s' (arch.floor addr) with
    | none => .error .EFAULT
    | some pte' =>
      if userPteAllows pte' access r.canFault then .ok (pte', s') else .error .EFAULT
  if userPteAllows pte access r.canFault then .ok (pte, s)
  else if needsCow pte access then
    match r.resolveCow us s addr with
    | (true, s') => again s'
    | (false, _) => .error .EFAULT
  else if r.canFault then
    match r.resolve us s addr access with
    | (.resolved, s') => again s'
    | _ => .error .EFAULT
  else .error .EFAULT

def checkedUserPte (s : σ) (addr : Nat) (access : UserBufferAccess) :
    CopyResult (PageTableEntry × σ) :=
  match us.translate s (arch.floor addr) with
  | some pte => recheckUserPte arch us r s addr access pte
  | none =>
    if !r.canFault then .error .EFAULT
    else
      match r.resolve us s addr access with
      | (.resolved, s') =>
        match us.translate s' (arch.floor addr) with
        | some pte => recheckUserPte arch us r s' addr access pte
        | none => .error .EFAULT
      | _ => .error .EFAULT

/-- What the retry loops do when the check fails. -/
def missOutcome (s : σ) (addr : Nat) (access : UserBufferAccess) (pte : Option PageTableEntry) :
    UserFaultOutcome × σ :=
  if pte.any (needsCow · access) then
    match r.resolveCow us s addr with
    | (true, s') => (.resolved, s')
    | (false, s') => (.fatal, s')
  else if r.canFault then r.resolve us s addr access
  else (.fatal, s)

/-- The retry loop of `checked_and_pin_user_pte` and, without the pin, of
`with_user_page_ctx`. -/
def pageLoop (pin : Bool) : Nat → σ → Nat → UserBufferAccess → CopyResult (PageTableEntry × σ)
  | 0, _, _, _ => .pending
  | fuel + 1, s, addr, access =>
    let s := us.others s
    let pte := us.translate s (arch.floor addr)
    match pte.filter (userPteAllows · access r.canFault) with
    | some ready =>
      if pin && !us.retain s ready.ppn then .error .EFAULT else .ok (ready, s)
    | none =>
      match missOutcome us r s addr access pte with
      | (.fatal, _) => .error .EFAULT
      | (.resolved, s') => pageLoop pin fuel s' addr access
      | (.retry, s') => pageLoop pin fuel s' addr access

def checkedAndPinUserPte (fuel : Nat) (s : σ) (addr : Nat) (access : UserBufferAccess) :
    CopyResult (PageTableEntry × σ) :=
  if r.currentProcess then pageLoop arch us r true fuel s addr access
  else
    match checkedUserPte arch us r s addr access with
    | .ok (pte, s') => if us.retain s' pte.ppn then .ok (pte, s') else .error .EFAULT
    | res => res

end PageCheck

/-- `with_user_page_ctx`, up to the access; `owned` says that the caller holds the
process lock. -/
def withUserPageCtx (arch : Arch) (us : UserSpace σ) (owned : Bool)
    (handler : Option (UserFaultHandler σ)) (fuel : Nat) (s : σ) (addr : Nat)
    (access : UserBufferAccess) : CopyResult (PageTableEntry × σ) :=
  if owned then
    let r : UserFaultResolver σ :=
      match handler with
      | none => ⟨.none, false⟩
      | some h => ⟨.function h, false⟩
    checkedUserPte arch us r s addr access
  else
    let r : UserFaultResolver σ :=
      match handler with
      | none => ⟨.currentLazyFramed, true⟩
      | some h => ⟨.function h, true⟩
    pageLoop arch us r false fuel s addr access

/-! ## Accesses -/

/-- An access to part of one page: the address that was checked, the entry found there
in `state`, and the bytes `lo ..< hi` of the page. -/
structure Access (σ : Type) where
  addr : Nat
  access : UserBufferAccess
  pte : PageTableEntry
  lo : Nat
  hi : Nat
  state : σ

/-- The slice `page[lo..hi]` of a checked page; out of range it panics. -/
def sliceOf (addr : Nat) (access : UserBufferAccess) (found : PageTableEntry × σ) (lo hi : Nat) :
    CopyResult (Access σ) :=
  if lo ≤ hi ∧ hi ≤ PAGE_SIZE then .ok ⟨addr, access, found.1, lo, hi, found.2⟩ else .panicked

section Buffers

variable (arch : Arch) (us : UserSpace σ) (r : UserFaultResolver σ)

/-- The segment loop of `translated_byte_buffer_checked_with_resolver`. -/
def segmentLoop (access : UserBufferAccess) (stop : Nat) :
    Nat → σ → Nat → List (Access σ) → CopyResult (List (Access σ) × σ)
  | 0, _, _, _ => .pending
  | fuel + 1, s, start, segments =>
    if start < stop then
      match checkedAndPinUserPte arch us r fuel s start access with
      | .ok (pte, s') =>
        let endVa := min (arch.nextPage start) (arch.canonicalizeVirtAddr stop)
        let hi := if endVa % PAGE_SIZE = 0 then PAGE_SIZE else endVa % PAGE_SIZE
        match sliceOf start access (pte, s') (arch.pageOffset start) hi with
        | .ok seg =>
          segmentLoop access stop fuel s' (arch.signExtendVirtAddr endVa) (segments ++ [seg])
        | _ => .panicked
      | .error e => .error e
      | .panicked => .panicked
      | .pending => .pending
    else .ok (segments, s)

/-- One segment inside one page. -/
def singleSegment (fuel : Nat) (s : σ) (start len : Nat) (access : UserBufferAccess) :
    CopyResult (List (Access σ) × σ) :=
  match checkedAndPinUserPte arch us r fuel s start access with
  | .ok (pte, s') =>
    match sliceOf start access (pte, s') (arch.pageOffset start) (arch.pageOffset start + len) with
    | .ok seg => .ok ([seg], s')
    | _ => .panicked
  | .error e => .error e
  | .panicked => .panicked
  | .pending => .pending

/-- `translated_byte_buffer_checked_with_resolver`. -/
def translatedByteBuffer (fuel : Nat) (s : σ) (start len : Nat) (access : UserBufferAccess) :
    CopyResult (List (Access σ) × σ) :=
  if len = 0 then .ok ([], s)
  else if USIZE_RANGE ≤ start + len then .error .EFAULT
  else if arch.floor start = arch.floor (start + len - 1) then
    singleSegment arch us r fuel s start len access
  else
    -- `last_vpn - start_vpn + 1` wraps where the masked range does
    let segmentCount :=
      (USIZE_RANGE + arch.floor (start + len - 1) - arch.floor start + 1) % USIZE_RANGE
    if us.reserve s segmentCount then
      segmentLoop arch us r access (start + len) fuel s start []
    else .error .ENOMEM

end Buffers

/-- The copy loop over the segments: `dst[copied..next]` panics at the first segment
that no longer fits. -/
def copiedSegments : Nat → List (Access σ) → List (Access σ)
  | _, [] => []
  | left, seg :: segs =>
    if seg.hi - seg.lo ≤ left then seg :: copiedSegments (left - (seg.hi - seg.lo)) segs else []

/-- The accesses of a copy once its buffers are translated. -/
def accessesOf (len : Nat) : CopyResult (List (Access σ) × σ) → List (Access σ)
  | .ok (segs, _) => copiedSegments len segs
  | _ => []

/-- The access of a page closure, cut to `lo ..< hi`. -/
def pageAccess (addr : Nat) (access : UserBufferAccess) (lo hi : Nat) :
    CopyResult (PageTableEntry × σ) → List (Access σ)
  | .ok found =>
    match sliceOf addr access found lo hi with
    | .ok seg => [seg]
    | _ => []
  | _ => []

def USER_COPY_SAME_PAGE_FAST_MAX : Nat := 64
def DIRECT_PATH_COMPONENT_MAX : Nat := 255

section Copies

variable (arch : Arch) (us : UserSpace σ)

/-- `copy_from_user_with_resolver` and `copy_to_user_with_resolver_impl`. -/
def copyUser (r : UserFaultResolver σ) (fuel : Nat) (s : σ) (start len : Nat)
    (access : UserBufferAccess) : List (Access σ) :=
  if len = 0 then []
  else if len ≤ USER_COPY_SAME_PAGE_FAST_MAX ∧ USIZE_RANGE ≤ start + len then []
  else if len ≤ USER_COPY_SAME_PAGE_FAST_MAX ∧
      arch.floor start = arch.floor (start + len - 1) then
    accessesOf len (singleSegment arch us r fuel s start len access)
  else accessesOf len (translatedByteBuffer arch us r fuel s start len access)

/-- `copy_from_user_ctx` and `copy_to_user_with_site_ctx`. -/
def copyUserCtx (owned : Bool) (handler : Option (UserFaultHandler σ)) (r : UserFaultResolver σ)
    (fuel : Nat) (s : σ) (start len : Nat) (access : UserBufferAccess) : List (Access σ) :=
  if len = 0 then []
  else if USIZE_RANGE ≤ start + len then []
  else if arch.floor start = arch.floor (start + len - 1) then
    pageAccess start access (arch.pageOffset start) (arch.pageOffset start + len)
      (withUserPageCtx arch us owned handler fuel s start access)
  else copyUser arch us r fuel s start len access

/-- The bytes looked at, and whether a NUL was among them. -/
def scanCStringChunk (byte : Nat → Byte) : Nat → Nat → Nat × Bool
  | _, 0 => (0, false)
  | off, n + 1 =>
    if byte off = 0 then (1, true)
    else ((scanCStringChunk byte (off + 1) n).1 + 1, (scanCStringChunk byte (off + 1) n).2)

/-- The scan over the buffers of one chunk. -/
def scanSegments (s : σ) : List (Access σ) → List (Access σ) × Bool
  | [] => ([], false)
  | seg :: segs =>
    let scan := scanCStringChunk (us.byte s seg.pte.ppn) seg.lo (seg.hi - seg.lo)
    let seen := { seg with hi := seg.lo + scan.1 }
    if scan.2 then ([seen], true)
    else (seen :: (scanSegments s segs).1, (scanSegments s segs).2)

/-- `read_user_c_string` and `read_user_c_string_ctx`. -/
def readUserCString (r : UserFaultResolver σ) (ptr maxLen : Nat) : Nat → σ → Nat → List (Access σ)
  | 0, _, _ => []
  | fuel + 1, s, offset =>
    if offset < maxLen then
      let addr := ptr + offset
      if USIZE_RANGE ≤ addr then []
      else
        let chunkLen := min (PAGE_SIZE - addr % PAGE_SIZE) (maxLen - offset)
        match translatedByteBuffer arch us r fuel s addr chunkLen .read with
        | .ok (segs, s') =>
          let scan := scanSegments us s' segs
          if scan.2 then scan.1
          else scan.1 ++ readUserCString r ptr maxLen fuel s' (offset + chunkLen)
        | _ => []
    else []

/-- The page closure of `try_read_direct_path_component_ctx`: the bytes looked at, and
the component's length where the scan goes on to the next page. -/
def scanComponent (byte : Nat → Byte) : Nat → Nat → Nat → Nat × Option Nat
  | _, 0, len => (0, some len)
  | off, n + 1, len =>
    if byte off = 0 ∨ byte off = 0x2f ∨ 128 ≤ (byte off).toNat ∨
        len = DIRECT_PATH_COMPONENT_MAX then (1, none)
    else ((scanComponent byte (off + 1) n (len + 1)).1 + 1,
      (scanComponent byte (off + 1) n (len + 1)).2)

/-- `try_read_direct_path_component_ctx`. -/
def readDirectPathComponent (owned : Bool) (handler : UserFaultHandler σ) (ptr : Nat) :
    Nat → σ → Nat → List (Access σ)
  | 0, _, _ => []
  | fuel + 1, s, len =>
    let addr := ptr + len
    if USIZE_RANGE ≤ addr then []
    else
      let start := arch.pageOffset addr
      match withUserPageCtx arch us owned (some handler) fuel s addr .read with
      | .ok (pte, s') =>
        let scan := scanComponent (us.byte s' pte.ppn) start (PAGE_SIZE - start) len
        let seen := pageAccess addr .read start (start + scan.1) (.ok (pte, s'))
        match scan.2 with
        | some len' => seen ++ readDirectPathComponent owned handler ptr fuel s' len'
        | none => seen
      | _ => []

/-- `resolve_cow_write_range_in_memory_set`: the state after it, where it succeeds. -/
def resolveCowWriteRange (stop : Nat) : Nat → σ → Nat → Option σ
  | 0, _, _ => none
  | fuel + 1, s, start =>
    if start < stop then
      match us.translate s (arch.floor start) with
      | none => none
      | some pte =>
        let resolved := if pte.cow && !pte.writable then us.resolveCow s start else (true, s)
        if resolved.1 && (us.translate resolved.2 (arch.floor start)).any
            (userPteAllows · .write false) then
          resolveCowWriteRange stop fuel resolved.2
            (min (arch.signExtendVirtAddr (arch.nextPage start)) stop)
        else none
    else some s

def copyToUserInMemorySet (r : UserFaultResolver σ) (fuel : Nat) (s : σ) (start len : Nat) :
    List (Access σ) :=
  if len ≠ 0 ∧ USIZE_RANGE ≤ start + len then []
  else
    match resolveCowWriteRange arch us (start + len) fuel s start with
    | some s' => accessesOf len (translatedByteBuffer arch us r fuel s' start len .write)
    | none => []

end Copies

/-- A call of a helper with the pointer and length of a system call. -/
inductive UserCall (σ : Type) where
  | copy (r : UserFaultResolver σ) (ptr len : BitVec 64) (access : UserBufferAccess)
  | copyCtx (owned : Bool) (handler : Option (UserFaultHandler σ)) (r : UserFaultResolver σ)
      (ptr len : BitVec 64) (access : UserBufferAccess)
  | cString (r : UserFaultResolver σ) (ptr maxLen : BitVec 64)
  | pathComponent (owned : Bool) (handler : UserFaultHandler σ) (ptr : BitVec 64)
  | inMemorySet (r : UserFaultResolver σ) (ptr len : BitVec 64)

/-- The accesses of a call that runs for `fuel` steps. -/
def UserCall.accesses (arch : Arch) (us : UserSpace σ) (fuel : Nat) (s : σ) :
    UserCall σ → List (Access σ)
  | .copy r ptr len access => copyUser arch us r fuel s ptr.toNat len.toNat access
  | .copyCtx owned handler r ptr len access =>
    copyUserCtx arch us owned handler r fuel s ptr.toNat len.toNat access
  | .cString r ptr maxLen =>
    -- a null pointer is refused before any access
    if ptr = 0 then [] else readUserCString arch us r ptr.toNat maxLen.toNat fuel s 0
  | .pathComponent owned handler ptr =>
    if ptr = 0 then [] else readDirectPathComponent arch us owned handler ptr.toNat fuel s 0
  | .inMemorySet r ptr len => copyToUserInMemorySet arch us r fuel s ptr.toNat len.toNat

/-! ## What user code could do -/

/-- User code can access the byte at `addr` itself, and it is the byte `off` of the
physical page `ppn`. -/
def UserCould (arch : Arch) (us : UserSpace σ) (s : σ) (addr : Nat) (access : UserBufferAccess)
    (ppn off : Nat) : Prop :=
  arch.canonical addr ∧ ∃ pte, us.translate s (arch.floor addr) = some pte ∧
    pte.valid = true ∧ pte.user = true ∧ pte.right access = true ∧
    pte.ppn = ppn ∧ arch.pageOffset addr = off

/-- Every byte that some helper reads or writes at an address of the given page, in any
call from any state, is one that user code could access at this address. -/
def AccessesSafe (arch : Arch) (us : UserSpace σ) (access : UserBufferAccess)
    (page : BitVec 52) : Prop :=
  ∀ (call : UserCall σ) (fuel : Nat) (s : σ), ∀ acc ∈ call.accesses arch us fuel s,
    acc.access = access → ∀ j, acc.lo ≤ j → j < acc.hi → ∀ addr, addr = acc.addr + (j - acc.lo) →
      addr / PAGE_SIZE = page.toNat → UserCould arch us acc.state addr access acc.pte.ppn j

/-! ## Checked pages -/

variable {access : UserBufferAccess} {pte : PageTableEntry} {arch : Arch} {s : σ} {us : UserSpace σ}

lemma userPteAllows_weaken {b : Bool} (h : userPteAllows pte access b = true) :
    userPteAllows pte access false = true := by
  unfold userPteAllows at h ⊢
  cases hv : pte.valid <;> simp_all

lemma userPteAllows_iff :
    userPteAllows pte access false = true ↔ pte.valid = true ∧ pte.right access = true := by
  unfold userPteAllows
  simp

/-- The result of a page check at `addr`: the entry that the walk finds in the state
the check leaves, with the right. -/
def Checked (arch : Arch) (us : UserSpace σ) (addr : Nat) (access : UserBufferAccess)
    (found : PageTableEntry × σ) : Prop :=
  us.translate found.2 (arch.floor addr) = some found.1 ∧
    userPteAllows found.1 access false = true

section Checks

variable {arch : Arch} {us : UserSpace σ} {r : UserFaultResolver σ} {access : UserBufferAccess}
  {addr : Nat}

variable {s : σ} {found : PageTableEntry × σ}

lemma recheckUserPte_ok (hp : us.translate s (arch.floor addr) = some pte)
    (h : recheckUserPte arch us r s addr access pte = .ok found) :
    Checked arch us addr access found := by
  -- the second walk, after a fault
  have again : ∀ s', (match us.translate s' (arch.floor addr) with
      | none => CopyResult.error Errno.EFAULT
      | some pte' =>
        if userPteAllows pte' access r.canFault then .ok (pte', s') else .error .EFAULT) =
      .ok found → Checked arch us addr access found := by
    intro s' h'
    split at h'
    · cases h'
    rename_i hp'
    split at h'
    next hallow =>
      cases h'
      exact ⟨hp', userPteAllows_weaken hallow⟩
    · cases h'
  unfold recheckUserPte at h
  split at h
  next hallow =>
    cases h
    exact ⟨hp, userPteAllows_weaken hallow⟩
  split at h
  · split at h
    · exact again _ h
    · cases h
  · split at h
    · split at h
      · exact again _ h
      · cases h
    · cases h

lemma checkedUserPte_ok (h : checkedUserPte arch us r s addr access = .ok found) :
    Checked arch us addr access found := by
  unfold checkedUserPte at h
  split at h
  next hp =>
    exact recheckUserPte_ok hp h
  split at h
  · cases h
  split at h
  · split at h
    next hp =>
      exact recheckUserPte_ok hp h
    · cases h
  · cases h

variable {fuel : Nat}

lemma pageLoop_ok {pin : Bool} (h : pageLoop arch us r pin fuel s addr access = .ok found) :
    Checked arch us addr access found := by
  induction fuel generalizing s with
  | zero => cases h
  | succ fuel ih =>
    simp only [pageLoop] at h
    split at h
    next hready =>
      obtain ⟨hp, hallow⟩ := Option.filter_eq_some_iff.mp hready
      split at h
      · cases h
      · cases h
        exact ⟨hp, userPteAllows_weaken hallow⟩
    · split at h
      · cases h
      · exact ih h
      · exact ih h

lemma checkedAndPinUserPte_ok (h : checkedAndPinUserPte arch us r fuel s addr access = .ok found) :
    Checked arch us addr access found := by
  unfold checkedAndPinUserPte at h
  split at h
  · exact pageLoop_ok h
  split at h
  next hc =>
    split at h
    · cases h
      exact checkedUserPte_ok hc
    · cases h
  · exact checkedUserPte_ok h

lemma withUserPageCtx_ok {owned : Bool} {handler : Option (UserFaultHandler σ)}
    (h : withUserPageCtx arch us owned handler fuel s addr access = .ok found) :
    Checked arch us addr access found := by
  unfold withUserPageCtx at h
  split at h
  · exact checkedUserPte_ok h
  · exact pageLoop_ok h

end Checks

/-! ## Granted accesses -/

/-- An access to a checked page, from the offset of the checked address on. -/
structure Access.Granted (arch : Arch) (us : UserSpace σ) (acc : Access σ) : Prop where
  checked : Checked arch us acc.addr acc.access (acc.pte, acc.state)
  lo : acc.lo = arch.pageOffset acc.addr
  hi : acc.hi ≤ PAGE_SIZE

section Grants

variable {arch : Arch} {us : UserSpace σ} {r : UserFaultResolver σ} {access : UserBufferAccess}
variable {addr hi ptr : Nat} {res : List (Access σ) × σ} {segs : List (Access σ)} {owned : Bool}

lemma sliceOf_granted {found : PageTableEntry × σ} {acc : Access σ}
    (hc : Checked arch us addr access found)
    (h : sliceOf addr access found (arch.pageOffset addr) hi = .ok acc) : acc.Granted arch us := by
  unfold sliceOf at h
  split at h
  next hb =>
    cases h
    exact ⟨hc, rfl, hb.2⟩
  · cases h

variable {fuel start len : Nat} {s : σ}

lemma segmentLoop_granted {stop : Nat} (hs : ∀ acc ∈ segs, acc.Granted arch us)
    (h : segmentLoop arch us r access stop fuel s start segs = .ok res) :
    ∀ acc ∈ res.1, acc.Granted arch us := by
  induction fuel generalizing s start segs with
  | zero => cases h
  | succ fuel ih =>
    simp only [segmentLoop] at h
    split at h
    · split at h
      next hc =>
        split at h
        swap
        · cases h
        rename_i hseg
        exact ih (forall_mem_append.mpr ⟨hs, forall_mem_singleton.mpr
          (sliceOf_granted (checkedAndPinUserPte_ok hc) hseg)⟩) h
      · cases h
      · cases h
      · cases h
    · cases h
      exact hs

lemma singleSegment_granted (h : singleSegment arch us r fuel s start len access = .ok res) :
    ∀ acc ∈ res.1, acc.Granted arch us := by
  unfold singleSegment at h
  split at h
  next hc =>
    split at h
    next hseg =>
      cases h
      intro acc hacc
      rw [mem_singleton.mp hacc]
      exact sliceOf_granted (checkedAndPinUserPte_ok hc) hseg
    · cases h
  · cases h
  · cases h
  · cases h

lemma translatedByteBuffer_granted
    (h : translatedByteBuffer arch us r fuel s start len access = .ok res) :
    ∀ acc ∈ res.1, acc.Granted arch us := by
  unfold translatedByteBuffer at h
  split at h
  · cases h
    simp
  split at h
  · cases h
  split at h
  · exact singleSegment_granted h
  dsimp only at h
  split at h
  · exact segmentLoop_granted (by simp) h
  · cases h

lemma copiedSegments_subset (left : Nat) (segs : List (Access σ)) :
    ∀ acc ∈ copiedSegments left segs, acc ∈ segs := by
  induction segs generalizing left with
  | nil => simp [copiedSegments]
  | cons seg segs ih =>
    intro acc hacc
    unfold copiedSegments at hacc
    split at hacc
    · rcases mem_cons.mp hacc with rfl | hacc
      · simp
      · exact mem_cons_of_mem _ (ih _ acc hacc)
    · simp at hacc

lemma accessesOf_granted {res : CopyResult (List (Access σ) × σ)}
    (h : ∀ segs, res = .ok segs → ∀ acc ∈ segs.1, acc.Granted arch us) :
    ∀ acc ∈ accessesOf len res, acc.Granted arch us := by
  intro acc hacc
  unfold accessesOf at hacc
  split at hacc
  next segs s' =>
    exact h (segs, s') rfl acc (copiedSegments_subset len segs acc hacc)
  · simp at hacc

lemma pageAccess_granted {res : CopyResult (PageTableEntry × σ)}
    (h : ∀ found, res = .ok found → Checked arch us addr access found) :
    ∀ acc ∈ pageAccess addr access (arch.pageOffset addr) hi res, acc.Granted arch us := by
  intro acc hacc
  unfold pageAccess at hacc
  split at hacc
  next found =>
    split at hacc
    next hseg =>
      rw [mem_singleton.mp hacc]
      exact sliceOf_granted (h found rfl) hseg
    · simp at hacc
  · simp at hacc

lemma copyUser_granted :
    ∀ acc ∈ copyUser arch us r fuel s start len access, acc.Granted arch us := by
  intro acc hacc
  unfold copyUser at hacc
  split at hacc
  · simp at hacc
  split at hacc
  · simp at hacc
  · split at hacc
    · exact accessesOf_granted (fun _ => singleSegment_granted) acc hacc
    · exact accessesOf_granted (fun _ => translatedByteBuffer_granted) acc hacc

lemma copyUserCtx_granted {handler : Option (UserFaultHandler σ)} :
    ∀ acc ∈ copyUserCtx arch us owned handler r fuel s start len access, acc.Granted arch us := by
  intro acc hacc
  unfold copyUserCtx at hacc
  split at hacc
  · simp at hacc
  split at hacc
  · simp at hacc
  · split at hacc
    · exact pageAccess_granted (fun _ => withUserPageCtx_ok) acc hacc
    · exact copyUser_granted acc hacc

lemma scanCStringChunk_le (byte : Nat → Byte) (off n : Nat) :
    (scanCStringChunk byte off n).1 ≤ n := by
  induction n generalizing off with
  | zero => exact Nat.le_refl 0
  | succ n ih =>
    unfold scanCStringChunk
    split
    · omega
    · exact Nat.succ_le_succ (ih (off + 1))

/-- A scan looks at no more than the segments it is given. -/
lemma scanSegments_granted (h : ∀ acc ∈ segs, acc.Granted arch us) :
    ∀ acc ∈ (scanSegments us s segs).1, acc.Granted arch us := by
  induction segs with
  | nil => simp [scanSegments]
  | cons seg segs ih =>
    have hseg := h seg mem_cons_self
    have seen : Access.Granted arch us { seg with
        hi := seg.lo + (scanCStringChunk (us.byte s seg.pte.ppn) seg.lo (seg.hi - seg.lo)).1 } := by
      refine { hseg with hi := ?_ }
      have hle := scanCStringChunk_le (us.byte s seg.pte.ppn) seg.lo (seg.hi - seg.lo)
      have hhi := hseg.hi
      have hlo : seg.lo < PAGE_SIZE := by
        rw [hseg.lo]
        exact Nat.mod_lt _ (by decide)
      show seg.lo + _ ≤ PAGE_SIZE
      omega
    intro acc hacc
    unfold scanSegments at hacc
    dsimp only at hacc
    split at hacc
    · rw [mem_singleton.mp hacc]
      exact seen
    · rcases mem_cons.mp hacc with rfl | hacc
      · exact seen
      · exact ih (fun a ha => h a (mem_cons_of_mem _ ha)) acc hacc

lemma readUserCString_granted {maxLen : Nat} {offset : Nat} :
    ∀ acc ∈ readUserCString arch us r ptr maxLen fuel s offset, acc.Granted arch us := by
  induction fuel generalizing s offset with
  | zero => simp [readUserCString]
  | succ fuel ih =>
    intro acc hacc
    simp only [readUserCString] at hacc
    split at hacc
    swap
    · simp at hacc
    split at hacc
    · simp at hacc
    split at hacc
    swap
    · simp at hacc
    rename_i s' hbuf
    have hscan := scanSegments_granted (s := s') (translatedByteBuffer_granted hbuf)
    split at hacc
    · exact hscan acc hacc
    · rcases mem_append.mp hacc with hacc | hacc
      · exact hscan acc hacc
      · exact ih acc hacc

lemma readDirectPathComponent_granted {handler : UserFaultHandler σ} :
    ∀ acc ∈ readDirectPathComponent arch us owned handler ptr fuel s len, acc.Granted arch us := by
  induction fuel generalizing s len with
  | zero => simp [readDirectPathComponent]
  | succ fuel ih =>
    intro acc hacc
    simp only [readDirectPathComponent] at hacc
    split at hacc
    · simp at hacc
    split at hacc
    swap
    · simp at hacc
    rename_i pte s' hpage
    have hpage' : ∀ found, CopyResult.ok (pte, s') = .ok found →
        Checked arch us (ptr + len) .read found := by
      intro found hfound
      cases hfound
      exact withUserPageCtx_ok hpage
    split at hacc
    · rcases mem_append.mp hacc with hacc | hacc
      · exact pageAccess_granted hpage' acc hacc
      · exact ih acc hacc
    · exact pageAccess_granted hpage' acc hacc

lemma copyToUserInMemorySet_granted :
    ∀ acc ∈ copyToUserInMemorySet arch us r fuel s start len, acc.Granted arch us := by
  intro acc hacc
  unfold copyToUserInMemorySet at hacc
  split at hacc
  · simp at hacc
  · split at hacc
    · exact accessesOf_granted (fun _ => translatedByteBuffer_granted) acc hacc
    · simp at hacc

end Grants

/-- Every access of every helper is to a page that passed the check at the access's own
address. -/
lemma UserCall.accesses_granted {fuel : Nat} (call : UserCall σ) :
    ∀ acc ∈ call.accesses arch us fuel s, acc.Granted arch us := by
  intro acc hacc
  cases call with
  | copy r ptr len access => exact copyUser_granted acc hacc
  | copyCtx owned handler r ptr len access => exact copyUserCtx_granted acc hacc
  | cString r ptr maxLen =>
    unfold accesses at hacc
    dsimp only at hacc
    split at hacc
    · simp at hacc
    · exact readUserCString_granted acc hacc
  | pathComponent owned handler ptr =>
    unfold accesses at hacc
    dsimp only at hacc
    split at hacc
    · simp at hacc
    · exact readDirectPathComponent_granted acc hacc
  | inMemorySet r ptr len => exact copyToUserInMemorySet_granted acc hacc

/-! ## The bytes of a page -/

/-- Moving inside a page stays inside it, whatever the conversion to a `VirtAddr` does. -/
lemma Arch.floor_add {addr k : Nat} (h : arch.pageOffset addr + k < PAGE_SIZE) :
    arch.floor (addr + k) = arch.floor addr ∧
      arch.pageOffset (addr + k) = arch.pageOffset addr + k := by
  cases arch <;> simp only [pageOffset, floor, canonicalizeVirtAddr, PAGE_SIZE] at * <;> omega

/-- Every byte of the segment is the byte that its address is mapped to. -/
def Access.Maps (arch : Arch) (us : UserSpace σ) (acc : Access σ) : Prop :=
  ∀ i < acc.hi - acc.lo, us.translate acc.state (arch.floor (acc.addr + i)) = some acc.pte ∧
    arch.pageOffset (acc.addr + i) = acc.lo + i

open Syscall.Arch

lemma Access.Granted.maps {acc : Access σ} (h : acc.Granted arch us) : acc.Maps arch us := by
  intro i hi
  have hin : arch.pageOffset acc.addr + i < PAGE_SIZE := by
    have := h.lo
    have := h.hi
    omega
  rw [(floor_add hin).1, (floor_add hin).2, h.lo]
  exact ⟨h.checked.1, rfl⟩

/-- The addresses of one page are translated and canonical alike. -/
lemma Arch.floor_page (arch : Arch) (addr : Nat) :
    arch.floor (addr / PAGE_SIZE * PAGE_SIZE) = arch.floor addr ∧
      (arch.canonical (addr / PAGE_SIZE * PAGE_SIZE) ↔ arch.canonical addr) := by
  cases arch <;> simp only [floor, canonicalizeVirtAddr, canonical, PAGE_SIZE] <;> omega

lemma Arch.pageOffset_page (arch : Arch) (page : Nat) : arch.pageOffset (page * PAGE_SIZE) = 0 := by
  cases arch <;> simp only [pageOffset, canonicalizeVirtAddr, PAGE_SIZE] <;> omega

/-- A one-byte copy by a caller that holds the process lock reads or writes the first
byte of a page as soon as the entry allows it. -/
lemma copyCtx_first_byte {page : BitVec 52}
    (hp : us.translate s (arch.floor (page.toNat * PAGE_SIZE)) = some pte)
    (hallow : userPteAllows pte access false = true) :
    (⟨page.toNat * PAGE_SIZE, access, pte, 0, 1, s⟩ : Access σ) ∈
      (UserCall.copyCtx true none ⟨.none, false⟩ (BitVec.ofNat 64 (page.toNat * PAGE_SIZE)) 1
        access).accesses arch us 0 s := by
  have hlt : page.toNat * PAGE_SIZE < 2 ^ 64 := by
    simp only [PAGE_SIZE]
    omega
  have hptr : (BitVec.ofNat 64 (page.toNat * PAGE_SIZE)).toNat = page.toNat * PAGE_SIZE := by
    rw [BitVec.toNat_ofNat, Nat.mod_eq_of_lt hlt]
  have hcheck : checkedUserPte arch us ⟨.none, false⟩ s (page.toNat * PAGE_SIZE) access =
      .ok (pte, s) := by
    simp [checkedUserPte, hp, recheckUserPte, UserFaultResolver.canFault, hallow]
  have hrange : ¬ USIZE_RANGE ≤ page.toNat * PAGE_SIZE + 1 := by
    simp only [PAGE_SIZE, USIZE_RANGE]
    omega
  have hone : (1 : BitVec 64).toNat = 1 := rfl
  simp only [UserCall.accesses, hptr, hone, copyUserCtx]
  rw [if_neg (by decide), if_neg hrange, if_pos (by simp)]
  have hpage : withUserPageCtx arch us true none 0 s (page.toNat * PAGE_SIZE) access =
      .ok (pte, s) := hcheck
  rw [hpage, pageOffset_page]
  exact mem_singleton.mpr rfl

/-- **When usercopy is safe**: the bytes that the helpers read or write in a page are
bytes that user code could access there itself exactly when every entry that passes
the check for this page is a user page and its addresses are canonical. -/
theorem usercopy_safe_iff (arch : Arch) (us : UserSpace σ) (access : UserBufferAccess)
    (page : BitVec 52) : AccessesSafe arch us access page ↔
      ∀ s pte, us.translate s (arch.floor (page.toNat * PAGE_SIZE)) = some pte →
        userPteAllows pte access false = true →
          arch.canonical (page.toNat * PAGE_SIZE) ∧ pte.user = true := by
  constructor
  · intro hsafe s pte hp hallow
    -- the one-byte copy to the page's first byte is safe
    obtain ⟨hcanon, pte', hp', -, hu, -⟩ := hsafe _ 0 s _ (copyCtx_first_byte hp hallow) rfl 0
      (Nat.le_refl 0) Nat.one_pos _ rfl
      (by simp [PAGE_SIZE])
    simp only [Nat.sub_self, Nat.add_zero] at hcanon hp'
    rw [hp] at hp'
    cases hp'
    exact ⟨hcanon, hu⟩
  · intro huser call fuel s acc hacc haccess j hlo hhi addr haddr hpage
    have hg := call.accesses_granted acc hacc
    obtain ⟨hp, hoff⟩ := hg.maps (j - acc.lo) (by omega)
    rw [← haddr] at hp hoff
    have hsame := arch.floor_page addr
    rw [hpage] at hsame
    have hallow : userPteAllows acc.pte access false = true := haccess ▸ hg.checked.2
    obtain ⟨hcanon, hu⟩ := huser acc.state acc.pte (by rw [hsame.1]; exact hp) hallow
    obtain ⟨hv, hr⟩ := userPteAllows_iff.mp hallow
    refine ⟨hsame.2.mp hcanon, acc.pte, hp, hv, hu, hr, rfl, by omega⟩

/-! ## The TrapContext page -/

def TRAP_CONTEXT_BASE : Nat := 2 ^ 64 - 2 * PAGE_SIZE

/-- A process that maps its kernel-private TrapContext page, readable and writable but
not for user mode, and nothing else. -/
def trapContextSpace : UserSpace Unit where
  translate := fun _ vpn =>
    if vpn = riscv64.floor TRAP_CONTEXT_BASE then
      some ⟨0x80400, true, true, true, false, false, false⟩
    else none
  resolveCow := fun _ _ => (false, ())
  resolveCurrentCow := fun _ _ => (false, ())
  lazyFramed := fun _ _ _ => (false, ())
  retain := fun _ _ => true
  reserve := fun _ _ => true
  byte := fun _ _ _ => 0
  others := id

/-- An eight-byte write at the TrapContext page through a system-call pointer goes
through, though user code cannot write there. -/
theorem usercopy_trapContext :
    ∃ acc ∈ (UserCall.copy ⟨.currentLazyFramed, true⟩ (BitVec.ofNat 64 TRAP_CONTEXT_BASE) 8
        .write).accesses .riscv64 trapContextSpace 2 (),
      acc.addr = TRAP_CONTEXT_BASE ∧ acc.lo = 0 ∧ acc.hi = 8 ∧
        ¬ UserCould .riscv64 trapContextSpace acc.state TRAP_CONTEXT_BASE .write acc.pte.ppn 0 := by
  refine ⟨⟨TRAP_CONTEXT_BASE, .write, ⟨0x80400, true, true, true, false, false, false⟩, 0, 8, ()⟩,
    mem_singleton.mpr rfl, rfl, rfl, rfl, ?_⟩
  intro h
  obtain ⟨-, pte, hp, -, hu, -⟩ := h
  cases hp
  cases hu

/-! ## The range of a buffer -/

/-- The user addresses that a segment stands for. -/
def Access.addrs (acc : Access σ) : List Nat := range' acc.addr (acc.hi - acc.lo)

variable {r : UserFaultResolver σ} {segs : List (Access σ)}
variable {rounds fuel first start stop addr len : Nat}

lemma signExtendVirtAddr_eq (h : addr < 2 ^ 39) :
    riscv64.signExtendVirtAddr addr =
      if 2 ^ 38 ≤ addr then addr + (2 ^ 64 - 2 ^ 39) else addr := by
  have hor := Nat.two_pow_add_eq_or_of_lt h (2 ^ 25 - 1)
  simp only [signExtendVirtAddr]
  split_ifs
  · rw [Nat.or_comm, show 2 ^ 64 - 2 ^ 39 = 2 ^ 39 * (2 ^ 25 - 1) from rfl, ← hor, Nat.add_comm]
  · rfl

/-- The ranges that the masked addresses carry: in the lower half, from the last page in front of
the upper half on, or in one page. -/
def InRange (start len : Nat) : Prop :=
  start + len ≤ 2 ^ 38 ∨ 2 ^ 64 - 2 ^ 38 - PAGE_SIZE ≤ start ∨ start % PAGE_SIZE + len ≤ PAGE_SIZE

/-- The masked end of the segment that the loop cuts at `start`. -/
def roundEnd (start stop : Nat) : Nat :=
  min (riscv64.nextPage start) (riscv64.canonicalizeVirtAddr stop)

/-- The end of this segment in its page. -/
def roundHi (start stop : Nat) : Nat :=
  if roundEnd start stop % PAGE_SIZE = 0 then PAGE_SIZE else roundEnd start stop % PAGE_SIZE

/-- The number of bytes of this segment. -/
def roundLen (start stop : Nat) : Nat := roundHi start stop - riscv64.pageOffset start

variable {found : List (Access σ) × σ}

lemma roundEnd_eq (start stop : Nat) :
    roundEnd start stop = min ((start % 2 ^ 39 / PAGE_SIZE + 1) * PAGE_SIZE) (stop % 2 ^ 39) := by
  simp only [roundEnd, nextPage, floor, canonicalizeVirtAddr, PAGE_SIZE, USIZE_RANGE]
  omega

lemma roundLen_cases (start stop : Nat) :
    roundEnd start stop % PAGE_SIZE = 0 ∧ roundLen start stop = PAGE_SIZE - start % PAGE_SIZE ∨
      0 < roundEnd start stop % PAGE_SIZE ∧
        roundLen start stop = roundEnd start stop % PAGE_SIZE - start % PAGE_SIZE := by
  have hoffset : riscv64.pageOffset start = start % PAGE_SIZE := by
    simp only [pageOffset, canonicalizeVirtAddr, PAGE_SIZE]
    omega
  unfold roundLen roundHi
  rw [hoffset]
  by_cases h : roundEnd start stop % PAGE_SIZE = 0
  · exact .inl ⟨h, by rw [if_pos h]⟩
  · exact .inr ⟨Nat.pos_of_ne_zero h, by rw [if_neg h]⟩

/-- The range reaches past the page of its start, above the lower half and from below the last
page in front of the upper one. -/
structure Astray (start stop : Nat) : Prop where
  page : PAGE_SIZE < start % PAGE_SIZE + (stop - start)
  high : 2 ^ 38 < stop
  low : start < 2 ^ 64 - 2 ^ 38 - PAGE_SIZE

/-- A segment ends before such a range does, and the loop goes on behind it only inside the lower
half. -/
lemma Astray.round (h : Astray start stop) : roundLen start stop < stop - start ∧
    (riscv64.signExtendVirtAddr (roundEnd start stop) = start + roundLen start stop →
      Astray (start + roundLen start stop) stop) := by
  obtain ⟨hpage, hhigh, hlow⟩ := h
  have hround := roundEnd_eq start stop
  have hcases := roundLen_cases start stop
  unfold PAGE_SIZE at hpage hlow hround hcases
  rw [signExtendVirtAddr_eq (show roundEnd start stop < 2 ^ 39 by omega)]
  refine ⟨by omega, fun hnext => ?_⟩
  have hbelow : start + roundLen start stop < 2 ^ 38 := by
    split at hnext <;> omega
  exact ⟨by unfold PAGE_SIZE; omega, hhigh, by unfold PAGE_SIZE; omega⟩

/-- The call ends as it should: with an error, or with segments that stand for the addresses of the
range in order, each byte being the one mapped there. -/
def Covers (us : UserSpace σ) (start len : Nat) (res : CopyResult (List (Access σ) × σ)) : Prop :=
  (∃ e, res = .error e) ∨ ∃ segs s', res = .ok (segs, s') ∧
    segs.flatMap Access.addrs = range' start len ∧ ∀ acc ∈ segs, acc.Maps .riscv64 us

end Whusp.Syscall
