import Whusp.Syscall.UserPtr
import Whusp.Task.Signal

/-!
# Signal frames and signal return

`deliver_pending_signal` writes the interrupted context into a frame on the user stack,
`sys_rt_sigreturn` reads it back; both architectures.  The frames are laid out byte by
byte as the source's `repr(C)` structures, so user memory is a function from addresses
to bytes and every content of it is covered.
-/

namespace Whusp.Arch

open Whusp.Lib Whusp.Task Vector
open Whusp.Syscall (Errno USIZE_RANGE)

/-! ## User memory -/

/-- User memory as the checked access path sees it. -/
structure UserMemory where
  byte : BitVec 64 → Option Byte
  /-- The segment vector of a copy over several pages can be reserved. -/
  segmentsFit : Bool

/-- Consecutive bytes from `ptr` on. -/
def readBytes (byte : BitVec 64 → Option Byte) : BitVec 64 → Nat → Option (List Byte)
  | _, 0 => some []
  | ptr, n + 1 =>
    match byte ptr, readBytes byte (ptr + 1) n with
    | some b, some bs => some (b :: bs)
    | _, _ => none

/-- `read_user_value_with_fault` for a value of `size` bytes. -/
def readUserValue (mem : UserMemory) (ptr : BitVec 64) (size : Nat) : Except Errno (List Byte) :=
  if USIZE_RANGE ≤ ptr.toNat + size then .error .EFAULT
  else if ptr.toNat / PAGE_SIZE ≠ (ptr.toNat + size - 1) / PAGE_SIZE ∧ mem.segmentsFit = false then
    .error .ENOMEM
  else
    match readBytes mem.byte ptr size with
    | some bs => .ok bs
    | none => .error .EFAULT

/-- The memory that holds `bytes` at `ptr` and nothing else. -/
def UserMemory.holding (ptr : BitVec 64) (bytes : List Byte) : UserMemory where
  byte := fun a => bytes[(a - ptr).toNat]?
  segmentsFit := true

lemma readBytes_of_getElem? {byte : BitVec 64 → Option Byte} (bytes : List Byte)
    (ptr : BitVec 64) (h : ∀ i : Nat, i < bytes.length →
      byte (ptr + BitVec.ofNat 64 i) = bytes[i]?) :
    readBytes byte ptr bytes.length = some bytes := by
  induction bytes generalizing ptr with
  | nil => rfl
  | cons b bs ih =>
    have hb : byte ptr = some b := by
      have := h 0 (by simp)
      simpa using this
    have hbs := ih (ptr + 1) (by
      intro i hi
      have := h (i + 1) (by simpa using hi)
      rw [List.getElem?_cons_succ] at this
      rw [← this, BitVec.add_assoc]
      congr 2
      apply BitVec.eq_of_toNat_eq
      simp [Nat.add_comm])
    simp only [List.length_cons, readBytes, hb, hbs]

lemma readUserValue_holding (ptr : BitVec 64) (bytes : List Byte)
    (h : ptr.toNat + bytes.length < USIZE_RANGE) :
    readUserValue (.holding ptr bytes) ptr bytes.length = .ok bytes := by
  have hread : readBytes (UserMemory.holding ptr bytes).byte ptr bytes.length = some bytes := by
    apply readBytes_of_getElem?
    intro i hi
    have hlt : i < 2 ^ 64 := by
      simp only [USIZE_RANGE] at h
      omega
    show bytes[(ptr + BitVec.ofNat 64 i - ptr).toNat]? = bytes[i]?
    rw [BitVec.add_comm, BitVec.add_sub_cancel, BitVec.toNat_ofNat, Nat.mod_eq_of_lt hlt]
  unfold readUserValue
  rw [if_neg (by omega), if_neg (by simp [UserMemory.holding]), hread]

/-- A laid out value is read back as its bytes. -/
lemma readUserValue_encode {α : Type} (c : Codec α) (a : α) (ptr : BitVec 64)
    (h : ptr.toNat + c.size < USIZE_RANGE) :
    readUserValue (.holding ptr (c.encode a)) ptr c.size = .ok (c.encode a) := by
  have hlen := c.length_encode a
  have hread := readUserValue_holding ptr (c.encode a) (by rwa [hlen])
  rwa [hlen] at hread

/-! ## Layouts -/

def u64 : Codec (BitVec 64) := Codec.word 8
def u32 : Codec (BitVec 32) := Codec.word 4
def u8 : Codec Byte := Codec.word 1

/-- `LinuxStackT` and `LinuxStackCompat`. -/
structure LinuxStack where
  sp : BitVec 64
  flags : BitVec 32
  pad : BitVec 32
  size : BitVec 64

def LinuxStack.codec : Codec LinuxStack :=
  (u64.seq (u32.seq (u32.seq u64))).iso
    (fun p => ⟨p.1, p.2.1, p.2.2.1, p.2.2.2⟩)
    (fun s => (s.sp, s.flags, s.pad, s.size)) (fun _ => rfl)

/-- `LinuxSigInfo` as its 128 bytes; signal return does not look into it. -/
abbrev LinuxSigInfo := Vector Byte 128

namespace Riscv64

structure TrapContext where
  x : Vector (BitVec 64) 32
  sstatus : BitVec 64
  sepc : BitVec 64
  kernelSp : BitVec 64
  trapHandler : BitVec 64
  f : Vector (BitVec 64) 32
  fcsr : BitVec 32
  fpuStateValid : BitVec 32
  kernelTp : BitVec 64

def TrapContext.codec : Codec TrapContext :=
  ((u64.array 32).seq (u64.seq (u64.seq (u64.seq (u64.seq
    ((u64.array 32).seq (u32.seq (u32.seq u64)))))))).iso
    (fun p => ⟨p.1, p.2.1, p.2.2.1, p.2.2.2.1, p.2.2.2.2.1, p.2.2.2.2.2.1, p.2.2.2.2.2.2.1,
      p.2.2.2.2.2.2.2.1, p.2.2.2.2.2.2.2.2⟩)
    (fun c => (c.x, c.sstatus, c.sepc, c.kernelSp, c.trapHandler, c.f, c.fcsr, c.fpuStateValid,
      c.kernelTp)) (fun _ => rfl)

-- the source asserts this size
example : TrapContext.codec.size = 70 * 8 := rfl

namespace TrapContext

/-- `sstatus.spp() == SPP::Supervisor`: `sret` would enter supervisor mode. -/
def spp (cx : TrapContext) : Bool := cx.sstatus.getLsbD 8

end TrapContext

structure RiscvFpState where
  f : Vector (BitVec 64) 64
  fcsr : BitVec 32
  reserved : Vector (BitVec 32) 3

def RiscvFpState.codec : Codec RiscvFpState :=
  ((u64.array 64).seq (u32.seq (u32.array 3))).iso
    (fun p => ⟨p.1, p.2.1, p.2.2⟩) (fun s => (s.f, s.fcsr, s.reserved)) (fun _ => rfl)

structure RiscvMContext where
  gregs : Vector (BitVec 64) 32
  fpregs : RiscvFpState

def RiscvMContext.codec : Codec RiscvMContext :=
  ((u64.array 32).seq RiscvFpState.codec).iso
    (fun p => ⟨p.1, p.2⟩) (fun m => (m.gregs, m.fpregs)) (fun _ => rfl)

def RiscvMContext.new (interruptedPc : BitVec 64) (saved : TrapContext) : RiscvMContext where
  gregs := ofFn fun i => if i = 0 then interruptedPc else saved.x[i]
  fpregs :=
    { f := ofFn fun i => if h : i.val < 32 then saved.f[i.val] else 0
      fcsr := saved.fcsr
      reserved := replicate 3 0 }

def RiscvMContext.restoreTrapContext (m : RiscvMContext) (saved : TrapContext) : TrapContext :=
  { saved with
    sepc := m.gregs[0]
    x := ofFn fun i => if i = 0 then saved.x[0] else m.gregs[i]
    f := ofFn fun i => m.fpregs.f[i.val]
    fcsr := m.fpregs.fcsr }

structure RiscvUContext where
  flags : BitVec 64
  link : BitVec 64
  stack : LinuxStack
  sigmask : BitVec 64
  sigmaskPadding : Vector Byte 120
  mcontext : RiscvMContext

/-- The 8 bytes before `mcontext` come from its alignment. -/
def RiscvUContext.codec : Codec RiscvUContext :=
  (u64.seq (u64.seq (LinuxStack.codec.seq (u64.seq ((u8.array 120).seq
    ((Codec.pad 8).seq RiscvMContext.codec)))))).iso
    (fun p => ⟨p.1, p.2.1, p.2.2.1, p.2.2.2.1, p.2.2.2.2.1, p.2.2.2.2.2.2⟩)
    (fun u => (u.flags, u.link, u.stack, u.sigmask, u.sigmaskPadding, (), u.mcontext))
    (fun _ => rfl)

structure RiscvSignalFrame where
  siginfo : LinuxSigInfo
  ucontext : RiscvUContext
  magic : BitVec 64
  savedContext : TrapContext
  trampoline : Vector (BitVec 32) 2

def RiscvSignalFrame.codec : Codec RiscvSignalFrame :=
  ((u8.array 128).seq (RiscvUContext.codec.seq (u64.seq
    (TrapContext.codec.seq (u32.array 2))))).iso
    (fun p => ⟨p.1, p.2.1, p.2.2.1, p.2.2.2.1, p.2.2.2.2⟩)
    (fun s => (s.siginfo, s.ucontext, s.magic, s.savedContext, s.trampoline)) (fun _ => rfl)

def SIGNAL_FRAME_MAGIC : BitVec 64 := 0x575349474652414d

/-- The fields of the current thread that delivery and return change. -/
structure SignalThread where
  trapCx : TrapContext
  signalMask : SignalFlags

def signalFrame (siginfo : LinuxSigInfo) (stack : LinuxStack) (interruptedPc : BitVec 64)
    (oldMask : SignalFlags) (saved : TrapContext) : RiscvSignalFrame where
  siginfo := siginfo
  ucontext :=
    { flags := 0
      link := 0
      stack := stack
      sigmask := flagsToLinuxSigset oldMask
      sigmaskPadding := replicate 120 0
      mcontext := .new interruptedPc saved }
  magic := SIGNAL_FRAME_MAGIC
  savedContext := saved
  trampoline := #v[0x08b00893, 0x00000073]

open RiscvSignalFrame

def sysRtSigreturn (mem : UserMemory) (th : SignalThread) :
    Except Errno (BitVec 64) × SignalThread :=
  match readUserValue mem (th.trapCx.x[2]) codec.size with
  | .error e => (.error e, th)
  | .ok bytes =>
    let frame := codec.decode bytes
    if frame.magic ≠ SIGNAL_FRAME_MAGIC then (.error .EINVAL, th)
    else
      let restored := frame.ucontext.mcontext.restoreTrapContext frame.savedContext
      (.ok (restored.x[10]),
        { trapCx := restored, signalMask := signalFlagsFromRaw frame.ucontext.sigmask })

/-- The privileged fields of `after` are the kernel's own, those of `before`, and the
trap return enters user mode. -/
structure KernelKept (before after : TrapContext) : Prop where
  kernelSp : after.kernelSp = before.kernelSp
  trapHandler : after.trapHandler = before.trapHandler
  kernelTp : after.kernelTp = before.kernelTp
  user : after.spp = false

lemma kernelKept_iff {before after : TrapContext} : KernelKept before after ↔
    after.kernelSp = before.kernelSp ∧ after.trapHandler = before.trapHandler ∧
      after.kernelTp = before.kernelTp ∧ after.spp = false :=
  ⟨fun h => ⟨h.kernelSp, h.trapHandler, h.kernelTp, h.user⟩,
    fun h => ⟨h.1, h.2.1, h.2.2.1, h.2.2.2⟩⟩

/-- A frame that signal return accepts carries the kernel's own fields. -/
def FrameHonest (mem : UserMemory) (cx : TrapContext) : Prop :=
  ∀ bytes, readUserValue mem (cx.x[2]) codec.size = .ok bytes →
    (codec.decode bytes).magic = SIGNAL_FRAME_MAGIC →
    KernelKept cx (codec.decode bytes).savedContext

open RiscvMContext

variable {saved : TrapContext} {mem : UserMemory} {th : SignalThread}

/-- The mcontext has none of the kernel's fields. -/
lemma restoreTrapContext_kept {m : RiscvMContext} {cx : TrapContext} :
    KernelKept cx (m.restoreTrapContext saved) ↔ KernelKept cx saved := by
  have hsp : (m.restoreTrapContext saved).kernelSp = saved.kernelSp := by
    simp [restoreTrapContext]
  have hhandler : (m.restoreTrapContext saved).trapHandler = saved.trapHandler := by
    simp [restoreTrapContext]
  have htp : (m.restoreTrapContext saved).kernelTp = saved.kernelTp := by
    simp [restoreTrapContext]
  have hspp : (m.restoreTrapContext saved).spp = saved.spp := by
    simp [TrapContext.spp, restoreTrapContext]
  rw [kernelKept_iff, kernelKept_iff, hsp, hhandler, htp, hspp]

lemma restoreTrapContext_new (pc : BitVec 64) (saved : TrapContext) :
    (RiscvMContext.new pc saved).restoreTrapContext saved = { saved with sepc := pc } := by
  have hx : (Vector.ofFn fun i : Fin 32 => if i = 0 then saved.x[0]
      else (new pc saved).gregs[i]) = saved.x := by
    apply Vector.ext
    intro i hi
    by_cases h0 : (⟨i, hi⟩ : Fin 32) = 0
    · cases h0
      simp
    · simp [new, h0]
  have hf : (Vector.ofFn fun i : Fin 32 =>
      (new pc saved).fpregs.f[i.val]) = saved.f := by
    apply Vector.ext
    intro i hi
    simp [new]
  unfold restoreTrapContext
  rw [hx, hf]
  simp [new]

lemma sysRtSigreturn_frame {frame : RiscvSignalFrame}
    (hread : readUserValue mem (th.trapCx.x[2]) RiscvSignalFrame.codec.size =
      .ok (RiscvSignalFrame.codec.encode frame)) (hmagic : frame.magic = SIGNAL_FRAME_MAGIC) :
    (sysRtSigreturn mem th).2 =
      { trapCx := frame.ucontext.mcontext.restoreTrapContext frame.savedContext
        signalMask := signalFlagsFromRaw frame.ucontext.sigmask } := by
  have hdec := RiscvSignalFrame.codec.decode_encode frame []
  rw [List.append_nil] at hdec
  unfold sysRtSigreturn
  simp [hread, hdec, hmagic]

/-- **Round trip**: returning through an untouched frame restores the interrupted
context and mask. -/
theorem sigreturn_deliver {siginfo : LinuxSigInfo}
    {stack : LinuxStack} {pc : BitVec 64} {oldMask : SignalFlags}
    (hread : readUserValue mem (th.trapCx.x[2]) RiscvSignalFrame.codec.size =
      .ok (RiscvSignalFrame.codec.encode (signalFrame siginfo stack pc oldMask saved))) :
    (sysRtSigreturn mem th).2 =
      { trapCx := { saved with sepc := pc }
        signalMask := signalFlagsFromRaw (flagsToLinuxSigset oldMask) } := by
  rw [sysRtSigreturn_frame hread rfl]
  simp [signalFrame, restoreTrapContext_new]

lemma sysRtSigreturn_kept_iff (mem : UserMemory) (th : SignalThread)
    (huser : th.trapCx.spp = false) :
    KernelKept th.trapCx (sysRtSigreturn mem th).2.trapCx ↔ FrameHonest mem th.trapCx := by
  have same : KernelKept th.trapCx th.trapCx := ⟨rfl, rfl, rfl, huser⟩
  unfold sysRtSigreturn FrameHonest
  cases hread : readUserValue mem (th.trapCx.x[2]) RiscvSignalFrame.codec.size with
  | error e => simp [same]
  | ok bytes =>
    by_cases hmagic : (RiscvSignalFrame.codec.decode bytes).magic = SIGNAL_FRAME_MAGIC
    · simp [hmagic, restoreTrapContext_kept]
    · simp [hmagic, same]

end Riscv64

namespace Loongarch64

structure TrapContext where
  x : Vector (BitVec 64) 32
  prmd : BitVec 64
  era : BitVec 64
  kernelSatp : BitVec 64
  kernelSp : BitVec 64
  trapHandler : BitVec 64
  vectorAlign : Vector (BitVec 64) 3

def TrapContext.codec : Codec TrapContext :=
  ((u64.array 32).seq (u64.seq (u64.seq (u64.seq (u64.seq (u64.seq (u64.array 3))))))).iso
    (fun p => ⟨p.1, p.2.1, p.2.2.1, p.2.2.2.1, p.2.2.2.2.1, p.2.2.2.2.2.1, p.2.2.2.2.2.2⟩)
    (fun c => (c.x, c.prmd, c.era, c.kernelSatp, c.kernelSp, c.trapHandler, c.vectorAlign))
    (fun _ => rfl)

example : TrapContext.codec.size = 40 * 8 := rfl

/-- `PRMD.PPLV`: the privilege level that `ertn` enters, 3 for user mode. -/
def TrapContext.pplv (cx : TrapContext) : BitVec 64 := cx.prmd &&& 3

/-- The `bool` and the mode are bytes of the frame. -/
structure UserFpState where
  vector : Vector (Vector (BitVec 64) 4) 32
  fcc : BitVec 64
  fcsr : BitVec 32
  mode : Byte
  restorePending : Byte
  reserved : Vector Byte 18

namespace UserFpState

def codec : Codec UserFpState :=
  (((u64.array 4).array 32).seq (u64.seq (u32.seq (u8.seq (u8.seq (u8.array 18)))))).iso
    (fun p => ⟨p.1, p.2.1, p.2.2.1, p.2.2.2.1, p.2.2.2.2.1, p.2.2.2.2.2⟩)
    (fun s => (s.vector, s.fcc, s.fcsr, s.mode, s.restorePending, s.reserved)) (fun _ => rfl)

example : codec.size = 132 * 8 := rfl

/-- `UserFpState::new(UserFpMode::Scalar)`. -/
def scalar : UserFpState :=
  ⟨replicate 32 (replicate 4 0), 0, 0, 1, 1, replicate 18 0⟩

/-- The mode is scalar, LSX or LASX. -/
def validate (s : UserFpState) : Bool := s.mode == 1 || s.mode == 2 || s.mode == 3

def markSaved (s : UserFpState) : UserFpState := { s with restorePending := 1 }

end UserFpState

/-- `LoongArchMContextCompat`. -/
structure MContext where
  pc : BitVec 64
  gregs : Vector (BitVec 64) 32
  flags : BitVec 32
  pad : BitVec 32

def MContext.codec : Codec MContext :=
  (u64.seq ((u64.array 32).seq (u32.seq u32))).iso
    (fun p => ⟨p.1, p.2.1, p.2.2.1, p.2.2.2⟩) (fun m => (m.pc, m.gregs, m.flags, m.pad))
    (fun _ => rfl)

/-- `LinuxUContextCompat`; the signal set is 16 words of which the first is used. -/
structure UContext where
  flags : BitVec 64
  link : BitVec 64
  stack : LinuxStack
  sigmask : Vector (BitVec 64) 16
  mcontext : MContext

/-- The 8 bytes before `mcontext` come from its alignment. -/
def UContext.codec : Codec UContext :=
  (u64.seq (u64.seq (LinuxStack.codec.seq ((u64.array 16).seq
    ((Codec.pad 8).seq MContext.codec))))).iso
    (fun p => ⟨p.1, p.2.1, p.2.2.1, p.2.2.2.1, p.2.2.2.2.2⟩)
    (fun u => (u.flags, u.link, u.stack, u.sigmask, (), u.mcontext)) (fun _ => rfl)

/-- `LoongArchSignalFrame`. -/
structure SignalFrame where
  magic : BitVec 64
  trampoline : Vector (BitVec 32) 2
  savedContext : TrapContext
  savedFpStateValid : BitVec 64
  savedFpState : UserFpState
  siginfo : LinuxSigInfo
  ucontext : UContext

/-- The 8 bytes before the FP state come from its 32-byte alignment. -/
def SignalFrame.codec : Codec SignalFrame :=
  (u64.seq ((u32.array 2).seq (TrapContext.codec.seq (u64.seq ((Codec.pad 8).seq
    (UserFpState.codec.seq ((u8.array 128).seq UContext.codec))))))).iso
    (fun p => ⟨p.1, p.2.1, p.2.2.1, p.2.2.2.1, p.2.2.2.2.2.1, p.2.2.2.2.2.2.1,
      p.2.2.2.2.2.2.2⟩)
    (fun s => (s.magic, s.trampoline, s.savedContext, s.savedFpStateValid, (), s.savedFpState,
      s.siginfo, s.ucontext)) (fun _ => rfl)

def SIGNAL_FRAME_MAGIC : BitVec 64 := 0x574c415349474652

/-- The fields of the current thread that delivery and return change. -/
structure SignalThread where
  trapCx : TrapContext
  signalMask : SignalFlags
  fpState : Option UserFpState

def signalFrame (siginfo : LinuxSigInfo) (interruptedPc : BitVec 64) (oldMask : SignalFlags)
    (saved : TrapContext) (fpState : Option UserFpState) : SignalFrame where
  magic := SIGNAL_FRAME_MAGIC
  trampoline := #v[0x03822c0b, 0x002b0000]
  savedContext := saved
  savedFpStateValid := if fpState.isSome then 1 else 0
  savedFpState := fpState.getD .scalar
  siginfo := siginfo
  ucontext :=
    { flags := 0
      link := 0
      stack := ⟨0, 2, 0, 0⟩
      sigmask := (replicate 16 0).set 0 (flagsToLinuxSigset oldMask)
      mcontext := ⟨interruptedPc, saved.x, 0, 0⟩ }

/-- The FP state that a frame restores; `none` where the frame is refused. -/
def SignalFrame.restoredFpState (frame : SignalFrame) : Option (Option UserFpState) :=
  if frame.savedFpStateValid = 0 then some none
  else if frame.savedFpStateValid = 1 ∧ frame.savedFpState.validate = true then
    some (some frame.savedFpState)
  else none

def sysRtSigreturn (mem : UserMemory) (th : SignalThread) :
    Except Errno (BitVec 64) × SignalThread :=
  match readUserValue mem th.trapCx.x[3] SignalFrame.codec.size with
  | .error e => (.error e, th)
  | .ok bytes =>
    let frame := SignalFrame.codec.decode bytes
    if frame.magic ≠ SIGNAL_FRAME_MAGIC then (.error .EINVAL, th)
    else
      -- the mask is restored before the FP state is looked at
      let th := { th with signalMask := signalFlagsFromRaw frame.ucontext.sigmask[0] }
      match frame.restoredFpState with
      | none => (.error .EINVAL, th)
      | some fpState =>
        let restored := { frame.savedContext with
          era := frame.ucontext.mcontext.pc
          x := frame.ucontext.mcontext.gregs }
        (.ok restored.x[4],
          { th with trapCx := restored, fpState := fpState.map UserFpState.markSaved })

/-- The privileged fields of `after` are the kernel's own, those of `before`, and the
trap return enters user mode. -/
structure KernelKept (before after : TrapContext) : Prop where
  kernelSatp : after.kernelSatp = before.kernelSatp
  kernelSp : after.kernelSp = before.kernelSp
  trapHandler : after.trapHandler = before.trapHandler
  user : after.pplv = 3

/-- A frame that signal return accepts carries the kernel's own fields. -/
def FrameHonest (mem : UserMemory) (cx : TrapContext) : Prop :=
  ∀ bytes, readUserValue mem cx.x[3] SignalFrame.codec.size = .ok bytes →
    (SignalFrame.codec.decode bytes).magic = SIGNAL_FRAME_MAGIC →
    (SignalFrame.codec.decode bytes).restoredFpState.isSome = true →
    KernelKept cx (SignalFrame.codec.decode bytes).savedContext

variable {pc : BitVec 64} {saved : TrapContext}

/-- The mcontext has none of the kernel's fields. -/
lemma kernelKept_restored {cx : TrapContext} {gregs : Vector (BitVec 64) 32} :
    KernelKept cx { saved with era := pc, x := gregs } ↔ KernelKept cx saved := by
  constructor
  · intro h
    exact { h with }
  · intro h
    exact { h with }

open SignalFrame

/-- **Round trip**: returning through an untouched frame restores the interrupted
context, mask and FP state. -/
theorem sigreturn_deliver_fp {mem : UserMemory} {th : SignalThread} {siginfo : LinuxSigInfo}
    {oldMask : SignalFlags} {fpState : Option UserFpState}
    (hfp : ∀ s, fpState = some s → s.validate = true)
    (hread : readUserValue mem th.trapCx.x[3] SignalFrame.codec.size =
      .ok (SignalFrame.codec.encode (signalFrame siginfo pc oldMask saved fpState))) :
    (sysRtSigreturn mem th).2 =
      { trapCx := { saved with era := pc }
        signalMask := signalFlagsFromRaw (flagsToLinuxSigset oldMask)
        fpState := fpState.map UserFpState.markSaved } := by
  have hdec := codec.decode_encode (signalFrame siginfo pc oldMask saved fpState) []
  rw [List.append_nil] at hdec
  have hres : (signalFrame siginfo pc oldMask saved fpState).restoredFpState = some fpState := by
    cases fpState with
    | none => rfl
    | some s => simp [signalFrame, restoredFpState, hfp s rfl]
  unfold sysRtSigreturn
  simp only [hread, hdec, hres]
  simp [signalFrame]

lemma sysRtSigreturn_kept_iff (mem : UserMemory) (th : SignalThread)
    (huser : th.trapCx.pplv = 3) :
    KernelKept th.trapCx (sysRtSigreturn mem th).2.trapCx ↔ FrameHonest mem th.trapCx := by
  have same : KernelKept th.trapCx th.trapCx := ⟨rfl, rfl, rfl, huser⟩
  unfold sysRtSigreturn FrameHonest
  rcases hread : readUserValue mem th.trapCx.x[3] codec.size with _ | bytes
  · simp [same]
  by_cases hmagic : (codec.decode bytes).magic = SIGNAL_FRAME_MAGIC
  swap
  · simp [hmagic, same]
  rcases hfp : (codec.decode bytes).restoredFpState with _ | fpState
  · simp [hmagic, hfp, same]
  simp only [hmagic, hfp, ne_eq, not_true_eq_false, if_false]
  rw [kernelKept_restored]
  constructor
  · intro hkept bytes' hbytes _ _
    cases hbytes
    exact hkept
  · intro hhonest
    exact hhonest bytes rfl hmagic (by rw [hfp]; rfl)

end Loongarch64

/-! ## Both architectures -/

open Riscv64

/-- **When signal return keeps the kernel's state**: on a trap from user mode, the thread
keeps the kernel's own fields and returns to user mode exactly when the frame at its
stack pointer, if it is readable and accepted, carries these fields already. -/
theorem sigreturn_kept_iff (mem : UserMemory) (rth : Riscv64.SignalThread)
    (lth : Loongarch64.SignalThread) (hr : rth.trapCx.spp = false) (hl : lth.trapCx.pplv = 3) :
    (Riscv64.KernelKept rth.trapCx (sysRtSigreturn mem rth).2.trapCx ↔
      Riscv64.FrameHonest mem rth.trapCx) ∧
    (Loongarch64.KernelKept lth.trapCx (Loongarch64.sysRtSigreturn mem lth).2.trapCx ↔
      Loongarch64.FrameHonest mem lth.trapCx) :=
  ⟨sysRtSigreturn_kept_iff mem rth hr, Loongarch64.sysRtSigreturn_kept_iff mem lth hl⟩

/-- A thread in a system call with its stack pointer at 0x10000. -/
def riscvThread : Riscv64.SignalThread where
  trapCx := ⟨(replicate 32 0).set 2 0x10000, 0, 0, 0x80200000, 0x80300000,
    replicate 32 0, 0, 0, 0x80400000⟩
  signalMask := 0

def loongarchThread : Loongarch64.SignalThread where
  trapCx := ⟨(replicate 32 0).set 3 0x10000, 7, 0, 0x1000, 0x80200000, 0x80300000,
    replicate 3 0⟩
  signalMask := 0
  fpState := none

def emptyStack : LinuxStack := ⟨0, 0, 0, 0⟩

/-- The frame of a delivered signal that the handler left alone. -/
def riscvFrame (saved : Riscv64.TrapContext) : Riscv64.RiscvSignalFrame :=
  signalFrame (replicate 128 0) emptyStack 0x400 0 saved

def loongarchFrame (saved : Loongarch64.TrapContext) : Loongarch64.SignalFrame :=
  Loongarch64.signalFrame (replicate 128 0) 0x400 0 saved none

open Riscv64.RiscvSignalFrame

theorem sigreturn_deliver_untouched :
    (sysRtSigreturn (.holding 0x10000 (codec.encode (riscvFrame riscvThread.trapCx)))
      riscvThread).2.trapCx = { riscvThread.trapCx with sepc := 0x400 } :=
  congrArg Riscv64.SignalThread.trapCx <| sigreturn_deliver <|
    show readUserValue _ riscvThread.trapCx.x[2] _ = _ from
      readUserValue_encode codec (riscvFrame riscvThread.trapCx) 0x10000 (by decide)

/-- A state of the LSX unit with a rounding mode of its own. -/
def lsxState : Loongarch64.UserFpState :=
  { Loongarch64.UserFpState.scalar with mode := 2, fcsr := 0x100, restorePending := 0 }

/-- The frame of a signal that was delivered to a thread with this state. -/
def lsxFrame (saved : Loongarch64.TrapContext) : Loongarch64.SignalFrame :=
  Loongarch64.signalFrame (replicate 128 0) 0x400 (SignalFlags.single 10) saved (some lsxState)

/-- The thread runs without a state when it returns, and has the saved one afterwards. -/
theorem sigreturn_deliver_fp_lsx : loongarchThread.fpState = none ∧
    (Loongarch64.sysRtSigreturn (.holding 0x10000 (Loongarch64.SignalFrame.codec.encode
      (lsxFrame loongarchThread.trapCx))) loongarchThread).2 =
        { trapCx := { loongarchThread.trapCx with era := 0x400 }
          signalMask := signalFlagsFromRaw (flagsToLinuxSigset (SignalFlags.single 10))
          fpState := some { lsxState with restorePending := 1 } } :=
  ⟨rfl, @Loongarch64.sigreturn_deliver_fp _ _ _ _ _ _ (some lsxState) (by rintro _ ⟨⟩; rfl) <|
    show readUserValue _ loongarchThread.trapCx.x[3] _ = _ from
      readUserValue_encode _ (lsxFrame loongarchThread.trapCx) 0x10000 (by decide)⟩

/-- Both threads return through the frames of a delivered signal. -/
theorem sigreturn_kept_delivered :
    Riscv64.KernelKept riscvThread.trapCx
      (sysRtSigreturn (.holding 0x10000
        (codec.encode (riscvFrame riscvThread.trapCx)))
        riscvThread).2.trapCx ∧
    Loongarch64.KernelKept loongarchThread.trapCx
      (Loongarch64.sysRtSigreturn (.holding 0x10000
        (Loongarch64.SignalFrame.codec.encode (loongarchFrame loongarchThread.trapCx)))
        loongarchThread).2.trapCx := by
  constructor
  · refine (sigreturn_kept_iff _ riscvThread loongarchThread (by decide) (by decide)).1.mpr ?_
    intro bytes hbytes _
    have hread := readUserValue_encode codec
      (riscvFrame riscvThread.trapCx) 0x10000 (by decide)
    have hdec := codec.decode_encode (riscvFrame riscvThread.trapCx) []
    rw [List.append_nil] at hdec
    obtain rfl : _ = bytes := Except.ok.inj (hread.symm.trans hbytes)
    rw [hdec]
    exact ⟨rfl, rfl, rfl, by decide⟩
  · refine (sigreturn_kept_iff _ riscvThread loongarchThread (by decide) (by decide)).2.mpr ?_
    intro bytes hbytes _ _
    have hread := readUserValue_encode Loongarch64.SignalFrame.codec
      (loongarchFrame loongarchThread.trapCx) 0x10000 (by decide)
    obtain rfl : _ = bytes := Except.ok.inj (hread.symm.trans hbytes)
    exact ⟨rfl, rfl, rfl, by decide⟩

/-- **A forged frame**: the kernel stack, the trap entry and the supervisor bit of the
frame are installed. -/
theorem sigreturn_forged :
    ∃ mem, (sysRtSigreturn mem riscvThread).2.trapCx.kernelSp = 0x41414141 ∧
      (sysRtSigreturn mem riscvThread).2.trapCx.spp = true ∧
      ¬ Riscv64.KernelKept riscvThread.trapCx
        (sysRtSigreturn mem riscvThread).2.trapCx := by
  have hread := readUserValue_encode codec
    (riscvFrame { riscvThread.trapCx with sstatus := 0x100, kernelSp := 0x41414141 })
    0x10000 (by decide)
  have hframe := sysRtSigreturn_frame
    (show readUserValue _ riscvThread.trapCx.x[2] _ = _ from hread) rfl
  refine ⟨_, by rw [hframe]; rfl, by rw [hframe]; rfl, ?_⟩
  intro hkept
  have := hkept.user
  rw [hframe] at this
  cases this

end Whusp.Arch
