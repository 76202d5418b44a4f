import Mathlib.Data.BitVec

/-!
# Signal sets, actions and dispositions

The parts of `task/signal.rs` that signal queueing, delivery and the signal frame
use.  `SignalFlags` is a 128-bit set whose bit `n` stands for signal `n`; the Linux
ABI set is 64 bits wide with bit 0 for signal 1.
-/

namespace Whusp.Task

/-- Bit `n` stands for signal `n`. -/
abbrev SignalFlags := BitVec 128

def SIGNAL_INFO_SLOTS : Nat := 65
def SIGKILL : Nat := 9
def SIGCHLD : Nat := 17
def SIGCONT : Nat := 18
def SIGSTOP : Nat := 19
def SIGTSTP : Nat := 20
def SIGTTIN : Nat := 21
def SIGTTOU : Nat := 22

namespace SignalFlags

/-- The set of one signal, `SignalFlags::from_bits_retain(1 << signum)`. -/
def single (signum : Nat) : SignalFlags := 1#128 <<< signum

def fromSignum (signum : Nat) : Option SignalFlags :=
  if signum = 0 then some 0
  else if SIGNAL_INFO_SLOTS ≤ signum then none
  else some (single signum)

/-- `contains` for the set of one signal. -/
def has (flags : SignalFlags) (signum : Nat) : Bool := flags.getLsbD signum

def remove (flags other : SignalFlags) : SignalFlags := flags &&& ~~~other

@[simp] lemma has_or (a b : SignalFlags) (n : Nat) : has (a ||| b) n = (has a n || has b n) := by
  simp [has]

@[simp] lemma has_zero (n : Nat) : has 0#128 n = false := by
  simp [has]

lemma has_single {signum n : Nat} (hn : n < 128) : has (single signum) n = decide (n = signum) := by
  unfold has single
  rw [BitVec.getLsbD_shiftLeft]
  rcases eq_or_ne n signum with rfl | h
  · simp [hn]
  · by_cases hlt : n < signum
    · simp [hlt, h]
    · have : n - signum ≠ 0 := by omega
      simp [hlt, h, BitVec.getLsbD_one, this]

lemma has_remove {a b : SignalFlags} {n : Nat} (hn : n < 128) :
    has (remove a b) n = (has a n && !has b n) := by
  unfold has remove
  simp [hn]

end SignalFlags

def linuxSigsetToFlags (raw : BitVec 64) : SignalFlags := raw.setWidth 128 <<< 1

def flagsToLinuxSigset (flags : SignalFlags) : BitVec 64 := (flags >>> 1).setWidth 64

open SignalFlags

/-- A user's set without the unblockable signals. -/
def signalFlagsFromRaw (raw : BitVec 64) : SignalFlags :=
  remove (linuxSigsetToFlags raw)
    (single SIGKILL ||| single SIGSTOP)

/-- A mask from user space never holds SIGKILL. -/
lemma signalFlagsFromRaw_noKill (raw : BitVec 64) :
    has (signalFlagsFromRaw raw) SIGKILL = false := by
  unfold signalFlagsFromRaw
  rw [has_remove (by decide), has_or, has_single (by decide)]
  simp

structure SignalAction where
  handler : Nat
  flags : Nat
  restorer : Nat
  mask : SignalFlags
  deriving Inhabited

def SA_NODEFER : Nat := 0x40000000
def SA_RESETHAND : Nat := 0x80000000

namespace SignalAction

/-- `SignalAction::default`. -/
def dfl : SignalAction := ⟨0, 0, 0, 0⟩

def isIgnore (a : SignalAction) : Bool := a.handler == 1

def hasUserHandler (a : SignalAction) : Bool := decide (1 < a.handler)

/-- `action.flags & flag != 0` for a flag of one bit. -/
def hasFlag (a : SignalAction) (flag : Nat) : Bool := a.flags &&& flag != 0

/-- `signal_action_from_linux`: the mask loses the unblockable signals. -/
def fromLinux (handler flags restorer : Nat) (mask : BitVec 64) : SignalAction :=
  ⟨handler, flags, restorer, signalFlagsFromRaw mask⟩

end SignalAction

inductive DefaultSignalAction where
  | terminate
  | ignore
  | stop
  | continue
  | core
  deriving DecidableEq

def defaultSignalAction (signum : Nat) : Option DefaultSignalAction :=
  if signum ∈ [1, 2, 13, 14, 15, 16, 26, 27, 29, 30] then some .terminate
  else if signum ∈ [3, 4, 5, 6, 7, 8, 11, 24, 25, 31] then some .core
  else if signum = 9 then some .terminate
  else if signum ∈ [17, 23, 28] then some .ignore
  else if signum = 18 then some .continue
  else if 19 ≤ signum ∧ signum ≤ 22 then some .stop
  else if 32 ≤ signum ∧ signum ≤ 64 then some .terminate
  else none

def canDeliverUserSignal (signum : Nat) : Bool :=
  decide (0 < signum ∧ signum < SIGNAL_INFO_SLOTS ∧ signum ≠ SIGKILL ∧ signum ≠ SIGSTOP)

/-- The lowest signal of a set, `bits().trailing_zeros()`. -/
def lowestSignal (flags : SignalFlags) : Option Nat :=
  (List.range 128).find? fun n => flags.has n

/-- The stop signals that a resume clears. -/
def stopSignals : SignalFlags :=
  single SIGSTOP ||| single SIGTSTP ||| single SIGTTIN |||
    single SIGTTOU

/-- SIGKILL is not among the stop signals. -/
lemma stopSignals_noKill : has stopSignals SIGKILL = false := by
  decide

end Whusp.Task
