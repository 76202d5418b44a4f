import Mathlib.Data.List.Range
import Whusp.Lib.Transition
import Whusp.Task.Signal

/-!
# Signals on the way back to user mode

`trap_handler` ends with two looks at the pending signals of a thread: `deliver_pending_signal`
enters the handler of the first deliverable one, `check_signals_of_task` applies the default
action of the lowest one.  Each looks at one signal only.
-/

namespace Whusp.Arch.Delivery

open Whusp.Task SignalFlags

def SIGSEGV : Nat := 11

/-- The signal fields of a task and the actions of its process. -/
structure Thread where
  pending : SignalFlags
  mask : SignalFlags
  sigsuspendRestoreMask : Option SignalFlags
  actions : Nat → SignalAction

structure PendingUserSignal where
  signum : Nat
  oldMask : SignalFlags
  deriving DecidableEq

inductive TrapEnd where
  | handler (delivery : PendingUserSignal)
  | resume
  | exit (signum : Nat)
  deriving DecidableEq

/-- `default_signal_error(signum).is_some()`. -/
def defaultSignalError (signum : Nat) : Bool :=
  decide (0 < signum ∧ signum < SIGNAL_INFO_SLOTS ∧ signum ∉ [17, 18, 19, 20, 21, 22, 23, 28])

namespace Thread

def unmasked (th : Thread) : SignalFlags := th.pending.remove th.mask

def clearPending (th : Thread) (signum : Nat) : Thread :=
  { th with pending := th.pending.remove ((fromSignum signum).getD 0#128) }

/-- The thread as the handler of a signal starts. -/
def enterHandler (th : Thread) (signum : Nat) : Thread :=
  let action := th.actions signum
  { th.clearPending signum with
    mask := th.mask ||| action.mask ||| if action.hasFlag SA_NODEFER then 0 else single signum
    sigsuspendRestoreMask := none
    actions := if action.hasFlag SA_RESETHAND then Function.update th.actions signum .dfl
      else th.actions }

/-- The first unmasked pending signal that a handler may take. -/
def selected (th : Thread) : Option Nat :=
  (List.range SIGNAL_INFO_SLOTS).find? fun n => th.unmasked.has n && canDeliverUserSignal n

/-- `take_pending_user_signal_for_task`.  Nothing clears or masks the signal between its sections,
so that the second look at the pending set finds it. -/
def takePendingUserSignal (th : Thread) : Thread × Option PendingUserSignal :=
  match th.selected with
  | none => (th, none)
  | some n =>
    if (th.actions n).isIgnore then (th.clearPending n, none)
    else if (th.actions n).hasUserHandler then
      (th.enterHandler n, some ⟨n, th.sigsuspendRestoreMask.getD th.mask⟩)
    else (th, none)

def forceDefaultSigsegv (th : Thread) : Thread :=
  { th with
    actions := Function.update th.actions SIGSEGV .dfl
    mask := th.mask.remove (single SIGSEGV)
    pending := th.pending ||| single SIGSEGV }

/-- The frame may not fit the user stack. -/
def deliverPendingSignal (th : Thread) (frameFits : Bool) : Thread × Option PendingUserSignal :=
  match th.takePendingUserSignal with
  | (th, some d) => if frameFits then (th, some d) else (th.forceDefaultSigsegv, none)
  | (th, none) => (th, none)

/-- `check_signals_of_task`, with the signal whose default action ends the process. -/
def checkSignals (th : Thread) (isInit : Bool) : Thread × Option Nat :=
  match lowestSignal th.unmasked with
  | none => (th, none)
  | some n =>
    let action := th.actions n
    if SIGNAL_INFO_SLOTS ≤ n then (th, none)
    else if action.isIgnore || (!action.hasUserHandler &&
        (defaultSignalAction n == some .ignore || isInit)) then (th.clearPending n, none)
    else if action.hasUserHandler then (th, none)
    else (th, if defaultSignalError n then some n else none)

/-- The end of `trap_handler`. -/
def signalChecks (th : Thread) (frameFits isInit : Bool) : Thread × TrapEnd :=
  match th.deliverPendingSignal frameFits with
  | (th, some d) => (th, .handler d)
  | (th, none) =>
    match th.checkSignals isInit with
    | (th, some n) => (th, .exit n)
    | (th, none) => (th, .resume)

variable {th : Thread} {n m : Nat}

/-- Whether the default action of a signal ends the process: there is no handler, the signal is not
ignored, and its default is an error. -/
def fatal (th : Thread) (n : Nat) : Bool :=
  !(th.actions n).isIgnore && !(th.actions n).hasUserHandler && defaultSignalError n

/-- What the delivery leaves to `check_signals_of_task` where it enters no handler: an ignored
signal is dropped, and a handler whose frame does not fit has become the default SIGSEGV. -/
def leftOver (th : Thread) : Thread :=
  match th.selected with
  | none => th
  | some m =>
    if (th.actions m).isIgnore then th.clearPending m
    else if (th.actions m).hasUserHandler then (th.enterHandler m).forceDefaultSigsegv
    else th

/-- No handler is entered, and the lowest unmasked signal that is left ends the process. -/
def Ends (th : Thread) (frameFits : Bool) : Prop :=
  (∀ m, th.selected = some m → (th.actions m).hasUserHandler = true → frameFits = false) ∧
    ∃ l, lowestSignal th.leftOver.unmasked = some l ∧ th.leftOver.fatal l = true

lemma not_isIgnore_of_hasUserHandler (h : (th.actions n).hasUserHandler = true) :
    (th.actions n).isIgnore = false := by
  have := of_decide_eq_true h
  simp [SignalAction.isIgnore]
  omega

/-- The default check ends a process other than init exactly for a fatal lowest signal. -/
lemma checkSignals_eq_some (isInit : Bool) : (th.checkSignals isInit).2 = some n ↔
    isInit = false ∧ lowestSignal th.unmasked = some n ∧ th.fatal n = true := by
  have hdefault : ∀ k < SIGNAL_INFO_SLOTS, defaultSignalError k = true →
      defaultSignalAction k ≠ some .ignore := by decide
  unfold checkSignals fatal
  cases hlow : lowestSignal th.unmasked with
  | none => simp
  | some l =>
    by_cases hslots : SIGNAL_INFO_SLOTS ≤ l
    · -- no slot of the table is that high, so there is no default for it either
      have herr : defaultSignalError l = false := by
        simp [defaultSignalError]
        omega
      simp only [hslots, if_true, Option.some.injEq, reduceCtorEq, false_iff]
      rintro ⟨-, rfl, h⟩
      simp [herr] at h
    · have hdef := hdefault l (by omega)
      simp only [hslots, if_false, Option.some.injEq]
      cases hign : (th.actions l).isIgnore <;> cases hhand : (th.actions l).hasUserHandler <;>
        cases herr : defaultSignalError l <;> cases isInit <;> simp_all <;> grind

/-- Where no handler is entered, the delivery leaves `leftOver`. -/
lemma deliver_eq_none (frameFits : Bool) (h : (th.deliverPendingSignal frameFits).2 = none) :
    (th.deliverPendingSignal frameFits).1 = th.leftOver := by
  revert h
  unfold deliverPendingSignal takePendingUserSignal leftOver
  cases hsel : th.selected with
  | none => simp
  | some m =>
    cases hign : (th.actions m).isIgnore <;> cases hhand : (th.actions m).hasUserHandler <;>
      cases frameFits <;> simp [hign, hhand]

/-- The delivery enters the handler of the selected signal exactly if there is one and its frame
fits. -/
lemma deliver_eq_some {d : PendingUserSignal} (frameFits : Bool) :
    (th.deliverPendingSignal frameFits).2 = some d ↔ frameFits = true ∧
      th.selected = some d.signum ∧ (th.actions d.signum).hasUserHandler = true ∧
      d.oldMask = th.sigsuspendRestoreMask.getD th.mask := by
  obtain ⟨k, old⟩ := d
  unfold deliverPendingSignal takePendingUserSignal
  cases hsel : th.selected with
  | none => simp
  | some m =>
    cases hhand : (th.actions m).hasUserHandler with
    | true =>
      have hign := not_isIgnore_of_hasUserHandler hhand
      cases frameFits
      · simp [hign, hhand]
      · simp only [hign, hhand, Bool.false_eq_true, if_false, if_true, Option.some.injEq,
          PendingUserSignal.mk.injEq, true_and]
        constructor
        · rintro ⟨rfl, rfl⟩
          exact ⟨rfl, hhand, rfl⟩
        · rintro ⟨rfl, -, rfl⟩
          exact ⟨rfl, rfl⟩
    | false =>
      have hk : ∀ k, m = k → (th.actions k).hasUserHandler = false := by
        rintro _ rfl
        exact hhand
      cases hign : (th.actions m).isIgnore <;> simp [hign, hhand] <;> intro _ h <;> simp [hk _ h]

/-- What the end of a trap does is decided by the delivery, and by the check where it enters no
handler. -/
lemma signalChecks_handler {d : PendingUserSignal} (frameFits isInit : Bool) :
    (th.signalChecks frameFits isInit).2 = .handler d ↔
      (th.deliverPendingSignal frameFits).2 = some d := by
  unfold signalChecks
  rcases th.deliverPendingSignal frameFits with ⟨th', _ | d'⟩
  · rcases hc : th'.checkSignals isInit with ⟨_, _ | k⟩ <;> simp [hc]
  · simp

/-- A trap ends the process exactly under `Ends`. -/
lemma signalChecks_exit (frameFits isInit : Bool) :
    (∃ n, (th.signalChecks frameFits isInit).2 = .exit n) ↔ isInit = false ∧ th.Ends frameFits := by
  have hentered : (th.deliverPendingSignal frameFits).2 = none ↔
      ∀ m, th.selected = some m → (th.actions m).hasUserHandler = true → frameFits = false := by
    rw [Option.eq_none_iff_forall_ne_some]
    constructor
    · intro h m hsel hhand
      by_contra hfits
      exact h ⟨m, _⟩ ((deliver_eq_some frameFits).mpr ⟨by simpa using hfits, hsel, hhand, rfl⟩)
    · intro h d hd
      obtain ⟨hfits, hsel, hhand, -⟩ := (deliver_eq_some frameFits).mp hd
      simp [h _ hsel hhand] at hfits
  have hleft := @deliver_eq_none th frameFits
  unfold Ends signalChecks
  rw [← hentered]
  rcases hd : th.deliverPendingSignal frameFits with ⟨th', _ | d⟩
  · rw [hd] at hleft
    obtain rfl : th' = th.leftOver := hleft rfl
    have hcheck := fun n => @checkSignals_eq_some th.leftOver n isInit
    rcases hc : th.leftOver.checkSignals isInit with ⟨th'', _ | k⟩
    · simp only [hc, reduceCtorEq, false_iff] at hcheck
      simp
      grind
    · obtain ⟨hinit, hlow, hfatal⟩ := (hcheck k).mp (by rw [hc])
      simp only [hc]
      exact ⟨fun _ => ⟨hinit, trivial, k, hlow, hfatal⟩, fun _ => ⟨k, rfl⟩⟩
  · simp

/-- The actions of a process that handles SIGTERM only. -/
def handlesTerm : Nat → SignalAction := Function.update (fun _ => .dfl) 15 ⟨0x1000, 0, 0, 0⟩

/-- Whether a signal is in the mask that `signal_action_masks` publishes for wakeups. -/
def wakes (th : Thread) (isInit : Bool) (signum : Nat) : Bool :=
  !(th.actions signum).isIgnore &&
    if (th.actions signum).hasUserHandler then canDeliverUserSignal signum
    else !isInit && defaultSignalError signum

def hasInterruptingSignal (th : Thread) (isInit : Bool) : Bool :=
  (List.range SIGNAL_INFO_SLOTS).any fun n => th.unmasked.has n && th.wakes isInit n

/-- `ppoll`, `pselect6` or `epoll_pwait` under another mask returns `EINTR` after some signals have
come, and `TemporarySignalMask` puts the mask of before back. -/
def interruptedPoll (th : Thread) (isInit : Bool) (mask arrived : SignalFlags) : Option Thread :=
  let th := { th with pending := th.pending ||| arrived }
  if { th with mask := mask }.hasInterruptingSignal isInit then some th else none

/-- The unmasked signals are the pending ones that the mask does not block. -/
lemma has_unmasked (hn : n < 128) : th.unmasked.has n = (th.pending.has n && !th.mask.has n) :=
  has_remove hn

/-- The selected signal is the lowest unmasked one that a handler may take. -/
lemma selected_eq_some (hn : canDeliverUserSignal n = true) : th.selected = some n ↔
    th.unmasked.has n = true ∧
      ∀ m < n, th.unmasked.has m = true → canDeliverUserSignal m = false := by
  have hmem : n ∈ List.range SIGNAL_INFO_SLOTS := List.mem_range.mpr (of_decide_eq_true hn).2.1
  unfold selected
  rw [List.find?_range_eq_some]
  simp only [hn, hmem, Bool.and_true, true_and, Bool.not_eq_true', Bool.and_eq_false_iff]
  refine and_congr_right fun _ => forall₂_congr fun m _ => ?_
  cases th.unmasked.has m <;> simp

/-- **When an interrupted poll runs the handler.**  After a call that a signal with a handler has
ended, the thread next runs that handler in user mode, or nothing at all because the process ends,
exactly in two cases.  Either the mask of before does not block the signal, it comes first among
those that are then unblocked, and its frame fits; or the process ends by a default action.  The
temporary mask plays no part once the call has returned. -/
theorem interrupted_poll_iff {th th' : Thread} {frameFits isInit : Bool}
    {mask arrived : SignalFlags} {n : Nat}
    (hpoll : th.interruptedPoll isInit mask arrived = some th')
    (hn : canDeliverUserSignal n = true) (hhand : (th.actions n).hasUserHandler = true)
    (hpend : has (th.pending ||| arrived) n = true) :
    ((∃ oldMask, (th'.signalChecks frameFits isInit).2 = .handler ⟨n, oldMask⟩) ∨
        ∃ k, (th'.signalChecks frameFits isInit).2 = .exit k) ↔
      (th.mask.has n = false ∧ frameFits = true ∧
        ∀ m < n, has (th.pending ||| arrived) m = true → th.mask.has m = false →
          canDeliverUserSignal m = false) ∨
      isInit = false ∧ th'.Ends frameFits := by
  obtain ⟨-, rfl⟩ := of_guard hpoll
  have hlt : n < 128 := (of_decide_eq_true hn).2.1.trans (by decide)
  have hfirst : selected { th with pending := th.pending ||| arrived } = some n ↔
      th.mask.has n = false ∧ ∀ m < n, has (th.pending ||| arrived) m = true →
        th.mask.has m = false → canDeliverUserSignal m = false := by
    rw [selected_eq_some hn, has_unmasked hlt, hpend]
    refine and_congr (by simp) (forall₂_congr fun m hm => ?_)
    rw [has_unmasked (by omega)]
    simp
  rw [signalChecks_exit]
  refine or_congr_left ?_
  simp only [signalChecks_handler, deliver_eq_some, hfirst, hhand]
  grind

/-- SIGTERM, unblocked before and during the call, is handled after it. -/
theorem interrupted_poll_iff_term : ∃ th', interruptedPoll
    ⟨0, 0, none, handlesTerm⟩ false 0 (single 15) = some th' ∧
    ((∃ oldMask, (th'.signalChecks true false).2 = .handler ⟨15, oldMask⟩) ∨
      ∃ k, (th'.signalChecks true false).2 = .exit k) := by
  have hpoll : interruptedPoll ⟨0, 0, none, handlesTerm⟩ false 0 (single 15) = some _ := rfl
  exact ⟨_, hpoll, (interrupted_poll_iff hpoll (by decide) (by decide) (by decide)).mpr
    (.inl ⟨by decide, rfl, by decide⟩)⟩

/-- SIGTERM is blocked but for the call: the call fails with `EINTR` and no handler is entered. -/
theorem interrupted_poll_resumes : ∃ th', interruptedPoll
    ⟨0, single 15, none, handlesTerm⟩ false 0 (single 15) = some th' ∧
    (th'.signalChecks true false).2 = .resume :=
  ⟨_, rfl, by decide⟩

end Thread

end Whusp.Arch.Delivery
