import Whusp.Syscall.Identity
import Whusp.Task.Signal

/-!
# Who may signal whom

The five calls that send signals: `kill` of `syscall/process/id.rs` to a process, a process group or
every process, and `rt_sigqueueinfo`, `rt_tgsigqueueinfo`, `tkill` and `tgkill` of
`syscall/signal.rs`.  A call is run on the process table as it finds it, and answers the signals
that it queues.  Three of the calls ask `caller_can_signal_target` before they queue; `tkill` and
`tgkill` do not.
-/

namespace Whusp.Syscall.SignalPermission

open Whusp.Task Whusp.Syscall.Identity
export Identity (Errno)

structure PidNamespace where
  id : Nat
  parentId : Option Nat

structure Process where
  pid : Nat
  sessionId : Nat
  processGroupId : Nat
  pidNamespace : PidNamespace
  credentials : Credentials

def Process.pidVisibleFromNamespace (p : Process) (ns : PidNamespace) : Option Nat :=
  if ns.parentId.isNone then some p.pid
  else if p.pidNamespace.id = ns.id then
    some (if p.pidNamespace.parentId.isSome && p.pid = p.pidNamespace.id then 1 else p.pid)
  else if p.pidNamespace.parentId = some ns.id then some p.pid
  else none

/-- What a call finds: the processes, the thread index with the process of each thread, and the
caller. -/
structure Tables where
  processesSnapshot : List Process
  taskWithLinuxTid : Nat → Option Process
  currentProcess : Process
  currentTid : Nat

/-- A signal queued to a process, or to the thread `tid` of it. -/
structure Queued where
  process : Process
  tid : Option Nat
  signal : SignalFlags

def canSignal (caller target : Credentials) : Bool :=
  caller.isRoot || target.uidMatchesSavedSet caller.ruid || target.uidMatchesSavedSet caller.euid

def callerCanSignalTarget (caller target : Process) (signal : SignalFlags) : Bool :=
  signal.has SIGCONT && caller.sessionId = target.sessionId ||
    canSignal caller.credentials target.credentials

/-! ## The calls -/

abbrev KResult := Except Errno (List Queued)

def validateKillSignum (signum : Nat) : Except Errno SignalFlags :=
  (SignalFlags.fromSignum signum).elim (.error .EINVAL) .ok

/-- The empty signal of number zero is not queued. -/
def queue (process : Process) (tid : Option Nat) (signal : SignalFlags) : List Queued :=
  if signal = 0 then [] else [⟨process, tid, signal⟩]

def processByVisiblePid (w : Tables) (pid : Int) : Except Errno Process :=
  if pid ≤ 0 then .error .EINVAL
  else (w.processesSnapshot.find? fun p =>
    p.pidVisibleFromNamespace w.currentProcess.pidNamespace = some pid.toNat).elim
      (.error .ESRCH) .ok

def killTargets (w : Tables) (pid : Int) : Except Errno (List Process) :=
  let visible (p : Process) := p.pidVisibleFromNamespace w.currentProcess.pidNamespace
  let group (pgid : Nat) := w.processesSnapshot.filter fun p =>
    p.processGroupId = pgid && (visible p).isSome
  if 0 < pid then (processByVisiblePid w pid).map ([·])
  else if pid = 0 then .ok (group w.currentProcess.processGroupId)
  else if pid = -1 then
    .ok (w.processesSnapshot.filter fun p =>
      (visible p).isSome && visible p ≠ some 1 && p.pid ≠ w.currentProcess.pid)
  else if pid = -2 ^ 63 then .error .EINVAL
  else .ok (group pid.natAbs)

/-- `check_error().is_some()`. -/
def isFatal (signal : SignalFlags) : Bool :=
  [9, 2, 3, 4, 5, 6, 7, 8, 10, 11, 12, 13, 14, 15, 1, 16, 24, 25, 26, 27, 29, 30, 31].any signal.has

def signalIgnoredByNamespaceInit (sender target : Process) (signal : SignalFlags) : Bool :=
  target.pidNamespace.id = sender.pidNamespace.id &&
    target.pidVisibleFromNamespace sender.pidNamespace = some 1 && isFatal signal

def sysKill (w : Tables) (pid : Int) (signum : Nat) : KResult := do
  let signal ← validateKillSignum signum
  let targets ← killTargets w pid
  if targets.isEmpty then .error .ESRCH
  else
    let permitted := targets.filter (callerCanSignalTarget w.currentProcess · signal)
    if permitted.isEmpty then .error .EPERM
    else .ok ((permitted.filter (!signalIgnoredByNamespaceInit w.currentProcess · signal)).flatMap
      (queue · none signal))

def findTaskInProcess (w : Tables) (tgid tid : Nat) : Except Errno Process :=
  ((w.taskWithLinuxTid tid).filter (·.pid = tgid)).elim (.error .ESRCH) .ok

/-- `info` is the code read from user memory, if it can be read. -/
def sigqueueInfoFromUser (info : Option Int) : Except Errno Int :=
  info.elim (.error .EFAULT) .ok

def validateSigqueueInfoCode (targetIsCurrent : Bool) (code : Int) : Except Errno Unit :=
  if !targetIsCurrent && (0 ≤ code || code = -6) then .error .EPERM else .ok ()

def sysRtSigqueueinfo (w : Tables) (pid : Int) (signum : Nat) (info : Option Int) : KResult := do
  let target ← processByVisiblePid w pid
  let code ← sigqueueInfoFromUser info
  let signal ← validateKillSignum signum
  validateSigqueueInfoCode (w.currentProcess.pid = target.pid) code
  if callerCanSignalTarget w.currentProcess target signal then .ok (queue target none signal)
  else .error .EPERM

def sysRtTgsigqueueinfo (w : Tables) (tgid tid : Int) (signum : Nat) (info : Option Int) :
    KResult :=
  if tgid ≤ 0 ∨ tid ≤ 0 then .error .EINVAL
  else do
    let target ← findTaskInProcess w tgid.toNat tid.toNat
    let code ← sigqueueInfoFromUser info
    let signal ← validateKillSignum signum
    validateSigqueueInfoCode (w.currentTid = tid.toNat) code
    if callerCanSignalTarget w.currentProcess target signal then
      .ok [⟨target, some tid.toNat, signal⟩]
    else .error .EPERM

def sysTkill (w : Tables) (tid : Int) (signum : Nat) : KResult := do
  let signal ← validateKillSignum signum
  if tid < 0 then .error .EINVAL
  else
    let target ← (w.taskWithLinuxTid tid.toNat).elim (.error .ESRCH) .ok
    .ok (queue target (some tid.toNat) signal)

def sysTgkill (w : Tables) (tgid tid : Int) (signum : Nat) : KResult := do
  let signal ← validateKillSignum signum
  if tgid < 0 ∨ tid < 0 then .error .EINVAL
  else
    let target ← findTaskInProcess w tgid.toNat tid.toNat
    .ok (queue target (some tid.toNat) signal)

inductive Call where
  | kill (pid : Int) (signum : Nat)
  | rtSigqueueinfo (pid : Int) (signum : Nat) (info : Option Int)
  | rtTgsigqueueinfo (tgid tid : Int) (signum : Nat) (info : Option Int)
  | tkill (tid : Int) (signum : Nat)
  | tgkill (tgid tid : Int) (signum : Nat)

def Call.run (w : Tables) : Call → KResult
  | .kill pid signum => sysKill w pid signum
  | .rtSigqueueinfo pid signum info => sysRtSigqueueinfo w pid signum info
  | .rtTgsigqueueinfo tgid tid signum info => sysRtTgsigqueueinfo w tgid tid signum info
  | .tkill tid signum => sysTkill w tid signum
  | .tgkill tgid tid signum => sysTgkill w tgid tid signum

/-! ## Permission -/

variable {α : Type} {w : Tables} {caller p : Process} {tid : Option Nat} {signal : SignalFlags}

/-- Every signal that the call queues to another process is permitted. -/
def Permits (caller : Process) (result : KResult) : Prop :=
  ∀ queued, result = .ok queued → ∀ q ∈ queued, q.signal ≠ 0 → q.process.pid ≠ caller.pid →
    callerCanSignalTarget caller q.process q.signal

/-- Only a step that succeeds can queue. -/
lemma permits_bind {x : Except Errno α} {f : α → KResult} :
    Permits caller (x >>= f) ↔ ∀ a, x = .ok a → Permits caller (f a) := by
  cases x with
  | error => exact iff_of_true nofun nofun
  | ok a => exact ⟨fun h _ hb => Except.ok.inj hb ▸ h, fun h => h a rfl⟩

lemma mem_queue {q : Queued} (h : q ∈ queue p tid signal) : q = ⟨p, tid, signal⟩ := by
  unfold queue at h
  split at h
  · cases h
  · exact List.mem_singleton.mp h

/-- A signal to this process is empty, stays in the caller's process or is permitted. -/
def MayQueue (caller p : Process) (signal : SignalFlags) : Prop :=
  signal ≠ 0 → p.pid ≠ caller.pid → callerCanSignalTarget caller p signal

lemma permits_queue : Permits caller (.ok (queue p tid signal)) ↔ MayQueue caller p signal := by
  constructor
  · intro h hne hpid
    exact h _ rfl ⟨p, tid, signal⟩ (by rw [queue, if_neg hne]; exact .head _) hne hpid
  · rintro h _ ⟨⟩ q hq hne hpid
    obtain rfl := mem_queue hq
    exact h hne hpid

/-- `tkill` and `tgkill` do not look at the permission: the signal is invalid or the call finds no
thread, or the rule allows the signal anyway. -/
def CallOk (w : Tables) : Call → Prop
  | .tkill tid signum => ∀ signal, validateKillSignum signum = .ok signal → 0 ≤ tid →
      ∀ p, w.taskWithLinuxTid tid.toNat = some p → MayQueue w.currentProcess p signal
  | .tgkill tgid tid signum => ∀ signal, validateKillSignum signum = .ok signal →
      0 ≤ tgid → 0 ≤ tid → ∀ p, w.taskWithLinuxTid tid.toNat = some p → p.pid = tgid.toNat →
        MayQueue w.currentProcess p signal
  | _ => True

lemma permits_checked {l : List Queued} (h : ∀ q ∈ l, q = ⟨p, tid, signal⟩) :
    Permits caller (if callerCanSignalTarget caller p signal then .ok l else .error .EPERM) := by
  split_ifs with hcan
  · rintro _ ⟨⟩ q hq - -
    obtain rfl := h q hq
    exact hcan
  · exact nofun

lemma elim_eq_ok {o : Option α} {e : Errno} {a : α} :
    o.elim (.error e) Except.ok = .ok a ↔ o = some a := by
  cases o <;> simp

lemma permits_sysKill (pid : Int) (signum : Nat) :
    Permits w.currentProcess (sysKill w pid signum) := by
  refine permits_bind.mpr fun signal _ => permits_bind.mpr fun targets _ => ?_
  dsimp only
  split_ifs
  · exact nofun
  · exact nofun
  · rintro _ ⟨⟩ q hq - -
    obtain ⟨p, hp, hq⟩ := List.mem_flatMap.mp hq
    obtain rfl := mem_queue hq
    exact (List.mem_filter.mp (List.mem_filter.mp hp).1).2

lemma permits_sysRtSigqueueinfo (pid : Int) (signum : Nat) (info : Option Int) :
    Permits w.currentProcess (sysRtSigqueueinfo w pid signum info) :=
  permits_bind.mpr fun _ _ => permits_bind.mpr fun _ _ => permits_bind.mpr fun _ _ =>
    permits_bind.mpr fun _ _ => permits_checked fun _ => mem_queue

lemma permits_sysRtTgsigqueueinfo (tgid tid : Int) (signum : Nat) (info : Option Int) :
    Permits w.currentProcess (sysRtTgsigqueueinfo w tgid tid signum info) := by
  unfold sysRtTgsigqueueinfo
  split
  · exact nofun
  · exact permits_bind.mpr fun _ _ => permits_bind.mpr fun _ _ => permits_bind.mpr fun _ _ =>
      permits_bind.mpr fun _ _ => permits_checked fun _ => List.mem_singleton.mp

/-- **Signals and permission.**  No nonzero signal that a call queues to another process lacks the
permission, exactly if the call is one of the three that ask for it, or is a `tkill` or `tgkill`
that fails, or whose signal is zero, stays in the caller's process or is permitted anyway. -/
theorem signals_are_permitted_iff (w : Tables) (call : Call) :
    Permits w.currentProcess (call.run w) ↔ CallOk w call := by
  cases call with
  | kill pid signum => exact iff_of_true (permits_sysKill pid signum) trivial
  | rtSigqueueinfo pid signum info =>
    exact iff_of_true (permits_sysRtSigqueueinfo pid signum info) trivial
  | rtTgsigqueueinfo tgid tid signum info =>
    exact iff_of_true (permits_sysRtTgsigqueueinfo tgid tid signum info) trivial
  | tkill tid signum =>
    refine permits_bind.trans (forall₂_congr fun signal _ => ?_)
    split_ifs with htid
    · exact iff_of_true nofun fun h => absurd htid (by omega)
    · rw [permits_bind]
      simp only [elim_eq_ok, permits_queue]
      exact ⟨fun h _ => h, fun h => h (by omega)⟩
  | tgkill tgid tid signum =>
    refine permits_bind.trans (forall₂_congr fun signal _ => ?_)
    split_ifs with htid
    · exact iff_of_true nofun fun _ _ => by omega
    · rw [permits_bind]
      simp only [findTaskInProcess, elim_eq_ok, permits_queue, Option.filter_eq_some_iff,
        decide_eq_true_eq, and_imp]
      exact ⟨fun h _ _ => h, fun h => h (by omega) (by omega)⟩

/-- A process with all ids `uid` in a session and a group of its own. -/
def sampleProcess (pid : Nat) (uid : UInt32) : Process :=
  ⟨pid, pid, pid, ⟨0, none⟩, ⟨uid, uid, uid, uid⟩⟩

/-- Processes 10 and 20 with one thread each, run by different users. -/
def sampleTables (caller target : UInt32) : Tables where
  processesSnapshot := [sampleProcess 10 caller, sampleProcess 20 target]
  taskWithLinuxTid tid := [sampleProcess 10 caller, sampleProcess 20 target].find? (·.pid = tid)
  currentProcess := sampleProcess 10 caller
  currentTid := 10

/-- Root may use `tkill` on the other process; the `kill` of an ordinary user is refused. -/
theorem signals_are_permitted_iff_root :
    (Call.run (sampleTables 0 1001) (.tkill 20 SIGKILL)).toOption.isSome ∧
      Permits (sampleProcess 10 0) (Call.run (sampleTables 0 1001) (.tkill 20 SIGKILL)) ∧
      Call.run (sampleTables 1000 1001) (.kill 20 SIGKILL) = .error .EPERM ∧
      Permits (sampleProcess 10 1000) (Call.run (sampleTables 1000 1001) (.kill 20 SIGKILL)) := by
  refine ⟨rfl, (signals_are_permitted_iff (sampleTables 0 1001) _).mpr ?_, rfl,
    (signals_are_permitted_iff (sampleTables 1000 1001) _).mpr trivial⟩
  intro signal _ _ p _ _ _
  simp [callerCanSignalTarget, canSignal]
  exact .inr (.inl (.inl rfl))

/-- A user kills the process of another user. -/
theorem tkill_is_not_checked :
    ¬ Permits (sampleProcess 10 1000) (sysTkill (sampleTables 1000 1001) 20 SIGKILL) :=
  fun h => absurd (h _ rfl _ (.head _) (by decide) (by decide)) (by decide)

end Whusp.Syscall.SignalPermission
