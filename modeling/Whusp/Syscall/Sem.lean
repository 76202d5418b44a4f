import Mathlib.Algebra.Order.Ring.Int
import Whusp.Lib.SortedMap
import Whusp.Lib.Transition

/-!
# System V semaphore sets

The table of `syscall/sem.rs` and the calls on it: `semget`, `semctl` with the commands that
change something, and `semtimedop`.  A call runs in critical sections of `SEM_MANAGER`; one that
has to wait leaves a waiter in the set and comes back in another section.

The table has one ghost field: the ids it has given out, in order.  What the calls keep is in
`Syscall.SemSets`.
-/

namespace Whusp.Syscall.Sem

open Whusp.Lib (SortedMap System)

/-! ## Constants and arguments -/

def IPC_PRIVATE : Int := 0
def IPC_CREAT : BitVec 32 := 0o1000
def IPC_EXCL : BitVec 32 := 0o2000
def IPC_NOWAIT : BitVec 16 := 0o4000
def SEMMNI : Nat := 4096
def SEMMSL : Nat := 32000
def SEMMNS : Nat := SEMMNI * 10
def SEMOPM : Nat := 500
def SEMVMX : Int := 32767

inductive SemError where
  | notFound
  | exists_
  | invalid
  | noSpace
  | accessDenied
  | notPermitted
  | range
  | tooBig
  | wouldBlock
  | interrupted
  deriving DecidableEq

inductive Errno where
  | ENOENT
  | EEXIST
  | EINVAL
  | ENOSPC
  | EACCES
  | EPERM
  | ERANGE
  | EFBIG
  | EAGAIN
  | EINTR
  | E2BIG
  | EIDRM
  deriving DecidableEq

def semErrorToSysError : SemError → Errno
  | .notFound => .ENOENT
  | .exists_ => .EEXIST
  | .invalid => .EINVAL
  | .noSpace => .ENOSPC
  | .accessDenied => .EACCES
  | .notPermitted => .EPERM
  | .range => .ERANGE
  | .tooBig => .EFBIG
  | .wouldBlock => .EAGAIN
  | .interrupted => .EINTR

structure LinuxSembuf where
  semNum : BitVec 16
  semOp : BitVec 16
  semFlg : BitVec 16
  deriving DecidableEq

structure SemCreateContext where
  uid : Nat
  gid : Nat

structure SemCaller where
  pid : Nat
  euid : Nat
  egid : Nat
  groups : List Nat
  canOverrideIpc : Bool
  deriving DecidableEq

structure SemSetAttrs where
  uid : Nat
  gid : Nat
  mode : BitVec 32

def pidToI32 (pid : Nat) : Int := if pid < 2 ^ 31 then pid else 2 ^ 31 - 1

/-! ## Sets -/

structure SemValue where
  value : Int
  pid : Int
  ncnt : Nat
  zcnt : Nat

inductive SemWaitKind where
  | nonZero
  | zero
  deriving DecidableEq

structure SemWaiter where
  task : Nat
  semNum : Nat
  kind : SemWaitKind

structure SemSet where
  key : Int
  mode : BitVec 32
  uid : Nat
  gid : Nat
  cuid : Nat
  values : List SemValue
  waiters : List SemWaiter

/-- The `match waiter.kind` of `wake_waiters` and `remove_waiter_for_task`. -/
def SemValue.leave (v : SemValue) : SemWaitKind → SemValue
  | .nonZero => { v with ncnt := v.ncnt - 1 }
  | .zero => { v with zcnt := v.zcnt - 1 }

/-- The `match kind` of `block_current_on_first_wait`. -/
def SemValue.enter (v : SemValue) : SemWaitKind → SemValue
  | .nonZero => { v with ncnt := v.ncnt + 1 }
  | .zero => { v with zcnt := v.zcnt + 1 }

def SemWaiter.release (w : SemWaiter) (values : List SemValue) : List SemValue :=
  values.modify w.semNum fun v => v.leave w.kind

def SemWaiter.enter (w : SemWaiter) (values : List SemValue) : List SemValue :=
  values.modify w.semNum fun v => v.enter w.kind

namespace SemSet

def new (key : Int) (nsems : Nat) (mode : BitVec 32) (context : SemCreateContext) : SemSet where
  key := key
  mode := mode
  uid := context.uid
  gid := context.gid
  cuid := context.uid
  values := List.replicate nsems ⟨0, 0, 0, 0⟩
  waiters := []

def modeAllows (set : SemSet) (caller : SemCaller) (ownerBit groupBit otherBit : BitVec 32) :
    Bool :=
  if caller.euid = set.uid then set.mode &&& ownerBit ≠ 0
  else if caller.egid = set.gid ∨ set.gid ∈ caller.groups then set.mode &&& groupBit ≠ 0
  else set.mode &&& otherBit ≠ 0

def canRead (set : SemSet) (caller : SemCaller) : Bool :=
  set.modeAllows caller 0o400 0o040 0o004 || caller.canOverrideIpc

def canAlter (set : SemSet) (caller : SemCaller) : Bool :=
  set.modeAllows caller 0o200 0o020 0o002 || caller.canOverrideIpc

def isOwnerOrCreator (set : SemSet) (caller : SemCaller) : Bool :=
  caller.euid = set.uid || caller.euid = set.cuid || caller.canOverrideIpc

/-- The tasks that are woken go on with their calls. -/
def wakeWaiters (set : SemSet) : SemSet :=
  { set with
    values := set.waiters.foldl (fun values w => w.release values) set.values
    waiters := [] }

/-- The `while` loop of `remove_waiter_for_task` over one set: what is left of the waiters, the
values, and whether a waiter was removed. -/
def removeLoop (task : Nat) :
    List SemWaiter → List SemValue → List SemWaiter × List SemValue × Bool
  | [], values => ([], values, false)
  | w :: rest, values =>
    if w.task = task then
      let (waiters, values, _) := removeLoop task rest (w.release values)
      (waiters, values, true)
    else
      let (waiters, values, removed) := removeLoop task rest values
      (w :: waiters, values, removed)

def removeWaiters (set : SemSet) (task : Nat) : SemSet :=
  let (waiters, values, _) := removeLoop task set.waiters set.values
  { set with values, waiters }

def hasWaiter (set : SemSet) (task : Nat) : Bool := (removeLoop task set.waiters set.values).2.2

end SemSet

/-! ## Operations -/

/-- The first loop of `try_semop`: bounds and permissions. -/
def checkOps (set : SemSet) (caller : SemCaller) : List LinuxSembuf → Option SemError
  | [] => none
  | op :: ops =>
    if set.values.length ≤ op.semNum.toNat then some .tooBig
    else if op.semOp = 0 then
      if ¬ set.canRead caller then some .accessDenied else checkOps set caller ops
    else if ¬ set.canAlter caller then some .accessDenied
    else checkOps set caller ops

/-- The second loop: the scratch values after the operations.  A value is at most `SEMVMX` and
an operation is an `i16`, so the `i32` sum does not overflow. -/
def execOps : List LinuxSembuf → List Int → Except SemError (List Int)
  | [], values => .ok values
  | op :: ops, values =>
    let current := values.getD op.semNum.toNat 0
    if op.semOp = 0 then
      if current ≠ 0 then .error .wouldBlock else execOps ops values
    else
      let next := current + op.semOp.toInt
      if op.semOp.toInt < 0 ∧ next < 0 then .error .wouldBlock
      else if SEMVMX < next then .error .range
      else execOps ops (values.set op.semNum.toNat next)

/-- The third loop: the scratch values are written back. -/
def commitOps (pid : Int) (newValues : List Int) : List LinuxSembuf → List SemValue → List SemValue
  | [], values => values
  | op :: ops, values =>
    commitOps pid newValues ops
      (if op.semOp ≠ 0 then
        values.modify op.semNum.toNat fun v =>
          { v with value := newValues.getD op.semNum.toNat 0, pid := pid }
      else values)

/-- `first_waiting_op`, on the values of the set. -/
def firstWaitingOp : List LinuxSembuf → List Int → Option (Nat × SemWaitKind)
  | [], _ => none
  | op :: ops, values =>
    match values[op.semNum.toNat]? with
    | none => none
    | some current =>
      if op.semOp = 0 then
        if current ≠ 0 then some (op.semNum.toNat, .zero) else firstWaitingOp ops values
      else
        let next := current + op.semOp.toInt
        if op.semOp.toInt < 0 ∧ next < 0 then some (op.semNum.toNat, .nonZero)
        else if SEMVMX < next then none
        else firstWaitingOp ops (values.set op.semNum.toNat next)

/-! ## The table -/

structure SemManager where
  /-- A `usize` in the source; it does not come round here, as no run creates that many. -/
  nextId : Nat
  sets : SortedMap Nat SemSet
  keyedSets : SortedMap Int Nat
  /-- Ghost: the ids of the sets that were created, the last one first. -/
  issued : List Nat

namespace SemManager

def new : SemManager where
  nextId := 1
  sets := .empty
  keyedSets := .empty
  issued := []

def containsId (m : SemManager) (id : Nat) : Bool := (m.sets.get? id).isSome

def highestIndex (m : SemManager) : Nat := (m.sets.entries.getLast?.map Prod.fst).getD 0

def totalSems (m : SemManager) : Nat := (m.sets.entries.map fun e => e.2.values.length).sum

/-- The loop of `alloc_id`; past the highest id nothing is in use. -/
def skipUsed (m : SemManager) : Nat → Nat → Nat
  | 0, id => id
  | fuel + 1, id => if m.containsId id then m.skipUsed fuel (id + 1) else id

def allocId (m : SemManager) : Nat × SemManager :=
  let id := m.skipUsed (m.highestIndex + 1 - m.nextId) m.nextId
  (id, { m with nextId := id + 1 })

/-- The write through the `&mut SemSet` of `self.sets.get_mut(&semid)`. -/
def setSet (m : SemManager) (semid : Nat) (set : SemSet) : SemManager :=
  { m with sets := m.sets.insert semid set }

/-- The last part of `create_set`: the new set and its key. -/
def insertSet (m : SemManager) (semid : Nat) (set : SemSet) : SemManager :=
  { m with
    sets := m.sets.insert semid set
    keyedSets :=
      if set.key ≠ IPC_PRIVATE then m.keyedSets.insert set.key semid else m.keyedSets
    issued := semid :: m.issued }

def createSet (m : SemManager) (key : Int) (nsems : Nat) (mode : BitVec 32)
    (context : SemCreateContext) : Except SemError Nat × SemManager :=
  if SEMMNI ≤ m.sets.entries.length ∨ SEMMNS < m.totalSems + nsems then (.error .noSpace, m)
  else
    let (semid, m) := m.allocId
    (.ok semid, m.insertSet semid (SemSet.new key nsems mode context))

def getOrCreate (m : SemManager) (key : Int) (nsems : Nat) (semflg : BitVec 32)
    (context : SemCreateContext) (caller : SemCaller) : Except SemError Nat × SemManager :=
  let mode := semflg &&& 0o777
  let flags := semflg &&& ~~~0o777
  if nsems = 0 ∨ SEMMSL < nsems then (.error .invalid, m)
  else if flags &&& ~~~(IPC_CREAT ||| IPC_EXCL) ≠ 0 then (.error .invalid, m)
  else if key = IPC_PRIVATE then m.createSet key nsems mode context
  else
    match m.keyedSets.get? key with
    | some semid =>
      if flags &&& (IPC_CREAT ||| IPC_EXCL) = IPC_CREAT ||| IPC_EXCL then (.error .exists_, m)
      else
        match m.sets.get? semid with
        | none => (.error .notFound, m)
        | some set =>
          if set.values.length < nsems then (.error .invalid, m)
          else if !set.canRead caller && !set.canAlter caller then (.error .accessDenied, m)
          else (.ok semid, m)
    | none =>
      if flags &&& IPC_CREAT = 0 then (.error .notFound, m)
      else m.createSet key nsems mode context

/-- The waiters of the set are woken after it has left the table. -/
def removeSet (m : SemManager) (semid : Nat) (caller : SemCaller) :
    Except SemError Unit × SemManager :=
  match m.sets.get? semid with
  | none => (.error .invalid, m)
  | some set =>
    if ¬ set.isOwnerOrCreator caller then (.error .notPermitted, m)
    else
      (.ok (), { m with
        sets := m.sets.erase semid
        keyedSets := if set.key ≠ IPC_PRIVATE then m.keyedSets.erase set.key else m.keyedSets })

def setAttrs (m : SemManager) (semid : Nat) (attrs : SemSetAttrs) (caller : SemCaller) :
    Except SemError Unit × SemManager :=
  match m.sets.get? semid with
  | none => (.error .invalid, m)
  | some set =>
    if ¬ set.isOwnerOrCreator caller then (.error .notPermitted, m)
    else
      (.ok (), m.setSet semid
        { set with uid := attrs.uid, gid := attrs.gid, mode := attrs.mode &&& 0o777 })

def setValue (m : SemManager) (semid semnum : Nat) (rawValue : Int) (caller : SemCaller) :
    Except SemError Unit × SemManager :=
  if ¬ (0 ≤ rawValue ∧ rawValue ≤ SEMVMX) then (.error .range, m)
  else
    match m.sets.get? semid with
    | none => (.error .invalid, m)
    | some set =>
      if ¬ set.canAlter caller then (.error .accessDenied, m)
      else if set.values.length ≤ semnum then (.error .invalid, m)
      else
        let values := set.values.modify semnum fun v =>
          { v with value := rawValue, pid := pidToI32 caller.pid }
        (.ok (), m.setSet semid { set with values }.wakeWaiters)

/-- The new values are `u16`s. -/
def setAll (m : SemManager) (semid : Nat) (values : List (BitVec 16)) (caller : SemCaller) :
    Except SemError Unit × SemManager :=
  if values.any fun value => SEMVMX < value.toNat then (.error .range, m)
  else
    match m.sets.get? semid with
    | none => (.error .invalid, m)
    | some set =>
      if ¬ set.canAlter caller then (.error .accessDenied, m)
      else if values.length ≠ set.values.length then (.error .invalid, m)
      else
        let values := List.zipWith (fun (v : SemValue) (value : BitVec 16) =>
          { v with value := value.toNat, pid := pidToI32 caller.pid }) set.values values
        (.ok (), m.setSet semid { set with values }.wakeWaiters)

def trySemop (m : SemManager) (semid : Nat) (ops : List LinuxSembuf) (caller : SemCaller) :
    Except SemError Unit × SemManager :=
  if ops = [] then (.error .invalid, m)
  else if SEMOPM < ops.length then (.error .tooBig, m)
  else
    match m.sets.get? semid with
    | none => (.error .invalid, m)
    | some set =>
      match checkOps set caller ops with
      | some e => (.error e, m)
      | none =>
        match execOps ops (set.values.map SemValue.value) with
        | .error e => (.error e, m)
        | .ok newValues =>
          let values := commitOps (pidToI32 caller.pid) newValues ops set.values
          (.ok (), m.setSet semid { set with values }.wakeWaiters)

/-- `block_current_on_first_wait`; `interrupting` is the answer of
`block_current_task_no_schedule_unless_interrupting_signal`. -/
def blockCurrentOnFirstWait (m : SemManager) (semid : Nat) (ops : List LinuxSembuf) (task : Nat)
    (interrupting : Bool) : Except SemError Unit × SemManager :=
  match m.sets.get? semid with
  | none => (.error .invalid, m)
  | some set =>
    match firstWaitingOp ops (set.values.map SemValue.value) with
    | none => (.error .invalid, m)
    | some (semnum, kind) =>
      if ops.any fun op => op.semFlg &&& IPC_NOWAIT ≠ 0 then (.error .wouldBlock, m)
      else if interrupting then (.error .interrupted, m)
      else
        let w : SemWaiter := ⟨task, semnum, kind⟩
        (.ok (), m.setSet semid
          { set with values := w.enter set.values, waiters := set.waiters ++ [w] })

/-- All sets are searched. -/
def removeWaiterForTask (m : SemManager) (task : Nat) : Bool × SemManager :=
  (m.sets.entries.any fun e => e.2.hasWaiter task,
    { m with sets := m.sets.mapValues fun set => set.removeWaiters task })

end SemManager

/-! ## Calls -/

inductive CallPhase where
  | attempting
  | sleeping
  | returned (result : Except Errno Unit)
  /-- A fatal signal ended the task after its waiter was removed. -/
  | exited
  deriving DecidableEq

def CallPhase.isOver : CallPhase → Bool
  | .attempting | .sleeping => false
  | .returned _ | .exited => true

structure Call where
  task : Nat
  semid : Nat
  ops : List LinuxSembuf
  timed : Bool
  caller : SemCaller
  phase : CallPhase
  deriving DecidableEq

structure State where
  manager : SemManager
  calls : List Call

/-- A critical section, with what the environment answers in it. -/
inductive Event where
  | semget (key : Int) (nsems : Nat) (semflg : BitVec 32) (context : SemCreateContext)
      (caller : SemCaller)
  | rmid (semid : Nat) (caller : SemCaller)
  | ipcSet (semid : Nat) (attrs : SemSetAttrs) (caller : SemCaller)
  | setval (semid semnum : Nat) (rawValue : Int) (caller : SemCaller)
  | setall (semid : Nat) (values : List (BitVec 16)) (caller : SemCaller)
  | semtimedop (task semid : Nat) (ops : List LinuxSembuf) (timed : Bool) (caller : SemCaller)
  /-- One round of the loop up to `schedule`: the deadline and `try_or_block_semop`. -/
  | attempt (i : Nat) (expired interrupting : Bool)
  /-- The rest of the round, after the task has been switched back in. -/
  | resume (i : Nat) (fatal deliverable expired : Bool)

namespace State

def boot : State := ⟨.new, []⟩

def setPhase (s : State) (i : Nat) (phase : CallPhase) : State :=
  { s with calls := s.calls.modify i fun c => { c with phase } }

/-- `sys_semtimedop` up to its loop; a task has one call at a time. -/
def start (s : State) (task semid : Nat) (ops : List LinuxSembuf) (timed : Bool)
    (caller : SemCaller) : Option State :=
  if s.calls.all fun c => c.task ≠ task || c.phase.isOver then
    let phase : CallPhase :=
      if ops = [] then .returned (.error .EINVAL)
      else if SEMOPM < ops.length then .returned (.error .E2BIG)
      else .attempting
    some { s with calls := s.calls ++ [⟨task, semid, ops, timed, caller, phase⟩] }
  else none

/-- `try_or_block_semop`: the attempt and the waiter are made in one section. -/
def tryOrBlock (s : State) (i : Nat) (c : Call) (interrupting : Bool) : State :=
  match s.manager.trySemop c.semid c.ops c.caller with
  | (.ok (), m) => { s with manager := m }.setPhase i (.returned (.ok ()))
  | (.error .wouldBlock, m) =>
    match m.blockCurrentOnFirstWait c.semid c.ops c.task interrupting with
    | (.ok (), m) => { s with manager := m }.setPhase i .sleeping
    | (.error e, m) => { s with manager := m }.setPhase i
      (.returned (.error (semErrorToSysError e)))
  | (.error e, m) => { s with manager := m }.setPhase i (.returned (.error (semErrorToSysError e)))

def attempt (s : State) (i : Nat) (expired interrupting : Bool) : Option State :=
  s.calls[i]?.bind fun c =>
    if c.phase = .attempting then
      if c.timed && expired then some (s.setPhase i (.returned (.error .EAGAIN)))
      else some (s.tryOrBlock i c interrupting)
    else none

def resume (s : State) (i : Nat) (fatal deliverable expired : Bool) : Option State :=
  s.calls[i]?.bind fun c =>
    if c.phase = .sleeping then
      let (stillWaiting, m) := s.manager.removeWaiterForTask c.task
      let phase : CallPhase :=
        if ¬ m.containsId c.semid then .returned (.error .EIDRM)
        else if fatal then .exited
        else if deliverable then .returned (.error .EINTR)
        else if stillWaiting && (c.timed && expired) then .returned (.error .EAGAIN)
        else .attempting
      some ({ s with manager := m }.setPhase i phase)
    else none

def step (s : State) : Event → Option State
  | .semget key nsems semflg context caller =>
    some { s with manager := (s.manager.getOrCreate key nsems semflg context caller).2 }
  | .rmid semid caller => some { s with manager := (s.manager.removeSet semid caller).2 }
  | .ipcSet semid attrs caller =>
    some { s with manager := (s.manager.setAttrs semid attrs caller).2 }
  | .setval semid semnum rawValue caller =>
    some { s with manager := (s.manager.setValue semid semnum rawValue caller).2 }
  | .setall semid values caller =>
    some { s with manager := (s.manager.setAll semid values caller).2 }
  | .semtimedop task semid ops timed caller => s.start task semid ops timed caller
  | .attempt i expired interrupting => s.attempt i expired interrupting
  | .resume i fatal deliverable expired => s.resume i fatal deliverable expired

end State

def system : System State Event where
  init s := s = .boot
  step := State.step

end Whusp.Syscall.Sem
