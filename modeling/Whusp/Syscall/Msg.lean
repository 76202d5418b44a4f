import Whusp.Lib.SortedMap

/-!
# Receiving from a message queue

`msgrcv` of `syscall/msg.rs`, by the sections of its loop that hold `MSG_MANAGER`.
-/

namespace Whusp.Syscall.Msg

open Whusp.Lib (SortedMap)

def IPC_NOWAIT : BitVec 32 := 0o4000
def MSG_NOERROR : BitVec 32 := 0o10000
def MSG_EXCEPT : BitVec 32 := 0o20000
def MSG_COPY : BitVec 32 := 0o40000

structure Message where
  mtype : Int
  text : List UInt8
  deriving DecidableEq

structure MsgQueue where
  (mode uid gid : Nat)
  cbytes : Nat
  messages : List Message
  waiters : List Nat

structure MsgCaller where
  (euid egid : Nat)
  groups : List Nat
  canOverrideIpc : Bool

inductive MsgError where
  | invalid | accessDenied | tooBig | noMessage | wouldBlock | interrupted

inductive Errno where
  | EINVAL | EACCES | E2BIG | ENOMSG | EAGAIN | EINTR | EIDRM | EFAULT
  deriving DecidableEq

def msgErrorToSysError : MsgError → Errno
  | .invalid => .EINVAL
  | .accessDenied => .EACCES
  | .tooBig => .E2BIG
  | .noMessage => .ENOMSG
  | .wouldBlock => .EAGAIN
  | .interrupted => .EINTR

def MsgQueue.canRead (q : MsgQueue) (caller : MsgCaller) : Bool :=
  (if caller.euid = q.uid then q.mode &&& 0o400 ≠ 0
    else if caller.egid = q.gid ∨ q.gid ∈ caller.groups then q.mode &&& 0o040 ≠ 0
    else q.mode &&& 0o004 ≠ 0) || caller.canOverrideIpc

def findMessageIndex (messages : List Message) (msgtyp : Int) (flags : BitVec 32) : Option Nat :=
  if flags &&& MSG_COPY ≠ 0 then
    if 0 ≤ msgtyp ∧ msgtyp.toNat < messages.length then some msgtyp.toNat else none
  else if msgtyp = 0 then if messages = [] then none else some 0
  else if 0 < msgtyp then
    if flags &&& MSG_EXCEPT ≠ 0 then messages.findIdx? (·.mtype ≠ msgtyp)
    else messages.findIdx? (·.mtype = msgtyp)
  else
    let maxType := if msgtyp = -0x8000000000000000 then 0x7FFFFFFFFFFFFFFF else -msgtyp
    (messages.zipIdx.foldl (fun best m =>
      if m.1.mtype ≤ maxType ∧ best.all (m.1.mtype < ·.1.mtype) then some m else best) none).map
        Prod.snd

/-- Where `write_user_value` and, for a number of bytes, `copy_to_user` end. -/
structure UserBuffer where
  writeUserValue : Except Errno Unit
  copyToUser : Nat → Except Errno Unit

structure Call where
  (task msqid msgsz : Nat)
  msgtyp : Int
  flags : BitVec 32
  caller : MsgCaller
  msgp : UserBuffer

/-- `receive` once the queue is found. -/
def MsgQueue.receive (q : MsgQueue) (c : Call) : Except MsgError Message × MsgQueue :=
  let copyMode : Bool := c.flags &&& MSG_COPY ≠ 0
  if !q.canRead c.caller then (.error .accessDenied, q)
  else if copyMode ∧ (c.flags &&& IPC_NOWAIT = 0 ∨ c.flags &&& MSG_EXCEPT ≠ 0 ∨ c.msgtyp < 0) then
    (.error .invalid, q)
  else match findMessageIndex q.messages c.msgtyp c.flags with
  | none => (.error (if c.flags &&& IPC_NOWAIT ≠ 0 ∨ copyMode then .noMessage else .wouldBlock), q)
  | some index => match q.messages[index]? with
    | none => (.error .noMessage, q)
    | some message =>
      if message.text.length > c.msgsz ∧ c.flags &&& MSG_NOERROR = 0 then (.error .tooBig, q)
      else if copyMode then (.ok message, q)
      else (.ok message, { q with
        cbytes := q.cbytes - message.text.length
        messages := q.messages.eraseIdx index
        waiters := [] })

abbrev MsgManager := SortedMap Nat MsgQueue

def MsgManager.receive (m : MsgManager) (c : Call) :
    Except MsgError Message × MsgManager :=
  match m.get? c.msqid with
  | none => (.error .invalid, m)
  | some q => ((q.receive c).1, m.insert c.msqid (q.receive c).2)

inductive MsgAttempt where
  | done (len : Nat)
  | blocked

def MsgManager.blockCurrent (m : MsgManager) (c : Call) (interrupting : Bool) :
    Except MsgError MsgAttempt × MsgManager :=
  match m.get? c.msqid with
  | none => (.error .invalid, m)
  | some q =>
    if interrupting then (.error .interrupted, m)
    else (.ok .blocked, m.insert c.msqid { q with waiters := q.waiters ++ [c.task] })

def writeMessageToUser (msgp : UserBuffer) (copyLen : Nat) : Except Errno Unit := do
  msgp.writeUserValue
  msgp.copyToUser copyLen

def tryOrBlockMsgrcv (m : MsgManager) (c : Call) (interrupting : Bool) :
    Except Errno MsgAttempt × MsgManager :=
  match m.receive c with
  | (.ok message, m) =>
    let copyLen := min c.msgsz message.text.length
    ((writeMessageToUser c.msgp copyLen).map fun _ => .done copyLen, m)
  | (.error .wouldBlock, m) =>
    ((m.blockCurrent c interrupting).1.mapError msgErrorToSysError,
      (m.blockCurrent c interrupting).2)
  | (.error e, m) => (.error (msgErrorToSysError e), m)

def removeWaiterForTask (m : MsgManager) (task : Nat) : MsgManager :=
  m.mapValues fun q => { q with waiters := q.waiters.filter (· ≠ task) }

/-- What a round of the loop finds: the queues at its attempt, after its sleep and at the check
that the queue exists, and the signals. -/
structure Round where
  (queues woken checked : MsgManager)
  (interrupting fatal deliverable : Bool)

/-- The loop of `sys_msgrcv`: the sections that wrote to the queues, each with the queues before
and after it, and the result; `none` for a call that sleeps or was killed. -/
def msgrcvLoop (c : Call) :
    List Round → List (MsgManager × MsgManager) × Option (Except Errno Nat)
  | [] => ([], none)
  | r :: rounds =>
    match tryOrBlockMsgrcv r.queues c r.interrupting with
    | (.error e, m) => ([(r.queues, m)], some (.error e))
    | (.ok (.done len), m) => ([(r.queues, m)], some (.ok len))
    | (.ok .blocked, m) =>
      let sections := [(r.queues, m), (r.woken, removeWaiterForTask r.woken c.task)]
      if r.fatal then (sections, none)
      else if r.deliverable then (sections, some (.error .EINTR))
      else if r.checked.get? c.msqid matches none then (sections, some (.error .EIDRM))
      else (sections ++ (msgrcvLoop c rounds).1, (msgrcvLoop c rounds).2)

def sysMsgrcv (c : Call) (rounds : List Round) :
    List (MsgManager × MsgManager) × Option (Except Errno Nat) :=
  if c.msgsz > 0x7FFFFFFFFFFFFFFF then ([], some (.error .EINVAL)) else msgrcvLoop c rounds

/-- The messages of every queue, in order, and their bytes. -/
def contents (m : MsgManager) (msqid : Nat) : Option (List Message × Nat) :=
  (m.get? msqid).map fun q => (q.messages, q.cbytes)

variable {m : MsgManager} {c : Call} {q q' : MsgQueue}

/-- A call for one byte on a queue with these messages. -/
def received (flags : BitVec 32) (writeUserValue : Except Errno Unit) (messages : List Message) :=
  let bytes := messages.foldr (fun x n => x.text.length + n) 0
  let m := SortedMap.empty.insert 1 ⟨0o600, 0, 0, bytes, messages, []⟩
  sysMsgrcv ⟨1, 1, 1, 0, flags, ⟨0, 0, [], false⟩, writeUserValue, fun _ => .ok ()⟩
    [⟨m, m, m, false, false, false⟩]

end Whusp.Syscall.Msg
