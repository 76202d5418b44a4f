import Mathlib.Data.List.Lex
import Mathlib.Data.List.Sort
import Whusp.Lib.Ranges
import Whusp.Lib.Transition

/-!
# Record locks

The table of byte-range locks behind `fcntl(F_SETLK)`, `F_SETLKW` and their open-file-description
variants: the conflict search, the surgery on an owner's ranges, the waiters, and the calls that
set, unlock and release.  An owner is a process or an open file description.  The table is one
vector of ranges for all files; a set request cuts the requested range out of the owner's ranges,
appends the new one and joins neighbours of one type.

A lock is a labelled range over `[0, i64::MAX]`, so that an empty or negative one cannot be built;
what the surgery does to the bytes is read off the library of labelled ranges.
-/

namespace Whusp.Syscall.FdLock

open Whusp.Lib Function List Option

/-! ## Requests -/

/-- The errors that the lock calls return; `file` is one that a file operation reported. -/
inductive Errno where
  | EAGAIN
  | EBADF
  | EDEADLK
  | EINVAL
  | EFAULT
  | file (code : Nat)
  deriving DecidableEq

/-- `F_RDLCK`, `F_WRLCK` and `F_UNLCK`. -/
inductive LockType where
  | rdlck
  | wrlck
  | unlck
  deriving DecidableEq

/-- The `i16` that a `struct flock` holds. -/
def LockType.code : LockType → Int
  | .rdlck => 0
  | .wrlck => 1
  | .unlck => 2

def validSetlkType (lType : Int) : Option LockType :=
  if lType = 0 then some .rdlck
  else if lType = 1 then some .wrlck
  else if lType = 2 then some .unlck
  else none

def SEEK_SET : Int := 0
def SEEK_CUR : Int := 1
def SEEK_END : Int := 2
def I64_MIN : Int := -9223372036854775808
def LOCK_TO_EOF : Int := 9223372036854775807

structure LinuxFlock where
  lType : Int
  lWhence : Int
  lStart : Int
  lLen : Int
  lPid : Int

structure LockKey where
  dev : Nat
  ino : Nat
  deriving DecidableEq

/-- The part of `FileStat` that the lock calls read. -/
structure FileStat where
  dev : Nat
  ino : Nat
  size : Nat

/-- An open file description, by the answers it gives to a lock call; `id` is the identity of the
`Arc`. -/
structure OpenFile where
  id : Nat
  readable : Bool
  writable : Bool
  /-- Mount and inode. -/
  vfsNodeId : Option (Nat × Nat)
  stat : Except Errno FileStat
  /-- `seek(0, SeekWhence::Current)`. -/
  position : Except Errno Nat

inductive RecordLockOwner where
  | process (pid : Nat)
  | fileDescription (file : Nat)
  deriving DecidableEq

/-- A byte range of a lock, in `i64`. -/
abbrev LockRange := Range 0 LOCK_TO_EOF

def lockKey (file : OpenFile) : Except Errno LockKey :=
  match file.vfsNodeId with
  | some (mount, ino) => .ok ⟨mount, ino⟩
  | none =>
    match file.stat with
    | .ok stat => .ok ⟨stat.dev, stat.ino⟩
    | .error e => .error e

/-- `i64::try_from` of a file position or size. -/
def toI64 : Except Errno Nat → Except Errno Int
  | .ok n => if (n : Int) ≤ LOCK_TO_EOF then .ok n else .error .EINVAL
  | .error e => .error e

/-- The offset that `l_start` counts from. -/
def flockBase (file : OpenFile) (whence : Int) : Except Errno Int :=
  if whence = SEEK_SET then .ok 0
  else if whence = SEEK_CUR then toI64 file.position
  else if whence = SEEK_END then toI64 (file.stat.map FileStat.size)
  else .error .EINVAL

/-- The range that `flock_range` computes from the base offset. -/
def flockRangeFrom (base : Int) (flock : LinuxFlock) : Except Errno LockRange :=
  if hfits : base + flock.lStart < I64_MIN ∨ LOCK_TO_EOF < base + flock.lStart then .error .EINVAL
  else if hneg : base + flock.lStart < 0 then .error .EINVAL
  else if hpos : 0 < flock.lLen then
    if hover : LOCK_TO_EOF < base + flock.lStart + (flock.lLen - 1) then .error .EINVAL
    else .ok ⟨base + flock.lStart, base + flock.lStart + (flock.lLen - 1),
      by omega, by omega, by omega⟩
  else if hlen : flock.lLen < 0 then
    -- the range ends right before the start that was asked for
    if hlow : base + flock.lStart + flock.lLen < 0 then .error .EINVAL
    else .ok ⟨base + flock.lStart + flock.lLen, base + flock.lStart - 1,
      by omega, by omega, by omega⟩
  else .ok ⟨base + flock.lStart, LOCK_TO_EOF, by omega, by omega, by omega⟩

def flockRange (file : OpenFile) (flock : LinuxFlock) : Except Errno LockRange := do
  flockRangeFrom (← flockBase file flock.lWhence) flock

def checkLockAccess (file : OpenFile) : LockType → Except Errno Unit
  | .rdlck => if file.readable then .ok () else .error .EBADF
  | .wrlck => if file.writable then .ok () else .error .EBADF
  | .unlck => .ok ()

/-- What a set call asks of the table. -/
structure Request where
  key : LockKey
  lType : LockType
  range : LockRange

/-- The checks of `fcntl_setlk_with_owner` and `fcntl_setlkw_with_owner`; `flock` is what
`read_user_value` returns. -/
def parseSetlk (file : OpenFile) (flock : Except Errno LinuxFlock) : Except Errno Request := do
  let flock ← flock
  match validSetlkType flock.lType with
  | none => .error .EINVAL
  | some lType =>
    checkLockAccess file lType
    let range ← flockRange file flock
    let key ← lockKey file
    return ⟨key, lType, range⟩

/-- The open-file-description calls first read the structure to check `l_pid`, and then read it
again. -/
def parseOfdSetlk (file : OpenFile) (first second : Except Errno LinuxFlock) :
    Except Errno Request := do
  if (← first).lPid ≠ 0 then .error .EINVAL else parseSetlk file second

/-! ## The table -/

/-- The fields of a `PosixLock` other than its range. -/
structure LockTag where
  key : LockKey
  owner : RecordLockOwner
  lType : LockType
  deriving DecidableEq

abbrev PosixLock := Labelled LockTag 0 LOCK_TO_EOF

structure ReleasedRange where
  key : LockKey
  range : LockRange

structure WaitingLock extends Labelled LockTag 0 LOCK_TO_EOF where
  task : Nat
  deriving DecidableEq

def lockConflicts (existing requested : LockType) : Bool :=
  existing = .wrlck || requested = .wrlck

structure RecordLockTable where
  locks : List PosixLock
  waiters : List WaitingLock

/-- The test by which `remove_owned_range` picks an owner's locks on a file. -/
def LockTag.ownedBy (key : LockKey) (owner : RecordLockOwner) (tag : LockTag) : Bool :=
  tag.key = key && tag.owner = owner

def RecordLockOwner.sortKey : RecordLockOwner → List Int
  | .process pid => [0, pid]
  | .fileDescription file => [1, file]

/-- The tuple that `merge_adjacent` sorts by. -/
def sortKey (lock : PosixLock) : List Int :=
  [(lock.tag.key.dev : Int), lock.tag.key.ino] ++ lock.tag.owner.sortKey ++
    [lock.tag.lType.code, lock.range.lo, lock.range.hi]

namespace RecordLockTable

def findConflicts (t : RecordLockTable) (key : LockKey) (owner : RecordLockOwner)
    (requested : LockType) (range : LockRange) : List PosixLock :=
  t.locks.filter fun lock =>
    lock.tag.key = key && !decide (lock.tag.owner = owner) &&
      lockConflicts lock.tag.lType requested && lock.range.overlaps range

def takeWaitersForReleased (t : RecordLockTable) (released : List ReleasedRange) :
    List Nat × RecordLockTable :=
  let hit := fun waiter : WaitingLock => released.any fun gone =>
    waiter.tag.key = gone.key && waiter.range.overlaps gone.range
  ((t.waiters.filter hit).map WaitingLock.task,
    { t with waiters := t.waiters.filter fun waiter => !hit waiter })

/-- The parts that `remove_owned_range` reports as released. -/
def releasedRanges (key : LockKey) (owner : RecordLockOwner) (range : LockRange)
    (locks : List PosixLock) : List ReleasedRange :=
  locks.filterMap fun lock =>
    if lock.tag.ownedBy key owner then
      if h : lock.range.overlaps range = true then some ⟨key, lock.range.clip range h⟩ else none
    else none

/-- The pieces of the owner's locks before and behind the range stay. -/
def removeOwnedRange (t : RecordLockTable) (key : LockKey) (owner : RecordLockOwner)
    (range : LockRange) : List ReleasedRange × RecordLockTable :=
  (releasedRanges key owner range t.locks,
    { t with locks := carve (LockTag.ownedBy key owner) range t.locks })

/-- `sort_by_key` is a stable sort, and so is the one here. -/
def mergeAdjacent (t : RecordLockTable) : RecordLockTable :=
  { t with locks := coalesce (t.locks.insertionSort fun a b => sortKey a ≤ sortKey b) }

/-- `set_lock`, with the tasks to wake. -/
def setLock (t : RecordLockTable) (owner : RecordLockOwner) (q : Request) :
    Except Errno (List Nat × RecordLockTable) :=
  if q.lType ≠ .unlck ∧ (t.findConflicts q.key owner q.lType q.range).isEmpty = false then
    .error .EAGAIN
  else
    let (released, t₁) := t.removeOwnedRange q.key owner q.range
    let (wakeups, t₂) := t₁.takeWaitersForReleased released
    if q.lType = .unlck then .ok (wakeups, t₂)
    else .ok (wakeups,
      mergeAdjacent { t₂ with locks := t₂.locks ++ [⟨⟨q.key, owner, q.lType⟩, q.range⟩] })

/-- The range `[0, LOCK_TO_EOF]`. -/
def wholeFile : LockRange := ⟨0, LOCK_TO_EOF, Int.le_refl _, by decide, Int.le_refl _⟩

def releaseForProcessFile (t : RecordLockTable) (key : LockKey) (pid : Nat) :
    List Nat × RecordLockTable :=
  let (released, t₁) := t.removeOwnedRange key (.process pid) wholeFile
  t₁.takeWaitersForReleased released

/-- Drop the waiters and then the locks of one owner, on all files: the common body of
`release_for_process` and `release_for_file_description`. -/
def releaseOwner (t : RecordLockTable) (owner : RecordLockOwner) : List Nat × RecordLockTable :=
  let gone := t.locks.filter fun lock => lock.tag.owner = owner
  takeWaitersForReleased
    { locks := t.locks.filter fun lock => !decide (lock.tag.owner = owner)
      waiters := t.waiters.filter fun waiter => !decide (waiter.tag.owner = owner) }
    (gone.map fun lock => ⟨lock.tag.key, lock.range⟩)

def releaseForProcess (t : RecordLockTable) (pid : Nat) : List Nat × RecordLockTable :=
  t.releaseOwner (.process pid)

def releaseForFileDescription (t : RecordLockTable) (file : Nat) : List Nat × RecordLockTable :=
  t.releaseOwner (.fileDescription file)

def hasFileDescriptionState (t : RecordLockTable) (file : Nat) : Bool :=
  (t.locks.any fun lock => lock.tag.owner = .fileDescription file) ||
    t.waiters.any fun waiter => waiter.tag.owner = .fileDescription file

def hasProcessLocks (t : RecordLockTable) (pid : Nat) : Bool :=
  t.locks.any fun lock => lock.tag.owner = .process pid

def enqueueWaiter (t : RecordLockTable) (owner : RecordLockOwner) (q : Request) (task : Nat) :
    RecordLockTable :=
  { t with waiters := t.waiters ++ [⟨⟨⟨q.key, owner, q.lType⟩, q.range⟩, task⟩] }

/-- An owner of one of the conflicts waits for a lock of this owner. -/
def wouldDeadlock (t : RecordLockTable) (owner : RecordLockOwner) (conflicts : List PosixLock) :
    Bool :=
  conflicts.any fun conflict => t.waiters.any fun waiter =>
    decide (waiter.tag.owner = conflict.tag.owner) && t.locks.any fun owned =>
      decide (owned.tag.owner = owner) && decide (owned.tag.key = waiter.tag.key) &&
        lockConflicts owned.tag.lType waiter.tag.lType && owned.range.overlaps waiter.range

end RecordLockTable

/-! ## The calls -/

def RecordLockOwner.isProcess : RecordLockOwner → Bool
  | .process _ => true
  | .fileDescription _ => false

/-- The record-lock bits of `ACTIVE_LOCK_CLASSES`. -/
structure ActiveLockClasses where
  posix : Bool
  ofd : Bool

def publishRecordLockActivity (t : RecordLockTable) : ActiveLockClasses :=
  let owners := t.locks.map (·.tag.owner) ++ t.waiters.map (·.tag.owner)
  ⟨owners.any RecordLockOwner.isProcess, owners.any fun owner => !owner.isProcess⟩

structure State where
  table : RecordLockTable
  active : ActiveLockClasses
  /-- `has_posix_record_locks` of the process with a pid; `none` where no process has it. -/
  pcb : Nat → Option Bool

namespace State

/-- Store a new table, and what `publish_record_lock_activity` derives from it. -/
def publish (s : State) (t : RecordLockTable) : State :=
  { s with table := t, active := publishRecordLockActivity t }

/-- `set_has_posix_record_locks(has_process_locks(pid))`. -/
def refreshFlag (s : State) (pid : Nat) : State :=
  { s with pcb := update s.pcb pid (some (s.table.hasProcessLocks pid)) }

/-- The end of a granted request. -/
def commit (s : State) (owner : RecordLockOwner) (t : RecordLockTable) : State :=
  match owner with
  | .process pid => (s.publish t).refreshFlag pid
  | .fileDescription _ => s.publish t

end State

inductive Reply where
  | ok
  | err (e : Errno)
  /-- The caller sleeps in `F_SETLKW`. -/
  | blocked
  deriving DecidableEq

/-- The table section of `fcntl_setlk_with_owner`. -/
def setlkSection (s : State) (owner : RecordLockOwner) (q : Request) : Reply × State :=
  match s.table.setLock owner q with
  | .error e => (.err e, s)
  | .ok (_, t) => (.ok, s.commit owner t)

def fcntlSetlk (s : State) (owner : RecordLockOwner) (request : Except Errno Request) :
    Reply × State :=
  match request with
  | .error e => (.err e, s)
  | .ok q => setlkSection s owner q

/-- The conflicts that `fcntl_setlkw_with_owner` looks at. -/
def setlkwConflicts (t : RecordLockTable) (owner : RecordLockOwner) (q : Request) :
    List PosixLock :=
  if q.lType = .unlck then [] else t.findConflicts q.key owner q.lType q.range

/-- One round of the loop of `fcntl_setlkw_with_owner`. -/
def setlkwSection (s : State) (owner : RecordLockOwner) (detectDeadlock : Bool) (q : Request)
    (task : Nat) : Reply × State :=
  if (setlkwConflicts s.table owner q).isEmpty then setlkSection s owner q
  else if detectDeadlock && s.table.wouldDeadlock owner (setlkwConflicts s.table owner q) then
    (.err .EDEADLK, s)
  else (.blocked, s.publish (s.table.enqueueWaiter owner q task))

def fcntlSetlkw (s : State) (owner : RecordLockOwner) (detectDeadlock : Bool)
    (request : Except Errno Request) (task : Nat) : Reply × State :=
  match request with
  | .error e => (.err e, s)
  | .ok q => setlkwSection s owner detectDeadlock q task

def releaseRecordLocksForClose (s : State) (pid : Nat) (file : OpenFile) : State :=
  if s.pcb pid = some true then
    match lockKey file with
    | .error _ => s
    | .ok key => (s.publish (s.table.releaseForProcessFile key pid).2).refreshFlag pid
  else s

/-- `stillReferenced` is the answer of `file_description_still_referenced`. -/
def releaseOfdRecordLocksForClose (s : State) (file : OpenFile) (stillReferenced : Bool) :
    State :=
  if s.table.hasFileDescriptionState file.id && !stillReferenced then
    s.publish (s.table.releaseForFileDescription file.id).2
  else s

/-- The classes are loaded once, at the start. -/
def releaseFileLocksForClose (s : State) (pid : Nat) (file : OpenFile) (stillReferenced : Bool) :
    State :=
  let s₁ := if s.active.posix then releaseRecordLocksForClose s pid file else s
  if s.active.ofd then releaseOfdRecordLocksForClose s₁ file stillReferenced else s₁

def releaseRecordLocksForProcess (s : State) (pid : Nat) : State :=
  if s.active.posix then s.publish (s.table.releaseForProcess pid).2 else s

/-- The lock part of process exit: the record locks, then the descriptors one by one; the process
control block goes last. -/
def exitProcess (s : State) (pid : Nat) (entries : List (OpenFile × Bool)) : State :=
  let s₁ := entries.foldl (fun s e => releaseFileLocksForClose s pid e.1 e.2)
    (releaseRecordLocksForProcess s pid)
  { s₁ with pcb := update s₁.pcb pid none }

inductive Op where
  /-- A new process; its `has_posix_record_locks` is false. -/
  | create (pid : Nat)
  | setlk (pid : Nat) (file : OpenFile) (flock : Except Errno LinuxFlock)
  | ofdSetlk (file : OpenFile) (first second : Except Errno LinuxFlock)
  | setlkw (pid : Nat) (file : OpenFile) (flock : Except Errno LinuxFlock) (task : Nat)
  | ofdSetlkw (file : OpenFile) (first second : Except Errno LinuxFlock) (task : Nat)
  /-- A task that has been woken runs another round of its loop. -/
  | retry (owner : RecordLockOwner) (q : Request) (task : Nat)
  /-- A descriptor leaves the table of a process. -/
  | close (pid : Nat) (file : OpenFile) (stillReferenced : Bool)
  | exit (pid : Nat) (entries : List (OpenFile × Bool))

/-- Calls are made by processes that exist. -/
def State.runs (s : State) : RecordLockOwner → Bool
  | .process pid => (s.pcb pid).isSome
  | .fileDescription _ => true

/-- One call; `none` where nobody can make it. -/
def perform (s : State) : Op → Option (Reply × State)
  | .create pid =>
    if s.pcb pid = none then some (.ok, { s with pcb := update s.pcb pid (some false) })
    else none
  | .setlk pid file flock =>
    if s.runs (.process pid) then some (fcntlSetlk s (.process pid) (parseSetlk file flock))
    else none
  | .ofdSetlk file first second =>
    some (fcntlSetlk s (.fileDescription file.id) (parseOfdSetlk file first second))
  | .setlkw pid file flock task =>
    if s.runs (.process pid) then
      some (fcntlSetlkw s (.process pid) true (parseSetlk file flock) task)
    else none
  | .ofdSetlkw file first second task =>
    some (fcntlSetlkw s (.fileDescription file.id) false (parseOfdSetlk file first second) task)
  | .retry owner q task =>
    if s.runs owner then some (setlkwSection s owner owner.isProcess q task) else none
  | .close pid file stillReferenced =>
    if s.runs (.process pid) then
      some (.ok, releaseFileLocksForClose s pid file stillReferenced)
    else none
  | .exit pid entries =>
    if s.runs (.process pid) then some (.ok, exitProcess s pid entries) else none

def boot : State := ⟨⟨[], []⟩, ⟨false, false⟩, fun _ => none⟩

def system : System State Op where
  init s := s = boot
  step s op := (perform s op).map Prod.snd

/-! ## The map from bytes to lock types -/

/-- For each file, owner and byte the type of lock that is held. -/
abbrev LockMap := LockKey → RecordLockOwner → Int → Option LockType

namespace LockMap

/-- What holding a type means for a byte. -/
def held : LockType → Option LockType
  | .unlck => none
  | lType => some lType

/-- Set the bytes of a range for one owner. -/
def set (m : LockMap) (owner : RecordLockOwner) (q : Request) : LockMap :=
  fun key o x => if key = q.key ∧ o = owner ∧ x ∈ q.range then held q.lType else m key o x

/-- Another owner holds a conflicting type on a byte of the range. -/
def Conflict (m : LockMap) (owner : RecordLockOwner) (q : Request) : Prop :=
  q.lType ≠ .unlck ∧ ∃ o x lType, o ≠ owner ∧ x ∈ q.range ∧ m q.key o x = some lType ∧
    lockConflicts lType q.lType = true

/-- Forget what the owners that meet `P` hold on the files that meet it. -/
def Releases (m : LockMap) (P : LockKey → RecordLockOwner → Prop) (m' : LockMap) : Prop :=
  ∀ key owner x, (P key owner → m' key owner x = none) ∧
    (¬ P key owner → m' key owner x = m key owner x)

/-- **A set request**: refused with `EAGAIN` where there is a conflict, else granted. -/
def Sets (m : LockMap) (owner : RecordLockOwner) (q : Request) (r : Reply) (m' : LockMap) : Prop :=
  (m.Conflict owner q → r = .err .EAGAIN ∧ m' = m) ∧
    (¬ m.Conflict owner q → r = .ok ∧ m' = m.set owner q)

/-- A round of a blocking request: where there is a conflict it sleeps or is refused. -/
def SetsOrWaits (m : LockMap) (owner : RecordLockOwner) (q : Request) (r : Reply)
    (m' : LockMap) : Prop :=
  (m.Conflict owner q → (r = .blocked ∨ r = .err .EDEADLK) ∧ m' = m) ∧
    (¬ m.Conflict owner q → r = .ok ∧ m' = m.set owner q)

/-- A call whose arguments are refused changes nothing. -/
def Checked (m : LockMap) (request : Except Errno Request) (r : Reply) (m' : LockMap)
    (P : Request → Prop) : Prop :=
  match request with
  | .error e => r = .err e ∧ m' = m
  | .ok q => P q

/-- **Specification of the calls**: what reply and what map a call may lead to. -/
def Performs (m : LockMap) (r : Reply) (m' : LockMap) : Op → Prop
  | .create _ => r = .ok ∧ m' = m
  | .setlk pid file flock => m.Checked (parseSetlk file flock) r m' fun q =>
      m.Sets (.process pid) q r m'
  | .ofdSetlk file first second => m.Checked (parseOfdSetlk file first second) r m' fun q =>
      m.Sets (.fileDescription file.id) q r m'
  | .setlkw pid file flock _ => m.Checked (parseSetlk file flock) r m' fun q =>
      m.SetsOrWaits (.process pid) q r m'
  | .ofdSetlkw file first second _ => m.Checked (parseOfdSetlk file first second) r m' fun q =>
      m.SetsOrWaits (.fileDescription file.id) q r m'
  | .retry owner q _ => m.SetsOrWaits owner q r m'
  -- POSIX locks of a file go with any of its descriptors, the others with the last reference
  | .close pid file stillReferenced => r = .ok ∧ m.Releases (fun key owner =>
      (owner = .process pid ∧ lockKey file = .ok key) ∨
        (owner = .fileDescription file.id ∧ stillReferenced = false)) m'
  | .exit pid entries => r = .ok ∧ m.Releases (fun _ owner =>
      owner = .process pid ∨
        ∃ e ∈ entries, owner = .fileDescription e.1.id ∧ e.2 = false) m'

end LockMap

/-! ## Reading the map off the table -/

/-- Two ranges of one owner on one file. -/
def sameOwner (a b : LockTag) : Prop := a.key = b.key ∧ a.owner = b.owner

instance : Std.Symm sameOwner := ⟨fun _ _ h => ⟨h.1.symm, h.2.symm⟩⟩

def RecordLockTable.lockMap (t : RecordLockTable) : LockMap := fun key owner x =>
  (t.locks.find? fun lock => lock.tag.ownedBy key owner && decide (x ∈ lock.range)).map
    (·.tag.lType)

variable {t t' : RecordLockTable} {s s' : State} {key : LockKey} {owner : RecordLockOwner}
  {q : Request} {tag : LockTag} {x : Int} {lType : LockType}

open LockTag

lemma LockTag.ownedBy_iff : tag.ownedBy key owner = true ↔ tag.key = key ∧ tag.owner = owner := by
  simp [ownedBy]

open RecordLockTable

/-- While an owner's ranges are apart the map says what the table covers. -/
lemma lockMap_eq_some (h : Separate sameOwner t.locks) :
    t.lockMap key owner x = some lType ↔ Covers t.locks ⟨key, owner, lType⟩ x := by
  have found : ∀ lock, (t.locks.find? fun lock => lock.tag.ownedBy key owner &&
      decide (x ∈ lock.range)) = some lock →
      Covers t.locks ⟨key, owner, lock.tag.lType⟩ x := by
    intro lock hfind
    have hp := find?_some hfind
    rw [Bool.and_eq_true, ownedBy_iff, decide_eq_true_iff] at hp
    obtain ⟨⟨rfl, rfl⟩, hx⟩ := hp
    exact ⟨lock, mem_of_find?_eq_some hfind, rfl, hx⟩
  unfold lockMap
  constructor
  · intro hmap
    obtain ⟨lock, hfind, rfl⟩ := map_eq_some_iff.mp hmap
    exact found lock hfind
  rintro ⟨a, ha, htag, hx⟩
  have hsome : (t.locks.find? fun lock => lock.tag.ownedBy key owner &&
      decide (x ∈ lock.range)).isSome = true := by
    apply find?_isSome.mpr
    exact ⟨a, ha, by simp [htag, ownedBy, hx]⟩
  obtain ⟨lock, hfind⟩ := isSome_iff_exists.mp hsome
  rw [hfind]
  -- the range that the search finds covers the same byte for the same owner
  have htag' := h.unique (found lock hfind) ⟨a, ha, htag, hx⟩ ⟨rfl, rfl⟩
  exact congrArg some (congrArg LockTag.lType htag')

/-- A lock table shows the map that its ranges cover. -/
lemma lockMap_ext (h : Separate sameOwner t.locks) {m : LockMap}
    (hm : ∀ key owner lType x, m key owner x = some lType ↔ Covers t.locks ⟨key, owner, lType⟩ x) :
    t.lockMap = m := by
  funext key owner x
  apply Option.ext
  intro lType
  rw [lockMap_eq_some h, hm]

/-- **The table is sound**: an owner's ranges are apart, different owners are compatible, and no
range is stored as unlocked. -/
structure TableInv (t : RecordLockTable) : Prop where
  separate : Separate sameOwner t.locks
  compatible : ∀ {key o₁ o₂ τ₁ τ₂ x}, o₁ ≠ o₂ → Covers t.locks ⟨key, o₁, τ₁⟩ x →
    Covers t.locks ⟨key, o₂, τ₂⟩ x → lockConflicts τ₁ τ₂ = false
  typed : ∀ {key o τ x}, Covers t.locks ⟨key, o, τ⟩ x → τ ≠ .unlck

/-! ## What the table functions do -/

/-- The conflicts are the locks of other owners that overlap and exclude. -/
lemma mem_findConflicts {requested : LockType} {range : LockRange} {lock : PosixLock} :
    lock ∈ t.findConflicts key owner requested range ↔ lock ∈ t.locks ∧ lock.tag.key = key ∧
      lock.tag.owner ≠ owner ∧ lockConflicts lock.tag.lType requested = true ∧
      lock.range.overlaps range = true := by
  unfold findConflicts
  rw [mem_filter]
  simp only [Bool.and_eq_true, decide_eq_true_iff, Bool.not_eq_true', decide_eq_false_iff_not]
  tauto

/-- The conflict search finds a range exactly where a byte conflicts. -/
lemma conflict_iff (h : Separate sameOwner t.locks) : t.lockMap.Conflict owner q ↔
      q.lType ≠ .unlck ∧ (t.findConflicts q.key owner q.lType q.range).isEmpty = false := by
  refine and_congr_right fun _ => ?_
  rw [isEmpty_eq_false_iff_exists_mem]
  constructor
  · rintro ⟨o, x, lType, ho, hx, hmap, hconf⟩
    obtain ⟨lock, hlock, htag, hxl⟩ := (lockMap_eq_some h).mp hmap
    refine ⟨lock, mem_findConflicts.mpr ⟨hlock, ?_⟩⟩
    rw [htag]
    exact ⟨rfl, ho, hconf, Range.overlaps_iff.mpr ⟨x, hxl, hx⟩⟩
  · rintro ⟨lock, hlock⟩
    obtain ⟨hmem, hkey, howner, hconf, hover⟩ := mem_findConflicts.mp hlock
    obtain ⟨x, hxl, hx⟩ := Range.overlaps_iff.mp hover
    refine ⟨lock.tag.owner, x, lock.tag.lType, howner, hx, ?_, hconf⟩
    exact (lockMap_eq_some h).mpr ⟨lock, hmem, by rw [← hkey], hxl⟩

instance : Std.Total fun a b : PosixLock => sortKey a ≤ sortKey b := ⟨fun _ _ => le_total _ _⟩

instance : IsTrans PosixLock fun a b => sortKey a ≤ sortKey b := ⟨fun _ _ _ => le_trans⟩

/-- Locks that agree in all but their ranges are sorted by their starts. -/
lemma lo_le_of_sortKey_le {a b : PosixLock} (htag : a.tag = b.tag)
    (h : sortKey a ≤ sortKey b) : a.range.lo ≤ b.range.lo := by
  -- the keys agree up to the start, so that the order is decided there
  have tail : ∀ common l l' : List Int, common ++ l ≤ common ++ l' → l ≤ l' := by
    intro common
    induction common with
    | nil => exact fun _ _ hle => hle
    | cons v common ih =>
      intro l l' hle
      apply ih
      by_contra hlt
      exact not_le_of_gt (List.Lex.cons (not_le.mp hlt)) hle
  unfold sortKey at h
  rw [htag] at h
  have hrest := tail [b.tag.lType.code] _ _ (tail _ _ _ h)
  by_contra hlt
  exact not_le_of_gt (List.Lex.rel (not_le.mp hlt)) hrest

lemma ascending_sorted (locks : List PosixLock) :
    Ascending (locks.insertionSort fun a b => sortKey a ≤ sortKey b) :=
  (pairwise_insertionSort _ _).imp fun h htag => lo_le_of_sortKey_le htag h

/-- Merging adjacent ranges changes no byte. -/
lemma covers_mergeAdjacent : Covers t.mergeAdjacent.locks tag x ↔ Covers t.locks tag x :=
  (covers_coalesce (ascending_sorted _)).trans (covers_perm (perm_insertionSort _ _))

lemma separate_mergeAdjacent (h : Separate sameOwner t.locks) :
    Separate sameOwner t.mergeAdjacent.locks :=
  (h.perm (perm_insertionSort _ _).symm).coalesce (ascending_sorted _)

@[simp]
lemma mem_takeWaitersForReleased {released : List ReleasedRange} {w : WaitingLock}
    (h : w ∈ (t.takeWaitersForReleased released).2.waiters) : w ∈ t.waiters :=
  (mem_filter.mp h).1

/-- **A granted request**: the bytes of the range, for this owner, change to the requested type. -/
structure Granted (t : RecordLockTable) (owner : RecordLockOwner) (q : Request)
    (t' : RecordLockTable) : Prop where
  covers : ∀ tag x, Covers t'.locks tag x ↔
    (Covers t.locks tag x ∧ ¬ (tag.ownedBy q.key owner = true ∧ x ∈ q.range)) ∨
      (q.lType ≠ .unlck ∧ tag = ⟨q.key, owner, q.lType⟩ ∧ x ∈ q.range)
  separate : Separate sameOwner t.locks → Separate sameOwner t'.locks
  waiters : ∀ w ∈ t'.waiters, w ∈ t.waiters

/-- A request that conflicts returns EAGAIN and changes nothing. -/
lemma setLock_error
    (h : q.lType ≠ .unlck ∧ (t.findConflicts q.key owner q.lType q.range).isEmpty = false) :
    t.setLock owner q = .error .EAGAIN := by
  rw [setLock, if_pos h]

/-- A request without a conflict is granted. -/
lemma setLock_ok
    (h : ¬ (q.lType ≠ .unlck ∧ (t.findConflicts q.key owner q.lType q.range).isEmpty = false)) :
    ∃ wakeups t', t.setLock owner q = .ok (wakeups, t') ∧ Granted t owner q t' := by
  rw [setLock, if_neg h]
  by_cases hun : q.lType = .unlck
  · refine ⟨_, _, if_pos hun, ?_, fun hs => hs.carve _ _, fun w => mem_takeWaitersForReleased⟩
    intro tag x
    rw [covers_carve]
    simp [hun]
  · refine ⟨_, _, if_neg hun, ?_, ?_, fun w => mem_takeWaitersForReleased⟩
    · intro tag x
      rw [covers_mergeAdjacent, covers_append, covers_carve]
      simp only [covers_cons, covers_nil, or_false]
      refine or_congr_right ⟨fun hnew => ⟨hun, hnew.1.symm, hnew.2⟩, fun hnew => ?_⟩
      exact ⟨hnew.2.1.symm, hnew.2.2⟩
    · intro hs
      apply separate_mergeAdjacent
      -- the new range is apart from what is left of the owner's ranges
      refine pairwise_append.mpr ⟨hs.carve _ _, pairwise_singleton _ _, ?_⟩
      intro a ha b hb hsame hover
      obtain rfl := mem_singleton.mp hb
      obtain ⟨x, hxa, hxb⟩ := Range.overlaps_iff.mp hover
      refine (covers_carve.mp ⟨a, ha, rfl, hxa⟩).2 ⟨?_, hxb⟩
      exact ownedBy_iff.mpr hsame

/-- **A release**: what the owners that meet `P` hold on the files that meet it is gone. -/
structure Released (P : LockKey → RecordLockOwner → Prop) (t t' : RecordLockTable) : Prop where
  covers : ∀ tag x, Covers t'.locks tag x ↔ Covers t.locks tag x ∧ ¬ P tag.key tag.owner
  separate : Separate sameOwner t.locks → Separate sameOwner t'.locks
  waiters : ∀ w ∈ t'.waiters, w ∈ t.waiters

lemma releaseForProcessFile_released (t : RecordLockTable) (key : LockKey) (pid : Nat) :
    Released (fun k o => o = .process pid ∧ k = key) t (t.releaseForProcessFile key pid).2 := by
  refine ⟨?_, fun hs => hs.carve _ _, fun w => mem_takeWaitersForReleased⟩
  intro tag x
  refine covers_carve.trans (and_congr_right ?_)
  rintro ⟨a, -, -, hx⟩
  -- a byte that is covered lies in the file
  have hwhole : x ∈ wholeFile := by
    have hbot := a.range.bot_le
    have htop := a.range.le_top
    exact ⟨hbot.trans hx.1, hx.2.trans htop⟩
  rw [ownedBy_iff]
  tauto

/-- All ranges of one owner go, and no others. -/
lemma releaseOwner_released (t : RecordLockTable) (owner : RecordLockOwner) :
    Released (fun _ o => o = owner) t (t.releaseOwner owner).2 := by
  refine ⟨?_, fun hs => List.Pairwise.filter _ hs, ?_⟩
  · intro tag x
    refine (covers_filter_tag (q := fun tag : LockTag => !decide (tag.owner = owner))).trans ?_
    simp
  · intro w hw
    exact (mem_filter.mp (mem_takeWaitersForReleased hw)).1

variable {P : LockKey → RecordLockOwner → Prop}

lemma Released.refl_of_not_covers
    (h : ∀ tag x, Covers t.locks tag x → ¬ P tag.key tag.owner) : Released P t t :=
  ⟨fun tag x => (and_iff_left_of_imp (h tag x)).symm, fun hs => hs, fun _ hw => hw⟩

variable {P' : LockKey → RecordLockOwner → Prop}

/-- Two releases in a row release what either does. -/
lemma Released.trans {t'' : RecordLockTable} (h : Released P t t') (h' : Released P' t' t'') :
    Released (fun key owner => P key owner ∨ P' key owner) t t'' := by
  refine ⟨?_, fun hs => h'.separate (h.separate hs), fun w hw => h.waiters w (h'.waiters w hw)⟩
  intro tag x
  rw [h'.covers, h.covers, and_assoc, not_or]

lemma Released.congr (h : Released P t t') (hP : ∀ key owner, P key owner ↔ P' key owner) :
    Released P' t t' :=
  { h with covers := fun tag x => by rw [h.covers, hP] }

/-! ## The table through the calls -/

section

variable (h : TableInv t)
include h

/-- Granting a request without a conflict keeps the table in order. -/
lemma TableInv.granted (hg : Granted t owner q t')
    (hfree : ¬ t.lockMap.Conflict owner q) : TableInv t' := by
  have hfree' : ∀ {o τ x}, o ≠ owner → x ∈ q.range → q.lType ≠ .unlck →
      Covers t.locks ⟨q.key, o, τ⟩ x → lockConflicts τ q.lType = false := by
    intro o τ x ho hx hun hcov
    by_contra hconf
    exact hfree ⟨hun, o, x, τ, ho, hx, (lockMap_eq_some h.separate).mpr hcov,
      Bool.not_eq_false _ ▸ hconf⟩
  refine ⟨hg.separate h.separate, ?_, ?_⟩
  · intro key o₁ o₂ τ₁ τ₂ x hne h₁ h₂
    rcases (hg.covers _ _).mp h₁ with ⟨h₁, -⟩ | ⟨hun, htag, hx⟩
    · rcases (hg.covers _ _).mp h₂ with ⟨h₂, -⟩ | ⟨hun, htag, hx⟩
      · exact h.compatible hne h₁ h₂
      · cases htag
        exact hfree' hne hx hun h₁
    · cases htag
      rcases (hg.covers _ _).mp h₂ with ⟨h₂, -⟩ | ⟨-, htag, -⟩
      · have := hfree' hne.symm hx hun h₂
        simpa [lockConflicts, Bool.or_comm] using this
      · cases htag
        exact absurd rfl hne
  · intro key o τ x hcov
    rcases (hg.covers _ _).mp hcov with ⟨hcov, -⟩ | ⟨hun, htag, -⟩
    · exact h.typed hcov
    · cases htag
      exact hun

/-- So does releasing. -/
lemma TableInv.released (hr : Released P t t') : TableInv t' := by
  refine ⟨hr.separate h.separate, ?_, ?_⟩
  · intro key o₁ o₂ τ₁ τ₂ x hne h₁ h₂
    exact h.compatible hne ((hr.covers _ _).mp h₁).1 ((hr.covers _ _).mp h₂).1
  · intro key o τ x hcov
    exact h.typed ((hr.covers _ _).mp hcov).1

/-- **Set**: a granted request changes exactly the bytes of its range for its owner. -/
theorem lockMap_granted (hg : Granted t owner q t') :
    t'.lockMap = t.lockMap.set owner q := by
  apply lockMap_ext (hg.separate h.separate)
  intro key o τ x
  rw [hg.covers, ownedBy_iff]
  unfold LockMap.set
  split
  next hin =>
    obtain ⟨rfl, rfl, hx⟩ := hin
    cases hq : q.lType <;> simp [LockMap.held, hx, eq_comm]
  rename_i hout
  rw [lockMap_eq_some h.separate]
  constructor
  · intro hcov
    exact .inl ⟨hcov, fun hin => hout ⟨hin.1.1, hin.1.2, hin.2⟩⟩
  · rintro (⟨hcov, -⟩ | ⟨-, htag, hx⟩)
    · exact hcov
    · cases htag
      exact absurd ⟨rfl, rfl, hx⟩ hout

/-- **Release**: a release forgets exactly what its condition names. -/
theorem lockMap_released (hr : Released P t t') :
    t.lockMap.Releases P t'.lockMap := by
  have hs' := hr.separate h.separate
  intro key o x
  constructor
  · intro hP
    apply eq_none_iff_forall_ne_some.mpr
    intro τ hτ
    exact ((hr.covers _ _).mp ((lockMap_eq_some hs').mp hτ)).2 hP
  · intro hP
    apply Option.ext
    intro τ
    rw [lockMap_eq_some hs', lockMap_eq_some h.separate, hr.covers]
    exact and_iff_left hP

end

/-! ## Flags -/

/-- A process has locks if it has locked a byte. -/
lemma hasProcessLocks_iff {pid : Nat} :
    t.hasProcessLocks pid = true ↔ ∃ tag x, Covers t.locks tag x ∧ tag.owner = .process pid := by
  unfold hasProcessLocks
  rw [List.any_eq_true]
  constructor
  · rintro ⟨lock, hlock, howner⟩
    exact ⟨lock.tag, lock.range.lo, ⟨lock, hlock, rfl, Int.le_refl _, lock.range.le⟩,
      of_decide_eq_true howner⟩
  · rintro ⟨tag, x, ⟨lock, hlock, rfl, -⟩, howner⟩
    exact ⟨lock, hlock, decide_eq_true howner⟩

/-- The classes are set for every owner in the table. -/
lemma active_of_covers (h : Covers t.locks tag x) :
    (tag.owner.isProcess = true → (publishRecordLockActivity t).posix = true) ∧
      (tag.owner.isProcess = false → (publishRecordLockActivity t).ofd = true) := by
  obtain ⟨lock, hlock, rfl, -⟩ := h
  have hmem : lock.tag.owner ∈ t.locks.map (·.tag.owner) ++ t.waiters.map (·.tag.owner) :=
    mem_append_left _ (mem_map_of_mem hlock)
  constructor
  · intro hp
    exact any_eq_true.mpr ⟨_, hmem, hp⟩
  · intro hp
    exact any_eq_true.mpr ⟨_, hmem, by rw [hp]; rfl⟩

/-- **Invariant of the calls**: the table is sound, the activity classes are those of the table,
and a process that holds a lock has its flag set. -/
structure Inv (s : State) : Prop where
  table : TableInv s.table
  active : s.active = publishRecordLockActivity s.table
  flags : ∀ pid, s.table.hasProcessLocks pid = true → s.pcb pid = some true

lemma Inv.refreshFlag (h : Inv s) (pid : Nat) : Inv (s.refreshFlag pid) := by
  refine ⟨h.table, h.active, ?_⟩
  intro pid' hlocks
  rcases eq_or_ne pid' pid with rfl | hpid
  · exact (update_self ..).trans (congrArg some hlocks)
  · exact (update_of_ne hpid ..).trans (h.flags pid' hlocks)

/-- Publishing a released table keeps the invariant. -/
lemma Inv.publish (h : Inv s) (hr : Released P s.table t') : Inv (s.publish t') := by
  refine ⟨h.table.released hr, rfl, ?_⟩
  intro pid hlocks
  obtain ⟨tag, x, hcov, howner⟩ := hasProcessLocks_iff.mp hlocks
  exact h.flags pid (hasProcessLocks_iff.mpr ⟨tag, x, ((hr.covers _ _).mp hcov).1, howner⟩)

lemma Inv.commit (h : Inv s) (hg : Granted s.table owner q t')
    (hfree : ¬ s.table.lockMap.Conflict owner q) : Inv (s.commit owner t') := by
  have htable := h.table.granted hg hfree
  -- a process other than the owner has no more locks than before
  have hother : ∀ pid, owner ≠ .process pid → t'.hasProcessLocks pid = true →
      s.pcb pid = some true := by
    intro pid hne hlocks
    obtain ⟨tag, x, hcov, howner⟩ := hasProcessLocks_iff.mp hlocks
    rcases (hg.covers _ _).mp hcov with ⟨hcov, -⟩ | ⟨-, rfl, -⟩
    · exact h.flags pid (hasProcessLocks_iff.mpr ⟨tag, x, hcov, howner⟩)
    · exact absurd howner hne
  cases owner with
  | fileDescription file => exact ⟨htable, rfl, fun pid => hother pid (by simp)⟩
  | process pid =>
    refine ⟨htable, rfl, ?_⟩
    intro pid' hlocks
    rcases eq_or_ne pid' pid with rfl | hpid
    · exact (update_self ..).trans (congrArg some hlocks)
    · refine (update_of_ne hpid ..).trans (hother pid' ?_ hlocks)
      rintro ⟨rfl⟩
      exact hpid rfl

lemma commit_table (s : State) (owner : RecordLockOwner) (t : RecordLockTable) :
    (s.commit owner t).table = t := by
  cases owner <;> rfl

/-! ## Refinement of the calls -/

/-- What a call has to show: it keeps the invariant and acts on the map as specified. -/
def Refines (out : Reply × State) (spec : Reply → LockMap → Prop) : Prop :=
  Inv out.2 ∧ spec out.1 out.2.table.lockMap

section

variable (h : Inv s)
include h

/-- **F_SETLK refines the map**: it sets the range at once, or fails. -/
lemma setlkSection_refines :
    Refines (setlkSection s owner q) (s.table.lockMap.Sets owner q) := by
  unfold setlkSection
  by_cases hconf : s.table.lockMap.Conflict owner q
  · rw [setLock_error ((conflict_iff h.table.separate).mp hconf)]
    exact ⟨h, fun _ => ⟨rfl, rfl⟩, fun hfree => absurd hconf hfree⟩
  · obtain ⟨wakeups, t', hset, hg⟩ := setLock_ok (mt (conflict_iff h.table.separate).mpr hconf)
    rw [hset]
    refine ⟨h.commit hg hconf, fun hc => absurd hc hconf, fun _ => ⟨rfl, ?_⟩⟩
    rw [commit_table]
    exact lockMap_granted h.table hg

/-- **F_SETLKW refines the map**: it sets the range, or the call waits. -/
lemma setlkwSection_refines (detect : Bool) (task : Nat) :
    Refines (setlkwSection s owner detect q task) (s.table.lockMap.SetsOrWaits owner q) := by
  have hsearch : (setlkwConflicts s.table owner q).isEmpty = true ↔
      ¬ s.table.lockMap.Conflict owner q := by
    rw [conflict_iff h.table.separate, setlkwConflicts]
    split <;> simp_all
  unfold setlkwSection
  by_cases hconf : s.table.lockMap.Conflict owner q
  · rw [if_neg (fun hempty => hsearch.mp hempty hconf)]
    split
    · exact ⟨h, fun _ => ⟨.inr rfl, rfl⟩, fun hfree => absurd hconf hfree⟩
    · refine ⟨⟨{ h.table with }, rfl, h.flags⟩, ?_⟩
      exact ⟨fun _ => ⟨.inl rfl, rfl⟩, fun hfree => absurd hconf hfree⟩
  · rw [if_pos (hsearch.mpr hconf)]
    obtain ⟨hinv, -, hok⟩ := setlkSection_refines h
    exact ⟨hinv, fun hc => absurd hc hconf, hok⟩

/-- The argument checks come before the table is touched. -/
lemma refines_checked {request : Except Errno Request}
    {section' : Request → Reply × State} {spec : Request → Reply → LockMap → Prop}
    (hq : ∀ q, Refines (section' q) (spec q)) :
    Refines (match request with | .error e => (.err e, s) | .ok q => section' q)
      fun r m' => s.table.lockMap.Checked request r m' fun q => spec q r m' := by
  cases request with
  | error e => exact ⟨h, rfl, rfl⟩
  | ok q => exact hq q

lemma releaseRecordLocksForClose_released (pid : Nat) (file : OpenFile) :
    Inv (releaseRecordLocksForClose s pid file) ∧
      Released (fun key o => o = .process pid ∧ lockKey file = .ok key) s.table
        (releaseRecordLocksForClose s pid file).table := by
  unfold releaseRecordLocksForClose
  split
  · split
    next he =>
      refine ⟨h, .refl_of_not_covers ?_⟩
      rintro tag x - ⟨-, hkey⟩
      simp [he] at hkey
    next key hkey =>
      have hr := releaseForProcessFile_released s.table key pid
      refine ⟨(h.publish hr).refreshFlag pid, hr.congr ?_⟩
      intro k o
      rw [hkey]
      exact and_congr_right fun _ => ⟨fun he => he ▸ rfl, fun he => (Except.ok.inj he).symm⟩
  next hflag =>
    -- a process without the flag holds nothing
    refine ⟨h, .refl_of_not_covers ?_⟩
    rintro tag x hcov ⟨howner, -⟩
    exact hflag (h.flags pid (hasProcessLocks_iff.mpr ⟨tag, x, hcov, howner⟩))

lemma releaseOfdRecordLocksForClose_released (file : OpenFile)
    (stillReferenced : Bool) : Inv (releaseOfdRecordLocksForClose s file stillReferenced) ∧
      Released (fun _ o => o = .fileDescription file.id ∧ stillReferenced = false) s.table
        (releaseOfdRecordLocksForClose s file stillReferenced).table := by
  unfold releaseOfdRecordLocksForClose
  split
  next hdrop =>
    rw [Bool.and_eq_true, Bool.not_eq_true'] at hdrop
    have hr := releaseOwner_released s.table (.fileDescription file.id)
    exact ⟨h.publish hr, hr.congr fun _ o => (and_iff_left hdrop.2).symm⟩
  next hkeep =>
    refine ⟨h, .refl_of_not_covers ?_⟩
    rintro tag x ⟨lock, hlock, rfl, -⟩ ⟨howner, hfree⟩
    apply hkeep
    rw [hfree, hasFileDescriptionState, Bool.not_false, Bool.and_true, Bool.or_eq_true]
    exact .inl (any_eq_true.mpr ⟨lock, hlock, decide_eq_true howner⟩)

def closeReleases (pid : Nat) (file : OpenFile) (stillReferenced : Bool) (key : LockKey)
    (o : RecordLockOwner) : Prop :=
  (o = .process pid ∧ lockKey file = .ok key) ∨
    (o = .fileDescription file.id ∧ stillReferenced = false)

/-- A close releases what POSIX and what the open file description say. -/
lemma releaseFileLocksForClose_released (pid : Nat) (file : OpenFile)
    (stillReferenced : Bool) : Inv (releaseFileLocksForClose s pid file stillReferenced) ∧
      Released (closeReleases pid file stillReferenced) s.table
        (releaseFileLocksForClose s pid file stillReferenced).table := by
  -- a class that is not active has no lock in the table
  have hposix : s.active.posix = false → ∀ tag x, Covers s.table.locks tag x →
      ¬ (tag.owner = .process pid ∧ lockKey file = .ok tag.key) := by
    rintro hoff tag x hcov ⟨howner, -⟩
    have hon := (active_of_covers hcov).1 (by rw [howner]; rfl)
    simp [← h.active, hoff] at hon
  have hofd : s.active.ofd = false → ∀ tag x, Covers s.table.locks tag x →
      ¬ (tag.owner = .fileDescription file.id ∧ stillReferenced = false) := by
    rintro hoff tag x hcov ⟨howner, -⟩
    have hon := (active_of_covers hcov).2 (by rw [howner]; rfl)
    simp [← h.active, hoff] at hon
  have hfirst : Inv (if s.active.posix then releaseRecordLocksForClose s pid file else s) ∧
      Released (fun key o => o = .process pid ∧ lockKey file = .ok key) s.table
        (if s.active.posix then releaseRecordLocksForClose s pid file else s).table := by
    split
    · exact releaseRecordLocksForClose_released h pid file
    next hoff =>
      exact ⟨h, .refl_of_not_covers (hposix (Bool.eq_false_of_not_eq_true hoff))⟩
  obtain ⟨hinv, hr⟩ := hfirst
  unfold releaseFileLocksForClose
  generalize (if s.active.posix then releaseRecordLocksForClose s pid file else s) = s₁ at hinv hr ⊢
  split
  · obtain ⟨hinv', hr'⟩ := releaseOfdRecordLocksForClose_released hinv file stillReferenced
    exact ⟨hinv', hr.trans hr'⟩
  next hoff =>
    refine ⟨hinv, hr.trans (.refl_of_not_covers ?_)⟩
    intro tag x hcov
    exact hofd (Bool.eq_false_of_not_eq_true hoff) tag x ((hr.covers _ _).mp hcov).1

/-- Closing one file after another releases what each close does. -/
lemma closeAll_released (pid : Nat) (entries : List (OpenFile × Bool)) :
    Inv (entries.foldl (fun s e => releaseFileLocksForClose s pid e.1 e.2) s) ∧
      Released (fun key o => ∃ e ∈ entries, closeReleases pid e.1 e.2 key o) s.table
        (entries.foldl (fun s e => releaseFileLocksForClose s pid e.1 e.2) s).table := by
  induction entries generalizing s with
  | nil => exact ⟨h, .refl_of_not_covers (by simp)⟩
  | cons e entries ih =>
    obtain ⟨hinv, hr⟩ := releaseFileLocksForClose_released h pid e.1 e.2
    obtain ⟨hinv', hr'⟩ := ih hinv
    exact ⟨hinv', (hr.trans hr').congr fun key o => by simp⟩

lemma releaseRecordLocksForProcess_released (pid : Nat) :
    Inv (releaseRecordLocksForProcess s pid) ∧ Released (fun _ o => o = .process pid) s.table
        (releaseRecordLocksForProcess s pid).table := by
  unfold releaseRecordLocksForProcess
  split
  · have hr := releaseOwner_released s.table (.process pid)
    exact ⟨h.publish hr, hr⟩
  rename_i hoff
  refine ⟨h, .refl_of_not_covers ?_⟩
  intro tag x hcov howner
  apply hoff
  rw [h.active]
  exact (active_of_covers hcov).1 (by rw [howner]; rfl)

/-- An exit releases the locks of the process and of the descriptions it closes last. -/
lemma exitProcess_released (pid : Nat) (entries : List (OpenFile × Bool)) :
    Inv (exitProcess s pid entries) ∧ Released (fun _ o => o = .process pid ∨
        ∃ e ∈ entries, o = .fileDescription e.1.id ∧ e.2 = false) s.table
        (exitProcess s pid entries).table := by
  obtain ⟨hinv, hr⟩ := releaseRecordLocksForProcess_released h pid
  obtain ⟨hinv', hr'⟩ := closeAll_released hinv pid entries
  have hall := hr.trans hr'
  constructor
  · -- the exited process holds nothing, so that its flag may go
    refine ⟨hinv'.table, hinv'.active, ?_⟩
    intro pid' hlocks
    have hne : pid' ≠ pid := by
      rintro rfl
      obtain ⟨tag, x, hcov, howner⟩ := hasProcessLocks_iff.mp hlocks
      exact ((hall.covers _ _).mp hcov).2 (.inl howner)
    exact (update_of_ne hne ..).trans (hinv'.flags pid' hlocks)
  · refine hall.congr fun key o => ?_
    constructor
    · rintro (ho | ⟨e, he, ⟨ho, -⟩ | ho⟩)
      · exact .inl ho
      · exact .inl ho
      · exact .inr ⟨e, he, ho⟩
    · rintro (ho | ⟨e, he, ho⟩)
      · exact .inl ho
      · exact .inr ⟨e, he, .inr ho⟩

/-- **Step lemma**: a call keeps the invariant and meets its specification. -/
theorem Inv.perform {op : Op} {r : Reply} (hop : perform s op = some (r, s')) :
    Inv s' ∧ s.table.lockMap.Performs r s'.table.lockMap op := by
  -- the outcome of a call that refines its specification
  have out : ∀ {o : Reply × State} {spec : Reply → LockMap → Prop}, Refines o spec →
      some o = some (r, s') → Inv s' ∧ spec r s'.table.lockMap := by
    intro o spec href ho
    cases ho
    exact href
  cases op with
  | create pid =>
    obtain ⟨hnone, ⟨⟩⟩ := of_guard hop
    refine ⟨⟨h.table, h.active, ?_⟩, rfl, rfl⟩
    intro pid' hlocks
    have hne : pid' ≠ pid := by
      rintro rfl
      simp [h.flags _ hlocks] at hnone
    exact (update_of_ne hne ..).trans (h.flags pid' hlocks)
  | setlk pid file flock =>
    obtain ⟨-, hop⟩ := ite_none_right_eq_some.mp hop
    exact out (refines_checked h fun q => setlkSection_refines h) hop
  | ofdSetlk file first second => exact out (refines_checked h fun q => setlkSection_refines h) hop
  | setlkw pid file flock task =>
    obtain ⟨-, hop⟩ := ite_none_right_eq_some.mp hop
    exact out (refines_checked h fun q => setlkwSection_refines h true task) hop
  | ofdSetlkw file first second task =>
    exact out (refines_checked h fun q => setlkwSection_refines h false task) hop
  | retry owner q task =>
    obtain ⟨-, hop⟩ := ite_none_right_eq_some.mp hop
    exact out (setlkwSection_refines h _ task) hop
  | close pid file stillReferenced =>
    obtain ⟨-, hop⟩ := ite_none_right_eq_some.mp hop
    obtain ⟨hinv, hr⟩ := releaseFileLocksForClose_released h pid file stillReferenced
    cases hop
    exact ⟨hinv, rfl, lockMap_released h.table hr⟩
  | exit pid entries =>
    obtain ⟨-, hop⟩ := ite_none_right_eq_some.mp hop
    obtain ⟨hinv, hr⟩ := exitProcess_released h pid entries
    cases hop
    exact ⟨hinv, rfl, lockMap_released h.table hr⟩

end

lemma Inv.boot : Inv boot := by
  refine ⟨⟨List.Pairwise.nil, ?_, ?_⟩, rfl, ?_⟩
  · exact fun _ hcov => absurd hcov covers_nil
  · exact fun hcov => absurd hcov covers_nil
  · intro pid hlocks
    cases hlocks

/-- **Run lemma**: in every run the table is in order. -/
lemma inv_of_reachable {ok : State → Op → Prop} (h : system.Reachable ok s) : Inv s := by
  apply h.invariant
  · rintro s rfl
    exact Inv.boot
  · intro s op s' hinv _ hstep
    obtain ⟨⟨r, t⟩, hop, rfl⟩ := map_eq_some_iff.mp hstep
    exact (hinv.perform hop).1

/-- **Refinement of record locks.**  In every state that any sequence of calls reaches, different
owners hold compatible types on every byte and the stored ranges of an owner are disjoint; and
every call replies and changes the map of bytes as its specification says. -/
theorem record_locks_refine_map (h : system.Reachable System.anyStep s) :
    (∀ key o₁ o₂ x τ₁ τ₂, o₁ ≠ o₂ → s.table.lockMap key o₁ x = some τ₁ →
      s.table.lockMap key o₂ x = some τ₂ → lockConflicts τ₁ τ₂ = false) ∧
    s.table.locks.Pairwise (fun a b => a.tag.key = b.tag.key → a.tag.owner = b.tag.owner →
      ¬ ∃ x, x ∈ a.range ∧ x ∈ b.range) ∧ ∀ op r s', perform s op = some (r, s') →
      s.table.lockMap.Performs r s'.table.lockMap op := by
  have hinv := inv_of_reachable h
  refine ⟨?_, ?_, fun op r s' hop => (hinv.perform hop).2⟩
  · intro key o₁ o₂ x τ₁ τ₂ hne h₁ h₂
    exact hinv.table.compatible hne ((lockMap_eq_some hinv.table.separate).mp h₁)
      ((lockMap_eq_some hinv.table.separate).mp h₂)
  · refine hinv.table.separate.imp ?_
    intro a b hab hkey howner hpoint
    exact hab ⟨hkey, howner⟩ (Range.overlaps_iff.mpr hpoint)

def sampleFile (id ino : Nat) : OpenFile :=
  ⟨id, true, true, some (0, ino), .ok ⟨0, ino, 100⟩, .ok 0⟩

/-- A request for `len` bytes from `start`. -/
def sampleFlock (lType : LockType) (start len : Int) : Except Errno LinuxFlock :=
  .ok ⟨lType.code, SEEK_SET, start, len, 0⟩

/-- A process that unlocks the middle of its range keeps both ends, and another process is refused
there. -/
theorem record_locks_refine_map_split :
    ∃ s s' : State, system.Reachable System.anyStep s ∧ s.table.locks.length = 2 ∧
      perform s (.setlk 2 (sampleFile 1 7) (sampleFlock .rdlck 8 0)) = some (.err .EAGAIN, s') ∧
      s.table.lockMap.Performs (.err .EAGAIN) s'.table.lockMap
        (.setlk 2 (sampleFile 1 7) (sampleFlock .rdlck 8 0)) := by
  have hrun : (system.runWhile System.anyStep boot [.create 1, .create 2,
      .setlk 1 (sampleFile 0 7) (sampleFlock .wrlck 0 10),
      .setlk 1 (sampleFile 0 7) (sampleFlock .unlck 3 2)]).map (fun s => (s.table.locks.length,
        (perform s (.setlk 2 (sampleFile 1 7) (sampleFlock .rdlck 8 0))).map Prod.fst)) =
      some (2, some (.err .EAGAIN)) := by
    decide +kernel
  obtain ⟨s, hreach, -, hsum⟩ := System.exists_reachable hrun rfl
  obtain ⟨hlen, hop⟩ := Prod.mk.injEq .. ▸ hsum
  obtain ⟨⟨r, s'⟩, hop, rfl⟩ := map_eq_some_iff.mp hop
  exact ⟨s, s', hreach, hlen, hop, (record_locks_refine_map hreach).2.2 _ _ _ hop⟩

end Whusp.Syscall.FdLock
