import Mathlib.Data.List.Perm.Basic
import Whusp.Task.Wakeup

/-!
# Futex queues

The wait queues of `task/futex.rs`: `futex_wait`, `futex_wake`, `futex_requeue` and the cleanup
of the waiters of exited tasks.  A bucket section is one step, and so is every load outside of
one.  A waiter is numbered by the order of the enqueues.  The task side (who is asleep, what a
wakeup answers) is the one of `Whusp.Task.Wakeup`.
-/

namespace Whusp.Task.Futex

open Whusp.Lib List

/-! ## Keys and buckets -/

/-- `FutexSharedKey` of `mm/user_space.rs`. -/
inductive FutexSharedKey where
  | file (mountId ino offset : BitVec 64)
  | vfsNode (mountId ino offset : BitVec 64)
  | fileObject (object offset : BitVec 64)
  | shm (shmid offset : BitVec 64)
  | anonymousPage (ppn offset : BitVec 64)
  deriving DecidableEq

inductive FutexKey where
  | priv (processId addr : BitVec 64)
  | shared (key : FutexSharedKey)
  | sharedVirtual (processId addr : BitVec 64)
  deriving DecidableEq

def FUTEX_BUCKET_COUNT : Nat := 64

def FUTEX_BITSET_MATCH_ANY : BitVec 32 := BitVec.allOnes 32

def FutexKey.hash : FutexKey → BitVec 64
  | .priv processId addr => (addr >>> 2) ^^^ processId
  | .shared (.file mountId ino offset) => (offset >>> 2) ^^^ mountId.rotateLeft 5 ^^^ ino
  | .shared (.vfsNode mountId ino offset) => (offset >>> 2) ^^^ mountId.rotateLeft 5 ^^^ ino
  | .shared (.fileObject object offset) => (offset >>> 2) ^^^ object.rotateLeft 11
  | .shared (.shm shmid offset) => (offset >>> 2) ^^^ shmid.rotateLeft 7
  | .shared (.anonymousPage ppn offset) => (offset >>> 2) ^^^ ppn.rotateLeft 3
  | .sharedVirtual processId addr => (addr >>> 2) ^^^ processId

def bucketIndex (key : FutexKey) : Nat :=
  (key.hash &&& BitVec.ofNat 64 (FUTEX_BUCKET_COUNT - 1)).toNat

/-! ## Waiters -/

inductive WaiterState where
  | queued
  | woken
  | cancelled
  deriving DecidableEq

/-- `FutexWaitCleanup`. -/
inductive Cleanup where
  | woken
  | stillQueued
  | alreadyUnqueued
  deriving DecidableEq

/-- What `futex_wait` returns after it was queued. -/
inductive WaitResult where
  | ok
  | timedOut
  | interrupted
  deriving DecidableEq

/-- Where the call of `futex_wait` is. -/
inductive Phase where
  | scheduled
  /-- At the head of the loop of `remove_waiter_for_task`. -/
  | loadState
  | loadBucket
  | locking (bucket : Nat)
  | cleaned (cleanup : Cleanup)
  | returned (result : WaitResult)
  deriving DecidableEq

structure Waiter where
  task : Nat
  bitset : BitVec 32
  bucket : Nat
  state : WaiterState
  phase : Phase

/-- The end of `futex_wait`. -/
def waitResult (cleanup : Cleanup) (expired signal : Bool) : WaitResult :=
  if expired then
    if cleanup = .stillQueued then .timedOut
    else if signal then .interrupted
    else .ok
  else if signal then .interrupted
  else if cleanup = .stillQueued then .interrupted
  else .ok

/-! ## Queues -/

/-- The loop of `wake`: the waiters it dequeues and the queue it leaves. -/
def wakeLoop (waiters : Nat → Waiter) (bitset : BitVec 32) : Nat → List Nat → List Nat × List Nat
  | _, [] => ([], [])
  | 0, queue => ([], queue)
  | limit + 1, w :: queue =>
    if (waiters w).state ≠ .queued then wakeLoop waiters bitset (limit + 1) queue
    else if (waiters w).bitset &&& bitset = 0 then
      let r := wakeLoop waiters bitset (limit + 1) queue
      (r.1, w :: r.2)
    else
      let r := wakeLoop waiters bitset limit queue
      (w :: r.1, r.2)

/-- The loop of `wake_one_inner`, which stops at the waiter it dequeues. -/
def wakeOneLoop (waiters : Nat → Waiter) (bitset : BitVec 32) : List Nat → Option Nat × List Nat
  | [] => (none, [])
  | w :: queue =>
    if (waiters w).state ≠ .queued then wakeOneLoop waiters bitset queue
    else if (waiters w).bitset &&& bitset = 0 then
      let r := wakeOneLoop waiters bitset queue
      (r.1, w :: r.2)
    else (some w, queue)

def wakeOne (waiters : Nat → Waiter) (bitset : BitVec 32) (queue : List Nat) :
    List Nat × List Nat :=
  let r := wakeOneLoop waiters bitset queue
  (r.1.toList, r.2)

/-- The waiters that `take_requeue_source` wakes, moves and keeps. -/
structure Taken where
  woken : List Nat
  moved : List Nat
  kept : List Nat

def takeRequeueSource (waiters : Nat → Waiter) : Nat → Nat → List Nat → Taken
  | _, _, [] => ⟨[], [], []⟩
  | wakeLimit, requeueLimit, w :: queue =>
    if (waiters w).state ≠ .queued then takeRequeueSource waiters wakeLimit requeueLimit queue
    else
      match wakeLimit, requeueLimit with
      | n + 1, m =>
        let r := takeRequeueSource waiters n m queue
        { r with woken := w :: r.woken }
      | 0, m + 1 =>
        let r := takeRequeueSource waiters 0 m queue
        { r with moved := w :: r.moved }
      | 0, 0 =>
        let r := takeRequeueSource waiters 0 0 queue
        { r with kept := w :: r.kept }

section Loops

variable {waiters : Nat → Waiter} {bitset : BitVec 32}

def stays (waiters : Nat → Waiter) (w : Nat) : Bool := (waiters w).state = .queued

/-- A wake with these bits is for the waiter. -/
def selects (waiters : Nat → Waiter) (bitset : BitVec 32) (w : Nat) : Bool :=
  stays waiters w && (waiters w).bitset &&& bitset ≠ 0

/-- The loop of `wake` dequeues the first waiters that it is for and keeps all others. -/
lemma wakeLoop_spec (waiters : Nat → Waiter) (bitset : BitVec 32) (limit : Nat) (queue : List Nat) :
    let r := wakeLoop waiters bitset limit queue
    let others w := stays waiters w && !selects waiters bitset w
    r.1 = (queue.filter (selects waiters bitset)).take limit ∧
      r.2.filter (selects waiters bitset) = (queue.filter (selects waiters bitset)).drop limit ∧
      r.2.filter others = queue.filter others ∧ r.2.Sublist queue := by
  induction queue generalizing limit with
  | nil => cases limit <;> simp [wakeLoop]
  | cons w queue ih =>
    cases limit with
    | zero => simp [wakeLoop]
    | succ limit =>
      simp only [wakeLoop]
      split
      next hw =>
        obtain ⟨h₁, h₂, h₃, h₄⟩ := ih (limit + 1)
        simp_all [selects, stays]
      split
      next hw hb =>
        obtain ⟨h₁, h₂, h₃, h₄⟩ := ih (limit + 1)
        simp_all [selects, stays]
      next hw hb =>
        obtain ⟨h₁, h₂, h₃, h₄⟩ := ih limit
        simp_all [selects, stays]

/-- **The fast path**: `wake_one` does what `wake` does with limit one. -/
lemma wakeOne_eq_wakeLoop (queue : List Nat) :
    wakeOne waiters bitset queue = wakeLoop waiters bitset 1 queue := by
  unfold wakeOne
  induction queue with
  | nil => rfl
  | cons w queue ih =>
    simp only [wakeOneLoop, wakeLoop, ← ih]
    split
    · rfl
    split
    · rfl
    · cases queue <;> rfl

/-- `take_requeue_source` cuts the queue into three. -/
lemma takeRequeueSource_eq (n m : Nat) (queue : List Nat) :
    takeRequeueSource waiters n m queue =
      let q := queue.filter (stays waiters)
      ⟨q.take n, (q.drop n).take m, (q.drop n).drop m⟩ := by
  induction queue generalizing n m with
  | nil => simp [takeRequeueSource]
  | cons w queue ih =>
    by_cases hw : (waiters w).state = .queued
    · cases n <;> cases m <;> simp [takeRequeueSource, stays, hw, ih]
    · simp [takeRequeueSource, stays, hw, ih]

/-- No waiter gets lost in the loop of `wake`. -/
theorem wakeLoop_perm (limit : Nat) {queue : List Nat}
    (h : ∀ w ∈ queue, (waiters w).state = .queued) :
    ((wakeLoop waiters bitset limit queue).1 ++ (wakeLoop waiters bitset limit queue).2).Perm
      queue := by
  induction queue generalizing limit with
  | nil => cases limit <;> exact .refl _
  | cons w queue ih =>
    have hrest : ∀ v ∈ queue, (waiters v).state = .queued :=
      fun v hv => h v (mem_cons_of_mem _ hv)
    cases limit with
    | zero => exact .refl _
    | succ limit =>
      rw [wakeLoop, if_neg (not_not.mpr (h w mem_cons_self))]
      split
      · exact perm_middle.trans ((ih (limit + 1) hrest).cons w)
      · exact (ih limit hrest).cons w

/-- No waiter gets lost in `take_requeue_source`. -/
theorem takeRequeueSource_perm (n m : Nat) {queue : List Nat}
    (h : ∀ w ∈ queue, (waiters w).state = .queued) : ((takeRequeueSource waiters n m queue).woken ++
      ((takeRequeueSource waiters n m queue).moved ++
        (takeRequeueSource waiters n m queue).kept)).Perm queue := by
  have hall : queue.filter (stays waiters) = queue := by simpa [stays] using h
  rw [takeRequeueSource_eq, hall]
  simp only [take_append_drop, Perm.refl]

end Loops

/-! ## Buckets -/

/-- `FutexBucket::waiters`: the queue of a key is what the bucket has under this key, in order.
A key whose queue is empty is not in the list, so `remove_empty_queue` has nothing to do here. -/
abbrev Bucket := List (FutexKey × Nat)

namespace Bucket

def queue (b : Bucket) (key : FutexKey) : List Nat := (b.filter fun e => e.1 = key).map Prod.snd

def setQueue (b : Bucket) (key : FutexKey) (queue : List Nat) : Bucket :=
  b.filter (fun e => e.1 ≠ key) ++ queue.map (key, ·)

def pushAll (b : Bucket) (key : FutexKey) (ws : List Nat) : Bucket := b ++ ws.map (key, ·)

def retain (b : Bucket) (p : Nat → Bool) : Bucket := b.filter fun e => p e.2

def waiters (b : Bucket) : List Nat := b.map Prod.snd

variable {b : Bucket} {key : FutexKey} {w : Nat}

theorem count_setQueue (b : Bucket) (key : FutexKey) (q : List Nat) (w : Nat) :
    (b.setQueue key q).waiters.count w + (b.queue key).count w = b.waiters.count w + q.count w := by
  have hsplit : b.waiters.count w =
      (b.queue key).count w + ((b.filter fun e => e.1 ≠ key).map Prod.snd).count w := by
    induction b with
    | nil => rfl
    | cons e b ih =>
      simp only [waiters, queue, map_cons, count_cons] at ih ⊢
      by_cases he : e.1 = key <;> simp [he, count_cons] at ih ⊢ <;> omega
  have hmap : (q.map (key, ·)).map Prod.snd = q := by
    rw [map_map]
    exact map_id q
  rw [hsplit, setQueue, waiters, map_append, hmap, count_append]
  omega

lemma queue_setQueue (b : Bucket) (key k : FutexKey) (q : List Nat) :
    (b.setQueue key q).queue k = if k = key then q else b.queue k := by
  unfold queue setQueue
  split
  next hk => simp [hk, filter_map, Function.comp_def]
  next hk =>
    have hrest : (b.filter fun e => e.1 ≠ key).filter (·.1 = k) = b.filter (·.1 = k) := by
      rw [filter_filter]
      refine filter_congr fun e _ => ?_
      by_cases he : e.1 = k <;> simp [he, hk]
    rw [filter_append, hrest]
    simp [filter_map, Function.comp_def, Ne.symm hk]

lemma count_pushAll (b : Bucket) (key : FutexKey) (ws : List Nat) (w : Nat) :
    (b.pushAll key ws).waiters.count w = b.waiters.count w + ws.count w := by
  have hmap : (ws.map (key, ·)).map Prod.snd = ws := by
    rw [map_map]
    exact map_id ws
  rw [pushAll, waiters, map_append, hmap, count_append]
  rfl

lemma count_retain (b : Bucket) (p : Nat → Bool) (w : Nat) :
    (b.retain p).waiters.count w = if p w then b.waiters.count w else 0 := by
  have hmap : (b.retain p).waiters = b.waiters.filter p := by
    simp only [retain, waiters, filter_map]
    rfl
  rw [hmap]
  split
  next hp => exact count_filter hp
  next hp => exact count_eq_zero_of_not_mem fun hm => hp (of_mem_filter hm)

end Bucket

/-- **FIFO**: a wake takes the first waiters it is for and a requeue cuts the source queue into
three, each in order of arrival; the fast path does the same as the loop. -/
theorem wake_requeue_fifo (waiters : Nat → Waiter) (bitset : BitVec 32) (b : Bucket)
    (key : FutexKey) (n m : Nat) :
    let queue := b.queue key
    let selected := queue.filter (selects waiters bitset)
    let r := wakeLoop waiters bitset n queue
    let b' := b.setQueue key r.2
    let others w := stays waiters w && !selects waiters bitset w
    let t := takeRequeueSource waiters n m queue
    (r.1 = selected.take n ∧ (b'.queue key).filter (selects waiters bitset) = selected.drop n ∧
        (b'.queue key).filter others = queue.filter others ∧ (b'.queue key).Sublist queue ∧
        ∀ k ≠ key, b'.queue k = b.queue k) ∧
      (t.woken ++ t.moved ++ t.kept = queue.filter (stays waiters) ∧
        t.woken.length = min n (queue.filter (stays waiters)).length ∧
        t.moved.length = min m ((queue.filter (stays waiters)).length - n)) ∧
      wakeOne waiters bitset queue = wakeLoop waiters bitset 1 queue := by
  intro queue selected r b' others t
  obtain ⟨h₁, h₂, h₃, h₄⟩ := wakeLoop_spec waiters bitset n queue
  have hself : b'.queue key = r.2 := (b.queue_setQueue ..).trans (if_pos rfl)
  refine ⟨⟨h₁, ?_, ?_, ?_, fun k hk => (b.queue_setQueue ..).trans (if_neg hk)⟩, ?_,
    wakeOne_eq_wakeLoop queue⟩
  · rwa [hself]
  · rwa [hself]
  · rwa [hself]
  · simp only [t, takeRequeueSource_eq, append_assoc, take_append_drop, length_take, length_drop,
      and_self]

/-! ## The system -/

/-- A call of `futex_wake` or `futex_requeue` after its bucket section. -/
structure WakeCall where
  /-- Dequeued waiters whose tasks it has not woken yet. -/
  pending : List Nat
  woken : Nat
  moved : Nat
  countRequeued : Bool
  returned : Bool

/-- What the call returns: `FUTEX_CMP_REQUEUE` counts the waiters that it has moved as well. -/
def WakeCall.result (c : WakeCall) : Nat := if c.countRequeued then c.moved + c.woken else c.woken

structure State where
  buckets : Nat → Bucket
  waiters : Nat → Waiter
  /-- The number of waiters so far. -/
  created : Nat
  inner : Nat → TaskInner Nat
  futexWaitBucket : Nat → Option Nat
  /-- The waiter of the task's running `futex_wait`. -/
  current : Nat → Option Nat
  calls : List WakeCall
  /-- Waiters that a wake or requeue dequeued. -/
  woken : List Nat
  /-- Waiters whose `futex_wait` returned success. -/
  succeeded : List Nat

inductive Event where
  /-- The bucket section of `futex_wait`, with what its checks find. -/
  | wait (t cpu : Nat) (key : FutexKey) (bitset : BitVec 32)
      (wordMatches expired interrupted : Bool)
  /-- The task's context switch completes. -/
  | finishSwitch (t cpu : Nat)
  /-- A timer or a signal wakes the task. -/
  | wakeup (t : Nat) (source : WakeSource)
  | dispatch (t cpu : Nat)
  /-- Thread-group exit marks the task. -/
  | exit (t : Nat)
  | remove (t : Nat)
  /-- The next step of `remove_waiter_for_task`. -/
  | cleanup (w : Nat)
  | finish (w : Nat) (expired signal : Bool)
  | wake (key : FutexKey) (limit : Nat) (bitset : BitVec 32)
  | requeue (source target : FutexKey) (wakeLimit requeueLimit : Nat) (countRequeued : Bool)
  /-- `wakeup_front_task` for the next dequeued waiter of a call. -/
  | wakeNext (call : Nat)
  | wakeReturn (call : Nat)

namespace State

/-- A waiter that does not exist yet. -/
def noWaiter : Waiter := ⟨0, 0, 0, .cancelled, .scheduled⟩

open Function

def setPhase (s : State) (w : Nat) (phase : Phase) : State :=
  { s with waiters := update s.waiters w { s.waiters w with phase } }

def setInner (s : State) (t : Nat) (i : TaskInner Nat) : State :=
  { s with inner := update s.inner t i }

/-- The waiters leave their queues: their state and the bucket index of their tasks. -/
def resolve (s : State) (ws : List Nat) (state : WaiterState) : State :=
  { s with
    waiters := fun w => if w ∈ ws then { s.waiters w with state } else s.waiters w
    futexWaitBucket := fun t =>
      if t ∈ ws.map (fun w => (s.waiters w).task) then none else s.futexWaitBucket t }

/-- The assertion of `finish_futex_wait` for each of the waiters. -/
def Owned (s : State) (ws : List Nat) (bucket : Nat) : Prop :=
  ∀ w ∈ ws, s.futexWaitBucket (s.waiters w).task = some bucket

instance (s : State) (ws : List Nat) (bucket : Nat) : Decidable (s.Owned ws bucket) :=
  inferInstanceAs (Decidable (∀ w ∈ ws, _))

/-- The waiters that a call took out, logged and handed to the call. -/
def dequeue (s : State) (ws : List Nat) (moved : Nat) (countRequeued : Bool) : State :=
  { s.resolve ws .woken with
    woken := ws ++ s.woken
    calls := s.calls ++ [⟨ws, 0, moved, countRequeued, false⟩] }

def setBucket (s : State) (b : Nat) (bucket : Bucket) : State :=
  { s with buckets := update s.buckets b bucket }

def wake (s : State) (key : FutexKey) (limit : Nat) (bitset : BitVec 32) : Option State :=
  let bucket := s.buckets (bucketIndex key)
  let r := if limit = 1 then wakeOne s.waiters bitset (bucket.queue key)
    else wakeLoop s.waiters bitset limit (bucket.queue key)
  if s.Owned r.1 (bucketIndex key) then
    some ((s.dequeue r.1 0 false).setBucket (bucketIndex key) (bucket.setQueue key r.2))
  else none

/-- The waiters and their tasks move to the bucket of the target. -/
def insertRequeued (s : State) (target : FutexKey) (moved : List Nat) : State :=
  { s.setBucket (bucketIndex target) ((s.buckets (bucketIndex target)).pushAll target moved) with
    waiters := fun w =>
      if w ∈ moved then { s.waiters w with bucket := bucketIndex target } else s.waiters w
    futexWaitBucket := fun t =>
      if t ∈ moved.map (fun w => (s.waiters w).task) then some (bucketIndex target)
      else s.futexWaitBucket t }

def requeue (s : State) (source target : FutexKey) (wakeLimit requeueLimit : Nat)
    (countRequeued : Bool) : Option State :=
  -- EINVAL
  if source = target then some s
  else
    let bucket := s.buckets (bucketIndex source)
    let r := takeRequeueSource s.waiters wakeLimit requeueLimit (bucket.queue source)
    if s.Owned r.woken (bucketIndex source) ∧
        ∀ w ∈ r.moved, (s.futexWaitBucket (s.waiters w).task).isSome then
      some (((s.dequeue r.woken r.moved.length countRequeued).setBucket (bucketIndex source)
        (bucket.setQueue source r.kept)).insertRequeued target r.moved)
    else none

/-- `block_current_on` under the lock of the bucket. -/
def blockCurrentOn (s : State) (t cpu : Nat) (key : FutexKey) (bitset : BitVec 32) :
    Option State :=
  match (s.inner t).prepareSwitch cpu .block with
  | none => none
  | some i =>
    let b := bucketIndex key
    -- assert: "task entered a second futex wait"
    if s.futexWaitBucket t = none then
      some { (s.setInner t i).setBucket b ((s.buckets b).pushAll key [s.created]) with
        futexWaitBucket := update s.futexWaitBucket t (some b)
        waiters := update s.waiters s.created ⟨t, bitset, b, .queued, .scheduled⟩
        current := update s.current t (some s.created)
        created := s.created + 1 }
    else none

/-- The bucket section of `remove_waiter_for_task`; a waiter that is not there was resolved or
requeued, and the loop starts again. -/
def cleanupSection (s : State) (w b : Nat) : Option State :=
  if (s.waiters w).bucket ≠ b then some (s.setPhase w .loadState)
  else if w ∈ (s.buckets b).waiters then
    if s.Owned [w] b then
      some (((s.setBucket b ((s.buckets b).retain (· ≠ w))).resolve [w] .cancelled).setPhase w
        (.cleaned .stillQueued))
    else none
  else some (s.setPhase w .loadState)

/-- `remove_tasks` for one task: its waiters leave the bucket that the task records. -/
def removeTask (s : State) (t : Nat) : Option State :=
  match s.futexWaitBucket t with
  | none => some s
  | some b =>
    let ws := (s.buckets b).waiters.filter fun w => (s.waiters w).task = t
    some { (s.setBucket b ((s.buckets b).retain fun w => (s.waiters w).task ≠ t)).resolve ws
        .cancelled with
      futexWaitBucket := update s.futexWaitBucket t none }

/-- One step of `remove_waiter_for_task`. -/
def cleanup (s : State) (w : Nat) : Option State :=
  match (s.waiters w).phase with
  | .loadState =>
    match (s.waiters w).state with
    | .woken => some (s.setPhase w (.cleaned .woken))
    | .cancelled => some (s.setPhase w (.cleaned .alreadyUnqueued))
    | .queued => some (s.setPhase w .loadBucket)
  | .loadBucket => some (s.setPhase w (.locking (s.waiters w).bucket))
  | .locking b => s.cleanupSection w b
  | _ => none

/-- `wakeup_front_task` on the task of the next waiter. -/
def wakeNext (s : State) (i : Nat) (call : WakeCall) : Option State :=
  match call.pending with
  | [] => none
  | w :: pending =>
    ((s.inner (s.waiters w).task).wakeupSection true).map fun r =>
      { s.setInner (s.waiters w).task r.1 with
        calls := s.calls.set i
          { call with pending, woken := call.woken + if r.2.answer then 1 else 0 } }

/-- The task runs again; in a futex wait it goes on behind `schedule`. -/
def dispatch (s : State) (t cpu : Nat) : Option State :=
  if (s.inner t).taskStatus = .ready ∧ (s.inner t).onCpu = none then
    let s' := s.setInner t { s.inner t with taskStatus := .running, onCpu := some cpu }
    match s.current t with
    | some w => if (s.waiters w).phase = .scheduled then some (s'.setPhase w .loadState)
      else some s'
    | none => some s'
  else none

def event (s : State) : Event → Option State
  | .wait t cpu key bitset wordMatches expired interrupted =>
    if s.current t ≠ none then none
    -- EAGAIN, ETIMEDOUT, EINTR
    else if !wordMatches || expired || interrupted then some s
    else s.blockCurrentOn t cpu key bitset
  | .finishSwitch t cpu =>
    ((s.inner t).finishSwitch cpu .block).map fun r => s.setInner t r.1
  | .wakeup t source =>
    ((s.inner t).wakeupSection source.front).map fun r => s.setInner t r.1
  | .dispatch t cpu => s.dispatch t cpu
  | .exit t => some (s.setInner t { s.inner t with taskStatus := .exited })
  | .remove t => s.removeTask t
  | .cleanup w => if w < s.created then s.cleanup w else none
  | .finish w expired signal =>
    match (s.waiters w).phase with
    | .cleaned c =>
      let result := waitResult c expired signal
      some { s.setPhase w (.returned result) with
        current := update s.current (s.waiters w).task none
        succeeded := if result = .ok then w :: s.succeeded else s.succeeded }
    | _ => none
  | .wake key limit bitset => s.wake key limit bitset
  | .requeue source target wakeLimit requeueLimit countRequeued =>
    s.requeue source target wakeLimit requeueLimit countRequeued
  | .wakeNext i =>
    match s.calls[i]? with
    | some call => s.wakeNext i call
    | none => none
  | .wakeReturn i =>
    match s.calls[i]? with
    | some call =>
      if call.pending = [] ∧ call.returned = false then
        some { s with calls := s.calls.set i { call with returned := true } }
      else none
    | none => none

/-- No waiter, and the tasks in any scheduling state. -/
def boot (inner : Nat → TaskInner Nat) : State where
  buckets := fun _ => []
  waiters := fun _ => noWaiter
  created := 0
  inner := inner
  futexWaitBucket := fun _ => none
  current := fun _ => none
  calls := []
  woken := []
  succeeded := []

end State

def system : System State Event where
  init s := ∃ inner, s = State.boot inner
  step := State.event

end Whusp.Task.Futex
