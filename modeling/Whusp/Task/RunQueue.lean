import Mathlib.Data.Nat.Bitwise
import Mathlib.Data.Prod.Lex
import Whusp.Lib.Counting
import Whusp.Lib.SortedMap
import Whusp.Task.QueueMarks

/-!
# One CPU's run queue

`TaskManager` of `task/sched.rs`: realtime tasks wait in one bucket for each static
priority, normal tasks in a map ordered by virtual runtime.  The manager also keeps
what can be computed from the buckets, a bitmap of the nonempty ones and the number
of queued tasks, and every queued task is marked with the CPU that holds it.

Every operation runs under the run-queue lock.  `Locked` is what it works on: the
queue and the scheduling state of the tasks.  `none` is a failed `assert!` or
`expect`.  The virtual runtimes and the enqueue sequence are `u64`.
-/

namespace Whusp.Task.RunQueue

open Function Whusp.Lib List Option

universe u v

def RT_PRIORITY_MAX : Nat := 99
def RT_QUEUE_COUNT : Nat := RT_PRIORITY_MAX + 1
def U64_MAX : Nat := 2 ^ 64 - 1

def saturatingAdd (a b : Nat) : Nat := min (a + b) U64_MAX

/-! ## Tasks as the scheduler sees them -/

/-- The scheduling policies that the run queue tells apart. -/
inductive SchedPolicy where
  | other
  | fifo
  | rr

/-- The fields of a task that the run queues read. -/
structure SchedTask (Cpu : Type u) where
  inner : TaskInner Cpu
  schedPolicy : SchedPolicy
  schedPriority : Int
  schedVruntime : Nat
  allowedCpus : Cpu → Bool
  /-- Another thread holds the process for itself: `try_claim_scheduler_task` fails. -/
  excluded : Bool

namespace SchedTask

variable {Cpu : Type u}

def realtimePriority (t : SchedTask Cpu) : Int :=
  match t.schedPolicy with
  | .fifo | .rr => if 0 < t.schedPriority then t.schedPriority else 0
  | .other => 0

def rtPriority (t : SchedTask Cpu) : Nat := (max 0 (min t.realtimePriority RT_PRIORITY_MAX)).toNat

lemma rtPriority_lt (t : SchedTask Cpu) : t.rtPriority < RT_QUEUE_COUNT := by
  unfold rtPriority RT_QUEUE_COUNT RT_PRIORITY_MAX
  omega

def stealCandidateRelevant (t : SchedTask Cpu) (cpu : Cpu) : Bool :=
  t.inner.taskStatus = .exited || t.inner.jobControlStopped ||
    (t.inner.taskStatus = .ready && t.allowedCpus cpu)

def migrateSchedVruntime (t : SchedTask Cpu) (sourceMin targetMin : Nat) : SchedTask Cpu :=
  { t with schedVruntime := saturatingAdd targetMin (t.schedVruntime - sourceMin) }

end SchedTask

/-! ## The queue -/

/-- Virtual runtime, then enqueue sequence. -/
abbrev NormalQueueKey := Nat ×ₗ Nat

structure TaskManager (Cpu : Type u) (Tid : Type v) where
  cpu : Cpu
  normalQueue : SortedMap NormalQueueKey Tid
  normalEnqueueSeq : Nat
  normalMinVruntime : Nat
  rtQueues : Nat → List Tid
  rtReadyBitmap : BitVec 128
  readyCount : Nat

namespace TaskManager

variable {Cpu : Type u} {Tid : Type v}

def new (cpu : Cpu) : TaskManager Cpu Tid where
  cpu := cpu
  normalQueue := .empty
  normalEnqueueSeq := 0
  normalMinVruntime := 0
  rtQueues := fun _ => []
  rtReadyBitmap := 0
  readyCount := 0

def rtPriorityBit (priority : Nat) : BitVec 128 := 1#128 <<< priority

def clearRtPriorityIfEmpty (q : TaskManager Cpu Tid) (priority : Nat) : TaskManager Cpu Tid :=
  if 0 < priority ∧ q.rtQueues priority = [] then
    { q with rtReadyBitmap := q.rtReadyBitmap &&& ~~~rtPriorityBit priority }
  else q

def highestRtPriority (q : TaskManager Cpu Tid) : Option Nat :=
  if q.rtReadyBitmap = 0 then none else some q.rtReadyBitmap.toNat.log2

/-- Remove entry `i` of a realtime bucket, with its count and its bitmap bit. -/
def takeRt (q : TaskManager Cpu Tid) (priority i : Nat) : Option (Tid × TaskManager Cpu Tid) :=
  (q.rtQueues priority)[i]?.map fun t =>
    (t, clearRtPriorityIfEmpty { q with
      rtQueues := update q.rtQueues priority ((q.rtQueues priority).eraseIdx i)
      readyCount := q.readyCount - 1 } priority)

def takeNormal (q : TaskManager Cpu Tid) (key : NormalQueueKey) :
    Option (Tid × TaskManager Cpu Tid) :=
  (q.normalQueue.get? key).map fun t =>
    (t, { q with normalQueue := q.normalQueue.erase key, readyCount := q.readyCount - 1 })

def raiseMinVruntime (q : TaskManager Cpu Tid) (key : NormalQueueKey) : TaskManager Cpu Tid :=
  { q with normalMinVruntime := max q.normalMinVruntime (ofLex key).1 }

/-- The queue without the task, where it held it. -/
def removeReadyTask [DecidableEq Tid] (q : TaskManager Cpu Tid) (t : Tid) :
    Option (TaskManager Cpu Tid) :=
  match q.normalQueue.entries.find? fun e => e.2 = t with
  | some e => (q.takeNormal e.1).map Prod.snd
  | none =>
    ((List.range' 1 RT_PRIORITY_MAX).find? fun p => t ∈ q.rtQueues p).bind fun p =>
      (q.takeRt p ((q.rtQueues p).idxOf t)).map Prod.snd

def members (q : TaskManager Cpu Tid) : List Tid :=
  (List.range RT_QUEUE_COUNT).flatMap q.rtQueues ++ q.normalQueue.entries.map Prod.snd

end TaskManager

/-! ## Operations under the run-queue lock -/

/-- A run queue and the tasks, under the run-queue lock. -/
structure Locked (Cpu : Type u) (Tid : Type v) where
  tasks : Tid → SchedTask Cpu
  queue : TaskManager Cpu Tid

/-- Replace the task-lock fields of one task. -/
def setInner {Cpu : Type u} {Tid : Type v} [DecidableEq Tid] (tasks : Tid → SchedTask Cpu)
    (t : Tid) (i : TaskInner Cpu) : Tid → SchedTask Cpu :=
  update tasks t { tasks t with inner := i }

namespace Locked

variable {Cpu : Type u} {Tid : Type v} [DecidableEq Cpu] [DecidableEq Tid]

def enqueue (w : Locked Cpu Tid) (t : Tid) (front : Bool) : Locked Cpu Tid :=
  let p := (w.tasks t).rtPriority
  if 0 < p then
    { w with queue := { w.queue with
        rtReadyBitmap := w.queue.rtReadyBitmap ||| TaskManager.rtPriorityBit p
        rtQueues := update w.queue.rtQueues p
          (if front then t :: w.queue.rtQueues p else w.queue.rtQueues p ++ [t])
        readyCount := w.queue.readyCount + 1 } }
  else
    -- floor_sched_vruntime also raises the task's own virtual runtime
    let floor := max (w.tasks t).schedVruntime w.queue.normalMinVruntime
    let vruntime := if front then w.queue.normalMinVruntime - 1 else floor
    let seq := (w.queue.normalEnqueueSeq + 1) % 2 ^ 64
    let key : NormalQueueKey := toLex (vruntime, seq)
    { tasks :=
        if front then w.tasks
        else update w.tasks t { w.tasks t with schedVruntime := floor }
      queue := { w.queue with
        normalEnqueueSeq := seq
        normalQueue := w.queue.normalQueue.insert key t
        readyCount :=
          if (w.queue.normalQueue.get? key).isNone then w.queue.readyCount + 1
          else w.queue.readyCount } }

/-- The body of `add` and `add_front`. -/
def addAt (w : Locked Cpu Tid) (t : Tid) (front : Bool) : Option (Locked Cpu Tid) :=
  ((w.tasks t).inner.markQueuedOn w.queue.cpu).map fun r =>
    let w' := { w with tasks := setInner w.tasks t r.1 }
    if r.2 then w'.enqueue t front else w'

def add (w : Locked Cpu Tid) (t : Tid) : Option (Locked Cpu Tid) := w.addAt t false

def addFront (w : Locked Cpu Tid) (t : Tid) : Option (Locked Cpu Tid) := w.addAt t true

/-- The task of a stale or retargeted node is left to the caller. -/
def addRemote (w : Locked Cpu Tid) (t : Tid) (front : Bool) :
    Option (Locked Cpu Tid × RemoteEnqueueResult) :=
  ((w.tasks t).inner.addRemote w.queue.cpu ((w.tasks t).allowedCpus w.queue.cpu)).map fun r =>
    let w' := { w with tasks := setInner w.tasks t r.1 }
    (if r.2 = .enqueued then w'.enqueue t front else w', r.2)

def clearQueued (w : Locked Cpu Tid) (t : Tid) : Option (Locked Cpu Tid) :=
  (w.tasks t).inner.clearQueued.map fun i => { w with tasks := setInner w.tasks t i }

def claimForCpu (w : Locked Cpu Tid) (t : Tid) (cpu : Cpu) :
    Option (Locked Cpu Tid × ClaimResult) :=
  ((w.tasks t).inner.claimForCpu w.queue.cpu cpu
    ((w.tasks t).allowedCpus cpu && !(w.tasks t).excluded)).map fun r =>
      ({ w with tasks := setInner w.tasks t r.1 }, r.2)

/-- What one round of a `fetch` loop did with the task it popped. -/
inductive Round (Cpu : Type u) (Tid : Type v) where
  | claimed (w : Locked Cpu Tid)
  /-- The task had exited: the loop goes on at once. -/
  | pruned (w : Locked Cpu Tid)
  /-- The task is not for this CPU now: the loop goes on unless the budget is spent. -/
  | passed (w : Locked Cpu Tid)
  /-- The task moved to a realtime bucket: the outer loop starts again. -/
  | moved (w : Locked Cpu Tid)

/-- The claim at the end of a round; an ineligible task goes back to its queue. -/
def claimRound (w : Locked Cpu Tid) (t : Tid) (cpu : Cpu) : Option (Round Cpu Tid) :=
  (w.claimForCpu t cpu).map fun r =>
    match r.2 with
    | .claimed => .claimed r.1
    | .ineligible => .passed (r.1.enqueue t false)
    | .stopped | .exited => .passed r.1

/-- A round of the realtime loop, after the task left bucket `priority`. -/
def rtRound (w : Locked Cpu Tid) (t : Tid) (priority : Nat) (cpu : Cpu) :
    Option (Round Cpu Tid) :=
  if (w.tasks t).inner.taskStatus = .exited then (w.clearQueued t).map .pruned
  else if (w.tasks t).rtPriority = priority then w.claimRound t cpu
  -- a policy update had left the task in its old bucket
  else some (.passed (w.enqueue t false))

/-- A round of the normal loop, after the task left the normal queue. -/
def normalRound (w : Locked Cpu Tid) (t : Tid) (cpu : Cpu) : Option (Round Cpu Tid) :=
  if (w.tasks t).inner.taskStatus = .exited then (w.clearQueued t).map .pruned
  else if 0 < (w.tasks t).rtPriority then some (.moved (w.enqueue t false))
  else w.claimRound t cpu

/-- The loops of `fetch`, for a number of rounds: `none` if they do not suffice, `some none` for a
failed assertion, and otherwise what the loops leave.  `normal` tells the loop over the normal queue
from the one over the realtime buckets. -/
def fetchLoop (cpu : Cpu) : Nat → (normal : Bool) → (remaining : Nat) → Locked Cpu Tid →
    Option (Option (Locked Cpu Tid × Option Tid))
  | 0, _, _, _ => none
  | fuel + 1, false, remaining, w =>
    match w.queue.highestRtPriority with
    | none => fetchLoop cpu fuel true remaining w
    | some p =>
      match w.queue.takeRt p 0 with
      | none =>
        fetchLoop cpu fuel false remaining { w with queue := w.queue.clearRtPriorityIfEmpty p }
      | some (t, q) =>
        (rtRound { w with queue := q } t p cpu).elim (some none) fun
          | .claimed w' => some (some (w', some t))
          | .pruned w' => fetchLoop cpu fuel false (remaining - 1) w'
          | .passed w' | .moved w' =>
            if remaining - 1 = 0 then some (some (w', none))
            else fetchLoop cpu fuel false (remaining - 1) w'
  | fuel + 1, true, remaining, w =>
    match w.queue.normalQueue.entries with
    | [] => some (some (w, none))
    | (key, _) :: _ =>
      match w.queue.takeNormal key with
      | none => some none
      | some (t, q) =>
        (normalRound { w with queue := q.raiseMinVruntime key } t cpu).elim (some none) fun
          | .claimed w' => some (some (w', some t))
          | .pruned w' => fetchLoop cpu fuel true (remaining - 1) w'
          | .passed w' =>
            if remaining - 1 = 0 then some (some (w', none))
            else fetchLoop cpu fuel true (remaining - 1) w'
          | .moved w' =>
            if remaining - 1 = 0 then some (some (w', none))
            else fetchLoop cpu fuel false (remaining - 1) w'

/-- The rounds suffice for every queue in order, so the default is never taken there. -/
def fetch (w : Locked Cpu Tid) (cpu : Cpu) : Option (Locked Cpu Tid × Option Tid) :=
  if w.queue.readyCount = 0 then some (w, none)
  else (fetchLoop cpu (4 * w.queue.readyCount + 2) false w.queue.readyCount w).getD none

/-! ### Stealing -/

/-- Look at up to `budget` elements for the first relevant one; the rest of the
budget is returned. -/
def scan {α : Type v} (relevant : α → Bool) : Nat → List α → Option α × Nat
  | 0, _ => (none, 0)
  | budget, [] => (none, budget)
  | budget + 1, a :: l => if relevant a then (some a, budget) else scan relevant budget l

/-- `QueueSlot` of `steal_one_for_cpu`. -/
inductive QueueSlot where
  | realtime (priority index : Nat)
  | normal (key : NormalQueueKey) (wasFirst : Bool)

/-- The realtime entries from the highest bucket down, each with its place. -/
def rtSlots (q : TaskManager Cpu Tid) : List (Nat × Nat × Tid) :=
  (List.range' 1 RT_PRIORITY_MAX).reverse.flatMap fun p =>
    (q.rtQueues p).zipIdx.map fun e => (p, e.2, e.1)

/-- The slot that a round of `steal_one_for_cpu` selects. -/
def stealSlot (w : Locked Cpu Tid) (cpu : Cpu) (budget : Nat) : Option QueueSlot × Nat :=
  match scan (fun e => (w.tasks e.2.2).stealCandidateRelevant cpu) budget (rtSlots w.queue) with
  | (some e, left) => (some (.realtime e.1 e.2.1), left)
  | (none, 0) => (none, 0)
  | (none, left + 1) =>
    let entries := w.queue.normalQueue.entries
    match scan (fun e => (w.tasks e.2).stealCandidateRelevant cpu) (left + 1) entries with
    | (some e, left') => (some (.normal e.1 (entries.head?.map Prod.fst = some e.1)), left')
    | (none, left') => (none, left')

/-- Take the task out of the selected slot, with the realtime priority it should
have. -/
def takeSlot (q : TaskManager Cpu Tid) : QueueSlot →
    Option (Tid × TaskManager Cpu Tid × Option Nat)
  | .realtime priority index => (q.takeRt priority index).map fun r => (r.1, r.2, some priority)
  | .normal key wasFirst =>
    (q.takeNormal key).map fun r =>
      (r.1, if wasFirst then r.2.raiseMinVruntime key else r.2, none)

/-- The loop of `steal_one_for_cpu`. -/
def stealOneLoop (cpu : Cpu) : Nat → (budget : Nat) → Locked Cpu Tid →
    Option (Locked Cpu Tid × Option Tid × Nat)
  | 0, budget, w => some (w, none, budget)
  | _, 0, w => some (w, none, 0)
  | fuel + 1, budget + 1, w =>
    match w.stealSlot cpu (budget + 1) with
    | (none, left) => some (w, none, left)
    | (some slot, left) =>
      match takeSlot w.queue slot with
      | none => none
      | some (t, q, expected) =>
        let w' := { w with queue := q }
        if expected.getD 0 ≠ (w.tasks t).rtPriority then
          stealOneLoop cpu fuel left (w'.enqueue t false)
        else
          (w'.claimForCpu t cpu).bind fun r =>
            match r.2 with
            | .claimed => some (r.1, some t, left)
            | .ineligible => some (r.1.enqueue t false, none, left)
            | .stopped | .exited => stealOneLoop cpu fuel left r.1

/-- `steal_one_for_cpu`. -/
def stealOne (w : Locked Cpu Tid) (cpu : Cpu) (budget : Nat) :
    Option (Locked Cpu Tid × Option Tid × Nat) :=
  stealOneLoop cpu budget budget w

end Locked

/-! ## The invariant -/

variable {Cpu : Type u} {Tid : Type v}

/-- The mark of a task that the run queue of `cpu` holds. -/
structure Marked (cpu : Cpu) (i : TaskInner Cpu) : Prop where
  onRq : i.onRq = true
  queuedCpu : i.queuedCpu = some cpu
  onCpu : i.onCpu = none
  status : i.taskStatus = .ready ∨ i.taskStatus = .exited

/-- The redundant parts of a queue agree with its buckets. -/
structure Wf (q : TaskManager Cpu Tid) : Prop where
  /-- Bucket 0 is never used. -/
  rtZero : q.rtQueues 0 = []
  /-- There are `RT_QUEUE_COUNT` buckets. -/
  rtBeyond : ∀ p, RT_QUEUE_COUNT ≤ p → q.rtQueues p = []
  bitmap : ∀ p, q.rtReadyBitmap.getLsbD p = true ↔ q.rtQueues p ≠ []
  count : q.readyCount = q.members.length

/-- A queue whose parts agree and whose tasks are each there once, with their mark. -/
structure Ok (tasks : Tid → SchedTask Cpu) (q : TaskManager Cpu Tid) : Prop where
  wf : Wf q
  nodup : q.members.Nodup
  marked : ∀ t ∈ q.members, Marked q.cpu (tasks t).inner

/-- The tasks on a run queue of another CPU than those in `cpus` are untouched. -/
def Frame (cpus : List Cpu) (tasks tasks' : Tid → SchedTask Cpu) : Prop :=
  ∀ t, (tasks t).inner.onRq = true → (∀ c ∈ cpus, (tasks t).inner.queuedCpu ≠ some c) →
    (tasks' t).inner = (tasks t).inner

structure Taken (q : TaskManager Cpu Tid) (t : Tid) (q' : TaskManager Cpu Tid) : Prop where
  wf : Wf q'
  perm : q.members.Perm (t :: q'.members)
  cpu : q'.cpu = q.cpu

lemma Frame.refl (cpus : List Cpu) (tasks : Tid → SchedTask Cpu) : Frame cpus tasks tasks :=
  fun _ _ _ => rfl

variable {cpus : List Cpu} {tasks tasks' : Tid → SchedTask Cpu}

lemma Frame.of_inner (h : ∀ t, (tasks' t).inner = (tasks t).inner) : Frame cpus tasks tasks' :=
  fun t _ _ => h t

lemma Frame.trans {tasks'' : Tid → SchedTask Cpu} (h : Frame cpus tasks tasks')
    (h' : Frame cpus tasks' tasks'') : Frame cpus tasks tasks'' := by
  intro t hq hc
  have heq := h t hq hc
  rw [h' t (heq ▸ hq) (heq ▸ hc), heq]

lemma Frame.mono {cpus' : List Cpu} (h : Frame cpus tasks tasks') (hsub : cpus ⊆ cpus') :
    Frame cpus' tasks tasks' :=
  fun t hq hc => h t hq fun c hcm => hc c (hsub hcm)

variable {q q' : TaskManager Cpu Tid}

/-- A queue of another CPU does not see the change. -/
lemma Ok.frame (h : Ok tasks q) (hf : Frame cpus tasks tasks') (hcpu : q.cpu ∉ cpus) :
    Ok tasks' q := by
  refine { h with marked := ?_ }
  intro t ht
  have hm := h.marked t ht
  rw [hf t hm.onRq]
  · exact hm
  · intro c hc heq
    rw [hm.queuedCpu, some.injEq] at heq
    exact hcpu (heq ▸ hc)

/-- A queue does not see a change that leaves the task-lock fields as they are. -/
lemma Ok.of_inner (h : Ok tasks q) (hsame : ∀ t, (tasks' t).inner = (tasks t).inner) :
    Ok tasks' q :=
  ⟨h.wf, h.nodup, fun t ht => hsame t ▸ h.marked t ht⟩

open TaskManager

open SortedMap

lemma members_new (cpu : Cpu) : (TaskManager.new cpu : TaskManager Cpu Tid).members = [] := by
  simp [new, members, empty]

lemma Ok.new (tasks : Tid → SchedTask Cpu) (cpu : Cpu) : Ok tasks (.new cpu) where
  wf :=
    { rtZero := rfl
      rtBeyond := fun _ _ => rfl
      bitmap := fun p => by simp [TaskManager.new]
      count := by
        rfl }
  nodup := by simp [members_new]
  marked := by simp [members_new]

/-! ## Taking a task out -/

variable {p : Nat}

lemma getLsbD_rtPriorityBit {n : Nat} (hp : p < RT_QUEUE_COUNT) :
    (TaskManager.rtPriorityBit p).getLsbD n = decide (n = p) := by
  have hp' : p < 128 := by
    unfold RT_QUEUE_COUNT RT_PRIORITY_MAX at hp
    omega
  unfold rtPriorityBit
  rcases eq_or_ne n p with rfl | h
  · simp [hp']
  · by_cases hlt : n < p
    · simp [hlt, h]
    · have : n - p ≠ 0 := by omega
      simp [hlt, h, BitVec.getLsbD_one, this]

/-- Clearing the bit of an empty bucket, where the bucket just lost a task. -/
lemma wf_clearRtPriorityIfEmpty (hp : 0 < p) (hlt : p < RT_QUEUE_COUNT)
    (hzero : q.rtQueues 0 = []) (hbeyond : ∀ n, RT_QUEUE_COUNT ≤ n → q.rtQueues n = [])
    (hother : ∀ n, n ≠ p → (q.rtReadyBitmap.getLsbD n = true ↔ q.rtQueues n ≠ []))
    (hset : q.rtReadyBitmap.getLsbD p = true) (hcount : q.readyCount = q.members.length) :
    Wf (q.clearRtPriorityIfEmpty p) := by
  unfold clearRtPriorityIfEmpty
  split
  next hempty =>
    refine ⟨hzero, hbeyond, fun n => ?_, hcount⟩
    simp only [BitVec.getLsbD_and, BitVec.getLsbD_not, getLsbD_rtPriorityBit hlt]
    rcases eq_or_ne n p with rfl | hne
    · simp [hempty.2]
    have hbit := hother n hne
    have hn : q.rtReadyBitmap.getLsbD n = true → n < 128 := BitVec.lt_of_getLsbD
    simp only [hne, decide_false, Bool.not_false, Bool.and_true, Bool.and_eq_true,
      decide_eq_true_eq]
    exact ⟨fun h => hbit.mp h.1, fun h => ⟨hbit.mpr h, hn (hbit.mpr h)⟩⟩
  next hfull =>
    refine ⟨hzero, hbeyond, fun n => ?_, hcount⟩
    rcases eq_or_ne n p with rfl | hne
    · have : q.rtQueues n ≠ [] := fun h => hfull ⟨hp, h⟩
      simp [hset, this]
    · exact hother n hne

lemma members_clearRtPriorityIfEmpty (q : TaskManager Cpu Tid) (p : Nat) :
    (q.clearRtPriorityIfEmpty p).members = q.members := by
  unfold clearRtPriorityIfEmpty
  split <;> rfl

lemma cpu_clearRtPriorityIfEmpty (q : TaskManager Cpu Tid) (p : Nat) :
    (q.clearRtPriorityIfEmpty p).cpu = q.cpu := by
  unfold clearRtPriorityIfEmpty
  split <;> rfl

/-- The buckets that are used lie between 1 and `RT_PRIORITY_MAX`. -/
lemma Wf.bucket (h : Wf q) (hne : q.rtQueues p ≠ []) : 0 < p ∧ p < RT_QUEUE_COUNT := by
  constructor
  · apply Nat.pos_of_ne_zero
    rintro rfl
    exact hne h.rtZero
  · by_contra hlt
    exact hne (h.rtBeyond p (not_lt.mp hlt))

variable {t : Tid}

open Prod

lemma Wf.takeRt {i : Nat} (h : Wf q) (ht : q.takeRt p i = some (t, q')) : Taken q t q' := by
  obtain ⟨t', hi, ⟨⟩⟩ := map_eq_some_iff.mp ht
  obtain ⟨hlt, hget⟩ := List.getElem?_eq_some_iff.mp hi
  have hne : q.rtQueues p ≠ [] := ne_nil_of_length_pos (by omega)
  obtain ⟨hp, hp'⟩ := h.bucket hne
  have hbucket : (q.rtQueues p).Perm ([t] ++ (q.rtQueues p).eraseIdx i) := by
    rw [← hget]
    exact (getElem_cons_eraseIdx_perm hlt).symm
  -- putting the task back into the bucket gives the old buckets
  have hback : update (update q.rtQueues p ((q.rtQueues p).eraseIdx i)) p
      (q.rtQueues p) = q.rtQueues := by simp
  have hperm : ((List.range RT_QUEUE_COUNT).flatMap q.rtQueues).Perm ([t] ++
      (List.range RT_QUEUE_COUNT).flatMap
        (update q.rtQueues p ((q.rtQueues p).eraseIdx i))) := by
    nth_rewrite 1 [← hback]
    apply flatMap_update_perm nodup_range (mem_range.mpr hp')
    rwa [update_self]
  have hmem := hperm.append_right (q.normalQueue.entries.map snd)
  refine ⟨wf_clearRtPriorityIfEmpty hp hp' ?_ ?_ ?_ ?_ ?_, ?_, ?_⟩
  · dsimp only
    rw [update_of_ne hp.ne]
    exact h.rtZero
  · intro n hn
    dsimp only
    rw [update_of_ne (by omega)]
    exact h.rtBeyond n hn
  · intro n hn
    dsimp only
    rw [update_of_ne hn]
    exact h.bitmap n
  · exact (h.bitmap p).mpr hne
  · have hlen := hmem.length_eq
    rw [show q.readyCount = q.members.length from h.count]
    unfold members
    rw [hlen]
    simp
  · rw [members_clearRtPriorityIfEmpty]
    exact hmem
  · exact cpu_clearRtPriorityIfEmpty _ _

lemma Wf.takeNormal {key : NormalQueueKey} (h : Wf q) (ht : q.takeNormal key = some (t, q')) :
    Taken q t q' := by
  obtain ⟨t', hget, ⟨⟩⟩ := map_eq_some_iff.mp ht
  have hperm := entries_perm_of_mem (get?_eq_some_iff.mp hget)
  have hmem : q.members.Perm (t :: ((List.range RT_QUEUE_COUNT).flatMap q.rtQueues ++
      (q.normalQueue.erase key).entries.map snd)) := by
    apply ((hperm.map snd).append_left _).trans
    simp
  refine ⟨{ h with count := ?_ }, hmem, rfl⟩
  have hlen := hmem.length_eq
  rw [← h.count, length_cons] at hlen
  rw [hlen]
  rfl

lemma Taken.raiseMinVruntime (h : Taken q t q') (key : NormalQueueKey) :
    Taken q t (q'.raiseMinVruntime key) :=
  ⟨{ h.wf with }, h.perm, h.cpu⟩

lemma Wf.removeReadyTask [DecidableEq Tid] (h : Wf q) (ht : q.removeReadyTask t = some q') :
    Taken q t q' := by
  unfold TaskManager.removeReadyTask at ht
  split at ht
  next e he =>
    obtain ⟨⟨t', q₁⟩, htake, rfl⟩ := map_eq_some_iff.mp ht
    have hmem := mem_of_find?_eq_some he
    have hval : e.2 = t := by simpa using find?_some he
    have hget : q.normalQueue.get? e.1 = some t :=
      get?_eq_some_iff.mpr (hval ▸ hmem)
    obtain ⟨t'', hget', heq⟩ := map_eq_some_iff.mp htake
    obtain rfl : t = t'' := by simpa [hget] using hget'
    obtain rfl : t = t' := congrArg fst heq
    exact h.takeNormal htake
  · obtain ⟨p, hp, ht⟩ := bind_eq_some_iff.mp ht
    obtain ⟨⟨t', q₁⟩, htake, rfl⟩ := map_eq_some_iff.mp ht
    have hmem : t ∈ q.rtQueues p := by simpa using find?_some hp
    obtain ⟨t'', hget, heq⟩ := map_eq_some_iff.mp htake
    have hidx : (q.rtQueues p)[(q.rtQueues p).idxOf t]? = some t :=
      getElem?_idxOf hmem
    obtain rfl : t = t'' := by simpa [hidx] using hget
    obtain rfl : t = t' := congrArg fst heq
    exact h.takeRt htake

lemma Ok.taken (h : Ok tasks q) (ht : Taken q t q') :
    Ok tasks q' ∧ t ∉ q'.members ∧ Marked q'.cpu (tasks t).inner := by
  have hnd : (t :: q'.members).Nodup := ht.perm.nodup_iff.mp h.nodup
  obtain ⟨hfresh, hnd⟩ := nodup_cons.mp hnd
  refine ⟨⟨ht.wf, hnd, fun x hx => ?_⟩, hfresh, ?_⟩
  · rw [ht.cpu]
    exact h.marked x (ht.perm.mem_iff.mpr (mem_cons_of_mem _ hx))
  · rw [ht.cpu]
    exact h.marked t (ht.perm.mem_iff.mpr mem_cons_self)

/-- Giving up the mark of a task that the queue no longer holds. -/
theorem Ok.setInner [DecidableEq Tid] (h : Ok tasks q) (ht : t ∉ q.members) (i : TaskInner Cpu) :
    Ok (setInner tasks t i) q := by
  refine { h with marked := ?_ }
  intro x hx
  unfold RunQueue.setInner
  rw [update_of_ne (fun he : x = t => ht (he ▸ hx))]
  exact h.marked x hx

/-! ## Putting a task in -/

/-- A queue into which one task was put.  A normal entry with the same key, which
needs 2⁶⁴ enqueues in between, would be replaced. -/
structure Put (q : TaskManager Cpu Tid) (t : Tid) (q' : TaskManager Cpu Tid) : Prop where
  wf : Wf q'
  perm : ∃ rest, q'.members.Perm (t :: rest) ∧ rest.Sublist q.members
  cpu : q'.cpu = q.cpu

section Enqueue

variable [DecidableEq Tid]
variable {w : Locked Cpu Tid}

theorem Wf.enqueue (h : Wf w.queue) (t : Tid) (front : Bool) :
    Put w.queue t (w.enqueue t front).queue := by
  unfold Locked.enqueue
  have hlt := (w.tasks t).rtPriority_lt
  generalize (w.tasks t).rtPriority = p at hlt
  dsimp only
  split
  next hp =>
    -- a realtime bucket gains the task at one end
    have hbucket : (if front then t :: w.queue.rtQueues p else w.queue.rtQueues p ++ [t]).Perm
        ([t] ++ w.queue.rtQueues p) := by
      cases front with
      | true => exact List.Perm.refl _
      | false => exact perm_append_comm
    have hmem := (flatMap_update_perm nodup_range (mem_range.mpr hlt)
      hbucket).append_right (w.queue.normalQueue.entries.map snd)
    have hne : (if front then t :: w.queue.rtQueues p else w.queue.rtQueues p ++ [t]) ≠ [] := by
      cases front <;> simp
    refine ⟨⟨?_, fun n hn => ?_, fun n => ?_, ?_⟩, ⟨w.queue.members, hmem, List.Sublist.refl _⟩,
      rfl⟩
    · dsimp only
      rw [update_of_ne hp.ne]
      exact h.rtZero
    · dsimp only
      rw [update_of_ne (by omega)]
      exact h.rtBeyond n hn
    · rw [BitVec.getLsbD_or, getLsbD_rtPriorityBit hlt, Bool.or_eq_true, decide_eq_true_eq]
      rcases eq_or_ne n p with rfl | hnp
      · simp [hne]
      · simpa [hnp] using h.bitmap n
    · have hlen := hmem.length_eq
      rw [h.count]
      exact hlen.symm
  · -- the normal queue gains an entry under a fresh key
    generalize (toLex (_, _) : NormalQueueKey) = key
    have hperm := entries_insert_perm (m := w.queue.normalQueue) (k := key) (v := t)
    have hmem := ((hperm.map snd).append_left
      ((List.range RT_QUEUE_COUNT).flatMap w.queue.rtQueues)).trans perm_middle
    have hsub : ((w.queue.normalQueue.erase key).entries.map snd).Sublist
        (w.queue.normalQueue.entries.map snd) := (filter_sublist).map _
    refine ⟨{ h with count := ?_ }, ⟨_, hmem, hsub.append_left _⟩, rfl⟩
    refine Eq.trans ?_ hmem.length_eq.symm
    rw [h.count, length_cons, length_append, length_map, members,
      length_append, length_map]
    cases hget : w.queue.normalQueue.get? key with
    | none =>
      rw [erase_eq_self (get?_eq_none_iff.mp hget)]
      rfl
    | some v =>
      rw [(entries_perm_of_mem (get?_eq_some_iff.mp hget)).length_eq]
      rfl

/-- Enqueueing changes no task-lock field. -/
lemma inner_enqueue (w : Locked Cpu Tid) (t : Tid) (front : Bool) (x : Tid) :
    ((w.enqueue t front).tasks x).inner = (w.tasks x).inner := by
  unfold Locked.enqueue
  dsimp only
  split
  · rfl
  dsimp only
  split
  · rfl
  · rcases eq_or_ne x t with rfl | hne
    · simp
    · rw [update_of_ne hne]

/-- A marked task that the queue does not hold goes in. -/
theorem Ok.enqueue (h : Ok w.tasks w.queue) (hfresh : t ∉ w.queue.members)
    (hm : Marked w.queue.cpu (w.tasks t).inner) (front : Bool) :
    Ok (w.enqueue t front).tasks (w.enqueue t front).queue := by
  obtain ⟨wf, ⟨rest, hperm, hsub⟩, hcpu⟩ := h.wf.enqueue t front
  refine ⟨wf, ?_, fun x hx => ?_⟩
  · rw [hperm.nodup_iff, nodup_cons]
    exact ⟨fun ht => hfresh (hsub.subset ht), hsub.nodup h.nodup⟩
  · rw [inner_enqueue, hcpu]
    rcases mem_cons.mp (hperm.mem_iff.mp hx) with rfl | hx
    · exact hm
    · exact h.marked x (hsub.subset hx)

end Enqueue

/-! ## Rounds of the loops -/

/-- An operation kept its queue in order and touched no task of another queue. -/
structure Kept (w w' : Locked Cpu Tid) : Prop where
  ok : Ok w'.tasks w'.queue
  frame : Frame [w.queue.cpu] w.tasks w'.tasks
  cpu : w'.queue.cpu = w.queue.cpu

variable {w : Locked Cpu Tid}

lemma Kept.refl (h : Ok w.tasks w.queue) : Kept w w :=
  ⟨h, .refl _ _, rfl⟩

lemma Kept.trans {w' w'' : Locked Cpu Tid} (h : Kept w w') (h' : Kept w' w'') : Kept w w'' :=
  ⟨h'.ok, h.frame.trans (h.cpu ▸ h'.frame), h'.cpu.trans h.cpu⟩

variable [DecidableEq Tid]

lemma setInner_self (tasks : Tid → SchedTask Cpu) (t : Tid) :
    setInner tasks t (tasks t).inner = tasks :=
  update_eq_self t tasks

/-- The task-lock fields of a task that is marked for `cpu` may change. -/
theorem Frame.setInner {cpu : Cpu} (h : Marked cpu (tasks t).inner) (i : TaskInner Cpu) :
    Frame [cpu] tasks (setInner tasks t i) := by
  intro x _ hx
  have hne : x ≠ t := by
    rintro rfl
    exact hx cpu mem_cons_self h.queuedCpu
  unfold RunQueue.setInner
  rw [update_of_ne hne]

section Taken

variable {w : Locked Cpu Tid} {q : TaskManager Cpu Tid} {t : Tid}

section

variable (ht : Taken w.queue t q) (h : Ok w.tasks w.queue)
include ht h

/-- A task that was taken out may go back in. -/
theorem Taken.enqueue (front : Bool) :
    Kept w (Locked.enqueue ⟨w.tasks, q⟩ t front) := by
  obtain ⟨hok, hfresh, hm⟩ := h.taken ht
  refine ⟨Ok.enqueue (w := ⟨w.tasks, q⟩) hok hfresh hm front, .of_inner fun x => ?_, ?_⟩
  · exact inner_enqueue _ _ _ x
  · exact (hok.wf.enqueue (w := ⟨w.tasks, q⟩) t front).cpu.trans ht.cpu

/-- A task that was taken out may lose its mark. -/
theorem Taken.setInner (i : TaskInner Cpu) :
    Kept w ⟨setInner w.tasks t i, q⟩ := by
  obtain ⟨hok, hfresh, hm⟩ := h.taken ht
  exact ⟨hok.setInner hfresh i, Frame.setInner (ht.cpu ▸ hm) i, ht.cpu⟩

end

omit [DecidableEq Tid] in
lemma Taken.length (ht : Taken w.queue t q) : q.members.length < w.queue.members.length := by
  rw [ht.perm.length_eq]
  simp

/-- Putting the task back leaves no more tasks than there were. -/
lemma Taken.length_enqueue (ht : Taken w.queue t q) (front : Bool) :
    (Locked.enqueue ⟨w.tasks, q⟩ t front).queue.members.length ≤ w.queue.members.length := by
  obtain ⟨-, ⟨rest, hperm, hsub⟩, -⟩ := Wf.enqueue (w := ⟨w.tasks, q⟩) ht.wf t front
  rw [hperm.length_eq, ht.perm.length_eq]
  exact Nat.succ_le_succ hsub.length_le

end Taken

namespace Locked.Round

def state : Round Cpu Tid → Locked Cpu Tid
  | .claimed w => w
  | .pruned w => w
  | .passed w => w
  | .moved w => w

end Locked.Round

/-- What a round did to the state before its task was popped. -/
structure RoundOk (w : Locked Cpu Tid) (r : Locked.Round Cpu Tid) : Prop where
  kept : Kept w r.state
  length : r.state.queue.members.length ≤ w.queue.members.length
  /-- A pruned task does not come back. -/
  pruned : ∀ w', r = .pruned w' → w'.queue.members.length < w.queue.members.length

section Rounds

variable [DecidableEq Cpu] {w : Locked Cpu Tid} {q : TaskManager Cpu Tid} {t : Tid} {cpu : Cpu}

/-- What `claim_for_cpu` does to a task that was taken out of the queue. -/
lemma Taken.claimForCpu {r : Locked Cpu Tid × ClaimResult} (ht : Taken w.queue t q)
    (h : Ok w.tasks w.queue)
    (hr : Locked.claimForCpu ⟨w.tasks, q⟩ t cpu = some r) :
    Kept w r.1 ∧ r.1.queue = q ∧ (r.2 = .ineligible → r.1 = ⟨w.tasks, q⟩) := by
  obtain ⟨⟨i, c⟩, hi, rfl⟩ := map_eq_some_iff.mp hr
  refine ⟨ht.setInner h i, rfl, ?_⟩
  rintro rfl
  obtain ⟨-, ⟨⟨hres, -⟩ | ⟨hres, -⟩, -⟩ | ⟨-, -, -, -, ⟨-, rfl⟩ | ⟨hres, -⟩⟩⟩ :=
    TaskInner.claimForCpu_eq_some hi
  · cases hres
  · cases hres
  · exact congrArg (Locked.mk · q) (setInner_self w.tasks t)
  · cases hres

variable {r : Locked.Round Cpu Tid}

omit [DecidableEq Cpu] in
lemma Taken.clearQueued (ht : Taken w.queue t q) (h : Ok w.tasks w.queue)
    (hr : (Locked.clearQueued ⟨w.tasks, q⟩ t).map .pruned = some r) : RoundOk w r := by
  obtain ⟨w', hw', rfl⟩ := map_eq_some_iff.mp hr
  obtain ⟨i, -, rfl⟩ := map_eq_some_iff.mp hw'
  refine ⟨ht.setInner h i, ht.length.le, ?_⟩
  rintro _ ⟨⟩
  exact ht.length

omit [DecidableEq Cpu] in
lemma Taken.put_back (ht : Taken w.queue t q) (h : Ok w.tasks w.queue) :
    RoundOk w (.passed (Locked.enqueue ⟨w.tasks, q⟩ t false)) ∧
      RoundOk w (.moved (Locked.enqueue ⟨w.tasks, q⟩ t false)) :=
  ⟨⟨ht.enqueue h false, ht.length_enqueue false, nofun⟩,
    ⟨ht.enqueue h false, ht.length_enqueue false, nofun⟩⟩

section

variable (ht : Taken w.queue t q) (h : Ok w.tasks w.queue)
include ht h

lemma Taken.claimRound
    (hr : Locked.claimRound ⟨w.tasks, q⟩ t cpu = some r) : RoundOk w r := by
  obtain ⟨⟨w', c⟩, hc, rfl⟩ := map_eq_some_iff.mp hr
  obtain ⟨hkept, hq, hsame⟩ := ht.claimForCpu h hc
  have hlen : w'.queue.members.length ≤ w.queue.members.length := by
    rw [show w'.queue = q from hq]
    exact ht.length.le
  cases c with
  | claimed | stopped | exited => exact ⟨hkept, hlen, nofun⟩
  | ineligible =>
    rw [show w' = _ from hsame rfl]
    exact (ht.put_back h).1

lemma Taken.rtRound
    (hr : Locked.rtRound ⟨w.tasks, q⟩ t p cpu = some r) : RoundOk w r := by
  unfold Locked.rtRound at hr
  split at hr
  · exact ht.clearQueued h hr
  split at hr
  · exact ht.claimRound h hr
  · cases hr
    exact (ht.put_back h).1

lemma Taken.normalRound
    (hr : Locked.normalRound ⟨w.tasks, q⟩ t cpu = some r) : RoundOk w r := by
  unfold Locked.normalRound at hr
  split at hr
  · exact ht.clearQueued h hr
  split at hr
  · cases hr
    exact (ht.put_back h).2
  · exact ht.claimRound h hr

end

end Rounds

/-! ## The loops -/

section Loops

variable [DecidableEq Cpu] {w : Locked Cpu Tid} {cpu : Cpu}

omit [DecidableEq Tid] [DecidableEq Cpu] in
/-- Where the bitmap names a bucket, the bucket has a task. -/
lemma Wf.takeRt_highest (h : Wf q) (hp : q.highestRtPriority = some p) :
    ∃ t q', q.takeRt p 0 = some (t, q') := by
  obtain ⟨hne, rfl⟩ := of_refusal hp
  have hpos : q.rtReadyBitmap.toNat ≠ 0 := fun h0 => hne (BitVec.eq_of_toNat_eq h0)
  have hbit : q.rtReadyBitmap.getLsbD q.rtReadyBitmap.toNat.log2 = true :=
    Nat.testBit_log2 hpos
  obtain ⟨t, l, hl⟩ := exists_cons_of_ne_nil ((h.bitmap _).mp hbit)
  simp [TaskManager.takeRt, hl]

omit [DecidableEq Tid] [DecidableEq Cpu] in
lemma takeNormal_first {key : NormalQueueKey} {l : List (NormalQueueKey × Tid)}
    (h : q.normalQueue.entries = (key, t) :: l) : ∃ q', q.takeNormal key = some (t, q') := by
  have hget : q.normalQueue.get? key = some t :=
    get?_eq_some_iff.mpr (h ▸ mem_cons_self)
  simp [takeNormal, hget]

variable {w' : Locked Cpu Tid} {o : Option Tid}
variable {fuel remaining m n : Nat} {normal : Bool} {slot : Locked.QueueSlot}

section

variable (h : Ok w.tasks w.queue)
include h

/-- **One round of fetch**: the loop ends, or it goes on with a queue in order and less to do,
since a round uses up budget or removes a task. -/
theorem fetchLoop_round (cpu : Cpu) (normal : Bool) (remaining : Nat) :
    (∃ x, (∀ w' o, x = some (w', o) → Kept w w') ∧
      ∀ fuel, Locked.fetchLoop cpu (fuel + 1) normal remaining w = some x) ∨
    ∃ normal' remaining' w₁, Kept w w₁ ∧
      2 * (remaining' + w₁.queue.members.length) + (if normal' then 0 else 1) <
        2 * (remaining + w.queue.members.length) + (if normal then 0 else 1) ∧
      ∀ fuel, Locked.fetchLoop cpu (fuel + 1) normal remaining w =
        Locked.fetchLoop cpu fuel normal' remaining' w₁ := by
  have hend {r : Locked.Round Cpu Tid} {x : Option Tid} (hround : RoundOk w r) :
      ∀ w' o, some (r.state, x) = some (w', o) → Kept w w' := by
    rintro _ _ ⟨⟩
    exact hround.kept
  cases normal with
  | false =>
    simp only [Locked.fetchLoop]
    rcases hp : w.queue.highestRtPriority with _ | p
    · exact .inr ⟨true, remaining, w, .refl h, by simp, fun _ => rfl⟩
    obtain ⟨t, q, hq⟩ := h.wf.takeRt_highest hp
    simp only [hq]
    rcases hr : Locked.rtRound ⟨w.tasks, q⟩ t p cpu with _ | r
    · exact .inl ⟨none, nofun, fun _ => rfl⟩
    have hround := (h.wf.takeRt hq).rtRound h hr
    have hlen := hround.length
    cases r with
    | claimed w₁ => exact .inl ⟨_, hend hround, fun _ => rfl⟩
    | pruned w₁ =>
      have hlt := hround.pruned w₁ rfl
      exact .inr ⟨false, _, w₁, hround.kept, by simp; omega, fun _ => rfl⟩
    | passed w₁ | moved w₁ =>
      simp only [Locked.Round.state] at hlen
      by_cases hrem : remaining - 1 = 0
      · exact .inl ⟨_, hend hround, fun _ => if_pos hrem⟩
      · exact .inr ⟨false, _, w₁, hround.kept, by simp; omega, fun _ => if_neg hrem⟩
  | true =>
    simp only [Locked.fetchLoop]
    rcases he : w.queue.normalQueue.entries with _ | ⟨e, l⟩
    · exact .inl ⟨_, hend (r := .passed w) ⟨.refl h, Nat.le_refl _, nofun⟩, fun _ => rfl⟩
    obtain ⟨q, hq⟩ := takeNormal_first he
    simp only [hq]
    rcases hr : Locked.normalRound ⟨w.tasks, q.raiseMinVruntime e.1⟩ e.2 cpu with _ | r
    · exact .inl ⟨none, nofun, fun _ => rfl⟩
    have hround := ((h.wf.takeNormal hq).raiseMinVruntime e.1).normalRound h hr
    have hlen := hround.length
    cases r with
    | claimed w₁ => exact .inl ⟨_, hend hround, fun _ => rfl⟩
    | pruned w₁ =>
      have hlt := hround.pruned w₁ rfl
      exact .inr ⟨true, _, w₁, hround.kept, by simp; omega, fun _ => rfl⟩
    | passed w₁ | moved w₁ =>
      simp only [Locked.Round.state] at hlen
      by_cases hrem : remaining - 1 = 0
      · exact .inl ⟨_, hend hround, fun _ => if_pos hrem⟩
      · exact .inr ⟨_, _, w₁, hround.kept, by simp; omega, fun _ => if_neg hrem⟩

/-- **Fetch loop**: every round keeps the queue in order. -/
theorem Kept.fetchLoop
    (hr : Locked.fetchLoop cpu fuel normal remaining w = some (some (w', o))) : Kept w w' := by
  induction fuel generalizing normal remaining w with
  | zero => cases hr
  | succ fuel ih =>
    rcases fetchLoop_round h cpu normal remaining with ⟨x, hkept, hx⟩ | ⟨_, _, w₁, hkept, -, hx⟩
    · exact hkept w' o (some.inj ((hx fuel).symm.trans hr))
    · exact hkept.trans (ih hkept.ok ((hx fuel).symm.trans hr))

theorem Kept.fetch (hr : w.fetch cpu = some (w', o)) : Kept w w' := by
  unfold Locked.fetch at hr
  split at hr
  · cases hr
    exact .refl h
  · rcases hx : Locked.fetchLoop cpu (4 * w.queue.readyCount + 2) false w.queue.readyCount w with
      _ | x
    · simp [hx] at hr
    · exact Kept.fetchLoop h (hx.trans (congrArg some (by simpa [hx] using hr)))

/-- **Fetch ends**: with more rounds than there is to do the loops return, and always the same. -/
theorem fetchLoop_ends
    (hn : 2 * (remaining + w.queue.members.length) + (if normal then 0 else 1) < n) :
    ∃ x, ∀ k, Locked.fetchLoop cpu (n + k) normal remaining w = some x := by
  induction n generalizing normal remaining w with
  | zero => omega
  | succ n ih =>
    rcases fetchLoop_round h cpu normal remaining with ⟨x, -, hx⟩ |
      ⟨normal', remaining', _, hkept, hlt, hx⟩
    · exact ⟨x, fun k => Nat.add_right_comm n 1 k ▸ hx _⟩
    · obtain ⟨x, hend⟩ := @ih _ remaining' normal' hkept.ok (by omega)
      exact ⟨x, fun k => Nat.add_right_comm n 1 k ▸ (hx _).trans (hend k)⟩

/-- `fetch` runs its loops to their end. -/
theorem fetchLoop_eq_fetch (hne : w.queue.readyCount ≠ 0) (k : Nat) :
    Locked.fetchLoop cpu (4 * w.queue.readyCount + 2 + k) false w.queue.readyCount w =
      some (w.fetch cpu) := by
  have hcount := h.wf.count
  obtain ⟨x, hx⟩ : ∃ x, ∀ k, Locked.fetchLoop cpu (4 * w.queue.readyCount + 2 + k) false
      w.queue.readyCount w = some x :=
    fetchLoop_ends h (show _ + 1 < _ by omega)
  rw [hx, Locked.fetch, if_neg hne, show _ = _ from hx 0]
  rfl

end

omit [DecidableEq Tid] [DecidableEq Cpu] in
/-- The task of a slot was taken out of the queue. -/
lemma Wf.takeSlot {expected : Option Nat} (h : Wf q)
    (hs : Locked.takeSlot q slot = some (t, q', expected)) : Taken q t q' := by
  cases slot with
  | realtime priority index =>
    obtain ⟨r, hr, ⟨⟩⟩ := map_eq_some_iff.mp hs
    exact h.takeRt hr
  | normal key wasFirst =>
    obtain ⟨r, hr, ⟨⟩⟩ := map_eq_some_iff.mp hs
    cases wasFirst with
    | true => exact (h.takeNormal hr).raiseMinVruntime key
    | false => exact h.takeNormal hr

variable {budget left : Nat}

/-- **Steal loop**: every round keeps the queue in order. -/
theorem Kept.stealOneLoop (h : Ok w.tasks w.queue)
    (hr : Locked.stealOneLoop cpu fuel budget w = some (w', o, left)) : Kept w w' := by
  induction fuel generalizing budget w with
  | zero =>
    cases hr
    exact .refl h
  | succ fuel ih =>
    cases budget with
    | zero =>
      cases hr
      exact .refl h
    | succ budget =>
      simp only [Locked.stealOneLoop] at hr
      split at hr
      · cases hr
        exact .refl h
      split at hr
      · cases hr
      rename_i _ t q expected hs
      have htaken := h.wf.takeSlot hs
      split at hr
      · -- a policy update had left the task in its old place
        have hkept := htaken.enqueue h false
        exact hkept.trans (ih hkept.ok hr)
      obtain ⟨⟨w₁, c⟩, hc, hr⟩ := bind_eq_some_iff.mp hr
      obtain ⟨hkept, hq, hsame⟩ := htaken.claimForCpu h hc
      cases c with
      | claimed =>
        cases hr
        exact hkept
      | ineligible =>
        obtain rfl : w₁ = _ := hsame rfl
        cases hr
        exact htaken.enqueue h false
      | stopped | exited => exact hkept.trans (ih hkept.ok hr)

theorem Kept.stealOne (h : Ok w.tasks w.queue) (hr : w.stealOne cpu budget = some (w', o, left)) :
    Kept w w' :=
  Kept.stealOneLoop h hr

end Loops

end Whusp.Task.RunQueue
