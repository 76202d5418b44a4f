import Whusp.Task.RunQueue

/-!
# The run queues of all CPUs

Every CPU has a run queue behind its own lock, and two global masks say which
queues have tasks and which have more than one (`RUN_QUEUES`, `RUNNABLE_QUEUES` and
`OVERLOADED_QUEUES` of `task/sched.rs`).  An operation takes one run-queue lock, or
two for a move between queues, and publishes the queue's state before it lets go.
Between operations other code changes tasks under their own lock: it wakes them,
switches them, marks them exited, stops them or gives them another policy, affinity
or virtual runtime.
-/

namespace Whusp.Task.RunQueue

open Function Whusp.Lib Option

universe u v

variable {Cpu : Type u} {Tid : Type v} [DecidableEq Cpu] [DecidableEq Tid]

def STEAL_BATCH_MAX : Nat := 4
def STEAL_TASK_SCAN_BUDGET : Nat := 8

/-! ## Operations on two queues -/

/-- Two run queues and the tasks, under both run-queue locks. -/
structure Pair (Cpu : Type u) (Tid : Type v) where
  tasks : Tid → SchedTask Cpu
  source : TaskManager Cpu Tid
  target : TaskManager Cpu Tid

/-- Whether `steal_normal_batch_to` selects a queued task. -/
def batchEligible (t : SchedTask Cpu) (source target : Cpu) : Bool :=
  t.inner.taskStatus = .ready && t.inner.onRq && t.inner.queuedCpu = some source &&
    t.inner.onCpu.isNone && !t.inner.jobControlStopped && t.allowedCpus target &&
    t.rtPriority = 0

/-- Up to `limit` selected keys among the first `budget` entries, and the rest of the
budget. -/
def selectBatch (eligible : Tid → Bool) : (limit budget : Nat) →
    List (NormalQueueKey × Tid) → List NormalQueueKey × Nat
  | 0, budget, _ => ([], budget)
  | _, 0, _ => ([], 0)
  | _, budget, [] => ([], budget)
  | limit + 1, budget + 1, (key, t) :: l =>
    if eligible t then
      let r := selectBatch eligible limit budget l
      (key :: r.1, r.2)
    else selectBatch eligible (limit + 1) budget l

namespace Pair

/-- Move the task with a selected key, and say whether it moved. -/
def moveOne (p : Pair Cpu Tid) (sourceMin targetMin : Nat) (key : NormalQueueKey) :
    Option (Pair Cpu Tid × Bool) :=
  (p.source.takeNormal key).bind fun (t, q) =>
    let i := (p.tasks t).inner
    if i.taskStatus = .exited ∨ i.jobControlStopped then
      some ({ p with
        tasks := setInner p.tasks t { i with onRq := false, queuedCpu := none }
        source := q }, false)
    -- the four assertions of the batch move
    else if i.taskStatus = .ready ∧ i.onRq ∧ i.queuedCpu = some p.source.cpu ∧ i.onCpu.isNone then
      if (p.tasks t).rtPriority ≠ 0 ∨ (p.tasks t).allowedCpus p.target.cpu = false then
        let w := Locked.enqueue ⟨p.tasks, q⟩ t false
        some ({ p with tasks := w.tasks, source := w.queue }, false)
      else
        let moved := { (p.tasks t).migrateSchedVruntime sourceMin targetMin with
          inner := { i with queuedCpu := some p.target.cpu } }
        let w := Locked.enqueue ⟨update p.tasks t moved, p.target⟩ t false
        some (⟨w.tasks, q, w.queue⟩, true)
    else none

/-- The second loop of `steal_normal_batch_to`, with the number of moved tasks. -/
def moveBatch (sourceMin targetMin : Nat) : List NormalQueueKey → Pair Cpu Tid →
    Option (Pair Cpu Tid × Nat)
  | [], p => some (p, 0)
  | key :: keys, p =>
    (p.moveOne sourceMin targetMin key).bind fun r =>
      (moveBatch sourceMin targetMin keys r.1).map fun r' =>
        (r'.1, if r.2 then r'.2 + 1 else r'.2)

def stealNormalBatchTo (p : Pair Cpu Tid) (limit budget sourceMin targetMin : Nat) :
    Option (Pair Cpu Tid × Nat) :=
  let eligible t := batchEligible (p.tasks t) p.source.cpu p.target.cpu
  let keys := (selectBatch eligible limit budget p.source.normalQueue.entries.reverse).1
  p.moveBatch sourceMin targetMin keys

/-- How many tasks one steal may take. -/
def batchLimit (sourceReady targetReady : Nat) : Nat :=
  if 1 < sourceReady then max 1 (min ((sourceReady - targetReady) / 2) STEAL_BATCH_MAX) else 1

/-- `decline` says that the victim is idle and the scheduler leaves a single task to it. -/
def stealBatchFrom (p : Pair Cpu Tid) (decline : Bool) :
    Option (Pair Cpu Tid × Option Tid × Nat) :=
  (Locked.fetch ⟨p.tasks, p.target⟩ p.target.cpu).bind fun r =>
    let p := { p with tasks := r.1.tasks, target := r.1.queue }
    match r.2 with
    | some t => some (p, some t, 0)
    | none =>
      if p.source.readyCount = 0 ∨ p.source.readyCount = 1 ∧ decline then some (p, none, 0)
      else
        let limit := batchLimit p.source.readyCount p.target.readyCount
        let sourceMin := p.source.normalMinVruntime
        (Locked.stealOne ⟨p.tasks, p.source⟩ p.target.cpu STEAL_TASK_SCAN_BUDGET).bind fun r =>
          let p := { p with tasks := r.1.tasks, source := r.1.queue }
          match r.2.1 with
          | none => some (p, none, 0)
          | some t =>
            let targetMin := p.target.normalMinVruntime
            let task := (p.tasks t).migrateSchedVruntime sourceMin targetMin
            (stealNormalBatchTo { p with tasks := update p.tasks t task }
              (limit - 1) r.2.2 sourceMin targetMin).map fun r' => (r'.1, some t, r'.2 + 1)

def migrateReadyTaskLocked (p : Pair Cpu Tid) (t : Tid) : Option (Pair Cpu Tid × Bool) :=
  match p.source.removeReadyTask t with
  | none => some (p, false)
  | some q =>
    let i := (p.tasks t).inner
    if i.taskStatus = .exited then
      some ({ p with
        tasks := setInner p.tasks t { i with onRq := false, queuedCpu := none }
        source := q }, false)
    else if i.taskStatus = .ready ∧ i.onRq ∧ i.queuedCpu = some p.source.cpu ∧ i.onCpu.isNone then
      let moved := { (p.tasks t).migrateSchedVruntime p.source.normalMinVruntime
          p.target.normalMinVruntime with
        inner := { i with queuedCpu := some p.target.cpu } }
      let w := Locked.enqueue ⟨update p.tasks t moved, p.target⟩ t false
      some (⟨w.tasks, q, w.queue⟩, true)
    else none

end Pair

/-! ## All queues -/

structure RunQueues (Cpu : Type u) (Tid : Type v) where
  tasks : Tid → SchedTask Cpu
  queues : Cpu → TaskManager Cpu Tid
  nrRunning : Cpu → Nat
  runnable : Cpu → Bool
  overloaded : Cpu → Bool

/-- `reprioritize_ready_task` of `TaskManager`. -/
def Locked.reprioritizeReadyTask (w : Locked Cpu Tid) (t : Tid) : Locked Cpu Tid :=
  if (w.tasks t).inner.taskStatus ≠ .ready then w
  else match w.queue.removeReadyTask t with
    | none => w
    | some q => Locked.enqueue ⟨w.tasks, q⟩ t false

/-- The removal in `remove_ready_tasks` and `remove_ready_task_for_job_stop`. -/
def Locked.removeReady (w : Locked Cpu Tid) (t : Tid) : Option (Locked Cpu Tid) :=
  match w.queue.removeReadyTask t with
  | none => some w
  | some q => Locked.clearQueued ⟨w.tasks, q⟩ t

/-- The loop of `drain_remote_wakes` under the run-queue lock. -/
def Locked.drainRemoteWakes : List (Tid × Bool) → Locked Cpu Tid → Option (Locked Cpu Tid)
  | [], w => some w
  | (t, front) :: nodes, w =>
    (w.addRemote t front).bind fun r => drainRemoteWakes nodes r.1

namespace RunQueues

def publishRunQueueState (s : RunQueues Cpu Tid) (cpu : Cpu) (previousReady ready : Nat) :
    RunQueues Cpu Tid :=
  { s with
    nrRunning := update s.nrRunning cpu ready
    runnable :=
      if decide (previousReady ≠ 0) ≠ decide (ready ≠ 0) then
        update s.runnable cpu (decide (ready ≠ 0))
      else s.runnable
    overloaded :=
      if decide (1 < previousReady) ≠ decide (1 < ready) then
        update s.overloaded cpu (decide (1 < ready))
      else s.overloaded }

def withRunQueue (s : RunQueues Cpu Tid) (cpu : Cpu)
    (operation : Locked Cpu Tid → Option (Locked Cpu Tid)) : Option (RunQueues Cpu Tid) :=
  (operation ⟨s.tasks, s.queues cpu⟩).map fun w =>
    publishRunQueueState
      { s with tasks := w.tasks, queues := update s.queues cpu w.queue }
      cpu (s.queues cpu).readyCount w.queue.readyCount

/-- `with_run_queue_pair`, and the same steps in `migrate_ready_task`. -/
def withRunQueuePair (s : RunQueues Cpu Tid) (source target : Cpu)
    (operation : Pair Cpu Tid → Option (Pair Cpu Tid)) : Option (RunQueues Cpu Tid) :=
  -- assert_ne!(first_cpu, second_cpu)
  if source = target then none
  else (operation ⟨s.tasks, s.queues source, s.queues target⟩).map fun p =>
    publishRunQueueState
      (publishRunQueueState { s with
          tasks := p.tasks
          queues := update (update s.queues source p.source) target p.target }
        source (s.queues source).readyCount p.source.readyCount)
      target (s.queues target).readyCount p.target.readyCount

def setTask (s : RunQueues Cpu Tid) (t : Tid) (task : SchedTask Cpu) : RunQueues Cpu Tid :=
  { s with tasks := update s.tasks t task }

/-- Replace the task-lock fields of one task. -/
def setInner (s : RunQueues Cpu Tid) (t : Tid) (i : TaskInner Cpu) : RunQueues Cpu Tid :=
  { s with tasks := RunQueue.setInner s.tasks t i }

end RunQueues

/-- The operations on the run queues, and what other code does to tasks. -/
inductive Action (Cpu : Type u) (Tid : Type v) where
  | add (cpu : Cpu) (t : Tid)
  | addFront (cpu : Cpu) (t : Tid)
  /-- A drain of `cpu`'s remote wake list with these nodes. -/
  | addRemote (cpu : Cpu) (nodes : List (Tid × Bool))
  | fetch (cpu : Cpu)
  | steal (victim cpu : Cpu) (decline : Bool)
  /-- `migrate_ready_task`, with the queue it read before it took the locks. -/
  | migrate (source target : Cpu) (t : Tid)
  /-- `reprioritize_ready_task`, with the queue it read before it took the lock. -/
  | reprioritize (cpu : Cpu) (t : Tid)
  /-- The removal of a stopped or exited task from the queue that was read. -/
  | remove (cpu : Cpu) (t : Tid)
  | wakeup (t : Tid) (front : Bool)
  | prepareSwitch (t : Tid) (cpu : Cpu) (reason : SwitchReason)
  | finishSwitch (t : Tid) (cpu : Cpu) (reason : SwitchReason)
  | exitMark (t : Tid)
  /-- A job-control stop or continue sets or clears the gate. -/
  | setStopped (t : Tid) (stopped : Bool)
  | setPolicy (t : Tid) (policy : SchedPolicy) (priority : Int)
  | setVruntime (t : Tid) (vruntime : Nat)
  | setAllowed (t : Tid) (allowed : Cpu → Bool)
  | setExcluded (t : Tid) (excluded : Bool)

namespace RunQueues

def step (s : RunQueues Cpu Tid) : Action Cpu Tid → Option (RunQueues Cpu Tid)
  | .add cpu t => s.withRunQueue cpu (·.add t)
  | .addFront cpu t => s.withRunQueue cpu (·.addFront t)
  | .addRemote cpu nodes => s.withRunQueue cpu (Locked.drainRemoteWakes nodes)
  | .fetch cpu => s.withRunQueue cpu fun w => (w.fetch cpu).map Prod.fst
  | .steal victim cpu decline =>
    s.withRunQueuePair victim cpu fun p => (p.stealBatchFrom decline).map Prod.fst
  | .migrate source target t =>
    s.withRunQueuePair source target fun p => (p.migrateReadyTaskLocked t).map Prod.fst
  | .reprioritize cpu t => s.withRunQueue cpu fun w => some (w.reprioritizeReadyTask t)
  | .remove cpu t => s.withRunQueue cpu (·.removeReady t)
  | .wakeup t front => ((s.tasks t).inner.wakeupSection front).map fun r => s.setInner t r.1
  | .prepareSwitch t cpu reason =>
    ((s.tasks t).inner.prepareSwitch cpu reason).map fun i => s.setInner t i
  | .finishSwitch t cpu reason =>
    ((s.tasks t).inner.finishSwitch cpu reason).map fun r => s.setInner t r.1
  | .exitMark t => some (s.setInner t { (s.tasks t).inner with taskStatus := .exited })
  | .setStopped t stopped =>
    some (s.setInner t { (s.tasks t).inner with jobControlStopped := stopped })
  | .setPolicy t policy priority =>
    some (s.setTask t { s.tasks t with schedPolicy := policy, schedPriority := priority })
  | .setVruntime t vruntime => some (s.setTask t { s.tasks t with schedVruntime := vruntime })
  | .setAllowed t allowed => some (s.setTask t { s.tasks t with allowedCpus := allowed })
  | .setExcluded t excluded => some (s.setTask t { s.tasks t with excluded := excluded })

def freshTask : SchedTask Cpu where
  inner := { TaskInner.sleeping with taskStatus := .ready }
  schedPolicy := .other
  schedPriority := 0
  schedVruntime := 0
  allowedCpus := fun _ => true
  excluded := false

/-- Empty queues, and only tasks that no CPU has seen. -/
def boot : RunQueues Cpu Tid where
  tasks := fun _ => freshTask
  queues := .new
  nrRunning := fun _ => 0
  runnable := fun _ => false
  overloaded := fun _ => false

end RunQueues

def system : System (RunQueues Cpu Tid) (Action Cpu Tid) where
  init s := s = .boot
  step := RunQueues.step

/-! ## Two queues stay in order -/

/-- An operation kept its two queues in order and touched no task of another queue. -/
structure KeptPair (p p' : Pair Cpu Tid) : Prop where
  source : Ok p'.tasks p'.source
  target : Ok p'.tasks p'.target
  frame : Frame [p.source.cpu, p.target.cpu] p.tasks p'.tasks
  sourceCpu : p'.source.cpu = p.source.cpu
  targetCpu : p'.target.cpu = p.target.cpu

section Pairs

variable {p : Pair Cpu Tid}

section Basic

omit [DecidableEq Cpu] [DecidableEq Tid]

lemma KeptPair.refl (hs : Ok p.tasks p.source) (ht : Ok p.tasks p.target) : KeptPair p p :=
  ⟨hs, ht, .refl _ _, rfl, rfl⟩

lemma KeptPair.trans {p' p'' : Pair Cpu Tid} (h : KeptPair p p') (h' : KeptPair p' p'') :
    KeptPair p p'' where
  source := h'.source
  target := h'.target
  frame := h.frame.trans (h.sourceCpu ▸ h.targetCpu ▸ h'.frame)
  sourceCpu := h'.sourceCpu.trans h.sourceCpu
  targetCpu := h'.targetCpu.trans h.targetCpu

variable {w : Locked Cpu Tid}

lemma KeptPair.of_source (ht : Ok p.tasks p.target) (hne : p.source.cpu ≠ p.target.cpu)
    (h : Kept ⟨p.tasks, p.source⟩ w) : KeptPair p ⟨w.tasks, w.queue, p.target⟩ where
  source := h.ok
  target := ht.frame h.frame (by simpa using hne.symm)
  frame := h.frame.mono (by simp)
  sourceCpu := h.cpu
  targetCpu := rfl

lemma KeptPair.of_target (hs : Ok p.tasks p.source) (hne : p.source.cpu ≠ p.target.cpu)
    (h : Kept ⟨p.tasks, p.target⟩ w) : KeptPair p ⟨w.tasks, p.source, w.queue⟩ where
  source := hs.frame h.frame (by simpa using hne)
  target := h.ok
  frame := h.frame.mono (by simp)
  sourceCpu := rfl
  targetCpu := h.cpu

end Basic

variable {t : Tid} {task : SchedTask Cpu} {r : Pair Cpu Tid × Bool} {sourceMin targetMin : Nat}

omit [DecidableEq Cpu] in
/-- A task that was taken out of the source goes into the target under its mark. -/
lemma KeptPair.transfer {q : TaskManager Cpu Tid} (hs : Ok p.tasks p.source)
    (ht : Ok p.tasks p.target) (hne : p.source.cpu ≠ p.target.cpu) (htaken : Taken p.source t q)
    (hinner : task.inner = { (p.tasks t).inner with queuedCpu := some p.target.cpu }) :
    let w := Locked.enqueue ⟨update p.tasks t task, p.target⟩ t false
    KeptPair p ⟨w.tasks, q, w.queue⟩ := by
  intro w
  obtain ⟨hsource, hfresh, hm⟩ := hs.taken htaken
  -- the task carries the source's mark, so the target does not hold it
  have hother : t ∉ p.target.members := by
    intro hmem
    have hcpu := (ht.marked t hmem).queuedCpu
    rw [hm.queuedCpu, htaken.cpu, some.injEq] at hcpu
    exact hne hcpu
  have hsource' : Ok (update p.tasks t task) q := by
    refine ⟨hsource.wf, hsource.nodup, fun x hx => ?_⟩
    rw [update_of_ne (fun he : x = t => hfresh (he ▸ hx))]
    exact hsource.marked x hx
  have htarget' : Ok (update p.tasks t task) p.target := by
    refine ⟨ht.wf, ht.nodup, fun x hx => ?_⟩
    rw [update_of_ne (fun he : x = t => hother (he ▸ hx))]
    exact ht.marked x hx
  have hmark : Marked p.target.cpu (update p.tasks t task t).inner := by
    rw [update_self, hinner]
    exact { hm with queuedCpu := rfl }
  have hput := Ok.enqueue (w := ⟨update p.tasks t task, p.target⟩) htarget' hother hmark
    false
  have hsame := inner_enqueue ⟨update p.tasks t task, p.target⟩ t false
  refine ⟨hsource'.of_inner hsame, hput, ?_, htaken.cpu,
    (htarget'.wf.enqueue (w := ⟨update p.tasks t task, p.target⟩) t false).cpu⟩
  intro x _ hx
  have hne' : x ≠ t := by
    rintro rfl
    exact hx p.source.cpu (by simp) (htaken.cpu ▸ hm.queuedCpu)
  rw [hsame x]
  show (update p.tasks t task x).inner = _
  rw [update_of_ne hne']

lemma KeptPair.moveOne {key : NormalQueueKey} (hs : Ok p.tasks p.source)
    (ht : Ok p.tasks p.target) (hne : p.source.cpu ≠ p.target.cpu)
    (hr : p.moveOne sourceMin targetMin key = some r) : KeptPair p r.1 := by
  obtain ⟨⟨t, q⟩, htake, hr⟩ := bind_eq_some_iff.mp hr
  have htaken := hs.wf.takeNormal htake
  dsimp only at hr
  split at hr
  · cases hr
    exact .of_source ht hne (htaken.setInner (w := ⟨p.tasks, p.source⟩) hs _)
  obtain ⟨-, hr⟩ := ite_none_right_eq_some.mp hr
  split at hr
  · cases hr
    exact .of_source ht hne (htaken.enqueue (w := ⟨p.tasks, p.source⟩) hs false)
  · cases hr
    exact .transfer hs ht hne htaken rfl

open KeptPair

/-- **Batch move**: every moved task keeps both queues in order. -/
theorem KeptPair.moveBatch {keys : List NormalQueueKey} {r : Pair Cpu Tid × Nat}
    (hs : Ok p.tasks p.source) (ht : Ok p.tasks p.target) (hne : p.source.cpu ≠ p.target.cpu)
    (hr : p.moveBatch sourceMin targetMin keys = some r) : KeptPair p r.1 := by
  induction keys generalizing p r with
  | nil =>
    cases hr
    exact .refl hs ht
  | cons key keys ih =>
    obtain ⟨r₁, hone, hr⟩ := bind_eq_some_iff.mp hr
    obtain ⟨r₂, hrest, rfl⟩ := map_eq_some_iff.mp hr
    have hkept := moveOne hs ht hne hone
    have hne' : r₁.1.source.cpu ≠ r₁.1.target.cpu := by
      rw [hkept.sourceCpu, hkept.targetCpu]
      exact hne
    have hkept' := ih hkept.source hkept.target hne' hrest
    exact hkept.trans hkept'

omit [DecidableEq Cpu] in
/-- Changing a virtual runtime is not seen by the queues. -/
lemma KeptPair.of_vruntime (hs : Ok p.tasks p.source) (ht : Ok p.tasks p.target)
    (hinner : task.inner = (p.tasks t).inner) :
    KeptPair p { p with tasks := update p.tasks t task } := by
  have hsame : ∀ x, (update p.tasks t task x).inner = (p.tasks x).inner := by
    intro x
    rcases eq_or_ne x t with rfl | hne
    · rw [update_self, hinner]
    · rw [update_of_ne hne]
  exact ⟨hs.of_inner hsame, ht.of_inner hsame, .of_inner hsame, rfl, rfl⟩

/-- **Steal**: whatever it takes, both queues stay in order. -/
theorem KeptPair.stealBatchFrom {decline : Bool} {r : Pair Cpu Tid × Option Tid × Nat}
    (hs : Ok p.tasks p.source) (ht : Ok p.tasks p.target) (hne : p.source.cpu ≠ p.target.cpu)
    (hr : p.stealBatchFrom decline = some r) : KeptPair p r.1 := by
  obtain ⟨⟨w, o⟩, hfetch, hr⟩ := bind_eq_some_iff.mp hr
  have hkept := of_target hs hne (Kept.fetch (w := ⟨p.tasks, p.target⟩) ht hfetch)
  have hne₁ : p.source.cpu ≠ w.queue.cpu := fun h => hne (h.trans hkept.targetCpu)
  dsimp only at hr
  split at hr
  · cases hr
    exact hkept
  split at hr
  · cases hr
    exact hkept
  obtain ⟨⟨w₁, o₁, left⟩, hsteal, hr⟩ := bind_eq_some_iff.mp hr
  have hkept₁ := hkept.trans (of_source hkept.target hne₁
    (Kept.stealOne (w := ⟨w.tasks, p.source⟩) hkept.source hsteal))
  have hne₂ : w₁.queue.cpu ≠ w.queue.cpu := fun h => hne₁ (hkept₁.sourceCpu.symm.trans h)
  cases o₁ with
  | none =>
    cases hr
    exact hkept₁
  | some t =>
    -- the claimed task's virtual runtime, then the rest of the batch
    obtain ⟨r₂, hbatch, rfl⟩ := map_eq_some_iff.mp hr
    have hkept₂ := hkept₁.trans (of_vruntime hkept₁.source hkept₁.target
      (show ((w₁.tasks t).migrateSchedVruntime p.source.normalMinVruntime
        w.queue.normalMinVruntime).inner = (w₁.tasks t).inner from rfl))
    exact hkept₂.trans (moveBatch hkept₂.source hkept₂.target hne₂ hbatch)

theorem KeptPair.migrateReadyTaskLocked (hs : Ok p.tasks p.source) (ht : Ok p.tasks p.target)
    (hne : p.source.cpu ≠ p.target.cpu) (hr : p.migrateReadyTaskLocked t = some r) :
    KeptPair p r.1 := by
  unfold Pair.migrateReadyTaskLocked at hr
  split at hr
  · cases hr
    exact .refl hs ht
  rename_i hq
  have htaken := hs.wf.removeReadyTask hq
  dsimp only at hr
  split at hr
  · cases hr
    exact .of_source ht hne (htaken.setInner (w := ⟨p.tasks, p.source⟩) hs _)
  · obtain ⟨-, rfl⟩ := of_guard hr
    exact .transfer hs ht hne htaken rfl

end Pairs

/-! ## One queue stays in order -/

section Single

variable {w w' : Locked Cpu Tid} {t : Tid}

omit [DecidableEq Cpu]

/-- A task on no queue gets the mark of this one and goes in. -/
lemma Kept.takeIn (h : Ok w.tasks w.queue) (hoff : (w.tasks t).inner.onRq = false)
    (hst : (w.tasks t).inner.taskStatus = .ready) (hc : (w.tasks t).inner.onCpu = none)
    (front : Bool) : Kept w (Locked.enqueue ⟨RunQueue.setInner w.tasks t { (w.tasks t).inner with
      onRq := true, queuedCpu := some w.queue.cpu }, w.queue⟩ t front) := by
  generalize hi : TaskInner.mk .. = i
  have hm : Marked w.queue.cpu i := hi ▸ ⟨rfl, rfl, hc, .inl hst⟩
  have hfresh : t ∉ w.queue.members := by
    intro hmem
    simp [(h.marked t hmem).onRq] at hoff
  have hok := h.setInner hfresh i
  have hmark : Marked w.queue.cpu (RunQueue.setInner w.tasks t i t).inner := by
    unfold RunQueue.setInner
    rw [update_self]
    exact hm
  refine ⟨Ok.enqueue (w := ⟨RunQueue.setInner w.tasks t i, w.queue⟩) hok hfresh hmark front, ?_,
    (hok.wf.enqueue (w := ⟨RunQueue.setInner w.tasks t i, w.queue⟩) t front).cpu⟩
  intro x hq _
  have hne : x ≠ t := by
    rintro rfl
    simp [hoff] at hq
  rw [inner_enqueue]
  show (update w.tasks t _ x).inner = _
  rw [update_of_ne hne]

variable {front : Bool}

lemma Kept.addAt (h : Ok w.tasks w.queue) (hr : w.addAt t front = some w') : Kept w w' := by
  obtain ⟨⟨i, b⟩, hi, rfl⟩ := map_eq_some_iff.mp hr
  obtain ⟨hst, hq, hc, ⟨-, rfl, rfl⟩ | ⟨-, rfl, rfl⟩⟩ := TaskInner.markQueuedOn_eq_some hi
  · simp only [Bool.false_eq_true, if_false, setInner_self]
    exact .refl h
  · exact .takeIn h hq hst hc front

lemma Kept.addRemote {r : Locked Cpu Tid × RemoteEnqueueResult} (h : Ok w.tasks w.queue)
    (hr : w.addRemote t front = some r) : Kept w r.1 := by
  obtain ⟨⟨i, c⟩, hi, rfl⟩ := map_eq_some_iff.mp hr
  obtain ⟨rfl, rfl, -⟩ | ⟨hst, hq, hc, -, ⟨rfl, rfl⟩ | ⟨rfl, rfl⟩⟩ :=
    TaskInner.addRemote_eq_some hi
  · simp only [reduceCtorEq, if_false, setInner_self]
    exact .refl h
  · exact .takeIn h hq hst hc front
  · simp only [reduceCtorEq, if_false, setInner_self]
    exact .refl h

/-- **Drain**: every node of the remote list keeps the queue in order. -/
theorem Kept.drainRemoteWakes {nodes : List (Tid × Bool)} (h : Ok w.tasks w.queue)
    (hr : Locked.drainRemoteWakes nodes w = some w') : Kept w w' := by
  induction nodes generalizing w with
  | nil =>
    cases hr
    exact .refl h
  | cons node nodes ih =>
    obtain ⟨r, hone, hr⟩ := bind_eq_some_iff.mp hr
    have hkept := Kept.addRemote h hone
    exact hkept.trans (ih hkept.ok hr)

lemma Kept.reprioritizeReadyTask (h : Ok w.tasks w.queue) : Kept w (w.reprioritizeReadyTask t) := by
  unfold Locked.reprioritizeReadyTask
  split
  · exact .refl h
  split
  · exact .refl h
  next hq =>
    exact (h.wf.removeReadyTask hq).enqueue h false

lemma Kept.removeReady (h : Ok w.tasks w.queue) (hr : w.removeReady t = some w') : Kept w w' := by
  unfold Locked.removeReady at hr
  split at hr
  · cases hr
    exact .refl h
  next hq =>
    obtain ⟨i, -, rfl⟩ := map_eq_some_iff.mp hr
    exact (h.wf.removeReadyTask hq).setInner h i

end Single

/-! ## The invariant of all queues -/

/-- The masks and the published lengths are those of queues with these counts. -/
structure Published (s : RunQueues Cpu Tid) (count : Cpu → Nat) : Prop where
  nrRunning : ∀ c, s.nrRunning c = count c
  runnable : ∀ c, s.runnable c = decide (count c ≠ 0)
  overloaded : ∀ c, s.overloaded c = decide (1 < count c)

/-- What holds after every operation. -/
structure Inv (s : RunQueues Cpu Tid) : Prop where
  cpu : ∀ c, (s.queues c).cpu = c
  ok : ∀ c, Ok s.tasks (s.queues c)
  published : Published s fun c => (s.queues c).readyCount

section Publish

omit [DecidableEq Tid]

omit [DecidableEq Cpu] in
lemma Inv.boot : Inv (.boot : RunQueues Cpu Tid) where
  cpu := fun _ => rfl
  ok := fun c => Ok.new _ c
  published := ⟨fun _ => rfl, fun _ => rfl, fun _ => rfl⟩

variable {count : Cpu → Nat} {s s' : RunQueues Cpu Tid}

/-- A mask that is touched only where the predicate changes follows the predicate. -/
lemma update_mask {mask : Cpu → Bool} {f : Nat → Bool} (h : ∀ c, mask c = f (count c))
    (cpu : Cpu) (ready : Nat) (c : Cpu) :
    (if f (count cpu) ≠ f ready then update mask cpu (f ready) else mask) c =
      f (update count cpu ready c) := by
  rcases eq_or_ne c cpu with rfl | hne
  · rw [update_self]
    split
    · simp
    next heq =>
      rw [h c]
      exact not_not.mp heq
  · rw [update_of_ne hne, ← h c]
    split
    · rw [update_of_ne hne]
    · rfl

/-- Publishing a queue's new count, where the old one was published before. -/
lemma Published.publish (h : Published s count) (cpu : Cpu) (ready : Nat) :
    Published (s.publishRunQueueState cpu (count cpu) ready) (update count cpu ready) where
  nrRunning := by
    intro c
    show update s.nrRunning cpu ready c = _
    rw [funext h.nrRunning]
  runnable := update_mask (f := fun n => decide (n ≠ 0)) h.runnable cpu ready
  overloaded := update_mask (f := fun n => decide (1 < n)) h.overloaded cpu ready

lemma readyCount_update (queues : Cpu → TaskManager Cpu Tid) (cpu : Cpu)
    (q : TaskManager Cpu Tid) : (fun c => (update queues cpu q c).readyCount) =
      update (fun c => (queues c).readyCount) cpu q.readyCount :=
  funext (apply_update (fun _ q => TaskManager.readyCount q) queues cpu q)

/-- **One lock**: an operation that keeps its queue in order keeps all of them. -/
theorem Inv.withRunQueue {cpu : Cpu} {operation : Locked Cpu Tid → Option (Locked Cpu Tid)}
    (h : Inv s) (hr : s.withRunQueue cpu operation = some s')
    (hkept : ∀ w, operation ⟨s.tasks, s.queues cpu⟩ = some w → Kept ⟨s.tasks, s.queues cpu⟩ w) :
    Inv s' := by
  obtain ⟨w, hw, rfl⟩ := map_eq_some_iff.mp hr
  obtain ⟨hok, hframe, hcpu⟩ := hkept w hw
  refine ⟨fun c => ?_, fun c => ?_, ?_⟩
  · show (update s.queues cpu w.queue c).cpu = c
    rcases eq_or_ne c cpu with rfl | hne
    · rw [update_self]
      exact hcpu.trans (h.cpu c)
    · rw [update_of_ne hne]
      exact h.cpu c
  · show Ok w.tasks (update s.queues cpu w.queue c)
    rcases eq_or_ne c cpu with rfl | hne
    · rw [update_self]
      exact hok
    · rw [update_of_ne hne]
      apply (h.ok c).frame hframe
      simpa [h.cpu] using hne
  · show Published _ fun c => (update s.queues cpu w.queue c).readyCount
    rw [readyCount_update]
    exact Published.publish (s := { s with
        tasks := w.tasks
        queues := update s.queues cpu w.queue })
      { h.published with }
      cpu w.queue.readyCount

/-- **Two locks**: an operation that keeps its two queues in order keeps all of them. -/
theorem Inv.withRunQueuePair {source target : Cpu}
    {operation : Pair Cpu Tid → Option (Pair Cpu Tid)} (h : Inv s)
    (hr : s.withRunQueuePair source target operation = some s')
    (hkept : ∀ p, operation ⟨s.tasks, s.queues source, s.queues target⟩ = some p →
      (s.queues source).cpu ≠ (s.queues target).cpu →
      KeptPair ⟨s.tasks, s.queues source, s.queues target⟩ p) : Inv s' := by
  obtain ⟨hne, hr⟩ := ite_none_left_eq_some.mp hr
  obtain ⟨p, hp, rfl⟩ := map_eq_some_iff.mp hr
  obtain ⟨hsource, htarget, hframe, hscpu, htcpu⟩ := hkept p hp (by rwa [h.cpu, h.cpu])
  refine ⟨fun c => ?_, fun c => ?_, ?_⟩
  · show (update (update s.queues source p.source) target p.target c).cpu = c
    rcases eq_or_ne c target with rfl | hct
    · rw [update_self]
      exact htcpu.trans (h.cpu c)
    rw [update_of_ne hct]
    rcases eq_or_ne c source with rfl | hcs
    · rw [update_self]
      exact hscpu.trans (h.cpu c)
    · rw [update_of_ne hcs]
      exact h.cpu c
  · show Ok p.tasks (update (update s.queues source p.source) target p.target c)
    rcases eq_or_ne c target with rfl | hct
    · rw [update_self]
      exact htarget
    rw [update_of_ne hct]
    rcases eq_or_ne c source with rfl | hcs
    · rw [update_self]
      exact hsource
    · rw [update_of_ne hcs]
      apply (h.ok c).frame hframe
      simp only [h.cpu, List.mem_cons, List.not_mem_nil, or_false, not_or]
      exact ⟨hcs, hct⟩
  · show Published _ fun c =>
      (update (update s.queues source p.source) target p.target c).readyCount
    rw [readyCount_update, readyCount_update]
    -- the target's old count is still the published one after the source's
    have hfirst := Published.publish (s := { s with
        tasks := p.tasks
        queues := update (update s.queues source p.source) target p.target })
      { h.published with }
      source p.source.readyCount
    have hsecond := hfirst.publish target p.target.readyCount
    rwa [update_of_ne (Ne.symm hne)] at hsecond

end Publish

variable {s : RunQueues Cpu Tid} {t : Tid}

omit [DecidableEq Cpu] [DecidableEq Tid] in
/-- Other code changes tasks, but takes no task off a queue. -/
lemma Inv.of_tasks {tasks : Tid → SchedTask Cpu} (h : Inv s)
    (hmarked : ∀ t c, Marked c (s.tasks t).inner → Marked c (tasks t).inner) :
    Inv { s with tasks := tasks } where
  cpu := h.cpu
  ok := fun c => ⟨(h.ok c).wf, (h.ok c).nodup, fun t ht => hmarked t _ ((h.ok c).marked t ht)⟩
  published := { h.published with }

omit [DecidableEq Cpu] in
lemma Inv.setInner {i : TaskInner Cpu} (h : Inv s)
    (hmarked : ∀ c, Marked c (s.tasks t).inner → Marked c i) : Inv (s.setInner t i) := by
  apply h.of_tasks
  intro x c hm
  unfold RunQueue.setInner
  rcases eq_or_ne x t with rfl | hne
  · rw [update_self]
    exact hmarked c hm
  · rw [update_of_ne hne]
    exact hm

omit [DecidableEq Cpu] in
lemma Inv.setTask {task : SchedTask Cpu} (h : Inv s) (hinner : task.inner = (s.tasks t).inner) :
    Inv (s.setTask t task) := by
  apply h.of_tasks
  intro x c hm
  rcases eq_or_ne x t with rfl | hne
  · rw [update_self, hinner]
    exact hm
  · rw [update_of_ne hne]
    exact hm

/-- **Step lemma**: every operation, and everything other code does to tasks, keeps
the invariant. -/
theorem Inv.step {s' : RunQueues Cpu Tid} {a : Action Cpu Tid} (h : Inv s)
    (hs : s.step a = some s') : Inv s' := by
  cases a with
  | add cpu t | addFront cpu t =>
    rw [RunQueues.step] at hs
    exact h.withRunQueue hs fun w hw => Kept.addAt (h.ok cpu) hw
  | addRemote cpu nodes =>
    exact h.withRunQueue hs fun w hw => Kept.drainRemoteWakes (h.ok cpu) hw
  | fetch cpu =>
    rw [RunQueues.step] at hs
    refine h.withRunQueue hs fun w hw => ?_
    obtain ⟨⟨w', o⟩, hfetch, rfl⟩ := map_eq_some_iff.mp hw
    exact Kept.fetch (h.ok cpu) hfetch
  | steal victim cpu decline =>
    rw [RunQueues.step] at hs
    refine h.withRunQueuePair hs fun p hp hne => ?_
    obtain ⟨r, hr, rfl⟩ := map_eq_some_iff.mp hp
    exact KeptPair.stealBatchFrom (h.ok victim) (h.ok cpu) hne hr
  | migrate source target t =>
    rw [RunQueues.step] at hs
    refine h.withRunQueuePair hs fun p hp hne => ?_
    obtain ⟨r, hr, rfl⟩ := map_eq_some_iff.mp hp
    exact KeptPair.migrateReadyTaskLocked (h.ok source) (h.ok target) hne hr
  | reprioritize cpu t =>
    rw [RunQueues.step] at hs
    refine h.withRunQueue hs fun w hw => ?_
    cases hw
    exact Kept.reprioritizeReadyTask (h.ok cpu)
  | remove cpu t =>
    rw [RunQueues.step] at hs
    exact h.withRunQueue hs fun w hw => Kept.removeReady (h.ok cpu) hw
  | wakeup t front =>
    -- a queued task is not blocked, so a wakeup leaves it alone
    obtain ⟨⟨i, o⟩, hi, rfl⟩ := map_eq_some_iff.mp hs
    apply h.setInner
    intro c hm
    obtain ⟨-, -, rfl⟩ | ⟨hb, -⟩ := TaskInner.wakeupSection_eq_some hi
    · exact hm
    · rcases hm.status with hst | hst <;> simp [hb] at hst
  | prepareSwitch t cpu reason =>
    obtain ⟨i, hi, rfl⟩ := map_eq_some_iff.mp hs
    apply h.setInner
    intro c hm
    obtain ⟨⟨-, hcpu, -⟩, -⟩ := TaskInner.prepareSwitch_eq_some hi
    simp [hm.onCpu] at hcpu
  | finishSwitch t cpu reason =>
    obtain ⟨⟨i, e⟩, hi, rfl⟩ := map_eq_some_iff.mp hs
    apply h.setInner
    intro c hm
    obtain ⟨hcpu, -⟩ := TaskInner.finishSwitch_eq_some hi
    simp [hm.onCpu] at hcpu
  | exitMark t =>
    cases hs
    exact h.setInner fun c hm => { hm with status := .inr rfl }
  | setStopped t stopped =>
    cases hs
    exact h.setInner fun c hm => { hm with }
  | setPolicy | setVruntime | setAllowed | setExcluded =>
    cases hs
    exact h.setTask rfl

/-- **Run lemma**: the invariant holds in every state of every run. -/
theorem Inv.of_reachable (h : system.Reachable System.anyStep s) : Inv s := by
  apply h.invariant
  · rintro _ rfl
    exact .boot
  · intro s a s' hinv _ hs
    exact hinv.step hs

/-- **Run queues**: in every state of every run, each queue's count is the number of
its tasks, its bitmap says which realtime buckets have tasks and bucket 0 has none;
every queued task is marked with this CPU and runs on none; no task is queued twice,
on this CPU or on another; and the global masks agree with the queues. -/
theorem run_queues_agree {s : RunQueues Cpu Tid} (h : system.Reachable System.anyStep s) (c : Cpu) :
    (s.queues c).readyCount = (s.queues c).normalQueue.entries.length +
        ((List.range RT_QUEUE_COUNT).map fun p => ((s.queues c).rtQueues p).length).sum ∧
      (∀ p, (s.queues c).rtReadyBitmap.getLsbD p = true ↔ (s.queues c).rtQueues p ≠ []) ∧
      (s.queues c).rtQueues 0 = [] ∧ (∀ t ∈ (s.queues c).members, (s.tasks t).inner.onRq = true ∧
        (s.tasks t).inner.queuedCpu = some c ∧ (s.tasks t).inner.onCpu = none) ∧
      (s.queues c).members.Nodup ∧
      (∀ c', c' ≠ c → ∀ t ∈ (s.queues c).members, t ∉ (s.queues c').members) ∧
      (s.runnable c = true ↔ (s.queues c).members ≠ []) ∧
      (s.overloaded c = true ↔ 1 < (s.queues c).members.length) ∧
      s.nrRunning c = (s.queues c).readyCount := by
  have hinv := Inv.of_reachable h
  have hok := hinv.ok c
  have hmark : ∀ {c' t}, t ∈ (s.queues c').members →
      (s.tasks t).inner.queuedCpu = some c' := by
    intro c' t ht
    rw [((hinv.ok c').marked t ht).queuedCpu, hinv.cpu c']
  refine ⟨?_, hok.wf.bitmap, hok.wf.rtZero, fun t ht => ?_, hok.nodup, ?_, ?_, ?_,
    hinv.published.nrRunning c⟩
  · rw [hok.wf.count, TaskManager.members, List.length_append, List.length_map, List.length_flatMap]
    exact Nat.add_comm _ _
  · exact ⟨(hok.marked t ht).onRq, hmark ht, (hok.marked t ht).onCpu⟩
  · intro c' hne t ht ht'
    have heq := (hmark ht).symm.trans (hmark ht')
    exact hne (some.inj heq).symm
  · rw [hinv.published.runnable, hok.wf.count, decide_eq_true_eq, ne_eq, List.length_eq_zero_iff]
  · rw [hinv.published.overloaded, hok.wf.count, decide_eq_true_eq]

/-- **Fetch ends**: in every state of every run, the loops of `fetch`, which put back tasks that the
CPU may not run, return after at most four rounds for each task in the queue and two more. -/
theorem fetch_ends {s : RunQueues Cpu Tid} (h : system.Reachable System.anyStep s) (c : Cpu)
    (hne : (s.queues c).readyCount ≠ 0) (k : Nat) :
    Locked.fetchLoop c (4 * (s.queues c).readyCount + 2 + k) false (s.queues c).readyCount
      ⟨s.tasks, s.queues c⟩ = some (Locked.fetch ⟨s.tasks, s.queues c⟩ c) :=
  fetchLoop_eq_fetch (w := ⟨s.tasks, s.queues c⟩) ((Inv.of_reachable h).ok c) hne k

theorem fetch_ends_two : ∃ s : RunQueues Nat Nat, (s.queues 0).readyCount = 2 ∧
    Locked.fetchLoop 0 10 false 2 ⟨s.tasks, s.queues 0⟩ =
      some (Locked.fetch ⟨s.tasks, s.queues 0⟩ 0) := by
  have hrun : ((system : System (RunQueues Nat Nat) _).runWhile System.anyStep .boot
      [.add 0 1, .add 0 2]).map (fun s => (s.queues 0).readyCount) = some 2 := by decide +kernel
  obtain ⟨s, hreach, -, hcount⟩ := System.exists_reachable hrun rfl
  have hend := fetch_ends hreach 0 (by simp [hcount]) 0
  rw [hcount] at hend
  exact ⟨s, hcount, hend⟩

/-- A realtime and two normal tasks on CPU 0; CPU 1 steals, first the realtime task,
with one normal task in the same batch. -/
theorem run_queues_agree_stolen : ∃ s : RunQueues Nat Nat, system.Reachable System.anyStep s ∧
      (s.queues 0).members = [1] ∧ (s.queues 1).members = [2] ∧
      (s.tasks 7).inner.onCpu = some 1 ∧ s.runnable 1 = true ∧ s.overloaded 0 = false := by
  have hrun : ((system : System (RunQueues Nat Nat) _).runWhile System.anyStep .boot
      [.setPolicy 7 .rr 5, .add 0 1, .add 0 2, .add 0 3, .add 0 7, .exitMark 3,
        .steal 0 1 false, .remove 0 3]).map
      (fun s => ((s.queues 0).members, (s.queues 1).members, (s.tasks 7).inner.onCpu)) =
      some ([1], [2], some 1) := by decide +kernel
  obtain ⟨s, hreach, -, hv⟩ := System.exists_reachable hrun rfl
  simp only [Prod.mk.injEq] at hv
  obtain ⟨-, -, -, -, -, -, hrunnable, -⟩ := run_queues_agree hreach 1
  obtain ⟨-, -, -, -, -, -, -, hover, -⟩ := run_queues_agree hreach 0
  rw [hv.2.1] at hrunnable
  rw [hv.1] at hover
  exact ⟨s, hreach, hv.1, hv.2.1, hv.2.2, hrunnable.mpr (by simp), by simpa using hover⟩

end Whusp.Task.RunQueue
