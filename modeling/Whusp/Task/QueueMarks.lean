import Whusp.Task.Wakeup

/-!
# The run-queue marks of a task

A task says itself whether it is on a run queue (`on_rq`) and on whose
(`queued_cpu`).  The run queues (`TaskManager` of `task/sched.rs`) change these
marks under the task's lock when they take a task in, hand it to a CPU or drop
it.  Each definition is one such critical section; `none` is a failed `assert!`.
-/

namespace Whusp.Task

open Option

universe u

/-- `RemoteEnqueueResult` of `task/sched.rs`. -/
inductive RemoteEnqueueResult where
  /-- The task entered the run queue. -/
  | enqueued
  /-- The task exited, is stopped, or is already on a queue or a CPU. -/
  | stale
  /-- The task may not run on the CPU whose list held it. -/
  | retarget
  deriving DecidableEq

/-- `ClaimResult` of `task/sched.rs`. -/
inductive ClaimResult where
  /-- The CPU owns the task now. -/
  | claimed
  /-- The task may not run on this CPU, or its process is held by one thread. -/
  | ineligible
  /-- The task is job-control stopped and left the queue. -/
  | stopped
  | exited

namespace TaskInner

variable {Cpu : Type u}

/-- Whether the task is now marked for `cpu`'s run queue; a stopped task is turned away. -/
def markQueuedOn (t : TaskInner Cpu) (cpu : Cpu) : Option (TaskInner Cpu × Bool) :=
  -- assert_eq!(status, Ready); assert!(!on_rq); assert!(on_cpu.is_none())
  if t.taskStatus = .ready ∧ t.onRq = false ∧ t.onCpu.isNone then
    if t.jobControlStopped then some (t, false)
    else some ({ t with onRq := true, queuedCpu := some cpu }, true)
  else none

/-- The task-lock section of `TaskManager::add_remote` on `cpu`; `allowed` says
whether the task's affinity mask has `cpu`. -/
def addRemote (t : TaskInner Cpu) (cpu : Cpu) (allowed : Bool) :
    Option (TaskInner Cpu × RemoteEnqueueResult) :=
  if t.taskStatus = .exited ∨ t.jobControlStopped ∨ t.onRq ∨ t.onCpu.isSome then
    some (t, .stale)
  -- assert_eq!(status, Ready, "remote wake-list contained a non-ready task")
  else if t.taskStatus = .ready then
    if allowed then some ({ t with onRq := true, queuedCpu := some cpu }, .enqueued)
    else some (t, .retarget)
  else none

def clearQueued (t : TaskInner Cpu) : Option (TaskInner Cpu) :=
  if t.onRq then some { t with onRq := false, queuedCpu := none } else none

/-- `TaskManager::claim_for_cpu` on the run queue of `self` for `cpu`; `eligible`
says whether the affinity mask has `cpu` and `try_claim_scheduler_task` let
the task pass. -/
def claimForCpu [DecidableEq Cpu] (t : TaskInner Cpu) (self cpu : Cpu) (eligible : Bool) :
    Option (TaskInner Cpu × ClaimResult) :=
  if t.taskStatus = .exited then t.clearQueued.map fun t' => (t', .exited)
  else if t.jobControlStopped then t.clearQueued.map fun t' => (t', .stopped)
  -- the four assertions of the claim path
  else if t.taskStatus = .ready ∧ t.onRq ∧ t.queuedCpu = some self ∧ t.onCpu.isNone then
    if eligible then
      some ({ t with
        onRq := false, queuedCpu := none, onCpu := some cpu, taskStatus := .running }, .claimed)
    else some (t, .ineligible)
  else none

/-! ## What the sections did -/

variable {cpu : Cpu} {t t' : TaskInner Cpu}

/-- Marking a task: it was ready and nowhere, and a stopped one stays so. -/
theorem markQueuedOn_eq_some {b : Bool} (h : t.markQueuedOn cpu = some (t', b)) :
    t.taskStatus = .ready ∧ t.onRq = false ∧ t.onCpu = none ∧
      ((t.jobControlStopped = true ∧ b = false ∧ t' = t) ∨ (t.jobControlStopped = false ∧ b = true ∧
          t' = { t with onRq := true, queuedCpu := some cpu })) := by
  obtain ⟨⟨hr, hq, hc⟩, h⟩ := ite_none_right_eq_some.mp h
  refine ⟨hr, hq, by simpa using hc, ?_⟩
  cases hs : t.jobControlStopped <;> simp_all

/-- A remote enqueue is stale, sets the mark, or asks for another target. -/
theorem addRemote_eq_some {allowed : Bool} {r : RemoteEnqueueResult}
    (h : t.addRemote cpu allowed = some (t', r)) : (r = .stale ∧ t' = t ∧
        (t.taskStatus = .exited ∨ t.jobControlStopped ∨ t.onRq ∨ t.onCpu.isSome)) ∨
      (t.taskStatus = .ready ∧ t.onRq = false ∧ t.onCpu = none ∧ t.jobControlStopped = false ∧
        ((r = .enqueued ∧ t' = { t with onRq := true, queuedCpu := some cpu }) ∨
          (r = .retarget ∧ t' = t))) := by
  unfold addRemote at h
  split at h
  next hstale =>
    cases h
    exact .inl ⟨rfl, rfl, hstale⟩
  rename_i hfresh
  obtain ⟨hr, h⟩ := ite_none_right_eq_some.mp h
  simp only [not_or, Bool.not_eq_true, isSome_eq_false_iff, isNone_iff_eq_none] at hfresh
  refine .inr ⟨hr, hfresh.2.2.1, hfresh.2.2.2, hfresh.2.1, ?_⟩
  cases allowed <;> simp_all

/-- Only a marked task loses its mark. -/
theorem clearQueued_eq_some (h : t.clearQueued = some t') :
    t.onRq = true ∧ t' = { t with onRq := false, queuedCpu := none } := by
  obtain ⟨hq, h⟩ := ite_none_right_eq_some.mp h
  exact ⟨hq, (some.inj h).symm⟩

/-- A claim drops a dead or stopped task, and runs another one if this CPU may. -/
theorem claimForCpu_eq_some [DecidableEq Cpu] {self : Cpu} {eligible : Bool} {r : ClaimResult}
    (h : t.claimForCpu self cpu eligible = some (t', r)) :
    t.onRq = true ∧ (((r = .exited ∧ t.taskStatus = .exited ∨
            r = .stopped ∧ t.taskStatus ≠ .exited ∧ t.jobControlStopped) ∧
          t' = { t with onRq := false, queuedCpu := none }) ∨
        (t.taskStatus = .ready ∧ t.jobControlStopped = false ∧ t.queuedCpu = some self ∧
          t.onCpu = none ∧
          ((r = .ineligible ∧ t' = t) ∨ (r = .claimed ∧ t' = { t with
              onRq := false, queuedCpu := none, onCpu := some cpu,
              taskStatus := .running })))) := by
  unfold claimForCpu at h
  split at h
  next hexit =>
    obtain ⟨t₁, h₁, ⟨⟩⟩ := map_eq_some_iff.mp h
    obtain ⟨hq, rfl⟩ := clearQueued_eq_some h₁
    exact ⟨hq, .inl ⟨.inl ⟨rfl, hexit⟩, rfl⟩⟩
  next hexit =>
    split at h
    next hstop =>
      obtain ⟨t₁, h₁, ⟨⟩⟩ := map_eq_some_iff.mp h
      obtain ⟨hq, rfl⟩ := clearQueued_eq_some h₁
      exact ⟨hq, .inl ⟨.inr ⟨rfl, hexit, hstop⟩, rfl⟩⟩
    next hstop =>
      obtain ⟨⟨hr, hq, hown, hc⟩, h⟩ := ite_none_right_eq_some.mp h
      refine ⟨hq, .inr ⟨hr, by simpa using hstop, hown, by simpa using hc, ?_⟩⟩
      cases eligible <;> simp_all

end TaskInner

end Whusp.Task
