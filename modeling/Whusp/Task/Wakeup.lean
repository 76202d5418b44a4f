import Whusp.Lib.Transition

/-!
# Task scheduling state and the wakeup critical sections

The scheduler part of `TaskControlBlockInner` (`task/tcb.rs`) and the task-lock
critical sections that change it when a task blocks, is woken and completes its
context switch (`task/sched.rs`, `task/processor.rs`).

Each definition is one critical section.  A failed `assert!` stops the kernel, so
a section returns `none` where the source panics.  What a section leaves for its
caller to do after the lock is dropped (an enqueue) is part of its result.
-/

namespace Whusp.Task

open Option

universe u

/-- `TaskStatus` of `task/tcb.rs`. -/
inductive TaskStatus where
  | ready
  | running
  | blocked
  | exited
  deriving DecidableEq

/-- `SwitchReason` of `task/processor.rs`. -/
inductive SwitchReason where
  | yield
  | block
  | exit
  deriving DecidableEq

def SwitchReason.prepared : SwitchReason → TaskStatus
  | .yield => .running
  | .block => .blocked
  | .exit => .exited

/-- The scheduler fields of `TaskControlBlockInner`. -/
structure TaskInner (Cpu : Type u) where
  taskStatus : TaskStatus
  /-- The CPU that owns the task's kernel context. -/
  onCpu : Option Cpu
  /-- Whether the task is on some CPU's run queue. -/
  onRq : Bool
  /-- The CPU whose run queue holds the task. -/
  queuedCpu : Option Cpu
  /-- A wakeup arrived between `Blocked` and the completion of the switch. -/
  wakePending : Bool
  /-- Whether that wakeup asked for the front of the queue. -/
  wakeFront : Bool
  /-- The task-local gate of a job-control stop. -/
  jobControlStopped : Bool

/-- What `wakeup_task_with_placement` found, and what is left to do after the
task lock is dropped. -/
inductive WakeOutcome where
  /-- The task was not `Blocked`: the call returns `false`. -/
  | ignored
  /-- The task is still on its CPU and a wakeup is already pending: `false`. -/
  | merged
  /-- The task is still on its CPU: the wakeup is left for switch completion. -/
  | pended
  /-- The task became `Ready` and the caller now calls `enqueue_woken_task`. -/
  | enqueue
  /-- The task became `Ready` but is job-control stopped: nothing is enqueued. -/
  | parked
  deriving DecidableEq

def WakeOutcome.answer : WakeOutcome → Bool
  | .ignored => false
  | .merged => false
  | .pended => true
  | .enqueue => true
  | .parked => true

/-- The wakeups that the kernel delivers to a blocked task on its own account,
whatever that task waits for. -/
inductive WakeSource where
  | signal
  /-- The wakeup of every thread in `queue_signal_to_process`. -/
  | processWide
  /-- `wakeup_timer_task` for a timer entry left from an earlier wait. -/
  | timer

/-- Timer wakeups go through `wakeup_front_task`, signals through `wakeup_task`. -/
def WakeSource.front : WakeSource → Bool
  | .signal => false
  | .processWide => false
  | .timer => true

variable {Cpu : Type u}

namespace TaskInner

/-- A task that sleeps off its CPU, with no wakeup and no queue. -/
def sleeping : TaskInner Cpu where
  taskStatus := .blocked
  onCpu := none
  onRq := false
  queuedCpu := none
  wakePending := false
  wakeFront := false
  jobControlStopped := false

def runningOn (cpu : Cpu) : TaskInner Cpu :=
  { sleeping with taskStatus := .running, onCpu := some cpu }

/-- The task-lock section of `wakeup_task_with_placement`. -/
def wakeupSection (t : TaskInner Cpu) (front : Bool) : Option (TaskInner Cpu × WakeOutcome) :=
  if t.taskStatus = .blocked then
    -- assert!(!task_inner.on_rq, "blocked task is still on a run queue")
    if t.onRq then none
    else if t.onCpu.isSome then
      if t.wakePending then
        some ({ t with wakeFront := t.wakeFront || front }, .merged)
      else
        some ({ t with wakePending := true, wakeFront := front }, .pended)
    -- assert!(!task_inner.wake_pending, "off-CPU task retained a wakeup")
    else if t.wakePending then none
    else
      some ({ t with taskStatus := .ready }, if t.jobControlStopped then .parked else .enqueue)
  else some (t, .ignored)

/-- The task-lock section of `prepare_current_switch_inner` for an unconditional
switch of the task that runs on `cpu`. -/
def prepareSwitch [DecidableEq Cpu] (t : TaskInner Cpu) (cpu : Cpu) (reason : SwitchReason) :
    Option (TaskInner Cpu) :=
  if t.taskStatus = .running ∧ t.onCpu = some cpu ∧ t.onRq = false ∧ t.wakePending = false then
    match reason with
    | .yield => some t
    | .block => some { t with taskStatus := .blocked }
    | .exit => some { t with taskStatus := .exited }
  else none

/-- The task-lock section of `finish_current_switch` on `cpu`.  The second
component is the `enqueue` local of the source: `some front` where the task is
to be queued again. -/
def finishSwitch [DecidableEq Cpu] (t : TaskInner Cpu) (cpu : Cpu) (reason : SwitchReason) :
    Option (TaskInner Cpu × Option Bool) :=
  if t.onCpu = some cpu ∧ t.onRq = false then
    match reason with
    | .yield =>
      if t.taskStatus = .running ∧ t.wakePending = false then
        some ({ t with onCpu := none, taskStatus := .ready },
          if t.jobControlStopped then none else some false)
      else none
    | .block =>
      if t.taskStatus = .blocked then
        if t.wakePending then
          some ({ t with
              onCpu := none, wakePending := false, wakeFront := false, taskStatus := .ready },
            if t.jobControlStopped then none else some t.wakeFront)
        else some ({ t with onCpu := none }, none)
      else none
    | .exit =>
      if t.taskStatus = .exited ∧ t.wakePending = false then
        some ({ t with onCpu := none }, none)
      else none
  else none

/-! ## What the sections do to a blocked task -/

variable {front : Bool} {t t' : TaskInner Cpu} {cpu : Cpu} {reason : SwitchReason}

lemma wakeupSection_of_not_blocked (h : t.taskStatus ≠ .blocked) :
    t.wakeupSection front = some (t, .ignored) := by
  simp [wakeupSection, h]

/-- The switch of a blocked task without a pending wakeup completes asleep. -/
lemma finishSwitch_asleep [DecidableEq Cpu] {r : TaskInner Cpu × Option Bool}
    (hb : t.taskStatus = .blocked) (hwp : t.wakePending = false)
    (h : t.finishSwitch cpu .block = some r) :
    r.1.taskStatus = .blocked ∧ r.1.wakePending = false := by
  simp only [finishSwitch, hb, hwp] at h
  obtain ⟨-, h⟩ := ite_none_right_eq_some.mp h
  cases h
  simp

/-- A prepared block publishes `Blocked` and carries no pending wakeup. -/
lemma prepareSwitch_asleep [DecidableEq Cpu] {i : TaskInner Cpu}
    (h : t.prepareSwitch cpu .block = some i) :
    i.taskStatus = .blocked ∧ i.wakePending = false := by
  obtain ⟨hrun, rfl⟩ := of_guard h
  exact ⟨rfl, hrun.2.2.2⟩

/-! ## What a section that does not panic found and left -/

/-- A wakeup is ignored, waits for the switch, or makes the task ready. -/
lemma wakeupSection_eq_some {o : WakeOutcome} (h : t.wakeupSection front = some (t', o)) :
    (t.taskStatus ≠ .blocked ∧ o = .ignored ∧ t' = t) ∨ (t.taskStatus = .blocked ∧ t.onRq = false ∧
        ((t.onCpu.isSome ∧ t.wakePending = true ∧ o = .merged ∧
            t' = { t with wakeFront := t.wakeFront || front }) ∨
          (t.onCpu.isSome ∧ t.wakePending = false ∧ o = .pended ∧
            t' = { t with wakePending := true, wakeFront := front }) ∨
          (t.onCpu = none ∧ t.wakePending = false ∧
            o = (if t.jobControlStopped then .parked else .enqueue) ∧
            t' = { t with taskStatus := .ready }))) := by
  unfold wakeupSection at h
  split at h
  next hb =>
    obtain ⟨hrq, h⟩ := ite_none_left_eq_some.mp h
    refine .inr ⟨hb, by simpa using hrq, ?_⟩
    cases hc : t.onCpu <;> cases hw : t.wakePending <;> simp_all
  next hb =>
    cases h
    exact .inl ⟨hb, rfl, rfl⟩

/-- Only the running task of a CPU prepares a switch. -/
lemma prepareSwitch_eq_some [DecidableEq Cpu] (h : t.prepareSwitch cpu reason = some t') :
    (t.taskStatus = .running ∧ t.onCpu = some cpu ∧ t.onRq = false ∧ t.wakePending = false) ∧
      t' = { t with taskStatus := reason.prepared } := by
  obtain ⟨hrun, h⟩ := ite_none_right_eq_some.mp h
  refine ⟨hrun, ?_⟩
  cases reason with
  | yield =>
    obtain ⟨hst, -⟩ := hrun
    cases t
    subst hst
    exact (some.inj h).symm
  | block | exit => exact (some.inj h).symm

/-- The end of a switch answers a wakeup that came in between. -/
lemma finishSwitch_eq_some [DecidableEq Cpu] {e : Option Bool}
    (h : t.finishSwitch cpu reason = some (t', e)) : t.onCpu = some cpu ∧ t.onRq = false ∧
      ((reason = .yield ∧ t.taskStatus = .running ∧ t.wakePending = false ∧
          t' = { t with onCpu := none, taskStatus := .ready } ∧
          e = if t.jobControlStopped then none else some false) ∨
        (reason = .block ∧ t.taskStatus = .blocked ∧ t.wakePending = true ∧ t' = { t with
            onCpu := none, wakePending := false, wakeFront := false, taskStatus := .ready } ∧
          e = if t.jobControlStopped then none else some t.wakeFront) ∨
        (reason = .block ∧ t.taskStatus = .blocked ∧ t.wakePending = false ∧
          t' = { t with onCpu := none } ∧ e = none) ∨
        (reason = .exit ∧ t.taskStatus = .exited ∧ t.wakePending = false ∧
          t' = { t with onCpu := none } ∧ e = none)) := by
  obtain ⟨⟨hc, hq⟩, h⟩ := ite_none_right_eq_some.mp h
  refine ⟨hc, hq, ?_⟩
  cases reason with
  | yield =>
    obtain ⟨⟨hr, hw⟩, ⟨⟩⟩ := of_guard h
    exact .inl ⟨rfl, hr, hw, rfl, rfl⟩
  | block =>
    cases hw : t.wakePending <;> simp_all
  | exit =>
    obtain ⟨⟨hr, hw⟩, ⟨⟩⟩ := of_guard h
    exact .inr (.inr (.inr ⟨rfl, hr, hw, rfl, rfl⟩))

end TaskInner

end Whusp.Task
