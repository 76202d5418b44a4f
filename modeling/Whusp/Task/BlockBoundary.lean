import Whusp.Task.QueueMarks
import Whusp.Task.Signal

/-!
# Wakeups at the block boundary

A task that blocks publishes `Blocked` under its own lock, switches away, and its
CPU completes the switch later, under the lock again (`prepare_current_switch`
and `finish_current_switch` of `task/processor.rs`).  Wakeups from other CPUs
(`wakeup_task_with_placement`, also at the end of `queue_signal_to_task`) may fall
before, between and after the two.  A wakeup before the completion is left as
`wake_pending`, and the completion makes the task `Ready`; one after it makes the
task `Ready` itself.  Whoever makes the task `Ready` calls `enqueue_woken_task`
after dropping the lock, which puts the task on a run queue, directly or through
the remote wake list of another CPU.

Signals also stop and continue tasks.  A stop closes the job-control gate of the task
and takes it off its run queue; a closed gate turns enqueues away.  A continue opens
the gate and queues the task again if it finds it `Ready` and nowhere.

The model follows one task.  Every critical section on its lock, or on that of its
process, and every atomic step of its remote-wake node is one step; calls that are
between two of their sections are part of the state.  `answered`, `madeReady`,
`queued` and `heldBack` count, for the last time the task blocked, the wakeup calls
that returned `true`, the transitions to `Ready`, and the enqueues of these that
entered a run queue or were kept out by the gate.
-/

namespace Whusp.Task.BlockBoundary

open Whusp.Lib Option SignalFlags

universe u

variable {Cpu : Type u} [DecidableEq Cpu]

/-! ## Sending a signal -/

/-- The test of `prepare_current_switch_inner` and `queue_signal_to_task`: whether
a set of signals has an unmasked one in the process's `signal_wake_mask`, whose
bit 0 stands for signal 1. -/
def interrupts (wakeMask : BitVec 64) (signals mask : SignalFlags) : Bool :=
  ((signals &&& ~~~mask) >>> 1).setWidth 64 &&& wakeMask != 0

/-- What a call about a signal still has to do to the task, one critical section each. -/
inductive Section where
  /-- `resume_process_from_job_control_stop` under the lock of the process. -/
  | resumeProcess
  /-- `clear_pending_signals`. -/
  | clear (signals : SignalFlags)
  /-- The resume opens the gate; `changed` if it found the process stopped. -/
  | resumeTask (changed : Bool)
  /-- `add_task`, of a task that the resume found `Ready` and nowhere. -/
  | add
  /-- `request_process_job_control_stop` under the lock of the process. -/
  | requestStop (signum : Nat)
  | stopTask
  /-- `remove_ready_task_for_job_stop`. -/
  | removeReady
  /-- The signals become pending. -/
  | queue (signals : SignalFlags)
  | wake

def STOP_SIGNALS : SignalFlags :=
  single SIGSTOP ||| single SIGTSTP ||| single SIGTTIN ||| single SIGTTOU

def jobControlStopSignum (signal : SignalFlags) : Option Nat :=
  [SIGSTOP, SIGTSTP, SIGTTIN, SIGTTOU].find? (has signal)

/-- `queue_signal_to_task`.  `handled` says whether the process handles SIGCONT, and `stops` whether
a stop signal other than SIGSTOP is neither ignored, handled nor masked. -/
def queueSignalToTask (signal : SignalFlags) (handled stops : Bool) : List Section :=
  if signal = 0 then []
  else
    (if has signal SIGKILL then [.resumeProcess] else []) ++
    (if has signal SIGCONT then [.resumeProcess] else []) ++
    if has signal SIGCONT ∧ handled = false then []
    else
      match jobControlStopSignum signal with
      | some signum => if signum = SIGSTOP ∨ stops then [.requestStop signum] else [.queue signal]
      | none => [.queue signal]

/-! ## The state and its steps -/

/-- One task and the calls about it that are under way. -/
structure State (Cpu : Type u) where
  task : TaskInner Cpu
  /-- The `job_control_stopped` of the process. -/
  processStopped : Bool
  pendingSwitch : Option SwitchReason
  pendingSignals : SignalFlags
  signalMask : SignalFlags
  /-- Calls about signals, with their sections still to come. -/
  sending : List (List Section)
  /-- Calls of `enqueue_woken_task` that have not reached a queue, with `front`. -/
  calls : List Bool
  /-- Calls of `requeue_task_after_run` that have not reached a queue. -/
  requeues : Nat
  /-- The remote-wake node, where linked: the CPU whose list has it, and `front`. -/
  node : Option (Cpu × Bool)
  /-- Wakeup calls of the last blocking episode that returned `true`. -/
  answered : Nat
  /-- Transitions to `Ready` of the last blocking episode. -/
  madeReady : Nat
  /-- Run-queue insertions by `enqueue_woken_task` in the last blocking episode. -/
  queued : Nat
  /-- Enqueues of the last blocking episode that the gate kept out. -/
  heldBack : Nat
  /-- Whether the gate was closed at some time of the last blocking episode. -/
  gated : Bool
  /-- Whether the last block was `block_current_unless_interrupting_signal`. -/
  interruptible : Bool

/-- The steps of the task, its CPU and the other CPUs. -/
inductive Action (Cpu : Type u) where
  /-- The task, running on `cpu`, prepares a switch; with `interruptible` set an
      interrupting signal rejects it. -/
  | prepare (cpu : Cpu) (reason : SwitchReason) (interruptible : Bool)
  | finish (cpu : Cpu)
  /-- Some CPU calls `wakeup_task` or `wakeup_front_task`. -/
  | wakeup (front : Bool)
  /-- Some CPU calls `queue_signal_to_task`. -/
  | queueSignal (signal : SignalFlags) (handled stops : Bool)
  /-- The running task takes a stop signal in `stop_current_task_if_needed`. -/
  | stopCurrent (signum : Nat)
  /-- The `i`-th call about a signal runs its next section.  `choice` is what that finds: whether
      the process is a zombie, or whether the run queue still has the task. -/
  | advance (i : Nat) (cpu : Cpu) (choice : Bool)
  | setMask (mask : SignalFlags)
  /-- The running task takes signals for delivery. -/
  | takeSignals (signals : SignalFlags)
  /-- The `i`-th `enqueue_woken_task` call adds the task to `cpu`'s run queue. -/
  | enqueueLocal (i : Nat) (cpu : Cpu)
  /-- The `i`-th `enqueue_woken_task` call pushes the task to `cpu`'s list. -/
  | pushRemote (i : Nat) (cpu : Cpu)
  /-- `cpu` takes the task off its remote wake list. -/
  | drain (cpu : Cpu) (allowed : Bool)
  /-- A `requeue_task_after_run` call adds the task to `cpu`'s run queue. -/
  | requeue (cpu : Cpu)
  /-- The run queue of `self` hands the task to `cpu`. -/
  | claim (self cpu : Cpu) (eligible : Bool)

namespace State

/-- `wakeup_task_with_placement`. -/
def wakeup (s : State Cpu) (front : Bool) : Option (State Cpu) :=
  (s.task.wakeupSection front).map fun r =>
    { s with
      task := r.1
      calls := if r.2 = .enqueue then front :: s.calls else s.calls
      answered := if r.2.answer then s.answered + 1 else s.answered
      madeReady :=
        if r.2 = .enqueue ∨ r.2 = .parked then s.madeReady + 1 else s.madeReady
      heldBack := if r.2 = .parked then s.heldBack + 1 else s.heldBack }

/-- `prepare_current_switch_inner` on `cpu`. -/
def prepare (wakeMask : BitVec 64) (s : State Cpu) (cpu : Cpu) (reason : SwitchReason)
    (interruptible : Bool) : Option (State Cpu) :=
  -- assert!(processor.pending_switch.is_none())
  if s.pendingSwitch.isSome then none
  else match s.task.prepareSwitch cpu reason with
    | none => none
    | some t =>
      -- the task goes on running with the signal pending
      if interruptible && interrupts wakeMask s.pendingSignals s.signalMask then some s
      else if reason = .block then
        some { s with
          task := t, pendingSwitch := some reason
          answered := 0, madeReady := 0, queued := 0, heldBack := 0
          gated := t.jobControlStopped, interruptible := interruptible }
      else some { s with task := t, pendingSwitch := some reason }

/-- `finish_current_switch` on `cpu`. -/
def finish (s : State Cpu) (cpu : Cpu) : Option (State Cpu) :=
  s.pendingSwitch.bind fun reason =>
    (s.task.finishSwitch cpu reason).map fun r =>
      match reason with
      | .yield =>
        { s with
          task := r.1, pendingSwitch := none
          requeues := if r.2.isSome then s.requeues + 1 else s.requeues }
      | .block =>
        { s with
          task := r.1, pendingSwitch := none
          calls := r.2.toList ++ s.calls
          madeReady := if r.1.taskStatus = .ready then s.madeReady + 1 else s.madeReady
          heldBack := if r.1.taskStatus = .ready ∧ r.2.isNone then s.heldBack + 1 else s.heldBack }
      | .exit => { s with task := r.1, pendingSwitch := none }

/-- A call about a signal goes on with these sections. -/
def after (s : State Cpu) (i : Nat) (rest : List Section) : State Cpu :=
  { s with sending := s.sending.set i rest }

def runSection (wakeMask : BitVec 64) (s : State Cpu) (i : Nat) (cpu : Cpu) (choice : Bool)
    (rest : List Section) : Section → Option (State Cpu)
  | .resumeProcess =>
    some { s.after i (.clear STOP_SIGNALS :: .resumeTask s.processStopped :: rest) with
      processStopped := false }
  | .clear signals => some { s.after i rest with pendingSignals := s.pendingSignals.remove signals }
  | .resumeTask changed =>
    let parked := changed ∧ s.task.taskStatus = .ready ∧ s.task.onRq = false ∧ s.task.onCpu.isNone
    some { s.after i (if parked then .add :: rest else rest) with
      task := { s.task with jobControlStopped := false } }
  | .add => (s.task.markQueuedOn cpu).map fun r => { s.after i rest with task := r.1 }
  | .requestStop signum =>
    if choice ∨ s.processStopped then some (s.after i rest)
    else some { s.after i (.stopTask :: .removeReady ::
        .clear (single SIGCONT ||| single signum) :: rest) with processStopped := true }
  | .stopTask =>
    if s.task.taskStatus = .exited then some (s.after i rest)
    else some { s.after i rest with
      task := { s.task with jobControlStopped := true }, gated := true }
  | .removeReady =>
    if choice then s.task.clearQueued.map fun t => { s.after i rest with task := t }
    else some (s.after i rest)
  | .queue signals =>
    some { s.after i (if interrupts wakeMask signals s.signalMask then .wake :: rest else rest) with
      pendingSignals := s.pendingSignals ||| signals }
  | .wake => (s.after i rest).wakeup false

def advance (wakeMask : BitVec 64) (s : State Cpu) (i : Nat) (cpu : Cpu) (choice : Bool) :
    Option (State Cpu) :=
  match s.sending[i]? with
  | some (sec :: rest) => s.runSection wakeMask i cpu choice rest sec
  | _ => none

/-- `enqueue_task_on_cpu` in `enqueue_woken_task`. -/
def enqueueLocal (s : State Cpu) (i : Nat) (cpu : Cpu) : Option (State Cpu) :=
  if i < s.calls.length then
    (s.task.markQueuedOn cpu).map fun r =>
      { s with
        task := r.1, calls := s.calls.eraseIdx i
        queued := if r.2 then s.queued + 1 else s.queued
        heldBack := if r.2 then s.heldBack else s.heldBack + 1 }
  else none

/-- `queue_remote_wake` in `enqueue_woken_task`. -/
def pushRemote (s : State Cpu) (i : Nat) (cpu : Cpu) : Option (State Cpu) :=
  s.calls[i]?.bind fun front =>
    -- claim_remote_wake_node asserts that the node is not linked
    if s.node.isSome then none
    else some { s with calls := s.calls.eraseIdx i, node := some (cpu, front) }

/-- `drain_remote_wakes` on `cpu`, for this task. -/
def drain (s : State Cpu) (cpu : Cpu) (allowed : Bool) : Option (State Cpu) :=
  s.node.bind fun n =>
    if n.1 = cpu then
      (s.task.addRemote cpu allowed).map fun r =>
        match r.2 with
        | .enqueued => { s with task := r.1, node := none, queued := s.queued + 1 }
        | .stale => { s with task := r.1, node := none, heldBack := s.heldBack + 1 }
        | .retarget => { s with task := r.1, node := none, calls := n.2 :: s.calls }
    else none

/-- `requeue_task_after_run`. -/
def requeue (s : State Cpu) (cpu : Cpu) : Option (State Cpu) :=
  if 0 < s.requeues then
    (s.task.markQueuedOn cpu).map fun r => { s with task := r.1, requeues := s.requeues - 1 }
  else none

def step (wakeMask : BitVec 64) (s : State Cpu) : Action Cpu → Option (State Cpu)
  | .prepare cpu reason interruptible => s.prepare wakeMask cpu reason interruptible
  | .finish cpu => s.finish cpu
  | .wakeup front => s.wakeup front
  | .queueSignal signal handled stops =>
    some { s with sending := s.sending ++ [queueSignalToTask signal handled stops] }
  | .stopCurrent signum =>
    if s.task.taskStatus = .running ∧ s.pendingSwitch.isNone then
      some { s with sending := s.sending ++ [[.clear (single signum), .requestStop signum]] }
    else none
  | .advance i cpu choice => s.advance wakeMask i cpu choice
  | .setMask mask =>
    if s.task.taskStatus = .running ∧ s.pendingSwitch.isNone then
      some { s with signalMask := mask }
    else none
  | .takeSignals signals =>
    if s.task.taskStatus = .running ∧ s.pendingSwitch.isNone then
      some { s with pendingSignals := s.pendingSignals &&& ~~~signals }
    else none
  | .enqueueLocal i cpu => s.enqueueLocal i cpu
  | .pushRemote i cpu => s.pushRemote i cpu
  | .drain cpu allowed => s.drain cpu allowed
  | .requeue cpu => s.requeue cpu
  | .claim self cpu eligible =>
    -- a run queue only hands out a task that it holds
    if s.task.queuedCpu = some self then
      (s.task.claimForCpu self cpu eligible).map fun r => { s with task := r.1 }
    else none

def start (cpu : Cpu) (pending mask : SignalFlags) : State Cpu where
  task := TaskInner.runningOn cpu
  processStopped := false
  pendingSwitch := none
  pendingSignals := pending
  signalMask := mask
  sending := []
  calls := []
  requeues := 0
  node := none
  answered := 0
  madeReady := 0
  queued := 0
  heldBack := 0
  gated := false
  interruptible := false

end State

open State

/-- The runs of one task in a process with the given `signal_wake_mask`. -/
def system (wakeMask : BitVec 64) : System (State Cpu) (Action Cpu) where
  init s := ∃ cpu pending mask, s = start cpu pending mask
  step := step wakeMask

/-! ## The invariant -/

/-- Enqueues by wakeups that are still to reach a run queue. -/
def State.inFlight (s : State Cpu) : Nat := s.calls.length + s.node.toList.length

/-- The next section is the `add_task` of a resume. -/
def adding : List Section → Bool
  | .add :: _ => true
  | _ => false

/-- All enqueues that are still to reach a run queue. -/
def State.underWay (s : State Cpu) : Nat :=
  s.inFlight + s.requeues + s.sending.countP adding

/-- **The condition on job control**: a resume opens the gate of a `Ready` task that is on no queue
with its process found stopped exactly if no enqueue of the task is under way, and a stop takes the
task off its queue only while the gate is closed. -/
def StepOk (s : State Cpu) : Action Cpu → Prop
  | .advance i _ choice =>
    match s.sending[i]? with
    | some (.resumeTask changed :: _) =>
      s.task.taskStatus = .ready → s.task.onRq = false → (changed = true ↔ s.underWay = 0)
    | some (.removeReady :: _) => choice = true → s.task.jobControlStopped = true
    | _ => True
  | _ => True

instance : DecidableRel (@StepOk Cpu) := fun s a => by
  cases a <;> simp only [StepOk] <;> first | infer_instance | (split <;> infer_instance)

/-- What a task is doing, with the switch of its CPU, the transitions to `Ready` in this episode and
the number of enqueues under way. -/
inductive Stage (t : TaskInner Cpu) (switch : Option SwitchReason) (made way : Nat) : Prop where
  /-- The task runs, perhaps about to yield. -/
  | running (hst : t.taskStatus = .running) (hcpu : t.onCpu.isSome) (hrq : t.onRq = false)
      (hwp : t.wakePending = false) (hsw : switch = none ∨ switch = some .yield) (hway : way = 0)
  /-- The task has published `Blocked` and still owns its CPU. -/
  | switching (hst : t.taskStatus = .blocked) (hcpu : t.onCpu.isSome) (hrq : t.onRq = false)
      (hsw : switch = some .block) (hmade : made = 0) (hway : way = 0)
  | asleep (hst : t.taskStatus = .blocked) (hcpu : t.onCpu = none) (hrq : t.onRq = false)
      (hwp : t.wakePending = false) (hsw : switch = none) (hmade : made = 0) (hway : way = 0)
  /-- The task is `Ready`: on a run queue, or with one enqueue under way, or parked
      behind the gate. -/
  | ready (hst : t.taskStatus = .ready) (hcpu : t.onCpu = none) (hwp : t.wakePending = false)
      (hsw : switch = none) (hway : way = 0 ∨ (t.onRq = false ∧ way = 1))
      (hopen : t.onRq = false → t.jobControlStopped = false → way = 1)
  | exiting (hst : t.taskStatus = .exited) (hrq : t.onRq = false) (hwp : t.wakePending = false)
      (hsw : switch = none ∨ switch = some .exit ∧ t.onCpu.isSome) (hway : way = 0)

/-- What holds after every step. -/
structure Inv (s : State Cpu) : Prop where
  stage : Stage s.task s.pendingSwitch s.madeReady s.underWay
  /-- Every answered wakeup has made the task `Ready`, or is pending. -/
  made : s.answered = s.madeReady + if s.task.wakePending then 1 else 0
  /-- At most one call returned `true`. -/
  once : s.answered ≤ 1
  /-- Every transition to `Ready` has its enqueue, under way, done or kept out. -/
  enqueued : s.inFlight + s.queued + s.heldBack = s.madeReady
  gated : s.task.jobControlStopped = true → s.gated = true
  held : s.gated = false → s.heldBack = 0
  /-- A call has at most its next section to add the task. -/
  tails : ∀ sec rest, sec :: rest ∈ s.sending → Section.add ∉ rest

section Sections

omit [DecidableEq Cpu]

variable {s s' : State Cpu}

lemma Inv.start (cpu : Cpu) (pending mask : SignalFlags) : Inv (start cpu pending mask) where
  stage := .running rfl rfl rfl rfl (.inl rfl) rfl
  made := rfl
  once := Nat.zero_le 1
  enqueued := rfl
  gated := nofun
  held _ := rfl
  tails := nofun

/-! ## Each step keeps the invariant -/

lemma Inv.wakeup {front : Bool} (h : Inv s) (hs : s.wakeup front = some s') : Inv s' := by
  obtain ⟨⟨t, o⟩, hr, rfl⟩ := map_eq_some_iff.mp hs
  obtain ⟨hnb, rfl, rfl⟩ | ⟨hb, hrq, hcases⟩ := TaskInner.wakeupSection_eq_some hr
  · exact h
  obtain ⟨stage, made, once, enqueued, gated, held, tails⟩ := h
  cases stage with
  | running hst | ready hst | exiting hst => simp [hst] at hb
  | switching hst hcpu _ hsw hmade hway =>
    -- the task still owns its CPU: the wakeup is merged or left pending
    obtain ⟨-, hwp, rfl, rfl⟩ | ⟨-, hwp, rfl, rfl⟩ | ⟨hoff, -⟩ := hcases
    · exact ⟨.switching hst hcpu hrq hsw hmade hway, made, once, enqueued, gated, held, tails⟩
    · refine ⟨.switching hst hcpu hrq hsw hmade hway, ?_, ?_, enqueued, gated, held, tails⟩ <;>
        simp_all [WakeOutcome.answer]
    · simp [hoff] at hcpu
  | asleep hst hcpu _ hwp hsw hmade hway =>
    obtain ⟨hon, -⟩ | ⟨hon, -⟩ | ⟨-, -, rfl, rfl⟩ := hcases
    · simp [hcpu] at hon
    · simp [hcpu] at hon
    -- the task becomes `Ready` here, and the caller goes on to enqueue it
    unfold underWay inFlight at hway
    unfold inFlight at enqueued
    rw [hmade] at enqueued made
    simp only [hwp, Bool.false_eq_true, if_false] at made
    cases hgate : s.task.jobControlStopped with
    | true =>
      refine ⟨.ready rfl hcpu hwp hsw (.inl ?_) ?_, ?_, ?_, ?_, ?_, ?_, tails⟩ <;>
        simp_all [WakeOutcome.answer, inFlight, underWay]
    | false =>
      refine ⟨.ready rfl hcpu hwp hsw (.inr ⟨hrq, ?_⟩) ?_, ?_, ?_, ?_, ?_, held, tails⟩ <;>
        simp_all [WakeOutcome.answer, inFlight, underWay]

end Sections

variable {wakeMask : BitVec 64} {s s' : State Cpu} {cpu : Cpu}

lemma Inv.prepare {reason : SwitchReason} {interruptible : Bool} (h : Inv s)
    (hs : s.prepare wakeMask cpu reason interruptible = some s') : Inv s' := by
  obtain ⟨hidle, hs⟩ := ite_none_left_eq_some.mp hs
  rcases hp : s.task.prepareSwitch cpu reason with _ | t
  · simp [hp] at hs
  simp only [hp] at hs
  obtain ⟨⟨hst, hcpu, hrq, hwp⟩, rfl⟩ := TaskInner.prepareSwitch_eq_some hp
  split at hs
  · cases hs
    exact h
  obtain ⟨stage, made, once, enqueued, gated, held, tails⟩ := h
  cases stage with
  | switching hst' | asleep hst' | ready hst' | exiting hst' => simp [hst] at hst'
  | running _ hcpu _ _ _ hway =>
    cases reason with
    | yield =>
      cases hs
      exact ⟨.running rfl hcpu hrq hwp (.inr rfl) hway, made, once, enqueued, gated, held, tails⟩
    | block =>
      -- a new blocking episode starts with nothing under way
      cases hs
      have hfly : s.inFlight = 0 := by
        unfold underWay at hway
        omega
      exact ⟨.switching rfl hcpu hrq rfl rfl hway, by simp [hwp], Nat.zero_le 1, hfly, id,
        fun _ => rfl, tails⟩
    | exit =>
      cases hs
      exact ⟨.exiting rfl hrq hwp (.inr ⟨rfl, hcpu⟩) hway, made, once, enqueued, gated, held, tails⟩

lemma Inv.finish (h : Inv s) (hs : s.finish cpu = some s') : Inv s' := by
  obtain ⟨reason, hsw, hs⟩ := bind_eq_some_iff.mp hs
  obtain ⟨⟨t, e⟩, hr, rfl⟩ := map_eq_some_iff.mp hs
  obtain ⟨hcpu, hrq, hcases⟩ := TaskInner.finishSwitch_eq_some hr
  obtain ⟨stage, made, once, enqueued, gated, held, tails⟩ := h
  obtain ⟨rfl, hst, hwp, rfl, rfl⟩ | ⟨rfl, hst, hwp, rfl, rfl⟩ | ⟨rfl, hst, hwp, rfl, rfl⟩ |
    ⟨rfl, hst, hwp, rfl, rfl⟩ := hcases
  · -- a yield: the task is `Ready` and goes back to a run queue
    cases stage with
    | running _ _ _ _ _ hway =>
      unfold underWay inFlight at hway
      cases hgate : s.task.jobControlStopped with
      | true =>
        refine ⟨.ready rfl rfl hwp rfl (.inl ?_) ?_, made, once, enqueued, ?_, held, tails⟩ <;>
          simp_all [inFlight, underWay]
      | false =>
        refine ⟨.ready rfl rfl hwp rfl (.inr ⟨hrq, ?_⟩) ?_, made, once, enqueued, ?_, held,
          tails⟩ <;> simp_all [inFlight, underWay]
    | switching hst' | asleep hst' | ready hst' | exiting hst' => simp [hst] at hst'
  · -- a block with a pending wakeup: the completion makes the task `Ready`
    cases stage with
    | switching _ _ _ _ hmade hway =>
      unfold underWay inFlight at hway
      unfold inFlight at enqueued
      cases hgate : s.task.jobControlStopped with
      | true =>
        refine ⟨.ready rfl rfl rfl rfl (.inl ?_) ?_, ?_, once, ?_, ?_, ?_, tails⟩ <;>
          simp_all [inFlight, underWay]
      | false =>
        refine ⟨.ready rfl rfl rfl rfl (.inr ⟨hrq, ?_⟩) ?_, ?_, once, ?_, ?_, ?_, tails⟩ <;>
          simp_all [inFlight, underWay]
    | asleep _ hoff => simp [hoff] at hcpu
    | running hst' | ready hst' | exiting hst' => simp [hst] at hst'
  · cases stage with
    | switching _ _ _ _ hmade hway =>
      refine ⟨.asleep hst rfl hrq hwp rfl ?_ hway, ?_, once, ?_, gated, ?_, tails⟩ <;>
        simp_all [inFlight]
    | asleep _ hoff => simp [hoff] at hcpu
    | running hst' | ready hst' | exiting hst' => simp [hst] at hst'
  · cases stage with
    | exiting _ _ _ _ hway =>
      exact ⟨.exiting hst hrq hwp (.inl rfl) hway, made, once, enqueued, gated, held, tails⟩
    | running hst' | switching hst' | asleep hst' | ready hst' => simp [hst] at hst'

section Enqueues

omit [DecidableEq Cpu]

variable {s s' : State Cpu} {cpu : Cpu}

/-- A task with an enqueue under way is `Ready`, off every queue and CPU, and has no other enqueue
under way. -/
lemma Inv.of_under_way (h : Inv s) (hcall : 0 < s.underWay) :
    s.task.taskStatus = .ready ∧ s.task.onCpu = none ∧ s.task.onRq = false ∧
      s.task.wakePending = false ∧ s.pendingSwitch = none ∧ s.underWay = 1 := by
  cases h.stage with
  | running _ _ _ _ _ hway | switching _ _ _ _ _ hway | asleep _ _ _ _ _ _ hway
  | exiting _ _ _ _ hway => omega
  | ready hst hcpu hwp hsw hway =>
    obtain hway | ⟨hrq, hone⟩ := hway
    · omega
    · exact ⟨hst, hcpu, hrq, hwp, hsw, hone⟩

/-- **An enqueue ends**: the task is on a queue, or the gate has turned it away. -/
lemma Inv.of_marked {r : TaskInner Cpu × Bool} (h : Inv s) (hcall : 0 < s.underWay)
    (hr : s.task.markQueuedOn cpu = some r) (htask : s'.task = r.1)
    (hsw : s'.pendingSwitch = s.pendingSwitch) (hans : s'.answered = s.answered)
    (hmade : s'.madeReady = s.madeReady) (hgated : s'.gated = s.gated)
    (hway : s'.underWay = 0)
    (hqueued : s'.inFlight + s'.queued + s'.heldBack = s.inFlight + s.queued + s.heldBack)
    (hheld : r.2 = true → s'.heldBack = s.heldBack)
    (htails : ∀ sec rest, sec :: rest ∈ s'.sending → Section.add ∉ rest) : Inv s' := by
  obtain ⟨t, b⟩ := r
  obtain ⟨hst, hcpu, hrq, hwp, hsw', -⟩ := h.of_under_way hcall
  have henq : s'.inFlight + s'.queued + s'.heldBack = s'.madeReady := by
    rw [hqueued, hmade, h.enqueued]
  have honce : s'.answered ≤ 1 := hans ▸ h.once
  have hmade' := h.made
  rw [← hans, ← hmade] at hmade'
  obtain ⟨-, -, -, ⟨hstop, rfl, rfl⟩ | ⟨hopen, rfl, rfl⟩⟩ := TaskInner.markQueuedOn_eq_some hr
  · refine ⟨?_, htask ▸ hmade', honce, henq, fun _ => hgated ▸ h.gated hstop, ?_, htails⟩
    · rw [htask, hsw, hway]
      exact .ready hst hcpu hwp hsw' (.inl rfl) fun _ hgate => by simp [hstop] at hgate
    · intro hno
      rw [hgated, h.gated hstop] at hno
      cases hno
  · refine ⟨?_, by rw [htask]; exact hmade', honce, henq, ?_, ?_, htails⟩
    · rw [htask, hsw, hway]
      exact .ready hst hcpu hwp hsw' (.inl rfl) fun hno => by cases hno
    · rw [htask, hgated]
      exact h.gated
    · rw [hgated, hheld rfl]
      exact h.held

lemma Inv.enqueueLocal {i : Nat} (h : Inv s) (hs : s.enqueueLocal i cpu = some s') : Inv s' := by
  obtain ⟨hi, hs⟩ := ite_none_right_eq_some.mp hs
  obtain ⟨⟨t, b⟩, hr, rfl⟩ := map_eq_some_iff.mp hs
  have hcall : 0 < s.underWay := by
    unfold underWay inFlight
    omega
  obtain ⟨-, -, -, -, -, hone⟩ := h.of_under_way hcall
  have hlen : (s.calls.eraseIdx i).length + 1 = s.calls.length := by
    rw [List.length_eraseIdx_of_lt hi]
    omega
  unfold underWay inFlight at hone
  refine h.of_marked hcall hr rfl rfl rfl rfl rfl ?_ ?_ (fun hb => if_pos hb) h.tails
  · simp only [underWay, inFlight]
    omega
  · cases b with
    | false =>
      show (s.calls.eraseIdx i).length + s.node.toList.length + s.queued + (s.heldBack + 1) =
        s.calls.length + s.node.toList.length + s.queued + s.heldBack
      omega
    | true =>
      show (s.calls.eraseIdx i).length + s.node.toList.length + (s.queued + 1) + s.heldBack =
        s.calls.length + s.node.toList.length + s.queued + s.heldBack
      omega

lemma Inv.requeue (h : Inv s) (hs : s.requeue cpu = some s') : Inv s' := by
  obtain ⟨hre, hs⟩ := ite_none_right_eq_some.mp hs
  obtain ⟨r, hr, rfl⟩ := map_eq_some_iff.mp hs
  have hcall : 0 < s.underWay := by
    unfold underWay
    omega
  obtain ⟨-, -, -, -, -, hone⟩ := h.of_under_way hcall
  refine h.of_marked hcall hr rfl rfl rfl rfl rfl ?_ rfl (fun _ => rfl) h.tails
  simp only [underWay, inFlight] at hone ⊢
  omega

/-- An enqueue under way takes another way. -/
lemma Inv.of_moved (h : Inv s) (htask : s'.task = s.task)
    (hsw : s'.pendingSwitch = s.pendingSwitch) (hans : s'.answered = s.answered)
    (hmade : s'.madeReady = s.madeReady) (hqueued : s'.queued = s.queued)
    (hheld : s'.heldBack = s.heldBack) (hgated : s'.gated = s.gated)
    (hfly : s'.inFlight = s.inFlight) (hway : s'.underWay = s.underWay)
    (htails : ∀ sec rest, sec :: rest ∈ s'.sending → Section.add ∉ rest) : Inv s' := by
  refine ⟨?_, ?_, hans ▸ h.once, ?_, ?_, ?_, htails⟩
  · rw [htask, hsw, hmade, hway]
    exact h.stage
  · rw [hans, hmade, htask]
    exact h.made
  · rw [hfly, hqueued, hheld, hmade]
    exact h.enqueued
  · rw [htask, hgated]
    exact h.gated
  · rw [hgated, hheld]
    exact h.held

lemma Inv.pushRemote {i : Nat} (h : Inv s) (hs : s.pushRemote i cpu = some s') : Inv s' := by
  obtain ⟨front, hi, hs⟩ := bind_eq_some_iff.mp hs
  obtain ⟨hnode, rfl⟩ := of_refusal hs
  have hlt := (List.getElem?_eq_some_iff.mp hi).choose
  have hnone : s.node = none := by simpa using hnode
  have hfly : (s.calls.eraseIdx i).length + 1 = s.inFlight := by
    simp only [inFlight, List.length_eraseIdx_of_lt hlt, hnone, toList_none, List.length_nil]
    omega
  refine h.of_moved rfl rfl rfl rfl rfl rfl rfl hfly ?_ h.tails
  simp only [underWay]
  rw [← hfly]
  rfl

end Enqueues

lemma Inv.drain {allowed : Bool} (h : Inv s) (hs : s.drain cpu allowed = some s') : Inv s' := by
  obtain ⟨n, hn, hs⟩ := bind_eq_some_iff.mp hs
  obtain ⟨-, hs⟩ := ite_none_right_eq_some.mp hs
  obtain ⟨⟨t, r⟩, hr, rfl⟩ := map_eq_some_iff.mp hs
  have hnode : s.node.toList.length = 1 := by simp [hn]
  have hcall : 0 < s.underWay := by
    unfold underWay inFlight
    omega
  obtain ⟨hst, hcpu, hrq, -, -, hone⟩ := h.of_under_way hcall
  unfold underWay inFlight at hone
  -- on the list the task is marked as by a direct enqueue, if it may run there
  have hmark := fun b (hb : s.task.jobControlStopped = !b) =>
    show s.task.markQueuedOn cpu = some (if b then
        { s.task with onRq := true, queuedCpu := some cpu } else s.task, b) by
      cases b <;> simp_all [TaskInner.markQueuedOn]
  obtain ⟨rfl, rfl, hstale⟩ | ⟨-, -, -, hgate, ⟨rfl, rfl⟩ | ⟨rfl, rfl⟩⟩ :=
    TaskInner.addRemote_eq_some hr
  · have hgate : s.task.jobControlStopped = true := by simpa [hst, hcpu, hrq] using hstale
    refine h.of_marked hcall (hmark false hgate) rfl rfl rfl rfl rfl ?_ ?_ nofun h.tails <;>
      simp only [underWay, inFlight, toList_none, List.length_nil] <;> omega
  · refine h.of_marked hcall (hmark true hgate) rfl rfl rfl rfl rfl ?_ ?_ (fun _ => rfl) h.tails <;>
      simp only [underWay, inFlight, toList_none, List.length_nil] <;> omega
  · have hfly : ({ s with node := none, calls := n.2 :: s.calls } : State Cpu).inFlight =
        s.inFlight := by
      simp only [inFlight, toList_none, List.length_nil, List.length_cons]
      omega
    refine h.of_moved rfl rfl rfl rfl rfl rfl rfl hfly ?_ h.tails
    simp only [underWay]
    rw [hfly]

lemma Inv.claim {self : Cpu} {eligible : Bool} {r : TaskInner Cpu × ClaimResult} (h : Inv s)
    (hr : s.task.claimForCpu self cpu eligible = some r) : Inv { s with task := r.1 } := by
  obtain ⟨t, r⟩ := r
  obtain ⟨hq, hcases⟩ := TaskInner.claimForCpu_eq_some hr
  obtain ⟨stage, made, once, enqueued, gated, held, tails⟩ := h
  cases stage with
  | running _ _ hrq | switching _ _ hrq | asleep _ _ hrq | exiting _ hrq => simp [hrq] at hq
  | ready hst hcpu hwp hsw hway =>
    have hway : s.underWay = 0 := hway.resolve_right fun hno => by simp [hq] at hno
    obtain ⟨⟨hexit | ⟨-, -, hstop⟩, rfl⟩⟩ | ⟨-, hgate, -, -, ⟨-, rfl⟩ | ⟨-, rfl⟩⟩ := hcases
    · simp [hst] at hexit
    · -- a stopped task leaves the queue and stays `Ready`
      exact ⟨.ready hst hcpu hwp hsw (.inl hway) fun _ hopen => by simp [hstop] at hopen,
        made, once, enqueued, gated, held, tails⟩
    · exact ⟨.ready hst hcpu hwp hsw (.inl hway) fun hno => by simp [hq] at hno, made, once,
        enqueued, gated, held, tails⟩
    · exact ⟨.running rfl rfl rfl hwp (.inl hsw) hway, made, once, enqueued, gated, held, tails⟩

/-! ## Job control -/

section JobControl

variable {i : Nat} {c rest : List Section} {sec : Section} {choice : Bool}

omit [DecidableEq Cpu] in
lemma underWay_after (hi : s.sending[i]? = some c) (rest : List Section) :
    (s.after i rest).underWay + (if adding c then 1 else 0) =
      s.underWay + if adding rest then 1 else 0 := by
  obtain ⟨hlt, rfl⟩ := List.getElem?_eq_some_iff.mp hi
  have hpos : adding s.sending[i] = true → 0 < s.sending.countP adding := fun h =>
    List.countP_pos_iff.mpr ⟨_, List.getElem_mem hlt, h⟩
  have hset := List.countP_set (p := adding) (a := rest) hlt
  simp only [underWay, after, inFlight]
  rw [hset]
  cases hc : adding s.sending[i] with
  | true =>
    have := hpos hc
    simp only [if_true]
    omega
  | false =>
    simp only [Bool.false_eq_true, if_false]
    omega

lemma adding_of_not_mem (h : Section.add ∉ rest) : adding rest = false := by
  unfold adding
  split
  · simp at h
  · rfl

omit [DecidableEq Cpu] in
lemma Inv.tails_after (h : Inv s) (hrest : ∀ sec rest', rest = sec :: rest' → .add ∉ rest') :
    ∀ sec rest', sec :: rest' ∈ (s.after i rest).sending → Section.add ∉ rest' := by
  intro sec rest' hmem
  obtain hold | hnew := List.mem_or_eq_of_mem_set hmem
  · exact h.tails sec rest' hold
  · exact hrest sec rest' hnew.symm

omit [DecidableEq Cpu] in
/-- The gate matters for a `Ready` task that is on no queue only. -/
lemma Stage.gate {t : TaskInner Cpu} {switch : Option SwitchReason} {made way : Nat} {b : Bool}
    (h : Stage t switch made way)
    (hopen : t.taskStatus = .ready → t.onRq = false → b = false → way = 1) :
    Stage { t with jobControlStopped := b } switch made way := by
  cases h with
  | running a b c d e f => exact .running a b c d e f
  | switching a b c d e f => exact .switching a b c d e f
  | asleep a b c d e f g => exact .asleep a b c d e f g
  | ready a b c d e _ => exact .ready a b c d e (hopen a)
  | exiting a b c d e => exact .exiting a b c d e

omit [DecidableEq Cpu] in
/-- **A section of a call about a signal** keeps the invariant. -/
theorem Inv.runSection (h : Inv s) (hi : s.sending[i]? = some (sec :: rest))
    (hok : StepOk s (.advance i cpu choice))
    (hs : s.runSection wakeMask i cpu choice rest sec = some s') : Inv s' := by
  have hrest := h.tails sec rest (List.mem_of_getElem? hi)
  have hnone : adding rest = false := adding_of_not_mem hrest
  have hrest' : ∀ sec' rest', rest = sec' :: rest' → .add ∉ rest' := by
    rintro sec' rest' rfl
    exact List.not_mem_of_not_mem_cons hrest
  -- a section that is no `add_task` and is followed by none leaves what is under way
  have hkeep : ∀ new, adding (sec :: rest) = false → adding new = false →
      (s.after i new).underWay = s.underWay := by
    intro new hold hnew
    simpa [hold, hnew] using underWay_after hi new
  have hmoved : ∀ new, adding (sec :: rest) = false → adding new = false →
      (∀ sec' rest', new = sec' :: rest' → .add ∉ rest') → Inv (s.after i new) := by
    intro new hold hnew htail
    exact h.of_moved rfl rfl rfl rfl rfl rfl rfl rfl (hkeep new hold hnew) (h.tails_after htail)
  simp only [StepOk, hi] at hok
  cases sec with
  | resumeProcess =>
    cases hs
    have hinv := hmoved (.clear STOP_SIGNALS :: .resumeTask s.processStopped :: rest) rfl rfl
      (by rintro _ _ ⟨⟩; simp [hrest])
    exact hinv.of_moved rfl rfl rfl rfl rfl rfl rfl rfl rfl hinv.tails
  | clear signals =>
    cases hs
    have hinv := hmoved rest rfl hnone hrest'
    exact hinv.of_moved rfl rfl rfl rfl rfl rfl rfl rfl rfl hinv.tails
  | resumeTask changed =>
    cases hs
    split
    next hparked =>
      -- the resume finds the task parked, and nobody is about to enqueue it
      obtain ⟨hchanged, hst, hrq, hcpu⟩ := hparked
      have hzero : s.underWay = 0 := (hok hst hrq).mp hchanged
      have hway : (s.after i (.add :: rest)).underWay = 1 := by
        simpa [adding, hzero] using underWay_after hi (.add :: rest)
      refine ⟨?_, h.made, h.once, h.enqueued, nofun, h.held, h.tails_after ?_⟩
      · cases h.stage with
        | running hst' | switching hst' | asleep hst' | exiting hst' => simp [hst] at hst'
        | ready _ hcpu' hwp hsw =>
          exact .ready hst hcpu' hwp hsw (.inr ⟨hrq, hway⟩) fun _ _ => hway
      · rintro _ _ ⟨⟩
        exact hrest
    next hfree =>
      have hway := hkeep rest rfl hnone
      refine ⟨?_, h.made, h.once, h.enqueued, nofun, h.held, h.tails_after hrest'⟩
      show Stage { s.task with jobControlStopped := false } _ _ (s.after i rest).underWay
      rw [hway]
      refine h.stage.gate fun hst hrq _ => ?_
      cases h.stage with
      | running hst' | switching hst' | asleep hst' | exiting hst' => simp [hst] at hst'
      | ready _ hcpu _ _ hw =>
        have hchanged : changed ≠ true := fun hc => hfree ⟨hc, hst, hrq, by simp [hcpu]⟩
        rw [Ne, hok hst hrq] at hchanged
        exact (hw.resolve_left hchanged).2
  | add =>
    obtain ⟨r, hr, rfl⟩ := map_eq_some_iff.mp hs
    have hway := underWay_after hi rest
    rw [hnone, show adding (.add :: rest) = true from rfl] at hway
    simp only [if_true, Bool.false_eq_true, if_false] at hway
    -- this call was the one under way
    have hcall : 0 < s.underWay := by omega
    obtain ⟨-, -, -, -, -, hone⟩ := h.of_under_way hcall
    exact h.of_marked hcall hr rfl rfl rfl rfl rfl (show (s.after i rest).underWay = 0 by omega) rfl
      (fun _ => rfl) (h.tails_after hrest')
  | requestStop signum =>
    simp only [State.runSection] at hs
    split at hs
    · cases hs
      exact hmoved rest rfl hnone hrest'
    · cases hs
      have hinv := hmoved (.stopTask :: .removeReady ::
        .clear (single SIGCONT ||| single signum) :: rest) rfl rfl (by rintro _ _ ⟨⟩; simp [hrest])
      exact hinv.of_moved rfl rfl rfl rfl rfl rfl rfl rfl rfl hinv.tails
  | stopTask =>
    simp only [State.runSection] at hs
    split at hs
    · cases hs
      exact hmoved rest rfl hnone hrest'
    · cases hs
      refine ⟨?_, h.made, h.once, h.enqueued, fun _ => rfl, nofun, h.tails_after hrest'⟩
      show Stage { s.task with jobControlStopped := true } _ _ (s.after i rest).underWay
      rw [hkeep rest rfl hnone]
      exact h.stage.gate fun _ _ hno => by cases hno
  | removeReady =>
    simp only [State.runSection] at hs
    split at hs
    swap
    · cases hs
      exact hmoved rest rfl hnone hrest'
    next hchoice =>
    -- a task that is taken off its queue was stopped, and waits for the resume
    obtain ⟨t, ht, rfl⟩ := map_eq_some_iff.mp hs
    obtain ⟨hrq, rfl⟩ := TaskInner.clearQueued_eq_some ht
    refine ⟨?_, h.made, h.once, h.enqueued, h.gated, h.held, h.tails_after hrest'⟩
    show Stage _ _ _ (s.after i rest).underWay
    rw [hkeep rest rfl hnone]
    cases h.stage with
    | running _ _ hrq' | switching _ _ hrq' | asleep _ _ hrq' | exiting _ hrq' => simp [hrq] at hrq'
    | ready hst hcpu hwp hsw hway =>
      exact .ready hst hcpu hwp hsw (.inl (hway.resolve_right fun hno => by simp [hrq] at hno))
        fun _ hopen => by simp [hok hchoice] at hopen
  | queue signals =>
    cases hs
    have hinv : Inv (s.after i (if interrupts wakeMask signals s.signalMask then .wake :: rest
        else rest)) := by
      split
      · exact hmoved _ rfl rfl (by rintro _ _ ⟨⟩; exact hrest)
      · exact hmoved rest rfl hnone hrest'
    exact hinv.of_moved rfl rfl rfl rfl rfl rfl rfl rfl rfl hinv.tails
  | wake => exact (hmoved rest rfl hnone hrest').wakeup hs

end JobControl

lemma not_mem_queueSignalToTask (signal : SignalFlags) (handled stops : Bool) :
    Section.add ∉ queueSignalToTask signal handled stops := by
  unfold queueSignalToTask
  repeat' split
  all_goals simp

/-- **Step lemma**: every step keeps the invariant. -/
theorem Inv.step {a : Action Cpu} (h : Inv s) (hok : StepOk s a)
    (hs : s.step wakeMask a = some s') : Inv s' := by
  -- a call about a signal begins with no `add_task`
  have hsend : ∀ new, Section.add ∉ new → Inv { s with sending := s.sending ++ [new] } := by
    intro new hnew
    refine h.of_moved rfl rfl rfl rfl rfl rfl rfl rfl ?_ fun sec rest hmem => ?_
    · simp [underWay, inFlight, List.countP_append, adding_of_not_mem hnew]
    · rcases List.mem_append.mp hmem with hmem | hmem
      · exact h.tails sec rest hmem
      · rw [← List.mem_singleton.mp hmem] at hnew
        exact List.not_mem_of_not_mem_cons hnew
  cases a with
  | prepare cpu reason interruptible => exact h.prepare hs
  | finish cpu => exact h.finish hs
  | wakeup front => exact h.wakeup hs
  | queueSignal signal handled stops =>
    cases hs
    exact hsend _ (not_mem_queueSignalToTask signal handled stops)
  | stopCurrent signum =>
    obtain ⟨-, rfl⟩ := of_guard hs
    exact hsend _ (by simp)
  | advance i cpu choice =>
    simp only [State.step, advance] at hs
    split at hs
    next hi => exact h.runSection hi hok hs
    · cases hs
  | setMask | takeSignals =>
    obtain ⟨-, rfl⟩ := of_guard hs
    exact h.of_moved rfl rfl rfl rfl rfl rfl rfl rfl rfl h.tails
  | enqueueLocal i cpu => exact h.enqueueLocal hs
  | pushRemote i cpu => exact h.pushRemote hs
  | drain cpu allowed => exact h.drain hs
  | requeue cpu => exact h.requeue hs
  | claim self cpu eligible =>
    obtain ⟨-, hs⟩ := ite_none_right_eq_some.mp hs
    obtain ⟨r, hr, rfl⟩ := map_eq_some_iff.mp hs
    exact h.claim hr

open System

/-- **Run lemma**: the invariant holds in every state of every run. -/
theorem Inv.of_reachable (h : (system wakeMask).Reachable StepOk s) : Inv s := by
  apply h.invariant
  · rintro _ ⟨cpu, pending, mask, rfl⟩
    exact .start cpu pending mask
  · intro s a s' hinv hok hs
    exact hinv.step hok hs

/-! ## The wakeups of a run -/

omit [DecidableEq Cpu] in
/-- A pending wakeup waits for the completion of a block on the task's CPU. -/
lemma Inv.of_wakePending (h : Inv s) (hwp : s.task.wakePending = true) :
    s.task.taskStatus = .blocked ∧ s.task.onRq = false ∧ s.task.onCpu.isSome ∧
      s.pendingSwitch = some .block := by
  cases h.stage with
  | switching hst hcpu hrq hsw => exact ⟨hst, hrq, hcpu, hsw⟩
  | running _ _ _ hwp' | asleep _ _ _ hwp' | ready _ _ hwp' | exiting _ _ hwp' =>
    simp [hwp] at hwp'

omit [DecidableEq Cpu] in
/-- The assertions of `wakeup_task_with_placement` hold. -/
lemma Inv.wakeupSection_isSome (h : Inv s) (front : Bool) :
    (s.task.wakeupSection front).isSome := by
  cases h.stage with
  | switching hst hcpu hrq =>
    cases hwp : s.task.wakePending <;> simp [TaskInner.wakeupSection, hst, hrq, hcpu, hwp]
  | asleep hst hcpu hrq hwp => simp [TaskInner.wakeupSection, hst, hrq, hcpu, hwp]
  | running hst | ready hst | exiting hst => simp [TaskInner.wakeupSection, hst]

/-- **Answered wakeups**: in every run that meets the condition on job control, at
most one wakeup call has returned `true` since the task last blocked.  It has made
the task `Ready` exactly once, or it is pending, and then the task still owns its
CPU, whose switch completion makes the task `Ready`.  The transition to `Ready` has
one enqueue, under way, done or, if the gate was closed in this episode, kept out.  A
`Ready` task with an open gate is on a queue or has exactly one enqueue under way, and
no assertion of an enqueue or a wakeup fails. -/
theorem answered_wakeup_is_enqueued_once {wakeMask : BitVec 64} {s : State Cpu}
    (h : (system wakeMask).Reachable StepOk s) : s.answered ≤ 1 ∧
      s.answered = s.madeReady + (if s.task.wakePending then 1 else 0) ∧
      s.inFlight + s.queued + s.heldBack = s.madeReady ∧ (s.gated = false → s.heldBack = 0) ∧
      (s.task.onCpu = none → s.task.wakePending = false) ∧
      (s.task.wakePending = true → s.pendingSwitch = some .block ∧ ∀ cpu, s.task.onCpu = some cpu →
          ∃ t e, s.task.finishSwitch cpu .block = some (t, e) ∧ t.taskStatus = .ready) ∧
      (s.task.taskStatus = .ready → s.task.onRq = false → s.task.jobControlStopped = false →
        s.underWay = 1) ∧
      (0 < s.underWay → ∀ cpu, (∃ t, s.task.markQueuedOn cpu =
          some (t, !s.task.jobControlStopped)) ∧ ∀ b, (s.task.addRemote cpu b).isSome) ∧
      ∀ front, (s.task.wakeupSection front).isSome := by
  have hinv := Inv.of_reachable h
  refine ⟨hinv.once, hinv.made, hinv.enqueued, hinv.held, ?_, ?_, ?_, ?_,
    hinv.wakeupSection_isSome⟩
  · intro hoff
    by_contra hwp
    obtain ⟨-, -, hcpu, -⟩ := hinv.of_wakePending (by simpa using hwp)
    simp [hoff] at hcpu
  · intro hwp
    obtain ⟨hst, hrq, -, hsw⟩ := hinv.of_wakePending hwp
    refine ⟨hsw, fun cpu hcpu => ?_⟩
    simp [TaskInner.finishSwitch, hcpu, hrq, hst, hwp]
  · intro hst hrq hgate
    cases hinv.stage with
    | ready _ _ _ _ _ hopen => exact hopen hrq hgate
    | running hst' | switching hst' | asleep hst' | exiting hst' => simp [hst] at hst'
  · intro hway cpu
    obtain ⟨hst, hcpu, hrq, -⟩ := hinv.of_under_way hway
    refine ⟨?_, fun b => ?_⟩
    · cases hgate : s.task.jobControlStopped <;>
        simp [TaskInner.markQueuedOn, hst, hcpu, hrq, hgate]
    · cases hgate : s.task.jobControlStopped <;> cases b <;>
        simp [TaskInner.addRemote, hst, hcpu, hrq, hgate]

/-- A wakeup before the switch completes; then a SIGSTOP keeps its enqueue out, and the SIGCONT
after it queues the task. -/
theorem answered_wakeup_is_enqueued_once_stopped :
    ∃ s : State Nat, (system 1#64).Reachable StepOk s ∧
      s.task.onRq = true ∧ s.answered = 1 ∧ s.madeReady = 1 ∧ s.queued + s.heldBack = 1 := by
  have hrun : ((system 1#64).runWhile StepOk (start 0 0 0)
      [.prepare 0 .block true, .wakeup true, .finish 0,
        .queueSignal (single SIGSTOP) false false, .advance 0 0 false, .advance 0 0 false,
        .advance 0 0 false, .advance 0 0 false, .pushRemote 0 1, .drain 1 true,
        .queueSignal (single SIGCONT) false false, .advance 1 0 false, .advance 1 0 false,
        .advance 1 0 false, .advance 1 0 false]).map
      (fun s => (s.task.onRq, s.task.onCpu, s.answered, s.inFlight)) =
      some (true, none, 1, 0) := by decide
  obtain ⟨s, hs, -, hv⟩ := exists_reachable hrun ⟨0, 0, 0, rfl⟩
  simp only [Prod.mk.injEq] at hv
  obtain ⟨hrq, hcpu, hans, hfly⟩ := hv
  obtain ⟨-, hmade, henq, -, hoff, -⟩ := answered_wakeup_is_enqueued_once hs
  simp only [hoff hcpu, hans, Bool.false_eq_true, if_false] at hmade
  refine ⟨s, hs, hrq, hans, by omega, by omega⟩

/-- **A second enqueue.**  The wakeup has made the task `Ready` and is about to enqueue it when a
SIGSTOP and a SIGCONT pass: the SIGCONT finds the task `Ready` and nowhere and queues it too.  The
enqueue of the wakeup then fails its assertion that the task is on no run queue. -/
theorem woken_task_is_enqueued_twice :
    ∃ s : State Nat, (system 1#64).Reachable anyStep s ∧
      s.answered = 1 ∧ s.task.onRq = true ∧ s.inFlight = 1 ∧ s.task.markQueuedOn 0 = none := by
  have hrun : ((system 1#64).runWhile anyStep (start 0 0 0)
      [.prepare 0 .block true, .finish 0, .wakeup false,
        .queueSignal (single SIGSTOP) false false, .advance 0 0 false, .advance 0 0 false,
        .advance 0 0 false, .advance 0 0 false,
        .queueSignal (single SIGCONT) false false, .advance 1 0 false, .advance 1 0 false,
        .advance 1 0 false, .advance 1 1 false]).map
      (fun s => (s.answered, s.task.onRq, s.inFlight, (s.task.markQueuedOn 0).isNone)) =
      some (1, true, 1, true) := by decide
  obtain ⟨s, hs, -, hv⟩ := exists_reachable hrun ⟨0, 0, 0, rfl⟩
  simp only [Prod.mk.injEq, isNone_iff_eq_none] at hv
  exact ⟨s, hs, hv⟩

/-! ## Interrupting signals

`block_current_unless_interrupting_signal` reads the pending signals under the
task lock, and `queue_signal_to_task` queues under it: a signal is either seen by
the task before it publishes `Blocked`, or its sender wakes the task afterwards.
-/

/-- Queueing more signals interrupts where one of the two sets does. -/
lemma interrupts_or (wakeMask : BitVec 64) (a b mask : SignalFlags) :
    interrupts wakeMask (a ||| b) mask =
      (interrupts wakeMask a mask || interrupts wakeMask b mask) := by
  have hsplit : (((a ||| b) &&& ~~~mask) >>> 1).setWidth 64 &&& wakeMask =
      ((((a &&& ~~~mask) >>> 1).setWidth 64 &&& wakeMask) |||
        (((b &&& ~~~mask) >>> 1).setWidth 64 &&& wakeMask)) := by
    ext i hi
    simp only [BitVec.getElem_and, BitVec.getElem_setWidth, BitVec.getLsbD_ushiftRight,
      BitVec.getLsbD_and, BitVec.getLsbD_or, BitVec.getElem_or]
    cases a.getLsbD (1 + i) <;> cases b.getLsbD (1 + i) <;> simp
  unfold interrupts
  rw [hsplit, Bool.eq_iff_iff]
  simp [BitVec.or_eq_zero_iff, imp_iff_not_or]

lemma interrupts_of_remove {wakeMask : BitVec 64} {a b mask : SignalFlags}
    (h : interrupts wakeMask (a.remove b) mask = true) : interrupts wakeMask a mask = true := by
  have hsplit : a = a.remove b ||| (a &&& b) := by
    ext i hi
    simp only [remove, BitVec.getElem_or, BitVec.getElem_and, BitVec.getElem_not]
    cases a[i] <;> cases b[i] <;> rfl
  rw [hsplit, interrupts_or, h, Bool.true_or]

/-- The sender of a signal is about to wake the task. -/
def State.Waking (s : State Cpu) : Prop := ∃ rest, Section.wake :: rest ∈ s.sending

/-- A task that sleeps interruptibly with an interrupting signal pending is being woken. -/
def Heeded (wakeMask : BitVec 64) (s : State Cpu) : Prop :=
  s.task.taskStatus = .blocked → s.interruptible = true →
    interrupts wakeMask s.pendingSignals s.signalMask = true →
      s.task.wakePending = true ∨ s.Waking

section Heeded

omit [DecidableEq Cpu]

variable {s s' : State Cpu}

lemma Heeded.of_not_blocked (h : s.task.taskStatus ≠ .blocked) : Heeded wakeMask s :=
  fun hb => absurd hb h

lemma Heeded.congr (h : Heeded wakeMask s) (hst : s'.task.taskStatus = s.task.taskStatus)
    (hwp : s'.task.wakePending = s.task.wakePending) (hint : s'.interruptible = s.interruptible)
    (hpend : interrupts wakeMask s'.pendingSignals s'.signalMask = true →
      interrupts wakeMask s.pendingSignals s.signalMask = true)
    (hwaking : s.Waking → s'.Waking) : Heeded wakeMask s' := by
  intro hb hi hp
  rw [hst] at hb
  rw [hint] at hi
  rw [hwp]
  exact (h hb hi (hpend hp)).imp_right hwaking

/-- A wakeup of a blocked task leaves the wakeup pending or the task `Ready`. -/
lemma Heeded.wakeup {front : Bool} (h : s.wakeup front = some s') : Heeded wakeMask s' := by
  obtain ⟨⟨t, o⟩, hr, rfl⟩ := map_eq_some_iff.mp h
  obtain ⟨hnb, -, rfl⟩ | ⟨-, -, ⟨-, hwp, -, rfl⟩ | ⟨-, -, -, rfl⟩ | ⟨-, -, -, rfl⟩⟩ :=
    TaskInner.wakeupSection_eq_some hr
  · exact .of_not_blocked hnb
  · exact fun _ _ _ => .inl hwp
  · exact fun _ _ _ => .inl rfl
  · exact .of_not_blocked (by simp)

/-- Another call than the one that wakes goes on. -/
lemma State.Waking.after {i : Nat} {sec : Section} {rest : List Section} (h : s.Waking)
    (hi : s.sending[i]? = some (sec :: rest)) (hsec : sec ≠ .wake) (new : List Section) :
    (s.after i new).Waking := by
  obtain ⟨rest', hmem⟩ := h
  obtain ⟨j, hj⟩ := List.getElem?_of_mem hmem
  have hne : i ≠ j := by
    rintro rfl
    rw [hi] at hj
    cases hj
    exact hsec rfl
  exact ⟨rest', List.mem_of_getElem? ((List.getElem?_set_ne hne).trans hj)⟩

end Heeded

omit [DecidableEq Cpu] in
lemma Heeded.runSection {i : Nat} {choice : Bool} {sec : Section} {rest : List Section}
    (h : Heeded wakeMask s) (hi : s.sending[i]? = some (sec :: rest))
    (hs : s.runSection wakeMask i cpu choice rest sec = some s') : Heeded wakeMask s' := by
  cases sec with
  | resumeProcess =>
    cases hs
    exact h.congr rfl rfl rfl id fun hw => hw.after hi nofun _
  | clear signals =>
    cases hs
    exact h.congr rfl rfl rfl interrupts_of_remove fun hw => hw.after hi nofun _
  | resumeTask changed =>
    cases hs
    exact h.congr rfl rfl rfl id fun hw => hw.after hi nofun _
  | add =>
    obtain ⟨⟨t, b⟩, hr, rfl⟩ := map_eq_some_iff.mp hs
    obtain ⟨hst, -, -, ⟨-, -, rfl⟩ | ⟨-, -, rfl⟩⟩ := TaskInner.markQueuedOn_eq_some hr <;>
      exact .of_not_blocked (by simp [hst])
  | requestStop | stopTask =>
    simp only [State.runSection] at hs
    split at hs <;> cases hs <;> exact h.congr rfl rfl rfl id fun hw => hw.after hi nofun _
  | removeReady =>
    simp only [State.runSection] at hs
    split at hs
    · obtain ⟨t, ht, rfl⟩ := map_eq_some_iff.mp hs
      obtain ⟨-, rfl⟩ := TaskInner.clearQueued_eq_some ht
      exact h.congr rfl rfl rfl id fun hw => hw.after hi nofun _
    · cases hs
      exact h.congr rfl rfl rfl id fun hw => hw.after hi nofun _
  | queue signals =>
    cases hs
    intro hb hint hpend
    simp only [interrupts_or, Bool.or_eq_true] at hpend
    obtain hold | hnew := hpend
    · exact (h hb hint hold).imp_right fun hw => hw.after hi nofun _
    · -- the signal is the new one, and its sender goes on to wake the task
      have hlt := (List.getElem?_eq_some_iff.mp hi).1
      refine .inr ⟨rest, ?_⟩
      show Section.wake :: rest ∈ s.sending.set i (if interrupts wakeMask signals s.signalMask then
        .wake :: rest else rest)
      rw [if_pos (show interrupts wakeMask signals s.signalMask = true from hnew)]
      exact List.mem_set hlt _
  | wake => exact .wakeup hs

/-- **Step lemma**: a block finds no interrupting signal pending, and whoever queues one
goes on to wake the task. -/
theorem Heeded.step {a : Action Cpu} (h : Heeded wakeMask s) (hs : s.step wakeMask a = some s') :
    Heeded wakeMask s' := by
  cases a with
  | prepare cpu reason interruptible =>
    obtain ⟨-, hs⟩ := ite_none_left_eq_some.mp hs
    rcases hp : s.task.prepareSwitch cpu reason with _ | t
    · simp [hp] at hs
    simp only [hp] at hs
    obtain ⟨⟨hst, -⟩, rfl⟩ := TaskInner.prepareSwitch_eq_some hp
    split at hs
    · cases hs
      exact h
    rename_i hfree
    cases reason with
    | yield | exit =>
      cases hs
      exact .of_not_blocked (by simp [SwitchReason.prepared])
    | block =>
      cases hs
      intro _ hint hpend
      exact absurd (by rw [show interruptible = true from hint, hpend]; rfl) hfree
  | finish cpu =>
    obtain ⟨reason, -, hs⟩ := bind_eq_some_iff.mp hs
    obtain ⟨⟨t, e⟩, hr, rfl⟩ := map_eq_some_iff.mp hs
    obtain ⟨-, -, ⟨rfl, -, -, rfl, -⟩ | ⟨rfl, -, -, rfl, -⟩ | ⟨rfl, hst, hwp, rfl, -⟩ |
      ⟨rfl, hst, -, rfl, -⟩⟩ := TaskInner.finishSwitch_eq_some hr
    · exact .of_not_blocked (by simp)
    · exact .of_not_blocked (by simp)
    · exact h
    · exact .of_not_blocked (by simp [hst])
  | wakeup front => exact .wakeup hs
  | queueSignal signal handled stops =>
    cases hs
    exact h.congr rfl rfl rfl id fun ⟨rest, hmem⟩ => ⟨rest, List.mem_append_left _ hmem⟩
  | advance i cpu choice =>
    simp only [State.step, advance] at hs
    split at hs
    next hi => exact h.runSection hi hs
    · cases hs
  | stopCurrent | setMask | takeSignals =>
    obtain ⟨hrun, rfl⟩ := of_guard hs
    exact .of_not_blocked (by simp [hrun.1])
  | enqueueLocal | requeue =>
    obtain ⟨-, hs⟩ := ite_none_right_eq_some.mp hs
    obtain ⟨⟨t, b⟩, hr, rfl⟩ := map_eq_some_iff.mp hs
    obtain ⟨hst, -, -, ⟨-, -, rfl⟩ | ⟨-, -, rfl⟩⟩ := TaskInner.markQueuedOn_eq_some hr <;>
      exact .of_not_blocked (by simp [hst])
  | pushRemote i cpu =>
    obtain ⟨front, -, hs⟩ := bind_eq_some_iff.mp hs
    obtain ⟨-, rfl⟩ := of_refusal hs
    exact h
  | drain cpu allowed =>
    obtain ⟨n, -, hs⟩ := bind_eq_some_iff.mp hs
    obtain ⟨-, hs⟩ := ite_none_right_eq_some.mp hs
    obtain ⟨⟨t, r⟩, hr, rfl⟩ := map_eq_some_iff.mp hs
    obtain ⟨rfl, rfl, -⟩ | ⟨hst, -, -, -, ⟨rfl, rfl⟩ | ⟨rfl, rfl⟩⟩ := TaskInner.addRemote_eq_some hr
    · exact h
    · exact .of_not_blocked (by simp [hst])
    · exact .of_not_blocked (by simp [hst])
  | claim self cpu eligible =>
    obtain ⟨-, hs⟩ := ite_none_right_eq_some.mp hs
    obtain ⟨⟨t, r⟩, hr, rfl⟩ := map_eq_some_iff.mp hs
    obtain ⟨-, ⟨-, rfl⟩ | ⟨-, -, -, -, ⟨-, rfl⟩ | ⟨-, rfl⟩⟩⟩ := TaskInner.claimForCpu_eq_some hr
    · exact h
    · exact h
    · exact .of_not_blocked (by simp)

/-- **Interrupting signals**: in every run a task that sleeps interruptibly with an
interrupting signal pending has a pending wakeup, or the signal's sender is about to
wake it. -/
theorem interrupting_signal_is_not_lost (h : (system wakeMask).Reachable anyStep s)
    (hb : s.task.taskStatus = .blocked) (hint : s.interruptible = true)
    (hpend : interrupts wakeMask s.pendingSignals s.signalMask = true) :
    s.task.wakePending = true ∨ s.Waking := by
  have hheeded : Heeded wakeMask s := by
    apply h.invariant
    · rintro _ ⟨cpu, pending, mask, rfl⟩
      exact .of_not_blocked (by simp [start, TaskInner.runningOn])
    · exact fun s a s' hinv _ hs => hinv.step hs
  exact hheeded hb hint hpend

/-- The signal comes while the task sleeps. -/
theorem interrupting_signal_is_not_lost_asleep : ∃ s : State Nat,
    (system 1#64).Reachable anyStep s ∧ s.task.taskStatus = .blocked ∧
      (s.task.wakePending = true ∨ s.Waking) := by
  have hrun : ((system 1#64).runWhile anyStep (start 0 0 0)
      [.prepare 0 .block true, .finish 0, .queueSignal 2 false false, .advance 0 0 false]).map
      (fun s => (s.task.taskStatus, s.interruptible, interrupts 1 s.pendingSignals s.signalMask)) =
      some (.blocked, true, true) := by decide
  obtain ⟨s, hs, -, hv⟩ := exists_reachable hrun ⟨0, 0, 0, rfl⟩
  simp only [Prod.mk.injEq] at hv
  obtain ⟨hst, hint, hpend⟩ := hv
  exact ⟨s, hs, hst, interrupting_signal_is_not_lost hs hst hint hpend⟩

end Whusp.Task.BlockBoundary
