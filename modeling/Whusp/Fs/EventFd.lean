import Whusp.Lib.Transition

/-!
# Blocking on an eventfd

Reads and writes of `fs/eventfd.rs` by any number of tasks, one round of a loop a step.
-/

namespace Whusp.Fs.EventFd

open Whusp.Lib (System)

/-- The highest value of the counter; one more would be the value that no write may add. -/
def EVENTFD_COUNTER_MAX : Nat := 0xFFFFFFFFFFFFFFFE

/-- `EventFdInner`, a writer with its value; the tasks that sleep, and those that were dequeued
and have not retaken the lock. -/
structure State where
  counter : Nat
  semaphore : Bool
  readWaitQueue : List Nat
  writeWaitQueue : List (Nat × Nat)
  (asleep onTheWay : List Nat)

def State.wakeup (s : State) (task : Option Nat) : State :=
  { s with
    asleep := s.asleep.filter (· ∉ task)
    onTheWay := task.toList ++ s.onTheWay }

/-- A call that cannot proceed fails for `NONBLOCK`, leaves for a signal, or sleeps unless
`block_current_task_no_schedule_unless_interrupting_signal` refuses. -/
inductive Stop where
  | nonblock | signal | sleep | refused

def State.read (s : State) (t : Nat) (stop : Stop) : State :=
  if s.counter = 0 then
    match stop with
    | .nonblock | .refused => s
    | .signal => { s with readWaitQueue := s.readWaitQueue.erase t }
    | .sleep => { s with readWaitQueue := s.readWaitQueue ++ [t], asleep := t :: s.asleep }
  else
    { s with
      counter := if s.semaphore then s.counter - 1 else 0
      writeWaitQueue := s.writeWaitQueue.tail }.wakeup (s.writeWaitQueue.head?.map Prod.fst)

def State.write (s : State) (t value : Nat) (stop : Stop) : State :=
  if value = 0xFFFFFFFFFFFFFFFF then s
  else if value ≤ EVENTFD_COUNTER_MAX - s.counter then
    if value = 0 then s
    else
      { s with
        counter := s.counter + value
        readWaitQueue := s.readWaitQueue.tail }.wakeup s.readWaitQueue.head?
  else
    match stop with
    | .nonblock | .refused => s
    | .signal => { s with writeWaitQueue := s.writeWaitQueue.eraseP (·.1 = t) }
    | .sleep =>
      { s with writeWaitQueue := s.writeWaitQueue ++ [(t, value)], asleep := t :: s.asleep }

def State.locked (s : State) (t : Nat) : State :=
  { s with onTheWay := s.onTheWay.filter (· ≠ t) }

inductive Event where
  | read (t : Nat) (stop : Stop)
  | write (t value : Nat) (stop : Stop)
  | signal (t : Nat)

def State.step (s : State) : Event → Option State
  | .read t stop => if t ∈ s.asleep then none else some (s.locked t |>.read t stop)
  | .write t value stop => if t ∈ s.asleep then none else some (s.locked t |>.write t value stop)
  | .signal t => some { s with asleep := s.asleep.filter (· ≠ t) }

def system : System State Event where
  init s := ∃ initval semaphore, s = ⟨initval, semaphore, [], [], [], []⟩
  step := State.step

/-- The counter after a read that goes through. -/
def State.rest (s : State) : Nat := if s.semaphore then s.counter - 1 else 0

/-- A transfer wakes up one task, so it must leave nobody in that queue who could go on: a write
leaves no reader, and a read no writer whose value fits now. -/
def StepOk (s : State) : Event → Prop
  | .read _ _ => s.counter ≠ 0 → ∀ w ∈ s.writeWaitQueue.tail, EVENTFD_COUNTER_MAX - s.rest < w.2
  | .write _ value _ =>
    value ≠ 0 → value ≤ EVENTFD_COUNTER_MAX - s.counter → s.readWaitQueue.tail = []
  | .signal _ => True

instance : DecidableRel StepOk := fun s e => by
  cases e <;> (unfold StepOk; infer_instance)

/-- Who is in a queue cannot go on. -/
structure Justified (s : State) : Prop where
  readers : s.readWaitQueue ≠ [] → s.counter = 0
  writers : ∀ w ∈ s.writeWaitQueue, EVENTFD_COUNTER_MAX - s.counter < w.2

variable {s : State} {t value : Nat} {stop : Stop}

/-- Reads that block find the counter at zero, and those that go through find no reader. -/
lemma Justified.read (h : Justified s) (hok : StepOk s (.read t stop)) :
    Justified (s.read t stop) := by
  unfold State.read
  split
  next hzero =>
    cases stop with
    | nonblock | refused => exact h
    | signal | sleep => exact ⟨fun _ => hzero, h.writers⟩
  next hne => exact ⟨fun hr => absurd (h.readers hr) hne, hok hne⟩

/-- Writes that block do not fit, and those that go through leave less room than there was. -/
lemma Justified.write (h : Justified s) (hok : StepOk s (.write t value stop)) :
    Justified (s.write t value stop) := by
  unfold State.write
  split
  · exact h
  split
  next hfits =>
    split
    · exact h
    next hne =>
    refine ⟨fun hr => absurd (hok hne hfits) hr, fun w hw => ?_⟩
    have hold := h.writers w hw
    simp only [State.wakeup]
    omega
  next hfull =>
    cases stop with
    | nonblock | refused => exact h
    | signal => exact ⟨h.readers, fun w hw => h.writers w (List.mem_of_mem_eraseP hw)⟩
    | sleep =>
      refine ⟨h.readers, fun w hw => ?_⟩
      rcases List.mem_append.mp hw with hw | hw
      · exact h.writers w hw
      · rw [List.mem_singleton.mp hw]
        exact Nat.lt_of_not_le hfull

/-- **Blocking is justified** in every run whose transfers leave nobody behind who could go on. -/
theorem eventfd_blocking_is_justified (h : system.Reachable StepOk s) : Justified s := by
  refine h.invariant ?_ ?_
  · rintro _ ⟨initval, semaphore, rfl⟩
    exact ⟨by simp, by simp⟩
  · intro s ev s' hinv hok hs
    have hframe {a b : List Nat} : Justified { s with asleep := a, onTheWay := b } :=
      ⟨hinv.readers, hinv.writers⟩
    cases ev with
    | read t stop =>
      obtain ⟨-, rfl⟩ := of_refusal hs
      exact hframe.read hok
    | write t value stop =>
      obtain ⟨-, rfl⟩ := of_refusal hs
      exact hframe.write hok
    | signal =>
      cases hs
      exact hframe

/-- Two writers sleep; the read of a third task makes room for the first one only. -/
theorem eventfd_blocking_is_justified_writers : ∃ s, s.writeWaitQueue = [(2, 5)] ∧
    s.onTheWay = [1] ∧ Justified s := by
  have hrun : (system.runWhile StepOk ⟨EVENTFD_COUNTER_MAX, true, [], [], [], []⟩
      [.write 1 1 .sleep, .write 2 5 .sleep, .read 3 .sleep]).map
        (fun s => (s.writeWaitQueue, s.onTheWay)) = some ([(2, 5)], [1]) := by
    decide
  obtain ⟨s, hreach, -, hsum⟩ := System.exists_reachable hrun ⟨_, _, rfl⟩
  obtain ⟨hqueue, hway⟩ := Prod.mk.injEq .. ▸ hsum
  exact ⟨s, hqueue, hway, eventfd_blocking_is_justified hreach⟩

/-- **A write for two readers**: the second one sleeps on although the counter is 1. -/
theorem eventfd_reader_left_asleep :
    (system.runWhile System.anyStep ⟨0, true, [], [], [], []⟩
      [.read 1 .sleep, .read 2 .sleep, .write 3 2 .sleep, .read 1 .sleep]).map
        (fun s => (s.counter, s.readWaitQueue, s.asleep, s.onTheWay)) =
      some (1, [2], [2], []) := by
  decide

end Whusp.Fs.EventFd
