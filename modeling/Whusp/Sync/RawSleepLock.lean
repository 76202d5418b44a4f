import Mathlib.Data.List.Nodup
import Whusp.Task.Wakeup

/-!
# The sleeping lock and its direct handoff

`RawSleepLock` (`sync/raw_sleep_lock.rs`) and the `SleepMutex` built on it
(`sync/sleep_mutex.rs`) as a transition system over any number of tasks.  One step
is one critical section of the inner spin lock or one task-lock section of the
scheduler: a `lock` call that finds the lock taken publishes `Blocked`, joins the
wait queue and leaves the section; it returns, as the owner, whenever the
scheduler runs the task again.

## What is proved

Ownership is handed over implicitly: `lock` takes any return from `schedule` for
the handoff.  A wakeup that reaches a task while it still waits in the queue
therefore gives the lock away twice.  Where no wakeup does, the lock excludes,
is granted in queue order and never stays locked without an owner.
-/

namespace Whusp.Sync

open Function Whusp.Lib Whusp.Task Option

universe u

/-- Where a task is in the code of the lock. -/
inductive LockPc (T : Type u) where
  /-- Not in the lock's code and not its owner. -/
  | outside
  /-- Inside `lock`, past `wait_queue.push_back`, in `schedule`. -/
  | inLock
  /-- `lock` or `try_lock` succeeded and `unlock` was not called yet. -/
  | owner
  /-- Inside `unlock`, past its critical section, about to wake `woken`. -/
  | unlocking (woken : T)
  deriving DecidableEq

structure RawSleepLockInner (T : Type u) where
  locked : Bool
  waitQueue : List T

/-- The lock, every task's position in its code and every task's scheduler state.
Which CPU runs a task plays no part, so the CPU type is `Unit`. -/
structure LockState (T : Type u) where
  lock : RawSleepLockInner T
  pc : T → LockPc T
  inner : T → TaskInner Unit
  /-- History: the tasks in the order in which they joined the wait queue. -/
  arrivals : List T
  /-- History: the queued tasks in the order in which `lock` returned to them. -/
  grants : List T

inductive SleepMutexCall (T : Type u) where
  | lock (t : T)
  | tryLock (t : T) (contended : Bool)
  | dropGuard (t : T)

inductive LockStep (T : Type u) where
  | lock (t : T)
  /-- `RawSleepLock::try_lock`; `contended` where the inner spin lock is taken. -/
  | tryLock (t : T) (contended : Bool)
  /-- The critical section of `RawSleepLock::unlock`, called by an owner. -/
  | unlock (t : T)
  /-- The `wakeup_task` that `unlock` makes after its critical section. -/
  | unlockWake (t : T)
  | wakeup (src : WakeSource) (t : T)
  | finishSwitch (t : T)
  /-- The scheduler runs a ready task: `schedule` returns, and so does `lock`. -/
  | resume (t : T)

/-- `SleepMutex::lock`, `try_lock` and the drop of its guard are the calls of the
raw lock inside. -/
def SleepMutexCall.raw {T : Type u} : SleepMutexCall T → LockStep T
  | .lock t => .lock t
  | .tryLock t contended => .tryLock t contended
  | .dropGuard t => .unlock t

/-- A label of a run: a call on the raw lock, a call on a mutex around it, or a
step of the scheduler. -/
inductive LockLabel (T : Type u) where
  | raw (a : LockStep T)
  | mutex (c : SleepMutexCall T)

def LockLabel.toStep {T : Type u} : LockLabel T → LockStep T
  | .raw a => a
  | .mutex c => c.raw

variable {T : Type u} [DecidableEq T]

namespace LockState

/-- `RawSleepLock::new`, with every task running outside the lock. -/
def new : LockState T where
  lock := ⟨false, []⟩
  pc := fun _ => .outside
  inner := fun _ => TaskInner.runningOn ()
  arrivals := []
  grants := []

/-- `wakeup_task`: the task-lock section changes the woken task only. -/
def wake (s : LockState T) (t : T) (front : Bool) : Option (LockState T) :=
  ((s.inner t).wakeupSection front).map fun r =>
    { s with inner := update s.inner t r.1 }

/-- The critical section of `RawSleepLock::lock`. -/
def lockSection (s : LockState T) (t : T) : Option (LockState T) :=
  if s.lock.locked then
    ((s.inner t).prepareSwitch () .block).map fun i =>
      { s with
        lock := { s.lock with waitQueue := s.lock.waitQueue ++ [t] }
        pc := update s.pc t .inLock
        inner := update s.inner t i
        arrivals := s.arrivals ++ [t] }
  else
    some { s with
      lock := { s.lock with locked := true }
      pc := update s.pc t .owner }

def tryLock (s : LockState T) (t : T) (contended : Bool) : LockState T :=
  if contended then s
  else if s.lock.locked then s
  else { s with
    lock := { s.lock with locked := true }
    pc := update s.pc t .owner }

/-- The critical section of `RawSleepLock::unlock`. -/
def unlockSection (s : LockState T) (t : T) : Option (LockState T) :=
  -- assert!(inner.locked, "raw sleeping lock released without ownership")
  if s.lock.locked then
    match s.lock.waitQueue with
    | w :: q =>
      some { s with
        lock := { s.lock with waitQueue := q }
        pc := update s.pc t (.unlocking w) }
    | [] =>
      some { s with
        lock := { s.lock with locked := false }
        pc := update s.pc t .outside }
  else none

/-- One step.  A call is made only from outside the lock's code and `unlock` only
by an owner. -/
def step (s : LockState T) : LockStep T → Option (LockState T)
  | .lock t => if s.pc t = .outside then s.lockSection t else none
  | .tryLock t contended => if s.pc t = .outside then some (s.tryLock t contended) else none
  | .unlock t => if s.pc t = .owner then s.unlockSection t else none
  | .unlockWake t =>
    match s.pc t with
    | .unlocking w =>
      (s.wake w false).map fun s' => { s' with pc := update s'.pc t .outside }
    | _ => none
  | .wakeup src t => s.wake t src.front
  | .finishSwitch t =>
    if s.pc t = .inLock then
      ((s.inner t).finishSwitch () .block).map fun r =>
        { s with inner := update s.inner t r.1 }
    else none
  | .resume t =>
    if s.pc t = .inLock ∧ (s.inner t).taskStatus = .ready ∧ (s.inner t).onCpu = none then
      some { s with
        inner := update s.inner t (TaskInner.runningOn ())
        pc := update s.pc t .owner
        grants := s.grants ++ [t] }
    else none

end LockState

/-- The sleeping lock, its mutex and the scheduler around them. -/
def sleepLockSystem : System (LockState T) (LockLabel T) where
  init := fun s => s = LockState.new
  step := fun s a => s.step a.toStep

/-! ## The property and the condition on the wakeups -/

namespace LockState

/-- `t` owns the lock or was taken out of the queue to become its owner. -/
def Holds (s : LockState T) (t : T) : Prop :=
  s.pc t = .owner ∨ (s.pc t = .inLock ∧ t ∉ s.lock.waitQueue)

structure Safe (s : LockState T) : Prop where
  /-- At most one task has acquired the lock and not released it. -/
  exclusive : ∀ t u, s.pc t = .owner → s.pc u = .owner → t = u
  /-- Queued tasks acquire the lock in queue order. -/
  inOrder : s.grants <+: s.arrivals
  /-- A locked lock has an owner, or a task dequeued to become its owner. -/
  owned : s.lock.locked = true → ∃ t, s.Holds t

/-- The task that a step wakes, if it wakes one. -/
def wakeTarget (s : LockState T) : LockStep T → Option T
  | .wakeup _ t => some t
  | .unlockWake t =>
    match s.pc t with
    | .unlocking w => some w
    | _ => none
  | _ => none

end LockState

/-- No wakeup reaches a task that still waits in the lock's queue. -/
def queueUndisturbed (s : LockState T) (a : LockLabel T) : Prop :=
  ∀ w ∈ s.wakeTarget a.toStep, w ∉ s.lock.waitQueue

instance : DecidableRel (queueUndisturbed (T := T)) := fun s a => by
  unfold queueUndisturbed; infer_instance

/-! ## The invariant -/

namespace LockState

/-- The lock is free, held by an owner, or on its way to a dequeued waiter; the
history is split accordingly. -/
inductive Phase (s : LockState T) : Prop where
  | free (unlocked : s.lock.locked = false) (empty : s.lock.waitQueue = [])
      (nobody : ∀ t, ¬ s.Holds t) (order : s.arrivals = s.grants)
  | held (o : T) (locked : s.lock.locked = true) (owner : s.pc o = .owner)
      (only : ∀ t, s.Holds t → t = o) (order : s.arrivals = s.grants ++ s.lock.waitQueue)
  | handing (w : T) (locked : s.lock.locked = true) (waits : s.pc w = .inLock)
      (out : w ∉ s.lock.waitQueue) (only : ∀ t, s.Holds t → t = w)
      (order : s.arrivals = s.grants ++ w :: s.lock.waitQueue)

/-- The invariant of the lock: its phase, and that queued tasks sleep in `lock`. -/
structure Inv (s : LockState T) : Prop where
  phase : s.Phase
  nodup : s.lock.waitQueue.Nodup
  /-- A queued task is blocked inside `lock`. -/
  waiting : ∀ t ∈ s.lock.waitQueue, s.pc t = .inLock ∧
    (s.inner t).taskStatus = .blocked ∧ (s.inner t).wakePending = false

variable {s : LockState T}

omit [DecidableEq T] in
/-- The invariant carries the promised properties. -/
lemma Inv.safe (h : s.Inv) : s.Safe := by
  cases h.phase with
  | free unlocked _ nobody order =>
    refine ⟨fun t _ ht => absurd (Or.inl ht) (nobody t), order ▸ List.prefix_rfl, ?_⟩
    intro hl
    simp [unlocked] at hl
  | held o _ owner only order =>
    refine ⟨fun t u ht hu => (only t (.inl ht)).trans (only u (.inl hu)).symm, ?_,
      fun _ => ⟨o, .inl owner⟩⟩
    rw [order]
    simp
  | handing w _ waits out only order =>
    refine ⟨fun t u ht hu => (only t (.inl ht)).trans (only u (.inl hu)).symm, ?_,
      fun _ => ⟨w, .inr ⟨waits, out⟩⟩⟩
    rw [order]
    simp

attribute [local simp] Holds

omit [DecidableEq T] in
lemma inv_new : (new : LockState T).Inv where
  phase := .free rfl rfl (by simp [new]) rfl
  nodup := List.nodup_nil
  waiting := by simp [new]

variable {t : T}
variable {i : TaskInner Unit} {s' : LockState T}

section

variable (h : s.Inv)
include h

/-- Changing only scheduler states, and none of a queued task's status, keeps the
invariant. -/
lemma Inv.of_inner
    (hq : t ∈ s.lock.waitQueue → i.taskStatus = .blocked ∧ i.wakePending = false) :
    Inv { s with inner := update s.inner t i } where
  phase := by
    -- the phase does not look at the scheduler states
    cases h.phase with
    | free h₁ h₂ h₃ h₄ => exact .free h₁ h₂ h₃ h₄
    | held o h₁ h₂ h₃ h₄ => exact .held o h₁ h₂ h₃ h₄
    | handing w h₁ h₂ h₃ h₄ h₅ => exact .handing w h₁ h₂ h₃ h₄ h₅
  nodup := h.nodup
  waiting := by
    intro u hu
    refine ⟨(h.waiting u hu).1, ?_⟩
    rcases eq_or_ne u t with rfl | hut
    · simpa using hq hu
    · simpa [hut] using (h.waiting u hu).2

/-- A wakeup of a task outside the queue keeps the invariant. -/
lemma Inv.wake {front : Bool} (ht : t ∉ s.lock.waitQueue)
    (hs : s.wake t front = some s') : s'.Inv ∧ s'.pc = s.pc ∧ s'.lock = s.lock := by
  obtain ⟨r, -, rfl⟩ := map_eq_some_iff.mp hs
  exact ⟨h.of_inner fun hq => absurd hq ht, rfl, rfl⟩

lemma Inv.of_leave {w : T} (hpc : s.pc t = .unlocking w) :
    Inv { s with pc := update s.pc t .outside } := by
  have holds_iff : ∀ u, Holds { s with pc := update s.pc t .outside } u ↔ s.Holds u := by
    intro u
    rcases eq_or_ne u t with rfl | hut
    · simp [hpc]
    · simp [hut]
  constructor
  · cases h.phase with
    | free h₁ h₂ h₃ h₄ => exact .free h₁ h₂ (fun u hu => h₃ u ((holds_iff u).mp hu)) h₄
    | held o h₁ h₂ h₃ h₄ =>
      have hot : o ≠ t := by rintro rfl; simp [hpc] at h₂
      exact .held o h₁ (by simpa [hot] using h₂) (fun u hu => h₃ u ((holds_iff u).mp hu)) h₄
    | handing v h₁ h₂ h₃ h₄ h₅ =>
      have hvt : v ≠ t := by rintro rfl; simp [hpc] at h₂
      exact .handing v h₁ (by simpa [hvt] using h₂) h₃ (fun u hu => h₄ u ((holds_iff u).mp hu)) h₅
  · exact h.nodup
  · intro u hu
    have hut : u ≠ t := by
      rintro rfl
      simpa [hpc] using (h.waiting u hu).1
    simpa [hut] using h.waiting u hu

/-- Taking the free lock, by `lock` or by `try_lock`, keeps the invariant. -/
lemma Inv.of_acquire (hl : s.lock.locked = false) :
    Inv { s with
      lock := { s.lock with locked := true }
      pc := update s.pc t .owner } := by
  cases h.phase with
  | held _ locked => simp [hl] at locked
  | handing _ locked => simp [hl] at locked
  | free _ empty nobody order =>
    refine ⟨.held t rfl (by simp) ?_ (by simpa [empty] using order), h.nodup, by simp [empty]⟩
    intro u hu
    by_contra hut
    exact nobody u (by simpa [hut] using hu)

/-- Joining the wait queue of a taken lock keeps the invariant. -/
lemma Inv.of_enqueue (hpc : s.pc t = .outside) (hl : s.lock.locked = true)
    (hi : i.taskStatus = .blocked ∧ i.wakePending = false) (hs : s' = { s with
      lock := { s.lock with waitQueue := s.lock.waitQueue ++ [t] }
      pc := update s.pc t .inLock
      inner := update s.inner t i
      arrivals := s.arrivals ++ [t] }) : Inv s' := by
  have hq : t ∉ s.lock.waitQueue := by
    intro hq
    simpa [hpc] using (h.waiting t hq).1
  -- the new waiter is in the queue, so it does not hold the lock
  have holds_of : ∀ u, s'.Holds u → s.Holds u := by
    intro u hu
    subst hs
    rcases eq_or_ne u t with rfl | hut
    · simp at hu
    · simpa [hut] using hu
  subst hs
  constructor
  · cases h.phase with
    | free unlocked => simp [hl] at unlocked
    | held o locked owner only order =>
      have hot : o ≠ t := by rintro rfl; simp [hpc] at owner
      exact .held o locked (by simpa [hot] using owner) (fun u hu => only u (holds_of u hu))
        (by simp [order])
    | handing w locked waits out only order =>
      have hwt : w ≠ t := by rintro rfl; simp [hpc] at waits
      exact .handing w locked (by simpa [hwt] using waits) (by simp [out, hwt])
        (fun u hu => only u (holds_of u hu)) (by simp [order])
  · exact List.nodup_append.mpr ⟨h.nodup, List.nodup_singleton t, by
      intro a ha b hb
      rw [List.mem_singleton.mp hb]
      rintro rfl
      exact hq ha⟩
  · intro u hu
    rcases eq_or_ne u t with rfl | hut
    · simpa using hi
    · have hu' : u ∈ s.lock.waitQueue := by simpa [hut] using hu
      simpa [hut] using h.waiting u hu'

lemma Inv.of_unlock (hpc : s.pc t = .owner) (hs : s.unlockSection t = some s') :
    s'.Inv := by
  -- the caller is the one holder, so the lock is in the `held` phase
  have held : s.lock.locked = true ∧ (∀ u, s.Holds u → u = t) ∧
      s.arrivals = s.grants ++ s.lock.waitQueue := by
    cases h.phase with
    | free _ _ nobody => exact absurd (.inl hpc) (nobody t)
    | held o locked _ only order =>
      obtain rfl := only t (.inl hpc)
      exact ⟨locked, only, order⟩
    | handing w _ waits _ only =>
      obtain rfl := only t (.inl hpc)
      simp [hpc] at waits
  obtain ⟨locked, only, order⟩ := held
  simp only [unlockSection, locked, if_true] at hs
  split at hs
  · -- the oldest waiter is dequeued and the lock stays locked for it
    rename_i w q hq
    cases hs
    have hw := h.waiting w (by simp [hq])
    have hwt : w ≠ t := by rintro rfl; simp [hpc] at hw
    have hnd : w ∉ q ∧ q.Nodup := by simpa [hq] using h.nodup
    refine ⟨.handing w rfl (by simpa [hwt] using hw.1) hnd.1 ?_ (by simpa [hq] using order),
      hnd.2, ?_⟩
    · intro u hu
      have hut : u ≠ t := by rintro rfl; simp at hu
      by_contra huw
      refine hut (only u ?_)
      simpa [hut, huw, hq] using hu
    · intro u hu
      have hu' := h.waiting u (by simp [hq, hu])
      have hut : u ≠ t := by rintro rfl; simp [hpc] at hu'
      simpa [hut] using hu'
  next hq =>
    cases hs
    refine ⟨.free rfl hq ?_ (by simpa [hq] using order), h.nodup, by simp [hq]⟩
    intro u hu
    have hut : u ≠ t := by rintro rfl; simp at hu
    exact hut (only u (by simpa [hut] using hu))

/-- The return of `lock` to a task outside the queue keeps the invariant. -/
lemma Inv.of_resume (hpc : s.pc t = .inLock) (hr : (s.inner t).taskStatus = .ready) :
    Inv { s with
      inner := update s.inner t (TaskInner.runningOn ())
      pc := update s.pc t .owner
      grants := s.grants ++ [t] } := by
  have hq : t ∉ s.lock.waitQueue := by
    intro hq
    simpa [hr] using (h.waiting t hq).2.1
  have holds : s.Holds t := .inr ⟨hpc, hq⟩
  cases h.phase with
  | free _ _ nobody => exact absurd holds (nobody t)
  | held o _ owner only =>
    obtain rfl := only t holds
    simp [hpc] at owner
  | handing w locked _ _ only order =>
    obtain rfl := only t holds
    refine ⟨.held t locked (by simp) ?_ (by simp [order]), h.nodup, ?_⟩
    · intro u hu
      by_contra hut
      exact hut (only u (by simpa [hut] using hu))
    · intro u hu
      have hut : u ≠ t := by rintro rfl; exact hq hu
      simpa [hut] using h.waiting u hu

/-- **Step lemma**: a step whose wakeup, if any, misses the queue keeps the
invariant. -/
theorem Inv.step {a : LockStep T} (hq : ∀ w ∈ s.wakeTarget a, w ∉ s.lock.waitQueue)
    (hs : s.step a = some s') : s'.Inv := by
  cases a with
  | lock t =>
    obtain ⟨hpc, hs⟩ := ite_none_right_eq_some.mp hs
    simp only [lockSection] at hs
    split at hs
    next hl =>
      obtain ⟨i, hi, rfl⟩ := map_eq_some_iff.mp hs
      exact h.of_enqueue hpc hl (TaskInner.prepareSwitch_asleep hi) rfl
    next hl =>
      cases hs
      exact h.of_acquire (by simpa using hl)
  | tryLock t contended =>
    obtain ⟨hpc, rfl⟩ := of_guard hs
    simp only [tryLock]
    split
    · exact h
    split
    · exact h
    next hl =>
      exact h.of_acquire (by simpa using hl)
  | unlock t =>
    obtain ⟨hpc, hs⟩ := ite_none_right_eq_some.mp hs
    exact h.of_unlock hpc hs
  | unlockWake t =>
    simp only [LockState.step] at hs
    split at hs
    next w hpc =>
      obtain ⟨s₁, hw, rfl⟩ := map_eq_some_iff.mp hs
      obtain ⟨h₁, hpc₁, -⟩ := h.wake (hq w (by simp [wakeTarget, hpc])) hw
      exact h₁.of_leave (w := w) (by rw [hpc₁, hpc])
    · cases hs
  | wakeup src t =>
    exact (h.wake (hq t (by simp [wakeTarget])) hs).1
  | finishSwitch t =>
    obtain ⟨hpc, hs⟩ := ite_none_right_eq_some.mp hs
    obtain ⟨r, hr, rfl⟩ := map_eq_some_iff.mp hs
    refine h.of_inner fun ht => ?_
    -- a queued task has no pending wakeup, so its switch completes asleep
    obtain ⟨-, hb, hwp⟩ := h.waiting t ht
    exact TaskInner.finishSwitch_asleep hb hwp hr
  | resume t =>
    obtain ⟨⟨hpc, hr, -⟩, rfl⟩ := of_guard hs
    exact h.of_resume hpc hr

end

end LockState

/-! ## Runs -/

/-- **Sleeping-lock safety**: in every run in which no wakeup reaches a task that
waits in the lock's queue, at most one task owns the lock, queued tasks get it
in queue order, and a locked lock has an owner or a task dequeued to own it. -/
theorem sleepLock_safe {s : LockState T}
    (h : sleepLockSystem.Reachable queueUndisturbed s) : s.Safe := by
  refine LockState.Inv.safe (h.invariant ?_ ?_)
  · rintro s rfl
    exact LockState.inv_new
  · intro s a s' hinv hok hs
    exact hinv.step hok hs

/-- Task 0 takes the lock, task 1 queues behind it and gets it by handoff. -/
theorem sleepLock_safe_handoff :
    ∃ s : LockState Nat, sleepLockSystem.Reachable queueUndisturbed s ∧
      s.pc 1 = .owner ∧ s.grants = [1] ∧ s.Safe := by
  have hrun : ∃ s : LockState Nat, sleepLockSystem.runWhile queueUndisturbed LockState.new
      [.raw (.lock 0), .mutex (.lock 1), .raw (.finishSwitch 1), .raw (.unlock 0),
        .raw (.unlockWake 0), .raw (.resume 1)] = some s ∧ s.pc 1 = .owner ∧ s.grants = [1] :=
    ⟨_, rfl, by decide, by decide⟩
  obtain ⟨s, hs, hpc, hg⟩ := hrun
  have hreach := System.reachable_of_runWhile (.init rfl) hs
  exact ⟨s, hreach, hpc, hg, sleepLock_safe hreach⟩

/-- A signal for task 1, queued behind the owner 0, wakes it inside `lock`: both
tasks then own the lock. -/
theorem sleepLock_stray_wakeup :
    ∃ s : LockState Nat, sleepLockSystem.Reachable System.anyStep s ∧
      s.pc 0 = .owner ∧ s.pc 1 = .owner ∧ ¬ s.Safe := by
  have hrun : ∃ s : LockState Nat, sleepLockSystem.runWhile System.anyStep LockState.new
      [.raw (.lock 0), .raw (.lock 1), .raw (.finishSwitch 1), .raw (.wakeup .signal 1),
        .raw (.resume 1)] = some s ∧ s.pc 0 = .owner ∧ s.pc 1 = .owner :=
    ⟨_, rfl, by decide, by decide⟩
  obtain ⟨s, hs, h0, h1⟩ := hrun
  refine ⟨s, System.reachable_of_runWhile (.init rfl) hs, h0, h1, fun safe => ?_⟩
  have : (0 : Nat) = 1 := safe.exclusive 0 1 h0 h1
  simp at this

end Whusp.Sync
