import Whusp.Lib.Transition
import Whusp.Task.Signal

/-!
# Killing a thread group

`queue_signal_to_process` for SIGKILL against everything that changes the thread
group of a live process other than init: thread creation (`attach_task`), the exit
of one thread and of the group (`exit_current`), exec by the leader and by another
thread (`terminate_sibling_threads`, `rebind_non_leader_for_exec`), other signals,
their consumption (`check_signals_of_task`, delivery to a handler, `sigtimedwait`),
stops and continues.  One step is one process-lock or task-lock section.

## What is proved

The signal is recorded on one thread only, and as SIGKILL is never blocked that
thread is the leader of the snapshot.  Only an exec by another thread removes the
leader while the group goes on, and it drops the leader's pending signals with it.
In runs without such an exec after the snapshot, a killed process is in group exit,
a zombie, or has a live thread with SIGKILL pending.
-/

namespace Whusp.Task

open Function Whusp.Lib List Option

universe u

/-- Where a thread is in `exit_current`. -/
inductive ExitPhase where
  | alive
  /-- `process_exit` is decided, neither exclusion nor slot is touched yet. -/
  | entered (processExit : Bool)
  /-- Owns the group-exit exclusion. -/
  | exclusive
  /-- A single thread's exit has cleared its slot. -/
  | detached
  | published
  deriving DecidableEq

/-- The local variables of a thread that looks at one of its pending signals. -/
inductive SignalLocal where
  | idle
  | picked (signum : Nat)
  | read (signum : Nat) (action : SignalAction)

/-- The fields of a thread that signals, exit and exec use. -/
structure Thread where
  exited : Bool
  tid : Nat
  pendingSignals : SignalFlags
  signalMask : SignalFlags
  hasRes : Bool
  phase : ExitPhase
  locals : SignalLocal

/-- What the owner of `exclusive_task` does. -/
inductive Exclusion where
  | exec
  | groupExit
  deriving DecidableEq

/-- The progress of one call of `queue_signal_to_process(SIGKILL)`. -/
inductive KillCall (T : Type u) where
  | notCalled
  /-- The snapshot is taken; `rest` is still to be looked at by `find`. -/
  | scanning (all rest : List T)
  | target (t : T)
  /-- `resume_process_from_job_control_stop` has run. -/
  | resumed (t : T)
  | queued (t : T)
  | done (t : Option T)

structure Group (T : Type u) where
  /-- `ProcessControlBlockInner::tasks`. -/
  slots : List (Option T)
  isZombie : Bool
  exclusive : Option (T × Exclusion)
  /-- Some thread got the group-exit exclusion. -/
  groupExit : Bool
  jobControlStopped : Bool
  actions : Nat → SignalAction
  thread : T → Option Thread
  kill : KillCall T

inductive GroupStep (T : Type u) where
  | spawn (parent t : T) (tid : Nat)
  | exitEnter (t : T) (group : Bool)
  | exitDetach (t : T)
  | groupExitAcquire (t : T)
  | groupExitTerminate (t : T)
  | groupExitPublish (t : T)
  | exitFinish (t : T)
  | execBegin (t : T)
  | execTerminate (t : T)
  | execRebind (t : T)
  | execEnd (t : T) (committed : Bool)
  | queueSignal (t : T) (signum : Nat)
  | setMask (t : T) (how : Nat) (raw : BitVec 64)
  | sigaction (signum handler flags restorer : Nat) (mask : BitVec 64)
  | pickSignal (t : T) (signum : Nat)
  | readAction (t : T)
  | consumeSignal (t : T)
  | waitSignal (t : T) (signum : Nat)
  | stopRequest
  | stopClear (t : T) (signum : Nat)
  | resumeRequest
  | resumeClear (t : T)
  | killSnapshot
  | killScan
  | killResume
  | killQueue
  | killReturn

variable {T : Type u} [DecidableEq T]

namespace Group

def new (leader : T) : Group T where
  slots := [some leader]
  isZombie := false
  exclusive := none
  groupExit := false
  jobControlStopped := false
  actions := fun _ => .dfl
  thread := update (fun _ => none) leader
    (some ⟨false, 0, 0, 0, true, .alive, .idle⟩)
  kill := .notCalled

def setThread (p : Group T) (t : T) (th : Thread) : Group T :=
  { p with thread := update p.thread t (some th) }

/-- The live thread `t`, if it is one. -/
def live (p : Group T) (t : T) : Option Thread :=
  (p.thread t).filter fun th => !th.exited

/-- `attach_task`: the slot vector grows up to the new thread's slot. -/
def attach (slots : List (Option T)) (tid : Nat) (t : T) : List (Option T) :=
  (slots ++ List.replicate (tid + 1 - slots.length) none).set tid (some t)

def exitThread (th : Thread) : Thread := { th with exited := true, hasRes := false }

/-- The threads outside slot `currentTid`. -/
def siblings (slots : List (Option T)) (currentTid : Nat) : List T :=
  (slots.eraseIdx currentTid).filterMap id

/-- `terminate_sibling_threads`: every other thread is marked `Exited`; slot 0 is
kept for reaping. -/
def terminateSiblings (p : Group T) (currentTid : Nat) : Group T :=
  { p with
    slots := p.slots.mapIdx fun i slot => if i = currentTid ∨ i = 0 then slot else none
    thread := fun u =>
      if u ∈ siblings p.slots currentTid then (p.thread u).map exitThread else p.thread u }

/-- The process-lock section of `rebind_non_leader_for_exec`; `none` where it
returns an error. -/
def rebindNonLeader (p : Group T) (t : T) (th : Thread) : Option (Group T) :=
  if p.slots[th.tid]? = some (some t) then
    match p.slots with
    | some leader :: _ =>
      if (p.thread leader).any (·.hasRes) then
        some { p with
          slots := [some t]
          thread := fun u =>
            if u = t then some { th with tid := 0 }
            else if some u ∈ p.slots then (p.thread u).map exitThread
            else p.thread u }
      else none
    | _ => none
  else none

/-- Whether `check_signals_of_task`, a delivery to a handler or an ignored delivery
clears a pending signal with this action. -/
def consumes (signum : Nat) (action : SignalAction) : Bool :=
  action.isIgnore ||
    (defaultSignalAction signum == some .ignore && !action.hasUserHandler) ||
    (action.hasUserHandler && canDeliverUserSignal signum)

def clearPending (th : Thread) (signals : SignalFlags) : Thread :=
  { th with pendingSignals := SignalFlags.remove th.pendingSignals signals }

/-- The mask while a handler runs; without a handler it stays as it is. -/
def handlerMask (old : SignalFlags) (signum : Nat) (action : SignalAction) : SignalFlags :=
  if action.hasUserHandler then
    if action.hasFlag SA_NODEFER then old ||| action.mask
    else old ||| action.mask ||| SignalFlags.single signum
  else old

/-- The mask after `rt_sigprocmask` with an already stripped set. -/
def newMask (how : Nat) (old set : SignalFlags) : SignalFlags :=
  if how = 0 then old ||| set else if how = 1 then SignalFlags.remove old set else set

/-- The steps of `queue_signal_to_process(SIGKILL)`. -/
def killStep (p : Group T) : GroupStep T → Option (Group T)
  | .killSnapshot =>
    match p.kill with
    | .notCalled => some { p with kill := .scanning (p.slots.filterMap id) (p.slots.filterMap id) }
    | _ => none
  | .killScan =>
    match p.kill with
    | .scanning all (t :: rest) =>
      if (p.thread t).any fun th => !th.signalMask.has SIGKILL then
        some { p with kill := .target t }
      else some { p with kill := .scanning all rest }
    | .scanning (t :: _) [] => some { p with kill := .target t }
    | .scanning [] [] => some { p with kill := .done none }
    | _ => none
  | .killResume =>
    match p.kill with
    | .target t => some { p with jobControlStopped := false, kill := .resumed t }
    | _ => none
  | .killQueue =>
    match p.kill with
    | .resumed t =>
      match p.thread t with
      | some th =>
        some { p.setThread t
            { th with pendingSignals := th.pendingSignals ||| SignalFlags.single SIGKILL } with
          kill := .queued t }
      | none => none
    | _ => none
  | .killReturn =>
    match p.kill with
    | .queued t => some { p with kill := .done (some t) }
    | _ => none
  | _ => none

/-- The steps of a live thread `t`, seen with its own record. -/
def threadStep (p : Group T) (t : T) (th : Thread) : GroupStep T → Option (Group T)
  | .exitEnter _ group =>
    if th.phase = .alive ∧ p.exclusive ≠ some (t, .exec) then
      some (p.setThread t { th with phase := .entered (group || th.tid == 0) })
    else none
  | .exitDetach _ =>
    if th.phase = .entered false then
      some { p.setThread t { th with phase := .detached, hasRes := false } with
        slots := if th.tid ≠ 0 then p.slots.set th.tid none else p.slots }
    else none
  | .groupExitAcquire _ =>
    if th.phase = .entered true ∧ p.exclusive = none then
      some { p.setThread t { th with phase := .exclusive } with
        exclusive := some (t, .groupExit), groupExit := true }
    else none
  | .groupExitTerminate _ =>
    if th.phase = .exclusive then
      some (terminateSiblings
        { p with slots := if th.tid ≠ 0 then p.slots.set th.tid none else p.slots } th.tid)
    else none
  | .groupExitPublish _ =>
    if th.phase = .exclusive then
      some { p.setThread t { th with phase := .published } with
        slots := p.slots.take 1, isZombie := true, exclusive := none }
    else none
  | .exitFinish _ =>
    if th.phase = .detached ∨ th.phase = .published then
      some (p.setThread t { th with exited := true })
    else none
  | .execBegin _ =>
    if th.phase = .alive ∧ p.exclusive = none then
      some { p with exclusive := some (t, .exec) }
    else none
  | .execTerminate _ =>
    if p.exclusive = some (t, .exec) ∧ th.tid = 0 then some (p.terminateSiblings th.tid) else none
  | .execRebind _ =>
    if p.exclusive = some (t, .exec) ∧ th.tid ≠ 0 then p.rebindNonLeader t th else none
  | .execEnd _ committed =>
    if p.exclusive = some (t, .exec) then
      some { p with
        exclusive := none
        actions := fun n =>
          if committed && (p.actions n).hasUserHandler then .dfl else p.actions n }
    else none
  | .setMask _ how raw =>
    some (p.setThread t { th with
      signalMask := newMask how th.signalMask (signalFlagsFromRaw raw) })
  | .pickSignal _ signum =>
    if (th.pendingSignals.has signum && !th.signalMask.has signum) = true then
      some (p.setThread t { th with locals := .picked signum })
    else none
  | .readAction _ =>
    match th.locals with
    | .picked signum =>
      some { p.setThread t { th with locals := .read signum (p.actions signum) } with
        actions :=
          if (p.actions signum).hasUserHandler && (p.actions signum).hasFlag SA_RESETHAND then
            update p.actions signum .dfl
          else p.actions }
    | _ => none
  | .consumeSignal _ =>
    match th.locals with
    | .read signum action =>
      if consumes signum action then
        some (p.setThread t { clearPending th (SignalFlags.single signum) with
          locals := .idle
          signalMask := handlerMask th.signalMask signum action })
      else some (p.setThread t { th with locals := .idle })
    | _ => none
  | .waitSignal _ signum =>
    -- the wanted set of `sigtimedwait` went through `signal_flags_from_raw`
    if signum ≠ SIGKILL ∧ signum ≠ SIGSTOP then
      some (p.setThread t (clearPending th (SignalFlags.single signum)))
    else none
  | _ => none

/-- The allocator hands out a tid that its last holder has given back.  An exiting thread gives
its tid back before its slot is cleared, so the new thread may find it there. -/
def tidFree (p : Group T) (tid : Nat) : Bool :=
  match p.slots.getD tid none with
  | none => true
  | some u => (p.thread u).any (·.phase = .entered false)

def step (p : Group T) (a : GroupStep T) : Option (Group T) :=
  match a with
  | .spawn parent t tid =>
    match p.live parent, p.thread t with
    | some pth, none =>
      if p.tidFree tid then
        some { p.setThread t ⟨false, tid, 0, pth.signalMask, true, .alive, .idle⟩ with
          slots := attach p.slots tid t }
      else none
    | _, _ => none
  | .queueSignal t signum =>
    (p.thread t).map fun th =>
      p.setThread t
        { th with pendingSignals := th.pendingSignals ||| SignalFlags.single signum }
  | .sigaction signum handler flags restorer mask =>
    if 0 < signum ∧ signum < SIGNAL_INFO_SLOTS ∧ signum ≠ SIGKILL ∧ signum ≠ SIGSTOP then
      some { p with
        actions := update p.actions signum
          (SignalAction.fromLinux handler flags restorer mask) }
    else none
  | .stopRequest => some { p with jobControlStopped := p.jobControlStopped || !p.isZombie }
  | .stopClear t signum =>
    if signum ∈ [SIGSTOP, SIGTSTP, SIGTTIN, SIGTTOU] then
      (p.thread t).map fun th => p.setThread t
        (clearPending th (SignalFlags.single SIGCONT ||| SignalFlags.single signum))
    else none
  | .resumeRequest => some { p with jobControlStopped := false }
  | .resumeClear t => (p.thread t).map fun th => p.setThread t (clearPending th stopSignals)
  | .killSnapshot | .killScan | .killResume | .killQueue | .killReturn => p.killStep a
  | .exitEnter t _ | .exitDetach t | .groupExitAcquire t | .groupExitTerminate t
  | .groupExitPublish t | .exitFinish t | .execBegin t | .execTerminate t | .execRebind t
  | .execEnd t _ | .setMask t _ _ | .pickSignal t _ | .readAction t | .consumeSignal t
  | .waitSignal t _ => (p.live t).bind fun th => p.threadStep t th a

end Group

open Whusp.Task.Group

/-- A process that starts with its leader only. -/
def groupSystem : System (Group T) (GroupStep T) where
  init := fun p => ∃ leader, p = new leader
  step := step

/-! ## The property and the condition -/

namespace Group

/-- Once the call has returned, the process is in group exit, a zombie, or has a live
thread with SIGKILL pending. -/
def KillKept (p : Group T) : Prop :=
  ∀ target, p.kill = .done target → p.groupExit = true ∨ p.isZombie = true ∨
    ∃ t th, some t ∈ p.slots ∧ p.live t = some th ∧ th.pendingSignals.has SIGKILL = true

end Group

/-- No thread other than the leader rebinds the group to itself by exec once a
SIGKILL is being sent. -/
def noRebindAfterKill (p : Group T) : GroupStep T → Prop
  | .execRebind _ =>
    match p.kill with
    | .notCalled => True
    | _ => False
  | _ => True

instance : DecidableRel (noRebindAfterKill (T := T)) := fun p a => by
  unfold noRebindAfterKill
  split
  · split <;> infer_instance
  · infer_instance

/-! ## The invariant -/

namespace Group

variable {p q : Group T} {t x : T} {th : Thread}

omit [DecidableEq T] in
@[simp] lemma live_eq_some : p.live t = some th ↔ p.thread t = some th ∧ th.exited = false := by
  unfold live
  simp

/-- A thread's own part of the invariant; `g` says that the group is in exit. -/
structure ThreadOk (g : Bool) (th : Thread) : Prop where
  mask : th.signalMask.has SIGKILL = false
  locals : ∀ signum a, th.locals = .read signum a →
    a.mask.has SIGKILL = false ∧ (signum = SIGKILL → a = .dfl)
  /-- The leader's exit is the exit of the group. -/
  single : g = false → th.phase = .entered false ∨ th.phase = .detached → th.tid ≠ 0
  grouped : th.phase = .exclusive ∨ th.phase = .published → g = true

/-- What the kill call knows while the group is not in exit. -/
def KillOk (p : Group T) : KillCall T → Prop
  | .notCalled => True
  | .scanning all rest => rest = all ∧ ∃ t, all.head? = some t ∧ p.slots.head? = some (some t)
  | .target t => p.slots.head? = some (some t)
  | .resumed t => p.slots.head? = some (some t)
  | .queued t => p.slots.head? = some (some t) ∧
      ∃ th, p.thread t = some th ∧ th.pendingSignals.has SIGKILL = true
  | .done (some t) => p.slots.head? = some (some t) ∧
      ∃ th, p.thread t = some th ∧ th.pendingSignals.has SIGKILL = true
  | .done none => False

/-- The thread group while it is not in exit. -/
structure Running (p : Group T) : Prop where
  leader : ∃ t th, p.slots.head? = some (some t) ∧ p.thread t = some th ∧ th.exited = false
  slotted : ∀ i t, p.slots[i]? = some (some t) → ∃ th, p.thread t = some th ∧ th.tid = i
  zero : ∀ t th, p.thread t = some th → th.exited = false → th.tid = 0 →
    p.slots.head? = some (some t)
  exec : ∀ t, p.exclusive = some (t, .exec) →
    ∃ th, p.thread t = some th ∧ th.exited = false ∧ th.phase = .alive
  kill : p.KillOk p.kill

structure Inv (p : Group T) : Prop where
  zombie : p.isZombie = true → p.groupExit = true
  actions : p.actions SIGKILL = .dfl ∧ ∀ n, (p.actions n).mask.has SIGKILL = false
  threads : ∀ t th, p.thread t = some th → ThreadOk p.groupExit th
  running : p.groupExit = false → p.Running

omit [DecidableEq T] in
/-- After the call the leader is alive and has the signal. -/
lemma Inv.killKept (h : p.Inv) : p.KillKept := by
  intro target hk
  by_cases hg : p.groupExit = true
  · exact .inl hg
  have hrun := h.running (by simpa using hg)
  have hkill := hrun.kill
  rw [hk] at hkill
  rcases target with _ | t
  · exact hkill.elim
  obtain ⟨hhead, th, ht, hpend⟩ := hkill
  -- the target is still the leader, and the leader is alive
  obtain ⟨l, lth, hl, hlt, hlive⟩ := hrun.leader
  rw [hhead] at hl
  cases hl
  rw [ht] at hlt
  cases hlt
  refine .inr (.inr ⟨t, th, ?_, by simp [ht, hlive], hpend⟩)
  exact mem_of_mem_head? (by simp [hhead])

lemma inv_new (leader : T) : (new leader).Inv where
  zombie := by simp [new]
  actions := by simp [new, SignalAction.dfl]
  threads := by
    intro t th ht
    rcases eq_or_ne t leader with rfl | hl
    · simp only [new, update_self, some.injEq] at ht
      subst ht
      constructor <;> simp
    · simp [new, hl] at ht
  running := by
    intro _
    refine ⟨⟨leader, ⟨false, 0, 0, 0, true, .alive, .idle⟩, by simp [new], by simp [new], rfl⟩,
      ?_, ?_, by simp [new], trivial⟩
    · intro i t hi
      cases i with
      | zero =>
        cases hi
        exact ⟨⟨false, 0, 0, 0, true, .alive, .idle⟩, by simp [new], rfl⟩
      | succ i => simp [new] at hi
    · intro t th ht _ _
      by_cases hl : t = leader
      · simp [new, hl]
      · simp [new, hl] at ht

/-! ## Updates of one thread -/

variable {xth th' : Thread} {k : KillCall T} {mask old : SignalFlags} {signum : Nat} {g : Bool}
  {l : T} {a : GroupStep T}

lemma setThread_eq_some (h : (p.setThread t th).thread x = some xth) :
    (x = t ∧ xth = th) ∨ (x ≠ t ∧ p.thread x = some xth) := by
  dsimp only [setThread] at h
  rcases eq_or_ne x t with rfl | hxt
  · rw [update_self] at h
    exact .inl ⟨rfl, (some.inj h).symm⟩
  · rw [update_of_ne hxt] at h
    exact .inr ⟨hxt, h⟩

/-- How a step may change the record of thread `t`. -/
structure Keeps (p : Group T) (t : T) (th th' : Thread) : Prop where
  ok : ThreadOk p.groupExit th'
  tid : th'.tid = th.tid
  exited : th'.exited = true → th.exited = true ∨ th.tid ≠ 0 ∨ p.groupExit = true
  stays : th.exited = true → th'.exited = true
  pending : th.pendingSignals.has SIGKILL = true → th'.pendingSignals.has SIGKILL = true
  /-- The owner of the exec exclusion goes on with its exec. -/
  exec : p.groupExit = false → p.exclusive = some (t, .exec) →
    th'.exited = th.exited ∧ th'.phase = th.phase

omit [DecidableEq T] in
/-- What the call knows depends on the leader's slot and on the signal recorded on
the leader only. -/
lemma KillOk.mono (hs : q.slots.head? = p.slots.head?)
    (ht : ∀ x th, p.slots.head? = some (some x) → p.thread x = some th →
      th.pendingSignals.has SIGKILL = true →
      ∃ th', q.thread x = some th' ∧ th'.pendingSignals.has SIGKILL = true)
    (h : p.KillOk k) : q.KillOk k := by
  have recorded : ∀ x, (p.slots.head? = some (some x) ∧
      ∃ th, p.thread x = some th ∧ th.pendingSignals.has SIGKILL = true) →
      q.slots.head? = some (some x) ∧
        ∃ th, q.thread x = some th ∧ th.pendingSignals.has SIGKILL = true := by
    intro x hx
    obtain ⟨hhead, th, hth, hp⟩ := hx
    exact ⟨hs.trans hhead, ht x th hhead hth hp⟩
  cases k with
  | notCalled => trivial
  | scanning all rest =>
    obtain ⟨heq, x, hx, hhead⟩ := h
    exact ⟨heq, x, hx, hs.trans hhead⟩
  | target | resumed => exact hs.trans h
  | queued x => exact recorded x h
  | done target =>
    cases target with
    | none => exact h
    | some x => exact recorded x h

attribute [local simp] setThread

lemma Running.of_setThread (h : p.Running) (hg : p.groupExit = false)
    (ht : p.thread t = some th) (hk : Keeps p t th th') : (p.setThread t th').Running where
  leader := by
    obtain ⟨l, lth, hl, hlt, hlive⟩ := h.leader
    by_cases hlt' : l = t
    swap
    · exact ⟨l, lth, hl, by simpa [hlt'] using hlt, hlive⟩
    subst hlt'
    rw [ht] at hlt
    cases hlt
    -- the leader's thread id is 0, so it does not leave alone
    obtain ⟨th₀, hth₀, htid⟩ := h.slotted 0 l (by rw [← head?_eq_getElem?]; exact hl)
    rw [ht] at hth₀
    cases hth₀
    refine ⟨l, th', hl, by simp, ?_⟩
    by_contra hex
    rcases hk.exited (by simpa using hex) with h₁ | h₁ | h₁
    · simp [hlive] at h₁
    · exact h₁ htid
    · simp [hg] at h₁
  slotted := by
    intro i x hx
    obtain ⟨xth, hxt, htid⟩ := h.slotted i x hx
    by_cases hxt' : x = t
    · subst hxt'
      rw [ht] at hxt
      cases hxt
      exact ⟨th', by simp, hk.tid.trans htid⟩
    · exact ⟨xth, by simpa [hxt'] using hxt, htid⟩
  zero := by
    intro x xth hx hlive htid
    rcases setThread_eq_some hx with ⟨rfl, rfl⟩ | ⟨-, hx⟩
    · rw [hk.tid] at htid
      by_cases hex : th.exited = true
      · have := hk.stays hex
        simp [hlive] at this
      · exact h.zero x th ht (by simpa using hex) htid
    · exact h.zero x xth hx hlive htid
  exec := by
    intro x hx
    obtain ⟨xth, hxt, hlive, hphase⟩ := h.exec x hx
    by_cases hxt' : x = t
    · subst hxt'
      rw [ht] at hxt
      cases hxt
      obtain ⟨h₁, h₂⟩ := hk.exec hg hx
      exact ⟨th', by simp, by rw [h₁]; exact hlive, by rw [h₂]; exact hphase⟩
    · exact ⟨xth, by simpa [hxt'] using hxt, hlive, hphase⟩
  kill := by
    refine KillOk.mono (p := p) rfl ?_ h.kill
    intro x xth _ hx hp
    by_cases hxt' : x = t
    · subst hxt'
      rw [ht] at hx
      cases hx
      exact ⟨th', by simp, hk.pending hp⟩
    · exact ⟨xth, by simpa [hxt'] using hx, hp⟩

/-- A thread that keeps what the invariant needs may change. -/
lemma Inv.of_setThread (h : p.Inv) (ht : p.thread t = some th) (hk : Keeps p t th th') :
    (p.setThread t th').Inv := by
  refine { h with threads := ?_, running := fun hg => (h.running hg).of_setThread hg ht hk }
  intro x xth hx
  rcases setThread_eq_some hx with ⟨rfl, rfl⟩ | ⟨-, hx⟩
  · exact hk.ok
  · exact h.threads x xth hx

omit [DecidableEq T] in
/-- Signals may change if SIGKILL stays pending and unmasked. -/
lemma Keeps.of_signals (h : p.Inv)
    (ht : p.thread t = some th) {pend : SignalFlags} {loc : SignalLocal}
    (hmask : mask.has SIGKILL = false) (hloc : ∀ signum a, loc = .read signum a →
      a.mask.has SIGKILL = false ∧ (signum = SIGKILL → a = .dfl))
    (hpend : th.pendingSignals.has SIGKILL = true → pend.has SIGKILL = true) :
    Keeps p t th { th with pendingSignals := pend, signalMask := mask, locals := loc } where
  ok := ⟨hmask, hloc, (h.threads t th ht).single, (h.threads t th ht).grouped⟩
  tid := rfl
  exited := fun hx => .inl hx
  stays := fun hx => hx
  pending := hpend
  exec := fun _ _ => ⟨rfl, rfl⟩

open SignalFlags

/-- Clearing signals other than SIGKILL. -/
lemma clearPending_keeps_kill {signals : SignalFlags} (hs : signals.has SIGKILL = false)
    (hp : th.pendingSignals.has SIGKILL = true) :
    (SignalFlags.remove th.pendingSignals signals).has SIGKILL = true := by
  rw [has_remove (by decide), hp, hs]
  rfl

lemma single_noKill (h : signum ≠ SIGKILL) : (SignalFlags.single signum).has SIGKILL = false := by
  rw [has_single (by decide)]
  exact decide_eq_false (Ne.symm h)

/-- No action that SIGKILL can have clears it. -/
lemma ne_kill_of_consumes {a : SignalAction} (ha : signum = SIGKILL → a = .dfl)
    (hc : consumes signum a = true) : signum ≠ SIGKILL := by
  intro hs
  rw [ha hs, hs] at hc
  revert hc
  decide

/-- No mask call blocks SIGKILL. -/
lemma newMask_noKill {how : Nat} {set : SignalFlags} (ho : old.has SIGKILL = false)
    (hs : set.has SIGKILL = false) : (newMask how old set).has SIGKILL = false := by
  unfold newMask
  split
  · rw [has_or, ho, hs]
    rfl
  · split
    · rw [has_remove (by decide), ho]
      rfl
    · exact hs

lemma handlerMask_noKill {a : SignalAction} (ho : old.has SIGKILL = false)
    (ha : a.mask.has SIGKILL = false) (hs : signum ≠ SIGKILL) :
    (handlerMask old signum a).has SIGKILL = false := by
  unfold handlerMask
  split
  · split
    · simp [ho, ha]
    · simp [ho, ha, single_noKill hs]
  · exact ho

/-! ## Updates of the group -/

omit [DecidableEq T] in
/-- A change of the fields that the invariant does not mention. -/
lemma Inv.of_stopped (h : p.Inv) (b : Bool) : Inv { p with jobControlStopped := b } := by
  refine { h with running := fun hg => ?_ }
  obtain ⟨h₁, h₂, h₃, h₄, h₅⟩ := h.running hg
  exact ⟨h₁, h₂, h₃, h₄, h₅.mono rfl fun _ th _ hx hp => ⟨th, hx, hp⟩⟩

omit [DecidableEq T] in
lemma Inv.of_actions (h : p.Inv) {f : Nat → SignalAction}
    (hf : f SIGKILL = .dfl ∧ ∀ n, (f n).mask.has SIGKILL = false) :
    Inv { p with actions := f } := by
  refine { h with actions := hf, running := fun hg => ?_ }
  obtain ⟨h₁, h₂, h₃, h₄, h₅⟩ := h.running hg
  exact ⟨h₁, h₂, h₃, h₄, h₅.mono rfl fun _ th _ hx hp => ⟨th, hx, hp⟩⟩

omit [DecidableEq T] in
/-- Giving up the exclusion, or taking it for an exec. -/
lemma Inv.of_exclusive (h : p.Inv) {e : Option (T × Exclusion)} (he : ∀ t, e = some (t, .exec) →
      ∃ th, p.thread t = some th ∧ th.exited = false ∧ th.phase = .alive) :
    Inv { p with exclusive := e } := by
  refine { h with running := fun hg => ?_ }
  obtain ⟨h₁, h₂, h₃, -, h₅⟩ := h.running hg
  exact ⟨h₁, h₂, h₃, he, h₅.mono rfl fun _ th _ hx hp => ⟨th, hx, hp⟩⟩

omit [DecidableEq T] in
/-- The group enters its exit, or stays in it: only the per-thread part is left to
keep. -/
lemma Inv.of_groupExit (h : p.Inv) (hg : q.groupExit = true) (ha : q.actions = p.actions)
    (ht : ∀ t th, q.thread t = some th → ThreadOk true th) : q.Inv where
  zombie := fun _ => hg
  actions := by
    rw [ha]
    exact h.actions
  threads := by
    rw [hg]
    exact ht
  running := by simp [hg]

lemma ThreadOk.grow (h : ThreadOk g th) : ThreadOk true th :=
  ⟨h.mask, h.locals, nofun, fun _ => rfl⟩

lemma ThreadOk.exitThread (h : ThreadOk g th) : ThreadOk g (exitThread th) :=
  { h with }

variable {slots : List (Option T)} {tid : Nat}

omit [DecidableEq T] in
lemma getElem?_attach {i : Nat} (h : (attach slots tid t)[i]? = some (some x)) :
    (i = tid ∧ x = t) ∨ slots[i]? = some (some x) := by
  unfold attach at h
  rw [getElem?_set] at h
  split at h
  next hti =>
    split at h
    · simp only [some.injEq] at h
      exact .inl ⟨hti.symm, h.symm⟩
    · cases h
  · right
    by_cases hlt : i < slots.length
    · rwa [getElem?_append_left hlt] at h
    · rw [getElem?_append_right (by omega), getElem?_replicate] at h
      split at h <;> simp at h

omit [DecidableEq T] in
/-- The leader keeps its slot when another one is filled or cleared. -/
lemma head?_attach_set (hl : slots.head? = some (some l)) (htid : tid ≠ 0) (t : T) :
    (attach slots tid t).head? = some (some l) ∧ (slots.set tid none).head? = some (some l) := by
  obtain ⟨rest, hrest⟩ := head?_eq_some_iff.mp hl
  obtain ⟨n, rfl⟩ := Nat.exists_eq_succ_of_ne_zero htid
  subst hrest
  exact ⟨rfl, rfl⟩

omit [DecidableEq T] in
/-- The leader keeps its tid while the group is not in exit. -/
lemma Inv.ne_zero_of_tidFree (h : p.Inv) (hg : p.groupExit = false) (hfree : p.tidFree tid) :
    tid ≠ 0 := by
  rintro rfl
  obtain ⟨l, lth, hl, hlt, -⟩ := (h.running hg).leader
  rw [head?_eq_getElem?] at hl
  obtain ⟨th, ht, hzero⟩ := (h.running hg).slotted 0 l hl
  simp only [tidFree, getD_eq_getElem?_getD, hl, getD_some, ht, any_some,
    decide_eq_true_eq] at hfree
  exact (h.threads l th ht).single hg (.inl hfree) hzero

/-- A new thread takes a slot other than the leader's. -/
lemma Inv.of_spawn (h : p.Inv) (hmask : mask.has SIGKILL = false) (hnew : p.thread t = none)
    (hfree : p.tidFree tid) :
    Inv { p.setThread t ⟨false, tid, 0, mask, true, .alive, .idle⟩ with
      slots := attach p.slots tid t } := by
  refine { h with threads := ?_, running := ?_ }
  · intro x xth hx
    rcases setThread_eq_some hx with ⟨rfl, rfl⟩ | ⟨-, hx⟩
    · exact ⟨hmask, by simp, by simp, by simp⟩
    · exact h.threads x xth hx
  · intro hg
    have hrun := h.running hg
    obtain ⟨l, lth, hl, hlt, hlive⟩ := hrun.leader
    have htid := h.ne_zero_of_tidFree hg hfree
    have hhead := (head?_attach_set hl htid t).1
    have old : ∀ x xth, p.thread x = some xth → x ≠ t := by
      intro x xth hx hxt
      simp [hxt, hnew] at hx
    refine ⟨⟨l, lth, hhead, ?_, hlive⟩, ?_, ?_, ?_, ?_⟩
    · simpa [old l lth hlt] using hlt
    · intro i x hx
      rcases getElem?_attach hx with ⟨rfl, rfl⟩ | hx
      · simp
      · obtain ⟨xth, hxt, hxi⟩ := hrun.slotted i x hx
        exact ⟨xth, by simpa [old x xth hxt] using hxt, hxi⟩
    · intro x xth hx hlive' hzero
      rcases setThread_eq_some hx with ⟨rfl, rfl⟩ | ⟨-, hx⟩
      · exact absurd hzero htid
      have := hrun.zero x xth hx hlive' hzero
      rw [hl] at this
      rw [hhead]
      exact this
    · intro x hx
      obtain ⟨xth, hxt, hrest⟩ := hrun.exec x hx
      exact ⟨xth, by simpa [old x xth hxt] using hxt, hrest⟩
    · refine hrun.kill.mono (hhead.trans hl.symm) ?_
      intro x xth _ hx hp
      exact ⟨xth, by simpa [old x xth hx] using hx, hp⟩

omit [DecidableEq T] in
/-- Clearing a slot other than the leader's. -/
lemma Inv.of_clearSlot (h : p.Inv) (htid : tid ≠ 0) :
    Inv { p with slots := p.slots.set tid none } := by
  refine { h with running := ?_ }
  intro hg
  have hrun := h.running hg
  obtain ⟨l, lth, hl, hlt, hlive⟩ := hrun.leader
  have hhead := (head?_attach_set hl htid l).2
  refine ⟨⟨l, lth, hhead, hlt, hlive⟩, ?_, ?_, hrun.exec, ?_⟩
  · intro i x hx
    have hx' : p.slots[i]? = some (some x) := by
      rw [getElem?_set] at hx
      split at hx
      · split at hx <;> cases hx
      · exact hx
    exact hrun.slotted i x hx'
  · intro x xth hx hlive' hzero
    have := hrun.zero x xth hx hlive' hzero
    rw [hl] at this
    rw [hhead]
    exact this
  · exact hrun.kill.mono (hhead.trans hl.symm) fun _ th _ hx hp => ⟨th, hx, hp⟩

omit [DecidableEq T] in
lemma mem_siblings_zero (h : x ∈ siblings slots 0) : ∃ i, slots[i + 1]? = some (some x) := by
  unfold siblings at h
  rw [mem_filterMap] at h
  obtain ⟨o, ho, hox⟩ := h
  subst hox
  cases slots with
  | nil => simp at ho
  | cons a rest =>
    obtain ⟨i, hi⟩ := mem_iff_getElem?.mp ho
    exact ⟨i, by simpa using hi⟩

lemma terminateSiblings_eq_some (h : (p.terminateSiblings tid).thread x = some xth) :
    ∃ yth, p.thread x = some yth ∧ (xth = exitThread yth ∨ xth = yth) := by
  simp only [terminateSiblings] at h
  split at h
  · obtain ⟨yth, hy, rfl⟩ := map_eq_some_iff.mp h
    exact ⟨yth, hy, .inl rfl⟩
  · exact ⟨xth, h, .inr rfl⟩

section

variable (h : p.Inv) (ht : p.thread t = some th) (hlive : th.exited = false)
include h ht hlive

/-- The leader's exec ends every other thread and keeps the leader. -/
lemma Inv.of_execTerminate
    (htid : th.tid = 0) (hown : p.exclusive = some (t, .exec)) : (p.terminateSiblings 0).Inv := by
  refine { h with threads := ?_, running := ?_ }
  · intro x xth hx
    obtain ⟨yth, hy, rfl | rfl⟩ := terminateSiblings_eq_some hx
    · exact (h.threads x yth hy).exitThread
    · exact h.threads x xth hy
  · intro hg
    have hrun := h.running hg
    have hl := hrun.zero t th ht hlive htid
    -- slots other than 0 hold threads with another id
    have hnot : t ∉ siblings p.slots 0 := by
      intro hmem
      obtain ⟨i, hi⟩ := mem_siblings_zero hmem
      obtain ⟨th', ht', hid⟩ := hrun.slotted (i + 1) t hi
      rw [ht] at ht'
      cases ht'
      omega
    have hkept : (p.terminateSiblings 0).thread t = some th := by
      simp [terminateSiblings, hnot, ht]
    have hhead : (p.terminateSiblings 0).slots.head? = some (some t) := by
      obtain ⟨rest, hrest⟩ := head?_eq_some_iff.mp hl
      simp [terminateSiblings, hrest]
    refine ⟨⟨t, th, hhead, hkept, hlive⟩, ?_, ?_, ?_, ?_⟩
    · intro i x hx
      have hx' : p.slots[i]? = some (some x) := by
        simp only [terminateSiblings, getElem?_mapIdx, map_eq_some_iff] at hx
        obtain ⟨o, ho, hox⟩ := hx
        split at hox
        · rw [ho, hox]
        · cases hox
      obtain ⟨xth, hxt, hxi⟩ := hrun.slotted i x hx'
      by_cases hmem : x ∈ siblings p.slots 0
      · exact ⟨exitThread xth, by simp [terminateSiblings, hmem, hxt], hxi⟩
      · exact ⟨xth, by simp [terminateSiblings, hmem, hxt], hxi⟩
    · intro x xth hx hlive' hzero
      obtain ⟨yth, hy, rfl | rfl⟩ := terminateSiblings_eq_some hx
      · simp [exitThread] at hlive'
      have := hrun.zero x xth hy hlive' hzero
      rw [hl] at this
      rw [hhead]
      exact this
    · intro x hx
      obtain ⟨xth, hxt, hrest⟩ := hrun.exec x hx
      -- the exec is the leader's own
      obtain rfl : t = x := by
        rw [terminateSiblings, hown] at hx
        cases hx
        rfl
      exact ⟨xth, hkept.trans (ht.symm.trans hxt), hrest⟩
    · refine hrun.kill.mono (hhead.trans hl.symm) ?_
      intro x xth hx hxt hp
      rw [hl] at hx
      cases hx
      rw [ht] at hxt
      cases hxt
      exact ⟨th, hkept, hp⟩

/-- An exec by another thread before any SIGKILL is sent: that thread is the new
leader. -/
lemma Inv.of_rebind
    (hown : p.exclusive = some (t, .exec)) (hk : p.kill = .notCalled)
    (hq : p.rebindNonLeader t th = some q) : q.Inv := by
  obtain ⟨-, hq⟩ := ite_none_right_eq_some.mp hq
  split at hq
  case h_2 => cases hq
  obtain ⟨-, rfl⟩ := of_guard hq
  refine ⟨h.zombie, h.actions, ?_, ?_⟩
  · intro x xth hx
    dsimp only at hx
    split at hx
    · cases hx
      have hth := h.threads t th ht
      refine { hth with single := ?_ }
      intro hg hphase
      obtain ⟨th', ht', -, halive⟩ := (h.running hg).exec t hown
      rw [ht] at ht'
      cases ht'
      simp [halive] at hphase
    · split at hx
      · obtain ⟨yth, hy, rfl⟩ := map_eq_some_iff.mp hx
        exact (h.threads x yth hy).exitThread
      · exact h.threads x xth hx
  · intro hg
    have hrun := h.running hg
    refine ⟨⟨t, { th with tid := 0 }, rfl, by simp, hlive⟩, ?_, ?_, ?_, ?_⟩
    · intro i x hx
      cases i with
      | zero =>
        cases hx
        simp
      | succ i => simp at hx
    · intro x xth hx hxlive hzero
      dsimp only at hx
      split at hx
      next hxt =>
        rw [hxt]
        rfl
      split at hx
      · obtain ⟨yth, -, rfl⟩ := map_eq_some_iff.mp hx
        simp [exitThread] at hxlive
      · -- a live thread with id 0 was in slot 0
        rename_i hout
        have := hrun.zero x xth hx hxlive hzero
        exact absurd (mem_of_mem_head? (by simp [this])) hout
    · intro x hx
      obtain rfl : t = x := by
        rw [hown] at hx
        cases hx
        rfl
      obtain ⟨th', ht', -, halive⟩ := hrun.exec t hown
      rw [ht] at ht'
      cases ht'
      exact ⟨{ th with tid := 0 }, by simp, hlive, halive⟩
    · rw [hk]
      trivial

end

omit [DecidableEq T] in
/-- A step of the kill call that changes no thread. -/
lemma Inv.of_kill (h : p.Inv) (hk : p.Running → p.KillOk k) : Inv { p with kill := k } := by
  refine { h with running := fun hg => ?_ }
  obtain ⟨h₁, h₂, h₃, h₄, -⟩ := h.running hg
  exact ⟨h₁, h₂, h₃, h₄, (hk (h.running hg)).mono rfl fun _ th _ hx hp => ⟨th, hx, hp⟩⟩

/-! ## One step -/

open Keeps

/-- The steps of the call keep the invariant. -/
lemma Inv.of_killStep (h : p.Inv) (hq : p.killStep a = some q) : q.Inv := by
  unfold killStep at hq
  split at hq
  -- the snapshot starts with the leader
  · split at hq
    case h_2 => cases hq
    cases hq
    apply h.of_kill
    intro hrun
    obtain ⟨l, lth, hl, -, -⟩ := hrun.leader
    obtain ⟨rest, hrest⟩ := head?_eq_some_iff.mp hl
    exact ⟨rfl, l, by simp [hrest], hl⟩
  -- the leader does not block SIGKILL, so the search ends with it
  · split at hq
    next t rest hk =>
      have hscan : p.Running → p.slots.head? = some (some t) ∧
          ((p.thread t).any fun th => !th.signalMask.has SIGKILL) = true := by
        intro hrun
        have hkill := hrun.kill
        rw [hk] at hkill
        obtain ⟨rfl, x, hx, hl⟩ := hkill
        cases hx
        obtain ⟨l, lth, hl', hlt, -⟩ := hrun.leader
        rw [hl] at hl'
        cases hl'
        simp [hlt, hl, (h.threads t lth hlt).mask]
      split at hq
      · cases hq
        exact h.of_kill fun hrun => (hscan hrun).1
      next hblocked =>
        cases hq
        exact h.of_kill fun hrun => absurd (hscan hrun).2 hblocked
    next hk =>
      cases hq
      apply h.of_kill
      intro hrun
      have hkill := hrun.kill
      rw [hk] at hkill
      cases hkill.1
    next hk =>
      cases hq
      apply h.of_kill
      intro hrun
      have hkill := hrun.kill
      rw [hk] at hkill
      obtain ⟨-, x, hx, -⟩ := hkill
      cases hx
    · cases hq
  · split at hq
    case h_2 => cases hq
    rename_i t hk
    cases hq
    refine (h.of_stopped false).of_kill fun hrun => ?_
    have hkill := hrun.kill
    rwa [show ({ p with jobControlStopped := false } : Group T).kill = .target t from hk] at hkill
  · split at hq
    case h_2 => cases hq
    rename_i t hk
    split at hq
    case h_2 => cases hq
    rename_i th ht
    cases hq
    have hth := h.threads t th ht
    have hset : (p.setThread t
        { th with pendingSignals := th.pendingSignals ||| single SIGKILL }).Inv :=
      h.of_setThread ht (of_signals h ht hth.mask hth.locals (fun hp => by rw [has_or, hp]; rfl))
    refine hset.of_kill fun hrun => ?_
    have hkill := hrun.kill
    rw [show (p.setThread t _).kill = .resumed t from hk] at hkill
    refine ⟨hkill, _, update_self .., ?_⟩
    rw [has_or, has_single (by decide)]
    simp
  · split at hq
    case h_2 => cases hq
    rename_i hk
    cases hq
    apply h.of_kill
    intro hrun
    have hkill := hrun.kill
    rwa [hk] at hkill
  · cases hq

omit [DecidableEq T] in
/-- The owner of the exec exclusion has not entered its exit. -/
lemma Inv.phase_of_exec (h : p.Inv) (hg : p.groupExit = false) (ht : p.thread t = some th)
    (he : p.exclusive = some (t, .exec)) : th.phase = .alive := by
  obtain ⟨th', ht', -, hphase⟩ := (h.running hg).exec t he
  rw [ht] at ht'
  cases ht'
  exact hphase

/-- So do the steps of a live thread. -/
lemma Inv.of_threadStep (h : p.Inv) (ht : p.thread t = some th) (hlive : th.exited = false)
    (hok : noRebindAfterKill p a) (hq : p.threadStep t th a = some q) : q.Inv := by
  have hth := h.threads t th ht
  unfold threadStep at hq
  split at hq
  · obtain ⟨⟨halive, hnot⟩, rfl⟩ := of_guard hq
    refine h.of_setThread ht ⟨⟨hth.mask, hth.locals, ?_, by simp⟩, rfl, .inl, id, id,
      fun _ he => absurd he hnot⟩
    -- the leader enters with `process_exit`
    simp
  · obtain ⟨hphase, rfl⟩ := of_guard hq
    have hset : (p.setThread t { th with phase := .detached, hasRes := false }).Inv :=
      h.of_setThread ht
        ⟨⟨hth.mask, hth.locals, fun hg _ => hth.single hg (.inl hphase), by simp⟩, rfl, .inl,
          id, id, fun hg he => by simp [h.phase_of_exec hg ht he] at hphase⟩
    split
    next hne =>
      exact hset.of_clearSlot hne
    · exact hset
  · obtain ⟨⟨hphase, hnone⟩, rfl⟩ := of_guard hq
    refine h.of_groupExit rfl rfl ?_
    intro x xth hx
    rcases setThread_eq_some hx with ⟨rfl, rfl⟩ | ⟨-, hx⟩
    · exact ⟨hth.mask, hth.locals, nofun, fun _ => rfl⟩
    · exact (h.threads x xth hx).grow
  · obtain ⟨hphase, rfl⟩ := of_guard hq
    have hg := hth.grouped (.inl hphase)
    refine h.of_groupExit hg rfl ?_
    intro x xth hx
    obtain ⟨yth, hy, rfl | rfl⟩ := terminateSiblings_eq_some hx
    · exact (h.threads x yth hy).exitThread.grow
    · exact (h.threads x xth hy).grow
  · obtain ⟨hphase, rfl⟩ := of_guard hq
    have hg := hth.grouped (.inl hphase)
    refine h.of_groupExit hg rfl ?_
    intro x xth hx
    rcases setThread_eq_some hx with ⟨rfl, rfl⟩ | ⟨-, hx⟩
    · exact ⟨hth.mask, hth.locals, nofun, fun _ => rfl⟩
    · exact (h.threads x xth hx).grow
  · obtain ⟨hphase, rfl⟩ := of_guard hq
    refine h.of_setThread ht ⟨{ hth with }, rfl, ?_,
      fun _ => rfl, id, ?_⟩
    · intro _
      cases hg : p.groupExit with
      | true => exact .inr (.inr rfl)
      | false =>
        rcases hphase with hphase | hphase
        · exact .inr (.inl (hth.single hg (.inr hphase)))
        · have := hth.grouped (.inr hphase)
          simp [hg] at this
    · intro hg he
      simp [h.phase_of_exec hg ht he] at hphase
  · obtain ⟨⟨halive, -⟩, rfl⟩ := of_guard hq
    apply h.of_exclusive
    rintro x hx
    cases hx
    exact ⟨th, ht, hlive, halive⟩
  · obtain ⟨⟨hown, hzero⟩, rfl⟩ := of_guard hq
    rw [hzero]
    exact h.of_execTerminate ht hlive hzero hown
  · obtain ⟨⟨hown, -⟩, hq⟩ := ite_none_right_eq_some.mp hq
    refine h.of_rebind ht hlive hown ?_ hq
    unfold noRebindAfterKill at hok
    dsimp only at hok
    split at hok
    · assumption
    · exact hok.elim
  · obtain ⟨-, rfl⟩ := of_guard hq
    refine (h.of_exclusive (e := none) nofun).of_actions ⟨?_, ?_⟩
    · simp [h.actions.1]
    intro n
    split
    · exact has_zero _
    · exact h.actions.2 n
  · cases hq
    exact h.of_setThread ht (of_signals h ht
      (newMask_noKill hth.mask (signalFlagsFromRaw_noKill _)) hth.locals id)
  · obtain ⟨-, rfl⟩ := of_guard hq
    exact h.of_setThread ht (of_signals h ht hth.mask nofun id)
  · split at hq
    case h_2 => cases hq
    rename_i signum hloc
    cases hq
    have hset : (p.setThread t { th with locals := .read signum (p.actions signum) }).Inv :=
      h.of_setThread ht (of_signals h ht hth.mask (by
        intro n a hna
        cases hna
        exact ⟨h.actions.2 signum, fun hs => by rw [hs]; exact h.actions.1⟩) id)
    refine hset.of_actions ?_
    split
    swap
    · exact h.actions
    refine ⟨?_, ?_⟩
    · by_cases hs : SIGKILL = signum
      · rw [hs, update_self]
      · rw [update_of_ne hs]
        exact h.actions.1
    · exact (forall_update_iff p.actions fun _ a => a.mask.has SIGKILL = false).mpr
        ⟨has_zero _, fun n _ => h.actions.2 n⟩
  · split at hq
    case h_2 => cases hq
    rename_i signum action hloc
    obtain ⟨hmask, hdfl⟩ := hth.locals signum action hloc
    split at hq
    next hc =>
      cases hq
      have hne := ne_kill_of_consumes hdfl hc
      exact h.of_setThread ht (of_signals h ht (handlerMask_noKill hth.mask hmask hne) nofun
        (clearPending_keeps_kill (single_noKill hne)))
    · cases hq
      exact h.of_setThread ht (of_signals h ht hth.mask nofun id)
  · obtain ⟨⟨hne, -⟩, rfl⟩ := of_guard hq
    exact h.of_setThread ht (of_signals h ht hth.mask hth.locals
      (clearPending_keeps_kill (single_noKill hne)))
  · cases hq

/-- **Step lemma**: every step other than a rebinding exec after the snapshot keeps the
invariant. -/
theorem Inv.step (h : p.Inv) (hok : noRebindAfterKill p a) (hq : p.step a = some q) : q.Inv := by
  cases a with
  | spawn parent t tid =>
    simp only [step] at hq
    split at hq
    case h_2 => cases hq
    rename_i pth hparent hnew
    obtain ⟨hfree, rfl⟩ := of_guard hq
    exact h.of_spawn (h.threads parent pth (live_eq_some.mp hparent).1).mask hnew hfree
  | queueSignal t signum =>
    obtain ⟨th, ht, rfl⟩ := map_eq_some_iff.mp hq
    have hth := h.threads t th ht
    exact h.of_setThread ht (of_signals h ht hth.mask hth.locals
      fun hp => by rw [has_or, hp]; rfl)
  | sigaction signum handler flags restorer mask =>
    obtain ⟨⟨-, -, hne, -⟩, rfl⟩ := of_guard hq
    refine h.of_actions ⟨?_, ?_⟩
    · rw [update_of_ne (Ne.symm hne)]
      exact h.actions.1
    · exact (forall_update_iff p.actions fun _ a => a.mask.has SIGKILL = false).mpr
        ⟨signalFlagsFromRaw_noKill mask, fun n _ => h.actions.2 n⟩
  | stopRequest | resumeRequest =>
    cases hq
    exact h.of_stopped _
  | stopClear t signum =>
    obtain ⟨hmem, hq⟩ := ite_none_right_eq_some.mp hq
    obtain ⟨th, ht, rfl⟩ := map_eq_some_iff.mp hq
    have hth := h.threads t th ht
    have hne : signum ≠ SIGKILL := by
      rintro rfl
      revert hmem
      decide
    refine h.of_setThread ht (of_signals h ht hth.mask hth.locals (clearPending_keeps_kill ?_))
    rw [has_or, single_noKill hne, single_noKill (by decide)]
    rfl
  | resumeClear t =>
    obtain ⟨th, ht, rfl⟩ := map_eq_some_iff.mp hq
    have hth := h.threads t th ht
    exact h.of_setThread ht (of_signals h ht hth.mask hth.locals
      (clearPending_keeps_kill stopSignals_noKill))
  | killSnapshot | killScan | killResume | killQueue | killReturn =>
    simp only [step] at hq
    exact h.of_killStep hq
  | exitEnter t _ | exitDetach t | groupExitAcquire t | groupExitTerminate t
  | groupExitPublish t | exitFinish t | execBegin t | execTerminate t | execRebind t
  | execEnd t _ | setMask t _ _ | pickSignal t _ | readAction t | consumeSignal t
  | waitSignal t _ =>
    obtain ⟨th, hlive, hq⟩ := bind_eq_some_iff.mp hq
    obtain ⟨ht, hex⟩ := live_eq_some.mp hlive
    exact h.of_threadStep ht hex hok hq

end Group

/-! ## Every run -/

/-- **SIGKILL is not lost**: in every run in which no other thread's exec rebinds the
group once the call has taken its snapshot, the process is in group exit, a zombie,
or has a live thread with SIGKILL pending in every state after the call. -/
theorem killKept_of_noRebind {p : Group T}
    (h : (groupSystem (T := T)).Reachable noRebindAfterKill p) : p.KillKept := by
  have hinv : p.Inv := by
    refine h.invariant ?_ ?_
    · intro p hp
      obtain ⟨leader, rfl⟩ := hp
      exact inv_new leader
    · intro p a q hp hok hq
      exact hp.step hok hq
  exact hinv.killKept

/-- A call that meets a second thread, a stop and a blocked mask. -/
def killRun : List (GroupStep Nat) :=
  [.spawn 0 1 1, .setMask 0 2 (BitVec.allOnes 64), .stopRequest, .killSnapshot, .killScan,
    .execBegin 0, .killResume, .execTerminate 0, .killQueue, .execEnd 0 true, .killReturn]

/-- The leader execs while the call is under way, and keeps the signal. -/
theorem killKept_of_noRebind_leader_exec :
    ∃ p, groupSystem.runWhile noRebindAfterKill (new 0) killRun = some p ∧
      p.kill = .done (some 0) ∧ p.KillKept := by
  obtain ⟨p, hp, hk⟩ : ∃ p, groupSystem.runWhile noRebindAfterKill (new 0) killRun = some p ∧
      p.kill = .done (some 0) := ⟨_, rfl, rfl⟩
  exact ⟨p, hp, hk, killKept_of_noRebind (System.reachable_of_runWhile (.init ⟨0, rfl⟩) hp)⟩

/-- **The lost signal**: SIGKILL is recorded on the leader, then thread 1 executes a
program; the group lives on with thread 1 alone, which has no signal pending. -/
theorem kill_lost_by_rebind :
    ∃ p : Group Nat, groupSystem.Reachable System.anyStep p ∧ ¬ p.KillKept := by
  obtain ⟨p, hp, hk, hg, hz, hs, h1⟩ : ∃ p : Group Nat,
      groupSystem.runWhile System.anyStep (new 0)
        [.spawn 0 1 1, .killSnapshot, .killScan, .killResume, .killQueue, .killReturn,
          .execBegin 1, .execRebind 1, .execEnd 1 true] = some p ∧
      p.kill = .done (some 0) ∧ p.groupExit = false ∧ p.isZombie = false ∧
      p.slots = [some 1] ∧
      (p.thread 1).any (fun th => th.pendingSignals.has SIGKILL) = false :=
    ⟨_, rfl, rfl, rfl, rfl, rfl, by decide⟩
  refine ⟨p, System.reachable_of_runWhile (.init ⟨0, rfl⟩) hp, ?_⟩
  intro hkept
  rcases hkept _ hk with h | h | ⟨t, th, hmem, hlive, hpend⟩
  · simp [hg] at h
  · simp [hz] at h
  rw [hs, mem_singleton] at hmem
  cases hmem
  rw [(live_eq_some.mp hlive).1] at h1
  simp [hpend] at h1

end Whusp.Task
