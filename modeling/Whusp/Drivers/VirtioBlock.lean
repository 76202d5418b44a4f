import Mathlib.Data.List.Nodup
import Mathlib.Data.List.Range
import Mathlib.Data.List.Perm.Subperm
import Whusp.Task.Wakeup

/-!
# Completion of non-blocking VirtIO block requests

The non-blocking read and write paths of `drivers/block.rs`: a submitter adds its
request to the virtqueue, sleeps on the condition variable of the returned token,
and after any return from `schedule` calls `complete_read_blocks` or
`complete_write_blocks` for that token.  Interrupts, the LoongArch completion poll
and every completing submitter look at the head of the used ring and wake the
waiter of the token they saw.

One step is one section of the driver's state lock, one section of a condition
variable's lock, or one task-lock section of the scheduler.  The device is an
assumption: it moves each submitted token to the used ring once, with a status.

## What is proved

`complete_*` fails unless its token is the next used entry, so every wakeup of a
waiter that comes from elsewhere stops the kernel.  The token that an interrupt
saw may also be completed and handed out again before the interrupt gets to
`signal_completed`; its signal then wakes the new owner of the token.  In runs
without these two, and with a device that reports success, each request is
completed once, by a call for the next used entry.
-/

namespace Whusp.Drivers

open Function Whusp.Lib Whusp.Task List Option

universe u v

inductive BlkOp where
  | read
  | write
  deriving DecidableEq

/-- `RespStatus` of the vendored driver, as far as `complete_*` looks at it. -/
inductive RespStatus where
  | ok
  | ioErr
  | unsupported
  deriving DecidableEq

/-- Where a task is in a non-blocking request. -/
inductive BlkPc (Token : Type v) where
  | idle
  /-- Submitted, as request number `req`, and not completed. -/
  | waiting (op : BlkOp) (req : Nat) (token : Token)
  deriving DecidableEq

/-- A call of `signal_completed` that is under way. -/
inductive SignalCall (T : Type u) (Token : Type v) where
  | idle
  /-- The used ring's head was `token`; `signal_front` is to be called. -/
  | signal (token : Token)
  /-- `signal_front` dequeued `w`; `wakeup_front_task` is to be called. -/
  | wake (w : T)
  deriving DecidableEq

/-- Who calls `signal_completed`: a submitter after its completion, or the
interrupt handler or timer poll of a CPU. -/
inductive Signaller (T : Type u) where
  | task (t : T)
  | cpu (n : Nat)
  deriving DecidableEq

/-- The assertions of the two request functions. -/
inductive BlkPanic where
  /-- `expect("Error when reading VirtIOBlk")` or its counterpart for writes. -/
  | completeExpect (op : BlkOp)
  /-- `assert_ne!(state.async_inflight, 0, ..)`. -/
  | inflightUnderflow (op : BlkOp)
  /-- `assert_ne!(previous, 0, ..)` on `async_inflight_hint`. -/
  | hintUnderflow (op : BlkOp)
  deriving DecidableEq

/-- The driver, its device, the submitters and the signal calls under way. -/
structure BlkState (T : Type u) (Token : Type v) where
  /-- Tokens that the device has and has not answered. -/
  pending : List Token
  /-- The used ring: answered tokens that were not popped, oldest first. -/
  used : List (Token × RespStatus)
  asyncInflight : Nat
  asyncInflightHint : Nat
  /-- The wait queue of the condition variable of each token. -/
  condvars : Token → List T
  pc : T → BlkPc Token
  inner : T → TaskInner Unit
  call : Signaller T → SignalCall T Token
  panic : Option BlkPanic
  /-- History: the number of requests submitted so far. -/
  submitted : Nat
  /-- History: the requests completed, in order. -/
  completed : List Nat

inductive BlkStep (T : Type u) (Token : Type v) where
  /-- The state-lock section that submits a request and gets `token`. -/
  | submit (t : T) (op : BlkOp) (token : Token)
  | answer (token : Token) (status : RespStatus)
  /-- The state-lock section of `handle_irq` on CPU `n`. -/
  | irq (n : Nat)
  /-- `poll_completion` on CPU `n`; `contended` where `try_lock` fails. -/
  | poll (n : Nat) (contended : Bool)
  /-- The condition-variable section of `signal_front`. -/
  | signal (a : Signaller T)
  /-- The `wakeup_front_task` that `signal_front` makes. -/
  | wake (a : Signaller T)
  | wakeup (src : WakeSource) (t : T)
  | finishSwitch (t : T)
  /-- The scheduler runs a ready submitter: its `schedule` returns. -/
  | resume (t : T)
  /-- The state-lock section that completes the request. -/
  | complete (t : T)

variable {T : Type u} {Token : Type v} [DecidableEq T] [DecidableEq Token]

namespace BlkState

/-- A fresh driver, with every task running outside of it. -/
def new : BlkState T Token where
  pending := []
  used := []
  asyncInflight := 0
  asyncInflightHint := 0
  condvars := fun _ => []
  pc := fun _ => .idle
  inner := fun _ => TaskInner.runningOn ()
  call := fun _ => .idle
  panic := none
  submitted := 0
  completed := []

/-- `VirtIOBlk::peek_used`. -/
def peekUsed (s : BlkState T Token) : Option Token := s.used.head?.map Prod.fst

/-- The call of `signal_completed` that follows a look at the used ring. -/
def signalCompleted : Option Token → SignalCall T Token
  | some token => .signal token
  | none => .idle

def wakeTask (s : BlkState T Token) (t : T) (front : Bool) : Option (BlkState T Token) :=
  ((s.inner t).wakeupSection front).map fun r =>
    { s with inner := update s.inner t r.1 }

/-- The section of `read_blocks_nonblocking_uncached` and
`write_blocks_nonblocking_uncached` that submits.  The queue hands out a token
that is not outstanding; a full queue panics in `unwrap` and has no step. -/
def submit (s : BlkState T Token) (t : T) (op : BlkOp) (token : Token) :
    Option (BlkState T Token) :=
  if token ∉ s.pending ∧ token ∉ s.used.map Prod.fst then
    ((s.inner t).prepareSwitch () .block).map fun i =>
      { s with
        pending := s.pending ++ [token]
        asyncInflight := s.asyncInflight + 1
        asyncInflightHint := s.asyncInflightHint + 1
        condvars := update s.condvars token (s.condvars token ++ [t])
        pc := update s.pc t (.waiting op s.submitted token)
        inner := update s.inner t i
        submitted := s.submitted + 1 }
  else none

/-- The section of the two request functions that completes request `req`. -/
def complete (s : BlkState T Token) (t : T) (op : BlkOp) (req : Nat) (token : Token) :
    BlkState T Token :=
  match s.used with
  | [] => { s with panic := some (.completeExpect op) }
  | (head, status) :: rest =>
    if head ≠ token then { s with panic := some (.completeExpect op) }
    -- `pop_used` has recycled the descriptors when the status is looked at
    else if status ≠ .ok then { s with used := rest, panic := some (.completeExpect op) }
    else if s.asyncInflight = 0 then
      { s with used := rest, panic := some (.inflightUnderflow op) }
    else if s.asyncInflightHint = 0 then
      { s with used := rest, panic := some (.hintUnderflow op) }
    else
      { s with
        used := rest
        asyncInflight := s.asyncInflight - 1
        asyncInflightHint := s.asyncInflightHint - 1
        pc := update s.pc t .idle
        call := update s.call (.task t)
          (signalCompleted (rest.head?.map Prod.fst))
        completed := s.completed ++ [req] }

/-- One step of a kernel that has not panicked. -/
def stepLive (s : BlkState T Token) : BlkStep T Token → Option (BlkState T Token)
  | .submit t op token =>
    if s.pc t = .idle ∧ s.call (.task t) = .idle then s.submit t op token else none
  | .answer token status =>
    if token ∈ s.pending then
      some { s with pending := s.pending.erase token, used := s.used ++ [(token, status)] }
    else none
  | .irq n =>
    if s.call (.cpu n) = .idle then
      some { s with call := update s.call (.cpu n) (signalCompleted s.peekUsed) }
    else none
  | .poll n contended =>
    if s.call (.cpu n) = .idle then
      if s.asyncInflightHint = 0 then some s
      else if contended then some s
      else some { s with call := update s.call (.cpu n) (signalCompleted s.peekUsed) }
    else none
  | .signal a =>
    match s.call a with
    | .signal token =>
      match s.condvars token with
      | w :: q =>
        some { s with
          condvars := update s.condvars token q
          call := update s.call a (.wake w) }
      | [] => some { s with call := update s.call a .idle }
    | _ => none
  | .wake a =>
    match s.call a with
    | .wake w =>
      (s.wakeTask w true).map fun s' => { s' with call := update s'.call a .idle }
    | _ => none
  | .wakeup src t => s.wakeTask t src.front
  | .finishSwitch t =>
    if s.pc t ≠ .idle then
      ((s.inner t).finishSwitch () .block).map fun r =>
        { s with inner := update s.inner t r.1 }
    else none
  | .resume t =>
    if s.pc t ≠ .idle ∧ (s.inner t).taskStatus = .ready ∧ (s.inner t).onCpu = none then
      some { s with inner := update s.inner t (TaskInner.runningOn ()) }
    else none
  | .complete t =>
    match s.pc t with
    | .waiting op req token =>
      if (s.inner t).taskStatus = .running then some (s.complete t op req token) else none
    | .idle => none

/-- One step; a kernel that panicked takes none. -/
def step (s : BlkState T Token) (a : BlkStep T Token) : Option (BlkState T Token) :=
  if s.panic.isSome then none else s.stepLive a

end BlkState

open BlkState

/-- The driver with its device, its submitters and the scheduler around them. -/
def virtioBlockSystem : System (BlkState T Token) (BlkStep T Token) where
  init := fun s => s = new
  step := step

/-! ## The property and the condition on wakeups, signals and the device -/

namespace BlkState

/-- `t` waits in the queue of the condition variable of its own token. -/
def Queued (s : BlkState T Token) (t : T) : Prop :=
  match s.pc t with
  | .waiting _ _ token => t ∈ s.condvars token
  | .idle => False

instance (s : BlkState T Token) (t : T) : Decidable (s.Queued t) := by
  unfold Queued
  split <;> infer_instance

/-- What the driver promises in every state. -/
structure Safe (s : BlkState T Token) : Prop where
  /-- A submitter that is about to complete its request owns the next used entry. -/
  nextUsed : ∀ t op req token, s.pc t = .waiting op req token →
    (s.inner t).taskStatus = .running → s.peekUsed = some token
  once : s.completed.Nodup
  /-- A submitted request is completed, or its submitter still waits for it. -/
  accounted : ∀ r, r < s.submitted →
    (r ∈ s.completed ↔ ¬ ∃ t op token, s.pc t = .waiting op r token)
  /-- `async_inflight` counts the requests submitted and not completed. -/
  inflight : s.asyncInflight + s.completed.length = s.submitted
  noPanic : s.panic = none

/-- Wakeups miss the submitters that still wait on a condition variable. -/
def wakeMisses (s : BlkState T Token) : BlkStep T Token → Prop
  | .wakeup _ t => ¬ s.Queued t
  | .wake a =>
    match s.call a with
    | .wake w => ¬ s.Queued w
    | _ => True
  | _ => True

/-- A signal that finds a waiter finds its token still at the head of the ring. -/
def signalFresh (s : BlkState T Token) : BlkStep T Token → Prop
  | .signal a =>
    match s.call a with
    | .signal token => s.condvars token = [] ∨ s.peekUsed = some token
    | _ => True
  | _ => True

/-- The device answers with success. -/
def answerOk : BlkStep T Token → Prop
  | .answer _ status => status = .ok
  | _ => True

end BlkState

/-- The condition on a step: wakeups miss queued submitters, signals are not
outdated, and the device reports success. -/
def completionsOwned (s : BlkState T Token) (a : BlkStep T Token) : Prop :=
  s.wakeMisses a ∧ s.signalFresh a ∧ answerOk a

instance : DecidableRel (completionsOwned : BlkState T Token → BlkStep T Token → Prop) :=
    fun s a => by
  unfold completionsOwned wakeMisses signalFresh answerOk
  cases a <;> simp only <;> (repeat' split) <;> infer_instance

/-! ## The invariant -/

namespace BlkState

/-- Requests, tokens and counters agree. -/
structure Ledger (s : BlkState T Token) : Prop where
  noPanic : s.panic = none
  outstanding : (s.pending ++ s.used.map Prod.fst).Nodup
  statusOk : ∀ e ∈ s.used, e.2 = .ok
  /-- A waiting submitter's token is outstanding and its request is open. -/
  held : ∀ t op req token, s.pc t = .waiting op req token →
    token ∈ s.pending ++ s.used.map Prod.fst ∧ req < s.submitted ∧ req ∉ s.completed
  /-- A token or a request has one submitter. -/
  owner : ∀ t u op op' req req' token token', s.pc t = .waiting op req token →
    s.pc u = .waiting op' req' token' → token = token' ∨ req = req' → t = u
  hint : s.asyncInflightHint = s.asyncInflight
  count : s.asyncInflight + s.completed.length = s.submitted
  nodup : s.completed.Nodup
  bound : ∀ r ∈ s.completed, r < s.submitted
  all : ∀ r, r < s.submitted → r ∈ s.completed ∨ ∃ t op token, s.pc t = .waiting op r token

/-- The wait queues hold the sleeping submitters, and who left one owns the head of
the used ring. -/
structure Queues (s : BlkState T Token) : Prop where
  queue : ∀ token t, t ∈ s.condvars token → (∃ op req, s.pc t = .waiting op req token) ∧
    (s.inner t).taskStatus = .blocked ∧ (s.inner t).wakePending = false
  single : ∀ token, (s.condvars token).length ≤ 1
  woken : ∀ t op req token, s.pc t = .waiting op req token → t ∉ s.condvars token →
    s.peekUsed = some token

structure Inv (s : BlkState T Token) : Prop where
  ledger : s.Ledger
  queues : s.Queues

variable {s : BlkState T Token}

omit [DecidableEq T] [DecidableEq Token] in
lemma Inv.safe (h : s.Inv) : s.Safe where
  nextUsed := by
    intro t op req token hpc hrun
    refine h.queues.woken t op req token hpc fun hq => ?_
    have hb := (h.queues.queue token t hq).2.1
    simp [hrun] at hb
  once := h.ledger.nodup
  accounted := by
    intro r hr
    constructor
    · rintro hc ⟨t, op, token, hpc⟩
      exact (h.ledger.held t op r token hpc).2.2 hc
    · intro hno
      rcases h.ledger.all r hr with hc | hw
      · exact hc
      · exact absurd hw hno
  inflight := h.ledger.count
  noPanic := h.ledger.noPanic

omit [DecidableEq T] [DecidableEq Token] in
lemma inv_new : (new : BlkState T Token).Inv where
  ledger := by constructor <;> simp [new]
  queues := by constructor <;> simp [new]

variable {t : T}
variable {i : TaskInner Unit} {s' : BlkState T Token} {op : BlkOp} {req : Nat}

omit [DecidableEq Token] in
/-- A change of a task's scheduler state that leaves a queued task asleep keeps the
wait queues. -/
lemma Queues.of_inner (h : s.Queues)
    (hq : ∀ token, t ∈ s.condvars token → i.taskStatus = .blocked ∧ i.wakePending = false) :
    Queues { s with inner := update s.inner t i } := by
  refine { h with queue := ?_ }
  intro token u hu
  refine ⟨(h.queue token u hu).1, ?_⟩
  rcases eq_or_ne u t with rfl | hut
  · simpa using hq token hu
  · simpa [hut] using (h.queue token u hu).2

omit [DecidableEq T] [DecidableEq Token] in
/-- Ledger and queues do not look at the signal calls. -/
lemma Inv.of_call (h : s.Inv) (c : Signaller T → SignalCall T Token) :
    Inv { s with call := c } where
  ledger := { h.ledger with }
  queues := { h.queues with }

omit [DecidableEq Token] in
lemma Inv.of_inner (h : s.Inv)
    (hq : ∀ token, t ∈ s.condvars token → i.taskStatus = .blocked ∧ i.wakePending = false) :
    Inv { s with inner := update s.inner t i } where
  ledger := { h.ledger with }
  queues := h.queues.of_inner hq

variable {token : Token}

omit [DecidableEq T] [DecidableEq Token] in
/-- A task in some wait queue is queued on its own token. -/
lemma Inv.queued_of_mem (h : s.Inv) (ht : t ∈ s.condvars token) : s.Queued t := by
  obtain ⟨⟨op, req, hpc⟩, -⟩ := h.queues.queue token t ht
  simpa [Queued, hpc] using ht

omit [DecidableEq Token] in
/-- A wakeup of a task that is not queued keeps the invariant. -/
lemma Inv.of_wake (h : s.Inv) {front : Bool} (ht : ¬ s.Queued t)
    (hs : s.wakeTask t front = some s') : s'.Inv := by
  obtain ⟨r, -, rfl⟩ := map_eq_some_iff.mp hs
  exact h.of_inner fun token hq => absurd (h.queued_of_mem hq) ht

omit [DecidableEq T] [DecidableEq Token] in
/-- Looking at a ring that got longer at its end gives the same head. -/
lemma peekUsed_append {p : List Token} {e : Token × RespStatus} (h : s.peekUsed = some token) :
    peekUsed { s with pending := p, used := s.used ++ [e] } = some token := by
  simp only [peekUsed] at h ⊢
  cases hu : s.used with
  | nil => simp [hu] at h
  | cons x xs => simpa [hu] using h

omit [DecidableEq T] in
/-- The device's answer moves one token from the pending list to the ring. -/
lemma Inv.of_answer (h : s.Inv) (hp : token ∈ s.pending) :
    Inv { s with pending := s.pending.erase token, used := s.used ++ [(token, .ok)] } := by
  have perm : (s.pending.erase token ++ (s.used ++ [(token, RespStatus.ok)]).map Prod.fst).Perm
      (s.pending ++ s.used.map Prod.fst) := by
    have hcons : (token :: s.pending.erase token).Perm s.pending :=
      (perm_cons_erase hp).symm
    rw [map_append, ← append_assoc]
    refine (perm_append_comm).trans ?_
    simpa using hcons.append_right (s.used.map Prod.fst)
  refine ⟨{ h.ledger with outstanding := ?_, statusOk := ?_, held := ?_ },
    { h.queues with woken := ?_ }⟩
  · exact perm.nodup_iff.mpr h.ledger.outstanding
  · exact forall_mem_append.mpr ⟨h.ledger.statusOk, forall_mem_singleton.mpr rfl⟩
  · intro t op req tok hpc
    obtain ⟨hmem, hrest⟩ := h.ledger.held t op req tok hpc
    exact ⟨perm.mem_iff.mpr hmem, hrest⟩
  · intro t op req tok hpc hq
    exact peekUsed_append (h.queues.woken t op req tok hpc hq)

/-- A submission with a token that is not outstanding keeps the invariant. -/
lemma Inv.of_submit (h : s.Inv) (hpc : s.pc t = .idle) (hs : s.submit t op token = some s') :
    s'.Inv := by
  obtain ⟨⟨hp, hu⟩, hs⟩ := ite_none_right_eq_some.mp hs
  obtain ⟨i, hi, rfl⟩ := map_eq_some_iff.mp hs
  have hfresh : token ∉ s.pending ++ s.used.map Prod.fst := by simp [hp, hu]
  -- nobody waits for a token that is not outstanding
  have hnone : ∀ u o r, s.pc u ≠ .waiting o r token :=
    fun u o r hw => hfresh (h.ledger.held u o r token hw).1
  have hempty : s.condvars token = [] := by
    apply eq_nil_iff_forall_not_mem.mpr
    intro u hmem
    obtain ⟨⟨o, r, hw⟩, -⟩ := h.queues.queue token u hmem
    exact hnone u o r hw
  have hasleep := TaskInner.prepareSwitch_asleep hi
  have hnotin : ∀ tok, t ∉ s.condvars tok := by
    intro tok hmem
    obtain ⟨⟨o, r, hw⟩, -⟩ := h.queues.queue tok t hmem
    simp [hpc] at hw
  refine ⟨⟨h.ledger.noPanic, ?_, h.ledger.statusOk, ?_, ?_, ?_, ?_, h.ledger.nodup, ?_, ?_⟩,
    ⟨?_, ?_, ?_⟩⟩
  · -- outstanding
    have : (token :: (s.pending ++ s.used.map Prod.fst)).Nodup :=
      nodup_cons.mpr ⟨hfresh, h.ledger.outstanding⟩
    refine (List.Perm.nodup_iff ?_).mp this
    rw [append_assoc]
    exact perm_middle.symm
  · -- held
    intro u o r tok hw
    rcases eq_or_ne u t with rfl | hut
    · simp only [update_self] at hw
      cases hw
      refine ⟨by simp, by simp, fun hc => ?_⟩
      exact absurd (h.ledger.bound _ hc) (by simp)
    · simp only [update_of_ne hut] at hw
      obtain ⟨hmem, hlt, hno⟩ := h.ledger.held u o r tok hw
      refine ⟨?_, by simp only; omega, hno⟩
      rcases mem_append.mp hmem with hm | hm
      · simp [hm]
      · exact mem_append_right _ hm
  · -- owner: the new submitter has a new token and a new request number
    intro u w o o' r r' tok tok' hu' hw' hor
    have hnew {w o r tok} (hw : s.pc w = .waiting o r tok) : tok ≠ token ∧ r ≠ s.submitted :=
      ⟨by rintro rfl; exact hnone w o r hw, (h.ledger.held w o r tok hw).2.1.ne⟩
    by_cases hut : u = t <;> by_cases hwt : w = t
    · rw [hut, hwt]
    · subst hut
      simp only [update_self] at hu'
      simp only [update_of_ne hwt] at hw'
      cases hu'
      exact absurd hor (not_or.mpr ⟨(hnew hw').1.symm, (hnew hw').2.symm⟩)
    · subst hwt
      simp only [update_self] at hw'
      simp only [update_of_ne hut] at hu'
      cases hw'
      exact absurd hor (not_or.mpr (hnew hu'))
    · simp only [update_of_ne hut, update_of_ne hwt] at hu' hw'
      exact h.ledger.owner u w o o' r r' tok tok' hu' hw' hor
  · simp [h.ledger.hint]
  · have := h.ledger.count
    simp only
    omega
  · intro r hr
    exact Nat.lt_succ_of_lt (h.ledger.bound r hr)
  · -- all
    intro r hr
    rcases Nat.lt_succ_iff_lt_or_eq.mp hr with hlt | rfl
    swap
    · exact .inr ⟨t, op, token, by simp⟩
    rcases h.ledger.all r hlt with hc | ⟨u, o, tok, hw⟩
    · exact .inl hc
    have hut : u ≠ t := by
      intro hut
      simp [hut, hpc] at hw
    exact .inr ⟨u, o, tok, by simpa [hut] using hw⟩
  · -- queue
    intro tok u hmem
    rcases eq_or_ne u t with rfl | hut
    · by_cases htok : tok = token
      · subst htok
        simpa using hasleep
      · simp only [update_of_ne htok] at hmem
        exact absurd hmem (hnotin tok)
    · have hold : u ∈ s.condvars tok := by
        rcases eq_or_ne tok token with rfl | htok
        · simpa [hut] using hmem
        · simpa [htok] using hmem
      simpa [hut] using h.queues.queue tok u hold
  · -- single
    intro tok
    rcases eq_or_ne tok token with rfl | htok
    · simp [hempty]
    · simpa [htok] using h.queues.single tok
  · -- woken
    intro u o r tok hw hq
    rcases eq_or_ne u t with rfl | hut
    · simp only [update_self] at hw
      cases hw
      simp at hq
    · simp only [update_of_ne hut] at hw
      have htok : tok ≠ token := by
        rintro rfl
        exact hnone u o r hw
      simp only [update_of_ne htok] at hq
      exact h.queues.woken u o r tok hw hq

omit [DecidableEq T] in
/-- Dequeuing the waiter of the token at the head of the ring keeps the invariant. -/
lemma Inv.of_signal (h : s.Inv) {w : T} {q : List T} (hq : s.condvars token = w :: q)
    (hpeek : s.peekUsed = some token) : Inv { s with condvars := update s.condvars token q } := by
  have hnil : q = [] := by
    have := h.queues.single token
    rw [hq, length_cons] at this
    exact eq_nil_of_length_eq_zero (by omega)
  subst hnil
  refine ⟨{ h.ledger with }, ⟨?_, ?_, ?_⟩⟩
  · intro tok u hu
    rcases eq_or_ne tok token with rfl | htok
    · simp at hu
    · exact h.queues.queue tok u (by simpa [htok] using hu)
  · intro tok
    rcases eq_or_ne tok token with rfl | htok
    · simp
    · simpa [htok] using h.queues.single tok
  · intro u op req tok hpc hu
    by_cases htok : tok = token
    · rw [htok]
      exact hpeek
    · exact h.queues.woken u op req tok hpc (by simpa [htok] using hu)

omit [DecidableEq T] [DecidableEq Token] in
/-- An open request keeps `async_inflight` above zero. -/
lemma Ledger.inflight_pos (h : s.Ledger) (hpc : s.pc t = .waiting op req token) :
    0 < s.asyncInflight := by
  obtain ⟨-, hlt, hno⟩ := h.held t op req token hpc
  -- the completed requests and this one are distinct numbers below `submitted`
  have hsub : (req :: s.completed) ⊆ List.range s.submitted :=
    cons_subset.mpr ⟨mem_range.mpr hlt, fun r hr => mem_range.mpr (h.bound r hr)⟩
  have hle := (subperm_of_subset (nodup_cons.mpr ⟨hno, h.nodup⟩) hsub).length_le
  have hcount := h.count
  simp only [length_cons, length_range] at hle
  omega

/-- Completing the request of a submitter that runs again keeps the invariant; none
of the assertions fails. -/
lemma Inv.of_complete (h : s.Inv) (hpc : s.pc t = .waiting op req token)
    (hrun : (s.inner t).taskStatus = .running) : (s.complete t op req token).Inv := by
  have hpos := h.ledger.inflight_pos hpc
  have hnq : ∀ tok, t ∉ s.condvars tok := by
    intro tok hq
    have hb := (h.queues.queue tok t hq).2.1
    simp [hrun] at hb
  have hpeek := h.queues.woken t op req token hpc (hnq token)
  -- nobody else has left its queue: the head of the ring is this submitter's token
  have halone : ∀ u o r tok, s.pc u = .waiting o r tok → u ≠ t →
      tok ≠ token ∧ r ≠ req ∧ u ∈ s.condvars tok := by
    intro u o r tok hw hut
    have htok : tok ≠ token := by
      intro he
      exact hut (h.ledger.owner u t o op r req tok token hw hpc (.inl he))
    refine ⟨htok, ?_, ?_⟩
    · intro he
      exact hut (h.ledger.owner u t o op r req tok token hw hpc (.inr he))
    · by_contra hq
      have hhead := h.queues.woken u o r tok hw hq
      rw [hpeek] at hhead
      exact htok (some.inj hhead).symm
  obtain ⟨rest, hused⟩ : ∃ rest, s.used = (token, .ok) :: rest := by
    cases hu : s.used with
    | nil => simp [peekUsed, hu] at hpeek
    | cons e rest =>
      have hst := h.ledger.statusOk e (by simp [hu])
      have hfst : e.1 = token := by simpa [peekUsed, hu] using hpeek
      exact ⟨rest, by rw [← hfst, ← hst]⟩
  have hcomplete : s.complete t op req token =
      { s with
        used := rest
        asyncInflight := s.asyncInflight - 1
        asyncInflightHint := s.asyncInflightHint - 1
        pc := update s.pc t .idle
        call := update s.call (.task t) (signalCompleted (rest.head?.map Prod.fst))
        completed := s.completed ++ [req] } := by
    have hhint := h.ledger.hint
    simp only [complete, hused]
    rw [if_neg (by simp), if_neg (by simp), if_neg (by omega), if_neg (by omega)]
  obtain ⟨-, hlt, hno⟩ := h.ledger.held t op req token hpc
  have hnd : (s.pending ++ token :: rest.map Prod.fst).Nodup := by
    simpa [hused] using h.ledger.outstanding
  rw [hcomplete]
  refine ⟨⟨h.ledger.noPanic, ?_, ?_, ?_, ?_, ?_, ?_, ?_, ?_, ?_⟩, ⟨?_, h.queues.single, ?_⟩⟩
  · exact (nodup_middle.mp hnd).of_cons
  · intro e he
    exact h.ledger.statusOk e (by simp [hused, he])
  · -- held
    intro u o r tok hw
    have hut : u ≠ t := by
      rintro rfl
      simp at hw
    simp only [update_of_ne hut] at hw
    obtain ⟨htok, hr, -⟩ := halone u o r tok hw hut
    obtain ⟨hmem, hlt', hno'⟩ := h.ledger.held u o r tok hw
    refine ⟨?_, hlt', by simp [hno', hr]⟩
    simpa [hused, htok] using hmem
  · -- owner
    intro u w o o' r r' tok tok' hu hw hor
    have hut : u ≠ t := by
      rintro rfl
      simp at hu
    have hwt : w ≠ t := by
      rintro rfl
      simp at hw
    simp only [update_of_ne hut, update_of_ne hwt] at hu hw
    exact h.ledger.owner u w o o' r r' tok tok' hu hw hor
  · simp [h.ledger.hint]
  · have := h.ledger.count
    simp only [length_append, length_singleton]
    omega
  · exact nodup_append.mpr ⟨h.ledger.nodup, nodup_singleton req, by
      intro a ha b hb
      rw [mem_singleton.mp hb]
      rintro rfl
      exact hno ha⟩
  · exact forall_mem_append.mpr ⟨h.ledger.bound, forall_mem_singleton.mpr hlt⟩
  · -- all
    intro r hr
    by_cases hreq : r = req
    · exact .inl (by simp [hreq])
    rcases h.ledger.all r hr with hc | ⟨u, o, tok, hw⟩
    · exact .inl (by simp [hc])
    have hut : u ≠ t := by
      rintro rfl
      rw [hpc] at hw
      cases hw
      exact hreq rfl
    exact .inr ⟨u, o, tok, by simpa [hut] using hw⟩
  · -- queue
    intro tok u hu
    have hut : u ≠ t := by
      rintro rfl
      exact hnq tok hu
    simpa [hut] using h.queues.queue tok u hu
  · -- woken: every other waiter is still queued
    intro u o r tok hw hq
    have hut : u ≠ t := by
      rintro rfl
      simp at hw
    simp only [update_of_ne hut] at hw
    exact absurd (halone u o r tok hw hut).2.2 hq

/-- **Step lemma**: a step that meets the condition keeps the invariant. -/
theorem Inv.step (h : s.Inv) {a : BlkStep T Token} (hok : completionsOwned s a)
    (hs : s.step a = some s') : s'.Inv := by
  obtain ⟨hwake, hfresh, hans⟩ := hok
  obtain ⟨-, hs⟩ := ite_none_left_eq_some.mp hs
  cases a with
  | submit t op token =>
    obtain ⟨⟨hpc, -⟩, hs⟩ := ite_none_right_eq_some.mp hs
    exact h.of_submit hpc hs
  | answer token status =>
    obtain ⟨hp, hs⟩ := ite_none_right_eq_some.mp hs
    obtain rfl : status = .ok := hans
    cases hs
    exact h.of_answer hp
  | irq n =>
    obtain ⟨-, rfl⟩ := of_guard hs
    exact h.of_call _
  | poll n contended =>
    obtain ⟨-, hs⟩ := ite_none_right_eq_some.mp hs
    split at hs
    · cases hs
      exact h
    · split at hs <;> cases hs
      · exact h
      · exact h.of_call _
  | signal a =>
    simp only [stepLive] at hs
    split at hs
    swap
    · cases hs
    rename_i hcall
    split at hs
    next hq =>
      cases hs
      simp only [signalFresh, hcall, hq, reduceCtorEq, false_or] at hfresh
      exact (h.of_signal hq hfresh).of_call _
    · cases hs
      exact h.of_call _
  | wake a =>
    simp only [stepLive] at hs
    split at hs
    next hcall =>
      obtain ⟨s₁, hw, rfl⟩ := map_eq_some_iff.mp hs
      simp only [wakeMisses, hcall] at hwake
      exact (h.of_wake hwake hw).of_call _
    · cases hs
  | wakeup src t => exact h.of_wake hwake hs
  | finishSwitch t =>
    obtain ⟨-, hs⟩ := ite_none_right_eq_some.mp hs
    obtain ⟨r, hr, rfl⟩ := map_eq_some_iff.mp hs
    refine h.of_inner fun token ht => ?_
    -- a queued submitter has no pending wakeup, so its switch completes asleep
    obtain ⟨-, hb, hwp⟩ := h.queues.queue token t ht
    exact TaskInner.finishSwitch_asleep hb hwp hr
  | resume t =>
    obtain ⟨⟨-, hready, -⟩, rfl⟩ := of_guard hs
    refine h.of_inner fun token ht => ?_
    have hb := (h.queues.queue token t ht).2.1
    simp [hready] at hb
  | complete t =>
    simp only [stepLive] at hs
    split at hs
    next hpc =>
      obtain ⟨hrun, rfl⟩ := of_guard hs
      exact h.of_complete hpc hrun
    · cases hs

end BlkState

/-! ## Runs -/

/-- **Completion ownership**: in every run in which wakeups miss the submitters that
still wait, signals find their token still at the head of the used ring, and
the device reports success, completions are made for the next used entry only,
each request is completed once, `async_inflight` counts the open requests and
no assertion fails. -/
theorem virtioBlock_safe {s : BlkState T Token}
    (h : virtioBlockSystem.Reachable completionsOwned s) : s.Safe := by
  refine BlkState.Inv.safe (h.invariant ?_ ?_)
  · rintro s rfl
    exact inv_new
  · intro s a s' hinv hok hs
    exact hinv.step hok hs

/-- A read on token 0 is answered, signalled by the interrupt and completed. -/
theorem virtioBlock_safe_read :
    ∃ s : BlkState Nat Nat, virtioBlockSystem.Reachable completionsOwned s ∧
      s.completed = [0] ∧ s.Safe := by
  have hrun : ∃ s : BlkState Nat Nat, virtioBlockSystem.runWhile completionsOwned new
      [.submit 0 .read 0, .finishSwitch 0, .answer 0 .ok, .irq 0, .signal (.cpu 0),
        .wake (.cpu 0), .resume 0, .complete 0] = some s ∧ s.completed = [0] :=
    ⟨_, rfl, by decide⟩
  obtain ⟨s, hs, hc⟩ := hrun
  have hreach := System.reachable_of_runWhile (.init rfl) hs
  exact ⟨s, hreach, hc, virtioBlock_safe hreach⟩

/-- A signal for a submitter whose request the device has not answered: the woken
submitter's `complete_read_blocks` fails and its `expect` panics. -/
theorem virtioBlock_stray_wakeup :
    ∃ s : BlkState Nat Nat, virtioBlockSystem.Reachable System.anyStep s ∧
      s.panic = some (.completeExpect .read) ∧ ¬ s.Safe := by
  have hrun : ∃ s : BlkState Nat Nat, virtioBlockSystem.runWhile System.anyStep new
      [.submit 0 .read 0, .finishSwitch 0, .wakeup .processWide 0, .resume 0,
        .complete 0] = some s ∧ s.panic = some (.completeExpect .read) :=
    ⟨_, rfl, by decide⟩
  obtain ⟨s, hs, hp⟩ := hrun
  refine ⟨s, System.reachable_of_runWhile (.init rfl) hs, hp, fun safe => ?_⟩
  have := safe.noPanic
  simp [hp] at this

/-- The same without any wakeup from elsewhere: the interrupt on CPU 0 sees token 0
used, but before it signals, the interrupt on CPU 1 wakes the owner, the request
is completed, and token 0 is handed out to a write of task 1.  The late signal
wakes that write. -/
example : ∃ s : BlkState Nat Nat, virtioBlockSystem.runWhile System.anyStep new
    [.submit 0 .read 0, .finishSwitch 0, .answer 0 .ok, .irq 0, .irq 1, .signal (.cpu 1),
      .wake (.cpu 1), .resume 0, .complete 0, .submit 1 .write 0, .finishSwitch 1,
      .signal (.cpu 0), .wake (.cpu 0), .resume 1, .complete 1] = some s ∧
    s.panic = some (.completeExpect .write) :=
  ⟨_, rfl, by decide⟩

end Whusp.Drivers
