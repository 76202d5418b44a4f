import Whusp.Syscall.FdLock

/-!
# Whole-file locks

The table behind `flock(2)`.  A holder is an open file description; it holds a file shared or
exclusively.  A request that no other holder conflicts with replaces the caller's own lock, so that
upgrades and downgrades are ordinary requests.  Whatever changes the locks of a file takes all its
waiters off the queue; each of them runs its round again.
-/

namespace Whusp.Syscall.Flock

open Whusp.Lib Whusp.Syscall.FdLock List

/-! ## The table -/

inductive FlockMode where
  | shared
  | exclusive
  deriving DecidableEq

structure FlockLock where
  key : LockKey
  /-- The identity of the open file description. -/
  owner : Nat
  mode : FlockMode

structure WaitingFlock where
  key : LockKey
  owner : Nat
  task : Nat
  /-- The mode that the sleeping call asks for.  The source keeps it on the stack of the call; no
      function of the table reads it. -/
  mode : FlockMode

structure FlockTable where
  locks : List FlockLock
  waiters : List WaitingFlock

def flockModesConflict (existing requested : FlockMode) : Bool :=
  existing = .exclusive || requested = .exclusive

namespace FlockTable

def hasConflict (t : FlockTable) (key : LockKey) (owner : Nat) (mode : FlockMode) : Bool :=
  t.locks.any fun lock =>
    decide (lock.key = key) && !decide (lock.owner = owner) && flockModesConflict lock.mode mode

def removeOwnerLock (t : FlockTable) (key : LockKey) (owner : Nat) : FlockTable :=
  { t with locks := t.locks.filter fun lock =>
      !decide (lock.key = key) || !decide (lock.owner = owner) }

def takeWaitersForKeys (t : FlockTable) (keys : List LockKey) : List Nat × FlockTable :=
  ((t.waiters.filter fun waiter => keys.contains waiter.key).map WaitingFlock.task,
    { t with waiters := t.waiters.filter fun waiter => !keys.contains waiter.key })

def takeWaitersForKey (t : FlockTable) (key : LockKey) : List Nat × FlockTable :=
  t.takeWaitersForKeys [key]

def setLock (t : FlockTable) (key : LockKey) (owner : Nat) (mode : FlockMode) :
    Except Errno (List Nat × FlockTable) :=
  if t.hasConflict key owner mode then .error .EAGAIN
  else
    let t₁ := t.removeOwnerLock key owner
    .ok (takeWaitersForKey ⟨t₁.locks ++ [⟨key, owner, mode⟩], t₁.waiters⟩ key)

def unlock (t : FlockTable) (key : LockKey) (owner : Nat) : List Nat × FlockTable :=
  (t.removeOwnerLock key owner).takeWaitersForKey key

def removeWaitersForOwner (t : FlockTable) (owner : Nat) : FlockTable :=
  { t with waiters := t.waiters.filter fun waiter => !decide (waiter.owner = owner) }

/-- Only the membership in `released_keys` matters, so that repeated keys stay. -/
def releaseOwner (t : FlockTable) (owner : Nat) : List Nat × FlockTable :=
  let t₁ := t.removeWaitersForOwner owner
  takeWaitersForKeys ⟨t₁.locks.filter fun lock => !decide (lock.owner = owner), t₁.waiters⟩
    ((t₁.locks.filter fun lock => decide (lock.owner = owner)).map FlockLock.key)

def enqueueWaiter (t : FlockTable) (key : LockKey) (owner task : Nat) (mode : FlockMode) :
    FlockTable :=
  { t with waiters := t.waiters ++ [⟨key, owner, task, mode⟩] }

end FlockTable

/-! ## The calls -/

def LOCK_SH : BitVec 32 := 1
def LOCK_EX : BitVec 32 := 2
def LOCK_NB : BitVec 32 := 4
def LOCK_UN : BitVec 32 := 8
def FLOCK_VALID_FLAGS : BitVec 32 := LOCK_SH ||| LOCK_EX ||| LOCK_NB ||| LOCK_UN

/-- The mode, `none` for an unlock, and whether the call must not block. -/
def parseFlockOperation (operation : BitVec 32) : Except Errno (Option FlockMode × Bool) :=
  if operation &&& ~~~FLOCK_VALID_FLAGS ≠ 0 then .error .EINVAL
  else
    let modeBits := operation &&& (LOCK_SH ||| LOCK_EX ||| LOCK_UN)
    let nonblocking := decide (operation &&& LOCK_NB ≠ 0)
    if modeBits = LOCK_SH then .ok (some .shared, nonblocking)
    else if modeBits = LOCK_EX then .ok (some .exclusive, nonblocking)
    else if modeBits = LOCK_UN then .ok (none, nonblocking)
    else .error .EINVAL

structure State where
  table : FlockTable
  active : Bool

/-- Store a table with what `publish_flock_activity` derives from it. -/
def State.publish (t : FlockTable) : State := ⟨t, !(t.locks.isEmpty && t.waiters.isEmpty)⟩

/-- One round of the loop of `flock_operation`, or its unlock. -/
def flockRound (s : State) (key : LockKey) (owner task : Nat) (nonblocking : Bool) :
    Option FlockMode → Reply × State
  | some mode =>
    match s.table.setLock key owner mode with
    | .ok (_, t) => (.ok, .publish t)
    | .error e =>
      if nonblocking then (.err e, s)
      else (.blocked, .publish (s.table.enqueueWaiter key owner task mode))
  | none => (.ok, .publish (s.table.unlock key owner).2)

def flockOperation (s : State) (file : OpenFile) (operation : BitVec 32) (task : Nat) :
    Reply × State :=
  match parseFlockOperation operation, lockKey file with
  | .error e, _ => (.err e, s)
  | _, .error e => (.err e, s)
  | .ok (mode, nonblocking), .ok key => flockRound s key file.id task nonblocking mode

inductive Op where
  /-- `flock(2)` up to the end of its first round; a task that has been woken runs it again. -/
  | flock (file : OpenFile) (operation : BitVec 32) (task : Nat)
  /-- The last section of `release_flock_locks_for_close`.  What comes before it only decides
      whether it runs, and saw an earlier table. -/
  | close (file : OpenFile)

def perform (s : State) : Op → Reply × State
  | .flock file operation task => flockOperation s file operation task
  | .close file => (.ok, .publish (s.table.releaseOwner file.id).2)

def system : System State Op where
  init s := s = .publish ⟨[], []⟩
  step s op := some (perform s op).2

/-! ## Soundness -/

variable {t : FlockTable} {s : State} {key : LockKey} {owner : Nat} {mode : FlockMode}

/-- A lock stands in the way of a request. -/
def Blocks (lock : FlockLock) (key : LockKey) (owner : Nat) (mode : FlockMode) : Prop :=
  lock.key = key ∧ lock.owner ≠ owner ∧ flockModesConflict lock.mode mode = true

lemma hasConflict_iff :
    t.hasConflict key owner mode = true ↔ ∃ lock ∈ t.locks, Blocks lock key owner mode := by
  simp [FlockTable.hasConflict, Blocks, and_assoc]

/-- **The table is sound**: holders of a file are compatible, none holds it twice, and every
waiter has a holder in its way. -/
structure TableInv (t : FlockTable) : Prop where
  compatible : ∀ a ∈ t.locks, ∀ b ∈ t.locks, ¬ Blocks a b.key b.owner b.mode
  single : t.locks.Pairwise fun a b => a.key = b.key → a.owner ≠ b.owner
  waiting : ∀ w ∈ t.waiters, ∃ lock ∈ t.locks, Blocks lock w.key w.owner w.mode

section

variable (h : TableInv t)
include h

/-- Fewer locks stay compatible; waiters stay justified while the locks of their files stay. -/
lemma TableInv.shrink (keep : FlockLock → Bool) (stay : WaitingFlock → Bool)
    (hkeep : ∀ w ∈ t.waiters, stay w = true → ∀ lock ∈ t.locks, lock.key = w.key →
      lock.owner ≠ w.owner → keep lock = true) :
    TableInv ⟨t.locks.filter keep, t.waiters.filter stay⟩ := by
  refine ⟨?_, h.single.filter _, ?_⟩
  · intro a ha b hb
    exact h.compatible a (mem_of_mem_filter ha) b (mem_of_mem_filter hb)
  · intro w hw
    obtain ⟨hw, hstay⟩ := mem_filter.mp hw
    obtain ⟨lock, hlock, hblocks⟩ := h.waiting w hw
    exact ⟨lock, mem_filter.mpr ⟨hlock, hkeep w hw hstay lock hlock hblocks.1 hblocks.2.1⟩,
      hblocks⟩

lemma TableInv.unlock (key : LockKey) (owner : Nat) :
    TableInv (t.unlock key owner).2 := by
  refine h.shrink _ _ ?_
  intro w _ hstay lock _ hkey _
  -- the waiters that stay wait for other files
  have hne : w.key ≠ key := by simpa using hstay
  simp [hkey, hne]

lemma TableInv.releaseOwner (owner : Nat) : TableInv (t.releaseOwner owner).2 := by
  have hshrink := h.shrink (fun lock => !decide (lock.owner = owner))
    (fun w => !decide (w.owner = owner) && !(((t.locks.filter fun lock =>
      decide (lock.owner = owner)).map FlockLock.key).contains w.key)) ?_
  · simpa [FlockTable.releaseOwner, FlockTable.takeWaitersForKeys,
      FlockTable.removeWaitersForOwner, filter_filter, Bool.and_comm] using hshrink
  intro w _ hstay lock hlock hkey _
  -- a lock of the owner would have released the file of the waiter
  by_contra hgone
  simp only [Bool.not_eq_true, Bool.not_eq_false', decide_eq_true_eq] at hgone
  have hcontains : ((t.locks.filter fun lock => decide (lock.owner = owner)).map
      FlockLock.key).contains w.key = true := by
    rw [contains_iff_mem, ← hkey]
    exact mem_map_of_mem (mem_filter.mpr ⟨hlock, decide_eq_true hgone⟩)
  rw [hcontains] at hstay
  simp at hstay

/-- A granted request: the caller's old lock goes, as in an unlock, and the new one comes. -/
lemma TableInv.setLock {wakeups : List Nat} {t' : FlockTable}
    (hset : t.setLock key owner mode = .ok (wakeups, t')) : TableInv t' := by
  unfold FlockTable.setLock at hset
  split at hset
  · cases hset
  rename_i hfree
  cases hset
  have hu := h.unlock key owner
  have hnone : ∀ lock ∈ t.locks, ¬ Blocks lock key owner mode := by
    intro lock hlock hblocks
    exact hfree (hasConflict_iff.mpr ⟨lock, hlock, hblocks⟩)
  have hother : ∀ lock ∈ (t.removeOwnerLock key owner).locks, lock ∈ t.locks ∧
      (lock.key = key → lock.owner ≠ owner) := by
    intro lock hlock
    obtain ⟨hmem, hkept⟩ := mem_filter.mp hlock
    exact ⟨hmem, by simpa [imp_iff_not_or] using hkept⟩
  refine ⟨?_, ?_, ?_⟩
  · intro a ha b hb hblocks
    rcases mem_append.mp ha with ha | ha <;> rcases mem_append.mp hb with hb | hb
    · exact hu.compatible a ha b hb hblocks
    · obtain rfl := mem_singleton.mp hb
      exact hnone a (hother a ha).1 hblocks
    · obtain rfl := mem_singleton.mp ha
      refine hnone b (hother b hb).1 ⟨hblocks.1.symm, hblocks.2.1.symm, ?_⟩
      exact (Bool.or_comm ..).trans hblocks.2.2
    · obtain rfl := mem_singleton.mp ha
      obtain rfl := mem_singleton.mp hb
      exact hblocks.2.1 rfl
  · refine pairwise_append.mpr ⟨hu.single, pairwise_singleton _ _, ?_⟩
    intro a ha b hb hkey
    obtain rfl := mem_singleton.mp hb
    exact (hother a ha).2 hkey
  · intro w hw
    obtain ⟨lock, hlock, hblocks⟩ := hu.waiting w hw
    exact ⟨lock, mem_append_left _ hlock, hblocks⟩

lemma TableInv.enqueueWaiter (hconf : t.hasConflict key owner mode = true)
    (task : Nat) : TableInv (t.enqueueWaiter key owner task mode) := by
  refine { h with waiting := forall_mem_append.mpr ⟨h.waiting, ?_⟩ }
  exact forall_mem_singleton.mpr (hasConflict_iff.mp hconf)

/-- **Invariant**: the table is sound and the activity bit is that of the table. -/
def Inv (s : State) : Prop := TableInv s.table ∧ s = .publish s.table

lemma Inv.publish : Inv (.publish t) := ⟨h, rfl⟩

end

lemma Inv.flockRound (h : Inv s) (task : Nat) (nonblocking : Bool) (mode : Option FlockMode) :
    Inv (flockRound s key owner task nonblocking mode).2 := by
  rcases mode with _ | mode
  · exact .publish (h.1.unlock key owner)
  simp only [Flock.flockRound]
  split
  next hset =>
    exact .publish (h.1.setLock hset)
  rename_i hset
  -- only a conflict makes the request fail
  have hconf : s.table.hasConflict key owner mode = true := by
    by_contra hfree
    simp [FlockTable.setLock, if_neg hfree] at hset
  split
  · exact h
  · exact .publish (h.1.enqueueWaiter hconf task)

/-- **Step lemma**: every section under the table lock keeps the table sound. -/
theorem Inv.perform (h : Inv s) (op : Op) : Inv (perform s op).2 := by
  cases op with
  | close file => exact .publish (h.1.releaseOwner _)
  | flock file operation task =>
    change Inv (flockOperation s file operation task).2
    unfold flockOperation
    split
    · exact h
    · exact h
    · exact h.flockRound ..

lemma inv_of_reachable {ok : State → Op → Prop} (h : system.Reachable ok s) : Inv s := by
  apply h.invariant
  · rintro s rfl
    exact .publish ⟨by simp, List.Pairwise.nil, by simp⟩
  · intro s op s' hinv _ hstep
    cases hstep
    exact hinv.perform op

/-- **The flock table**: in every run an exclusive holder of a file is its only holder, no owner
holds a file twice, and each waiter conflicts with a holder other than itself. -/
theorem flock_table_sound (h : system.Reachable System.anyStep s) :
    (∀ a ∈ s.table.locks, a.mode = .exclusive →
        ∀ b ∈ s.table.locks, b.key = a.key → b.owner = a.owner) ∧
      (s.table.locks.Pairwise fun a b => ¬ (a.key = b.key ∧ a.owner = b.owner)) ∧
      ∀ w ∈ s.table.waiters, ∃ lock ∈ s.table.locks, lock.key = w.key ∧ lock.owner ≠ w.owner ∧
        flockModesConflict lock.mode w.mode = true := by
  obtain ⟨hinv, -⟩ := inv_of_reachable h
  refine ⟨?_, hinv.single.imp fun hne hsame => hne hsame.1 hsame.2, hinv.waiting⟩
  intro a ha hmode b hb hkey
  by_contra hne
  refine hinv.compatible a ha b hb ⟨hkey.symm, fun heq => hne heq.symm, ?_⟩
  rw [hmode]
  rfl

/-- Two shared holders of one file; the upgrade of the first waits for the second. -/
theorem flock_table_sound_upgrade : ∃ s, system.Reachable System.anyStep s ∧
      s.table.waiters = [⟨⟨1, 2⟩, 1, 1, .exclusive⟩] ∧
      ∀ w ∈ s.table.waiters, ∃ lock ∈ s.table.locks, lock.key = w.key ∧ lock.owner ≠ w.owner ∧
        flockModesConflict lock.mode w.mode = true := by
  let file := fun id : Nat => OpenFile.mk id true true (some (1, 2)) (.ok ⟨1, 2, 0⟩) (.ok 0)
  have h₁ : system.Reachable System.anyStep _ :=
    .step (a := .flock (file 1) LOCK_SH 1) (.init rfl) trivial rfl
  have h₂ := h₁.step (a := .flock (file 2) LOCK_SH 2) trivial rfl
  have h₃ := h₂.step (a := .flock (file 1) LOCK_EX 1) trivial rfl
  exact ⟨_, h₃, rfl, (flock_table_sound h₃).2.2⟩

end Whusp.Syscall.Flock
