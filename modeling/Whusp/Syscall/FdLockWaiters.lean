import Whusp.Syscall.FdLockDeadlock
import Whusp.Syscall.Flock

/-!
# Waiting for record locks

The sections under the lock of the record-lock table, each as one step: those of the calls and
those of close and exit, which release what they find whatever happened since the call began.
-/

namespace Whusp.Syscall.FdLock

open Whusp.Lib List

variable {t t' : RecordLockTable} {s : State} {key : LockKey} {owner : RecordLockOwner}
  {q : Request} {w : WaitingLock}

/-! ## Sections -/

inductive LockSection where
  | setlk (owner : RecordLockOwner) (q : Request)
  | setlkw (owner : RecordLockOwner) (detectDeadlock : Bool) (q : Request) (task : Nat)
  | releaseForProcessFile (key : LockKey) (pid : Nat)
  /-- `release_record_locks_for_process` and `release_ofd_record_locks_for_close`. -/
  | releaseOwner (owner : RecordLockOwner)

def runSection (s : State) : LockSection → State
  | .setlk owner q => (setlkSection s owner q).2
  | .setlkw owner detect q task => (setlkwSection s owner detect q task).2
  | .releaseForProcessFile key pid =>
    (s.publish (s.table.releaseForProcessFile key pid).2).refreshFlag pid
  | .releaseOwner owner => s.publish (s.table.releaseOwner owner).2

/-- The tasks that the section wakes up when it has dropped the table lock. -/
def wakeups (s : State) : LockSection → List Nat
  | .setlk owner q => ((s.table.setLock owner q).toOption.map Prod.fst).getD []
  | .setlkw owner _ q _ =>
    if (setlkwConflicts s.table owner q).isEmpty then
      ((s.table.setLock owner q).toOption.map Prod.fst).getD []
    else []
  | .releaseForProcessFile key pid => (s.table.releaseForProcessFile key pid).1
  | .releaseOwner owner => (s.table.releaseOwner owner).1

def sections : System State LockSection where
  init s := s = boot
  step s c := some (runSection s c)

/-! ## Waiters and what blocks them -/

/-- Every queued request conflicts with a lock of another owner. -/
def Justified (t : RecordLockTable) : Prop :=
  ∀ w ∈ t.waiters, ∃ lock ∈ t.locks, blocks lock w = true

open RecordLockTable

lemma mem_takeWaitersForReleased_iff {released : List ReleasedRange} :
    w ∈ (t.takeWaitersForReleased released).2.waiters ↔ w ∈ t.waiters ∧
      ∀ gone ∈ released, w.tag.key = gone.key → ¬ w.range.overlaps gone.range = true := by
  simp [takeWaitersForReleased]

lemma mem_waiters_or_woken (released : List ReleasedRange) (hw : w ∈ t.waiters) :
    w ∈ (t.takeWaitersForReleased released).2.waiters ∨
      w.task ∈ (t.takeWaitersForReleased released).1 := by
  by_cases hstay : w ∈ (t.takeWaitersForReleased released).2.waiters
  · exact .inl hstay
  · refine .inr (mem_map.mpr ⟨w, mem_filter.mpr ⟨hw, ?_⟩, rfl⟩)
    by_contra hno
    exact hstay (mem_filter.mpr ⟨hw, by simpa using hno⟩)

/-- **A cut**: a byte that blocks a waiter is still covered, or the waiter meets the released part
    of the range that covered it. -/
theorem Justified.cut (h : Justified t) (key : LockKey) (owner : RecordLockOwner)
    (range : LockRange)
    (hcov : ∀ tag x, Covers t.locks tag x → ¬ (tag.ownedBy key owner = true ∧ x ∈ range) →
      Covers t'.locks tag x) (hw : ∀ w ∈ t'.waiters, w ∈ (t.takeWaitersForReleased
      (releasedRanges key owner range t.locks)).2.waiters) : Justified t' := by
  intro w hmem
  obtain ⟨hwaits, hmiss⟩ := mem_takeWaitersForReleased_iff.mp (hw w hmem)
  obtain ⟨lock, hlock, hblock⟩ := h w hwaits
  obtain ⟨hkey, hne, hconf, hover⟩ := blocks_iff.mp hblock
  obtain ⟨x, hxl, hxw⟩ := Range.overlaps_iff.mp hover
  have hout : ¬ (lock.tag.ownedBy key owner = true ∧ x ∈ range) := by
    rintro ⟨howned, hx⟩
    have hcut := Range.overlaps_iff.mpr ⟨x, hxl, hx⟩
    refine hmiss ⟨key, lock.range.clip range hcut⟩ (mem_filterMap.mpr ⟨lock, hlock, ?_⟩) ?_ ?_
    · rw [if_pos howned, dif_pos hcut]
    · exact hkey.symm.trans (LockTag.ownedBy_iff.mp howned).1
    · exact Range.overlaps_iff.mpr ⟨x, hxw, (Range.mem_clip hcut).mpr ⟨hxl, hx⟩⟩
  obtain ⟨lock', hlock', htag, hx'⟩ := hcov lock.tag x ⟨lock, hlock, rfl, hxl⟩ hout
  refine ⟨lock', hlock', blocks_iff.mpr ?_⟩
  rw [htag]
  exact ⟨hkey, hne, hconf, Range.overlaps_iff.mpr ⟨x, hx', hxw⟩⟩

lemma setLock_waiters {woken : List Nat} (h : t.setLock owner q = .ok (woken, t')) :
    let r := t.takeWaitersForReleased
      (releasedRanges q.key owner q.range t.locks)
    woken = r.1 ∧ t'.waiters = r.2.waiters := by
  unfold setLock at h
  split at h
  · cases h
  · dsimp only at h
    split at h <;> cases h <;> exact ⟨rfl, rfl⟩

lemma Justified.setLock (h : Justified t) {woken : List Nat}
    (hset : t.setLock owner q = .ok (woken, t')) : Justified t' := by
  obtain ⟨woken', t'', hok, hgranted⟩ := setLock_ok fun hconf => by
    rw [setLock_error hconf] at hset
    cases hset
  cases hset.symm.trans hok
  refine h.cut q.key owner q.range ?_ fun w hw => ?_
  · exact fun tag x hcov hout => (hgranted.covers tag x).mpr (.inl ⟨hcov, hout⟩)
  · rwa [← (setLock_waiters hset).2]

lemma Justified.releaseOwner (h : Justified t) (owner : RecordLockOwner) :
    Justified (t.releaseOwner owner).2 := by
  intro w hw
  obtain ⟨hwaits, hmiss⟩ := mem_takeWaitersForReleased_iff.mp hw
  obtain ⟨lock, hlock, hblock⟩ := h w (mem_filter.mp hwaits).1
  obtain ⟨hkey, -, -, hover⟩ := blocks_iff.mp hblock
  refine ⟨lock, mem_filter.mpr ⟨hlock, ?_⟩, hblock⟩
  -- a lock of the owner would have been released under the waiter
  by_contra hgone
  have howner : decide (lock.tag.owner = owner) = true := by simpa using hgone
  exact hmiss _ (mem_map_of_mem (mem_filter.mpr ⟨hlock, howner⟩)) hkey.symm
    (Range.overlaps_symm hover)

/-! ## Whole runs -/

/-- **Invariant**: the queue is justified and the bits are those of the table. -/
def WaitInv (s : State) : Prop :=
  Justified s.table ∧ s.active = publishRecordLockActivity s.table

lemma WaitInv.setlkSection (h : WaitInv s) : WaitInv (setlkSection s owner q).2 := by
  unfold FdLock.setlkSection
  split
  · exact h
  next hset =>
    cases owner <;> exact ⟨h.1.setLock hset, rfl⟩

/-- **Step lemma** for the sections under the table lock. -/
theorem WaitInv.runSection (h : WaitInv s) (c : LockSection) : WaitInv (runSection s c) := by
  cases c with
  | setlk owner q => exact h.setlkSection
  | setlkw owner detect q task =>
    simp only [FdLock.runSection, setlkwSection]
    split
    · exact h.setlkSection
    rename_i hconf
    split
    · exact h
    refine ⟨fun w hw => ?_, rfl⟩
    rcases mem_append.mp hw with hw | hw
    · exact h.1 w hw
    -- the new waiter is blocked by what the search found
    obtain rfl := mem_singleton.mp hw
    obtain ⟨lock, hlock⟩ := isEmpty_eq_false_iff_exists_mem.mp (eq_false_of_ne_true hconf)
    unfold setlkwConflicts at hlock
    split at hlock
    · cases hlock
    · obtain ⟨hmem, hblock⟩ := mem_findConflicts.mp hlock
      exact ⟨lock, hmem, blocks_iff.mpr hblock⟩
  | releaseForProcessFile key pid =>
    refine ⟨h.1.cut key (.process pid) _ ?_ fun w hw => hw, rfl⟩
    exact fun tag x hcov hout => covers_carve.mpr ⟨hcov, hout⟩
  | releaseOwner owner => exact ⟨h.1.releaseOwner owner, rfl⟩

lemma waitInv_of_reachable (h : sections.Reachable System.anyStep s) : WaitInv s := by
  apply h.invariant
  · rintro s rfl
    exact ⟨nofun, rfl⟩
  · intro s c s' hinv _ hstep
    cases hstep
    exact hinv.runSection c

/-- A request leaves the queue woken, or with its owner. -/
lemma stays_or_woken (s : State) (c : LockSection) (hw : w ∈ s.table.waiters) :
    w ∈ (runSection s c).table.waiters ∨ w.task ∈ wakeups s c ∨ c = .releaseOwner w.tag.owner := by
  have hset : ∀ owner q, w ∈ (setlkSection s owner q).2.table.waiters ∨
      w.task ∈ ((s.table.setLock owner q).toOption.map Prod.fst).getD [] := by
    intro owner q
    unfold setlkSection
    cases hset : s.table.setLock owner q with
    | error e => exact .inl hw
    | ok r =>
      obtain ⟨hwoken, hwaiters⟩ := setLock_waiters hset
      change w ∈ (s.commit owner r.2).table.waiters ∨ w.task ∈ r.1
      rw [commit_table, hwaiters, hwoken]
      exact mem_waiters_or_woken _ hw
  cases c with
  | setlk owner q => exact (hset owner q).imp_right .inl
  | setlkw owner detect q task =>
    simp only [runSection, setlkwSection, wakeups]
    split
    · exact (hset owner q).imp_right .inl
    · split
      · exact .inl hw
      · exact .inl (mem_append_left _ hw)
  | releaseForProcessFile key pid => exact (mem_waiters_or_woken _ hw).imp_right .inl
  | releaseOwner owner =>
    by_cases howner : w.tag.owner = owner
    · exact .inr (.inr (howner ▸ rfl))
    · refine (mem_waiters_or_woken _ (mem_filter.mpr ⟨hw, ?_⟩)).imp_right .inl
      simpa using howner

/-- **Waiting is justified**: a queued request conflicts with a lock of a different owner; a
    section that takes a request off the queue wakes its task, unless it releases the request's own
    owner; and each bit of `ACTIVE_LOCK_CLASSES` is set exactly if its table has an entry. -/
theorem record_waiters_justified {f : Flock.State} (h : sections.Reachable System.anyStep s)
    (hf : Flock.system.Reachable System.anyStep f) :
    (∀ w ∈ s.table.waiters, ∃ lock ∈ s.table.locks, blocks lock w = true) ∧
      (∀ c, ∀ w ∈ s.table.waiters, w ∈ (runSection s c).table.waiters ∨ w.task ∈ wakeups s c ∨
        c = .releaseOwner w.tag.owner) ∧
      (s.active.posix = true ↔ (∃ lock ∈ s.table.locks, lock.tag.owner.isProcess = true) ∨
        ∃ w ∈ s.table.waiters, w.tag.owner.isProcess = true) ∧
      (s.active.ofd = true ↔ (∃ lock ∈ s.table.locks, lock.tag.owner.isProcess = false) ∨
        ∃ w ∈ s.table.waiters, w.tag.owner.isProcess = false) ∧
      (f.active = true ↔ f.table.locks ≠ [] ∨ f.table.waiters ≠ []) := by
  obtain ⟨hjust, hactive⟩ := waitInv_of_reachable h
  refine ⟨hjust, fun c w hw => stays_or_woken s c hw, ?_, ?_, ?_⟩
  · simp [hactive, publishRecordLockActivity]
  · simp [hactive, publishRecordLockActivity]
  · rw [(Flock.inv_of_reachable hf).2]
    simp [Flock.State.publish]

/-- Process 2 waits for a range that process 1 has; the unlock of one byte of it wakes it. -/
theorem record_waiters_justified_unlocked :
    ∃ s w, sections.Reachable System.anyStep s ∧ s.table.waiters = [w] ∧
      (∃ lock ∈ s.table.locks, blocks lock w = true) ∧ s.active.posix = true ∧
      wakeups s (.setlk (.process 1) ⟨⟨1, 2⟩, .unlck, ⟨5, 5, by decide, by decide, by decide⟩⟩) =
        [w.task] := by
  have hs : sections.Reachable System.anyStep _ :=
    .step (a := .setlk (.process 1) ⟨⟨1, 2⟩, .wrlck, wholeFile⟩)
      (.init rfl) trivial rfl
  have hs := hs.step
    (a := .setlkw (.process 2) true ⟨⟨1, 2⟩, .rdlck, wholeFile⟩ 7) trivial rfl
  obtain ⟨hjust, -, hposix, -⟩ := record_waiters_justified hs (.init rfl)
  refine ⟨_, _, hs, rfl, hjust _ (mem_singleton.mpr rfl), hposix.mpr (.inr ?_), by decide⟩
  exact ⟨_, mem_singleton.mpr rfl, rfl⟩

end Whusp.Syscall.FdLock
