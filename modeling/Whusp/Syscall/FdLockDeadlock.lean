import Whusp.Lib.Acyclic
import Whusp.Syscall.FdLock

/-!
# Deadlock detection of blocking record locks

`F_SETLKW` sleeps while another owner holds a conflicting range.  Before it does,
`would_deadlock` looks whether one of those owners already waits for a range of the caller, and
refuses with `EDEADLK`.  The search stops there: it does not follow the owner that the other one
waits for, so that three processes can wait in a circle.  It also runs only where a request starts
to wait, and a granted request can make waiters wait for its owner too.
-/

namespace Whusp.Syscall.FdLock

open Whusp.Lib Option

variable {t t' : RecordLockTable} {s s' : State} {owner : RecordLockOwner} {q : Request}

/-! ## The wait-for graph -/

/-- A waiter cannot go on because of this lock. -/
def blocks (lock : PosixLock) (waiter : WaitingLock) : Bool :=
  lock.tag.key = waiter.tag.key && !decide (lock.tag.owner = waiter.tag.owner) &&
    lockConflicts lock.tag.lType waiter.tag.lType && lock.range.overlaps waiter.range

/-- **The wait-for graph** between owners. -/
def WaitsFor (t : RecordLockTable) (a b : RecordLockOwner) : Prop :=
  ∃ waiter ∈ t.waiters, ∃ lock ∈ t.locks, waiter.tag.owner = a ∧ lock.tag.owner = b ∧
    blocks lock waiter = true

variable {waiter : WaitingLock} {b a : RecordLockOwner}

lemma blocks_iff {lock : PosixLock} : blocks lock waiter = true ↔ lock.tag.key = waiter.tag.key ∧
      lock.tag.owner ≠ waiter.tag.owner ∧ lockConflicts lock.tag.lType waiter.tag.lType = true ∧
      lock.range.overlaps waiter.range = true := by
  unfold blocks
  simp only [Bool.and_eq_true, decide_eq_true_iff, Bool.not_eq_true', decide_eq_false_iff_not]
  tauto

/-- An edge depends on the bytes that the table covers, not on how they are stored. -/
lemma waitsFor_of_covers {lType : LockType} {x : Int} (hw : waiter ∈ t.waiters)
    (hx : x ∈ waiter.range) (hcov : Covers t.locks ⟨waiter.tag.key, b, lType⟩ x)
    (hne : b ≠ waiter.tag.owner) (hconf : lockConflicts lType waiter.tag.lType = true) :
    WaitsFor t waiter.tag.owner b := by
  obtain ⟨lock, hlock, htag, hxl⟩ := hcov
  refine ⟨waiter, hw, lock, hlock, rfl, by rw [htag], blocks_iff.mpr ?_⟩
  rw [htag]
  exact ⟨rfl, hne, hconf, Range.overlaps_iff.mpr ⟨x, hxl, hx⟩⟩

lemma covers_of_waitsFor (h : WaitsFor t a b) :
    ∃ waiter ∈ t.waiters, ∃ lType x, waiter.tag.owner = a ∧ x ∈ waiter.range ∧
      Covers t.locks ⟨waiter.tag.key, b, lType⟩ x ∧ b ≠ waiter.tag.owner ∧
      lockConflicts lType waiter.tag.lType = true := by
  obtain ⟨waiter, hw, lock, hlock, ha, hb, hblock⟩ := h
  obtain ⟨hkey, hne, hconf, hover⟩ := blocks_iff.mp hblock
  obtain ⟨x, hxl, hxw⟩ := Range.overlaps_iff.mp hover
  refine ⟨waiter, hw, lock.tag.lType, x, ha, hxw, ⟨lock, hlock, ?_, hxl⟩, hb ▸ hne, hconf⟩
  rw [← hkey, ← hb]

/-! ## The condition -/

/-- The owners that the request conflicts with wait for nobody but its owner: then the one step
that `would_deadlock` looks ahead is enough. -/
def OneHop (t : RecordLockTable) (owner : RecordLockOwner) (q : Request) : Prop :=
  ∀ conflict ∈ setlkwConflicts t owner q, ∀ waiter ∈ t.waiters,
    waiter.tag.owner = conflict.tag.owner →
      ∀ lock ∈ t.locks, blocks lock waiter = true → lock.tag.owner = owner

/-- A request that is granted does not make anyone wait for an owner that waits itself. -/
def GrantOk (t : RecordLockTable) (owner : RecordLockOwner) (q : Request) : Prop :=
  setlkwConflicts t owner q = [] → q.lType ≠ .unlck →
    (∀ waiter ∈ t.waiters, waiter.tag.owner ≠ owner) ∨
      ∀ waiter ∈ t.waiters, ¬ blocks ⟨⟨q.key, owner, q.lType⟩, q.range⟩ waiter = true

instance : Decidable (OneHop t owner q) := inferInstanceAs (Decidable (∀ _ ∈ _, _))

instance : Decidable (GrantOk t owner q) := inferInstanceAs (Decidable (_ → _ → _))

/-- A condition on the request of a call whose arguments pass. -/
def onRequest (request : Except Errno Request) (P : Request → Prop) : Prop :=
  match request with
  | .error _ => True
  | .ok q => P q

instance {request : Except Errno Request} {P : Request → Prop} [DecidablePred P] :
    Decidable (onRequest request P) := by
  cases request <;> (unfold onRequest; infer_instance)

/-- Calls by processes about their own locks. -/
def ByProcess : Op → Prop
  | .create _ | .setlk .. | .setlkw .. | .retry (.process _) .. | .close .. | .exit .. => True
  | .ofdSetlk .. | .ofdSetlkw .. | .retry (.fileDescription _) .. => False

instance : DecidablePred ByProcess := fun op => by
  unfold ByProcess
  split <;> infer_instance

/-- **The condition on a step**: a call by a process, and where it starts to wait the search sees
far enough, and where it is granted it holds up nobody while its owner waits. -/
def StepOk (s : State) : Op → Prop
  | .create _ | .close .. | .exit .. => True
  | .setlk pid file flock =>
    onRequest (parseSetlk file flock) (GrantOk s.table (.process pid))
  | .setlkw pid file flock _ =>
    onRequest (parseSetlk file flock) fun q =>
      OneHop s.table (.process pid) q ∧ GrantOk s.table (.process pid) q
  | .retry (.process pid) q _ => OneHop s.table (.process pid) q ∧ GrantOk s.table (.process pid) q
  | .ofdSetlk .. | .ofdSetlkw .. | .retry (.fileDescription _) .. => False

instance : DecidableRel StepOk := fun s op => by
  unfold StepOk
  split <;> infer_instance

/-! ## What the sections do to the graph -/

/-- A release takes edges away. -/
lemma waitsFor_released {P : LockKey → RecordLockOwner → Prop} (hr : Released P t t')
    (h : WaitsFor t' a b) : WaitsFor t a b := by
  obtain ⟨waiter, hw, lType, x, rfl, hx, hcov, hne, hconf⟩ := covers_of_waitsFor h
  exact waitsFor_of_covers (hr.waiters _ hw) hx ((hr.covers _ _).mp hcov).1 hne hconf

/-- A granted request adds edges to its owner only. -/
lemma waitsFor_granted (hg : Granted t owner q t') (h : WaitsFor t' a b) :
    WaitsFor t a b ∨ (b = owner ∧ q.lType ≠ .unlck ∧
      ∃ waiter ∈ t.waiters, blocks ⟨⟨q.key, owner, q.lType⟩, q.range⟩ waiter = true) := by
  obtain ⟨waiter, hw, lType, x, rfl, hx, hcov, hne, hconf⟩ := covers_of_waitsFor h
  rcases (hg.covers _ _).mp hcov with ⟨hcov, -⟩ | ⟨hun, htag, hxq⟩
  · exact .inl (waitsFor_of_covers (hg.waiters _ hw) hx hcov hne hconf)
  · obtain ⟨hkey, rfl, rfl⟩ := LockTag.mk.injEq .. ▸ htag
    refine .inr ⟨rfl, hun, waiter, hg.waiters _ hw, blocks_iff.mpr ?_⟩
    exact ⟨hkey.symm, hne, hconf, Range.overlaps_iff.mpr ⟨x, hxq, hx⟩⟩

lemma acyclic_granted (h : Acyclic (WaitsFor t)) (hg : Granted t owner q t')
    (hfree : setlkwConflicts t owner q = []) (hok : GrantOk t owner q) : Acyclic (WaitsFor t') := by
  apply h.of_sinks
  intro a b hab
  rcases waitsFor_granted hg hab with hold | ⟨rfl, hun, waiter, hw, hblock⟩
  · exact .inl hold
  rcases hok hfree hun with hidle | hnone
  · -- no task of the owner waits, before and after
    refine .inr fun c hout => ?_
    obtain ⟨w, hw, -, -, howner, -⟩ := hout
    exact hidle w (hg.waiters w hw) howner
  · exact absurd hblock (hnone waiter hw)

/-- A request that starts to wait adds edges from its owner to owners that do not wait. -/
lemma acyclic_enqueueWaiter (h : Acyclic (WaitsFor t)) (task : Nat)
    (hsearch : t.wouldDeadlock owner (setlkwConflicts t owner q) = false)
    (hhop : OneHop t owner q) (hun : q.lType ≠ .unlck) :
    Acyclic (WaitsFor (t.enqueueWaiter owner q task)) := by
  apply h.of_sinks
  rintro a b ⟨waiter, hw, lock, hlock, rfl, rfl, hblock⟩
  rcases List.mem_append.mp hw with hw | hw
  · exact .inl ⟨waiter, hw, lock, hlock, rfl, rfl, hblock⟩
  obtain rfl := List.mem_singleton.mp hw
  obtain ⟨hkey, hne, hconf, hover⟩ := blocks_iff.mp hblock
  have hmem : lock ∈ setlkwConflicts t owner q := by
    rw [setlkwConflicts, if_neg hun]
    exact mem_findConflicts.mpr ⟨hlock, hkey, hne, hconf, hover⟩
  refine .inr ?_
  rintro c ⟨waiter', hw', lock', hlock', howner', rfl, hblock'⟩
  rcases List.mem_append.mp hw' with hw' | hw'
  · -- the other owner would wait for this one, which the search has excluded
    have hmine := hhop lock hmem waiter' hw' howner' lock' hlock' hblock'
    obtain ⟨hkey', -, hconf', hover'⟩ := blocks_iff.mp hblock'
    have hfound : t.wouldDeadlock owner (setlkwConflicts t owner q) = true := by
      refine List.any_eq_true.mpr ⟨lock, hmem, List.any_eq_true.mpr ⟨waiter', hw', ?_⟩⟩
      rw [Bool.and_eq_true, decide_eq_true_iff, List.any_eq_true]
      exact ⟨howner', lock', hlock', by simp [hmine, hkey', hconf', hover']⟩
    simp [hsearch] at hfound
  · obtain rfl := List.mem_singleton.mp hw'
    exact hne howner'.symm

section

variable (hinv : Inv s) (h : Acyclic (WaitsFor s.table))
include hinv h

lemma acyclic_setlkSection
    (hok : GrantOk s.table owner q) : Acyclic (WaitsFor (setlkSection s owner q).2.table) := by
  unfold setlkSection
  by_cases hconf : s.table.lockMap.Conflict owner q
  · rw [setLock_error ((conflict_iff hinv.table.separate).mp hconf)]
    exact h
  have hsearch := mt (conflict_iff hinv.table.separate).mpr hconf
  obtain ⟨wakeups, t', hset, hg⟩ := setLock_ok hsearch
  have hfree : setlkwConflicts s.table owner q = [] := by
    unfold setlkwConflicts
    split
    · rfl
    next hun =>
      by_contra hne
      exact hsearch ⟨hun, by simpa using hne⟩
  rw [hset]
  rw [commit_table]
  exact acyclic_granted h hg hfree hok

/-- **A round of a blocking request** closes no cycle. -/
theorem acyclic_setlkwSection (task : Nat)
    (hhop : OneHop s.table owner q) (hok : GrantOk s.table owner q) :
    Acyclic (WaitsFor (setlkwSection s owner true q task).2.table) := by
  unfold setlkwSection
  split
  · exact acyclic_setlkSection hinv h hok
  rename_i hconf
  have hun : q.lType ≠ .unlck := by
    intro hun
    apply hconf
    rw [setlkwConflicts, if_pos hun]
    rfl
  split
  · exact h
  next hsearch =>
    rw [Bool.true_and, Bool.not_eq_true] at hsearch
    exact acyclic_enqueueWaiter h task hsearch hhop hun

/-- **Step lemma**: a call that meets the condition closes no cycle. -/
theorem acyclic_perform {op : Op} {r : Reply}
    (hok : StepOk s op) (hop : perform s op = some (r, s')) : Acyclic (WaitsFor s'.table) := by
  have out : ∀ {o : Reply × State}, Acyclic (WaitsFor o.2.table) → some o = some (r, s') →
      Acyclic (WaitsFor s'.table) := by
    intro o hacyc ho
    cases ho
    exact hacyc
  cases op with
  | create pid =>
    obtain ⟨-, ⟨⟩⟩ := of_guard hop
    exact h
  | setlk pid file flock =>
    obtain ⟨-, hop⟩ := ite_none_right_eq_some.mp hop
    refine out ?_ hop
    simp only [StepOk] at hok
    cases hq : parseSetlk file flock with
    | error e => exact h
    | ok q =>
      rw [hq] at hok
      exact acyclic_setlkSection hinv h hok
  | setlkw pid file flock task =>
    obtain ⟨-, hop⟩ := ite_none_right_eq_some.mp hop
    refine out ?_ hop
    simp only [StepOk] at hok
    cases hq : parseSetlk file flock with
    | error e => exact h
    | ok q =>
      rw [hq] at hok
      exact acyclic_setlkwSection hinv h task hok.1 hok.2
  | retry owner q task =>
    obtain ⟨-, hop⟩ := ite_none_right_eq_some.mp hop
    cases owner with
    | process pid => exact out (acyclic_setlkwSection hinv h task hok.1 hok.2) hop
    | fileDescription file => exact hok.elim
  | close pid file stillReferenced =>
    obtain ⟨-, ⟨⟩⟩ := of_guard hop
    obtain ⟨-, hr⟩ := releaseFileLocksForClose_released hinv pid file stillReferenced
    exact h.mono fun a b => waitsFor_released hr
  | exit pid entries =>
    obtain ⟨-, ⟨⟩⟩ := of_guard hop
    obtain ⟨-, hr⟩ := exitProcess_released hinv pid entries
    exact h.mono fun a b => waitsFor_released hr
  | ofdSetlk | ofdSetlkw => exact hok.elim

end

/-- **No cycle of waiting processes** in any run whose calls meet the condition. -/
theorem wait_graph_acyclic (h : system.Reachable StepOk s) : Acyclic (WaitsFor s.table) := by
  suffices Inv s ∧ Acyclic (WaitsFor s.table) from this.2
  apply h.invariant
  · rintro s rfl
    refine ⟨Inv.boot, fun a hcycle => ?_⟩
    obtain ⟨c, ⟨waiter, hw, -⟩, -⟩ := Relation.TransGen.head'_iff.mp hcycle
    cases hw
  · rintro s op s' ⟨hinv, hacyc⟩ hok hstep
    obtain ⟨⟨r, t⟩, hop, rfl⟩ := map_eq_some_iff.mp hstep
    exact ⟨(hinv.perform hop).1, acyclic_perform hinv hacyc hok hop⟩

/-- Three processes that each hold a byte of one file. -/
def threeHolders : List Op :=
  [.create 1, .create 2, .create 3, .setlkw 1 (sampleFile 0 7) (sampleFlock .wrlck 1 1) 1,
    .setlkw 2 (sampleFile 0 7) (sampleFlock .wrlck 2 1) 2,
    .setlkw 3 (sampleFile 0 7) (sampleFlock .wrlck 3 1) 3]

/-- Two processes wait for the third one, which is then refused. -/
theorem wait_graph_acyclic_refused :
    ∃ s : State, system.Reachable StepOk s ∧ s.table.waiters.length = 2 ∧
      (perform s (.setlkw 3 (sampleFile 0 7) (sampleFlock .wrlck 1 1) 3)).map Prod.fst =
        some (.err .EDEADLK) ∧ Acyclic (WaitsFor s.table) := by
  have hrun : (system.runWhile StepOk boot (threeHolders ++
      [.setlkw 1 (sampleFile 0 7) (sampleFlock .wrlck 3 1) 1,
        .setlkw 2 (sampleFile 0 7) (sampleFlock .wrlck 3 1) 2])).map (fun s =>
      (s.table.waiters.length,
        (perform s (.setlkw 3 (sampleFile 0 7) (sampleFlock .wrlck 1 1) 3)).map Prod.fst)) =
      some (2, some (.err .EDEADLK)) := by
    decide +kernel
  obtain ⟨s, hreach, -, hsum⟩ := System.exists_reachable hrun rfl
  obtain ⟨hlen, hop⟩ := Prod.mk.injEq .. ▸ hsum
  exact ⟨s, hreach, hlen, hop, wait_graph_acyclic hreach⟩

/-- Whether an owner waits for another one, by search. -/
def waitsForSearch (t : RecordLockTable) (a b : RecordLockOwner) : Bool :=
  t.waiters.any fun waiter => t.locks.any fun lock =>
    waiter.tag.owner = a && lock.tag.owner = b && blocks lock waiter

lemma waitsFor_of_search (h : waitsForSearch t a b = true) : WaitsFor t a b := by
  obtain ⟨waiter, hw, h⟩ := List.any_eq_true.mp h
  obtain ⟨lock, hlock, h⟩ := List.any_eq_true.mp h
  simp only [Bool.and_eq_true, decide_eq_true_iff] at h
  exact ⟨waiter, hw, lock, hlock, h.1.1, h.1.2, h.2⟩

/-- **Three processes wait in a circle**: the first for the second, the second for the third, and
the request of the third for the byte of the first is not refused. -/
theorem three_processes_wait_in_a_circle :
    ∃ s s' : State, system.Reachable (fun _ op => ByProcess op) s ∧
      perform s (.setlkw 3 (sampleFile 0 7) (sampleFlock .wrlck 1 1) 3) = some (.blocked, s') ∧
      ¬ Acyclic (WaitsFor s'.table) := by
  have hrun : (system.runWhile (fun _ op => ByProcess op) boot (threeHolders ++
      [.setlkw 1 (sampleFile 0 7) (sampleFlock .wrlck 2 1) 1,
        .setlkw 2 (sampleFile 0 7) (sampleFlock .wrlck 3 1) 2])).bind (fun s =>
      (perform s (.setlkw 3 (sampleFile 0 7) (sampleFlock .wrlck 1 1) 3)).map fun out =>
        (out.1, waitsForSearch out.2.table (.process 1) (.process 2),
          waitsForSearch out.2.table (.process 2) (.process 3),
          waitsForSearch out.2.table (.process 3) (.process 1))) =
      some (.blocked, true, true, true) := by
    decide +kernel
  obtain ⟨s, hs, hsum⟩ := bind_eq_some_iff.mp hrun
  obtain ⟨⟨r, s'⟩, hop, hout⟩ := map_eq_some_iff.mp hsum
  simp only [Prod.mk.injEq] at hout
  obtain ⟨rfl, h12, h23, h31⟩ := hout
  refine ⟨s, s', System.reachable_of_runWhile (.init rfl) hs, hop, fun hacyc => ?_⟩
  apply hacyc (.process 1)
  exact .tail (.tail (.single (waitsFor_of_search h12)) (waitsFor_of_search h23))
    (waitsFor_of_search h31)

end Whusp.Syscall.FdLock
