import Whusp.Syscall.SemSets

/-!
# Blocking semaphore operations

A call whose array cannot be applied: whether it fails or waits, and what it makes of the removal of
its set.  After each wakeup the existence check and the retry are sections of their own.
-/

namespace Whusp.Syscall.Sem

open List
open Whusp.Lib (SortedMap System)

def LinuxSembuf.nowait (op : LinuxSembuf) : Bool := op.semFlg &&& IPC_NOWAIT ≠ 0

/-- `op` is the first operation in array order that cannot proceed. -/
inductive FirstStuck (op : LinuxSembuf) : List LinuxSembuf → List Int → Prop
  | here {ops values} (h : execOps [op] values = .error .wouldBlock) :
      FirstStuck op (op :: ops) values
  | later {op' ops values now} (h : execOps [op'] values = .ok now) (hs : FirstStuck op ops now) :
      FirstStuck op (op' :: ops) values

variable {ops : List LinuxSembuf} {values : List Int} {op : LinuxSembuf}

lemma FirstStuck.mem (h : FirstStuck op ops values) : op ∈ ops := by
  induction h with
  | here => exact mem_cons_self
  | later _ _ ih => exact mem_cons_of_mem _ ih

/-- Where `try_semop` would block, one operation is in the way and `first_waiting_op` finds it. -/
lemma exists_firstStuck (hin : ∀ op ∈ ops, op.semNum.toNat < values.length)
    (h : execOps ops values = .error .wouldBlock) :
    (∃ r, firstWaitingOp ops values = some r) ∧ ∃ op, FirstStuck op ops values := by
  induction ops generalizing values with
  | nil => cases h
  | cons op ops ih =>
    obtain ⟨hop, hops⟩ := forall_mem_cons.mp hin
    have hnow : values[op.semNum.toNat]? = some (values.getD op.semNum.toNat 0) := by
      simp [hop]
    have hlater {now} (hone : execOps [op] values = .ok now) :
        (∃ op, FirstStuck op ops now) → ∃ op', FirstStuck op' (op :: ops) values :=
      fun ⟨op', hs⟩ => ⟨op', .later hone hs⟩
    unfold execOps at h
    simp only [firstWaitingOp, hnow]
    dsimp only at h
    split_ifs at h ⊢ with h₁ h₂ h₂ h₃
    · exact ⟨⟨_, rfl⟩, op, .here (by simp only [execOps, if_pos h₁, if_pos h₂])⟩
    · exact (ih hops h).imp_right (hlater (by simp only [execOps, if_pos h₁, if_neg h₂]))
    · exact ⟨⟨_, rfl⟩, op, .here (by simp only [execOps, if_neg h₁, if_pos h₂])⟩
    · cases h
    · exact (ih (by simpa using hops) h).imp_right
        (hlater (by simp only [execOps, if_neg h₁, if_neg h₂, if_neg h₃]))

variable {s : State} {i : Nat} {c : Call} {set : SemSet}

/-- The step of a call whose array would block: the flag of any operation makes it fail. -/
lemma attempt_would_block (hc : s.calls[i]? = some c) (hphase : c.phase = .attempting)
    (htimed : c.timed = false) (hset : s.manager.sets.get? c.semid = some set)
    (hne : c.ops ≠ []) (hlen : c.ops.length ≤ SEMOPM) (hcheck : checkOps set c.caller c.ops = none)
    (hexec : execOps c.ops (set.values.map SemValue.value) = .error .wouldBlock)
    (expired interrupting : Bool) :
    ∃ s', s.step (.attempt i expired interrupting) = some s' ∧
      s'.calls[i]?.map Call.phase = some
        (if c.ops.any LinuxSembuf.nowait then .returned (.error .EAGAIN)
        else if interrupting then .returned (.error .EINTR) else .sleeping) := by
  obtain ⟨⟨⟨semnum, kind⟩, hr⟩, -⟩ :=
    exists_firstStuck (by simpa using checkOps_eq_none hcheck) hexec
  refine ⟨s.tryOrBlock i c interrupting,
    by simp [State.step, State.attempt, hc, hphase, htimed], ?_⟩
  have htry : s.manager.trySemop c.semid c.ops c.caller = (.error .wouldBlock, s.manager) := by
    simp [SemManager.trySemop, hset, hne, hlen, hcheck, hexec]
  simp only [State.tryOrBlock, htry, SemManager.blockCurrentOnFirstWait, hset, hr]
  unfold LinuxSembuf.nowait
  cases c.ops.any fun op => decide (op.semFlg &&& IPC_NOWAIT ≠ 0) <;> cases interrupting <;>
    simp [State.setPhase, hc, semErrorToSysError]

/-- **The `EAGAIN` rule** of a `semop` whose array would block.  Some operation is the first that
cannot proceed, and the call fails with `EAGAIN` or waits as that operation's `IPC_NOWAIT` says
exactly if this operation has the flag where any has. -/
theorem semop_eagain_iff (hc : s.calls[i]? = some c) (hphase : c.phase = .attempting)
    (htimed : c.timed = false) (hset : s.manager.sets.get? c.semid = some set)
    (hlen : c.ops.length ≤ SEMOPM) (hcheck : checkOps set c.caller c.ops = none)
    (hexec : execOps c.ops (set.values.map SemValue.value) = .error .wouldBlock)
    (expired interrupting : Bool) :
    ∃ s', s.step (.attempt i expired interrupting) = some s' ∧
      (∃ op, FirstStuck op c.ops (set.values.map SemValue.value)) ∧
      ∀ op, FirstStuck op c.ops (set.values.map SemValue.value) →
        (s'.calls[i]?.map Call.phase = some
          (if op.nowait then .returned (.error .EAGAIN)
          else if interrupting then .returned (.error .EINTR) else .sleeping) ↔
        (c.ops.any LinuxSembuf.nowait = true → op.nowait = true)) := by
  obtain ⟨-, op₀, hstuck⟩ := exists_firstStuck (by simpa using checkOps_eq_none hcheck) hexec
  obtain ⟨s', hstep, hcall⟩ := attempt_would_block hc hphase htimed hset
    (ne_nil_of_mem hstuck.mem) hlen hcheck hexec expired interrupting
  refine ⟨s', hstep, ⟨op₀, hstuck⟩, fun op hop => ?_⟩
  have hany : op.nowait = true → c.ops.any LinuxSembuf.nowait = true :=
    fun hn => any_eq_true.mpr ⟨op, hop.mem, hn⟩
  rw [hcall]
  cases hn : op.nowait with
  | true => simp [hany hn]
  | false => cases c.ops.any LinuxSembuf.nowait <;> cases interrupting <;> simp

/-- The operations of a call on two semaphores: the second cannot proceed and may not wait, the
third could. -/
def threeOps : List LinuxSembuf := [⟨0, 1, 0⟩, ⟨1, -1, IPC_NOWAIT⟩, ⟨0, -1, 0⟩]

/-- A call with these operations on a fresh set. -/
def stuckCall : State :=
  ⟨(SemManager.new.createSet 0 2 0o600 ⟨0, 0⟩).2, [⟨1, 1, threeOps, false, root, .attempting⟩]⟩

theorem semop_eagain_iff_three : ∃ s', stuckCall.step (.attempt 0 false false) = some s' ∧
    FirstStuck ⟨1, -1, IPC_NOWAIT⟩ threeOps [0, 0] ∧
    s'.calls[0]?.map Call.phase = some (.returned (.error .EAGAIN)) := by
  obtain ⟨s', hs, -, h⟩ := @semop_eagain_iff stuckCall 0 _ (.new 0 2 0o600 ⟨0, 0⟩) rfl rfl rfl rfl
    (by decide) rfl rfl false false
  exact ⟨s', hs, .later rfl (.here rfl), (h _ (.later rfl (.here rfl))).mpr (by decide)⟩

/-- **The flag of another operation**: the first one is in the way and may wait. -/
theorem semop_eagain_elsewhere :
    (system.runWhile System.anyStep .boot [.semget 5 2 0o1600 ⟨0, 0⟩ root,
      .semtimedop 1 1 [⟨0, -1, 0⟩, ⟨1, 1, IPC_NOWAIT⟩] false root, .attempt 0 false false]).map
        (·.calls.map (·.phase)) = some [.returned (.error .EAGAIN)] ∧
    FirstStuck ⟨0, -1, 0⟩ [⟨0, -1, 0⟩, ⟨1, 1, IPC_NOWAIT⟩] [0, 0] :=
  ⟨by decide +kernel, .here rfl⟩

/-! ## Removal -/

open SemManager (Ok)

variable {m : SemManager} {semid : Nat} {s' : State} {ev : Event}

/-- The set was removed; its id is not given out again. -/
def Gone (m : SemManager) (semid : Nat) : Prop := semid < m.nextId ∧ m.sets.get? semid = none

lemma Gone.setSet {id : Nat} (h : Gone m semid) (hget : m.sets.get? id = some set)
    (set' : SemSet) : Gone (m.setSet id set') semid := by
  refine ⟨h.1, (SortedMap.get?_insert_of_ne ?_).trans h.2⟩
  rintro rfl
  simp [h.2] at hget

lemma Gone.tryOrBlock (h : Gone s.manager semid) (interrupting : Bool) :
    Gone (s.tryOrBlock i c interrupting).manager semid := by
  have htry : Gone (s.manager.trySemop c.semid c.ops c.caller).2 semid := by
    unfold SemManager.trySemop
    repeat' split
    all_goals first | exact h | exact h.setSet ‹_› _
  unfold State.tryOrBlock
  split
  next heq => rwa [heq] at htry
  next m heq =>
    rw [heq] at htry
    have hblock : Gone (m.blockCurrentOnFirstWait c.semid c.ops c.task interrupting).2 semid := by
      unfold SemManager.blockCurrentOnFirstWait
      repeat' split
      all_goals first | exact htry | exact htry.setSet ‹_› _
    split
    next heq => rwa [heq] at hblock
    next heq => rwa [heq] at hblock
  next heq => rwa [heq] at htry

lemma Gone.step (hok : Ok s.manager) (h : Gone s.manager semid) (hstep : s.step ev = some s') :
    Gone s'.manager semid := by
  cases ev with
  | semget =>
    cases hstep
    simp only [SemManager.getOrCreate, SemManager.createSet, hok.allocId]
    repeat' split
    all_goals first
      | exact h
      | exact ⟨Nat.lt_succ_of_lt h.1, (SortedMap.get?_insert_of_ne h.1.ne).trans h.2⟩
  | rmid id caller =>
    cases hstep
    unfold SemManager.removeSet
    split
    · exact h
    split
    · exact h
    refine ⟨h.1, ?_⟩
    rcases eq_or_ne semid id with rfl | hne
    · exact SortedMap.get?_erase_self
    · exact (SortedMap.get?_erase_of_ne hne).trans h.2
  | ipcSet | setval | setall =>
    cases hstep
    simp only [SemManager.setAttrs, SemManager.setValue, SemManager.setAll]
    repeat' split
    all_goals first | exact h | exact h.setSet ‹_› _
  | semtimedop =>
    obtain ⟨-, rfl⟩ := of_guard hstep
    exact h
  | attempt i expired interrupting =>
    obtain ⟨c, -, hstep⟩ := Option.bind_eq_some_iff.mp hstep
    obtain ⟨-, hstep⟩ := Option.ite_none_right_eq_some.mp hstep
    split at hstep <;> cases hstep
    · exact h
    · exact h.tryOrBlock interrupting
  | resume i fatal deliverable expired =>
    obtain ⟨c, -, hstep⟩ := Option.bind_eq_some_iff.mp hstep
    obtain ⟨-, rfl⟩ := of_guard hstep
    exact ⟨h.1, by simp [State.setPhase, h.2]⟩

/-- Only its own steps move a call, and the one after a sleep finds that the set is gone. -/
lemma call_step (hc : s.calls[i]? = some c) (hphase : c.phase ≠ .attempting)
    (hgone : Gone s.manager c.semid) (hstep : s.step ev = some s') :
    s'.calls[i]? = some c ∨ s'.calls[i]? = some { c with phase := .returned (.error .EIDRM) } := by
  cases ev with
  | semget | rmid | ipcSet | setval | setall =>
    cases hstep
    exact .inl hc
  | semtimedop =>
    obtain ⟨-, rfl⟩ := of_guard hstep
    exact .inl ((getElem?_append_left (List.getElem?_eq_some_iff.mp hc).1).trans hc)
  | attempt j expired interrupting =>
    obtain ⟨d, hd, hstep⟩ := Option.bind_eq_some_iff.mp hstep
    obtain ⟨hd', hstep⟩ := Option.ite_none_right_eq_some.mp hstep
    have hne : j ≠ i := by
      rintro rfl
      rw [hc] at hd
      cases hd
      exact hphase hd'
    left
    split at hstep <;> cases hstep
    · simpa [State.setPhase, hne] using hc
    unfold State.tryOrBlock
    repeat' split
    all_goals simpa [State.setPhase, hne] using hc
  | resume j fatal deliverable expired =>
    obtain ⟨d, hd, hstep⟩ := Option.bind_eq_some_iff.mp hstep
    obtain ⟨-, rfl⟩ := of_guard hstep
    by_cases hne : j = i
    · subst hne
      rw [hc] at hd
      cases hd
      right
      simp [State.setPhase, hc, SemManager.containsId, hgone.2]
    · simp [State.setPhase, hne, hc]

/-- The call `c` sleeps on the removed set, or has seen that it is gone. -/
structure Reported (i : Nat) (c : Call) (s : State) : Prop where
  ok : Ok s.manager
  gone : Gone s.manager c.semid
  call : s.calls[i]? = some c ∨ s.calls[i]? = some { c with phase := .returned (.error .EIDRM) }

/-- **A set that is removed while a call sleeps**: in every run from there the call sleeps on, or
has returned `EIDRM`, and `EIDRM` is what it returns when it runs again. -/
theorem removed_set_is_reported (h : system.Reachable System.anyStep s)
    (hc : s.calls[i]? = some c) (hsleep : c.phase = .sleeping) {caller : SemCaller}
    (hrm : (s.manager.removeSet c.semid caller).1 = .ok ())
    (hrun : System.Reachable { system with init := (s.step (.rmid c.semid caller) = some ·) }
      System.anyStep s') :
    s'.calls[i]?.map Call.phase = some (.returned (.error .EIDRM)) ∨
      s'.calls[i]? = some c ∧ ∀ fatal deliverable expired,
        (s'.step (.resume i fatal deliverable expired)).map (·.calls[i]?.map Call.phase) =
          some (some (.returned (.error .EIDRM))) := by
  have hinv : Reported i c s' := by
    refine hrun.invariant ?_ ?_
    · rintro _ ⟨⟩
      have hok := Ok.reachable h
      refine ⟨hok.removeSet .., ?_, .inl hc⟩
      unfold SemManager.removeSet at hrm ⊢
      split at hrm
      · cases hrm
      next set hget =>
      split at hrm
      · cases hrm
      next howner =>
      rw [if_neg howner]
      exact ⟨hok.fresh _ (hok.live _ set hget), SortedMap.get?_erase_self⟩
    · rintro t ev t' ⟨hok, hgone, hcall⟩ - hstep
      refine ⟨step_ok hok hstep, hgone.step hok hstep, ?_⟩
      rcases hcall with hcall | hcall
      · exact call_step hcall (by simp [hsleep]) hgone hstep
      · exact .inr ((call_step hcall (by simp) hgone hstep).elim id id)
  rcases hinv.call with hcall | hcall
  · refine .inr ⟨hcall, fun fatal deliverable expired => ?_⟩
    simp [State.step, State.resume, hcall, hsleep, State.setPhase, SemManager.containsId,
      SemManager.removeWaiterForTask, hinv.gone.2]
  · exact .inl (by simp [hcall])

def sleeper : Call := ⟨1, 1, [⟨0, -1, 0⟩], false, root, .sleeping⟩

theorem removed_set_is_reported_asleep : ∃ s s' : State, s.calls = [sleeper] ∧
    s.step (.rmid 1 root) = some s' ∧
      (s'.calls[0]?.map Call.phase = some (.returned (.error .EIDRM)) ∨
        (s'.step (.resume 0 false true false)).map (·.calls[0]?.map Call.phase) =
          some (some (.returned (.error .EIDRM)))) := by
  have hrun : (system.runWhile System.anyStep .boot [.semget 5 1 0o1600 ⟨0, 0⟩ root,
      .semtimedop 1 1 [⟨0, -1, 0⟩] false root, .attempt 0 false false]).map
        (fun s => (s.calls, (s.manager.removeSet 1 root).1)) = some ([sleeper], .ok ()) := by
    decide +kernel
  obtain ⟨s, hreach, -, hv⟩ := System.exists_reachable hrun rfl
  obtain ⟨hcalls, hrm⟩ := Prod.mk.inj hv
  have hc : s.calls[0]? = some sleeper := by rw [hcalls]; rfl
  have hreport := removed_set_is_reported hreach hc rfl hrm (.init rfl)
  exact ⟨s, _, hcalls, rfl, hreport.imp_right fun h => h.2 false true false⟩

/-- **A set that is removed between the check and the retry**: the call returns `EINVAL`. -/
theorem removed_set_is_invalid :
    (system.runWhile System.anyStep .boot [.semget 5 1 0o1600 ⟨0, 0⟩ root,
      .semtimedop 1 1 [⟨0, -2, 0⟩] false root, .attempt 0 false false, .setval 1 0 1 root,
      .resume 0 false false false, .rmid 1 root, .attempt 0 false false]).map
        (·.calls.map (·.phase)) = some [.returned (.error .EINVAL)] := by
  decide +kernel

end Whusp.Syscall.Sem
