import Whusp.Lib.Counting
import Whusp.Task.FutexPlacement

/-!
# Futex wakes are conserved

A wake that takes a waiter out of its queue is counted by its call and ends one wait with
success.  Four steps can break this: the wakeup of a task that a timer or a signal has already
woken is not counted, a woken wait returns EINTR when a signal is deliverable, the cleanup of an
exited task that still executes ends its wait with success, and `FUTEX_CMP_REQUEUE` counts waiters
that it only moves.
-/

namespace Whusp.Task.Futex

open Function Whusp.Lib List Option

/-! ## Wakes are conserved -/

/-- The share of a call in the sum of the counts: what it has returned, or what it will return if
every waiter that it has dequeued is counted. -/
def WakeCall.share (c : WakeCall) : Nat :=
  if c.returned then c.result else c.woken + c.pending.length

/-- What the place of a wait says about its waiter. -/
def WaitOk (inner : Nat → TaskInner Nat) (x : Waiter) : Prop :=
  match x.phase with
  | .scheduled => x.state = .cancelled → Gone (inner x.task)
  | .loadState | .loadBucket | .locking _ => x.state ≠ .cancelled
  | .cleaned .woken => x.state = .woken
  | .cleaned .stillQueued => x.state = .cancelled
  | .cleaned .alreadyUnqueued => False
  | .returned r => r = .ok ↔ x.state = .woken

/-- **Conservation**: the logs, the counts and the places of the calls agree. -/
structure Conserved (s : State) : Prop where
  placed : Placed s
  woken : ∀ w, w ∈ s.woken ↔ (s.waiters w).state = .woken
  wokenOnce : s.woken.Nodup
  balance : (s.calls.map WakeCall.share).sum = s.woken.length
  emptied : ∀ call ∈ s.calls, call.returned = true → call.pending = []
  waits : ∀ w, w < s.created → WaitOk s.inner (s.waiters w)
  succeeded : ∀ w, w ∈ s.succeeded ↔ (s.waiters w).phase = .returned .ok
  succeededOnce : s.succeeded.Nodup

/-- **The condition on a step**: a wake reaches a dequeued waiter while its task sleeps, a woken
wait returns without a deliverable signal, the cleanup of tasks finds them gone, and a call that
counts the waiters it has moved has moved none. -/
def StepOk (s : State) : Event → Prop
  | .remove t => Gone (s.inner t)
  | .finish w _ signal => (s.waiters w).state = .woken → signal = false
  | .wakeNext i =>
    ∀ call ∈ s.calls[i]?, ∀ w ∈ call.pending.head?, Asleep (s.inner (s.waiters w).task)
  | .wakeReturn i => ∀ call ∈ s.calls[i]?, call.countRequeued = true → call.moved = 0
  | _ => True

instance : DecidableRel StepOk := fun s e => by
  cases e <;> (unfold StepOk; infer_instance)

/-- The tasks matter only where they are gone, and they stay so. -/
lemma WaitOk.setInner {inner : Nat → TaskInner Nat} {x : Waiter} {t : Nat} {i : TaskInner Nat}
    (h : WaitOk inner x) (hi : Gone (inner t) → Gone i) : WaitOk (update inner t i) x := by
  unfold WaitOk at h ⊢
  split
  next hphase =>
    intro hc
    rw [hphase] at h
    rcases eq_or_ne x.task t with rfl | hne
    · rw [update_self]
      exact hi (h hc)
    · rw [update_of_ne hne]
      exact h hc
  all_goals simp_all

namespace Conserved

variable {s s' : State} {t w b : Nat} {key target : FutexKey} {ws kept moved : List Nat}

lemma of_waiters (h : Conserved s) (hplaced : Placed s') (hwoken : s'.woken = s.woken)
    (hsucceeded : s'.succeeded = s.succeeded) (hcalls : s'.calls = s.calls)
    (hstate : ∀ w, (s'.waiters w).state = .woken ↔ (s.waiters w).state = .woken)
    (hphase : ∀ w, (s'.waiters w).phase = .returned .ok ↔ (s.waiters w).phase = .returned .ok)
    (hwaits : ∀ w, w < s'.created → WaitOk s'.inner (s'.waiters w)) : Conserved s' := by
  refine ⟨hplaced, fun w => ?_, ?_, ?_, hcalls ▸ h.emptied, hwaits, fun w => ?_, ?_⟩
  · rw [hwoken, h.woken, hstate]
  · rw [hwoken]
    exact h.wokenOnce
  · rw [hcalls, hwoken]
    exact h.balance
  · rw [hsucceeded, h.succeeded, hphase]
  · rw [hsucceeded]
    exact h.succeededOnce

lemma setInner {i : TaskInner Nat} (h : Conserved s) (hi : Mild (s.inner t) i) :
    Conserved (s.setInner t i) :=
  h.of_waiters (h.placed.setInner hi) rfl rfl rfl (fun _ => .rfl) (fun _ => .rfl)
    fun w hw => (h.waits w hw).setInner hi.gone

/-- A wait goes on, and neither its old nor its new place is a success. -/
lemma setPhase {phase : Phase} (h : Conserved s) (hplaced : Placed (s.setPhase w phase))
    (hold : (s.waiters w).phase ≠ .returned .ok) (hnew : phase ≠ .returned .ok)
    (hok : WaitOk s.inner { s.waiters w with phase }) : Conserved (s.setPhase w phase) := by
  have hself : (s.setPhase w phase).waiters w = { s.waiters w with phase } :=
    update_self ..
  have hother {v : Nat} (hv : v ≠ w) : (s.setPhase w phase).waiters v = s.waiters v :=
    update_of_ne hv ..
  refine h.of_waiters hplaced rfl rfl rfl (fun v => ?_) (fun v => ?_) fun v hv => ?_
  · rcases eq_or_ne v w with rfl | hne
    · rw [hself]
    · rw [hother hne]
  · rcases eq_or_ne v w with rfl | hne
    · rw [hself]
      exact iff_of_false hnew hold
    · rw [hother hne]
  · rcases eq_or_ne v w with rfl | hne
    · rw [hself]
      exact hok
    · rw [hother hne]
      exact h.waits v hv

variable {n cpu i : Nat} {c : Cleanup} {expired signal : Bool} {call : WakeCall}

/-- **A wake counts every waiter that it takes out.** -/
theorem dequeue {c : Bool} (h : Conserved s) (hperm : (ws ++ kept).Perm ((s.buckets b).queue key)) :
    Conserved ((s.dequeue ws n c).setBucket b ((s.buckets b).setQueue key kept)) := by
  have hin {w : Nat} (hw : w ∈ ws) :
      (s.resolve ws .woken).waiters w = { s.waiters w with state := .woken } := if_pos hw
  have hout {w : Nat} (hw : w ∉ ws) : (s.resolve ws .woken).waiters w = s.waiters w := if_neg hw
  have hqueued : ∀ w ∈ ws, (s.waiters w).state = .queued :=
    fun w hw => h.placed.queue_queued w (hperm.subset (mem_append_left _ hw))
  have honce : ws.Nodup := by
    rw [nodup_iff_count_le_one]
    intro w
    have hq := hperm.count_eq w
    have hle := Placed.queue_count_le (s.buckets b) key w
    have hcopies := h.placed.copies b w
    rw [count_append] at hq
    split at hcopies <;> omega
  refine ⟨h.placed.dequeue hperm, fun w => ?_, ?_, ?_, ?_, fun w hw => ?_, fun w => ?_,
    h.succeededOnce⟩
  · show w ∈ ws ++ s.woken ↔ ((s.resolve ws .woken).waiters w).state = .woken
    rw [mem_append, h.woken]
    by_cases hw : w ∈ ws
    · rw [hin hw]
      exact iff_of_true (.inl hw) rfl
    · rw [hout hw]
      exact or_iff_right hw
  · refine nodup_append.mpr ⟨honce, h.wokenOnce, fun v hv w hw hvw => ?_⟩
    have hwoken := (h.woken w).mp hw
    simp [← hvw, hqueued v hv] at hwoken
  · show ((s.calls ++ [(⟨ws, 0, n, c, false⟩ : WakeCall)]).map WakeCall.share).sum =
      (ws ++ s.woken).length
    have hbalance := h.balance
    rw [map_append, sum_append, length_append]
    simp only [map_cons, map_nil, sum_cons, sum_nil, WakeCall.share]
    simp only [Bool.false_eq_true, if_false]
    omega
  · intro call hcall hreturned
    rcases mem_append.mp hcall with hcall | hcall
    · exact h.emptied call hcall hreturned
    · rw [mem_singleton.mp hcall] at hreturned
      cases hreturned
  · show WaitOk s.inner ((s.resolve ws .woken).waiters w)
    have hold := h.waits w hw
    by_cases hmem : w ∈ ws
    · -- a queued waiter's call has not been cleaned up
      rw [hin hmem]
      have hdone : ¬ (s.waiters w).phase.Done :=
        fun hd => h.placed.settled w hd (hqueued w hmem)
      unfold WaitOk at hold ⊢
      generalize hp : (s.waiters w).phase = phase at hold hdone
      cases phase with
      | scheduled | loadState | loadBucket | locking => exact nofun
      | cleaned | returned => exact absurd trivial hdone
    · rw [hout hmem]
      exact hold
  · show w ∈ s.succeeded ↔ ((s.resolve ws .woken).waiters w).phase = .returned .ok
    rw [h.succeeded]
    by_cases hw : w ∈ ws
    · rw [hin hw]
    · rw [hout hw]

/-- Requeued waiters only change their bucket. -/
lemma requeue {source : FutexKey} {c : Bool} (h : Conserved s)
    (hperm : (ws ++ (moved ++ kept)).Perm ((s.buckets (bucketIndex source)).queue source)) :
    Conserved (((s.dequeue ws n c).setBucket (bucketIndex source)
      ((s.buckets (bucketIndex source)).setQueue source kept)).insertRequeued target moved) := by
  have hfirst := h.dequeue (n := n) (c := c) hperm
  have hsame (w : Nat) :
      ((((s.dequeue ws n c).setBucket (bucketIndex source)
        ((s.buckets (bucketIndex source)).setQueue source kept)).insertRequeued target
          moved).waiters w) = (s.resolve ws .woken).waiters w ∨
      ((((s.dequeue ws n c).setBucket (bucketIndex source)
        ((s.buckets (bucketIndex source)).setQueue source kept)).insertRequeued target
          moved).waiters w) =
        { (s.resolve ws .woken).waiters w with bucket := bucketIndex target } := by
    by_cases hw : w ∈ moved
    · exact .inr (if_pos hw)
    · exact .inl (if_neg hw)
  refine hfirst.of_waiters (h.placed.requeue hperm) rfl rfl rfl (fun w => ?_) (fun w => ?_)
    fun w hw => ?_
  · rcases hsame w with heq | heq <;> rw [heq] <;> rfl
  · rcases hsame w with heq | heq <;> rw [heq] <;> rfl
  · rcases hsame w with heq | heq <;> rw [heq] <;> exact hfirst.waits w hw

lemma blockCurrentOn {bitset : BitVec 32} (h : Conserved s) (hidle : s.current t = none)
    (hs : s.blockCurrentOn t cpu key bitset = some s') : Conserved s' := by
  have hplaced := h.placed.blockCurrentOn hidle hs
  simp only [State.blockCurrentOn] at hs
  split at hs
  · cases hs
  rename_i i hi
  obtain ⟨-, rfl⟩ := of_guard hs
  have hgone : Gone (s.inner t) → Gone i := by
    intro hg
    obtain ⟨hrun, -⟩ := ite_none_right_eq_some.mp hi
    exact absurd (hg.status.symm.trans hrun.1) (by decide)
  have hfresh := h.placed.fresh s.created (Nat.le_refl _)
  refine h.of_waiters hplaced rfl rfl rfl (fun w => ?_) (fun w => ?_) fun w hw => ?_
  · show (update s.waiters s.created _ w).state = .woken ↔ _
    rcases eq_or_ne w s.created with rfl | hne
    · rw [update_self, hfresh]
      exact iff_of_false (by simp) (by decide)
    · rw [update_of_ne hne]
  · show (update s.waiters s.created _ w).phase = .returned .ok ↔ _
    rcases eq_or_ne w s.created with rfl | hne
    · rw [update_self, hfresh]
      exact iff_of_false (by simp) (by decide)
    · rw [update_of_ne hne]
  · show WaitOk (update s.inner t i) (update s.waiters s.created _ w)
    rcases eq_or_ne w s.created with rfl | hne
    · rw [update_self]
      intro hc
      cases hc
    · rw [update_of_ne hne]
      exact (h.waits w (Nat.lt_of_le_of_ne (Nat.lt_succ_iff.mp hw) hne)).setInner hgone

lemma cleanupSection (h : Conserved s) (hw : w < s.created)
    (hphase : (s.waiters w).phase = .locking b) (hs : s.cleanupSection w b = some s') :
    Conserved s' := by
  have hplaced := h.placed.cleanupSection hw (hphase ▸ trivial) hs
  have hlive : (s.waiters w).state ≠ .cancelled := by
    have hok := h.waits w hw
    rwa [WaitOk, hphase] at hok
  rw [State.cleanupSection] at hs
  split at hs
  · cases hs
    exact h.setPhase hplaced (by simp [hphase]) (by simp) hlive
  split at hs
  next hmem =>
    obtain ⟨-, rfl⟩ := of_guard hs
    have hqueued := (h.placed.of_mem hmem).1
    have hself : (((s.setBucket b ((s.buckets b).retain (· ≠ w))).resolve [w] .cancelled).setPhase w
        (.cleaned .stillQueued)).waiters w =
        { s.waiters w with state := .cancelled, phase := .cleaned .stillQueued } := by
      show update _ w _ w = _
      rw [update_self]
      show ({ (if w ∈ [w] then _ else _ : Waiter) with phase := _ } : Waiter) = _
      rw [if_pos mem_cons_self]
      rfl
    have hother {v : Nat} (hv : v ≠ w) :
        (((s.setBucket b ((s.buckets b).retain (· ≠ w))).resolve [w] .cancelled).setPhase w
          (.cleaned .stillQueued)).waiters v = s.waiters v := by
      show update _ w _ v = _
      rw [update_of_ne hv]
      exact if_neg (by simpa using hv)
    refine h.of_waiters hplaced rfl rfl rfl (fun v => ?_) (fun v => ?_) fun v hv => ?_
    · rcases eq_or_ne v w with rfl | hne
      · rw [hself, hqueued]
        simp
      · rw [hother hne]
    · rcases eq_or_ne v w with rfl | hne
      · rw [hself, hphase]
        simp
      · rw [hother hne]
    · rcases eq_or_ne v w with rfl | hne
      · rw [hself]
        exact rfl
      · rw [hother hne]
        exact h.waits v hv
  · cases hs
    exact h.setPhase hplaced (by simp [hphase]) (by simp) hlive

lemma cleanup (h : Conserved s) (hw : w < s.created) (hs : s.cleanup w = some s') :
    Conserved s' := by
  have hplaced := h.placed.cleanup hw hs
  have hok := h.waits w hw
  rw [State.cleanup] at hs
  split at hs
  next hphase =>
    rw [WaitOk, hphase] at hok
    split at hs
    next hstate =>
      cases hs
      exact h.setPhase hplaced (by simp [hphase]) (by simp) hstate
    next hstate => exact absurd hstate hok
    · cases hs
      exact h.setPhase hplaced (by simp [hphase]) (by simp) hok
  next hphase =>
    rw [WaitOk, hphase] at hok
    cases hs
    exact h.setPhase hplaced (by simp [hphase]) (by simp) hok
  next b hphase => exact h.cleanupSection hw hphase hs
  · cases hs

/-- A task that is gone never resumes the wait that is taken from it. -/
lemma removeTask (h : Conserved s) (hgone : Gone (s.inner t)) (hs : s.removeTask t = some s') :
    Conserved s' := by
  have hplaced := h.placed.removeTask hs
  rw [State.removeTask] at hs
  split at hs
  · cases hs
    exact h
  rename_i b hb
  cases hs
  generalize hws : (s.buckets b).waiters.filter (fun w => (s.waiters w).task = t) = ws at hplaced
  have hmem {w : Nat} (hw : w ∈ ws) :
      (s.waiters w).state = .queued ∧ (s.waiters w).task = t := by
    rw [← hws, mem_filter] at hw
    exact ⟨(h.placed.of_mem hw.1).1, by simpa using hw.2⟩
  have hin {w : Nat} (hw : w ∈ ws) :
      (s.resolve ws .cancelled).waiters w = { s.waiters w with state := .cancelled } := if_pos hw
  have hout {w : Nat} (hw : w ∉ ws) : (s.resolve ws .cancelled).waiters w = s.waiters w :=
    if_neg hw
  refine h.of_waiters hplaced rfl rfl rfl (fun w => ?_) (fun w => ?_) fun w hw => ?_
  · show ((s.resolve ws .cancelled).waiters w).state = .woken ↔ _
    by_cases hw : w ∈ ws
    · rw [hin hw, (hmem hw).1]
      simp
    · rw [hout hw]
  · show ((s.resolve ws .cancelled).waiters w).phase = .returned .ok ↔ _
    by_cases hw : w ∈ ws
    · rw [hin hw]
    · rw [hout hw]
  · show WaitOk s.inner ((s.resolve ws .cancelled).waiters w)
    by_cases hmw : w ∈ ws
    · rw [hin hmw]
      obtain ⟨hqueued, htask⟩ := hmem hmw
      have hdone : ¬ (s.waiters w).phase.Done := fun hd => h.placed.settled w hd hqueued
      have hidle : ¬ (s.waiters w).phase.Active := fun ha =>
        (h.placed.active w ha).2.onCpu (htask ▸ hgone.offCpu)
      unfold WaitOk
      generalize hp : (s.waiters w).phase = phase at hdone hidle
      cases phase with
      | scheduled => exact fun _ => htask ▸ hgone
      | loadState | loadBucket | locking => exact absurd trivial hidle
      | cleaned | returned => exact absurd trivial hdone
    · rw [hout hmw]
      exact h.waits w hw

/-- Success is what a woken wait returns when no signal is there. -/
lemma waitResult_ok {inner : Nat → TaskInner Nat} {x : Waiter} (hok : WaitOk inner x)
    (hphase : x.phase = .cleaned c) (hsignal : x.state = .woken → signal = false) :
    waitResult c expired signal = .ok ↔ x.state = .woken := by
  rw [WaitOk, hphase] at hok
  cases c with
  | woken =>
    rw [hsignal hok]
    exact iff_of_true (by cases expired <;> rfl) hok
  | stillQueued =>
    rw [hok]
    exact iff_of_false (by cases expired <;> cases signal <;> decide) nofun
  | alreadyUnqueued => exact hok.elim

section

variable (h : Conserved s)
include h

lemma finish (hphase : (s.waiters w).phase = .cleaned c)
    (hsignal : (s.waiters w).state = .woken → signal = false) :
    Conserved { s.setPhase w (.returned (waitResult c expired signal)) with
      current := update s.current (s.waiters w).task none
      succeeded := if waitResult c expired signal = .ok then w :: s.succeeded
        else s.succeeded } := by
  have hw : w < s.created := by
    by_contra hno
    rw [h.placed.fresh w (Nat.not_lt.mp hno)] at hphase
    cases hphase
  have hnew : w ∉ s.succeeded := by
    rw [h.succeeded, hphase]
    exact nofun
  have hself : (s.setPhase w (.returned (waitResult c expired signal))).waiters w =
      { s.waiters w with phase := .returned (waitResult c expired signal) } :=
    update_self ..
  have hother {v : Nat} (hv : v ≠ w) :
      (s.setPhase w (.returned (waitResult c expired signal))).waiters v = s.waiters v :=
    update_of_ne hv ..
  refine ⟨h.placed.finish hphase, fun v => ?_, h.wokenOnce, h.balance, h.emptied,
    fun v hv => ?_, fun v => ?_, ?_⟩
  · show v ∈ s.woken ↔ ((s.setPhase w _).waiters v).state = .woken
    rw [h.woken]
    rcases eq_or_ne v w with rfl | hne
    · rw [hself]
    · rw [hother hne]
  · rcases eq_or_ne v w with rfl | hne
    · rw [hself]
      exact waitResult_ok (x := s.waiters v) (h.waits v hw) hphase hsignal
    · rw [hother hne]
      exact h.waits v hv
  · rcases eq_or_ne v w with rfl | hne
    · rw [hself]
      split
      next hok => exact iff_of_true mem_cons_self (hok ▸ rfl)
      next hno => exact iff_of_false hnew fun heq => hno (Phase.returned.inj heq)
    · rw [hother hne, ← h.succeeded]
      split
      · rw [mem_cons, or_iff_right hne]
      · rfl
  · split
    · exact nodup_cons.mpr ⟨hnew, h.succeededOnce⟩
    · exact h.succeededOnce

lemma dispatch (hs : s.dispatch t cpu = some s') : Conserved s' := by
  have hplaced := h.placed.dispatch hs
  obtain ⟨hready, hs⟩ := ite_none_right_eq_some.mp hs
  have hrun := h.setInner (.dispatch cpu hready)
  split at hs
  next w hw =>
    split at hs
    next hphase =>
      cases hs
      obtain ⟨htask, hlt⟩ := h.placed.current t w hw
      refine hrun.setPhase hplaced (hphase ▸ nofun) nofun fun hc => ?_
      -- a cancelled waiter's task would be gone, and this one was ready
      have hok := h.waits w hlt
      rw [WaitOk, hphase] at hok
      have hg := hok hc
      rw [htask] at hg
      exact absurd (hready.1.symm.trans hg.status) (by decide)
    · cases hs
      exact hrun
  · cases hs
    exact hrun

/-- The waiter that is woken moves from the pending ones to the count. -/
lemma wakeNext (hcall : s.calls[i]? = some call)
    (hasleep : ∀ w ∈ call.pending.head?, Asleep (s.inner (s.waiters w).task))
    (hs : s.wakeNext i call = some s') : Conserved s' := by
  rw [State.wakeNext] at hs
  split at hs
  · cases hs
  rename_i w pending hpending
  obtain ⟨r, hr, rfl⟩ := map_eq_some_iff.mp hs
  have hanswer : r.2.answer = true := answer_of_asleep (hasleep w (by rw [hpending]; rfl)) hr
  have hopen : call.returned = false := by
    by_contra hreturned
    have hempty := h.emptied call (mem_of_getElem? hcall) (by simpa using hreturned)
    simp [hempty] at hpending
  have hinner := h.setInner (.wakeup hr)
  refine { hinner with
    placed := hinner.placed.of_same rfl rfl rfl rfl rfl rfl
    balance := ?_
    emptied := fun call' hcall' hreturned => ?_ }
  swap
  · rcases mem_or_eq_of_mem_set hcall' with hcall' | rfl
    · exact h.emptied call' hcall' hreturned
    · simp [hopen] at hreturned
  have hset := sum_map_set WakeCall.share { call with
    pending := pending, woken := call.woken + if r.2.answer then 1 else 0 } hcall
  have hbalance := h.balance
  have hshare : WakeCall.share { call with
      pending := pending, woken := call.woken + if r.2.answer then 1 else 0 } = call.share := by
    simp only [WakeCall.share, hpending, hanswer, hopen, if_true, Bool.false_eq_true, if_false,
      length_cons]
    omega
  show ((s.calls.set i _).map WakeCall.share).sum = s.woken.length
  omega

/-- A call that returns has counted what it dequeued. -/
lemma wakeReturn (hcall : s.calls[i]? = some call)
    (hdone : call.pending = [] ∧ call.returned = false)
    (hmoved : call.countRequeued = true → call.moved = 0) :
    Conserved { s with calls := s.calls.set i { call with returned := true } } := by
  refine { h with
    placed := h.placed.of_same rfl rfl rfl rfl rfl rfl
    balance := ?_
    emptied := fun call' hcall' hreturned => ?_ }
  swap
  · rcases mem_or_eq_of_mem_set hcall' with hcall' | rfl
    · exact h.emptied call' hcall' hreturned
    · exact hdone.1
  have hset := sum_map_set WakeCall.share { call with returned := true } hcall
  have hbalance := h.balance
  have hold : call.share = call.woken := by simp [WakeCall.share, hdone]
  have hnew : WakeCall.share { call with returned := true } = call.woken := by
    simp only [WakeCall.share, WakeCall.result, if_true]
    split
    next hcount => simp [hmoved hcount]
    · rfl
  show ((s.calls.set i _).map WakeCall.share).sum = s.woken.length
  omega

end

/-- **One event keeps the account**, where it meets the condition. -/
theorem event {e : Event} (h : Conserved s) (hok : StepOk s e) (hs : s.event e = some s') :
    Conserved s' := by
  cases e with
  | wait t cpu key bitset wordMatches expired interrupted =>
    obtain ⟨hidle, hs⟩ := ite_none_left_eq_some.mp hs
    split at hs
    · cases hs
      exact h
    · exact h.blockCurrentOn (not_not.mp hidle) hs
  | finishSwitch t cpu =>
    obtain ⟨r, hr, rfl⟩ := map_eq_some_iff.mp hs
    exact h.setInner (.finishSwitch hr)
  | wakeup t source =>
    obtain ⟨r, hr, rfl⟩ := map_eq_some_iff.mp hs
    exact h.setInner (.wakeup hr)
  | dispatch t cpu => exact h.dispatch hs
  | exit t =>
    cases hs
    exact h.setInner (.exit _)
  | remove t => exact h.removeTask hok hs
  | cleanup w =>
    obtain ⟨hw, hs⟩ := ite_none_right_eq_some.mp hs
    exact h.cleanup hw hs
  | finish w expired signal =>
    simp only [State.event] at hs
    split at hs
    next c hphase =>
      cases hs
      exact h.finish hphase hok
    · cases hs
  | wake key limit bitset =>
    obtain ⟨ws, kept, hperm, rfl⟩ := h.placed.wake_cases hs
    exact h.dequeue hperm
  | requeue source target n m c =>
    rcases h.placed.requeue_cases hs with rfl | ⟨ws, moved, kept, hperm, rfl⟩
    · exact h
    · exact h.requeue hperm
  | wakeNext i =>
    simp only [State.event] at hs
    split at hs
    next call hcall => exact h.wakeNext hcall (hok call hcall) hs
    · cases hs
  | wakeReturn i =>
    simp only [State.event] at hs
    split at hs
    next call hcall =>
      obtain ⟨hdone, rfl⟩ := of_guard hs
      exact h.wakeReturn hcall hdone (hok call hcall)
    · cases hs

lemma boot (inner : Nat → TaskInner Nat) : Conserved (.boot inner) := by
  refine ⟨.boot inner, fun w => ?_, .nil, rfl, nofun, nofun, fun w => ?_, .nil⟩
  · exact iff_of_false nofun nofun
  · exact iff_of_false nofun nofun

lemma reachable (h : system.Reachable StepOk s) : Conserved s := by
  apply h.invariant
  · rintro s ⟨inner, rfl⟩
    exact boot inner
  · exact fun s e s' hinv hok hs => hinv.event hok hs

end Conserved

/-! ## Whole runs -/

/-- The waiter is queued, once in the bucket that it records and in no other bucket, or it is
resolved and in none. -/
def State.InOneBucket (s : State) (w : Nat) : Prop :=
  ((s.waiters w).state = .queued ∧ (s.buckets (s.waiters w).bucket).waiters.count w = 1 ∧
    ∀ b, b ≠ (s.waiters w).bucket → (s.buckets b).waiters.count w = 0) ∨
  ((s.waiters w).state ≠ .queued ∧ ∀ b, (s.buckets b).waiters.count w = 0)

/-- Every wake has returned, and so has every wait that one of them ended. -/
def State.Quiet (s : State) : Prop :=
  (∀ call ∈ s.calls, call.returned = true) ∧
    ∀ w ∈ s.woken, ∃ result, (s.waiters w).phase = .returned result

variable {s : State}

lemma Placed.inOneBucket (h : Placed s) (w : Nat) : s.InOneBucket w := by
  by_cases hq : (s.waiters w).state = .queued
  · refine .inl ⟨hq, ?_, fun b hb => ?_⟩
    · rw [h.copies, if_pos ⟨hq, rfl⟩]
    · rw [h.copies, if_neg fun hc => hb hc.2.symm]
  · refine .inr ⟨hq, fun b => ?_⟩
    rw [h.copies, if_neg fun hc => hq hc.1]

lemma Conserved.result_iff (h : Conserved s) {w : Nat} {result : WaitResult}
    (hphase : (s.waiters w).phase = .returned result) : result = .ok ↔ w ∈ s.woken := by
  have hw : w < s.created := by
    by_contra hno
    rw [h.placed.fresh w (Nat.not_lt.mp hno)] at hphase
    cases hphase
  have hok := h.waits w hw
  rw [WaitOk, hphase] at hok
  rw [h.woken]
  exact hok

/-- The sum of the counts that the wakes have returned. -/
def State.returnedCount (s : State) : Nat :=
  ((s.calls.filter WakeCall.returned).map WakeCall.result).sum

/-- When all is quiet the woken waits are the successful ones, and the counts are of them. -/
lemma Conserved.returnedCount_eq (h : Conserved s) (hquiet : s.Quiet) :
    s.returnedCount = s.succeeded.length := by
  have hperm : s.woken.Perm s.succeeded := by
    refine (perm_ext_iff_of_nodup h.wokenOnce h.succeededOnce).mpr fun w => ?_
    rw [h.succeeded]
    constructor
    · intro hw
      obtain ⟨result, hphase⟩ := hquiet.2 w hw
      exact hphase.trans (congrArg Phase.returned ((h.result_iff hphase).mpr hw))
    · exact fun hphase => (h.result_iff hphase).mp rfl
  have hshare : s.calls.map WakeCall.share = s.calls.map WakeCall.result :=
    map_congr_left fun call hcall => if_pos (hquiet.1 call hcall)
  rw [State.returnedCount, filter_eq_self.mpr hquiet.1, ← hshare, h.balance, hperm.length_eq]

/-- **Futex conservation**: in every run each waiter is in one bucket or resolved, and in every
run whose steps meet the condition a wait succeeds exactly when a wake took it out, and the
counts that the wakes returned add up to the successful waits. -/
theorem futex_conservation (s : State) :
    (system.Reachable System.anyStep s → ∀ w, s.InOneBucket w) ∧ (system.Reachable StepOk s →
        (∀ w result, (s.waiters w).phase = .returned result → (result = .ok ↔ w ∈ s.woken)) ∧
        (s.Quiet → s.returnedCount = s.succeeded.length)) :=
  ⟨fun h w => (Placed.reachable h).inOneBucket w, fun h =>
    ⟨fun _ _ hphase => (Conserved.reachable h).result_iff hphase,
      (Conserved.reachable h).returnedCount_eq⟩⟩

/-- Every task runs on the CPU of its number. -/
def allRunning (t : Nat) : TaskInner Nat := TaskInner.runningOn t

def keyA : FutexKey := .priv 1 4096

def keyB : FutexKey := .priv 1 4100

/-- Two waits on one word; a requeue wakes one and moves the other, which a second wake ends. -/
def requeueTrace : List Event :=
  [.wait 1 1 keyA FUTEX_BITSET_MATCH_ANY true false false, .finishSwitch 1 1,
    .wait 2 2 keyA FUTEX_BITSET_MATCH_ANY true false false, .finishSwitch 2 2,
    .requeue keyA keyB 1 1 false, .wakeNext 0, .wakeReturn 0, .dispatch 1 1, .cleanup 0,
    .wake keyB 1 FUTEX_BITSET_MATCH_ANY, .wakeNext 1, .finish 0 false false, .dispatch 2 1,
    .cleanup 1, .wakeReturn 1, .finish 1 false false]

theorem futex_conservation_requeue :
    ∃ s, system.runWhile StepOk (.boot allRunning) requeueTrace = some s ∧
      s.succeeded = [1, 0] ∧ s.returnedCount = 2 := by
  have hrun : (system.runWhile StepOk (.boot allRunning) requeueTrace).map
      (fun s => (s.succeeded, s.calls.all (·.returned), s.woken, (s.waiters 0).phase,
        (s.waiters 1).phase)) =
      some ([1, 0], true, [1, 0], .returned .ok, .returned .ok) := by decide
  obtain ⟨s, hreach, hs, hvalue⟩ := System.exists_reachable hrun ⟨allRunning, rfl⟩
  simp only [Prod.mk.injEq, List.all_eq_true] at hvalue
  obtain ⟨hsucceeded, hcalls, hwoken, hzero, hone⟩ := hvalue
  have hquiet : s.Quiet := by
    refine ⟨hcalls, fun w hw => ⟨.ok, ?_⟩⟩
    rw [hwoken] at hw
    rcases List.mem_cons.mp hw with rfl | hw
    · exact hone
    · exact List.mem_singleton.mp hw ▸ hzero
  refine ⟨s, hs, hsucceeded, ?_⟩
  rw [((futex_conservation s).2 hreach).2 hquiet, hsucceeded]
  rfl

/-- **A task knows where it waits**: in every run, a queued waiter is in the bucket that its task
records, and is the only queued waiter of that task. -/
theorem task_records_its_waiter {s : State} (h : system.Reachable System.anyStep s) {w : Nat}
    (hw : (s.waiters w).state = .queued) :
    (∃ b, s.futexWaitBucket (s.waiters w).task = some b ∧ (s.buckets b).waiters.count w = 1) ∧
      ∀ v, (s.waiters v).state = .queued → (s.waiters v).task = (s.waiters w).task → v = w := by
  have hplaced := Placed.reachable h
  refine ⟨⟨_, (hplaced.owner w hw).2, ?_⟩, fun v hv ht => hplaced.eq_of_task hw hv ht⟩
  rw [hplaced.copies, if_pos ⟨hw, rfl⟩]

theorem task_records_its_waiter_requeued : ∃ s : State, (s.waiters 1).state = .queued ∧
    ∃ b, s.futexWaitBucket (s.waiters 1).task = some b ∧ (s.buckets b).waiters.count 1 = 1 := by
  have hrun : (system.runWhile System.anyStep (.boot allRunning) (requeueTrace.take 5)).map
      (fun s => (s.waiters 1).state) = some .queued := by decide
  obtain ⟨s, hs, -, hw⟩ := System.exists_reachable hrun ⟨allRunning, rfl⟩
  exact ⟨s, hw, (task_records_its_waiter hs hw).1⟩

/-- A wake ends a wait, and a signal arrives before the wait returns. -/
def signalTrace : List Event :=
  [.wait 1 1 keyA FUTEX_BITSET_MATCH_ANY true false false, .finishSwitch 1 1,
    .wake keyA 1 FUTEX_BITSET_MATCH_ANY, .wakeNext 0, .wakeReturn 0, .dispatch 1 1, .cleanup 0,
    .finish 0 false true]

/-- A timer wakes the task of a waiter, and a wake takes the waiter out before the task runs. -/
def timerTrace : List Event :=
  [.wait 1 1 keyA FUTEX_BITSET_MATCH_ANY true false false, .finishSwitch 1 1, .wakeup 1 .timer,
    .wake keyA 1 FUTEX_BITSET_MATCH_ANY, .wakeNext 0, .wakeReturn 0, .dispatch 1 1, .cleanup 0,
    .finish 0 true false]

/-- **Lost and uncounted wakes**: a counted wake whose wait returns EINTR, and a successful wait
whose wake returned zero. -/
theorem wake_lost_or_uncounted :
    (∃ s, system.runWhile System.anyStep (.boot allRunning) signalTrace = some s ∧
      0 ∈ s.woken ∧ (s.waiters 0).phase = .returned .interrupted ∧
        s.returnedCount = 1 ∧ s.succeeded = []) ∧
    (∃ s, system.runWhile System.anyStep (.boot allRunning) timerTrace = some s ∧
      (s.waiters 0).phase = .returned .ok ∧ s.returnedCount = 0 ∧ s.succeeded = [0] ∧
        s.calls.map WakeCall.result = [0]) := by
  refine ⟨⟨_, rfl, ?_⟩, ⟨_, rfl, ?_⟩⟩ <;> decide

end Whusp.Task.Futex
