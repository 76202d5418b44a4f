import Mathlib.Data.List.Nodup
import Whusp.Task.Futex

/-!
# Futex waiters stay in their buckets

At every lock boundary a queued waiter is once in the bucket that it records and in no other,
and a resolved waiter is in none.  This holds in every run: wakes, requeues across buckets,
timeouts, signals and the cleanup of exited tasks may race in any way.
-/

namespace Whusp.Task.Futex

open Function Whusp.Lib List Option

/-! ## The tasks of the waiters -/

/-- The task executes: it is on a CPU and not on its way off. -/
structure Executing (i : TaskInner Nat) : Prop where
  onCpu : i.onCpu ≠ none
  status : i.taskStatus = .running ∨ i.taskStatus = .exited

/-- The task has exited and left its CPU. -/
structure Gone (i : TaskInner Nat) : Prop where
  status : i.taskStatus = .exited
  offCpu : i.onCpu = none

instance (i : TaskInner Nat) : Decidable (Gone i) :=
  decidable_of_iff (i.taskStatus = .exited ∧ i.onCpu = none)
    ⟨fun h => ⟨h.1, h.2⟩, fun h => ⟨h.1, h.2⟩⟩

/-- The task sleeps and nobody has woken it. -/
def Asleep (i : TaskInner Nat) : Prop := i.taskStatus = .blocked ∧ i.wakePending = false

instance (i : TaskInner Nat) : Decidable (Asleep i) := inferInstanceAs (Decidable (_ ∧ _))

/-- A change of a task that neither stops an executing one nor revives one that is gone. -/
structure Mild (i i' : TaskInner Nat) : Prop where
  executing : Executing i → Executing i'
  gone : Gone i → Gone i'

namespace Mild

variable {i : TaskInner Nat}

lemma exit (i : TaskInner Nat) : Mild i { i with taskStatus := .exited } :=
  ⟨fun h => ⟨h.onCpu, .inr rfl⟩, fun h => ⟨rfl, h.offCpu⟩⟩

lemma dispatch (cpu : Nat) (hready : i.taskStatus = .ready ∧ i.onCpu = none) :
    Mild i { i with taskStatus := .running, onCpu := some cpu } := by
  constructor
  · exact fun he => absurd hready.2 he.onCpu
  · exact fun hg => absurd (hready.1.symm.trans hg.status) (by decide)

lemma wakeup {front : Bool} {r : TaskInner Nat × WakeOutcome}
    (h : i.wakeupSection front = some r) : Mild i r.1 := by
  by_cases hb : i.taskStatus = .blocked
  · constructor
    · intro he
      rcases he.status with hs | hs <;> exact absurd (hb.symm.trans hs) (by decide)
    · exact fun hg => absurd (hb.symm.trans hg.status) (by decide)
  · rw [TaskInner.wakeupSection_of_not_blocked hb] at h
    cases h
    exact ⟨id, id⟩

/-- The switch of a blocking task is the only one that completes here. -/
lemma finishSwitch {cpu : Nat} {r : TaskInner Nat × Option Bool}
    (h : i.finishSwitch cpu .block = some r) : Mild i r.1 := by
  obtain ⟨hcpu, h⟩ := ite_none_right_eq_some.mp h
  obtain ⟨hb, -⟩ := ite_none_right_eq_some.mp h
  constructor
  · intro he
    rcases he.status with hs | hs <;> exact absurd (hb.symm.trans hs) (by decide)
  · exact fun hg => absurd (hb.symm.trans hg.status) (by decide)

end Mild

lemma answer_of_asleep {i : TaskInner Nat} {front : Bool} {r : TaskInner Nat × WakeOutcome}
    (h : Asleep i) (hr : i.wakeupSection front = some r) : r.2.answer = true := by
  simp only [TaskInner.wakeupSection, h.1, h.2] at hr
  split at hr
  · split at hr
    · cases hr
    split at hr
    · cases hr
      rfl
    · cases hr
      split <;> rfl
  next hne => exact absurd trivial hne

/-! ## Waiters stay in their buckets -/

/-- The call runs behind `schedule` and has not returned. -/
def Phase.Active : Phase → Prop
  | .scheduled => False
  | .returned _ => False
  | _ => True

def Phase.Done : Phase → Prop
  | .cleaned _ => True
  | .returned _ => True
  | _ => False

/-- **Placement**: a queued waiter is once in the bucket that it records and in no other, a
resolved waiter is in none. -/
structure Placed (s : State) : Prop where
  copies : ∀ b w, (s.buckets b).waiters.count w =
    if (s.waiters w).state = .queued ∧ (s.waiters w).bucket = b then 1 else 0
  owner : ∀ w, (s.waiters w).state = .queued →
    s.current (s.waiters w).task = some w ∧
      s.futexWaitBucket (s.waiters w).task = some (s.waiters w).bucket
  active : ∀ w, (s.waiters w).phase.Active →
    s.current (s.waiters w).task = some w ∧ Executing (s.inner (s.waiters w).task)
  settled : ∀ w, (s.waiters w).phase.Done → (s.waiters w).state ≠ .queued
  current : ∀ t w, s.current t = some w → (s.waiters w).task = t ∧ w < s.created
  fresh : ∀ w, s.created ≤ w → s.waiters w = State.noWaiter

namespace Placed

variable {s s' : State} {t w b : Nat} {key target : FutexKey} {ws kept moved : List Nat}

lemma of_mem (h : Placed s) (hw : w ∈ (s.buckets b).waiters) :
    (s.waiters w).state = .queued ∧ (s.waiters w).bucket = b := by
  by_contra hno
  have hcount := h.copies b w
  rw [if_neg hno] at hcount
  exact absurd (count_pos_iff.mpr hw) (by omega)

lemma queue_mem (hw : w ∈ (s.buckets b).queue key) : w ∈ (s.buckets b).waiters := by
  obtain ⟨e, he, rfl⟩ := mem_map.mp hw
  exact mem_map_of_mem (mem_of_mem_filter he)

lemma queue_count_le (bucket : Bucket) (key : FutexKey) (w : Nat) :
    (bucket.queue key).count w ≤ bucket.waiters.count w :=
  ((filter_sublist).map Prod.snd).count_le w

lemma queue_queued (h : Placed s) : ∀ w ∈ (s.buckets b).queue key, (s.waiters w).state = .queued :=
  fun _ hw => (h.of_mem (queue_mem hw)).1

/-- A queued waiter is the only one of its task. -/
lemma eq_of_task (h : Placed s) {v : Nat} (hw : (s.waiters w).state = .queued)
    (hv : (s.waiters v).state = .queued)
    (ht : (s.waiters v).task = (s.waiters w).task) : v = w := by
  have h1 := (h.owner v hv).1
  rw [ht, (h.owner w hw).1] at h1
  exact (some.inj h1).symm

/-- The logs and the calls do not matter. -/
lemma of_same (h : Placed s) (hbuckets : s'.buckets = s.buckets) (hwaiters : s'.waiters = s.waiters)
    (hcurrent : s'.current = s.current) (hinner : s'.inner = s.inner)
    (hindex : s'.futexWaitBucket = s.futexWaitBucket) (hcreated : s'.created = s.created) :
    Placed s' := by
  constructor
  · rw [hbuckets, hwaiters]
    exact h.copies
  · rw [hwaiters, hcurrent, hindex]
    exact h.owner
  · rw [hwaiters, hcurrent, hinner]
    exact h.active
  · rw [hwaiters]
    exact h.settled
  · rw [hwaiters, hcurrent, hcreated]
    exact h.current
  · rw [hwaiters, hcreated]
    exact h.fresh

lemma setInner {i : TaskInner Nat} (h : Placed s) (hi : Mild (s.inner t) i) :
    Placed (s.setInner t i) := by
  refine { h with active := fun w hw => ?_ }
  obtain ⟨hcur, hexec⟩ := h.active w hw
  refine ⟨hcur, ?_⟩
  show Executing (update s.inner t i (s.waiters w).task)
  by_cases ht : (s.waiters w).task = t
  · rw [ht, update_self]
    exact hi.executing (ht ▸ hexec)
  · rw [update_of_ne ht]
    exact hexec

/-- The place in the call matters only for whether the task executes. -/
lemma setPhase {phase : Phase} (h : Placed s) (hw : w < s.created)
    (hactive : phase.Active → s.current (s.waiters w).task = some w ∧
      Executing (s.inner (s.waiters w).task))
    (hdone : phase.Done → (s.waiters w).state ≠ .queued) : Placed (s.setPhase w phase) := by
  have hkeep (v : Nat) : (s.setPhase w phase).waiters v =
      { s.waiters v with phase := if v = w then phase else (s.waiters v).phase } := by
    rcases eq_or_ne v w with rfl | hv <;> simp [State.setPhase, *]
  refine ⟨fun b v => ?_, fun v hq => ?_, fun v ha => ?_, fun v hd => ?_, fun t v hc => ?_,
    fun v hv => ?_⟩
  · rw [hkeep]
    exact h.copies b v
  · rw [hkeep] at hq ⊢
    exact h.owner v hq
  · rw [hkeep] at ha ⊢
    dsimp only at ha
    split at ha
    next hv => exact hv ▸ hactive ha
    · exact h.active v ha
  · rw [hkeep] at hd ⊢
    split at hd
    next hv => exact hv ▸ hdone hd
    · exact h.settled v hd
  · rw [hkeep]
    exact h.current t v hc
  · rw [hkeep, if_neg (Nat.ne_of_gt (Nat.lt_of_lt_of_le hw hv))]
    exact h.fresh v hv

variable {bucket : Bucket} {c : Bool} {n cpu : Nat} {bitset : BitVec 32} {source : FutexKey}

/-- **Resolution**: waiters that leave their bucket get a final state in the same section. -/
theorem resolve {state : WaiterState} (h : Placed s) (hstate : state ≠ .queued)
    (hws : ∀ w ∈ ws, w ∈ (s.buckets b).waiters)
    (hcount : ∀ w, bucket.waiters.count w = if w ∈ ws then 0 else (s.buckets b).waiters.count w) :
    Placed ((s.resolve ws state).setBucket b bucket) := by
  have hin {w : Nat} (hw : w ∈ ws) :
      ((s.resolve ws state).waiters w) = { s.waiters w with state } := if_pos hw
  have hout {w : Nat} (hw : w ∉ ws) : (s.resolve ws state).waiters w = s.waiters w := if_neg hw
  have hsame (w : Nat) : ((s.resolve ws state).waiters w).phase = (s.waiters w).phase ∧
      ((s.resolve ws state).waiters w).task = (s.waiters w).task := by
    by_cases hw : w ∈ ws
    · rw [hin hw]
      simp
    · rw [hout hw]
      simp
  refine ⟨fun b' w => ?_, fun w hq => ?_, fun w ha => ?_, fun w hd => ?_, fun t w hc => ?_,
    fun w hw => ?_⟩
  · show (update s.buckets b bucket b').waiters.count w =
      if ((s.resolve ws state).waiters w).state = .queued ∧
        ((s.resolve ws state).waiters w).bucket = b' then 1 else 0
    by_cases hw : w ∈ ws
    · -- it was in this bucket only
      have hold := h.of_mem (hws w hw)
      rw [hin hw, if_neg fun hc => hstate hc.1]
      rcases eq_or_ne b' b with rfl | hb
      · rw [update_self, hcount, if_pos hw]
      · rw [update_of_ne hb, h.copies, if_neg fun hc => hb (hc.2.symm.trans hold.2)]
    · rw [hout hw]
      rcases eq_or_ne b' b with rfl | hb
      · rw [update_self, hcount, if_neg hw, h.copies]
      · rw [update_of_ne hb, h.copies]
  · replace hq : ((s.resolve ws state).waiters w).state = .queued := hq
    by_cases hw : w ∈ ws
    · rw [hin hw] at hq
      exact absurd hq hstate
    rw [hout hw] at hq
    show s.current ((s.resolve ws state).waiters w).task = _ ∧
      (if ((s.resolve ws state).waiters w).task ∈ ws.map (fun w => (s.waiters w).task) then none
        else s.futexWaitBucket ((s.resolve ws state).waiters w).task) =
        some ((s.resolve ws state).waiters w).bucket
    rw [hout hw]
    refine ⟨(h.owner w hq).1, ?_⟩
    rw [if_neg]
    · exact (h.owner w hq).2
    -- another queued waiter of the same task would be this one
    intro hm
    obtain ⟨v, hv, ht⟩ := mem_map.mp hm
    exact hw (h.eq_of_task hq (h.of_mem (hws v hv)).1 ht ▸ hv)
  · replace ha : ((s.resolve ws state).waiters w).phase.Active := ha
    rw [(hsame w).1] at ha
    show s.current ((s.resolve ws state).waiters w).task = _ ∧
      Executing (s.inner ((s.resolve ws state).waiters w).task)
    rw [(hsame w).2]
    exact h.active w ha
  · replace hd : ((s.resolve ws state).waiters w).phase.Done := hd
    rw [(hsame w).1] at hd
    show ((s.resolve ws state).waiters w).state ≠ .queued
    by_cases hw : w ∈ ws
    · rw [hin hw]
      exact hstate
    · rw [hout hw]
      exact h.settled w hd
  · show ((s.resolve ws state).waiters w).task = t ∧ w < s.created
    rw [(hsame w).2]
    exact h.current t w hc
  · have hnot : w ∉ ws := fun hm => by
      have hq := (h.of_mem (hws w hm)).1
      rw [h.fresh w hw] at hq
      exact absurd hq (by decide)
    exact (hout hnot).trans (h.fresh w hw)

section

variable (h : Placed s) (hperm : (ws ++ kept).Perm ((s.buckets b).queue key))
include h hperm

/-- What a wake loop takes out of the queue of a key. -/
lemma count_of_perm (w : Nat) :
    ((s.buckets b).setQueue key kept).waiters.count w =
      if w ∈ ws then 0 else (s.buckets b).waiters.count w := by
  have hset := Bucket.count_setQueue (s.buckets b) key kept w
  have hq := hperm.count_eq w
  rw [count_append] at hq
  split
  next hw =>
    have hpos := count_pos_iff.mpr hw
    have hle : (s.buckets b).waiters.count w ≤ 1 := by
      rw [h.copies]
      split <;> decide
    omega
  next hw =>
    have hzero := count_eq_zero_of_not_mem hw
    omega

lemma dequeue :
    Placed ((s.dequeue ws n c).setBucket b ((s.buckets b).setQueue key kept)) := by
  have hws : ∀ w ∈ ws, w ∈ (s.buckets b).waiters :=
    fun w hw => queue_mem (hperm.subset (mem_append_left _ hw))
  have hresolved : Placed ((s.resolve ws .woken).setBucket b ((s.buckets b).setQueue key kept)) :=
    h.resolve nofun hws (h.count_of_perm hperm)
  exact hresolved.of_same rfl rfl rfl rfl rfl rfl

end

/-- **Requeue**: waiters that leave a bucket for another record the new one. -/
theorem move (h : Placed s) (hmoved : ∀ w ∈ moved, w ∈ (s.buckets b).waiters)
    (hcount : ∀ w, bucket.waiters.count w + moved.count w = (s.buckets b).waiters.count w) :
    Placed ((s.setBucket b bucket).insertRequeued target moved) := by
  have hin {w : Nat} (hw : w ∈ moved) :
      ((s.setBucket b bucket).insertRequeued target moved).waiters w =
        { s.waiters w with bucket := bucketIndex target } := if_pos hw
  have hout {w : Nat} (hw : w ∉ moved) :
      ((s.setBucket b bucket).insertRequeued target moved).waiters w = s.waiters w := if_neg hw
  refine ⟨fun b' w => ?_, fun w hq => ?_, fun w ha => ?_, fun w hd => ?_, fun t w hc => ?_,
    fun w hw => ?_⟩
  · -- the copies are counted in the target bucket after they left this one
    have hleft : ((s.setBucket b bucket).buckets b').waiters.count w +
        (if b' = b then moved.count w else 0) = (s.buckets b').waiters.count w := by
      show (update s.buckets b bucket b').waiters.count w + _ = _
      rcases eq_or_ne b' b with rfl | hb
      · rw [update_self, if_pos rfl, hcount]
      · rw [update_of_ne hb, if_neg hb]
        rfl
    have hnew : (((s.setBucket b bucket).insertRequeued target moved).buckets b').waiters.count w =
        ((s.setBucket b bucket).buckets b').waiters.count w +
          if b' = bucketIndex target then moved.count w else 0 := by
      show (update (s.setBucket b bucket).buckets (bucketIndex target) _ b').waiters.count w
        = _
      rcases eq_or_ne b' (bucketIndex target) with rfl | hb
      · rw [update_self, if_pos rfl, Bucket.count_pushAll]
      · rw [update_of_ne hb, if_neg hb]
        rfl
    have hold := h.copies b' w
    by_cases hw : w ∈ moved
    · have hqueued := h.of_mem (hmoved w hw)
      have hone : moved.count w = 1 := by
        have hb := hcount w
        rw [h.copies, if_pos hqueued] at hb
        have hpos := count_pos_iff.mpr hw
        omega
      rw [hnew, hin hw]
      simp only [hqueued.1, hqueued.2, true_and] at hold ⊢
      rw [hold] at hleft
      split_ifs at hleft ⊢ <;> omega
    · have hzero := count_eq_zero_of_not_mem hw
      rw [hnew, hout hw, ← hold, ← hleft, hzero]
      simp
  · by_cases hw : w ∈ moved
    · have hqueued := h.of_mem (hmoved w hw)
      rw [hin hw]
      refine ⟨(h.owner w hqueued.1).1, ?_⟩
      exact if_pos (mem_map.mpr ⟨w, hw, rfl⟩)
    · rw [hout hw] at hq ⊢
      refine ⟨(h.owner w hq).1, ?_⟩
      refine (if_neg fun hm => ?_).trans (h.owner w hq).2
      obtain ⟨v, hv, ht⟩ := mem_map.mp hm
      exact hw (h.eq_of_task hq (h.of_mem (hmoved v hv)).1 ht ▸ hv)
  · by_cases hw : w ∈ moved
    · rw [hin hw] at ha ⊢
      exact h.active w ha
    · rw [hout hw] at ha ⊢
      exact h.active w ha
  · by_cases hw : w ∈ moved
    · rw [hin hw] at hd ⊢
      exact h.settled w hd
    · rw [hout hw] at hd ⊢
      exact h.settled w hd
  · by_cases hw : w ∈ moved
    · rw [hin hw]
      exact h.current t w hc
    · rw [hout hw]
      exact h.current t w hc
  · have hnot : w ∉ moved := fun hm => by
      have hq := (h.of_mem (hmoved w hm)).1
      rw [h.fresh w hw] at hq
      exact absurd hq (by decide)
    exact (hout hnot).trans (h.fresh w hw)

/-- What the bucket section of a wake does. -/
lemma wake_cases {limit : Nat} (h : Placed s) (hs : s.wake key limit bitset = some s') :
    ∃ ws kept, (ws ++ kept).Perm ((s.buckets (bucketIndex key)).queue key) ∧
      s' = (s.dequeue ws 0 false).setBucket (bucketIndex key)
        ((s.buckets (bucketIndex key)).setQueue key kept) := by
  obtain ⟨-, rfl⟩ := of_guard hs
  refine ⟨_, _, ?_, rfl⟩
  split
  · rw [wakeOne_eq_wakeLoop]
    exact wakeLoop_perm 1 h.queue_queued
  · exact wakeLoop_perm limit h.queue_queued

/-- What the bucket section of a requeue does. -/
lemma requeue_cases {m : Nat} (h : Placed s) (hs : s.requeue source target n m c = some s') :
    s' = s ∨ ∃ ws moved kept,
      (ws ++ (moved ++ kept)).Perm ((s.buckets (bucketIndex source)).queue source) ∧
      s' = ((s.dequeue ws moved.length c).setBucket (bucketIndex source)
        ((s.buckets (bucketIndex source)).setQueue source kept)).insertRequeued target moved := by
  rw [State.requeue] at hs
  split at hs
  · exact .inl (some.inj hs).symm
  · obtain ⟨-, rfl⟩ := of_guard hs
    exact .inr ⟨_, _, _, takeRequeueSource_perm n m h.queue_queued, rfl⟩

section

variable (h : Placed s)
include h

lemma requeue
    (hperm : (ws ++ (moved ++ kept)).Perm ((s.buckets (bucketIndex source)).queue source)) :
    Placed (((s.dequeue ws n c).setBucket (bucketIndex source)
      ((s.buckets (bucketIndex source)).setQueue source kept)).insertRequeued target moved) := by
  -- first the woken ones leave, then the moved ones
  have hfirst := h.dequeue (n := n) (c := c) hperm
  have hsame : ((s.dequeue ws n c).setBucket (bucketIndex source)
      ((s.buckets (bucketIndex source)).setQueue source kept)) =
      ((s.dequeue ws n c).setBucket (bucketIndex source)
        ((s.buckets (bucketIndex source)).setQueue source (moved ++ kept))).setBucket
        (bucketIndex source) ((s.buckets (bucketIndex source)).setQueue source kept) := by
    simp [State.setBucket]
  have hbucket : ((s.dequeue ws n c).setBucket (bucketIndex source)
      ((s.buckets (bucketIndex source)).setQueue source (moved ++ kept))).buckets
        (bucketIndex source) = (s.buckets (bucketIndex source)).setQueue source (moved ++ kept) :=
    update_self ..
  have hcount (w : Nat) := Bucket.count_setQueue (s.buckets (bucketIndex source)) source
  rw [hsame]
  refine hfirst.move (fun w hw => ?_) fun w => ?_
  · rw [hbucket]
    apply count_pos_iff.mp
    have hpos : 0 < (moved ++ kept).count w :=
      count_pos_iff.mpr (mem_append_left _ hw)
    have hin := queue_count_le (s.buckets (bucketIndex source)) source w
    have hset := hcount w (moved ++ kept) w
    omega
  · rw [hbucket]
    have hall := hcount w (moved ++ kept) w
    have hkept := hcount w kept w
    rw [count_append] at hall
    omega

/-- A new waiter is queued and blocks its task. -/
lemma blockCurrentOn (hidle : s.current t = none)
    (hs : s.blockCurrentOn t cpu key bitset = some s') : Placed s' := by
  simp only [State.blockCurrentOn] at hs
  split at hs
  · cases hs
  rename_i i hi
  obtain ⟨-, rfl⟩ := of_guard hs
  have hnone {w : Nat} (hc : s.current (s.waiters w).task = some w) : (s.waiters w).task ≠ t := by
    rintro rfl
    exact absurd (hidle.symm.trans hc) nofun
  have hqueued {w : Nat} (hq : (s.waiters w).state = .queued) : w ≠ s.created := by
    rintro rfl
    rw [h.fresh _ (Nat.le_refl _)] at hq
    exact absurd hq (by decide)
  refine ⟨fun b w => ?_, fun w hq => ?_, fun w ha => ?_, fun w hd => ?_, fun u w hc => ?_,
    fun w hw => ?_⟩
  · show (update s.buckets (bucketIndex key) _ b).waiters.count w =
      if (update s.waiters s.created _ w).state = .queued ∧
        (update s.waiters s.created _ w).bucket = b then 1 else 0
    rcases eq_or_ne w s.created with rfl | hw
    · have hold : (s.buckets b).waiters.count s.created = 0 := by
        rw [h.copies, if_neg fun hc => hqueued hc.1 rfl]
      rw [update_self]
      rcases eq_or_ne b (bucketIndex key) with rfl | hb
      · rw [update_self, Bucket.count_pushAll, hold, if_pos ⟨rfl, rfl⟩]
        simp
      · rw [update_of_ne hb, hold, if_neg fun hc => hb hc.2.symm]
    · rw [update_of_ne hw, ← h.copies b w]
      rcases eq_or_ne b (bucketIndex key) with rfl | hb
      · have hnone : [s.created].count w = 0 :=
          count_eq_zero_of_not_mem (by simpa using hw)
        rw [update_self, Bucket.count_pushAll, hnone, Nat.add_zero]
      · rw [update_of_ne hb]
  · replace hq : (update s.waiters s.created _ w).state = .queued := hq
    show update s.current t (some s.created)
        (update s.waiters s.created _ w).task = some w ∧
      update s.futexWaitBucket t (some (bucketIndex key))
        (update s.waiters s.created _ w).task =
          some (update s.waiters s.created _ w).bucket
    rcases eq_or_ne w s.created with rfl | hw
    · simp
    · rw [update_of_ne hw] at hq ⊢
      have hne := hnone (h.owner w hq).1
      rw [update_of_ne hne, update_of_ne hne]
      exact h.owner w hq
  · replace ha : (update s.waiters s.created _ w).phase.Active := ha
    show update s.current t (some s.created)
        (update s.waiters s.created _ w).task = some w ∧
      Executing (update s.inner t i (update s.waiters s.created _ w).task)
    rcases eq_or_ne w s.created with rfl | hw
    · rw [update_self] at ha
      exact ha.elim
    · rw [update_of_ne hw] at ha ⊢
      have hne := hnone (h.active w ha).1
      rw [update_of_ne hne, update_of_ne hne]
      exact h.active w ha
  · replace hd : (update s.waiters s.created _ w).phase.Done := hd
    show (update s.waiters s.created _ w).state ≠ .queued
    rcases eq_or_ne w s.created with rfl | hw
    · rw [update_self] at hd
      exact hd.elim
    · rw [update_of_ne hw] at hd ⊢
      exact h.settled w hd
  · replace hc : update s.current t (some s.created) u = some w := hc
    show (update s.waiters s.created _ w).task = u ∧ w < s.created + 1
    rcases eq_or_ne u t with rfl | hu
    · rw [update_self] at hc
      cases hc
      simp
    · rw [update_of_ne hu] at hc
      have hold := h.current u w hc
      rw [update_of_ne (Nat.ne_of_lt hold.2)]
      exact ⟨hold.1, Nat.lt_succ_of_lt hold.2⟩
  · exact (update_of_ne (Nat.ne_of_gt hw) ..).trans (h.fresh w (Nat.le_of_succ_le hw))

/-- A waiter that a cleanup finds in its bucket leaves it. -/
lemma cleanupSection (hw : w < s.created) (ha : (s.waiters w).phase.Active)
    (hs : s.cleanupSection w b = some s') : Placed s' := by
  have hrun := h.active w ha
  rw [State.cleanupSection] at hs
  split at hs
  · cases hs
    exact h.setPhase hw (fun _ => hrun) nofun
  split at hs
  next hmem =>
    obtain ⟨-, rfl⟩ := of_guard hs
    have hgone : Placed ((s.resolve [w] .cancelled).setBucket b
      ((s.buckets b).retain (· ≠ w))) := by
      refine h.resolve nofun (fun v hv => mem_singleton.mp hv ▸ hmem) fun v => ?_
      rw [Bucket.count_retain]
      simp
    have hself : (s.resolve [w] .cancelled).waiters w = { s.waiters w with state := .cancelled } :=
      if_pos mem_cons_self
    refine hgone.setPhase hw (fun _ => ?_) fun _ => ?_
    · show s.current ((s.resolve [w] .cancelled).waiters w).task = some w ∧
        Executing (s.inner ((s.resolve [w] .cancelled).waiters w).task)
      rw [hself]
      exact hrun
    · show ((s.resolve [w] .cancelled).waiters w).state ≠ .queued
      rw [hself]
      exact nofun
  · cases hs
    exact h.setPhase hw (fun _ => hrun) nofun

lemma cleanup (hw : w < s.created) (hs : s.cleanup w = some s') : Placed s' := by
  rw [State.cleanup] at hs
  split at hs
  next hphase =>
    have hrun := h.active w (hphase ▸ trivial)
    split at hs
    next hstate =>
      cases hs
      exact h.setPhase hw (fun _ => hrun) fun _ => hstate ▸ nofun
    next hstate =>
      cases hs
      exact h.setPhase hw (fun _ => hrun) fun _ => hstate ▸ nofun
    · cases hs
      exact h.setPhase hw (fun _ => hrun) nofun
  next hphase =>
    have hrun := h.active w (hphase ▸ trivial)
    cases hs
    exact h.setPhase hw (fun _ => hrun) nofun
  next b hphase => exact h.cleanupSection hw (hphase ▸ trivial) hs
  · cases hs

/-- The waiters of a task leave the bucket that the task records. -/
lemma removeTask (hs : s.removeTask t = some s') : Placed s' := by
  rw [State.removeTask] at hs
  split at hs
  · cases hs
    exact h
  rename_i b hb
  cases hs
  have hgone : Placed ((s.resolve ((s.buckets b).waiters.filter fun w => (s.waiters w).task = t)
      .cancelled).setBucket b ((s.buckets b).retain fun w => (s.waiters w).task ≠ t)) := by
    refine h.resolve nofun (fun w hw => mem_of_mem_filter hw) fun w => ?_
    rw [Bucket.count_retain]
    by_cases hin : w ∈ (s.buckets b).waiters
    · by_cases ht : (s.waiters w).task = t <;> simp [hin, ht]
    · have hzero := count_eq_zero_of_not_mem hin
      simp [hin, hzero]
  refine { hgone with owner := fun w hq => ?_ }
  refine ⟨(hgone.owner w hq).1, ?_⟩
  -- no queued waiter of the task is left
  have hne : (((s.resolve ((s.buckets b).waiters.filter fun w => (s.waiters w).task = t)
      .cancelled)).waiters w).task ≠ t := by
    intro ht
    simp only [State.resolve] at ht hq
    split at hq
    · cases hq
    rename_i hno
    rw [if_neg hno] at ht
    have hrec := (h.owner w hq).2
    rw [ht, hb] at hrec
    apply hno
    apply mem_filter.mpr
    refine ⟨count_pos_iff.mp ?_, by simpa using ht⟩
    rw [h.copies, if_pos ⟨hq, (some.inj hrec).symm⟩]
    simp
  exact (update_of_ne hne ..).trans
    (ite_none_left_eq_some.mp (hgone.owner w hq).2).2

end

/-- The wait returns: its task is free for another one. -/
lemma finish {c : Cleanup} {result : WaitResult} {succeeded : List Nat} (h : Placed s)
    (hphase : (s.waiters w).phase = .cleaned c) : Placed { s.setPhase w (.returned result) with
      current := update s.current (s.waiters w).task none
      succeeded } := by
  have hw : w < s.created := by
    by_contra hno
    rw [h.fresh w (Nat.not_lt.mp hno)] at hphase
    cases hphase
  have hcur := (h.active w (hphase ▸ trivial)).1
  have hstate := h.settled w (hphase ▸ trivial)
  have hret : Placed (s.setPhase w (.returned result)) := h.setPhase hw nofun fun _ => hstate
  have hself : (s.setPhase w (.returned result)).waiters w =
      { s.waiters w with phase := .returned result } := update_self ..
  have htask {v : Nat} (hv : v ≠ w)
      (hc : s.current ((s.setPhase w (.returned result)).waiters v).task = some v) :
      ((s.setPhase w (.returned result)).waiters v).task ≠ (s.waiters w).task := by
    intro ht
    rw [ht, hcur] at hc
    exact hv (some.inj hc).symm
  refine ⟨hret.copies, fun v hq => ?_, fun v ha => ?_, hret.settled, fun t v hc => ?_, hret.fresh⟩
  · rcases eq_or_ne v w with rfl | hv
    · rw [hself] at hq
      exact absurd hq hstate
    · have hold := hret.owner v hq
      exact ⟨(update_of_ne (htask hv hold.1) ..).trans hold.1, hold.2⟩
  · rcases eq_or_ne v w with rfl | hv
    · rw [hself] at ha
      exact ha.elim
    · have hold := hret.active v ha
      exact ⟨(update_of_ne (htask hv hold.1) ..).trans hold.1, hold.2⟩
  · replace hc : update s.current (s.waiters w).task none t = some v := hc
    rcases eq_or_ne t (s.waiters w).task with rfl | ht
    · simp [update_self] at hc
    · rw [update_of_ne ht] at hc
      exact hret.current t v hc

lemma dispatch (h : Placed s) (hs : s.dispatch t cpu = some s') : Placed s' := by
  obtain ⟨hready, hs⟩ := ite_none_right_eq_some.mp hs
  have hrun := h.setInner (.dispatch cpu hready)
  split at hs
  next w hw =>
    split at hs
    next hphase =>
      cases hs
      obtain ⟨htask, hlt⟩ := h.current t w hw
      refine hrun.setPhase hlt (fun _ => ?_) nofun
      show s.current (s.waiters w).task = some w ∧
        Executing (update s.inner t _ (s.waiters w).task)
      rw [htask, update_self]
      exact ⟨hw, nofun, .inl rfl⟩
    · cases hs
      exact hrun
  · cases hs
    exact hrun

lemma boot (inner : Nat → TaskInner Nat) : Placed (.boot inner) :=
  ⟨fun _ _ => rfl, nofun, fun _ ha => ha.elim, fun _ hd => hd.elim, nofun, fun _ _ => rfl⟩

theorem event {e : Event} (h : Placed s) (hs : s.event e = some s') : Placed s' := by
  cases e with
  | wait t cpu key bitset wordMatches expired interrupted =>
    obtain ⟨hidle, hs⟩ := ite_none_left_eq_some.mp hs
    split at hs
    · cases hs
      exact h
    · exact h.blockCurrentOn (not_not.mp hidle) hs
  | finishSwitch t cpu =>
    obtain ⟨r, hr, rfl⟩ := map_eq_some_iff.mp hs
    exact h.setInner (.finishSwitch hr)
  | wakeup t source =>
    obtain ⟨r, hr, rfl⟩ := map_eq_some_iff.mp hs
    exact h.setInner (.wakeup hr)
  | dispatch t cpu => exact h.dispatch hs
  | exit t =>
    cases hs
    exact h.setInner (.exit _)
  | remove t => exact h.removeTask hs
  | cleanup w =>
    obtain ⟨hw, hs⟩ := ite_none_right_eq_some.mp hs
    exact h.cleanup hw hs
  | finish w expired signal =>
    simp only [State.event] at hs
    split at hs
    next c hphase =>
      cases hs
      exact h.finish hphase
    · cases hs
  | wake key limit bitset =>
    obtain ⟨ws, kept, hperm, rfl⟩ := h.wake_cases hs
    exact h.dequeue hperm
  | requeue source target n m c =>
    rcases h.requeue_cases hs with rfl | ⟨ws, moved, kept, hperm, rfl⟩
    · exact h
    · exact h.requeue hperm
  | wakeNext i =>
    simp only [State.event] at hs
    split at hs
    next call hcall =>
      rw [State.wakeNext] at hs
      split at hs
      · cases hs
      next w pending hpending =>
        obtain ⟨r, hr, rfl⟩ := map_eq_some_iff.mp hs
        exact (h.setInner (.wakeup hr)).of_same rfl rfl rfl rfl rfl rfl
    · cases hs
  | wakeReturn i =>
    simp only [State.event] at hs
    split at hs
    next call hcall =>
      obtain ⟨-, rfl⟩ := of_guard hs
      exact h.of_same rfl rfl rfl rfl rfl rfl
    · cases hs

theorem reachable {ok : State → Event → Prop} (h : system.Reachable ok s) : Placed s := by
  apply h.invariant
  · rintro s ⟨inner, rfl⟩
    exact boot inner
  · exact fun s e s' hplaced _ hs => hplaced.event hs

end Placed

end Whusp.Task.Futex
