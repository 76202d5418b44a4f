import Mathlib.Data.List.GetD
import Whusp.Syscall.Sem

/-!
# Semaphore sets stay consistent

Values, wait counts, keys and ids of the sets of `Syscall.Sem`, through every run of its calls.
-/

namespace Whusp.Syscall.Sem

open Function List Option SemValue

open Whusp.Lib (SortedMap System)

/-! ## Array order -/

/-- What one operation means for the values: it gives the next ones, or cannot be done. -/
def applyOp (values : Nat → Int) (op : LinuxSembuf) : Option (Nat → Int) :=
  let next := values op.semNum.toNat + op.semOp.toInt
  if op.semOp = 0 then
    if values op.semNum.toNat = 0 then some values else none
  else if 0 ≤ next ∧ next ≤ SEMVMX then some (update values op.semNum.toNat next)
  else none

def applyOps (values : Nat → Int) (ops : List LinuxSembuf) : Option (Nat → Int) :=
  ops.foldlM applyOp values

/-- The values of a set, with zero where it has no semaphore. -/
def SemSet.valueAt (set : SemSet) (n : Nat) : Int := (set.values.map value).getD n 0

def InRange (values : List Int) : Prop := ∀ x ∈ values, 0 ≤ x ∧ x ≤ SEMVMX

variable {values : List Int}

lemma InRange.getD (h : InRange values) (n : Nat) :
    0 ≤ values.getD n 0 ∧ values.getD n 0 ≤ SEMVMX := by
  by_cases hn : n < values.length
  · rw [getD_eq_getElem _ _ hn]
    exact h _ (getElem_mem hn)
  · rw [getD_eq_default _ _ (Nat.le_of_not_lt hn)]
    decide

variable {n : Nat} {newValues : List Int}

lemma InRange.set (h : InRange values) {x : Int} (h0 : 0 ≤ x) (h1 : x ≤ SEMVMX) :
    InRange (values.set n x) := by
  intro y hy
  rcases mem_or_eq_of_mem_set hy with hy | rfl
  · exact h y hy
  · exact ⟨h0, h1⟩

lemma getD_set_eq_update (hn : n < values.length) (x : Int) :
    (fun i => (values.set n x).getD i 0) = update (fun i => values.getD i 0) n x := by
  funext i
  rcases eq_or_ne i n with rfl | hne
  · rw [update_self, getD_eq_getElem _ _ (by simpa using hn), getElem_set_self]
  · rw [update_of_ne hne, getD_eq_getElem?_getD, getElem?_set_ne hne.symm,
      ← getD_eq_getElem?_getD]

/-- What the scratch values of `try_semop` are. -/
structure Executed (ops : List LinuxSembuf) (values newValues : List Int) : Prop where
  inOrder : applyOps (fun n => values.getD n 0) ops = some fun n => newValues.getD n 0
  range : InRange newValues
  /-- Only semaphores with an operation other than zero change. -/
  others : ∀ n, (∀ op ∈ ops, op.semOp ≠ 0 → op.semNum.toNat ≠ n) →
    newValues.getD n 0 = values.getD n 0
  length : newValues.length = values.length

variable {ops : List LinuxSembuf}

/-- **The scratch values are those of the operations in array order.** -/
theorem execOps_eq_ok (h : InRange values) (hbound : ∀ op ∈ ops, op.semNum.toNat < values.length)
    (hexec : execOps ops values = .ok newValues) : Executed ops values newValues := by
  induction ops generalizing values with
  | nil =>
    cases hexec
    exact ⟨rfl, h, fun _ _ => rfl, rfl⟩
  | cons op ops ih =>
    have hrest : ∀ op ∈ ops, op.semNum.toNat < values.length :=
      fun op' hop => hbound op' (mem_cons_of_mem _ hop)
    have hin := h.getD op.semNum.toNat
    unfold execOps at hexec
    dsimp only at hexec
    split at hexec
    next hzero =>
      split at hexec
      · cases hexec
      rename_i hcurrent
      have hcurrent : values.getD op.semNum.toNat 0 = 0 := Decidable.not_not.mp hcurrent
      obtain ⟨horder, hrange, hothers, hlen⟩ := ih h hrest hexec
      refine ⟨?_, hrange, fun n hn => ?_, hlen⟩
      · unfold applyOps applyOp
        rw [foldlM_cons, if_pos hzero, if_pos hcurrent]
        exact horder
      · exact hothers n fun op' hop => hn op' (mem_cons_of_mem _ hop)
    next hnonzero =>
      split at hexec
      · cases hexec
      split at hexec
      · cases hexec
      rename_i hle
      set next := values.getD op.semNum.toNat 0 + op.semOp.toInt with hnext
      have hpos : 0 ≤ next := by omega
      have hle : next ≤ SEMVMX := Int.not_lt.mp hle
      have hn := hbound op mem_cons_self
      obtain ⟨horder, hrange, hothers, hlen⟩ := ih (h.set hpos hle) (by simpa using hrest) hexec
      refine ⟨?_, hrange, fun n hne => ?_, by simpa using hlen⟩
      · unfold applyOps applyOp
        rw [foldlM_cons, if_neg hnonzero, if_pos ⟨hpos, hle⟩]
        rwa [getD_set_eq_update hn] at horder
      · rw [hothers n fun op' hop => hne op' (mem_cons_of_mem _ hop)]
        have hother := hne op mem_cons_self hnonzero
        rw [getD_eq_getElem?_getD, getElem?_set_ne hother, ← getD_eq_getElem?_getD]

/-- Operations that pass the check name semaphores of the set. -/
lemma checkOps_eq_none {set : SemSet} {caller : SemCaller} (h : checkOps set caller ops = none) :
    ∀ op ∈ ops, op.semNum.toNat < set.values.length := by
  induction ops with
  | nil => exact fun _ hop => nomatch hop
  | cons op ops ih =>
    unfold checkOps at h
    split at h
    · cases h
    rename_i hin
    have htail : checkOps set caller ops = none := by
      split at h
      · split at h
        · cases h
        · exact h
      · split at h
        · cases h
        · exact h
    exact forall_mem_cons.mpr ⟨not_le.mp hin, ih htail⟩

/-! ## Waiters and their counts -/

def SemValue.count (v : SemValue) : SemWaitKind → Nat
  | .nonZero => v.ncnt
  | .zero => v.zcnt

@[simp] lemma SemValue.value_leave (v : SemValue) (kind : SemWaitKind) :
    (v.leave kind).value = v.value := by
  cases kind <;> rfl

@[simp] lemma SemValue.value_enter (v : SemValue) (kind : SemWaitKind) :
    (v.enter kind).value = v.value := by
  cases kind <;> rfl

lemma SemValue.count_leave (v : SemValue) (kind kind' : SemWaitKind) :
    (v.leave kind).count kind' = v.count kind' - if kind = kind' then 1 else 0 := by
  cases kind <;> cases kind' <;> rfl

lemma SemValue.count_enter (v : SemValue) (kind kind' : SemWaitKind) :
    (v.enter kind).count kind' = v.count kind' + if kind = kind' then 1 else 0 := by
  cases kind <;> cases kind' <;> rfl

def SemWaiter.isOn (n : Nat) (kind : SemWaitKind) (w : SemWaiter) : Bool :=
  decide (w.semNum = n) && decide (w.kind = kind)

def queued (waiters : List SemWaiter) (n : Nat) (kind : SemWaitKind) : Nat :=
  waiters.countP (SemWaiter.isOn n kind)

structure Counted (values : List SemValue) (waiters : List SemWaiter) : Prop where
  bound : ∀ w ∈ waiters, w.semNum < values.length
  counts : ∀ n v kind, values[n]? = some v → v.count kind = queued waiters n kind

section Counted

variable {values values' : List SemValue} {waiters waiters' : List SemWaiter} {w : SemWaiter}

lemma Counted.perm (h : Counted values waiters) (hperm : waiters.Perm waiters') :
    Counted values waiters' where
  bound w hw := h.bound w (hperm.mem_iff.mpr hw)
  counts n v kind hv := (h.counts n v kind hv).trans (hperm.countP_eq _)

/-- Only the two counters of a semaphore matter for the count of waiters. -/
lemma Counted.of_counts (h : Counted values waiters)
    (hcounts : ∀ n : Nat, (values'[n]?).map count = (values[n]?).map count) :
    Counted values' waiters := by
  have hlen : values'.length = values.length := by
    apply Nat.le_antisymm
    · apply Nat.le_of_not_lt
      intro hlt
      have hnone := hcounts values.length
      simp [getElem?_eq_getElem hlt] at hnone
    · apply Nat.le_of_not_lt
      intro hlt
      have hnone := hcounts values'.length
      simp [getElem?_eq_getElem hlt] at hnone
  refine ⟨fun w hw => hlen ▸ h.bound w hw, fun n v kind hv => ?_⟩
  have hn := hcounts n
  rw [hv, map_some] at hn
  obtain ⟨v', hv', heq⟩ := map_eq_some_iff.mp hn.symm
  rw [← heq]
  exact h.counts n v' kind hv'

lemma map_value_modify (n : Nat) {f : SemValue → SemValue} (hf : ∀ v, (f v).value = v.value) :
    (values.modify n f).map value = values.map value := by
  apply ext_getElem?
  intro i
  rw [getElem?_map, getElem?_map, getElem?_modify]
  split
  · rw [Option.map_eq_map, Option.map_map]
    exact congrArg (Option.map · _) (funext hf)
  · simp

lemma map_value_release : (w.release values).map value = values.map value :=
  map_value_modify _ fun v => v.value_leave _

lemma map_value_enter : (w.enter values).map value = values.map value :=
  map_value_modify _ fun v => v.value_enter _

/-- A waiter that leaves lowers the counter it was counted in. -/
theorem Counted.release (h : Counted values (w :: waiters)) :
    Counted (w.release values) waiters := by
  refine ⟨fun w' hw' => ?_, fun n v kind hv => ?_⟩
  · unfold SemWaiter.release
    rw [length_modify]
    exact h.bound w' (mem_cons_of_mem _ hw')
  unfold SemWaiter.release at hv
  rw [getElem?_modify] at hv
  obtain ⟨v', hv', rfl⟩ := map_eq_some_iff.mp hv
  have hcount := h.counts n v' kind hv'
  unfold queued at hcount ⊢
  rw [countP_cons] at hcount
  by_cases hn : w.semNum = n
  · rw [if_pos hn, count_leave]
    simp only [SemWaiter.isOn, hn, decide_true, Bool.true_and, decide_eq_true_eq] at hcount ⊢
    omega
  · simpa [SemWaiter.isOn, hn] using hcount

/-- A waiter that enters raises the counter of its kind. -/
theorem Counted.enter (h : Counted values waiters) (hw : w.semNum < values.length) :
    Counted (w.enter values) (waiters ++ [w]) := by
  refine ⟨fun w' hw' => ?_, fun n v kind hv => ?_⟩
  · unfold SemWaiter.enter
    rw [length_modify]
    rcases mem_append.mp hw' with hw' | hw'
    · exact h.bound w' hw'
    · rw [mem_singleton.mp hw']
      exact hw
  · unfold SemWaiter.enter at hv
    rw [getElem?_modify] at hv
    obtain ⟨v', hv', rfl⟩ := map_eq_some_iff.mp hv
    have hcount := h.counts n v' kind hv'
    unfold queued at hcount ⊢
    rw [countP_append, countP_singleton]
    by_cases hn : w.semNum = n
    · rw [if_pos hn, count_enter]
      simp only [SemWaiter.isOn, hn, decide_true, Bool.true_and, decide_eq_true_eq] at hcount ⊢
      omega
    · simpa [SemWaiter.isOn, hn] using hcount

/-- Once every waiter has left, all counters are zero. -/
lemma Counted.releaseAll (h : Counted values waiters) :
    Counted (waiters.foldl (fun values w => w.release values) values) [] := by
  induction waiters generalizing values with
  | nil => exact h
  | cons w waiters ih => exact ih h.release

/-- Releasing waiters does not touch the values. -/
lemma map_value_releaseAll (waiters : List SemWaiter) (values : List SemValue) :
    (waiters.foldl (fun values w => w.release values) values).map value =
      values.map value := by
  induction waiters generalizing values with
  | nil => rfl
  | cons w waiters ih => exact (ih _).trans map_value_release

/-- The waiters of one task leave; `front` are those the loop has passed. -/
lemma Counted.removeLoop (task : Nat) (front : List SemWaiter)
    (h : Counted values (front ++ waiters)) : Counted (SemSet.removeLoop task waiters values).2.1
      (front ++ (SemSet.removeLoop task waiters values).1) := by
  induction waiters generalizing values front with
  | nil => exact h
  | cons w waiters ih =>
    unfold SemSet.removeLoop
    split
    · exact ih front (h.perm perm_middle).release
    · have hstep : Counted values ((front ++ [w]) ++ waiters) := by simpa using h
      simpa using ih _ hstep

lemma map_value_removeLoop (task : Nat) (waiters : List SemWaiter) (values : List SemValue) :
    (SemSet.removeLoop task waiters values).2.1.map value = values.map value := by
  induction waiters generalizing values with
  | nil => rfl
  | cons w waiters ih =>
    unfold SemSet.removeLoop
    split
    · exact (ih _).trans map_value_release
    · exact ih _

end Counted

/-! ## One set -/

structure SemSet.Ok (set : SemSet) : Prop where
  range : InRange (set.values.map value)
  counted : Counted set.values set.waiters

namespace SemSet.Ok

variable {set : SemSet}

lemma new (key : Int) (nsems : Nat) (mode : BitVec 32) (context : SemCreateContext) :
    (SemSet.new key nsems mode context).Ok := by
  constructor
  · intro x hx
    obtain ⟨v, hv, rfl⟩ := mem_map.mp hx
    rw [eq_of_mem_replicate hv]
    decide
  · refine ⟨fun _ hw => (not_mem_nil hw).elim, fun n v kind hv => ?_⟩
    rw [eq_of_mem_replicate (mem_of_getElem? hv)]
    cases kind <;> rfl

/-- Waking all waiters keeps the set in order. -/
lemma wakeWaiters (h : set.Ok) : set.wakeWaiters.Ok := by
  constructor
  · show InRange (map value (foldl _ _ _))
    rw [map_value_releaseAll]
    exact h.range
  · exact h.counted.releaseAll

/-- So does the removal of one task. -/
lemma removeWaiters (h : set.Ok) (task : Nat) : (set.removeWaiters task).Ok := by
  constructor
  · show InRange (map value (SemSet.removeLoop task set.waiters set.values).2.1)
    rw [map_value_removeLoop]
    exact h.range
  · exact Counted.removeLoop task [] h.counted

/-- New values in range, with the counts of the old ones. -/
lemma withValues (h : set.Ok) {values : List SemValue}
    (hrange : InRange (values.map value))
    (hcounts : ∀ n : Nat, (values[n]?).map count = (set.values[n]?).map count) :
    ({ set with values } : SemSet).Ok :=
  ⟨hrange, h.counted.of_counts hcounts⟩

lemma enter (h : set.Ok) {w : SemWaiter} (hw : w.semNum < set.values.length) :
    ({ set with values := w.enter set.values, waiters := set.waiters ++ [w] } : SemSet).Ok := by
  constructor
  · rw [map_value_enter]
    exact h.range
  · exact h.counted.enter hw

end SemSet.Ok

/-! ## The writes of one call -/

/-- What a commit writes: values and pids of the semaphores it names. -/
lemma getElem?_commitOps (pid : Int) (newValues : List Int) (ops : List LinuxSembuf)
    (values : List SemValue) (n : Nat) : (commitOps pid newValues ops values)[n]? =
      (values[n]?).map fun v => if ∃ op ∈ ops, op.semOp ≠ 0 ∧ op.semNum.toNat = n then
        { v with value := newValues.getD n 0, pid := pid } else v := by
  induction ops generalizing values with
  | nil => simp [commitOps]
  | cons op ops ih =>
    have hone : ∀ values : List SemValue, (if op.semOp ≠ 0 then
        values.modify op.semNum.toNat fun v =>
          { v with value := newValues.getD op.semNum.toNat 0, pid := pid }
        else values)[n]? = (values[n]?).map fun v =>
          if op.semOp ≠ 0 ∧ op.semNum.toNat = n then
            { v with value := newValues.getD n 0, pid := pid } else v := by
      intro values
      by_cases hop : op.semOp ≠ 0
      · rw [if_pos hop, getElem?_modify]
        rcases eq_or_ne op.semNum.toNat n with rfl | hn
        · simp only [hop, ne_eq, not_false_eq_true, and_self, if_true, Option.map_eq_map]
        · simp only [hn, and_false, if_false]
          rfl
      · simp only [hop, false_and, if_false, Option.map_id_fun', id]
    unfold commitOps
    rw [ih, hone, Option.map_map]
    congr 1
    funext v
    simp only [comp_apply, mem_cons, exists_eq_or_imp]
    by_cases h1 : op.semOp ≠ 0 ∧ op.semNum.toNat = n
    · by_cases h2 : ∃ op ∈ ops, op.semOp ≠ 0 ∧ op.semNum.toNat = n
      · rw [if_pos h1, if_pos h2, if_pos (.inl h1)]
      · rw [if_pos h1, if_neg h2, if_pos (.inl h1)]
    · simp only [h1, if_false, false_or]

/-- The scratch values are what the set has after the writes. -/
lemma map_value_commitOps (pid : Int) {values : List SemValue}
    (h : Executed ops (values.map value) newValues) :
    (commitOps pid newValues ops values).map value = newValues := by
  have hlen : newValues.length = values.length := by simpa using h.length
  apply ext_getElem?
  intro n
  rw [getElem?_map, getElem?_commitOps, Option.map_map]
  by_cases hn : n < values.length
  · rw [getElem?_eq_getElem hn, getElem?_eq_getElem (hlen ▸ hn), Option.map_some]
    have hnew : newValues.getD n 0 = newValues[n] := getD_eq_getElem _ _ (hlen ▸ hn)
    congr 1
    simp only [comp_apply]
    split
    · exact hnew
    next hnone =>
      have hsame := h.others n fun op hop hnz heq => hnone ⟨op, hop, hnz, heq⟩
      rw [← hnew, hsame, getD_eq_getElem _ _ (by simpa using hn), getElem_map]
  · rw [getElem?_eq_none (Nat.le_of_not_lt hn), getElem?_eq_none (by omega)]
    rfl

/-- A commit leaves the counts of waiters alone. -/
lemma counts_commitOps (pid : Int) (newValues : List Int) (ops : List LinuxSembuf)
    (values : List SemValue) (n : Nat) :
    ((commitOps pid newValues ops values)[n]?).map count =
      (values[n]?).map count := by
  rw [getElem?_commitOps, Option.map_map]
  congr 1
  split
  · funext value
    cases value
    rfl
  · rfl

/-- The operation a task waits for names a semaphore of the set. -/
lemma firstWaitingOp_bound {kind : SemWaitKind} (h : firstWaitingOp ops values = some (n, kind)) :
    n < values.length := by
  induction ops generalizing values with
  | nil => cases h
  | cons op ops ih =>
    unfold firstWaitingOp at h
    split at h
    · cases h
    rename_i hcurrent
    have hin := (List.getElem?_eq_some_iff.mp hcurrent).1
    split at h
    · split at h
      · cases h
        exact hin
      · exact ih h
    · dsimp only at h
      split at h
      · cases h
        exact hin
      · split at h
        · cases h
        · simpa using ih h

/-! ## The table -/

namespace SemManager

/-- The live set `id` has the non-private key. -/
def HasKey (m : SemManager) (key : Int) (id : Nat) : Prop :=
  ∃ set, m.sets.get? id = some set ∧ set.key = key ∧ key ≠ IPC_PRIVATE

structure Ok (m : SemManager) : Prop where
  sets : ∀ id set, m.sets.get? id = some set → set.Ok
  keyed : ∀ key id, m.keyedSets.get? key = some id ↔ m.HasKey key id
  live : ∀ id set, m.sets.get? id = some set → id ∈ m.issued
  /-- Ids are given out in increasing order. -/
  fresh : ∀ id ∈ m.issued, id < m.nextId
  nodup : m.issued.Nodup

variable {m m' : SemManager} {semid : Nat} {set set' : SemSet}

lemma ok_new : Ok new where
  sets _ _ h := nomatch h
  keyed _ _ := ⟨nofun, fun ⟨_, h, _⟩ => nomatch h⟩
  live _ _ h := nomatch h
  fresh _ h := nomatch h
  nodup := .nil

variable {id : Nat} {key : Int}

/-- What it takes for a set to have a key. -/
def Keyed (set : SemSet) (key : Int) : Prop := set.key = key ∧ key ≠ IPC_PRIVATE

/-- A set is found by its key unless it is private. -/
lemma keyed_iff (set : SemSet) (key : Int) :
    Keyed set key ↔ key = set.key ∧ set.key ≠ IPC_PRIVATE := by
  constructor
  · rintro ⟨rfl, hpriv⟩
    exact ⟨rfl, hpriv⟩
  · rintro ⟨rfl, hpriv⟩
    exact ⟨rfl, hpriv⟩

lemma Ok.indexes (h : Ok m) : SortedMap.Indexes Keyed m.keyedSets m.sets := h.keyed

/-- A set may be written back if it keeps its key and its order. -/
theorem Ok.setSet (h : Ok m) (hget : m.sets.get? semid = some set) (hset : set'.Ok)
    (hkey : set'.key = set.key) : Ok (m.setSet semid set') := by
  refine ⟨fun id s hs => ?_, h.indexes.replace hget fun key => ?_, fun id s hs => ?_, h.fresh,
    h.nodup⟩
  · rcases SortedMap.get?_insert_eq_some.mp hs with ⟨-, rfl⟩ | ⟨-, hs⟩
    · exact hset
    · exact h.sets id s hs
  · rw [Keyed, Keyed, hkey]
  · rcases SortedMap.get?_insert_eq_some.mp hs with ⟨rfl, -⟩ | ⟨-, hs⟩
    · exact h.live id set hget
    · exact h.live id s hs

/-! ### Creation -/

lemma skipUsed_of_unused {fuel : Nat} (h : m.sets.get? id = none) : m.skipUsed fuel id = id := by
  cases fuel with
  | zero => rfl
  | succ fuel => simp [skipUsed, containsId, h]

section

variable (h : Ok m)
include h

/-- Every id in use is below the counter. -/
lemma Ok.get?_nextId : m.sets.get? m.nextId = none := by
  cases hget : m.sets.get? m.nextId with
  | none => rfl
  | some set => exact absurd (h.fresh _ (h.live _ set hget)) (lt_irrefl _)

/-- The next id is never in use, so the loop ends at once. -/
lemma Ok.allocId : m.allocId = (m.nextId, { m with nextId := m.nextId + 1 }) := by
  unfold SemManager.allocId
  rw [skipUsed_of_unused h.get?_nextId]

/-- **A fresh set** enters under the next id and, if it has a key, under an unused one. -/
theorem Ok.insertSet (hset : set.Ok)
    (hkey : set.key ≠ IPC_PRIVATE → m.keyedSets.get? set.key = none) :
    Ok (({ m with nextId := m.nextId + 1 } : SemManager).insertSet m.nextId set) := by
  refine ⟨fun id s hs => ?_, h.indexes.insert_fresh h.get?_nextId _ hkey (keyed_iff set),
    fun id s hs => ?_, fun id hid => ?_, ?_⟩
  · rcases SortedMap.get?_insert_eq_some.mp hs with ⟨-, rfl⟩ | ⟨-, hs⟩
    · exact hset
    · exact h.sets id s hs
  · rcases SortedMap.get?_insert_eq_some.mp hs with ⟨rfl, -⟩ | ⟨-, hs⟩
    · exact mem_cons_self
    · exact mem_cons_of_mem _ (h.live id s hs)
  · rcases mem_cons.mp hid with rfl | hid
    · exact Nat.lt_succ_self _
    · exact Nat.lt_succ_of_lt (h.fresh id hid)
  · exact nodup_cons.mpr ⟨fun hmem => absurd (h.fresh _ hmem) (lt_irrefl _), h.nodup⟩

lemma Ok.createSet (hkey : key ≠ IPC_PRIVATE → m.keyedSets.get? key = none)
    (nsems : Nat) (mode : BitVec 32) (context : SemCreateContext) :
    Ok (m.createSet key nsems mode context).2 := by
  unfold SemManager.createSet
  split
  · exact h
  · rw [h.allocId]
    exact h.insertSet (SemSet.Ok.new ..) hkey

/-- `semget` keeps the table in order, whatever it returns. -/
theorem Ok.getOrCreate (key : Int) (nsems : Nat) (semflg : BitVec 32)
    (context : SemCreateContext) (caller : SemCaller) :
    Ok (m.getOrCreate key nsems semflg context caller).2 := by
  unfold SemManager.getOrCreate
  dsimp only
  split
  · exact h
  split
  · exact h
  split
  next hpriv =>
    exact h.createSet (fun hne => absurd hpriv hne) ..
  split
  · split
    · exact h
    split
    · exact h
    split
    · exact h
    split
    · exact h
    · exact h
  next hnone =>
    split
    · exact h
    · exact h.createSet (fun _ => hnone) ..

/-! ### Removal and attributes -/

/-- **`IPC_RMID`**: the set and its key leave together. -/
theorem Ok.removeSet (semid : Nat) (caller : SemCaller) :
    Ok (m.removeSet semid caller).2 := by
  unfold SemManager.removeSet
  split
  · exact h
  rename_i set hget
  split
  · exact h
  have hkept (id : Nat) (s : SemSet) :
      (m.sets.erase semid).get? id = some s ↔ id ≠ semid ∧ m.sets.get? id = some s :=
    SortedMap.get?_erase_eq_some
  refine ⟨fun id s hs => h.sets id s ((hkept id s).mp hs).2,
    h.indexes.erase hkept fun key id => ?_,
    fun id s hs => h.live id s ((hkept id s).mp hs).2, h.fresh, h.nodup⟩
  split
  next hpriv =>
    exact h.indexes.erase_key hget ⟨rfl, hpriv⟩ (fun _ hk => hk.1.symm) key id
  next hpriv =>
    exact h.indexes.keyless hget (fun _ hk => hpriv ((keyed_iff set _).mp hk).2) key id

lemma Ok.setAttrs (semid : Nat) (attrs : SemSetAttrs) (caller : SemCaller) :
    Ok (m.setAttrs semid attrs caller).2 := by
  unfold SemManager.setAttrs
  split
  · exact h
  rename_i set hget
  split
  · exact h
  · have hok := h.sets semid set hget
    exact h.setSet hget ⟨hok.range, hok.counted⟩ rfl

/-! ### Values -/

lemma Ok.setValue (semid semnum : Nat) (rawValue : Int) (caller : SemCaller) :
    Ok (m.setValue semid semnum rawValue caller).2 := by
  unfold SemManager.setValue
  split
  · exact h
  rename_i hraw
  have hraw := Decidable.not_not.mp hraw
  split
  · exact h
  rename_i set hget
  split
  · exact h
  split
  · exact h
  have hok := h.sets semid set hget
  refine h.setSet hget (SemSet.Ok.wakeWaiters (hok.withValues ?_ fun n => ?_)) rfl
  · intro x hx
    obtain ⟨v, hv, rfl⟩ := mem_map.mp hx
    obtain ⟨i, hi⟩ := mem_iff_getElem?.mp hv
    rw [getElem?_modify] at hi
    obtain ⟨v', hv', rfl⟩ := map_eq_some_iff.mp hi
    split
    · exact hraw
    · exact hok.range _ (mem_map_of_mem (mem_of_getElem? hv'))
  · rw [getElem?_modify, Option.map_eq_map, Option.map_map]
    congr 1
    funext v kind
    split
    · cases kind <;> rfl
    · rfl

/-- SETALL keeps the table in order: its values were checked before the first is written. -/
lemma Ok.setAll (semid : Nat) (values : List (BitVec 16)) (caller : SemCaller) :
    Ok (m.setAll semid values caller).2 := by
  unfold SemManager.setAll
  split
  · exact h
  rename_i hrange
  split
  · exact h
  rename_i set hget
  split
  · exact h
  split
  · exact h
  rename_i hlen
  have hlen : values.length = set.values.length := Decidable.not_not.mp hlen
  have hok := h.sets semid set hget
  refine h.setSet hget (SemSet.Ok.wakeWaiters (hok.withValues ?_ fun n => ?_)) rfl
  · intro x hx
    obtain ⟨v, hv, rfl⟩ := mem_map.mp hx
    obtain ⟨i, hi⟩ := mem_iff_getElem?.mp hv
    obtain ⟨v', value, -, hvalue, rfl⟩ := getElem?_zipWith_eq_some.mp hi
    have hle : ¬ SEMVMX < (value.toNat : Int) := by
      intro hlt
      exact hrange (any_eq_true.mpr ⟨value, mem_of_getElem? hvalue, by simpa using hlt⟩)
    exact ⟨Int.natCast_nonneg _, Int.not_lt.mp hle⟩
  · rw [getElem?_zipWith]
    by_cases hn : n < set.values.length
    · rw [getElem?_eq_getElem hn, getElem?_eq_getElem (hlen ▸ hn)]
      refine congrArg some (funext fun kind => ?_)
      cases kind <;> rfl
    · rw [getElem?_eq_none (Nat.le_of_not_lt hn)]

/-- What a `try_semop` may do: all of its operations in array order, or nothing. -/
def AllOrNothing (m : SemManager) (semid : Nat) (ops : List LinuxSembuf) :
    Except SemError Unit × SemManager → Prop
  | (.error _, m') => m' = m
  | (.ok (), m') => ∃ set set', m.sets.get? semid = some set ∧ m'.sets.get? semid = some set' ∧
      applyOps set.valueAt ops = some set'.valueAt ∧
      ∀ id, id ≠ semid → m'.sets.get? id = m.sets.get? id

/-- **One attempt** changes all semaphores of its operations, or nothing. -/
theorem Ok.trySemop (semid : Nat) (ops : List LinuxSembuf) (caller : SemCaller) :
    Ok (m.trySemop semid ops caller).2 ∧
      m.AllOrNothing semid ops (m.trySemop semid ops caller) := by
  unfold SemManager.trySemop
  split
  · exact ⟨h, rfl⟩
  split
  · exact ⟨h, rfl⟩
  split
  · exact ⟨h, rfl⟩
  rename_i set hget
  split
  · exact ⟨h, rfl⟩
  rename_i hcheck
  split
  · exact ⟨h, rfl⟩
  rename_i hexec
  have hok := h.sets semid set hget
  have hdone := execOps_eq_ok hok.range (by simpa using checkOps_eq_none hcheck) hexec
  have hvalues := map_value_commitOps (pidToI32 caller.pid) hdone
  refine ⟨h.setSet hget (SemSet.Ok.wakeWaiters (hok.withValues ?_ ?_)) rfl, set, _, hget,
    SortedMap.get?_insert_self, ?_, fun id hne => SortedMap.get?_insert_of_ne hne⟩
  · rw [hvalues]
    exact hdone.range
  · exact counts_commitOps _ _ _ _
  · -- waking the waiters leaves the values
    refine hdone.inOrder.trans (congrArg some (funext fun n => ?_))
    show _ = (map value (foldl _ _ _)).getD n 0
    rw [map_value_releaseAll, hvalues]

/-- A task is queued at a semaphore of the set and counted there. -/
lemma Ok.blockCurrentOnFirstWait (semid : Nat) (ops : List LinuxSembuf) (task : Nat)
    (interrupting : Bool) : Ok (m.blockCurrentOnFirstWait semid ops task interrupting).2 := by
  unfold SemManager.blockCurrentOnFirstWait
  split
  · exact h
  rename_i set hget
  split
  · exact h
  rename_i semnum kind hwait
  split
  · exact h
  split
  · exact h
  · have hbound := firstWaitingOp_bound hwait
    rw [length_map] at hbound
    exact h.setSet hget ((h.sets semid set hget).enter (w := ⟨task, semnum, kind⟩) hbound) rfl

lemma Ok.removeWaiterForTask (task : Nat) : Ok (m.removeWaiterForTask task).2 := by
  have hget : ∀ id, (m.removeWaiterForTask task).2.sets.get? id =
      (m.sets.get? id).map fun set => set.removeWaiters task :=
    fun id => SortedMap.get?_mapValues _
  refine ⟨fun id s hs => ?_, fun key id => ?_, fun id s hs => ?_, h.fresh, h.nodup⟩
  · rw [hget] at hs
    obtain ⟨set, hset, rfl⟩ := map_eq_some_iff.mp hs
    exact (h.sets id set hset).removeWaiters task
  · refine (h.keyed key id).trans ?_
    unfold HasKey
    rw [hget]
    constructor
    · rintro ⟨set, hset, hrest⟩
      exact ⟨set.removeWaiters task, by rw [hset]; rfl, hrest⟩
    · rintro ⟨s, hs, hrest⟩
      obtain ⟨set, hset, rfl⟩ := map_eq_some_iff.mp hs
      exact ⟨set, hset, hrest⟩
  · rw [hget] at hs
    obtain ⟨set, hset, rfl⟩ := map_eq_some_iff.mp hs
    exact h.live id set hset

end

end SemManager

/-! ## Runs -/

open SemManager (Ok)

variable {s s' : State}

lemma tryOrBlock_ok (h : Ok s.manager) (i : Nat) (c : Call) (interrupting : Bool) :
    Ok (s.tryOrBlock i c interrupting).manager := by
  have htry := (h.trySemop c.semid c.ops c.caller).1
  unfold State.tryOrBlock
  split
  next heq =>
    rwa [heq] at htry
  next heq =>
    rw [heq] at htry
    have hblock := htry.blockCurrentOnFirstWait c.semid c.ops c.task interrupting
    split
    next heq' =>
      rwa [heq'] at hblock
    next heq' =>
      rwa [heq'] at hblock
  next heq =>
    rwa [heq] at htry

/-- **Every section keeps the table consistent.** -/
theorem step_ok {ev : Event} (h : Ok s.manager) (hstep : s.step ev = some s') : Ok s'.manager := by
  cases ev with
  | semget => cases hstep; exact h.getOrCreate ..
  | rmid => cases hstep; exact h.removeSet ..
  | ipcSet => cases hstep; exact h.setAttrs ..
  | setval => cases hstep; exact h.setValue ..
  | setall => cases hstep; exact h.setAll ..
  | semtimedop =>
    obtain ⟨-, rfl⟩ := of_guard hstep
    exact h
  | attempt i expired interrupting =>
    obtain ⟨c, -, hstep⟩ := bind_eq_some_iff.mp hstep
    obtain ⟨-, hstep⟩ := ite_none_right_eq_some.mp hstep
    split at hstep
    · cases hstep
      exact h
    · cases hstep
      exact tryOrBlock_ok h i c interrupting
  | resume i fatal deliverable expired =>
    obtain ⟨c, -, hstep⟩ := bind_eq_some_iff.mp hstep
    obtain ⟨-, rfl⟩ := of_guard hstep
    exact h.removeWaiterForTask c.task

/-- **Run lemma**: in every run the table is in order. -/
lemma Ok.reachable (h : system.Reachable System.anyStep s) : Ok s.manager := by
  apply h.invariant
  · rintro s rfl
    exact SemManager.ok_new
  · exact fun s ev s' hs _ hstep => step_ok hs hstep

/-- **Semaphore sets are consistent** in every state of every run: values are in range, wait
counts are the numbers of queued waiters, a `try_semop` is all or nothing, the key table is
exact, and no id is given out twice. -/
theorem sem_sets_consistent (h : system.Reachable System.anyStep s) :
    (∀ id set, s.manager.sets.get? id = some set →
      (∀ v ∈ set.values, 0 ≤ v.value ∧ v.value ≤ SEMVMX) ∧ ∀ n v, set.values[n]? = some v →
        v.ncnt = queued set.waiters n .nonZero ∧ v.zcnt = queued set.waiters n .zero) ∧
    (∀ semid ops caller, s.manager.AllOrNothing semid ops (s.manager.trySemop semid ops caller)) ∧
    (∀ key id, s.manager.keyedSets.get? key = some id ↔
      ∃ set, s.manager.sets.get? id = some set ∧ set.key = key ∧ key ≠ IPC_PRIVATE) ∧
    s.manager.issued.Nodup ∧
    ∀ id set, s.manager.sets.get? id = some set → id ∈ s.manager.issued := by
  have hok := Ok.reachable h
  refine ⟨fun id set hset => ⟨fun v hv => ?_, fun n v hv => ⟨?_, ?_⟩⟩,
    fun semid ops caller => (hok.trySemop semid ops caller).2, hok.keyed, hok.nodup, hok.live⟩
  · exact (hok.sets id set hset).range _ (mem_map_of_mem hv)
  · exact (hok.sets id set hset).counted.counts n v .nonZero hv
  · exact (hok.sets id set hset).counted.counts n v .zero hv

def root : SemCaller := ⟨7, 0, 0, [], true⟩

/-- Two tasks wait on a set of two semaphores, one for a decrement and one for zero after an
increment of the same array; a third operation lets one of them through, the set is removed
and a new one takes its key. -/
def waitTrace : List Event :=
  [.semget 5 2 0o1600 ⟨0, 0⟩ root, .semtimedop 1 1 [⟨0, -1, 0⟩] false root, .attempt 0 false false,
    .semtimedop 2 1 [⟨1, 1, 0⟩, ⟨1, 0, 0⟩] true root, .attempt 1 false false,
    .semtimedop 3 1 [⟨0, 2, 0⟩, ⟨0, -1, 0⟩] false root, .attempt 2 false false,
    .resume 1 false false false, .attempt 1 false false, .resume 0 false false false,
    .attempt 0 false false, .rmid 1 root, .semget 5 1 0o1600 ⟨0, 0⟩ root,
    .resume 1 false false false]

theorem sem_sets_consistent_waitTrace :
    ∃ s, system.runWhile System.anyStep .boot waitTrace = some s ∧
      s.manager.issued = [2, 1] ∧ s.manager.issued.Nodup ∧ s.calls.map (·.phase) =
        [.returned (.ok ()), .returned (.error .EIDRM), .returned (.ok ())] := by
  have hrun : (system.runWhile System.anyStep .boot waitTrace).map
      (fun s => (s.manager.issued, s.calls.map (·.phase))) =
      some ([2, 1], [.returned (.ok ()), .returned (.error .EIDRM), .returned (.ok ())]) := by
    decide +kernel
  obtain ⟨s, hreach, hs, hv⟩ := System.exists_reachable hrun rfl
  obtain ⟨hissued, hphases⟩ := Prod.mk.inj hv
  exact ⟨s, hs, hissued, (sem_sets_consistent hreach).2.2.2.1, hphases⟩

end Whusp.Syscall.Sem
