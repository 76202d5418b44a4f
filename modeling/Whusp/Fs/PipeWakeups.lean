import Whusp.Fs.Pipe

/-!
# Wakeups at a pipe

What it means that a task sleeps in a queue of a pipe, and what taking tasks off a queue and waking
them up does to the others.
-/

namespace Whusp.Fs.Pipe

open Whusp.Lib (Byte System)

attribute [local simp] State.setTask State.setRing State.setQueue State.sleep

/-! ## Sleepers -/

/-- What the tasks of a side wait for: bytes, or room. -/
def PipeState.supply (pipe : PipeState) : Side → Nat
  | .reader => pipe.ring.availableRead
  | .writer => pipe.ring.availableWrite

variable {p : Nat} {side : Side}

open TaskState

variable {x : TaskState} {t : Nat}

lemma TaskState.blockedAt_iff : x.blockedAt p side = true ↔ ∃ op, x = .blocked op p side := by
  cases x <;> simp [blockedAt]

lemma TaskState.dequeuedAt_iff : x.dequeuedAt p side = true ↔ ∃ op, x = .dequeued op p side := by
  cases x <;> simp [dequeuedAt]

/-- The call that a task is in. -/
def TaskState.call : TaskState → Option Op
  | .idle => none
  | .entering op | .blocked op _ _ | .dequeued op _ _ => some op

lemma TaskState.call_eq_none : x.call = none ↔ x = .idle := by
  cases x <;> simp [call]

lemma TaskState.call_of_next {op : Op} (h : x.next = some op) : x.call = some op := by
  cases x <;> first | exact h | cases h

namespace State

/-- A task sleeps in the queue of a side of a pipe. -/
def Waiting (s : State) (p : Nat) (side : Side) : Prop :=
  ∃ t ∈ (s.pipes p).waitQueue side, (s.tasks t).blockedAt p side = true

/-- If any task sleeps in a queue, the one at its front does. -/
def FrontWaits (s : State) (p : Nat) (side : Side) : Prop :=
  s.Waiting p side →
    ∀ t ∈ ((s.pipes p).waitQueue side).head?, (s.tasks t).blockedAt p side = true

/-- A task of a side is on its way from the queue to the lock. -/
def OnItsWay (s : State) (p : Nat) (side : Side) : Prop :=
  ∃ t, (s.tasks t).dequeuedAt p side = true

/-- Who sleeps has nothing to get, or another one of the side is about to look. -/
def Justified (s : State) (p : Nat) (side : Side) : Prop :=
  s.Waiting p side → (s.pipes p).endOpen side.peer = true ∧
    ((s.pipes p).supply side = 0 ∨ s.OnItsWay p side)

end State

/-! ## Wakeups -/

/-- From `s` to `s'` tasks were only taken off queues and woken up. -/
structure Wakes (s s' : State) : Prop where
  ring : ∀ p, (s'.pipes p).ring = (s.pipes p).ring
  endOpen : ∀ p, (s'.pipes p).endOpen = (s.pipes p).endOpen
  queue : ∀ p side t, t ∈ (s'.pipes p).waitQueue side → t ∈ (s.pipes p).waitQueue side
  blocked : ∀ t p side, (s'.tasks t).blockedAt p side = true → (s.tasks t).blockedAt p side = true
  dequeued : ∀ t p side, (s.tasks t).dequeuedAt p side = true →
    (s'.tasks t).dequeuedAt p side = true
  call : ∀ t, (s'.tasks t).call = (s.tasks t).call

namespace Wakes

variable {s s' s'' : State}

lemma refl (s : State) : Wakes s s :=
  ⟨fun _ => rfl, fun _ => rfl, fun _ _ _ => id, fun _ _ _ => id, fun _ _ _ => id, fun _ => rfl⟩

lemma trans (h : Wakes s s') (h' : Wakes s' s'') : Wakes s s'' where
  ring p := (h'.ring p).trans (h.ring p)
  endOpen p := (h'.endOpen p).trans (h.endOpen p)
  queue p side t ht := h.queue p side t (h'.queue p side t ht)
  blocked t p side ht := h.blocked t p side (h'.blocked t p side ht)
  dequeued t p side ht := h'.dequeued t p side (h.dequeued t p side ht)
  call t := (h'.call t).trans (h.call t)

variable {p : Nat} {side : Side}

section

variable (h : Wakes s s')
include h

/-- Who waits afterwards waited before. -/
lemma waiting (hw : s'.Waiting p side) : s.Waiting p side := by
  obtain ⟨t, ht, hb⟩ := hw
  exact ⟨t, h.queue p side t ht, h.blocked t p side hb⟩

lemma supply (p : Nat) (side : Side) :
    (s'.pipes p).supply side = (s.pipes p).supply side := by
  cases side <;> simp only [PipeState.supply, h.ring p]

/-- A task on its way stays on its way. -/
lemma onItsWay (hw : s.OnItsWay p side) : s'.OnItsWay p side := by
  obtain ⟨t, ht⟩ := hw
  exact ⟨t, h.dequeued t p side ht⟩

/-- Wakeups keep a side justified. -/
theorem justified (hj : s.Justified p side) : s'.Justified p side := by
  intro hw
  obtain ⟨hopen, hrest⟩ := hj (h.waiting hw)
  rw [h.endOpen, h.supply]
  exact ⟨hopen, hrest.imp_right h.onItsWay⟩

end

open State

lemma setTask {op : Op} (ht : s.tasks t = .blocked op p side) (hcall : x.call = some op)
    (hx : ∀ p side, x.blockedAt p side = false) : Wakes s (s.setTask t x) where
  ring _ := rfl
  endOpen _ := rfl
  queue _ _ _ := id
  blocked t' p' side' hb := by
    rcases eq_or_ne t' t with rfl | heq
    · simp [hx] at hb
    · simpa [heq] using hb
  dequeued t' p' side' hd := by
    rcases eq_or_ne t' t with rfl | heq
    · simp [ht, dequeuedAt] at hd
    · simpa [heq] using hd
  call t' := by
    rcases eq_or_ne t' t with rfl | heq
    · rw [ht]
      simp only [State.setTask, Function.update_self, hcall]
      rfl
    · simp [heq]

/-- Taking a task off a queue is a wakeup. -/
lemma dequeue (s : State) (p : Nat) (side : Side) (t : Nat) : Wakes s (s.dequeue p side t) := by
  unfold State.dequeue
  split
  next ht =>
    split
    · exact Wakes.setTask ht rfl fun _ _ => rfl
    · exact refl s
  · exact refl s

lemma wakeupTask (s : State) (t : Nat) : Wakes s (s.wakeupTask t) := by
  unfold State.wakeupTask
  split
  next ht =>
    exact Wakes.setTask ht rfl fun _ _ => rfl
  · exact refl s

lemma wakeTask (s : State) (t : Option Nat) : Wakes s (s.wakeTask t) := by
  cases t with
  | none => exact refl s
  | some t => exact wakeupTask s t

/-- So is any shorter queue. -/
lemma setQueue {queue : List Nat} (h : ∀ t ∈ queue, t ∈ (s.pipes p).waitQueue side) :
    Wakes s (s.setQueue p side queue) where
  ring p' := by
    rcases eq_or_ne p' p with rfl | hp
    · simp
    · simp [hp]
  endOpen p' := by
    rcases eq_or_ne p' p with rfl | hp
    · simp
    · simp [hp]
  queue p' side' t ht := by
    rcases eq_or_ne p' p with rfl | hp
    · by_cases hside : side' = side
      · subst hside
        exact h t (by simpa using ht)
      · simpa [hside] using ht
    · simpa [hp] using ht
  blocked _ _ _ := id
  dequeued _ _ _ := id
  call _ := rfl

/-- So is taking the first task off. -/
lemma popFront (s : State) (p : Nat) (side : Side) : Wakes s (s.popFront p side).2 := by
  unfold State.popFront
  split
  · exact refl s
  rename_i queue hq
  have hset : Wakes s (s.setQueue p side queue) :=
    setQueue fun t' ht' => hq ▸ List.mem_cons_of_mem _ ht'
  exact hset.trans (dequeue _ _ _ _)

lemma foldl_wakeup (p : Nat) (side : Side) (queue : List Nat) (s : State) :
    Wakes s (queue.foldl (fun s t => (s.dequeue p side t).wakeupTask t) s) := by
  induction queue generalizing s with
  | nil => exact refl s
  | cons t queue ih => exact ((dequeue s p side t).trans (wakeupTask _ t)).trans (ih _)

/-- So is waking a whole queue. -/
lemma wakeAll (s : State) (p : Nat) (side : Side) : Wakes s (s.wakeAll p side) :=
  (setQueue fun _ h => absurd h List.not_mem_nil).trans (foldl_wakeup p side _ _)

end Wakes

variable {s : State}

/-- A task taken off the front of a queue in which tasks sleep is one of them. -/
theorem State.onItsWay_popFront (hfront : s.FrontWaits p side) (hw : s.Waiting p side) :
    (s.popFront p side).2.OnItsWay p side := by
  have hhead := hfront hw
  obtain ⟨t', ht', -⟩ := hw
  unfold popFront
  cases hq : (s.pipes p).waitQueue side with
  | nil => simp [hq] at ht'
  | cons t queue =>
    obtain ⟨op, hop⟩ := blockedAt_iff.mp (hhead t (by simp [hq]))
    refine ⟨t, ?_⟩
    simp [dequeue, hop, dequeuedAt]

/-! ## Well-formed states -/

/-- The call of a task that sleeps at a side of a pipe is one that does. -/
def Op.waitsAt : Op → Nat → Side → Prop
  | .read p _, p', side => p' = p ∧ side = .reader
  | .write p _ _ _, p', side => p' = p ∧ side = .writer
  | .tee p out _, p', side => (p' = p ∧ side = .reader) ∨ (p' = out ∧ side = .writer)

/-- What holds of a call between two rounds. -/
def Op.Ok : Op → Prop
  | .read _ segments => 0 < segments.sum
  | .write _ segments already _ => already < segments.flatten.length
  | .tee p out len => p ≠ out ∧ 0 < len

def TaskState.Ok : TaskState → Prop
  | .idle => True
  | .entering op => op.Ok
  | .blocked op p side => op.Ok ∧ op.waitsAt p side
  | .dequeued op p side => op.Ok ∧ op.waitsAt p side

structure Shape (s : State) : Prop where
  rings : ∀ p, (s.pipes p).ring.Ok
  queued : ∀ t p side, (s.tasks t).blockedAt p side = true → t ∈ (s.pipes p).waitQueue side
  tasks : ∀ t, (s.tasks t).Ok

namespace Shape

variable {s : State}

section

variable (h : Shape s)
include h

lemma setRing (p : Nat) {r : PipeRingBuffer} (hr : r.Ok) : Shape (s.setRing p r) where
  rings p' := by
    rcases eq_or_ne p' p with rfl | hp
    · simpa using hr
    · simpa [hp] using h.rings p'
  queued t p' side hb := by
    have := h.queued t p' side hb
    rcases eq_or_ne p' p with rfl | hp
    · simpa using this
    · simpa [hp] using this
  tasks := h.tasks

lemma setTask (t : Nat) (hx : x.Ok) (hawake : ∀ p side, x.blockedAt p side = false) :
    Shape (s.setTask t x) where
  rings := h.rings
  queued t' p side hb := by
    rcases eq_or_ne t' t with rfl | ht
    · simp [hawake] at hb
    · exact h.queued t' p side (by simpa [ht] using hb)
  tasks t' := by
    rcases eq_or_ne t' t with rfl | ht
    · simpa using hx
    · simpa [ht] using h.tasks t'

/-- A task that goes to sleep is queued where its call waits. -/
lemma sleep (t : Nat) {op : Op} (hop : op.Ok) (hplace : op.waitsAt p side) :
    Shape (s.sleep t op p side) where
  rings p' := by
    rcases eq_or_ne p' p with rfl | hp
    · simpa using h.rings p'
    · simpa [hp] using h.rings p'
  queued t' p' side' hb := by
    have hold : t' ≠ t → t' ∈ (s.pipes p').waitQueue side' := fun ht =>
      h.queued t' p' side' (by simpa [ht] using hb)
    rcases eq_or_ne p' p with rfl | hp
    · by_cases hside : side' = side
      · subst hside
        by_cases ht : t' = t
        · simp [ht]
        · simp [hold ht]
      · have ht : t' ≠ t := by
          rintro rfl
          simp [blockedAt, Ne.symm hside] at hb
        simpa [hside] using hold ht
    · have ht : t' ≠ t := by
        rintro rfl
        simp [blockedAt, Ne.symm hp] at hb
      simpa [hp] using hold ht
  tasks t' := by
    rcases eq_or_ne t' t with rfl | ht
    · simpa [TaskState.Ok] using And.intro hop hplace
    · simpa [ht] using h.tasks t'

lemma wakeupTask (t : Nat) : Shape (s.wakeupTask t) := by
  unfold State.wakeupTask
  split
  next ht =>
    have hok := h.tasks t
    rw [ht] at hok
    exact h.setTask t hok.1 fun _ _ => rfl
  · exact h

lemma wakeTask (t : Option Nat) : Shape (s.wakeTask t) := by
  cases t with
  | none => exact h
  | some t => exact h.wakeupTask t

end

end Shape

section

variable (s : State)

/-- The state of a task after it was taken off a queue. -/
lemma State.tasks_dequeue (p : Nat) (side : Side) (t t' : Nat) :
    (s.dequeue p side t).tasks t' = s.tasks t' ∨ (t' = t ∧ ∃ op, s.tasks t = .blocked op p side ∧
        (s.dequeue p side t).tasks t' = .dequeued op p side) := by
  unfold dequeue
  split
  swap
  · exact .inl rfl
  rename_i op p' side' ht
  split
  next heq =>
    obtain ⟨rfl, rfl⟩ := heq
    rcases eq_or_ne t' t with rfl | h
    · exact .inr ⟨rfl, op, ht, by simp⟩
    · exact .inl (by simp [h])
  · exact .inl rfl

lemma State.pipes_dequeue (p : Nat) (side : Side) (t : Nat) :
    (s.dequeue p side t).pipes = s.pipes := by
  unfold dequeue
  split
  · split <;> rfl
  · rfl

lemma State.pipes_wakeupTask (t : Nat) : (s.wakeupTask t).pipes = s.pipes := by
  unfold wakeupTask
  split <;> rfl

/-- A task taken off a queue and woken up sleeps nowhere. -/
lemma State.awake_wakeupTask (t p : Nat) (side : Side) :
    ((s.wakeupTask t).tasks t).blockedAt p side = false := by
  unfold wakeupTask
  split
  · simp [blockedAt]
  rename_i hne
  cases hx : s.tasks t with
  | blocked op p' side' => exact absurd hx (hne op p' side')
  | idle | entering | dequeued => rfl

/-- A task taken off a queue does not sleep there. -/
lemma State.awake_dequeue (p : Nat) (side : Side) (t : Nat) :
    ((s.dequeue p side t).tasks t).blockedAt p side = false := by
  unfold dequeue
  split
  next ht =>
    split
    · simp [blockedAt]
    next hne =>
      simpa [ht, blockedAt] using hne
  next hne =>
    cases hx : s.tasks t with
    | blocked op p' side' => exact absurd hx (hne op p' side')
    | idle | entering | dequeued => rfl

end

/-- Tasks that were taken off a queue were made for what they are. -/
lemma State.ok_dequeue (h : ∀ t, (s.tasks t).Ok) (t' : Nat) :
    ((s.dequeue p side t).tasks t').Ok := by
  rcases s.tasks_dequeue p side t t' with heq | ⟨rfl, op, hop, heq⟩
  · exact heq ▸ h t'
  · have hok := h t'
    rw [hop] at hok
    exact heq ▸ hok

/-- A task that is woken up keeps its call in order. -/
lemma State.ok_wakeupTask (h : ∀ t, (s.tasks t).Ok) (t' : Nat) :
    ((s.wakeupTask t).tasks t').Ok := by
  unfold wakeupTask
  split
  swap
  · exact h t'
  rename_i ht
  rcases eq_or_ne t' t with rfl | heq
  · have hok := h t'
    rw [ht] at hok
    simpa [TaskState.Ok] using hok.1
  · simpa [heq] using h t'

lemma Shape.popFront (h : Shape s) (p : Nat) (side : Side) : Shape (s.popFront p side).2 := by
  have hwakes := Wakes.popFront s p side
  refine ⟨fun p' => hwakes.ring p' ▸ h.rings p', ?_, ?_⟩
  · intro t' p' side' hb
    have hmem := h.queued t' p' side' (hwakes.blocked t' p' side' hb)
    unfold State.popFront at hb ⊢
    split
    · exact hmem
    rename_i hq
    simp only [hq] at hb
    simp only [State.pipes_dequeue]
    -- only the entry at the front is gone, and its task sleeps there no more
    by_cases hp : p' = p
    swap
    · simpa [hp] using hmem
    subst hp
    rcases eq_or_ne side' side with rfl | hside
    · rw [hq] at hmem
      rcases List.mem_cons.mp hmem with rfl | hmem
      · simp [State.awake_dequeue] at hb
      · simpa using hmem
    · simpa [hside] using hmem
  · unfold State.popFront
    split
    · exact h.tasks
    · exact State.ok_dequeue h.tasks

/-- What `wake_all_readers` and `wake_all_writers` do to the tasks: those of the queue sleep
nowhere, and the queue is gone. -/
lemma State.foldl_wakeup (p : Nat) (side : Side) (queue : List Nat) (s : State)
    (hok : ∀ t, (s.tasks t).Ok) :
    let s' := queue.foldl (fun s t => (s.dequeue p side t).wakeupTask t) s
    s'.pipes = s.pipes ∧ (∀ t, (s'.tasks t).Ok) ∧
      ∀ t ∈ queue, ∀ p side, (s'.tasks t).blockedAt p side = false := by
  induction queue generalizing s with
  | nil => exact ⟨rfl, hok, nofun⟩
  | cons t queue ih =>
    intro s'
    obtain ⟨h₂, h₃, h₄⟩ := ih ((s.dequeue p side t).wakeupTask t)
      (ok_wakeupTask (ok_dequeue hok))
    refine ⟨?_, h₃, ?_⟩
    · exact h₂.trans (by rw [pipes_wakeupTask, pipes_dequeue])
    intro t' ht' p' side'
    rcases List.mem_cons.mp ht' with rfl | ht'
    · -- it sleeps nowhere after its own wakeup, and the others change nothing
      have hawake := awake_wakeupTask (s.dequeue p side t') t' p' side'
      cases hb : (s'.tasks t').blockedAt p' side' with
      | false => rfl
      | true =>
        rw [(Wakes.foldl_wakeup p side queue _).blocked t' p' side' hb] at hawake
        cases hawake
    · exact h₄ t' ht' p' side'

/-- After `wakeAll` no task sleeps in the queue. -/
theorem State.wakeAll_spec (h : Shape s) (p : Nat) (side : Side) :
    Shape (s.wakeAll p side) ∧ Wakes s (s.wakeAll p side) ∧
      ¬ (s.wakeAll p side).Waiting p side := by
  obtain ⟨hpipes, hok, hawake⟩ := foldl_wakeup p side
    ((s.pipes p).waitQueue side) (s.setQueue p side []) h.tasks
  have hall := Wakes.wakeAll s p side
  have hempty : ((s.wakeAll p side).pipes p).waitQueue side = [] := by
    rw [wakeAll, hpipes]
    simp
  refine ⟨⟨fun p' => hall.ring p' ▸ h.rings p', ?_, hok⟩, hall, ?_⟩
  · intro t p' side' hb
    have hmem := h.queued t p' side' (hall.blocked t p' side' hb)
    have hother : ¬ (p' = p ∧ side' = side) := by
      rintro ⟨rfl, rfl⟩
      exact absurd (hb.symm.trans (hawake t hmem p' side')) nofun
    rw [wakeAll, hpipes]
    rcases eq_or_ne p' p with rfl | hp
    · simpa [show side' ≠ side from fun h => hother ⟨rfl, h⟩] using hmem
    · simpa [hp] using hmem
  · rintro ⟨t, ht, -⟩
    simp [hempty] at ht

end Whusp.Fs.Pipe
