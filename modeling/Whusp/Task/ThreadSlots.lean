import Mathlib.Data.List.Nodup
import Whusp.Lib.Transition

/-!
# Thread ids, trap pages and task slots of a process

Creation and exit of the threads of one process.  A clone takes a process-local tid
(`alloc_tid`), maps the trap-context page of that tid (`alloc_user_res`), reads its frame back
(`trap_cx_ppn`) and publishes the task in the slot of the tid (`attach_task`).  An exiting thread
drops its `TaskUserRes`, which returns the tid and then unmaps the page, and clears the slot last.
Each of these is a section of its own under the process lock.
-/

namespace Whusp.Task.ThreadSlots

open Function Whusp.Lib List Option

/-! ## The id allocator -/

/-- `RecycleAllocator` of `task/id.rs`; the head of `recycled` is the top of the stack. -/
structure RecycleAllocator where
  current : Nat
  recycled : List Nat

namespace RecycleAllocator

/-- The id that `alloc` would return. -/
def next (a : RecycleAllocator) : Nat :=
  match a.recycled with
  | id :: _ => id
  | [] => a.current

def alloc (a : RecycleAllocator) : RecycleAllocator :=
  match a.recycled with
  | _ :: recycled => { a with recycled }
  | [] => { a with current := a.current + 1 }

/-- `none` is a failed assertion. -/
def dealloc (a : RecycleAllocator) (id : Nat) : Option RecycleAllocator :=
  if id < a.current ∧ id ∉ a.recycled then some { a with recycled := id :: a.recycled } else none

/-- The recycled ids are different and were handed out before. -/
structure Ok (a : RecycleAllocator) : Prop where
  nodup : a.recycled.Nodup
  lt : ∀ id ∈ a.recycled, id < a.current

structure Used (a : RecycleAllocator) (id : Nat) : Prop where
  lt : id < a.current
  notMem : id ∉ a.recycled

variable {a : RecycleAllocator} {id : Nat}

/-- What `alloc` does to an allocator in order. -/
lemma Ok.alloc (h : a.Ok) :
    a.alloc.Ok ∧ a.alloc.Used a.next ∧ ∀ id, a.Used id → id ≠ a.next ∧ a.alloc.Used id := by
  obtain ⟨current, recycled⟩ := a
  cases recycled with
  | cons top rest =>
    obtain ⟨hnew, hrest⟩ := nodup_cons.mp h.nodup
    refine ⟨⟨hrest, fun id hid => h.lt id (mem_cons_of_mem _ hid)⟩,
      ⟨h.lt top mem_cons_self, hnew⟩, fun id hu => ⟨?_, hu.lt, ?_⟩⟩
    · rintro rfl
      exact hu.notMem mem_cons_self
    · exact fun hid => hu.notMem (mem_cons_of_mem _ hid)
  | nil =>
    refine ⟨⟨.nil, nofun⟩, ⟨Nat.lt_succ_self current, nofun⟩, fun id hu => ⟨?_, ?_, nofun⟩⟩
    · exact Nat.ne_of_lt hu.lt
    · exact Nat.lt_succ_of_lt hu.lt

/-- An id in use can be returned, and the others stay in use. -/
lemma Ok.dealloc (h : a.Ok) (hid : a.Used id) :
    a.dealloc id = some { a with recycled := id :: a.recycled } ∧
      Ok { a with recycled := id :: a.recycled } ∧
      ∀ other, other ≠ id → a.Used other → Used { a with recycled := id :: a.recycled } other := by
  refine ⟨if_pos ⟨hid.lt, hid.notMem⟩, ⟨nodup_cons.mpr ⟨hid.notMem, h.nodup⟩,
    forall_mem_cons.mpr ⟨hid.lt, h.lt⟩⟩, fun other hne hu => ⟨hu.lt, fun hm => ?_⟩⟩
  rcases mem_cons.mp hm with rfl | hm
  · exact hne rfl
  · exact hu.notMem hm

end RecycleAllocator

/-! ## Threads -/

/-- Where a thread is between its creation and its end. -/
inductive Phase where
  | tidAllocated
  | resAllocated
  /-- `from_user_res` has read the frame of the trap page. -/
  | built
  | attached
  /-- The drop of `TaskUserRes` has returned the tid. -/
  | tidReturned
  /-- The drop has unmapped the stack and the trap page. -/
  | resReturned
  | gone
  deriving DecidableEq

namespace Phase

def Live : Phase → Prop
  | tidAllocated => True
  | resAllocated => True
  | built => True
  | attached => True
  | _ => False

/-- The thread has returned its tid and not yet cleared its slot. -/
def Exiting : Phase → Prop
  | tidReturned => True
  | resReturned => True
  | _ => False

/-- The trap page of the thread is mapped. -/
def Maps : Phase → Prop
  | resAllocated => True
  | built => True
  | attached => True
  | tidReturned => True
  | _ => False

instance (p : Phase) : Decidable p.Exiting := by
  cases p <;> (unfold Exiting; infer_instance)

end Phase

structure Thread where
  tid : Nat
  /-- Without a stack of its own, the thread gets the default one. -/
  userStackAllocated : Bool
  trapCxPpn : Option Nat
  phase : Phase
  deriving DecidableEq

inductive Panic where
  /-- "failed to allocate trap context for task". -/
  | trapContext
  | trapCxPpn
  /-- An assertion of `RecycleAllocator::dealloc`. -/
  | deallocTid
  deriving DecidableEq

structure State where
  allocator : RecycleAllocator
  tasks : List (Option Nat)
  trapPage : Nat → Option Nat
  userStacks : List Nat
  threads : Nat → Thread
  /-- The number of threads so far. -/
  count : Nat
  panic : Option Panic

inductive Event where
  | allocTid (suppliedStack : Bool)
  /-- The section of `alloc_user_res`, with the frame that the allocator has, if any. -/
  | allocUserRes (i : Nat) (frame : Option Nat)
  | trapCxPpn (i : Nat)
  | attachTask (i : Nat)
  | deallocTid (i : Nat)
  | deallocUserRes (i : Nat)
  | clearSlot (i : Nat)

namespace State

def goneThread : Thread := ⟨0, false, none, .gone⟩

/-- A process with its main thread, which is attached with tid 0. -/
def boot (frame : Nat) : State where
  allocator := ⟨1, []⟩
  tasks := [some 0]
  trapPage := update (fun _ => none) 0 (some frame)
  userStacks := [0]
  threads := update (fun _ => goneThread) 0 ⟨0, true, some frame, .attached⟩
  count := 1
  panic := none

def set (s : State) (i : Nat) (x : Thread) : State :=
  { s with threads := update s.threads i x }

def setPhase (s : State) (i : Nat) (phase : Phase) : State := s.set i { s.threads i with phase }

def panics (s : State) (why : Panic) : State := { s with panic := some why }

def allocTid (s : State) (suppliedStack : Bool) : State :=
  { s with
    allocator := s.allocator.alloc
    threads := update s.threads s.count
      ⟨s.allocator.next, !suppliedStack, none, .tidAllocated⟩
    count := s.count + 1 }

/-- `alloc_user_res_inner`: the page table must have no entry for the page, and a frame is
needed. -/
def allocUserRes (s : State) (i : Nat) (frame : Option Nat) : State :=
  let x := s.threads i
  let userStacks := if x.userStackAllocated then x.tid :: s.userStacks else s.userStacks
  match s.trapPage x.tid, frame with
  | none, some f =>
    { s with
      userStacks
      trapPage := update s.trapPage x.tid (some f) }.setPhase i .resAllocated
  | _, _ => { s with userStacks }.panics .trapContext

def readTrapCx (s : State) (i : Nat) : State :=
  match s.trapPage (s.threads i).tid with
  | some f => s.set i { s.threads i with trapCxPpn := some f, phase := .built }
  | none => s.panics .trapCxPpn

/-- The slots are extended up to the tid. -/
def attachTask (s : State) (i : Nat) : State :=
  let tid := (s.threads i).tid
  let tasks := s.tasks ++ List.replicate (tid + 1 - s.tasks.length) none
  { s with tasks := tasks.set tid (some i) }.setPhase i .attached

def deallocTid (s : State) (i : Nat) : State :=
  match s.allocator.dealloc (s.threads i).tid with
  | some allocator => { s with allocator }.setPhase i .tidReturned
  | none => s.panics .deallocTid

def deallocUserRes (s : State) (i : Nat) : State :=
  let x := s.threads i
  { s with
    userStacks := if x.userStackAllocated then s.userStacks.erase x.tid else s.userStacks
    trapPage := update s.trapPage x.tid none }.setPhase i .resReturned

/-- The end of `exit_current` for a thread other than the main one. -/
def clearSlot (s : State) (i : Nat) : State :=
  { s with tasks := s.tasks.set (s.threads i).tid none }.setPhase i .gone

/-- A section runs where its thread has reached it. -/
def running (s : State) : Event → Option State
  | .allocTid suppliedStack => some (s.allocTid suppliedStack)
  | .allocUserRes i frame =>
    if (s.threads i).phase = .tidAllocated then some (s.allocUserRes i frame) else none
  | .trapCxPpn i => if (s.threads i).phase = .resAllocated then some (s.readTrapCx i) else none
  | .attachTask i => if (s.threads i).phase = .built then some (s.attachTask i) else none
  | .deallocTid i =>
    -- the exit of the main thread is the exit of the process
    if (s.threads i).phase = .attached ∧ (s.threads i).tid ≠ 0 then some (s.deallocTid i) else none
  | .deallocUserRes i =>
    if (s.threads i).phase = .tidReturned then some (s.deallocUserRes i) else none
  | .clearSlot i => if (s.threads i).phase = .resReturned then some (s.clearSlot i) else none

def event (s : State) (e : Event) : Option State := if s.panic = none then s.running e else none

end State

def system : System State Event where
  init s := ∃ frame, s = State.boot frame
  step := State.event

/-- **The condition on a step**: a tid is handed out only after the thread that had it has
cleared its slot, and a trap page gets a frame. -/
def StepOk (s : State) : Event → Prop
  | .allocTid _ => ∀ i, i < s.count → (s.threads i).phase.Exiting →
    (s.threads i).tid ≠ s.allocator.next
  | .allocUserRes _ frame => frame ≠ none
  | _ => True

instance : DecidableRel StepOk := fun s e => by
  cases e <;> (unfold StepOk; infer_instance)

/-! ## The invariant -/

/-- What the place of a thread says about its page and its slot. -/
def ThreadOk (s : State) (i : Nat) (x : Thread) : Prop :=
  match x.phase with
  | .tidAllocated => s.allocator.Used x.tid ∧ s.trapPage x.tid = none
  | .resAllocated => s.allocator.Used x.tid ∧ s.trapPage x.tid ≠ none
  | .built => s.allocator.Used x.tid ∧ s.trapPage x.tid ≠ none ∧ s.trapPage x.tid = x.trapCxPpn
  | .attached => s.allocator.Used x.tid ∧ s.trapPage x.tid ≠ none ∧
      s.trapPage x.tid = x.trapCxPpn ∧ s.tasks[x.tid]? = some (some i)
  | .tidReturned | .resReturned | .gone => True

structure Inv (s : State) : Prop where
  allocator : s.allocator.Ok
  /-- Threads that have not ended have different tids. -/
  apart : ∀ i j, (s.threads i).phase ≠ .gone → (s.threads j).phase ≠ .gone →
    (s.threads i).tid = (s.threads j).tid → i = j
  owned : ∀ tid, s.trapPage tid ≠ none → ∃ i, (s.threads i).phase.Maps ∧ (s.threads i).tid = tid
  fresh : ∀ i, s.count ≤ i → s.threads i = State.goneThread
  thread : ∀ i, ThreadOk s i (s.threads i)
  panic : s.panic = none

namespace Inv

variable {s s' : State} {i : Nat} {x : Thread}

lemma threadOk_of_same {j : Nat} (hused : s.allocator.Used x.tid → s'.allocator.Used x.tid)
    (htrap : s'.trapPage x.tid = s.trapPage x.tid)
    (htask : s.tasks[x.tid]? = some (some j) → s'.tasks[x.tid]? = some (some j))
    (h : ThreadOk s j x) : ThreadOk s' j x := by
  unfold ThreadOk at h ⊢
  rw [htrap]
  generalize x.phase = phase at h
  cases phase with
  | tidAllocated | resAllocated | built => exact ⟨hused h.1, h.2⟩
  | attached => exact ⟨hused h.1, h.2.1, h.2.2.1, htask h.2.2.2⟩
  | tidReturned | resReturned | gone => trivial

/-- **A section of one thread** touches only what belongs to its tid. -/
theorem of_step (h : Inv s) (hi : (s.threads i).phase ≠ .gone)
    (hthreads : s'.threads = update s.threads i x) (hcount : s'.count = s.count)
    (htid : x.tid = (s.threads i).tid) (hpanic : s'.panic = none) (hok : s'.allocator.Ok)
    (hused : ∀ id, id ≠ x.tid → s.allocator.Used id → s'.allocator.Used id)
    (htrap : ∀ id, id ≠ x.tid → s'.trapPage id = s.trapPage id)
    (howned : s'.trapPage x.tid ≠ none → x.phase.Maps)
    (htasks : ∀ id, id ≠ x.tid → ∀ j, s.tasks[id]? = some (some j) → s'.tasks[id]? = some (some j))
    (hthread : ThreadOk s' i x) : Inv s' := by
  have hself : s'.threads i = x := by rw [hthreads, update_self]
  have hother {j : Nat} (hj : j ≠ i) : s'.threads j = s.threads j := by
    rw [hthreads, update_of_ne hj]
  have hne {j : Nat} (hj : j ≠ i) (hlive : (s.threads j).phase ≠ .gone) :
      (s.threads j).tid ≠ x.tid :=
    fun heq => hj (h.apart j i hlive hi (heq.trans htid))
  refine ⟨hok, fun j k hj hk heq => ?_, fun id hid => ?_, fun j hj => ?_, fun j => ?_, hpanic⟩
  · rcases eq_or_ne j i with rfl | hji
    · rcases eq_or_ne k j with rfl | hkj
      · rfl
      · rw [hother hkj] at hk heq
        rw [hself] at heq
        exact absurd heq.symm (hne hkj hk)
    · rw [hother hji] at hj heq
      rcases eq_or_ne k i with rfl | hki
      · rw [hself] at heq
        exact absurd heq (hne hji hj)
      · rw [hother hki] at hk heq
        exact h.apart j k hj hk heq
  · rcases eq_or_ne id x.tid with rfl | hid'
    · exact ⟨i, by rw [hself]; exact howned hid, by rw [hself]⟩
    -- the page of another tid belongs to another thread
    rw [htrap id hid'] at hid
    obtain ⟨j, hmaps, hj⟩ := h.owned id hid
    have hji : j ≠ i := by
      rintro rfl
      exact hid' (hj.symm.trans htid.symm)
    exact ⟨j, by rw [hother hji]; exact hmaps, by rw [hother hji]; exact hj⟩
  · have hji : j ≠ i := by
      rintro rfl
      rw [h.fresh j (hcount ▸ hj)] at hi
      exact hi rfl
    rw [hother hji]
    exact h.fresh j (hcount ▸ hj)
  · rcases eq_or_ne j i with rfl | hji
    · rw [hself]
      exact hthread
    rw [hother hji]
    by_cases hgone : (s.threads j).phase = .gone
    · rw [ThreadOk, hgone]
      trivial
    · have hjx := hne hji hgone
      exact threadOk_of_same (hused _ hjx) (htrap _ hjx) (htasks _ hjx j) (h.thread j)

/-- **A new tid** belongs to no thread that is still there. -/
theorem allocTid {supplied : Bool} (h : Inv s)
    (hok : ∀ i, i < s.count → (s.threads i).phase.Exiting → (s.threads i).tid ≠ s.allocator.next) :
    Inv (s.allocTid supplied) := by
  obtain ⟨halloc, hnew, hold⟩ := h.allocator.alloc
  have hne (j : Nat) (hj : (s.threads j).phase ≠ .gone) :
      (s.threads j).tid ≠ s.allocator.next := by
    have hlt : j < s.count := by
      by_contra hno
      rw [h.fresh j (Nat.not_lt.mp hno)] at hj
      exact hj rfl
    have hthread := h.thread j
    have hexit := hok j hlt
    unfold ThreadOk at hthread
    generalize (s.threads j).phase = phase at hj hthread hexit
    cases phase with
    | tidAllocated | resAllocated | built | attached => exact (hold _ hthread.1).1
    | tidReturned | resReturned => exact hexit trivial
    | gone => exact absurd rfl hj
  have hself : (s.allocTid supplied).threads s.count =
      ⟨s.allocator.next, !supplied, none, .tidAllocated⟩ := update_self ..
  have hother {j : Nat} (hj : j ≠ s.count) : (s.allocTid supplied).threads j = s.threads j :=
    update_of_ne hj ..
  have hfree : s.trapPage s.allocator.next = none := by
    by_contra hmapped
    obtain ⟨j, hmaps, hj⟩ := h.owned _ hmapped
    refine hne j (fun hgone => ?_) hj
    rwa [hgone] at hmaps
  refine ⟨halloc, fun j k hj hk heq => ?_, fun id hid => ?_, fun j hj => ?_, fun j => ?_, h.panic⟩
  · rcases eq_or_ne j s.count with rfl | hjc
    · rcases eq_or_ne k s.count with rfl | hkc
      · rfl
      · rw [hother hkc] at hk heq
        rw [hself] at heq
        exact absurd heq.symm (hne k hk)
    · rw [hother hjc] at hj heq
      rcases eq_or_ne k s.count with rfl | hkc
      · rw [hself] at heq
        exact absurd heq (hne j hj)
      · rw [hother hkc] at hk heq
        exact h.apart j k hj hk heq
  · obtain ⟨j, hmaps, hj⟩ := h.owned id hid
    have hjc : j ≠ s.count := by
      rintro rfl
      rwa [h.fresh _ (Nat.le_refl _)] at hmaps
    exact ⟨j, by rw [hother hjc]; exact hmaps, by rw [hother hjc]; exact hj⟩
  · rw [hother (Nat.ne_of_gt hj)]
    exact h.fresh j (Nat.le_of_succ_le hj)
  · rcases eq_or_ne j s.count with rfl | hjc
    · rw [hself]
      exact ⟨hnew, hfree⟩
    · rw [hother hjc]
      exact threadOk_of_same (fun hu => (hold _ hu).2) rfl id (h.thread j)

lemma allocUserRes {frame : Option Nat} (h : Inv s) (hphase : (s.threads i).phase = .tidAllocated)
    (hframe : frame ≠ none) : Inv (s.allocUserRes i frame) := by
  have hok := h.thread i
  rw [ThreadOk, hphase] at hok
  obtain ⟨f, rfl⟩ := ne_none_iff_exists'.mp hframe
  -- the page of a tid in use is not mapped before this section
  have heq : s.allocUserRes i (some f) = { s with
      userStacks := if (s.threads i).userStackAllocated then (s.threads i).tid :: s.userStacks
        else s.userStacks
      trapPage := update s.trapPage (s.threads i).tid (some f) }.setPhase i
        .resAllocated := by
    simp [State.allocUserRes, hok.2]
  rw [heq]
  refine h.of_step (hphase ▸ nofun) rfl rfl rfl h.panic h.allocator (fun _ _ hu => hu)
    (fun id hid => update_of_ne hid ..) (fun _ => trivial) (fun _ _ _ ht => ht) ⟨hok.1, ?_⟩
  show update s.trapPage (s.threads i).tid (some f) (s.threads i).tid ≠ none
  simp

section

variable (h : Inv s)
include h

lemma readTrapCx (hphase : (s.threads i).phase = .resAllocated) :
    Inv (s.readTrapCx i) := by
  have hok := h.thread i
  rw [ThreadOk, hphase] at hok
  obtain ⟨f, hf⟩ := ne_none_iff_exists'.mp hok.2
  have heq : s.readTrapCx i = s.set i { s.threads i with
      trapCxPpn := some f, phase := .built } := by
    rw [State.readTrapCx, hf]
  rw [heq]
  refine h.of_step (hphase ▸ nofun) rfl rfl rfl h.panic h.allocator (fun _ _ hu => hu)
    (fun _ _ => rfl) (fun _ => trivial) (fun _ _ _ ht => ht) ⟨hok.1, hok.2, hf⟩

lemma attachTask (hphase : (s.threads i).phase = .built) : Inv (s.attachTask i) := by
  have hok := h.thread i
  rw [ThreadOk, hphase] at hok
  refine h.of_step (hphase ▸ nofun) rfl rfl rfl h.panic h.allocator (fun _ _ hu => hu)
    (fun _ _ => rfl) (fun _ => trivial) (fun id hid j ht => ?_) ?_
  · show ((s.tasks ++ List.replicate _ none).set (s.threads i).tid (some i))[id]? = some (some j)
    rw [getElem?_set_ne (Ne.symm hid), getElem?_append_left]
    · exact ht
    · exact (List.getElem?_eq_some_iff.mp ht).1
  · refine ⟨hok.1, hok.2.1, hok.2.2, ?_⟩
    show ((s.tasks ++ List.replicate ((s.threads i).tid + 1 - s.tasks.length) none).set
      (s.threads i).tid (some i))[(s.threads i).tid]? = some (some i)
    rw [getElem?_set_self]
    rw [length_append, length_replicate]
    omega

lemma deallocTid (hphase : (s.threads i).phase = .attached) : Inv (s.deallocTid i) := by
  have hok := h.thread i
  rw [ThreadOk, hphase] at hok
  obtain ⟨heq, hnew, hkeep⟩ := h.allocator.dealloc hok.1
  rw [State.deallocTid, heq]
  refine h.of_step (hphase ▸ nofun) rfl rfl rfl h.panic hnew hkeep (fun _ _ => rfl)
    (fun _ => trivial) (fun _ _ _ ht => ht) trivial

lemma deallocUserRes (hphase : (s.threads i).phase = .tidReturned) :
    Inv (s.deallocUserRes i) := by
  refine h.of_step (hphase ▸ nofun) rfl rfl rfl h.panic h.allocator (fun _ _ hu => hu)
    (fun id hid => update_of_ne hid ..) (fun hmapped => ?_) (fun _ _ _ ht => ht) trivial
  exact absurd (update_self ..) hmapped

lemma clearSlot (hphase : (s.threads i).phase = .resReturned) :
    Inv (s.clearSlot i) := by
  refine h.of_step (hphase ▸ nofun) rfl rfl rfl h.panic h.allocator (fun _ _ hu => hu)
    (fun _ _ => rfl) (fun hmapped => ?_) (fun id hid j ht => ?_) trivial
  · -- its page was unmapped in the section before
    obtain ⟨j, hmaps, hj⟩ := h.owned _ hmapped
    have hlive : (s.threads j).phase ≠ .gone := fun hgone => by
      rwa [hgone] at hmaps
    obtain rfl := h.apart j i hlive (hphase ▸ nofun) hj
    rw [hphase] at hmaps
    exact hmaps.elim
  · show (s.tasks.set (s.threads i).tid none)[id]? = some (some j)
    rw [getElem?_set_ne (Ne.symm hid)]
    exact ht

end

/-- **One event keeps the invariant**, where it meets the condition. -/
theorem event {e : Event} (h : Inv s) (hok : StepOk s e) (hs : s.event e = some s') : Inv s' := by
  obtain ⟨-, hs⟩ := ite_none_right_eq_some.mp hs
  cases e with
  | allocTid supplied =>
    cases hs
    exact h.allocTid hok
  | allocUserRes i frame =>
    obtain ⟨hphase, rfl⟩ := of_guard hs
    exact h.allocUserRes hphase hok
  | trapCxPpn i =>
    obtain ⟨hphase, rfl⟩ := of_guard hs
    exact h.readTrapCx hphase
  | attachTask i =>
    obtain ⟨hphase, rfl⟩ := of_guard hs
    exact h.attachTask hphase
  | deallocTid i =>
    obtain ⟨hphase, rfl⟩ := of_guard hs
    exact h.deallocTid hphase.1
  | deallocUserRes i =>
    obtain ⟨hphase, rfl⟩ := of_guard hs
    exact h.deallocUserRes hphase
  | clearSlot i =>
    obtain ⟨hphase, rfl⟩ := of_guard hs
    exact h.clearSlot hphase

lemma boot (frame : Nat) : Inv (.boot frame) := by
  have hmain : (State.boot frame).threads 0 = ⟨0, true, some frame, .attached⟩ := rfl
  have hother {j : Nat} (hj : j ≠ 0) : (State.boot frame).threads j = State.goneThread := by
    simp [State.boot, update_of_ne hj]
  have hmapped : (State.boot frame).trapPage 0 = some frame := rfl
  have hgone {j : Nat} (hj : ((State.boot frame).threads j).phase ≠ .gone) : j = 0 := by
    by_contra hne
    rw [hother hne] at hj
    exact hj rfl
  refine ⟨⟨.nil, nofun⟩, fun j k hj hk _ => (hgone hj).trans (hgone hk).symm, fun id hid => ?_,
    fun j hj => hother (Nat.ne_of_gt hj), fun j => ?_, rfl⟩
  · rcases eq_or_ne id 0 with rfl | hne
    · exact ⟨0, by rw [hmain]; trivial, by rw [hmain]⟩
    · simp only [State.boot, update_of_ne hne] at hid
      exact absurd rfl hid
  · rcases eq_or_ne j 0 with rfl | hne
    · rw [hmain]
      exact ⟨⟨Nat.one_pos, nofun⟩, by rw [hmapped]; exact nofun, hmapped, rfl⟩
    · rw [hother hne]
      trivial

lemma reachable (h : system.Reachable StepOk s) : Inv s := by
  apply h.invariant
  · rintro s ⟨frame, rfl⟩
    exact boot frame
  · exact fun s e s' hinv hok hs => hinv.event hok hs

end Inv

/-! ## Whole runs -/

/-- Live threads have different tids, and an attached one is in its slot with its trap page. -/
structure State.SlotsOwned (s : State) : Prop where
  distinct : ∀ i j, (s.threads i).phase.Live → (s.threads j).phase.Live →
    (s.threads i).tid = (s.threads j).tid → i = j
  slot : ∀ i, (s.threads i).phase = .attached → s.tasks[(s.threads i).tid]? = some (some i)
  trapPage : ∀ i, (s.threads i).phase = .attached →
    s.trapPage (s.threads i).tid ≠ none ∧ s.trapPage (s.threads i).tid = (s.threads i).trapCxPpn

/-- **Thread slots**: in every run that hands out no tid before its old thread has cleared its
slot, threads own their tids, slots and trap pages, and no assertion fails. -/
theorem thread_slots_owned (s : State) (h : system.Reachable StepOk s) :
    s.SlotsOwned ∧ s.panic = none := by
  have hinv := Inv.reachable h
  have hlive {i : Nat} (hi : (s.threads i).phase.Live) : (s.threads i).phase ≠ .gone :=
    fun hgone => by
      rwa [hgone] at hi
  refine ⟨⟨fun i j hi hj heq => hinv.apart i j (hlive hi) (hlive hj) heq, fun i hi => ?_,
    fun i hi => ?_⟩, hinv.panic⟩
  · have hok := hinv.thread i
    rw [ThreadOk, hi] at hok
    exact hok.2.2.2
  · have hok := hinv.thread i
    rw [ThreadOk, hi] at hok
    exact ⟨hok.2.1, hok.2.2.1⟩

/-- A thread is created and exits, and its tid goes to the next one. -/
def reuseTrace : List Event :=
  [.allocTid true, .allocUserRes 1 (some 7), .trapCxPpn 1, .attachTask 1, .deallocTid 1,
    .deallocUserRes 1, .clearSlot 1, .allocTid false, .allocUserRes 2 (some 8), .trapCxPpn 2,
    .attachTask 2]

theorem thread_slots_owned_reuse :
    ∃ s, system.runWhile StepOk (.boot 5) reuseTrace = some s ∧ (s.threads 2).tid = 1 ∧
      s.tasks[1]? = some (some 2) ∧ s.trapPage 1 = some 8 := by
  have hrun : (system.runWhile StepOk (.boot 5) reuseTrace).map (fun s => s.threads 2) =
      some ⟨1, true, some 8, .attached⟩ := by decide
  obtain ⟨s, hreach, hs, hthread⟩ := System.exists_reachable hrun ⟨5, rfl⟩
  have howned := (thread_slots_owned s hreach).1
  have hslot := howned.slot 2 (by rw [hthread])
  have hpage := (howned.trapPage 2 (by rw [hthread])).2
  rw [hthread] at hslot hpage
  exact ⟨s, hs, by rw [hthread], hslot, hpage⟩

/-- A clone takes the tid of an exiting thread and is attached before the slot is cleared. -/
def lostSlotTrace : List Event :=
  [.allocTid true, .allocUserRes 1 (some 7), .trapCxPpn 1, .attachTask 1, .deallocTid 1,
    .deallocUserRes 1, .allocTid true, .allocUserRes 2 (some 8), .trapCxPpn 2, .attachTask 2,
    .clearSlot 1]

/-- A clone takes the tid of an exiting thread whose trap page is still mapped. -/
def stillMappedTrace : List Event :=
  [.allocTid true, .allocUserRes 1 (some 7), .trapCxPpn 1, .attachTask 1, .deallocTid 1,
    .allocTid true, .allocUserRes 2 (some 8)]

/-- **A tid that is reused too early** loses its slot, or trips the trap-context assertion. -/
theorem reused_tid_loses_slot :
    (∃ s, system.runWhile System.anyStep (.boot 5) lostSlotTrace = some s ∧
      (s.threads 2).phase = .attached ∧ (s.threads 2).tid = 1 ∧ s.tasks[1]? = some none) ∧
    (∃ s, system.runWhile System.anyStep (.boot 5) stillMappedTrace = some s ∧
      s.panic = some .trapContext) := by
  refine ⟨⟨_, rfl, ?_⟩, ⟨_, rfl, ?_⟩⟩ <;> decide

end Whusp.Task.ThreadSlots
