import Whusp.Mm.ElfLoader
import Whusp.Task.ExecStack
import Whusp.Task.Signal

/-!
# exec

`ProcessControlBlock::exec` of `task/exec.rs` with the thread-group teardown of `task/mod.rs`.
The call passes its checks, tears down the other threads, loads the image, plans the stack,
commits the new image and builds the stack; every stage but the commit can fail.

A result `none` is a panic of the kernel.  The user memory that the teardown clears for the dying
threads and the registry of Linux thread ids are not part of the state.
-/

namespace Whusp.Task

open Option

open Whusp.Lib (Byte)
open Whusp.Mm (Machine MemorySet MapPermission ElfImage ElfLoadInfo LoadEnv fromElfLazy
  fromElfLazy_spec checkedAdd pageAlignUp VpnRange USER_STACK_SIZE)
open Whusp.Syscall (Arch USIZE_RANGE)

/-! ## The process -/

structure TaskUserRes where
  tid : Nat
  ustackBase : Nat
  userStackAllocated : Bool

/-- The fields of a task that exec reads and writes. -/
structure ExecTask where
  tid : Nat
  exited : Bool
  exitCode : Option Int
  clearChildTid : Option Nat
  robustListHead : Nat
  res : Option TaskUserRes

structure FdTableEntry where
  file : Nat
  closeOnExec : Bool

structure ExecProcess where
  /-- The token of the page table of `memorySet`. -/
  token : Nat
  memorySet : MemorySet
  tasks : List (Option Nat)
  table : Nat → ExecTask
  fdTable : List (Option FdTableEntry)
  executableNode : Option Nat
  executablePath : List Byte
  didExecAfterFork : Bool
  cmdline : List (List Byte)
  signalActions : List SignalAction
  exclusiveTask : Option Nat

/-- The arguments of exec, and what the rest of the kernel answers during the call. -/
structure ExecCall where
  current : Option Nat
  image : ElfImage
  interpreter : Option ElfImage
  args : List (List Byte)
  envs : List (List Byte)
  executablePath : List Byte
  executableNode : Option Nat
  uid : Nat
  euid : Nat
  gid : Nat
  egid : Nat
  hwcap : Nat
  env : LoadEnv
  /-- The trap-context page can be mapped. -/
  trapFrame : Bool
  /-- The pages that the new page table maps before the stack is built. -/
  present : Nat → Bool
  frame : Nat → Bool
  copied : Bool

/-! ## Resources of a thread -/

def TRAMPOLINE : Nat := USIZE_RANGE - PAGE_SIZE
def TRAP_CONTEXT_BASE : Nat := TRAMPOLINE - PAGE_SIZE

def trapCxBottomFromTid (tid : Nat) : Nat := TRAP_CONTEXT_BASE - tid * PAGE_SIZE

def ustackBottomFromTid (ustackBase tid : Nat) : Nat :=
  ustackBase + tid * (PAGE_SIZE + USER_STACK_SIZE)

def TaskUserRes.ustackTop (res : TaskUserRes) : Nat :=
  ustackBottomFromTid res.ustackBase res.tid + USER_STACK_SIZE

/-- `dealloc_user_res`, in the drop of the resources. -/
def TaskUserRes.dealloc (arch : Arch) (s : MemorySet) (res : TaskUserRes) : MemorySet :=
  let s := if res.userStackAllocated then
      s.removeAreaWithStartVpn (arch.floor (ustackBottomFromTid res.ustackBase res.tid))
    else s
  s.removeAreaWithStartVpn (arch.floor (trapCxBottomFromTid res.tid))

/-- `alloc_user_res`; `none` is the failed assertion on the trap-context page. -/
def TaskUserRes.alloc (m : Machine) (s : MemorySet) (res : TaskUserRes) (trapFrame : Bool) :
    Option MemorySet := do
  let bottom := ustackBottomFromTid res.ustackBase res.tid
  let (_, s) ← s.pushFramed m bottom res.ustackTop ⟨true, true, false, true⟩ true
  let trapCx := trapCxBottomFromTid res.tid
  let (mapped, s) ← s.pushFramed m trapCx (trapCx + PAGE_SIZE) ⟨true, true, false, false⟩ trapFrame
  if mapped then return s else none

/-- The loop of `materialize_framed_range`. -/
def materializeLoop (present frame : Nat → Bool) : List Nat → MemorySet → Bool
  | [], _ => true
  | vpn :: rest, s =>
    if present vpn then materializeLoop present frame rest s
    else
      match s.findAreaIdxContaining vpn with
      | (none, _) => false
      | (some idx, s) =>
        match s.areas[idx]? with
        | none => false
        | some area =>
          if area.isMmap || area.isShm || !area.mapPerm.u then false
          else if frame vpn then materializeLoop present frame rest s
          else false

def materializeFramedRange (m : Machine) (s : MemorySet) (present frame : Nat → Bool)
    (start stop : Nat) : Option Bool :=
  if stop ≤ start then some true
  else
    (VpnRange.new? (m.arch.floor start) (m.arch.floor (pageAlignUp stop))).map fun range =>
      materializeLoop present frame (List.range' range.start (range.stop - range.start)) s

/-! ## The thread group -/

namespace ExecTask

/-- What the teardown does to a thread; its resources are taken out. -/
def terminate (task : ExecTask) : ExecTask :=
  { task with
    exited := true
    exitCode := some 0
    clearChildTid := none
    res := none }

end ExecTask

/-- What a loop over the slots leaves. -/
structure Teardown where
  slots : List (Option Nat)
  table : Nat → ExecTask
  recycled : List TaskUserRes

open Function

/-- The loop of `terminate_sibling_threads`, at slot `tid`. -/
def terminateLoop (currentTid : Nat) : Nat → List (Option Nat) → (Nat → ExecTask) → Teardown
  | _, [], table => ⟨[], table, []⟩
  | tid, none :: rest, table =>
    let r := terminateLoop currentTid (tid + 1) rest table
    { r with slots := none :: r.slots }
  | tid, some t :: rest, table =>
    if tid = currentTid then
      let r := terminateLoop currentTid (tid + 1) rest table
      { r with slots := some t :: r.slots }
    else
      let r := terminateLoop currentTid (tid + 1) rest
        (update table t (table t).terminate)
      { r with
        slots := (if tid ≠ 0 then none else some t) :: r.slots
        recycled := (table t).res.toList ++ r.recycled }

/-- What the loop of `rebind_non_leader_for_exec` leaves. -/
structure Rebind extends Teardown where
  leaderRes : Option TaskUserRes

/-- The loop of `rebind_non_leader_for_exec`, at slot `tid`. -/
def rebindLoop (current : Nat) :
    Nat → List (Option Nat) → (Nat → ExecTask) → Option TaskUserRes → Rebind
  | _, [], table, leaderRes => ⟨⟨[], table, []⟩, leaderRes⟩
  | tid, none :: rest, table, leaderRes =>
    let r := rebindLoop current (tid + 1) rest table leaderRes
    { r with slots := none :: r.slots }
  | tid, some t :: rest, table, leaderRes =>
    if t = current then
      let r := rebindLoop current (tid + 1) rest table leaderRes
      { r with slots := none :: r.slots }
    else
      let table' := update table t (table t).terminate
      let r := rebindLoop current (tid + 1) rest table'
        (if tid = 0 then (table t).res else leaderRes)
      { r with
        slots := none :: r.slots
        recycled := (if tid = 0 then [] else (table t).res.toList) ++ r.recycled }

/-- The slots behind the first one lose their empty end. -/
def trimSlots : List (Option Nat) → List (Option Nat)
  | [] => []
  | first :: rest => first :: (rest.reverse.dropWhile Option.isNone).reverse

namespace ExecProcess

def threadCount (p : ExecProcess) : Nat := p.tasks.countP Option.isSome

/-- `recycle_res.clear()`. -/
def recycle (arch : Arch) (p : ExecProcess) (recycled : List TaskUserRes) : ExecProcess :=
  { p with memorySet := recycled.foldl (TaskUserRes.dealloc arch) p.memorySet }

def terminateSiblingThreads (arch : Arch) (p : ExecProcess) (currentTid : Nat) : ExecProcess :=
  let r := terminateLoop currentTid 0 p.tasks p.table
  { p with tasks := r.slots, table := r.table }.recycle arch r.recycled

/-- The end of `rebind_non_leader_for_exec`: the caller takes the place of the leader. -/
def rebound (arch : Arch) (p : ExecProcess) (current : Nat) (r : Rebind)
    (leaderRes : TaskUserRes) : ExecProcess :=
  let old := r.table current
  { p with
    tasks := trimSlots (r.slots.set 0 (some current))
    table := update r.table current
      { old with
        res := some leaderRes
        tid := 0
        clearChildTid := none } }.recycle arch (r.recycled ++ old.res.toList)

def rebindNonLeaderForExec (arch : Arch) (p : ExecProcess) (current : Nat) :
    Except ExecErrno Unit × ExecProcess :=
  if p.tasks[(p.table current).tid]? ≠ some (some current) then (.error .ESRCH, p)
  else
    match p.tasks[0]?.join with
    | none => (.error .ESRCH, p)
    | some leader =>
      if (p.table leader).res = none then (.error .ESRCH, p)
      else
        let r := rebindLoop current 0 p.tasks p.table none
        match r.leaderRes with
        | none => (.error .ESRCH, { p with tasks := r.slots, table := r.table })
        | some leaderRes => (.ok (), p.rebound arch current r leaderRes)

def prepareExecThreadGroup (arch : Arch) (p : ExecProcess) (current : Nat) :
    Except ExecErrno Unit × ExecProcess :=
  if p.threadCount ≤ 1 then
    if (p.table current).tid = 0 then (.ok (), p) else (.error .ESRCH, p)
  else if (p.table current).tid = 0 then (.ok (), p.terminateSiblingThreads arch 0)
  else p.rebindNonLeaderForExec arch current

/-! ## The call -/

def closeOnExecFdEntries (fdTable : List (Option FdTableEntry)) : List (Option FdTableEntry) :=
  fdTable.map fun entry => entry.filter fun e => !e.closeOnExec

def resetSignalActions (actions : List SignalAction) : List SignalAction :=
  actions.map fun action => if action.hasUserHandler then .dfl else action

def commit (p : ExecProcess) (c : ExecCall) (info : ElfLoadInfo) : ExecProcess :=
  { p with
    token := info.token
    memorySet := info.memorySet
    executableNode := c.executableNode
    executablePath := c.executablePath
    didExecAfterFork := true
    cmdline := c.args
    signalActions := resetSignalActions p.signalActions
    fdTable := closeOnExecFdEntries p.fdTable }

/-- The stages after the stack area is in place; `backed` is the answer of
`materialize_framed_range`. -/
def buildStack (p : ExecProcess) (c : ExecCall) (layout : ExecStackLayout) :
    Option Bool → Option (Except ExecErrno Unit × ExecProcess)
  | none => none
  | some false => some (.error .ENOMEM, p)
  | some true =>
    match writeUserStack layout c.args c.envs c.copied with
    | .error e => some (.error e, p)
    | .ok _ => some (.ok (), p)

/-- The task that goes on, with its resources in the new image. -/
def withRes (p : ExecProcess) (task : Nat) (res : TaskUserRes) (memorySet : MemorySet) :
    ExecProcess :=
  { p with
    memorySet
    table := update p.table task
      { p.table task with robustListHead := 0, res := some res } }

/-- The stages after the commit, for the task that goes on. -/
def rebuild (m : Machine) (p : ExecProcess) (c : ExecCall) (task : Nat) (info : ElfLoadInfo)
    (layout : ExecStackLayout) : Option (Except ExecErrno Unit × ExecProcess) :=
  (p.table task).res.bind fun old =>
    let res := { old with ustackBase := info.ustackBase, userStackAllocated := true }
    (res.alloc m p.memorySet c.trapFrame).bind fun memorySet =>
      (p.withRes task res memorySet).buildStack c layout
        (materializeFramedRange m memorySet c.present c.frame layout.userSp res.ustackTop)

end ExecProcess

def ExecCall.stackInfo (c : ExecCall) (info : ElfLoadInfo) : ExecStackInfo where
  atEntry := info.programEntry
  phdr := info.phdr
  phent := info.phent
  phnum := info.phnum
  interpBase := info.interpBase
  uid := c.uid
  euid := c.euid
  gid := c.gid
  egid := c.egid
  hwcap := c.hwcap
  sysinfoEhdr := info.sysinfoEhdr

namespace ExecProcess

/-- The commit, if the plan of the stack is made. -/
def commitPlan (m : Machine) (p : ExecProcess) (c : ExecCall) (task : Nat) (info : ElfLoadInfo) :
    Except ExecErrno ExecStackLayout → Option (Except ExecErrno Unit × ExecProcess)
  | .error e => some (.error e, p)
  | .ok layout => (p.commit c info).rebuild m c task info layout

/-- The plan of the stack, if its top is an address. -/
def planStack (m : Machine) (p : ExecProcess) (c : ExecCall) (task : Nat) (info : ElfLoadInfo) :
    Option Nat → Option (Except ExecErrno Unit × ExecProcess)
  | none => some (.error .E2BIG, p)
  | some stackTop =>
    p.commitPlan m c task info (planUserStack stackTop c.args c.envs (c.stackInfo info))

/-- The stages from the loading of the image on. -/
def execImage (m : Machine) (p : ExecProcess) (c : ExecCall) (task : Nat) :
    Option (Except ExecErrno Unit × ExecProcess) :=
  match fromElfLazy m c.env c.image c.interpreter with
  | none => none
  | some none => some (.error .ENOEXEC, p)
  | some (some info) => p.planStack m c task info (checkedAdd info.ustackBase USER_STACK_SIZE)

end ExecProcess

def ExecProcess.exec (m : Machine) (p : ExecProcess) (c : ExecCall) :
    Option (Except ExecErrno Unit × ExecProcess) :=
  match c.current with
  | none => some (.error .ESRCH, p)
  | some current =>
    if p.exclusiveTask ≠ none then some (.error .EAGAIN, p)
    else
      match p.prepareExecThreadGroup m.arch current with
      | (.error e, p) => some (.error e, p)
      | (.ok (), p) => p.execImage m c current

/-! ## The teardown -/

namespace ExecProcess

/-- A task is in the slot of its tid, and its resources are those of its tid. -/
structure WellFormed (p : ExecProcess) : Prop where
  slot_tid : ∀ (i t : Nat), p.tasks[i]? = some (some t) → (p.table t).tid = i
  res_tid : ∀ t res, (p.table t).res = some res → res.tid = (p.table t).tid

/-- The checks on the caller that the teardown makes. -/
def CanPrepare (p : ExecProcess) (t : Nat) : Prop :=
  (p.table t).tid = 0 ∨
    (1 < p.threadCount ∧ p.tasks[(p.table t).tid]? = some (some t) ∧
      ∃ leader, p.tasks[0]? = some (some leader) ∧ (p.table leader).res ≠ none)

end ExecProcess

section

variable (currentTid tid : Nat) (slots : List (Option Nat)) (table : Nat → ExecTask)

/-- Behind slot 0, every slot but that of the caller is cleared. -/
lemma terminateLoop_slots {i : Nat} (hi : i < slots.length) (hzero : tid + i ≠ 0)
    (hne : tid + i ≠ currentTid) :
    (terminateLoop currentTid tid slots table).slots[i]? = some none := by
  induction slots generalizing tid table i with
  | nil => exact absurd hi (Nat.not_lt_zero i)
  | cons slot rest ih =>
    have hshift (j : Nat) : tid + 1 + j = tid + (j + 1) := by omega
    cases slot with
    | none =>
      cases i with
      | zero => rfl
      | succ j =>
        exact ih (tid + 1) table (Nat.lt_of_succ_lt_succ hi) (hshift j ▸ hzero) (hshift j ▸ hne)
    | some t =>
      rw [terminateLoop]
      cases i with
      | zero =>
        simp only [add_zero] at hzero hne
        rw [if_neg hne]
        exact congrArg some (if_pos hzero)
      | succ j =>
        split
        all_goals
          exact ih (tid + 1) _ (Nat.lt_of_succ_lt_succ hi) (hshift j ▸ hzero) (hshift j ▸ hne)

/-- A task that is in no slot but the caller's own is left alone. -/
lemma terminateLoop_table {t : Nat} (h : ∀ i, slots[i]? = some (some t) → tid + i = currentTid) :
    (terminateLoop currentTid tid slots table).table t = table t := by
  induction slots generalizing tid table with
  | nil => rfl
  | cons slot rest ih =>
    have hrest (i : Nat) (hi : rest[i]? = some (some t)) : tid + 1 + i = currentTid := by
      have := h (i + 1) hi
      omega
    rcases slot with _ | u
    · exact ih (tid + 1) table hrest
    rw [terminateLoop]
    split
    · exact ih (tid + 1) table hrest
    next hne =>
      have hut : t ≠ u := by
        rintro rfl
        exact hne (h 0 rfl)
      exact (ih (tid + 1) _ hrest).trans (update_of_ne hut ..)

end

/-- Behind slot 0, the loop does not touch the resources of the leader. -/
lemma rebindLoop_leaderRes (current tid : Nat) (slots : List (Option Nat))
    (table : Nat → ExecTask) (leaderRes : Option TaskUserRes) (htid : tid ≠ 0) :
    (rebindLoop current tid slots table leaderRes).leaderRes = leaderRes := by
  induction slots generalizing tid table with
  | nil => rfl
  | cons slot rest ih =>
    cases slot with
    | none => exact ih (tid + 1) table (Nat.succ_ne_zero tid)
    | some t =>
      rw [rebindLoop]
      split
      · exact ih (tid + 1) table (Nat.succ_ne_zero tid)
      · exact ih (tid + 1) _ (Nat.succ_ne_zero tid)

lemma rebindLoop_length (current tid : Nat) (slots : List (Option Nat))
    (table : Nat → ExecTask) (leaderRes : Option TaskUserRes) :
    (rebindLoop current tid slots table leaderRes).slots.length = slots.length := by
  induction slots generalizing tid table leaderRes with
  | nil => rfl
  | cons slot rest ih =>
    cases slot with
    | none => exact congrArg (· + 1) (ih ..)
    | some t =>
      rw [rebindLoop]
      split <;> exact congrArg (· + 1) (ih ..)

lemma getElem?_trimSlots_zero (l : List (Option Nat)) : (trimSlots l)[0]? = l[0]? := by
  cases l <;> rfl

namespace ExecProcess

variable {p : ExecProcess} {t : Nat}

/-- With more than one thread, some slot behind the first one is taken. -/
lemma exists_sibling (h : 1 < p.threadCount) : ∃ i u, i ≠ 0 ∧ p.tasks[i]? = some (some u) := by
  unfold threadCount at h
  cases htasks : p.tasks with
  | nil =>
    rw [htasks] at h
    exact absurd h (by decide)
  | cons first rest =>
    rw [htasks, List.countP_cons] at h
    have hpos : 0 < rest.countP Option.isSome := by
      split at h <;> omega
    obtain ⟨slot, hmem, hsome⟩ := List.countP_pos_iff.mp hpos
    obtain ⟨u, rfl⟩ := isSome_iff_exists.mp hsome
    obtain ⟨i, hi⟩ := List.mem_iff_getElem?.mp hmem
    exact ⟨i + 1, u, Nat.succ_ne_zero i, hi⟩

/-- The resources that the caller goes on with. -/
def callerRes (p : ExecProcess) (t : Nat) : Option TaskUserRes :=
  if (p.table t).tid = 0 then (p.table t).res
  else (p.tasks[0]?.join).bind fun leader => (p.table leader).res

/-- What the teardown leaves for the later stages, when it has changed the slots. -/
structure TornDown (p p' : ExecProcess) (t : Nat) : Prop where
  tasks_ne : p'.tasks ≠ p.tasks
  token_eq : p'.token = p.token
  res_eq : (p'.table t).res = p.callerRes t

lemma terminateSiblingThreads_tornDown (arch : Arch) (hp : p.WellFormed)
    (htid : (p.table t).tid = 0) (hcount : 1 < p.threadCount) :
    TornDown p (p.terminateSiblingThreads arch 0) t := by
  obtain ⟨i, u, hi, hslot⟩ := exists_sibling hcount
  refine ⟨fun heq => ?_, rfl, ?_⟩
  · have hcleared := terminateLoop_slots 0 0 p.tasks p.table
      (List.getElem?_eq_some_iff.mp hslot).1 ((zero_add i).symm ▸ hi) ((zero_add i).symm ▸ hi)
    have hsame : (terminateLoop 0 0 p.tasks p.table).slots = p.tasks := heq
    simp [hsame, hslot] at hcleared
  · have htable := terminateLoop_table 0 0 p.tasks p.table
      fun j hj => (zero_add j).trans ((hp.slot_tid j t hj).symm.trans htid)
    show ((terminateLoop 0 0 p.tasks p.table).table t).res = _
    rw [htable, callerRes, if_pos htid]

lemma rebindNonLeaderForExec_tornDown (arch : Arch) (hp : p.WellFormed) {leader : Nat}
    (htid : (p.table t).tid ≠ 0) (hcurrent : p.tasks[(p.table t).tid]? = some (some t))
    (hleader : p.tasks[0]? = some (some leader)) (hres : (p.table leader).res ≠ none) :
    ∃ p', p.rebindNonLeaderForExec arch t = (.ok (), p') ∧ TornDown p p' t := by
  obtain ⟨res, hres'⟩ := ne_none_iff_exists'.mp hres
  have hne : leader ≠ t := by
    rintro rfl
    exact htid (hp.slot_tid 0 leader hleader)
  have hleaderRes : (rebindLoop t 0 p.tasks p.table none).leaderRes = some res := by
    cases htasks : p.tasks with
    | nil =>
      simp [htasks] at hleader
    | cons first rest =>
      rw [htasks] at hleader
      obtain rfl : first = some leader := some.inj hleader
      rw [rebindLoop, if_neg hne]
      rw [hres']
      exact rebindLoop_leaderRes _ _ _ _ _ one_ne_zero
  have hrun : p.rebindNonLeaderForExec arch t =
      (.ok (), p.rebound arch t (rebindLoop t 0 p.tasks p.table none) res) := by
    rw [rebindNonLeaderForExec, if_neg (not_not_intro hcurrent)]
    simp [hleader, if_neg hres, hleaderRes]
  refine ⟨_, hrun, fun heq => ?_, rfl, ?_⟩
  · -- the caller is in slot 0 now
    have hfirst : (trimSlots ((rebindLoop t 0 p.tasks p.table none).slots.set 0 (some t)))[0]? =
        some (some t) := by
      rw [getElem?_trimSlots_zero, List.getElem?_set_self]
      rw [rebindLoop_length]
      exact (List.getElem?_eq_some_iff.mp hleader).1
    have hsame : trimSlots ((rebindLoop t 0 p.tasks p.table none).slots.set 0 (some t)) = p.tasks :=
      heq
    rw [hsame, hleader] at hfirst
    exact hne (some.inj (some.inj hfirst))
  · show (update (rebindLoop t 0 p.tasks p.table none).table t _ t).res = _
    rw [update_self, callerRes, if_neg htid, hleader]
    exact hres'.symm

/-- A caller that fails the checks leaves everything as it is. -/
lemma rebindNonLeaderForExec_refused (arch : Arch) (hcount : 1 < p.threadCount)
    (hcan : ¬ p.CanPrepare t) : p.rebindNonLeaderForExec arch t = (.error .ESRCH, p) := by
  unfold rebindNonLeaderForExec
  by_cases hcurrent : p.tasks[(p.table t).tid]? = some (some t)
  swap
  · rw [if_pos hcurrent]
  rw [if_neg (not_not_intro hcurrent)]
  cases hleader : p.tasks[0]?.join with
  | none => rfl
  | some leader =>
    have hslot : p.tasks[0]? = some (some leader) := join_eq_some_iff.mp hleader
    have hres : (p.table leader).res = none := by
      by_contra hres
      exact hcan (.inr ⟨hcount, hcurrent, leader, hslot, hres⟩)
    exact if_pos hres

/-- **The teardown** fails without a change, has nothing to do, or changes the slots. -/
theorem prepareExecThreadGroup_cases (arch : Arch) (hp : p.WellFormed) (t : Nat) :
    (¬ p.CanPrepare t ∧ p.prepareExecThreadGroup arch t = (.error .ESRCH, p)) ∨
    (p.CanPrepare t ∧ p.threadCount ≤ 1 ∧ p.prepareExecThreadGroup arch t = (.ok (), p)) ∨
    (p.CanPrepare t ∧ 1 < p.threadCount ∧
      ∃ p', p.prepareExecThreadGroup arch t = (.ok (), p') ∧ TornDown p p' t) := by
  unfold prepareExecThreadGroup
  by_cases hcount : p.threadCount ≤ 1
  · rw [if_pos hcount]
    by_cases htid : (p.table t).tid = 0
    · exact .inr (.inl ⟨.inl htid, hcount, if_pos htid⟩)
    refine .inl ⟨?_, if_neg htid⟩
    rintro (hzero | ⟨hmany, -⟩)
    · exact htid hzero
    · omega
  · rw [if_neg hcount]
    have hmany := not_le.mp hcount
    by_cases htid : (p.table t).tid = 0
    · exact .inr (.inr ⟨.inl htid, hmany, _, if_pos htid,
        terminateSiblingThreads_tornDown arch hp htid hmany⟩)
    rw [if_neg htid]
    by_cases hcan : p.CanPrepare t
    · obtain hzero | ⟨-, hcurrent, leader, hleader, hres⟩ := id hcan
      · exact absurd hzero htid
      · exact .inr (.inr ⟨hcan, hmany,
          rebindNonLeaderForExec_tornDown arch hp htid hcurrent hleader hres⟩)
    · exact .inl ⟨hcan, rebindNonLeaderForExec_refused arch hmany hcan⟩

end ExecProcess

/-! ## The stages after the teardown -/

/-- The errors that a caller of exec expects. -/
def ExecErrno.Reported : ExecErrno → Prop
  | .EFAULT => False
  | _ => True

namespace ExecCall

variable (m : Machine) (c : ExecCall)

/-- The stack of the image does not fit below the end of the address space, or the strings and
tables do not fit on the stack. -/
def TooBig (info : ElfLoadInfo) : Prop :=
  USIZE_RANGE ≤ info.ustackBase + USER_STACK_SIZE ∨
    USER_STACK_SIZE < stackNeed c.args c.envs (c.stackInfo info)

/-- The image does not load, or its stack is too big. -/
def Refused : Prop :=
  fromElfLazy m c.env c.image c.interpreter = some none ∨
    ∃ info, fromElfLazy m c.env c.image c.interpreter = some (some info) ∧ c.TooBig info

/-- The resources of the main thread of the new image. -/
def mainRes (info : ElfLoadInfo) : TaskUserRes := ⟨0, info.ustackBase, true⟩

/-- The pages of the stack from `userSp` to its top cannot be provided. -/
def StackUnbacked (info : ElfLoadInfo) (userSp : Nat) : Prop :=
  ∃ memorySet, (mainRes info).alloc m info.memorySet c.trapFrame = some memorySet ∧
    materializeFramedRange m memorySet c.present c.frame userSp (mainRes info).ustackTop =
      some false

/-- The image loads, its stack is not too big, and the pages of the stack cannot be provided. -/
def StackFails : Prop :=
  ∃ info, fromElfLazy m c.env c.image c.interpreter = some (some info) ∧ ¬ c.TooBig info ∧
    c.StackUnbacked m info
      (info.ustackBase + USER_STACK_SIZE - stackNeed c.args c.envs (c.stackInfo info))

end ExecCall

variable {e : ExecErrno} {layout : ExecStackLayout}

lemma writeStackBytes_error {buffer : List Byte} {write : Nat × List Byte}
    (h : writeStackBytes layout buffer write = .error e) : e = .EFAULT := by
  simp only [writeStackBytes] at h
  split at h
  · cases h
  · cases h
    rfl

/-- Writing the stack fails only with `EFAULT`. -/
lemma writeUserStack_error {args envs : List (List Byte)} {copied : Bool}
    (h : writeUserStack layout args envs copied = .error e) : e = .EFAULT := by
  have hfold (writes : List (Nat × List Byte)) (buffer : List Byte)
      (h : writes.foldlM (writeStackBytes layout) buffer = .error e) : e = .EFAULT := by
    induction writes generalizing buffer with
    | nil => cases h
    | cons write rest ih =>
      rw [List.foldlM_cons] at h
      cases hwrite : writeStackBytes layout buffer write with
      | error e' =>
        rw [hwrite] at h
        cases h
        exact writeStackBytes_error hwrite
      | ok buffer' =>
        rw [hwrite] at h
        exact ih buffer' h
  unfold writeUserStack at h
  cases hwrites : (stackWrites layout args envs).foldlM (writeStackBytes layout)
      (List.replicate (layout.stackTop - layout.userSp) 0) with
  | error e' =>
    rw [hwrites] at h
    cases h
    exact hfold _ _ hwrites
  | ok buffer =>
    rw [hwrites] at h
    cases copied <;> cases h
    rfl

namespace ExecProcess

variable {m : Machine} {p p' : ExecProcess} {c : ExecCall} {t : Nat} {info : ElfLoadInfo}
variable {backed : Option Bool} {layout : ExecStackLayout} {result : Except ExecErrno Unit}
  {e : ExecErrno} {res : TaskUserRes}

lemma buildStack_process (h : p.buildStack c layout backed = some (result, p')) : p' = p := by
  unfold buildStack at h
  split at h
  · cases h
  · cases h
    rfl
  · split at h <;> cases h <;> rfl

lemma buildStack_error (h : p.buildStack c layout backed = some (.error e, p'))
    (hne : backed ≠ some false) : e = .EFAULT := by
  unfold buildStack at h
  split at h
  · cases h
  · exact absurd rfl hne
  split at h
  next hwrite =>
    cases h
    exact writeUserStack_error hwrite
  next => cases h

lemma rebuild_token (h : (p.commit c info).rebuild m c t info layout = some (result, p')) :
    p'.token = info.token := by
  obtain ⟨old, -, h⟩ := bind_eq_some_iff.mp h
  obtain ⟨memorySet, -, h⟩ := bind_eq_some_iff.mp h
  rw [buildStack_process h]
  rfl

open ExecCall

/-- **The stages after the commit** fail with `ENOMEM` exactly if the stack cannot be provided. -/
theorem rebuild_cases (m : Machine) (c : ExecCall) (info : ElfLoadInfo) (layout : ExecStackLayout)
    (hres : (p.table t).res = some res) (htid : res.tid = 0) :
    (c.StackUnbacked m info layout.userSp ∧
      ∃ p', (p.commit c info).rebuild m c t info layout = some (.error .ENOMEM, p')) ∨
    (¬ c.StackUnbacked m info layout.userSp ∧ ∀ e p',
      (p.commit c info).rebuild m c t info layout = some (.error e, p') → e = .EFAULT) := by
  obtain ⟨tid, base, allocated⟩ := res
  obtain rfl : tid = 0 := htid
  have hrebuild : (p.commit c info).rebuild m c t info layout =
      ((mainRes info).alloc m info.memorySet c.trapFrame).bind fun memorySet =>
        ((p.commit c info).withRes t (mainRes info) memorySet).buildStack c layout
          (materializeFramedRange m memorySet c.present c.frame layout.userSp
            (mainRes info).ustackTop) := by
    have hcommit : ((p.commit c info).table t).res = some ⟨0, base, allocated⟩ := hres
    rw [rebuild, hcommit]
    rfl
  rw [hrebuild]
  unfold ExecCall.StackUnbacked
  rcases halloc : (mainRes info).alloc m info.memorySet c.trapFrame with _ | memorySet
  · simp
  by_cases hbacked : materializeFramedRange m memorySet c.present c.frame layout.userSp
      (mainRes info).ustackTop = some false
  · refine .inl ⟨⟨memorySet, rfl, hbacked⟩,
      (p.commit c info).withRes t (mainRes info) memorySet, ?_⟩
    rw [bind_some, hbacked, buildStack]
  refine .inr ⟨?_, fun e p' h => ?_⟩
  · rintro ⟨memorySet', heq, hfalse⟩
    cases heq
    exact hbacked hfalse
  · rw [bind_some] at h
    exact buildStack_error h hbacked

/-- **A loaded image** is refused if its stack is too big, and committed otherwise. -/
theorem execImage_loaded (p : ExecProcess) (t : Nat)
    (hload : fromElfLazy m c.env c.image c.interpreter = some (some info)) :
    (c.TooBig info ∧ p.execImage m c t = some (.error .E2BIG, p)) ∨
    (¬ c.TooBig info ∧ ∃ layout, layout.userSp =
        info.ustackBase + USER_STACK_SIZE - stackNeed c.args c.envs (c.stackInfo info) ∧
      p.execImage m c t = (p.commit c info).rebuild m c t info layout) := by
  obtain ⟨-, hdvd, -⟩ := fromElfLazy_spec hload
  have halign : 16 ∣ info.ustackBase + USER_STACK_SIZE :=
    Nat.dvd_add (Nat.dvd_trans (by decide) hdvd) (by decide)
  have hle : USER_STACK_SIZE ≤ info.ustackBase + USER_STACK_SIZE := Nat.le_add_left ..
  have htop : checkedAdd info.ustackBase USER_STACK_SIZE =
      if info.ustackBase + USER_STACK_SIZE < USIZE_RANGE then
        some (info.ustackBase + USER_STACK_SIZE) else none := rfl
  have himage : p.execImage m c t =
      p.planStack m c t info (checkedAdd info.ustackBase USER_STACK_SIZE) := by
    rw [execImage, hload]
  unfold ExecCall.TooBig
  generalize info.ustackBase + USER_STACK_SIZE = stackTop at *
  by_cases hrange : stackTop < USIZE_RANGE
  · rw [htop, if_pos hrange, planStack] at himage
    rcases planUserStack_cases c.args c.envs (c.stackInfo info) halign hrange hle with
      ⟨hfits, layout, hplan, hsp⟩ | ⟨hbig, hplan⟩
    · rw [hplan, commitPlan] at himage
      refine .inr ⟨?_, layout, hsp, himage⟩
      omega
    · rw [hplan, commitPlan] at himage
      exact .inl ⟨.inr hbig, himage⟩
  · rw [htop, if_neg hrange, planStack] at himage
    exact .inl ⟨.inl (Nat.not_lt.mp hrange), himage⟩

/-- A refused image leaves the process as the teardown left it. -/
lemma execImage_refused (p : ExecProcess) (t : Nat) (h : c.Refused m) :
    ∃ e, ExecErrno.Reported e ∧ p.execImage m c t = some (.error e, p) := by
  rcases h with hload | ⟨info, hload, hbig⟩
  · refine ⟨.ENOEXEC, trivial, ?_⟩
    rw [execImage, hload]
  · rcases execImage_loaded p t hload with ⟨-, hrun⟩ | ⟨hfits, -⟩
    · exact ⟨.E2BIG, trivial, hrun⟩
    · exact absurd hbig hfits

/-- An image that is not refused fails with an error the caller expects only for its stack. -/
lemma execImage_error (htid : ∀ res, (p.table t).res = some res → res.tid = 0)
    (h : p.execImage m c t = some (.error e, p')) (he : e.Reported) (hrefused : ¬ c.Refused m) :
    c.StackFails m ∧ (p.table t).res ≠ none := by
  cases hload : fromElfLazy m c.env c.image c.interpreter with
  | none =>
    simp [execImage, hload] at h
  | some result =>
    rcases result with _ | info
    · exact absurd (.inl hload) hrefused
    rcases execImage_loaded p t hload with ⟨hbig, -⟩ | ⟨hfits, layout, hsp, hrun⟩
    · exact absurd (.inr ⟨info, hload, hbig⟩) hrefused
    rw [hrun] at h
    cases hres : (p.table t).res with
    | none =>
      have hcommit : ((p.commit c info).table t).res = none := hres
      simp [rebuild, hcommit] at h
    | some res =>
      rcases rebuild_cases m c info layout hres (htid res hres) with
        ⟨hunbacked, -⟩ | ⟨-, hfault⟩
      · exact ⟨⟨info, hload, hfits, hsp ▸ hunbacked⟩, some_ne_none res⟩
      · obtain rfl := hfault e p' h
        exact he.elim

/-- **A stack that cannot be provided** is found out after the commit. -/
theorem execImage_stackFails (hres : (p.table t).res = some res) (htid : res.tid = 0)
    (h : c.StackFails m) :
    ∃ p', p.execImage m c t = some (.error .ENOMEM, p') ∧ c.env.root = some p'.token := by
  obtain ⟨info, hload, hfits, hunbacked⟩ := h
  rcases execImage_loaded p t hload with ⟨hbig, -⟩ | ⟨-, layout, hsp, hrun⟩
  · exact absurd hbig hfits
  rw [← hsp] at hunbacked
  rcases rebuild_cases m c info layout hres htid with ⟨-, p', hfails⟩ | ⟨hbacked, -⟩
  · refine ⟨p', hrun.trans hfails, ?_⟩
    rw [rebuild_token hfails]
    exact (fromElfLazy_spec hload).1
  · exact absurd hunbacked hbacked

/-! ## Failed calls -/

/-- The parts of a process that exec replaces. -/
structure Same (p p' : ExecProcess) : Prop where
  token : p'.token = p.token
  memorySet : p'.memorySet = p.memorySet
  tasks : p'.tasks = p.tasks
  fdTable : p'.fdTable = p.fdTable
  executableNode : p'.executableNode = p.executableNode
  signalActions : p'.signalActions = p.signalActions

end ExecProcess

/-- The call gets past its checks, with the caller `t`. -/
structure ExecCall.Passes (c : ExecCall) (p : ExecProcess) (t : Nat) : Prop where
  current : c.current = some t
  alone : p.exclusiveTask = none
  canPrepare : p.CanPrepare t

namespace ExecProcess

variable {m : Machine} {p p' : ExecProcess} {c : ExecCall} {t : Nat}

/-- A call that does not get past its checks changes nothing. -/
lemma exec_stopped (hp : p.WellFormed) (h : ∀ t, ¬ c.Passes p t) :
    ∃ e, p.exec m c = some (.error e, p) := by
  unfold exec
  rcases hcurrent : c.current with _ | t
  · simp
  by_cases hexclusive : p.exclusiveTask = none
  · rcases prepareExecThreadGroup_cases m.arch hp t with ⟨-, hrun⟩ | ⟨hcan, -⟩ | ⟨hcan, -⟩
    · refine ⟨.ESRCH, ?_⟩
      simp [hexclusive, hrun]
    · exact absurd ⟨hcurrent, hexclusive, hcan⟩ (h t)
    · exact absurd ⟨hcurrent, hexclusive, hcan⟩ (h t)
  · exact ⟨.EAGAIN, if_pos hexclusive⟩

/-- A call that gets past its checks goes on with the torn down process. -/
lemma exec_passes (m : Machine) (hp : p.WellFormed) (h : c.Passes p t) :
    ∃ p₁, p.exec m c = p₁.execImage m c t ∧ (p₁.table t).res = p.callerRes t ∧
      ((p.threadCount ≤ 1 ∧ p₁ = p) ∨ (1 < p.threadCount ∧ p₁.tasks ≠ p.tasks)) := by
  have hexec (p₁ : ExecProcess) (hrun : p.prepareExecThreadGroup m.arch t = (.ok (), p₁)) :
      p.exec m c = p₁.execImage m c t := by
    simp [exec, h.current, h.alone, hrun]
  rcases prepareExecThreadGroup_cases m.arch hp t with ⟨hcan, -⟩ | ⟨hcan, hcount, hrun⟩ |
    ⟨-, hcount, p₁, hrun, htorn⟩
  · exact absurd h.canPrepare hcan
  · have htid : (p.table t).tid = 0 := by
      rcases hcan with htid | ⟨hmany, -⟩
      · exact htid
      · omega
    exact ⟨p, hexec p hrun, (if_pos htid).symm, .inl ⟨hcount, rfl⟩⟩
  · exact ⟨p₁, hexec p₁ hrun, htorn.res_eq, .inr ⟨hcount, htorn.tasks_ne⟩⟩

lemma callerRes_tid (hp : p.WellFormed) {res : TaskUserRes} (h : p.callerRes t = some res) :
    res.tid = 0 := by
  unfold callerRes at h
  split at h
  next htid => exact (hp.res_tid t res h).trans htid
  next =>
    obtain ⟨leader, hleader, hres⟩ := bind_eq_some_iff.mp h
    exact (hp.res_tid leader res hres).trans
      (hp.slot_tid 0 leader (join_eq_some_iff.mp hleader))

/-- **Failed calls**: a failed exec leaves the process as it was exactly if the image is not
refused after other threads were torn down, and the pages of the stack can be provided. -/
theorem exec_failure_unchanged_iff (m : Machine) (p : ExecProcess) (c : ExecCall)
    (hp : p.WellFormed) (hroot : c.env.root ≠ some p.token) :
    (∀ e p', p.exec m c = some (.error e, p') → ExecErrno.Reported e → p.Same p') ↔
      ∀ t, c.Passes p t → (c.Refused m → p.threadCount ≤ 1) ∧
        (c.StackFails m → p.callerRes t = none) := by
  constructor
  · intro hsame t hpasses
    obtain ⟨p₁, hexec, hres, hcases⟩ := exec_passes m hp hpasses
    refine ⟨fun hrefused => ?_, fun hfails => ?_⟩
    · rcases hcases with ⟨hcount, -⟩ | ⟨-, htasks⟩
      · exact hcount
      · obtain ⟨e, he, hrun⟩ := execImage_refused p₁ t hrefused
        exact absurd (hsame e p₁ (hexec.trans hrun) he).tasks htasks
    · by_contra hne
      obtain ⟨res, hcaller⟩ := ne_none_iff_exists'.mp hne
      obtain ⟨p', hrun, htoken⟩ := execImage_stackFails (hres.trans hcaller)
        (callerRes_tid hp hcaller) hfails
      rw [(hsame .ENOMEM p' (hexec.trans hrun) trivial).token] at htoken
      exact hroot htoken
  · intro hcond e p' hexec he
    by_cases hpasses : ∃ t, c.Passes p t
    · obtain ⟨t, hpasses⟩ := hpasses
      obtain ⟨p₁, hexec', hres, hcases⟩ := exec_passes m hp hpasses
      obtain ⟨hcount, hbacked⟩ := hcond t hpasses
      rw [hexec'] at hexec
      by_cases hrefused : c.Refused m
      · -- a single thread: nothing was torn down
        rcases hcases with ⟨-, rfl⟩ | ⟨hmany, -⟩
        · obtain ⟨e', -, hrun⟩ := execImage_refused p₁ t hrefused
          rw [hrun] at hexec
          cases hexec
          exact ⟨rfl, rfl, rfl, rfl, rfl, rfl⟩
        · exact absurd (hcount hrefused) (not_le.mpr hmany)
      · rw [← hres] at hbacked
        obtain ⟨hfails, hne⟩ := execImage_error
          (fun res h => callerRes_tid hp (hres.symm.trans h)) hexec he hrefused
        exact absurd (hbacked hfails) hne
    · obtain ⟨e', hrun⟩ := exec_stopped (m := m) hp (not_exists.mp hpasses)
      rw [hrun] at hexec
      cases hexec
      exact ⟨rfl, rfl, rfl, rfl, rfl, rfl⟩

/-- A process whose slots are `tasks`, with the task `i` in slot `i`. -/
def sample (tasks : List (Option Nat)) : ExecProcess where
  token := 1
  memorySet := .bare .riscv64
  tasks
  table i := ⟨i, false, none, none, 0, some ⟨i, 0x400000, true⟩⟩
  fdTable := [some ⟨0, false⟩, some ⟨1, true⟩]
  executableNode := some 5
  executablePath := []
  didExecAfterFork := false
  cmdline := []
  signalActions := [⟨0x1000, 0, 0, 0⟩]
  exclusiveTask := none

lemma sample_wellFormed {tasks : List (Option Nat)}
    (h : ∀ (i t : Nat), tasks[i]? = some (some t) → t = i) : (sample tasks).WellFormed := by
  refine ⟨h, fun t res hres => ?_⟩
  cases hres
  rfl

/-- A LOAD segment of one page, of which a file of 120 bytes holds a part only. -/
def truncatedSegment : Mm.ProgramHeader :=
  ⟨some .load, 0x10000, 0, 4096, 4096, 4096, true, false, true⟩

/-- A call of exec by the main thread, with an ELF file of 120 bytes. -/
def sampleCall (headers : List (Option Mm.ProgramHeader)) (frames : Bool) : ExecCall where
  current := some 0
  image := ⟨⟨[0x7f, 0x45, 0x4c, 0x46], false, 0, 64, 56, headers⟩, ⟨false, false⟩, 120⟩
  interpreter := none
  args := []
  envs := []
  executablePath := []
  executableNode := some 6
  uid := 0
  euid := 0
  gid := 0
  egid := 0
  hwcap := 0
  env := ⟨some 2, true⟩
  trapFrame := true
  present _ := false
  frame _ := frames
  copied := true

/-- The only thread of a process keeps everything when a segment of the image is refused. -/
theorem exec_failure_unchanged_singleThread :
    (∃ p', (sample [some 0]).exec MemorySet.riscv (sampleCall [some truncatedSegment] true) =
      some (.error .ENOEXEC, p')) ∧
    ∀ e p', (sample [some 0]).exec MemorySet.riscv (sampleCall [some truncatedSegment] true) =
      some (.error e, p') → ExecErrno.Reported e → (sample [some 0]).Same p' := by
  refine ⟨⟨_, rfl⟩, (exec_failure_unchanged_iff MemorySet.riscv (sample [some 0])
    (sampleCall [some truncatedSegment] true) (sample_wellFormed ?_) (by decide)).mpr
    fun t _ => ⟨fun _ => by decide, ?_⟩⟩
  · intro i t h
    cases i with
    | zero =>
      cases h
      rfl
    | succ i => cases h
  · rintro ⟨info, hload, -⟩
    have hrefused : fromElfLazy MemorySet.riscv ⟨some 2, true⟩
        (sampleCall [some truncatedSegment] true).image none = some none := rfl
    rw [show (sampleCall [some truncatedSegment] true).env = ⟨some 2, true⟩ from rfl,
      show (sampleCall [some truncatedSegment] true).interpreter = none from rfl] at hload
    simp [hrefused] at hload

/-- **Failed calls that change the process**: the main thread of two execs a file with a truncated
segment and loses its sibling; and an exec for whose stack there is no frame has replaced the
image, the signal actions and the fd table. -/
theorem failed_exec_changes_process :
    (∃ p', (sample [some 0, some 1]).exec MemorySet.riscv
        (sampleCall [some truncatedSegment] true) =
      some (.error .ENOEXEC, p') ∧ p'.tasks = [some 0, none]) ∧
    (∃ p', (sample [some 0]).exec MemorySet.riscv (sampleCall [] false) =
        some (.error .ENOMEM, p') ∧ p'.token = 2 ∧ p'.executableNode = some 6 ∧
      p'.fdTable = [some ⟨0, false⟩, none] ∧ p'.signalActions = [.dfl]) := by
  refine ⟨⟨_, rfl, rfl⟩, ⟨_, rfl, rfl, rfl, rfl, rfl⟩⟩

end ExecProcess

end Whusp.Task
