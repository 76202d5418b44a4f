import Mathlib.Algebra.BigOperators.Group.List.Basic
import Whusp.Lib.Counting
import Whusp.Lib.Transition

/-!
# Text-busy exclusion

An inode state counts how often its file is open for writing and how many processes execute it.
An open for writing looks at the second count before it adds to the first, `exec` looks at the
first before it adds to the second, and nothing joins the look and the addition.  The executable
count is moreover reached by the number of the inode, so that it is the count of whatever
incarnation the number denotes by then.

Any number of opens, closes, execs, forks and exits run side by side.  A step is one look, one
addition, or one section under the lock of a process; the backend may give the number of a file
that nobody holds any more to a new file (`retire`).
-/

namespace Whusp.Fs.TextBusy

open Function List Option
open Whusp.Lib (System sum_map_set le_sum_map)

/-- The number of an inode and its incarnation. -/
abbrev Key := Nat × Nat

/-- A live process: the file it executes, and whether the exec that installed it has counted it. -/
structure Process where
  image : Option Key
  counted : Bool
  deriving DecidableEq

inductive Job where
  /-- `open_vfs_file_once`, for writing. -/
  | opening (node : Nat)
  /-- The file was not executed. -/
  | checked (node : Nat)
  | file (key : Key)
  /-- `check_exec_file_in`, called by process `p`. -/
  | execing (p node : Nat)
  | execChecked (p node : Nat)
  /-- The process has its new image; the previous one is still to be untracked. -/
  | committed (p : Nat) (key : Key) (previous : Option Key)
  | untracked (p : Nat) (key : Key)
  | forking (p child : Nat)
  /-- The child has a copy of the parent's `executable_node` and is not published. -/
  | copied (p child : Nat) (image : Option Key)
  | exiting (p : Nat)
  /-- The process is gone; its image is still to be untracked. -/
  | taken (image : Option Key)
  | finished
  deriving DecidableEq

structure State where
  /-- The incarnation that the table of inode states has for a number. -/
  current : Nat → Nat
  writable : Key → Nat
  executable : Key → Nat
  /-- `none` for a process that does not live. -/
  processes : List (Option Process)
  jobs : List Job

inductive Action where
  /-- A job takes its next step; the path of an exec leads to `node` when it is opened. -/
  | advance (t node : Nat)
  /-- The number goes to a new file. -/
  | retire (node : Nat)

namespace State

variable (s : State)

def key (node : Nat) : Key := (node, s.current node)

def setJob (t : Nat) (j : Job) : State := { s with jobs := s.jobs.set t j }

def setProcess (p : Nat) (q : Option Process) : State :=
  { s with processes := s.processes.set p q }

def trackExecutable (node : Nat) : State :=
  { s with executable := update s.executable (s.key node) (s.executable (s.key node) + 1) }

/-- The decrement stops at zero. -/
def untrackExecutable (image : Option Key) : State :=
  match image with
  | none => s
  | some x =>
    { s with
      executable := update s.executable (s.key x.1) (s.executable (s.key x.1) - 1) }

@[simp] lemma setProcess_executable (p : Nat) (q : Option Process) :
    (s.setProcess p q).executable = s.executable := rfl

end State

def advance (s : State) (t node : Nat) : Job → Option State
  | .opening n =>
    if s.executable (s.key n) = 0 then some (s.setJob t (.checked n))
    else some (s.setJob t .finished)
  | .checked n =>
    let s := { s with writable := update s.writable (s.key n) (s.writable (s.key n) + 1) }
    some (s.setJob t (.file (s.key n)))
  | .file x =>
    let s := { s with writable := update s.writable x (s.writable x - 1) }
    some (s.setJob t .finished)
  | .execing p n =>
    if s.writable (s.key n) = 0 then some (s.setJob t (.execChecked p n))
    else some (s.setJob t .finished)
  | .execChecked p _ =>
    match s.processes[p]? with
    | some (some ⟨previous, true⟩) =>
      some ((s.setProcess p (some ⟨some (s.key node), false⟩)).setJob t
        (.committed p (s.key node) previous))
    | _ => none
  | .committed p x previous =>
    some ((s.untrackExecutable previous).setJob t (.untracked p x))
  | .untracked p x =>
    if s.processes[p]? = some (some ⟨some x, false⟩) then
      some (((s.trackExecutable x.1).setProcess p (some ⟨some x, true⟩)).setJob t .finished)
    else none
  | .forking p child =>
    match s.processes[p]? with
    | some (some ⟨image, true⟩) => some (s.setJob t (.copied p child image))
    | _ => none
  | .copied _ child image =>
    if s.processes[child]? = some none then
      let s := match image with
        | none => s
        | some x => s.trackExecutable x.1
      some ((s.setProcess child (some ⟨image, true⟩)).setJob t .finished)
    else none
  | .exiting p =>
    match s.processes[p]? with
    | some (some ⟨image, true⟩) => some ((s.setProcess p none).setJob t (.taken image))
    | _ => none
  | .taken image => some ((s.untrackExecutable image).setJob t .finished)
  | .finished => none

open Process

/-- An open file pins its inode.  An image does so by its mapped segments only, which the process
may unmap: `executable_node` is a bare id. -/
def step (s : State) : Action → Option State
  | .advance t node => (s.jobs[t]?).bind (advance s t node)
  | .retire node =>
    if Job.file (s.key node) ∈ s.jobs then none
    else some { s with current := update s.current node (s.current node + 1) }

namespace Job

/-- An image that a job has still to untrack. -/
def toUntrack : Job → Option Key
  | .committed _ _ previous => previous
  | .taken image => image
  | _ => none

/-- The file of an exec that has looked at the writers and not yet installed its image. -/
def execOn : Job → Option Nat
  | .execChecked _ n => some n
  | _ => none

def isCall : Job → Bool
  | .opening _ | .execing .. | .forking .. | .exiting _ => true
  | _ => false

end Job

/-- The file of a process whose exec has not counted it yet. -/
def uncounted (q : Option Process) : Option Nat :=
  q.bind fun q => if q.counted then none else q.image.map Prod.fst

/-- Nothing is open or executed, and every job is a call that has not begun. -/
structure State.Initial (s : State) : Prop where
  writable : ∀ x, s.writable x = 0
  executable : ∀ x, s.executable x = 0
  processes : ∀ q ∈ s.processes, q.bind image = none
  jobs : ∀ j ∈ s.jobs, j.isCall = true

def system : System State Action where
  init := State.Initial
  step := step

/-- What the check and the count of a call need from the others. -/
def Allowed (s : State) (node : Nat) : Job → Prop
  -- An open publishes while no exec of the file is between its check and its count.
  | .checked n => (∀ j ∈ s.jobs, j.execOn ≠ some n) ∧ ∀ q ∈ s.processes, uncounted q ≠ some n
  -- An exec installs the file that it has checked.
  | .execChecked _ n => node = n
  -- A count goes up while no open of the file is between its check and its count.
  | .untracked _ x => .checked x.1 ∉ s.jobs
  -- A fork moreover publishes while its parent still executes the file it has copied.
  | .copied p _ (some x) =>
    s.processes[p]? = some (some ⟨some x, true⟩) ∧ .checked x.1 ∉ s.jobs
  | _ => True

instance (s : State) (node : Nat) (j : Job) : Decidable (Allowed s node j) := by
  cases j with
  | copied p child image => cases image <;> (unfold Allowed; infer_instance)
  | _ => unfold Allowed; infer_instance

def StepOk (s : State) : Action → Prop
  | .advance t node => s.jobs[t]?.all (fun j => Allowed s node j) = true
  -- A number is given away while no process executes the file (one that has unmapped its segments
  -- could), and no call on it is between its check and its count.
  | .retire n =>
    (∀ q ∈ s.processes, q.bind image ≠ some (s.key n)) ∧ .checked n ∉ s.jobs ∧
      ∀ j ∈ s.jobs, j.execOn ≠ some n ∧ j.toUntrack.map Prod.fst ≠ some n

instance : DecidableRel StepOk := fun s a => by
  cases a <;> (unfold StepOk; infer_instance)

/-! ## The invariant -/

def countedAs (x : Key) (q : Option Process) : Nat := if q = some ⟨some x, true⟩ then 1 else 0

def owes (x : Key) (j : Job) : Nat := if j.toUntrack = some x then 1 else 0

def opensFor (x : Key) (j : Job) : Nat := if j = .file x then 1 else 0

structure Inv (s : State) : Prop where
  executable : ∀ x, s.executable x =
    (s.processes.map (countedAs x)).sum + (s.jobs.map (owes x)).sum
  writable : ∀ x, s.writable x = (s.jobs.map (opensFor x)).sum
  images : ∀ q ∈ s.processes, ∀ x, q.bind image = some x →
    x.2 = s.current x.1 ∧ .file x ∉ s.jobs
  files : ∀ x, .file x ∈ s.jobs → x.2 = s.current x.1
  owed : ∀ j ∈ s.jobs, ∀ x, j.toUntrack = some x → x.2 = s.current x.1
  /-- While an open is pending nobody is counted as executing the file. -/
  opens : ∀ n, .checked n ∈ s.jobs → some ⟨some (s.key n), true⟩ ∉ s.processes
  /-- While an exec is pending nobody has the file open. -/
  execs : ∀ j ∈ s.jobs, ∀ n, j.execOn = some n → ∀ i, .file (n, i) ∉ s.jobs

variable {s s' : State} {t : Nat} {j j' : Job}

lemma mem_set {x : Job} (h : x ∈ s.jobs.set t j') : x = j' ∨ x ∈ s.jobs :=
  (mem_or_eq_of_mem_set h).symm

/-- **A job moves on**: it becomes `j'`, and the counts and the processes change with it. -/
theorem Inv.move (h : Inv s) {exe wri : Key → Nat} {procs : List (Option Process)}
    (hj : s.jobs[t]? = some j) (hexe : ∀ x, exe x + (s.processes.map (countedAs x)).sum + owes x j =
      s.executable x + (procs.map (countedAs x)).sum + owes x j')
    (hwri : ∀ x, wri x + opensFor x j = s.writable x + opensFor x j')
    (hprocs : ∀ q ∈ procs, q ∈ s.processes ∨
      ∀ x, q.bind image = some x → x.2 = s.current x.1 ∧ .file x ∉ s.jobs ∧
        (q = some ⟨some x, true⟩ → .checked x.1 ∉ s.jobs))
    (hfile : ∀ x, j' = .file x → x.2 = s.current x.1 ∧
      (∀ q ∈ procs, q.bind image ≠ some x) ∧ ∀ k ∈ s.jobs, k.execOn ≠ some x.1)
    (howed : ∀ x, j'.toUntrack = some x → x.2 = s.current x.1)
    (hopen : ∀ n, j' = .checked n → some ⟨some (s.key n), true⟩ ∉ procs)
    (hexec : ∀ n, j'.execOn = some n → ∀ i, .file (n, i) ∉ s.jobs) : Inv { s with
      executable := exe, writable := wri, processes := procs, jobs := s.jobs.set t j' } where
  executable x := by
    have hsum := sum_map_set (owes x) j' hj
    have := hexe x
    have := h.executable x
    simp only
    omega
  writable x := by
    have hsum := sum_map_set (opensFor x) j' hj
    have := hwri x
    have := h.writable x
    simp only
    omega
  images q hq x hx := by
    have hold : x.2 = s.current x.1 ∧ .file x ∉ s.jobs := by
      rcases hprocs q hq with hq | hq
      · exact h.images q hq x hx
      · exact ⟨(hq x hx).1, (hq x hx).2.1⟩
    refine ⟨hold.1, fun hm => ?_⟩
    rcases mem_set hm with hm | hm
    · exact (hfile x hm.symm).2.1 q hq hx
    · exact hold.2 hm
  files x hx := by
    rcases mem_set hx with hx | hx
    · exact (hfile x hx.symm).1
    · exact h.files x hx
  owed k hk x hx := by
    rcases mem_set hk with rfl | hk
    · exact howed x hx
    · exact h.owed k hk x hx
  opens n hn hm := by
    rcases mem_set hn with hn | hn
    · exact hopen n hn.symm hm
    · rcases hprocs _ hm with hq | hq
      · exact h.opens n hn hq
      · exact (hq (s.key n) rfl).2.2 rfl hn
  execs k hk n hn i hm := by
    rcases mem_set hm with hnew | hold
    · rcases mem_set hk with rfl | hk
      · rw [← hnew] at hn
        cases hn
      · exact (hfile _ hnew.symm).2.2 k hk hn
    · rcases mem_set hk with rfl | hk
      · exact hexec n hn i hold
      · exact h.execs k hk n hn i hold

attribute [local simp] countedAs owes

lemma Inv.not_counted (h : Inv s) {x : Key} (hx : s.executable x = 0) :
    some ⟨some x, true⟩ ∉ s.processes := by
  intro hm
  have := le_sum_map (countedAs x) hm
  have := h.executable x
  simp only [countedAs, if_true] at *
  omega

lemma Inv.not_open (h : Inv s) {n : Nat} (hx : s.writable (s.key n) = 0) (i : Nat) :
    .file (n, i) ∉ s.jobs := by
  intro hm
  obtain rfl : i = s.current n := h.files _ hm
  have := le_sum_map (opensFor (s.key n)) hm
  have := h.writable (s.key n)
  simp only [opensFor, State.key, if_true] at *
  omega

lemma executable_track (n : Nat) (x : Key) : (s.trackExecutable n).executable x =
    s.executable x + if x = s.key n then 1 else 0 := by
  simp only [State.trackExecutable, update_apply]
  split <;> simp_all

section

variable (h : Inv s)
include h

/-- Untracking by number takes the count of the image, as long as the number still denotes it. -/
lemma Inv.executable_untrack (hj : j ∈ s.jobs) (x : Key) :
    (s.untrackExecutable j.toUntrack).executable x + owes x j = s.executable x := by
  rcases hu : j.toUntrack with _ | y
  · simp [State.untrackExecutable, hu]
  have hkey : s.key y.1 = y := Prod.ext rfl (h.owed j hj y hu).symm
  have hle := le_sum_map (owes y) hj
  have := h.executable y
  simp only [owes, hu, if_true] at hle
  simp only [State.untrackExecutable, hkey, owes, hu, some.injEq, update_apply]
  rcases eq_or_ne x y with rfl | hxy
  · simp only [if_true]
    omega
  · simp [hxy, Ne.symm hxy]

/-- A job that touches neither processes nor counts. -/
lemma Inv.setJob (hj : s.jobs[t]? = some j) (hu : j.toUntrack = none)
    (hu' : j'.toUntrack = none) (hf : ∀ x, j ≠ .file x) (hf' : ∀ x, j' ≠ .file x)
    (hopen : ∀ n, j' = .checked n → some ⟨some (s.key n), true⟩ ∉ s.processes)
    (hexec : ∀ n, j'.execOn = some n → ∀ i, .file (n, i) ∉ s.jobs) : Inv (s.setJob t j') := by
  refine h.move hj (fun x => ?_) (fun x => ?_) (fun q hq => .inl hq) (fun x hx => absurd hx (hf' x))
    (fun x hx => ?_) hopen hexec
  · simp [hu, hu']
  · simp [opensFor, hf x, hf' x]
  · simp [hu'] at hx

/-- A job that takes back the count of an image. -/
lemma Inv.untrack (hj : s.jobs[t]? = some j) (hu' : j'.toUntrack = none)
    (hf : ∀ x, j ≠ .file x) (hf' : ∀ x, j' ≠ .file x) (hc : ∀ n, j' ≠ .checked n)
    (he : j'.execOn = none) : Inv ((s.untrackExecutable j.toUntrack).setJob t j') := by
  have hexe := h.executable_untrack (mem_of_getElem? hj)
  have hstate : (s.untrackExecutable j.toUntrack).setJob t j' =
      { s with
        executable := (s.untrackExecutable j.toUntrack).executable, writable := s.writable,
        processes := s.processes, jobs := s.jobs.set t j' } := by
    cases j.toUntrack <;> rfl
  rw [hstate]
  refine h.move hj (fun x => ?_) (fun x => ?_) (fun q hq => .inl hq) (fun x hx => absurd hx (hf' x))
    (fun x hx => ?_) (fun n hn => absurd hn (hc n)) (fun n hn => ?_)
  · have := hexe x
    simp only [show owes x j' = 0 by simp [hu']]
    omega
  · simp [opensFor, hf x, hf' x]
  · simp [hu'] at hx
  · simp [he] at hn

/-- A job that replaces the process `p`. -/
lemma Inv.setProcess {exe : Key → Nat} {p : Nat} {q q' : Option Process}
    (hj : s.jobs[t]? = some j) (hp : s.processes[p]? = some q)
    (hexe : ∀ x, exe x + countedAs x q + owes x j = s.executable x + countedAs x q' + owes x j')
    (hnew : ∀ x, q'.bind image = some x → x.2 = s.current x.1 ∧ .file x ∉ s.jobs ∧
      (q' = some ⟨some x, true⟩ → .checked x.1 ∉ s.jobs))
    (howed : ∀ x, j'.toUntrack = some x → x.2 = s.current x.1) (hf : ∀ x, j ≠ .file x)
    (hf' : ∀ x, j' ≠ .file x) (hc : ∀ n, j' ≠ .checked n) (he : j'.execOn = none) : Inv { s with
      executable := exe, processes := s.processes.set p q', jobs := s.jobs.set t j' } := by
  refine h.move hj (fun x => ?_) (fun x => ?_) (fun r hr => ?_)
    (fun x hx => absurd hx (hf' x)) howed
    (fun n hn => absurd hn (hc n)) (fun n hn => ?_)
  · have := sum_map_set (countedAs x) q' hp
    have := hexe x
    omega
  · simp [opensFor, hf x, hf' x]
  · rcases mem_or_eq_of_mem_set hr with hr | rfl
    · exact .inl hr
    · exact .inr hnew
  · simp [he] at hn

/-- A job that counts the image `x` of some process, for the process `p`. -/
lemma Inv.track {p : Nat} {q q₀ : Option Process} {x : Key}
    (hj : s.jobs[t]? = some j) (hp : s.processes[p]? = some q) (hq : ∀ y, countedAs y q = 0)
    (hu : j.toUntrack = none) (hf : ∀ x, j ≠ .file x) (hmem : q₀ ∈ s.processes)
    (hx : q₀.bind image = some x) (hchk : .checked x.1 ∉ s.jobs) :
    Inv (((s.trackExecutable x.1).setProcess p (some ⟨some x, true⟩)).setJob t .finished) := by
  obtain ⟨hcur, hfile⟩ := h.images _ hmem x hx
  have hkey : s.key x.1 = x := Prod.ext rfl hcur.symm
  refine h.setProcess hj hp (fun y => ?_) (fun y hy => ?_) nofun hf nofun nofun rfl
  · rw [State.setProcess_executable, executable_track, hkey, hq]
    have hdone : Job.toUntrack .finished = none := rfl
    simp [hu, hdone, eq_comm (a := x)]
  · obtain rfl : x = y := some.inj hy
    exact ⟨hcur, hfile, fun _ => hchk⟩

end

/-- A number that nobody holds goes to a new file. -/
lemma Inv.retire {n : Nat} (h : Inv s) (hok : StepOk s (.retire n))
    (hs : step s (.retire n) = some s') : Inv s' := by
  obtain ⟨hnofile, rfl⟩ := of_refusal hs
  obtain ⟨hnoimage, hchk, hcalls⟩ := hok
  -- Nothing that the invariant speaks of has the number.
  have hcur : ∀ x : Key, x.2 = s.current x.1 → (x.1 = n → False) →
      x.2 = update s.current n (s.current n + 1) x.1 := by
    intro x hx hne
    rw [update_of_ne hne]
    exact hx
  have hkey : ∀ {x : Key}, x.2 = s.current x.1 → x.1 = n → x = s.key n := by
    rintro ⟨a, b⟩ hx rfl
    exact Prod.ext rfl hx
  refine ⟨h.executable, h.writable, fun q hq x hx => ?_, fun x hx => ?_, fun j hj x hx => ?_,
    fun m hm => ?_, h.execs⟩
  · obtain ⟨hx', hf⟩ := h.images q hq x hx
    exact ⟨hcur x hx' fun hn => hnoimage q hq (hkey hx' hn ▸ hx), hf⟩
  · exact hcur x (h.files x hx) fun hn => hnofile (hkey (h.files x hx) hn ▸ hx)
  · exact hcur x (h.owed j hj x hx) fun hn => (hcalls j hj).2 (by rw [hx]; exact congrArg some hn)
  · have hne : m ≠ n := by
      rintro rfl
      exact hchk hm
    simp only [State.key, update_of_ne hne]
    exact h.opens m hm

/-- **Step lemma**: every step that meets the condition keeps the invariant. -/
theorem Inv.step {a : Action} (h : Inv s) (hok : StepOk s a) (hs : step s a = some s') :
    Inv s' := by
  cases a with
  | retire n => exact h.retire hok hs
  | advance t node =>
    obtain ⟨j, hj, hs⟩ := bind_eq_some_iff.mp hs
    have hall : Allowed s node j := by
      simp only [StepOk, hj, all_some, decide_eq_true_eq] at hok
      exact hok
    cases j with
    | opening n =>
      simp only [advance] at hs
      split at hs
      next hzero =>
        cases hs
        refine h.setJob hj rfl rfl nofun nofun (fun m hm => ?_) nofun
        cases hm
        exact h.not_counted hzero
      · cases hs
        exact h.setJob hj rfl rfl nofun nofun nofun nofun
    | checked n =>
      cases hs
      obtain ⟨hexec, hunc⟩ := hall
      refine h.move hj (fun x => rfl) (fun x => ?_) (fun q hq => .inl hq) (fun x hx => ?_) nofun
        nofun nofun
      · change _ = s.writable x + opensFor x (.file (s.key n))
        simp only [opensFor, update_apply, reduceCtorEq, if_false, Job.file.injEq,
          eq_comm (a := s.key n)]
        split <;> simp_all
      · cases hx
        refine ⟨rfl, fun q hq hx => ?_, hexec⟩
        -- An image of the file is counted, so the open would not have passed its check.
        rcases q with _ | ⟨image, counted⟩
        · cases hx
        obtain rfl : image = some (s.key n) := hx
        cases counted with
        | true => exact h.opens n (mem_of_getElem? hj) hq
        | false => exact hunc _ hq rfl
    | file x =>
      cases hs
      refine h.move hj (fun y => rfl) (fun y => ?_) (fun q hq => .inl hq) nofun nofun nofun nofun
      have hle := le_sum_map (opensFor x) (mem_of_getElem? hj)
      have := h.writable x
      simp only [opensFor, if_true] at hle this
      simp only [opensFor, update_apply, reduceCtorEq, if_false, Job.file.injEq, eq_comm (a := x)]
      split
      next hyx =>
        rw [hyx]
        omega
      · rfl
    | execing p n =>
      simp only [advance] at hs
      split at hs
      next hzero =>
        cases hs
        refine h.setJob hj rfl rfl nofun nofun nofun (fun m hm => ?_)
        cases hm
        exact h.not_open hzero
      · cases hs
        exact h.setJob hj rfl rfl nofun nofun nofun nofun
    | execChecked p n =>
      obtain rfl : node = n := hall
      simp only [advance] at hs
      split at hs
      swap
      · cases hs
      rename_i previous hp
      cases hs
      refine h.setProcess hj hp (fun x => ?_) (fun x hx => ?_) (fun x hx => ?_)
        nofun nofun nofun rfl
      · by_cases hx : previous = some x <;> simp [Job.toUntrack, hx]
      · obtain rfl : s.key node = x := some.inj hx
        exact ⟨rfl, h.execs _ (mem_of_getElem? hj) node rfl _, nofun⟩
      · obtain rfl : previous = some x := hx
        exact (h.images _ (mem_of_getElem? hp) x rfl).1
    | committed | taken =>
      cases hs
      exact h.untrack hj rfl nofun nofun nofun rfl
    | untracked p x =>
      obtain ⟨hp, rfl⟩ := of_guard hs
      exact h.track hj hp (fun y => by simp) rfl nofun (mem_of_getElem? hp) rfl hall
    | forking p child =>
      simp only [advance] at hs
      split at hs
      · cases hs
        exact h.setJob hj rfl rfl nofun nofun nofun nofun
      · cases hs
    | copied p child image =>
      obtain ⟨hc, rfl⟩ := of_guard hs
      cases image with
      | none =>
        refine h.setProcess hj hc (fun y => ?_) nofun nofun nofun nofun nofun rfl
        simp [Job.toUntrack]
      | some x =>
        obtain ⟨hp, hchk⟩ := hall
        exact h.track hj hc (fun y => rfl) rfl nofun (mem_of_getElem? hp) rfl hchk
    | exiting p =>
      simp only [advance] at hs
      split at hs
      swap
      · cases hs
      rename_i image hp
      cases hs
      refine h.setProcess hj hp (fun x => ?_) nofun (fun x hx => ?_) nofun nofun nofun rfl
      · by_cases hx : image = some x <;> simp [Job.toUntrack, hx]
      · obtain rfl : image = some x := hx
        exact (h.images _ (mem_of_getElem? hp) x rfl).1
    | finished => cases hs

lemma Inv.init (h : s.Initial) : Inv s := by
  have hproc : ∀ q ∈ s.processes, ∀ x, q.bind image ≠ some x := by
    intro q hq x hx
    simp [h.processes q hq] at hx
  have hjob : ∀ j ∈ s.jobs, j.toUntrack = none ∧ j.execOn = none ∧ (∀ x, j ≠ .file x) ∧
      ∀ n, j ≠ .checked n := by
    intro j hj
    have := h.jobs j hj
    cases j <;> simp_all [Job.isCall, Job.toUntrack, Job.execOn]
  constructor
  · intro x
    have howes : (s.jobs.map (owes x)).sum = 0 := by
      refine sum_eq_zero fun c hc => ?_
      obtain ⟨j, hj, rfl⟩ := mem_map.mp hc
      simp [(hjob j hj).1]
    have hcounted : (s.processes.map (countedAs x)).sum = 0 := by
      refine sum_eq_zero fun c hc => ?_
      obtain ⟨q, hq, rfl⟩ := mem_map.mp hc
      rw [countedAs, if_neg]
      rintro rfl
      exact hproc _ hq x rfl
    rw [h.executable, howes, hcounted]
  · intro x
    rw [h.writable, sum_eq_zero]
    intro c hc
    obtain ⟨j, hj, rfl⟩ := mem_map.mp hc
    exact if_neg ((hjob j hj).2.2.1 x)
  · exact fun q hq x hx => absurd hx (hproc q hq x)
  · exact fun x hx => absurd rfl ((hjob _ hx).2.2.1 x)
  · intro j hj x hx
    simp [(hjob j hj).1] at hx
  · exact fun n hn => absurd rfl ((hjob _ hn).2.2.2 n)
  · intro j hj n hn
    simp [(hjob j hj).2.1] at hn

def executing (s : State) (x : Key) : Nat :=
  s.processes.countP fun q => q.bind image = some x

lemma sum_countedAs {x : Key} {l : List (Option Process)} (h : ∀ q ∈ l, uncounted q ≠ some x.1) :
    (l.map (countedAs x)).sum = l.countP fun q => q.bind image = some x := by
  induction l with
  | nil => rfl
  | cons q l ih =>
    rw [map_cons, sum_cons, countP_cons, ih fun r hr => h r (.tail q hr), Nat.add_comm]
    rcases q with _ | ⟨image, counted⟩
    · rfl
    cases counted with
    | true => simp
    | false =>
      have hne : image ≠ some x := by
        rintro rfl
        exact h _ (.head l) rfl
      simp [hne]

lemma Inv.executable_eq (h : Inv s) {x : Key} (howes : ∀ j ∈ s.jobs, j.toUntrack ≠ some x)
    (hcounted : ∀ q ∈ s.processes, uncounted q ≠ some x.1) : s.executable x = executing s x := by
  rw [h.executable x, sum_countedAs hcounted, sum_eq_zero, Nat.add_zero, executing]
  intro c hc
  obtain ⟨j, hj, rfl⟩ := mem_map.mp hc
  exact if_neg (howes j hj)

/-- **Text busy.**  In every run whose steps meet the condition no file is open for writing and
executed at the same time, and once every exec and every exit that it concerns is through, the
count of a file is the number of processes that execute it. -/
theorem text_busy (h : system.Reachable StepOk s) : (∀ x, .file x ∈ s.jobs → executing s x = 0) ∧
      ∀ x, (∀ j ∈ s.jobs, j.toUntrack ≠ some x) → (∀ q ∈ s.processes, uncounted q ≠ some x.1) →
        s.executable x = executing s x := by
  have hinv : Inv s := by
    apply h.invariant
    · exact fun s hs => Inv.init hs
    · exact fun s a s' hi hok hs => hi.step hok hs
  refine ⟨fun x hx => ?_, fun x => hinv.executable_eq⟩
  refine countP_eq_zero.mpr fun q hq hq' => ?_
  exact (hinv.images q hq x (of_decide_eq_true hq')).2 hx

/-- Two processes, the first of them live; file 5 is to be opened and executed, and then the
first process to fork and exit. -/
def example₁ : State where
  current _ := 0
  writable _ := 0
  executable _ := 0
  processes := [some ⟨none, true⟩, none]
  jobs := [.opening 5, .execing 0 5, .forking 0 1, .exiting 0]

lemma example₁_initial : example₁.Initial :=
  ⟨fun _ => rfl, fun _ => rfl, by decide, by decide⟩

/-- The open closes the file before the exec, and the child outlives its parent. -/
theorem text_busy_inTurn : ∃ s, system.Reachable StepOk s ∧ s.executable (5, 0) = 1 ∧
    executing s (5, 0) = 1 ∧ s.processes = [none, some ⟨some (5, 0), true⟩] := by
  have hrun : (system.runWhile StepOk example₁ [.advance 0 0, .advance 0 0, .advance 0 0,
      .advance 1 5, .advance 1 5, .advance 1 5, .advance 1 5, .advance 2 0, .advance 2 0,
      .advance 3 0, .advance 3 0]).map (fun s => (s.jobs, s.processes)) =
      some ([.finished, .finished, .finished, .finished], [none, some ⟨some (5, 0), true⟩]) := by
    decide +kernel
  obtain ⟨s, hreach, -, hq⟩ := System.exists_reachable hrun example₁_initial
  obtain ⟨hjobs, hprocs⟩ := Prod.mk.inj hq
  have hone : executing s (5, 0) = 1 := by
    rw [executing, hprocs]
    decide
  refine ⟨s, hreach, ?_, hone, hprocs⟩
  rw [← hone]
  apply (text_busy hreach).2
  · rw [hjobs]
    decide
  · rw [hprocs]
    decide

/-- **Checked first, counted later.**  The open and the exec of one file both find the other's
count at zero, and then both go ahead. -/
theorem open_and_exec_pass_each_other : ∃ s, system.Reachable System.anyStep s ∧
    .file (5, 0) ∈ s.jobs ∧ executing s (5, 0) = 1 := by
  have hrun : (system.runWhile System.anyStep example₁ [.advance 0 0, .advance 1 5, .advance 0 0,
      .advance 1 5, .advance 1 5, .advance 1 5]).map (fun s => (s.jobs, s.processes)) =
      some ([.file (5, 0), .finished, .forking 0 1, .exiting 0],
        [some ⟨some (5, 0), true⟩, none]) := by
    decide +kernel
  obtain ⟨s, hreach, -, hq⟩ := System.exists_reachable hrun example₁_initial
  obtain ⟨hjobs, hprocs⟩ := Prod.mk.inj hq
  refine ⟨s, hreach, ?_, ?_⟩
  · rw [hjobs]
    decide
  · rw [executing, hprocs]
    decide

end Whusp.Fs.TextBusy
