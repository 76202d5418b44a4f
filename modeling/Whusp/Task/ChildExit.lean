import Mathlib.Data.List.Basic
import Whusp.Lib.Transition

/-!
# Publication of a child's exit

How a process leaves the tree of processes, and what its parent's `wait4` sees of it.  An exiting
process goes through several sections under process locks: it tears itself down, where it notes
its parent and takes its list of children; it looks for a reaper along the chain of parents; it
hands the children over under the lock of the reaper; and it publishes its exit under the lock of
the parent it noted at the start, where the zombie flag is set and the waiters of that parent are
taken off their queue to be woken.  A `wait4` scans the children under the lock of its process and
queues itself under the same lock when there is nothing to report.

The parent noted at the start may have exited meanwhile, and then the new parent is not the one
that is told.
-/

namespace Whusp.Task.ChildExit

open Function (update update_self update_of_ne)
open Whusp.Lib List Option

/-! ## Processes -/

/-- `INITPROC`. -/
def INIT : Nat := 1

def SIGCHLD : Nat := 17

/-- Which children a `wait4` asks for. -/
inductive Selector where
  | any
  | pid (pid : Nat)
  /-- `pid == 0`, with the group of the caller, and `pid < -1`. -/
  | group (pgid : Nat)
  deriving DecidableEq

/-- A task on `child_waiters`, with what its call asks for. -/
structure Waiter where
  task : Nat
  selector : Selector
  deriving DecidableEq

/-- How far the exit of a process has come. -/
inductive Phase where
  | absent
  | running
  /-- Torn down; `parent` and `children` were taken out under the process lock, and
      `nearest_child_reaper` is about to look at `cursor`. -/
  | searching (parent : Option Nat) (children : List Nat) (cursor : Option Nat)
  | found (parent : Option Nat) (children : List Nat) (reaper : Nat)
  /-- The children are handed over; `publish_process_exit` is next. -/
  | publishing (parent : Option Nat)
  | exited
  deriving DecidableEq

namespace Phase

/-- Between the tear-down and the publication. -/
def inFlight : Phase → Bool
  | .searching .. | .found .. | .publishing _ => true
  | .absent | .running | .exited => false

/-- The parent that was noted at the tear-down. -/
def noted : Phase → Option Nat
  | .searching parent .. | .found parent .. | .publishing parent => parent
  | .absent | .running | .exited => none

/-- The process that the search for a reaper looks at, or has found. -/
def looksAt : Phase → Option Nat
  | .searching _ _ cursor => cursor
  | .found _ _ reaper => some reaper
  | .absent | .running | .publishing _ | .exited => none

/-- The children that an exit has taken out and not yet handed over. -/
def held : Phase → List Nat
  | .searching _ children _ | .found _ children _ => children
  | .absent | .running | .publishing _ | .exited => []

end Phase

/-- The fields of the process control blocks, by pid. -/
structure State where
  parent : Nat → Option Nat
  children : Nat → List Nat
  childWaiters : Nat → List Waiter
  isZombie : Nat → Bool
  isChildSubreaper : Nat → Bool
  /-- The action for `SIGCHLD` is an explicit `SIG_IGN`. -/
  ignoresChild : Nat → Bool
  exitSignal : Nat → Nat
  pgid : Nat → Nat
  /-- Reaped, by a wait call or automatically. -/
  reaped : Nat → Bool
  phase : Nat → Phase
  /-- Ghost: the order in which the processes were created. -/
  birth : Nat → Nat
  forks : Nat

/-- `wait4_child_matches`. -/
def State.childMatches (s : State) (selector : Selector) (child : Nat) : Bool :=
  match selector with
  | .any => true
  | .pid pid => child = pid
  | .group pgid => s.pgid child = pgid

/-- A process that has been reaped may be gone; `keeps` says whether some other reference keeps it.
-/
def State.upgrade (s : State) (keeps : Bool) (pid : Nat) : Option Nat :=
  if s.reaped pid && !keeps then none else some pid

/-! ## Sections -/

/-- `publish_fork_child`. -/
def fork (s : State) (p c exitSignal : Nat) : Option State :=
  if s.phase p = .running ∧ s.phase c = .absent then
    some { s with
      parent := update s.parent c (some p)
      children := update (update s.children c []) p (s.children p ++ [c])
      childWaiters := update s.childWaiters c []
      isZombie := update s.isZombie c false
      isChildSubreaper := update s.isChildSubreaper c false
      ignoresChild := update s.ignoresChild c (s.ignoresChild p)
      exitSignal := update s.exitSignal c exitSignal
      pgid := update s.pgid c (s.pgid p)
      phase := update s.phase c .running
      birth := update s.birth c (s.forks + 1)
      forks := s.forks + 1 }
  else none

/-- The section of `wait4` under the process lock: reap the first zombie that matches, or queue
the task.  Without a child that matches, the call returns `ECHILD`. -/
def wait4 (s : State) (p task : Nat) (selector : Selector) : Option State :=
  if s.phase p = .running then
    match (s.children p).find? fun c => s.childMatches selector c && s.isZombie c with
    | some c => some { s with
        children := update s.children p ((s.children p).erase c)
        reaped := update s.reaped c true }
    | none =>
      if (s.children p).any (s.childMatches selector) then
        let queue := (s.childWaiters p).filter (fun w => w.task ≠ task) ++ [⟨task, selector⟩]
        some { s with childWaiters := update s.childWaiters p queue }
      else some s
  else none

/-- A waiter that was woken by a signal takes itself off the queue. -/
def leave (s : State) (p task : Nat) : State :=
  let queue := (s.childWaiters p).filter fun w => w.task ≠ task
  { s with childWaiters := update s.childWaiters p queue }

/-- The tear-down section of `exit_current`; the exit of the init process stops the machine. -/
def tearDown (s : State) (p : Nat) (keeps : Bool) : Option State :=
  if s.phase p = .running ∧ p ≠ INIT then
    let parent := (s.parent p).bind (s.upgrade keeps)
    some { s with
      children := update s.children p []
      phase := update s.phase p (.searching parent (s.children p) parent) }
  else none

/-- One round of `nearest_child_reaper`, under the lock of the process it looks at. -/
def searchReaper (s : State) (p : Nat) (keeps : Bool) : Option State :=
  match s.phase p with
  | .searching parent children cursor =>
    let next := match cursor with
      | none => .found parent children INIT
      | some q =>
        if s.isChildSubreaper q && !s.isZombie q then .found parent children q
        else .searching parent children ((s.parent q).bind (s.upgrade keeps))
    some { s with phase := update s.phase p next }
  | _ => none

/-- Hand the children over, under the lock of the reaper. -/
def reparent (s : State) (p : Nat) : Option State :=
  match s.phase p with
  | .found parent children reaper =>
    some { s with
      parent := fun c => if c ∈ children then some reaper else s.parent c
      children := update s.children reaper (s.children reaper ++ children)
      phase := update s.phase p (.publishing parent) }
  | _ => none

/-- The waiters that are taken off the queue are woken. -/
def publishProcessExit (s : State) (p : Nat) : Option State :=
  match s.phase p with
  | .publishing none =>
    some { s with
      isZombie := update s.isZombie p true
      phase := update s.phase p .exited }
  | .publishing (some q) =>
    if s.exitSignal p = SIGCHLD && s.ignoresChild q then
      -- reaped at once, without becoming a zombie
      some { s with
        children := update s.children q ((s.children q).filter (· ≠ p))
        childWaiters := update s.childWaiters q []
        reaped := update s.reaped p true
        phase := update s.phase p .exited }
    else
      some { s with
        childWaiters := update s.childWaiters q []
        isZombie := update s.isZombie p true
        phase := update s.phase p .exited }
  | _ => none

inductive Event where
  | fork (p c exitSignal : Nat)
  | setChildSubreaper (p : Nat) (on : Bool)
  | sigaction (p : Nat) (ignore : Bool)
  | wait4 (p task : Nat) (selector : Selector)
  | leave (p task : Nat)
  | tearDown (p : Nat) (keeps : Bool)
  | searchReaper (p : Nat) (keeps : Bool)
  | reparent (p : Nat)
  | publish (p : Nat)

def step (s : State) : Event → Option State
  | .fork p c exitSignal => fork s p c exitSignal
  | .setChildSubreaper p on =>
    some { s with isChildSubreaper := update s.isChildSubreaper p on }
  | .sigaction p ignore => some { s with ignoresChild := update s.ignoresChild p ignore }
  | .wait4 p task selector => wait4 s p task selector
  | .leave p task => some (leave s p task)
  | .tearDown p keeps => tearDown s p keeps
  | .searchReaper p keeps => searchReaper s p keeps
  | .reparent p => reparent s p
  | .publish p => publishProcessExit s p

def boot : State where
  parent _ := none
  children _ := []
  childWaiters _ := []
  isZombie _ := false
  isChildSubreaper _ := false
  ignoresChild _ := false
  exitSignal _ := 0
  pgid _ := 0
  reaped _ := false
  phase p := if p = INIT then .running else .absent
  birth _ := 0
  forks := 0

def system : System State Event where
  init s := s = boot
  step := step

/-! ## The condition -/

/-- Children may be handed to this reaper: it is not exiting, and where one of them is a zombie
the exiting process will wake the reaper itself or nobody sleeps there. -/
def HandOverOk (s : State) (noted : Option Nat) (children : List Nat) (reaper : Nat) : Prop :=
  s.phase reaper = .running ∧
    (noted = some reaper ∨ (∀ c ∈ children, s.isZombie c = false) ∨ s.childWaiters reaper = [])

instance {s : State} {noted : Option Nat} {children : List Nat} {reaper : Nat} :
    Decidable (HandOverOk s noted children reaper) := inferInstanceAs (Decidable (_ ∧ _))

/-- **The condition on a section**: no process is torn down while its parent or one of its
children is exiting, and children are handed over as `HandOverOk` says. -/
def StepOk (s : State) : Event → Prop
  | .tearDown p _ =>
    (∀ q, s.parent p = some q → s.phase q = .running) ∧
      ∀ c ∈ s.children p, (s.phase c).inFlight = false
  | .reparent p =>
    match s.phase p with
    | .found noted children reaper => HandOverOk s noted children reaper
    | _ => True
  | _ => True

instance : DecidableRel StepOk := fun s e => by
  unfold StepOk
  split
  · infer_instance
  · split <;> infer_instance
  · infer_instance

/-! ## The tree of processes -/

/-- **A parent is older than its child**, and so is every process that holds it in its list or in
the hand of its exit, and every process that the search for a reaper comes to. -/
structure Tree (s : State) : Prop where
  init : s.birth INIT = 0 ∧ s.phase INIT ≠ .absent
  born : ∀ {p}, s.phase p ≠ .absent → s.birth p ≤ s.forks ∧ (p ≠ INIT → 0 < s.birth p)
  parent : ∀ {c q}, s.parent c = some q → s.phase q ≠ .absent ∧ s.birth q < s.birth c
  child : ∀ {q c}, c ∈ s.children q → s.phase c ≠ .absent ∧ s.birth q < s.birth c
  held : ∀ {p c}, c ∈ (s.phase p).held → s.phase c ≠ .absent ∧ s.birth p < s.birth c
  search : ∀ {p q}, (s.phase p).looksAt = some q → s.phase q ≠ .absent ∧ s.birth q < s.birth p
  /-- The init process does not exit. -/
  flight : ∀ {p}, (s.phase p).inFlight = true → p ≠ INIT

/-! ## The invariant -/

structure Inv (s : State) : Prop where
  init : s.phase INIT = .running
  /-- Who is in a list of children points back, and exists. -/
  child : ∀ {q c}, c ∈ s.children q → s.phase q = .running ∧ s.parent c = some q ∧
    s.phase c ≠ .absent
  /-- Children in the hand of an exit are not exiting themselves. -/
  held : ∀ {q c}, c ∈ (s.phase q).held → s.parent c = some q ∧ s.phase c ≠ .absent ∧
    (s.phase c).inFlight = false
  /-- The parent that an exit has noted is still its parent, and alive. -/
  flight : ∀ {p}, (s.phase p).inFlight = true → ∃ q, (s.phase p).noted = some q ∧
    p ∈ s.children q
  place : ∀ {c}, s.phase c ≠ .absent → s.reaped c = false → c ≠ INIT →
    (∃ q, c ∈ s.children q) ∨ ∃ q, c ∈ (s.phase q).held
  dead : ∀ {c}, s.isZombie c = true ∨ s.reaped c = true → s.phase c = .exited
  /-- A waiter that should see a zombie will be woken by an exit that is about to publish. -/
  woken : ∀ {q c w}, c ∈ s.children q → s.isZombie c = true → w ∈ s.childWaiters q →
    s.childMatches w.selector c = true → ∃ p, s.phase p = .publishing (some q)

variable {s s' : State} {p q c : Nat}

lemma Inv.not_reaped (h : Inv s) (hp : s.phase p ≠ .exited) :
    s.reaped p = false ∧ s.isZombie p = false := by
  constructor
  · by_contra hr
    exact hp (h.dead (.inr (by simpa using hr)))
  · by_contra hz
    exact hp (h.dead (.inl (by simpa using hz)))

variable {q' task exitSignal : Nat} {selector : Selector} {keeps : Bool} {next : Phase}

/-- A child is in one list. -/
lemma Inv.parent_unique (h : Inv s) (hq : c ∈ s.children q) (hq' : c ∈ s.children q') : q = q' :=
  some.inj ((h.child hq).2.1.symm.trans (h.child hq').2.1)

/-- A child in a list is in nobody's hand. -/
lemma Inv.not_held (h : Inv s) (hq : c ∈ s.children q) (hq' : c ∈ (s.phase q').held) : False := by
  have heq := some.inj ((h.child hq).2.1.symm.trans (h.held hq').1)
  subst heq
  rw [(h.child hq).1] at hq'
  cases hq'

/-- A process that exists goes on existing under its next phase. -/
lemma exists_update_iff (hp : s.phase p ≠ .absent) (hnext : next ≠ .absent) :
    update s.phase p next c ≠ .absent ↔ s.phase c ≠ .absent := by
  rcases eq_or_ne c p with rfl | hc
  · simp [hp, hnext]
  · rw [update_of_ne hc]

lemma ne_of_phase {a b : Phase} (hc : s.phase c = a) (hp : s.phase p = b) (hab : a ≠ b) :
    c ≠ p := by
  rintro rfl
  exact hab (hc.symm.trans hp)

lemma inv_boot : Inv boot := by
  constructor
  · rfl
  · exact fun hc => nomatch hc
  · intro q c hc
    simp only [boot] at hc
    split at hc <;> cases hc
  · intro p hp
    simp only [boot] at hp
    split at hp <;> cases hp
  · intro c hc _ hne
    simp [boot, hne] at hc
  · rintro c (hc | hc) <;> cases hc
  · exact fun hc => nomatch hc

/-! ## The sections keep it -/

section

variable (h : Inv s)
include h

/-- Fewer waiters, or waiters that no zombie matches. -/
lemma Inv.waiters {waiters : Nat → List Waiter}
    (hw : ∀ {q w c}, w ∈ waiters q → c ∈ s.children q → s.isZombie c = true →
      s.childMatches w.selector c = true → w ∈ s.childWaiters q) :
    Inv { s with childWaiters := waiters } :=
  { h with woken := fun hc hz hmem hmatch => h.woken hc hz (hw hmem hc hz hmatch) hmatch }

lemma Inv.leave (p task : Nat) : Inv (leave s p task) := by
  apply h.waiters
  intro q w c hw _ _ _
  rcases eq_or_ne q p with rfl | hq
  · rw [update_self] at hw
    exact (mem_filter.mp hw).1
  · rwa [update_of_ne hq] at hw

/-- A zombie that is reaped leaves its list. -/
lemma Inv.reap (hc : c ∈ s.children p) (hz : s.isZombie c = true) :
    Inv { s with
      children := update s.children p ((s.children p).erase c)
      reaped := update s.reaped c true } := by
  have hdead := h.dead (.inl hz)
  -- every other child stays in its list
  have hsub : ∀ {q d}, d ∈ update s.children p ((s.children p).erase c) q →
      d ∈ s.children q := by
    intro q d hd
    rcases eq_or_ne q p with rfl | hq
    · rw [update_self] at hd
      exact mem_of_mem_erase hd
    · rwa [update_of_ne hq] at hd
  have hstay : ∀ {q d}, d ∈ s.children q → d ≠ c →
      d ∈ update s.children p ((s.children p).erase c) q := by
    intro q d hd hne
    rcases eq_or_ne q p with rfl | hq
    · rw [update_self]
      exact (mem_erase_of_ne hne).mpr hd
    · rwa [update_of_ne hq]
  constructor <;> try dsimp only
  · exact h.init
  · exact fun hd => h.child (hsub hd)
  · exact h.held
  · intro d hd
    obtain ⟨q, hnoted, hmem⟩ := h.flight hd
    refine ⟨q, hnoted, hstay hmem ?_⟩
    rintro rfl
    rw [show s.phase d = .exited from hdead] at hd
    cases hd
  · intro d hd hr hinit
    have hne : d ≠ c := by
      rintro rfl
      simp at hr
    rw [update_of_ne hne] at hr
    rcases h.place hd hr hinit with ⟨q, hq⟩ | hheld
    · exact .inl ⟨q, hstay hq hne⟩
    · exact .inr hheld
  · rintro d (hd | hd)
    · exact h.dead (.inl hd)
    rcases eq_or_ne d c with rfl | hne
    · exact hdead
    · exact h.dead (.inr (by rwa [update_of_ne hne] at hd))
  · exact fun hd => h.woken (hsub hd)

theorem Inv.wait4 (hstep : wait4 s p task selector = some s') : Inv s' := by
  obtain ⟨-, hstep⟩ := ite_none_right_eq_some.mp hstep
  split at hstep
  next hfind =>
    cases hstep
    have hz := find?_some hfind
    rw [Bool.and_eq_true] at hz
    exact h.reap (mem_of_find?_eq_some hfind) hz.2
  next hnone =>
    split at hstep
    · cases hstep
      apply h.waiters
      intro q w c hw hc hz hmatch
      by_cases hq : q = p
      swap
      · rwa [update_of_ne hq] at hw
      subst hq
      rw [update_self] at hw
      rcases mem_append.mp hw with hw | hw
      · exact (mem_filter.mp hw).1
      -- the scan has found no zombie that matches
      obtain rfl := mem_singleton.mp hw
      have hscan := find?_eq_none.mp hnone c hc
      rw [hz, Bool.and_true] at hscan
      exact absurd hmatch hscan
    · cases hstep
      exact h

lemma Inv.fork (hstep : fork s p c exitSignal = some s') : Inv s' := by
  obtain ⟨⟨hp, hc⟩, hstep⟩ := ite_none_right_eq_some.mp hstep
  have hpc : p ≠ c := by
    rintro rfl
    simp [hp] at hc
  have hout : ∀ {q}, s.children q ≠ [] → q ≠ c := by
    rintro q hq rfl
    obtain ⟨d, hd⟩ := exists_mem_of_ne_nil _ hq
    have := (h.child hd).1
    simp [hc] at this
  -- the lists of children are the old ones, and the new process in the list of its parent
  have hlist : ∀ {q d}, d ∈ update (update s.children c []) p
      (s.children p ++ [c]) q ↔ d ∈ s.children q ∨ (q = p ∧ d = c) := by
    intro q d
    rcases eq_or_ne q p with rfl | hq
    · simp
    rw [update_of_ne hq]
    rcases eq_or_ne q c with rfl | hqc
    · rw [update_self]
      simp only [not_mem_nil, hq, false_and, or_false, false_iff]
      exact fun hd => hout (ne_nil_of_mem hd) rfl
    · simp [update_of_ne hqc, hq]
  have hnew : ∀ {d}, s.phase d ≠ .absent → d ≠ c := by
    rintro d hd rfl
    exact hd hc
  cases hstep
  constructor <;> try dsimp only
  · exact (update_of_ne (hnew (by rw [h.init]; simp)) ..).trans h.init
  · intro q d hd
    rcases hlist.mp hd with hd | ⟨rfl, rfl⟩
    · obtain ⟨hq, hparent, hd'⟩ := h.child hd
      have hne := hnew hd'
      rw [update_of_ne (hnew (by rw [hq]; simp)), update_of_ne hne, update_of_ne hne]
      exact ⟨hq, hparent, hd'⟩
    · rw [update_of_ne hpc, update_self, update_self]
      exact ⟨hp, rfl, by simp⟩
  · intro q d hd
    have hq : q ≠ c := by
      rintro rfl
      simp [Phase.held] at hd
    rw [update_of_ne hq] at hd
    obtain ⟨hparent, hd', hfl⟩ := h.held hd
    have hne := hnew hd'
    rw [update_of_ne hne, update_of_ne hne]
    exact ⟨hparent, hd', hfl⟩
  · intro d hd
    have hne : d ≠ c := by
      rintro rfl
      simp [Phase.inFlight] at hd
    rw [update_of_ne hne] at hd ⊢
    obtain ⟨q, hnoted, hmem⟩ := h.flight hd
    exact ⟨q, hnoted, hlist.mpr (.inl hmem)⟩
  · intro d hd hr hinit
    by_cases hne : d = c
    · exact .inl ⟨p, hlist.mpr (.inr ⟨rfl, hne⟩)⟩
    rw [update_of_ne hne] at hd
    rcases h.place hd hr hinit with ⟨q, hq⟩ | ⟨q, hq⟩
    · exact .inl ⟨q, hlist.mpr (.inl hq)⟩
    have hqc : q ≠ c := by
      rintro rfl
      rw [hc] at hq
      cases hq
    exact .inr ⟨q, by rwa [update_of_ne hqc]⟩
  · intro d hd
    have hne : d ≠ c := by
      rintro rfl
      rcases hd with hd | hd
      · simp at hd
      · have := h.dead (.inr hd)
        simp [hc] at this
    rw [update_of_ne hne] at hd
    exact (update_of_ne hne ..).trans (h.dead hd)
  · intro q d w hd hz hw hmatch
    rcases hlist.mp hd with hd | ⟨-, rfl⟩
    swap
    · simp at hz
    obtain ⟨hq, -, hd'⟩ := h.child hd
    have hne := hnew hd'
    have hqc : q ≠ c := hnew (by rw [hq]; simp)
    have hmatch' : s.childMatches w.selector d = true := by
      revert hmatch
      cases hsel : w.selector <;> simp [State.childMatches, update_of_ne hne]
    rw [update_of_ne hne] at hz
    rw [update_of_ne hqc] at hw
    obtain ⟨p', hp'⟩ := h.woken hd hz hw hmatch'
    refine ⟨p', (update_of_ne (hnew ?_) ..).trans hp'⟩
    rw [hp']
    simp

/-- **Tear-down**: the children go from the list of the process into its hand, and the noted
parent is the one that has the process in its list. -/
theorem Inv.tearDown (htree : Tree s) (hok : StepOk s (.tearDown p keeps))
    (hstep : tearDown s p keeps = some s') : Inv s' := by
  obtain ⟨⟨hp, hinit⟩, hstep⟩ := ite_none_right_eq_some.mp hstep
  obtain ⟨hparent, hchildren⟩ := hok
  have hlive : s.phase p ≠ .absent := by simp [hp]
  have hreaped := (h.not_reaped (p := p) (by rw [hp]; simp)).1
  -- the process is in the list of a parent that is not exiting
  obtain ⟨q, hq⟩ : ∃ q, p ∈ s.children q := by
    rcases h.place hlive hreaped hinit with hq | ⟨q, hq⟩
    · exact hq
    · have hrun := hparent q (h.held hq).1
      rw [hrun] at hq
      cases hq
  obtain ⟨hqrun, hpq, -⟩ := h.child hq
  have hqp : q ≠ p := by
    rintro rfl
    exact absurd (htree.parent hpq).2 (Nat.lt_irrefl _)
  have hupgrade : (s.parent p).bind (s.upgrade keeps) = some q := by
    simp [hpq, State.upgrade, (h.not_reaped (p := q) (by rw [hqrun]; simp)).1]
  rw [hupgrade] at hstep
  have hlist : ∀ {r d}, d ∈ update s.children p [] r ↔ r ≠ p ∧ d ∈ s.children r := by
    intro r d
    rcases eq_or_ne r p with rfl | hr
    · simp
    · simp [hr]
  cases hstep
  constructor <;> try dsimp only
  · exact (update_of_ne hinit.symm ..).trans h.init
  · intro r d hd
    obtain ⟨hr, hd⟩ := hlist.mp hd
    obtain ⟨hrun, hpar, hd'⟩ := h.child hd
    exact ⟨(update_of_ne hr ..).trans hrun, hpar, (exists_update_iff hlive (by simp)).mpr hd'⟩
  · intro r d hd
    rcases eq_or_ne r p with rfl | hr
    · rw [update_self] at hd
      obtain ⟨-, hpar, hd'⟩ := h.child hd
      -- the process is not its own child
      have hdr : d ≠ r := by
        rintro rfl
        exact hqp (h.parent_unique hq hd)
      rw [update_of_ne hdr]
      exact ⟨hpar, hd', hchildren d hd⟩
    · rw [update_of_ne hr] at hd
      obtain ⟨hpar, hd', hfl⟩ := h.held hd
      have hdp : d ≠ p := by
        rintro rfl
        exact h.not_held hq hd
      rw [update_of_ne hdp]
      exact ⟨hpar, hd', hfl⟩
  · intro d hd
    rcases eq_or_ne d p with rfl | hdp
    · rw [update_self]
      exact ⟨q, rfl, hlist.mpr ⟨hqp, hq⟩⟩
    rw [update_of_ne hdp] at hd ⊢
    obtain ⟨r, hnoted, hmem⟩ := h.flight hd
    refine ⟨r, hnoted, hlist.mpr ⟨?_, hmem⟩⟩
    -- a child that is exiting has kept its parent from being torn down
    rintro rfl
    simp [hchildren d hmem] at hd
  · intro d hd hr hinit'
    rw [exists_update_iff hlive (by simp)] at hd
    rcases h.place hd hr hinit' with ⟨r, hmem⟩ | ⟨r, hmem⟩
    · by_cases hrp : r = p
      · refine .inr ⟨p, ?_⟩
        rw [update_self]
        exact hrp ▸ hmem
      · exact .inl ⟨r, hlist.mpr ⟨hrp, hmem⟩⟩
    · refine .inr ⟨r, ?_⟩
      rwa [update_of_ne]
      rintro rfl
      rw [hp] at hmem
      cases hmem
  · exact fun hd => (update_of_ne (ne_of_phase (h.dead hd) hp (by simp)) ..).trans (h.dead hd)
  · intro r d w hd hz hw hmatch
    obtain ⟨p', hp'⟩ := h.woken (hlist.mp hd).2 hz hw hmatch
    exact ⟨p', (update_of_ne (ne_of_phase hp' hp (by simp)) ..).trans hp'⟩

/-- A change of the phase of an exit that keeps what it holds and what it has noted. -/
lemma Inv.advance (hfl : (s.phase p).inFlight = true)
    (hnotPub : ∀ q, s.phase p ≠ .publishing q) (hnext : next.inFlight = true)
    (hheld : next.held = (s.phase p).held) (hnoted : next.noted = (s.phase p).noted) :
    Inv { s with phase := update s.phase p next } := by
  -- both phases are in flight, so that nothing that only asks for this changes
  have hview : ∀ d, (update s.phase p next d).held = (s.phase d).held ∧
      (update s.phase p next d).noted = (s.phase d).noted ∧
      (update s.phase p next d).inFlight = (s.phase d).inFlight := by
    intro d
    rcases eq_or_ne d p with rfl | hd
    · rw [update_self, hheld, hnoted, hnext, hfl]
      simp
    · rw [update_of_ne hd]
      simp
  have hother : ∀ {d ph}, ph.inFlight = false → s.phase d = ph →
      update s.phase p next d = ph := by
    intro d ph hph hd
    refine (update_of_ne (ne_of_phase hd rfl ?_) ..).trans hd
    rintro rfl
    simp [hph] at hfl
  have hlive : ∀ {ph : Phase}, ph.inFlight = true → ph ≠ .absent := by
    rintro _ hph rfl
    cases hph
  have habs : ∀ {d}, update s.phase p next d ≠ .absent ↔ s.phase d ≠ .absent :=
    exists_update_iff (hlive hfl) (hlive hnext)
  constructor <;> try dsimp only
  · exact hother rfl h.init
  · intro q c hc
    obtain ⟨hq, hpar, hc'⟩ := h.child hc
    exact ⟨hother rfl hq, hpar, habs.mpr hc'⟩
  · intro q c hc
    rw [(hview q).1] at hc
    obtain ⟨hpar, hc', hcfl⟩ := h.held hc
    exact ⟨hpar, habs.mpr hc', (hview c).2.2.trans hcfl⟩
  · intro d hd
    rw [(hview d).2.2] at hd
    rw [(hview d).2.1]
    exact h.flight hd
  · intro c hc hr hinit
    simp only [(hview _).1]
    exact h.place (habs.mp hc) hr hinit
  · exact fun hc => hother rfl (h.dead hc)
  · intro q c w hc hz hw hmatch
    obtain ⟨p', hp'⟩ := h.woken hc hz hw hmatch
    refine ⟨p', (update_of_ne ?_ ..).trans hp'⟩
    rintro rfl
    exact hnotPub _ hp'

lemma Inv.searchReaper (hstep : searchReaper s p keeps = some s') : Inv s' := by
  unfold ChildExit.searchReaper at hstep
  split at hstep
  swap
  · cases hstep
  rename_i parent children cursor hp
  cases hstep
  -- every outcome of a round keeps the parent and the children
  have hcase : ∀ next : Phase, next.inFlight = true → next.held = children →
      next.noted = parent → Inv { s with phase := update s.phase p next } := by
    intro next h1 h2 h3
    apply h.advance
    · rw [hp]
      rfl
    · intro q
      rw [hp]
      simp
    · exact h1
    · rw [hp]
      exact h2
    · rw [hp]
      exact h3
  cases cursor with
  | none => exact hcase _ rfl rfl rfl
  | some q =>
    dsimp only
    split
    · exact hcase _ rfl rfl rfl
    · exact hcase _ rfl rfl rfl

/-- **Handing over**: the children go from the hand of the exit into the list of a live reaper. -/
theorem Inv.reparent (hok : StepOk s (.reparent p)) (hstep : reparent s p = some s') :
    Inv s' := by
  unfold ChildExit.reparent at hstep
  split at hstep
  swap
  · cases hstep
  rename_i children reaper hp
  simp only [StepOk, hp] at hok
  obtain ⟨hrun, hwake⟩ := hok
  have hheldp : ∀ {c}, c ∈ children → c ∈ (s.phase p).held := by
    intro c hc
    rw [hp]
    exact hc
  have hlive : s.phase p ≠ .absent := by simp [hp]
  have hrp : reaper ≠ p := ne_of_phase hrun hp (by simp)
  have hlist : ∀ {q c}, c ∈ update s.children reaper (s.children reaper ++ children) q ↔
      c ∈ s.children q ∨ (q = reaper ∧ c ∈ children) := by
    intro q c
    rcases eq_or_ne q reaper with rfl | hq
    · simp
    · simp [hq]
  -- a child in a list or in another hand is not handed over
  have hkeep : ∀ {q c}, c ∈ s.children q → c ∉ children := fun hc hmem =>
    h.not_held hc (hheldp hmem)
  have hkeep' : ∀ {q c}, q ≠ p → c ∈ (s.phase q).held → c ∉ children := by
    intro q c hq hc hmem
    exact hq (some.inj ((h.held hc).1.symm.trans (h.held (hheldp hmem)).1))
  have hpfl : (s.phase p).inFlight = true := by
    rw [hp]
    rfl
  have hmoved : ∀ {c}, c ∈ children → c ≠ p := by
    rintro c hc rfl
    simp [(h.held (hheldp hc)).2.2] at hpfl
  cases hstep
  constructor <;> try dsimp only
  · exact (update_of_ne (ne_of_phase h.init hp (by simp)) ..).trans h.init
  · intro q c hc
    rcases hlist.mp hc with hc | ⟨rfl, hmem⟩
    · obtain ⟨hq, hpar, hc'⟩ := h.child hc
      exact ⟨(update_of_ne (ne_of_phase hq hp (by simp)) ..).trans hq,
        (if_neg (hkeep hc)).trans hpar, (exists_update_iff hlive (by simp)).mpr hc'⟩
    · rw [update_of_ne hrp, if_pos hmem, update_of_ne (hmoved hmem)]
      exact ⟨hrun, rfl, (h.held (hheldp hmem)).2.1⟩
  · intro q c hc
    have hqp : q ≠ p := by
      rintro rfl
      simp [Phase.held] at hc
    rw [update_of_ne hqp] at hc
    obtain ⟨hpar, hc', hfl⟩ := h.held hc
    have hcp : c ≠ p := by
      rintro rfl
      simp [hfl] at hpfl
    rw [update_of_ne hcp, if_neg (hkeep' hqp hc)]
    exact ⟨hpar, hc', hfl⟩
  · intro d hd
    rcases eq_or_ne d p with rfl | hdp
    · obtain ⟨q, hnoted, hmem⟩ := h.flight hpfl
      rw [hp] at hnoted
      rw [update_self]
      exact ⟨q, hnoted, hlist.mpr (.inl hmem)⟩
    · rw [update_of_ne hdp] at hd ⊢
      obtain ⟨q, hnoted, hmem⟩ := h.flight hd
      exact ⟨q, hnoted, hlist.mpr (.inl hmem)⟩
  · intro c hc hr hinit
    rw [exists_update_iff hlive (by simp)] at hc
    rcases h.place hc hr hinit with ⟨q, hq⟩ | ⟨q, hq⟩
    · exact .inl ⟨q, hlist.mpr (.inl hq)⟩
    rcases eq_or_ne q p with rfl | hqp
    · rw [hp] at hq
      exact .inl ⟨reaper, hlist.mpr (.inr ⟨rfl, hq⟩)⟩
    · exact .inr ⟨q, by rwa [update_of_ne hqp]⟩
  · exact fun hc => (update_of_ne (ne_of_phase (h.dead hc) hp (by simp)) ..).trans (h.dead hc)
  · intro q c w hc hz hw hmatch
    rcases hlist.mp hc with hc | ⟨rfl, hmem⟩
    · obtain ⟨p', hp'⟩ := h.woken hc hz hw hmatch
      exact ⟨p', (update_of_ne (ne_of_phase hp' hp (by simp)) ..).trans hp'⟩
    · -- a zombie is handed over: the exit itself will wake its new parent
      rcases hwake with rfl | hnone | hempty
      · exact ⟨p, update_self ..⟩
      · simp [hnone c hmem] at hz
      · simp [hempty] at hw

/-- The end of an exit: the process is gone from the exits in flight and either stays in the list
of its parent or is reaped, and the waiters of the parent are off the queue. -/
lemma Inv.retire (hp : s.phase p = .publishing (some q))
    {children : Nat → List Nat} {zombie reaped : Nat → Bool}
    (hsub : ∀ {r d}, d ∈ children r → d ∈ s.children r)
    (hstay : ∀ {r d}, d ≠ p → d ∈ s.children r → d ∈ children r)
    (hself : (∃ r, p ∈ children r) ∨ reaped p = true)
    (hz : ∀ {d}, d ≠ p → zombie d = s.isZombie d) (hr : ∀ {d}, d ≠ p → reaped d = s.reaped d) :
    Inv { s with
      children := children
      childWaiters := update s.childWaiters q []
      isZombie := zombie
      reaped := reaped
      phase := update s.phase p .exited } := by
  have hpfl : (s.phase p).inFlight = true := by
    rw [hp]
    rfl
  have hmem : p ∈ s.children q := by
    obtain ⟨r, hnoted, hmem⟩ := h.flight hpfl
    rw [hp] at hnoted
    cases hnoted
    exact hmem
  have hother : ∀ {d ph}, ph.inFlight = false → s.phase d = ph → d ≠ p := by
    rintro d ph hph rfl rfl
    simp [hph] at hpfl
  have hexists : ∀ {d}, s.phase d ≠ .absent → update s.phase p .exited d ≠ .absent :=
    (exists_update_iff (by simp [hp]) (by simp)).mpr
  constructor <;> try dsimp only
  · exact (update_of_ne (hother rfl h.init) ..).trans h.init
  · intro r d hd
    obtain ⟨hrun, hpar, hd'⟩ := h.child (hsub hd)
    exact ⟨(update_of_ne (hother rfl hrun) ..).trans hrun, hpar, hexists hd'⟩
  · intro r d hd
    have hrp : r ≠ p := by
      rintro rfl
      simp [Phase.held] at hd
    rw [update_of_ne hrp] at hd
    obtain ⟨hpar, hd', hfl⟩ := h.held hd
    have hdp : d ≠ p := by
      rintro rfl
      simp [hfl] at hpfl
    exact ⟨hpar, hexists hd', by rwa [update_of_ne hdp]⟩
  · intro d hd
    have hdp : d ≠ p := by
      rintro rfl
      simp [Phase.inFlight] at hd
    rw [update_of_ne hdp] at hd ⊢
    obtain ⟨r, hnoted, hmem⟩ := h.flight hd
    exact ⟨r, hnoted, hstay hdp hmem⟩
  · intro d hd hd' hinit
    rcases eq_or_ne d p with rfl | hdp
    · rcases hself with hin | hreaped
      · exact .inl hin
      · simp [hreaped] at hd'
    · rw [update_of_ne hdp] at hd
      rw [hr hdp] at hd'
      rcases h.place hd hd' hinit with ⟨r, hin⟩ | ⟨r, hin⟩
      · exact .inl ⟨r, hstay hdp hin⟩
      refine .inr ⟨r, ?_⟩
      rwa [update_of_ne]
      rintro rfl
      rw [hp] at hin
      cases hin
  · intro d hd
    by_cases hdp : d = p
    · rw [hdp, update_self]
    · rw [hz hdp, hr hdp] at hd
      exact (update_of_ne hdp ..).trans (h.dead hd)
  · intro r d w hd hzd hw hmatch
    have hrq : r ≠ q := by
      rintro rfl
      simp [update_self] at hw
    rw [update_of_ne hrq] at hw
    -- the process itself is in the list of the parent it publishes to only
    have hdp : d ≠ p := by
      rintro rfl
      exact hrq (h.parent_unique (hsub hd) hmem)
    rw [hz hdp] at hzd
    obtain ⟨p', hp'⟩ := h.woken (hsub hd) hzd hw hmatch
    refine ⟨p', (update_of_ne ?_ ..).trans hp'⟩
    rintro rfl
    rw [hp] at hp'
    cases hp'
    exact hrq rfl

/-- **Publication**: the noted parent is the one that has the process in its list. -/
theorem Inv.publish (hstep : publishProcessExit s p = some s') : Inv s' := by
  unfold publishProcessExit at hstep
  split at hstep
  next hp =>
    obtain ⟨q, hnoted, -⟩ := h.flight (p := p) (by rw [hp]; rfl)
    rw [hp] at hnoted
    cases hnoted
  next q hp =>
    obtain ⟨r, hnoted, hmem⟩ := h.flight (p := p) (by rw [hp]; rfl)
    rw [hp] at hnoted
    cases hnoted
    split at hstep
    · cases hstep
      apply h.retire hp
      · intro r d hd
        rcases eq_or_ne r q with rfl | hr
        · rw [update_self] at hd
          exact (mem_filter.mp hd).1
        · rwa [update_of_ne hr] at hd
      · intro r d hdp hd
        rcases eq_or_ne r q with rfl | hr
        · rw [update_self]
          exact mem_filter.mpr ⟨hd, by simpa using hdp⟩
        · rwa [update_of_ne hr]
      · simp
      · simp
      · exact fun hd => update_of_ne hd _ _
    · cases hstep
      apply h.retire hp
      · simp
      · simp
      · exact .inl ⟨q, hmem⟩
      · exact fun hd => update_of_ne hd _ _
      · simp
  · cases hstep

end

/-! ## The order of creation -/

/-- A section that creates nobody keeps the order if its new pointers go to older processes. -/
lemma Tree.change (h : Tree s) (hforks : s'.forks = s.forks) (hbirth : s'.birth = s.birth)
    (hexists : ∀ p, s'.phase p ≠ .absent ↔ s.phase p ≠ .absent)
    (hparent : ∀ {c q}, s'.parent c = some q → s.parent c = some q ∨
      (s.phase q ≠ .absent ∧ s.birth q < s.birth c))
    (hchild : ∀ {q c}, c ∈ s'.children q → c ∈ s.children q ∨
      (s.phase c ≠ .absent ∧ s.birth q < s.birth c))
    (hheld : ∀ {p c}, c ∈ (s'.phase p).held → c ∈ (s.phase p).held ∨
      (s.phase c ≠ .absent ∧ s.birth p < s.birth c))
    (hsearch : ∀ {p q}, (s'.phase p).looksAt = some q → (s.phase p).looksAt = some q ∨
      (s.phase q ≠ .absent ∧ s.birth q < s.birth p))
    (hflight : ∀ {p}, (s'.phase p).inFlight = true → (s.phase p).inFlight = true ∨ p ≠ INIT) :
    Tree s' := by
  constructor
  · rw [hbirth]
    exact ⟨h.init.1, (hexists INIT).mpr h.init.2⟩
  · intro p hp
    rw [hbirth, hforks]
    exact h.born ((hexists p).mp hp)
  · intro c q hq
    rw [hbirth]
    rcases hparent hq with hold | hnew
    · exact ⟨(hexists q).mpr (h.parent hold).1, (h.parent hold).2⟩
    · exact ⟨(hexists q).mpr hnew.1, hnew.2⟩
  · intro q c hc
    rw [hbirth, hexists]
    exact (hchild hc).elim (fun hold => h.child hold) id
  · intro p c hc
    rw [hbirth, hexists]
    exact (hheld hc).elim (fun hold => h.held hold) id
  · intro p q hq
    rw [hbirth]
    rcases hsearch hq with hold | hnew
    · exact ⟨(hexists q).mpr (h.search hold).1, (h.search hold).2⟩
    · exact ⟨(hexists q).mpr hnew.1, hnew.2⟩
  · intro p hp
    rcases hflight hp with hold | hnew
    · exact h.flight hold
    · exact hnew

lemma tree_boot : Tree boot := by
  constructor
  · exact ⟨rfl, by simp [boot]⟩
  · intro p hp
    refine ⟨Nat.le_refl _, fun hne => ?_⟩
    simp [boot, hne] at hp
  · intro c q hq
    cases hq
  · intro q c hc
    cases hc
  · intro p c hc
    simp only [boot] at hc
    split at hc <;> cases hc
  · intro p q hq
    simp only [boot] at hq
    split at hq <;> cases hq
  · intro p hp
    simp only [boot] at hp
    split at hp <;> cases hp

/-- A new process is younger than its parent and than everybody else. -/
lemma Tree.fork (h : Tree s) (hstep : fork s p c exitSignal = some s') : Tree s' := by
  obtain ⟨⟨hp, hc⟩, hstep⟩ := ite_none_right_eq_some.mp hstep
  have hnew : ∀ {d}, s.phase d ≠ .absent → d ≠ c := by
    rintro d hd rfl
    exact hd hc
  have hbirth : ∀ {d}, d ≠ c → update s.birth c (s.forks + 1) d = s.birth d :=
    fun hd => update_of_ne hd _ _
  have hplive : s.phase p ≠ .absent := by
    rw [hp]
    simp
  cases hstep
  constructor <;> try dsimp only
  · rw [hbirth (hnew h.init.2), update_of_ne (hnew h.init.2)]
    exact h.init
  · intro d hd
    by_cases hdc : d = c
    · rw [hdc, update_self]
      simp
    · rw [update_of_ne hdc] at hd
      rw [hbirth hdc]
      exact ⟨Nat.le_succ_of_le (h.born hd).1, (h.born hd).2⟩
  · intro d q hq
    rcases eq_or_ne d c with rfl | hdc
    · rw [update_self] at hq
      cases hq
      rw [update_self, update_of_ne (hnew hplive), hbirth (hnew hplive)]
      exact ⟨hplive, Nat.lt_succ_of_le (h.born hplive).1⟩
    · rw [update_of_ne hdc] at hq
      obtain ⟨hlive, hlt⟩ := h.parent hq
      rw [hbirth hdc, hbirth (hnew hlive), update_of_ne (hnew hlive)]
      exact ⟨hlive, hlt⟩
  · intro q d hd
    have hold : q ≠ c → d ∈ s.children q →
        update s.phase c .running d ≠ .absent ∧
          update s.birth c (s.forks + 1) q < update s.birth c (s.forks + 1) d := by
      intro hqc hdq
      obtain ⟨hlive, hlt⟩ := h.child hdq
      rw [hbirth hqc, hbirth (hnew hlive), update_of_ne (hnew hlive)]
      exact ⟨hlive, hlt⟩
    by_cases hqp : q = p
    · rw [hqp] at hd ⊢
      rw [update_self, mem_append, mem_singleton] at hd
      rcases hd with hd | rfl
      · rw [← hqp] at hd ⊢
        exact hold (hqp ▸ hnew hplive) hd
      · rw [update_self, update_self, hbirth (hnew hplive)]
        exact ⟨by simp, Nat.lt_succ_of_le (h.born hplive).1⟩
    · rw [update_of_ne hqp] at hd
      by_cases hqc : q = c
      · rw [hqc, update_self] at hd
        cases hd
      · rw [update_of_ne hqc] at hd
        exact hold hqc hd
  · intro q d hd
    have hqc : q ≠ c := by
      rintro rfl
      simp [Phase.held] at hd
    rw [update_of_ne hqc] at hd
    obtain ⟨hlive, hlt⟩ := h.held hd
    rw [hbirth hqc, hbirth (hnew hlive), update_of_ne (hnew hlive)]
    exact ⟨hlive, hlt⟩
  · intro d q hq
    have hdc : d ≠ c := by
      rintro rfl
      simp [Phase.looksAt] at hq
    rw [update_of_ne hdc] at hq
    obtain ⟨hlive, hlt⟩ := h.search hq
    rw [hbirth hdc, hbirth (hnew hlive), update_of_ne (hnew hlive)]
    exact ⟨hlive, hlt⟩
  · intro d hd
    have hdc : d ≠ c := by
      rintro rfl
      simp [Phase.inFlight] at hd
    rw [update_of_ne hdc] at hd
    exact h.flight hd

/-- The next phase of one exit. -/
lemma Tree.advance (h : Tree s) (hs : s'.forks = s.forks ∧ s'.birth = s.birth)
    (hparent : ∀ {c q}, s'.parent c = some q → s.parent c = some q ∨
      (s.phase q ≠ .absent ∧ s.birth q < s.birth c))
    (hchild : ∀ {q c}, c ∈ s'.children q → c ∈ s.children q ∨
      (s.phase c ≠ .absent ∧ s.birth q < s.birth c)) (hphase : s'.phase = update s.phase p next)
    (hp : s.phase p ≠ .absent) (hnext : next ≠ .absent) (hinit : p ≠ INIT)
    (hheld : ∀ {c}, c ∈ next.held → s.phase c ≠ .absent ∧ s.birth p < s.birth c)
    (hsearch : ∀ {q}, next.looksAt = some q → s.phase q ≠ .absent ∧ s.birth q < s.birth p) :
    Tree s' := by
  apply h.change hs.1 hs.2 _ hparent hchild
  · intro d c hc
    rw [hphase] at hc
    by_cases hd : d = p
    · rw [hd] at hc ⊢
      rw [update_self] at hc
      exact .inr (hheld hc)
    · rw [update_of_ne hd] at hc
      exact .inl hc
  · intro d q hq
    rw [hphase] at hq
    by_cases hd : d = p
    · rw [hd] at hq ⊢
      rw [update_self] at hq
      exact .inr (hsearch hq)
    · rw [update_of_ne hd] at hq
      exact .inl hq
  · intro d hd
    rw [hphase] at hd
    by_cases hdp : d = p
    · exact .inr (hdp ▸ hinit)
    · rw [update_of_ne hdp] at hd
      exact .inl hd
  · intro d
    rw [hphase, exists_update_iff hp hnext]

lemma upgrade_eq_some (h : s.upgrade keeps p = some q) : p = q := by
  unfold State.upgrade at h
  split at h
  · cases h
  · exact some.inj h

lemma mem_of_mem_update {l : List Nat} {d : Nat} (hl : ∀ {d}, d ∈ l → d ∈ s.children q)
    (hd : d ∈ update s.children q l q') : d ∈ s.children q' := by
  rcases eq_or_ne q' q with rfl | hq
  · rw [update_self] at hd
    exact hl hd
  · rwa [update_of_ne hq] at hd

section

variable (h : Tree s)
include h

lemma Tree.tearDown (hstep : tearDown s p keeps = some s') : Tree s' := by
  obtain ⟨⟨hp, hinit⟩, rfl⟩ := of_guard hstep
  refine h.advance ⟨rfl, rfl⟩ .inl ?_ rfl (by rw [hp]; simp) (by simp) hinit h.child ?_
  · exact fun hc => .inl (mem_of_mem_update (l := []) (fun hd => nomatch hd) hc)
  intro q hq
  obtain ⟨r, hr, hup⟩ := bind_eq_some_iff.mp hq
  exact h.parent (upgrade_eq_some hup ▸ hr)

/-- The search goes from a process to an older one, at last to init. -/
lemma Tree.searchReaper (hstep : searchReaper s p keeps = some s') : Tree s' := by
  unfold ChildExit.searchReaper at hstep
  split at hstep
  swap
  · cases hstep
  rename_i children cursor hp
  have hinit := h.flight (p := p) (by rw [hp]; rfl)
  have hlive : s.phase p ≠ .absent := by
    rw [hp]
    simp
  have hcursor : ∀ {q}, cursor = some q → s.phase q ≠ .absent ∧ s.birth q < s.birth p := by
    intro q hq
    apply h.search
    rw [hp]
    exact hq
  have hheld : ∀ {c}, c ∈ children → s.phase c ≠ .absent ∧ s.birth p < s.birth c := by
    intro c hc
    apply h.held
    rw [hp]
    exact hc
  cases hstep
  cases cursor with
  | none =>
    refine h.advance ⟨rfl, rfl⟩ .inl .inl rfl hlive (by simp) hinit hheld ?_
    -- the init process is the oldest one
    rintro q ⟨rfl⟩
    rw [h.init.1]
    exact ⟨h.init.2, (h.born hlive).2 hinit⟩
  | some r =>
    obtain ⟨hrlive, hrlt⟩ := hcursor rfl
    refine h.advance ⟨rfl, rfl⟩ .inl .inl rfl hlive ?_ hinit ?_ ?_
    · dsimp only
      split <;> simp
    · dsimp only
      split <;> exact hheld
    intro q hq
    dsimp only at hq
    split at hq
    · cases hq
      exact ⟨hrlive, hrlt⟩
    · obtain ⟨t, ht, hup⟩ := bind_eq_some_iff.mp hq
      obtain ⟨hqlive, hqlt⟩ := h.parent (upgrade_eq_some hup ▸ ht)
      exact ⟨hqlive, Nat.lt_trans hqlt hrlt⟩

/-- The children go to a process that is older still. -/
lemma Tree.reparent (hstep : reparent s p = some s') : Tree s' := by
  unfold ChildExit.reparent at hstep
  split at hstep
  swap
  · cases hstep
  rename_i children reaper hp
  have hinit := h.flight (p := p) (by rw [hp]; rfl)
  obtain ⟨hlive, hlt⟩ := h.search (p := p) (q := reaper) (by rw [hp]; rfl)
  -- the reaper is older than the exiting process, which is older than what it holds
  have hnew : ∀ {c}, c ∈ children → s.phase c ≠ .absent ∧ s.birth reaper < s.birth c := by
    intro c hc
    obtain ⟨hclive, hplt⟩ := h.held (p := p) (c := c) (by rw [hp]; exact hc)
    exact ⟨hclive, Nat.lt_trans hlt hplt⟩
  cases hstep
  refine h.advance ⟨rfl, rfl⟩ ?_ ?_ rfl (by rw [hp]; simp) (by simp) hinit
    (fun hc => nomatch hc) (fun hq => nomatch hq)
  · intro c q hq
    dsimp only at hq
    split at hq
    · rename_i hc
      cases hq
      exact .inr ⟨hlive, (hnew hc).2⟩
    · exact .inl hq
  · intro q c hc
    dsimp only at hc
    by_cases hq : q = reaper
    · rw [hq] at hc ⊢
      rw [update_self, mem_append] at hc
      exact hc.imp id hnew
    · rw [update_of_ne hq] at hc
      exact .inl hc

lemma Tree.publish (hstep : publishProcessExit s p = some s') : Tree s' := by
  have hexit : ∀ {noted : Option Nat} {t : State}, s.phase p = .publishing noted →
      t.forks = s.forks ∧ t.birth = s.birth → t.parent = s.parent →
      (∀ {q c}, c ∈ t.children q → c ∈ s.children q) →
      t.phase = update s.phase p .exited → Tree t := by
    intro noted t hp hghost hparent hchild hphase
    refine h.advance hghost ?_ (fun hc => .inl (hchild hc)) hphase (by rw [hp]; simp) (by simp)
      (h.flight (by rw [hp]; rfl)) (fun hc => nomatch hc) (fun hq => nomatch hq)
    intro c q hq
    exact .inl (hparent ▸ hq)
  unfold publishProcessExit at hstep
  split at hstep
  next hp =>
    cases hstep
    exact hexit hp ⟨rfl, rfl⟩ rfl id rfl
  next q hp =>
    split at hstep <;> cases hstep
    · exact hexit hp ⟨rfl, rfl⟩ rfl (mem_of_mem_update fun hc => (mem_filter.mp hc).1) rfl
    · exact hexit hp ⟨rfl, rfl⟩ rfl id rfl
  · cases hstep

theorem Tree.wait4 (hstep : wait4 s p task selector = some s') : Tree s' := by
  have hsame : ∀ {t : State}, t.forks = s.forks → t.birth = s.birth → t.phase = s.phase →
      t.parent = s.parent → (∀ {q c}, c ∈ t.children q → c ∈ s.children q) → Tree t := by
    intro t hf hb hph hpar hchild
    apply h.change hf hb
    · intro p
      rw [hph]
    · exact fun hq => .inl (hpar ▸ hq)
    · exact fun hc => .inl (hchild hc)
    · exact fun hc => .inl (hph ▸ hc)
    · exact fun hq => .inl (hph ▸ hq)
    · exact fun hp => .inl (hph ▸ hp)
  obtain ⟨-, hstep⟩ := ite_none_right_eq_some.mp hstep
  split at hstep
  · cases hstep
    exact hsame rfl rfl rfl rfl (mem_of_mem_update mem_of_mem_erase)
  · split at hstep <;> cases hstep <;> exact hsame rfl rfl rfl rfl id

end

/-! ## Whole runs -/

/-- **Step lemma** of the order: every section keeps it. -/
theorem Tree.step (h : Tree s) {e : Event} (hstep : step s e = some s') : Tree s' := by
  cases e with
  | fork p c exitSignal => exact h.fork hstep
  | setChildSubreaper | sigaction | leave =>
    cases hstep
    exact { h with }
  | wait4 p task selector => exact h.wait4 hstep
  | tearDown p keeps => exact h.tearDown hstep
  | searchReaper p keeps => exact h.searchReaper hstep
  | reparent p => exact h.reparent hstep
  | publish p => exact h.publish hstep

/-- **Step lemma**: a section that meets the condition keeps the invariant. -/
theorem Inv.step (h : Inv s) (htree : Tree s) {e : Event} (hok : StepOk s e)
    (hstep : step s e = some s') : Inv s' := by
  cases e with
  | fork p c exitSignal => exact h.fork hstep
  | setChildSubreaper | sigaction =>
    cases hstep
    exact { h with }
  | wait4 p task selector => exact h.wait4 hstep
  | leave p task =>
    cases hstep
    exact h.leave p task
  | tearDown p keeps => exact h.tearDown htree hok hstep
  | searchReaper p keeps => exact h.searchReaper hstep
  | reparent p => exact h.reparent hok hstep
  | publish p => exact h.publish hstep

/-- Some `wait4` of the process sleeps although it asks for this child. -/
def SleepsOn (s : State) (q c : Nat) : Prop :=
  ∃ w ∈ s.childWaiters q, s.childMatches w.selector c = true

/-- **Child exits are published** in every run whose sections meet the condition: a zombie that
nobody has reaped is in the hand of an exiting process, which is about to hand it over, or it
is in the list of a live process, and no `wait4` of that process sleeps on it, unless an exit
that is about to wake the process is still to be published. -/
theorem zombies_are_published (h : system.Reachable StepOk s) (hz : s.isZombie c = true)
    (hr : s.reaped c = false) :
    (∃ p, c ∈ (s.phase p).held) ∨
      ∃ q, s.phase q = .running ∧ c ∈ s.children q ∧
        (SleepsOn s q c → ∃ p, s.phase p = .publishing (some q)) := by
  have hinv : Inv s ∧ Tree s := by
    apply h.invariant
    · rintro s rfl
      exact ⟨inv_boot, tree_boot⟩
    · intro s e s' hinv hok hstep
      exact ⟨hinv.1.step hinv.2 hok hstep, hinv.2.step hstep⟩
  obtain ⟨hinv, -⟩ := hinv
  have hexit := hinv.dead (.inl hz)
  have hne : c ≠ INIT := by
    rintro rfl
    simp [hinv.init] at hexit
  rcases hinv.place (by rw [hexit]; simp) hr hne with ⟨q, hq⟩ | hheld
  · refine .inr ⟨q, (hinv.child hq).1, hq, ?_⟩
    rintro ⟨w, hw, hmatch⟩
    exact hinv.woken hq hz hw hmatch
  · exact .inl hheld

/-- **The process tree has no cycles**: in every run, whatever forks, subreapers and exits have made
of the parents and however they meet, no process is an ancestor of itself. -/
theorem no_process_is_its_ancestor (h : system.Reachable System.anyStep s) (p : Nat) :
    ¬ Relation.TransGen (fun c q => s.parent c = some q) p p := by
  have htree : Tree s := by
    apply h.invariant
    · rintro s rfl
      exact tree_boot
    · exact fun s e s' htree _ hstep => htree.step hstep
  have holder {p q : Nat} (hq : Relation.TransGen (fun c q => s.parent c = some q) p q) :
      s.birth q < s.birth p := by
    induction hq with
    | single hq => exact (htree.parent hq).2
    | tail _ hq ih => exact Nat.lt_trans (htree.parent hq).2 ih
  exact fun hp => Nat.lt_irrefl _ (holder hp)

/-- A grandchild of the init process is handed over to it. -/
theorem no_process_is_its_ancestor_orphan : ∃ s : State, s.parent 3 = some INIT ∧
    ¬ Relation.TransGen (fun c q => s.parent c = some q) 3 3 := by
  have hrun : (system.runWhile System.anyStep boot ([.fork 1 2 17, .fork 2 3 17] ++
      [.tearDown 2 true, .searchReaper 2 true, .searchReaper 2 true, .reparent 2])).map
      (·.parent 3) =
      some (some INIT) := by
    decide
  obtain ⟨s, hreach, -, hparent⟩ := System.exists_reachable hrun rfl
  exact ⟨s, hparent, no_process_is_its_ancestor hreach 3⟩

/-- The exit of process `p` when its nearest reaper is the init process, one section after the
other. -/
def exitTo (p rounds : Nat) : List Event :=
  .tearDown p true :: List.replicate rounds (.searchReaper p true) ++ [.reparent p, .publish p]

/-- A parent exits before its child, and the init process hears of both. -/
theorem zombies_are_published_in_turn :
    ∃ s : State, system.Reachable StepOk s ∧ s.isZombie 3 = true ∧ s.reaped 3 = false ∧
      ((∃ p, 3 ∈ (s.phase p).held) ∨ ∃ q, s.phase q = .running ∧ 3 ∈ s.children q ∧
        (SleepsOn s q 3 → ∃ p, s.phase p = .publishing (some q))) := by
  have hrun : (system.runWhile StepOk boot ([.fork 1 2 17, .fork 2 3 17, .wait4 1 0 .any] ++
      exitTo 2 2 ++ exitTo 3 2)).map (fun s => (s.isZombie 3, s.reaped 3)) =
      some (true, false) := by
    decide
  obtain ⟨s, hreach, -, hsum⟩ := System.exists_reachable hrun rfl
  obtain ⟨hz, hr⟩ := Prod.mk.injEq .. ▸ hsum
  exact ⟨s, hreach, hz, hr, zombies_are_published hreach hz hr⟩

/-- Process 3 notes its parent 2, which exits and is reaped before 3 publishes its own exit. -/
def lateChild : List Event :=
  [.fork 1 2 17, .fork 2 3 17, .tearDown 3 true] ++ exitTo 2 2 ++
    [.wait4 1 0 .any, .wait4 1 0 .any, .searchReaper 3 true, .searchReaper 3 true,
      .searchReaper 3 true, .reparent 3, .publish 3]

/-- **The exit is published to the old parent**: process 3 is a zombie in the list of the init
process, whose `wait4` sleeps, and nobody is left to wake it. -/
theorem zombie_is_published_to_old_parent :
    ∃ s : State, system.Reachable System.anyStep s ∧ s.isZombie 3 = true ∧ s.reaped 3 = false ∧
      3 ∈ s.children INIT ∧ SleepsOn s INIT 3 ∧ ∀ p, (s.phase p).inFlight = false := by
  refine ⟨_, System.reachable_of_runWhile (.init rfl)
    (show system.runWhile System.anyStep boot lateChild = some _ from rfl), rfl, rfl, by decide,
    ⟨⟨0, .any⟩, by decide, rfl⟩, fun p => ?_⟩
  by_cases h3 : p = 3
  · subst h3
    rfl
  by_cases h2 : p = 2
  · subst h2
    rfl
  · simp only [update_of_ne, ne_eq, h2, h3, not_false_eq_true, boot]
    split <;> rfl

end Whusp.Task.ChildExit
