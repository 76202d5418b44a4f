import Mathlib.Algebra.Group.Nat.Defs
import Mathlib.Data.List.Basic
import Whusp.Lib.Transition

/-!
# The table of inode states

A node of a file system has at most one live `InodeState`, shared by everybody who works on the
node.  The table that holds them is split into shards; a state is created by `state_for` on first
use and by `initialize_new` when an inode number is given to a new object, and retired by
`initialize_new` and by `remove_if_same`.  States that have left the table stay reachable for those
who hold them, so each carries an incarnation number.

A section under the lock of a shard is one step.  The states ever created are kept in a list, and a
state is named by its position.
-/

namespace Whusp.Fs

open Option

open Whusp.Lib (System)
open Function (update update_self update_of_ne)

/-- A mounted file system and the number of an inode in it. -/
structure VfsNodeId where
  mountId : BitVec 64
  ino : BitVec 32
  deriving DecidableEq

inductive FsNodeKind where
  | directory | regularFile | symlink | fifo | characterDevice | blockDevice | socket | other

def INODE_STATE_SHARDS : Nat := 32

def shardIndex (node : VfsNodeId) : Nat :=
  (node.mountId * 0x9e3779b1#64 ^^^ node.ino.setWidth 64).toNat % INODE_STATE_SHARDS

namespace InodeTable

structure InodeState where
  node : VfsNodeId
  incarnation : Nat
  alive : Bool
  deriving DecidableEq

structure InodeStateShard where
  states : VfsNodeId → Option Nat
  nextIncarnations : VfsNodeId → Option Nat

/-- Change the two entries of a node in shard `k`. -/
def setAt (shards : Nat → InodeStateShard) (k : Nat) (node : VfsNodeId)
    (entry next : Option Nat) : Nat → InodeStateShard :=
  update shards k
    { states := update (shards k).states node entry
      nextIncarnations := update (shards k).nextIncarnations node next }

def stateAt (shards : Nat → InodeStateShard) (k : Nat) (node : VfsNodeId) : Option Nat :=
  (shards k).states node

def nextAt (shards : Nat → InodeStateShard) (k : Nat) (node : VfsNodeId) : Option Nat :=
  (shards k).nextIncarnations node

structure State where
  shards : Nat → InodeStateShard
  created : List InodeState

namespace State

variable (s : State)

def current (node : VfsNodeId) : Option Nat := stateAt s.shards (shardIndex node) node

/-- The incarnation of the next state, where the table has none. -/
def next (node : VfsNodeId) : Nat := (nextAt s.shards (shardIndex node) node).getD 1

def setEntries (node : VfsNodeId) (entry : Option Nat) (next : Option Nat) : State :=
  { s with shards := setAt s.shards (shardIndex node) node entry next }

def retire (i : Nat) : State :=
  { s with created := s.created.modify i fun o => { o with alive := false } }

/-- Put a new state into the table. -/
def install (node : VfsNodeId) (incarnation : Nat) (next : Option Nat) : State :=
  { s.setEntries node (some s.created.length) next with
    created := s.created ++ [{ node := node, incarnation := incarnation, alive := true }] }

end State

def USIZE_MAX : Nat := 2 ^ 64 - 1

/-- `state_for`, where the section under the read lock has found nothing. -/
def stateFor (s : State) (node : VfsNodeId) : State :=
  match s.current node with
  | some _ => s
  | none =>
    s.install node (s.next node) (nextAt s.shards (shardIndex node) node)

/-- `none` where the incarnation is exhausted. -/
def initializeNew (s : State) (node : VfsNodeId) : Option State :=
  match s.current node with
  | some i => (s.created[i]?).bind fun old =>
    if old.incarnation < USIZE_MAX then
      some ((s.retire i).install node (old.incarnation + 1) (some (old.incarnation + 1)))
    else none
  | none => some (s.install node (s.next node) (some (s.next node)))

/-- `remove_if_same`, and whether it has removed the state. -/
def removeIfSame (s : State) (node : VfsNodeId) (expected : Nat) : Option (State × Bool) :=
  if s.current node = some expected then
    (s.created[expected]?).bind fun old =>
      if old.incarnation < USIZE_MAX then
        some ((s.retire expected).setEntries node none (some (old.incarnation + 1)), true)
      else none
  else some (s, false)

inductive Action where
  /-- The section of `state_for` under the read lock. -/
  | lookup (node : VfsNodeId)
  | stateFor (node : VfsNodeId)
  | initializeNew (node : VfsNodeId)
  | removeIfSame (node : VfsNodeId) (expected : Nat)

def step (s : State) : Action → Option State
  | .lookup _ => some s
  | .stateFor node => some (stateFor s node)
  | .initializeNew node => initializeNew s node
  | .removeIfSame node expected => (removeIfSame s node expected).map Prod.fst

def boot : State where
  shards _ := ⟨fun _ => none, fun _ => none⟩
  created := []

def system : System State Action where
  init s := s = boot
  step := step

/-! ## The invariant -/

variable {s s' : State} {node m : VfsNodeId} {i : Nat}

/-- The states of a node, but for the one at `i`, are retired and of an incarnation below
`bound`. -/
def OlderThan (s : State) (node : VfsNodeId) (i : Option Nat) (bound : Nat) : Prop :=
  ∀ j o, s.created[j]? = some o → o.node = node → some j ≠ i →
    o.alive = false ∧ o.incarnation < bound

structure Inv (s : State) : Prop where
  entry : ∀ node i, s.current node = some i → ∃ o, s.created[i]? = some o ∧ o.node = node ∧
    o.alive = true ∧ OlderThan s node (some i) o.incarnation
  absent : ∀ node, s.current node = none → OlderThan s node none (s.next node)
  distinct : ∀ (i j : Nat) (a b : InodeState), s.created[i]? = some a → s.created[j]? = some b →
    a.node = b.node → a.incarnation = b.incarnation → i = j

section Shards

variable {shards : Nat → InodeStateShard} {k k' : Nat} {entry next : Option Nat}

lemma at_setAt_self : stateAt (setAt shards k node entry next) k node = entry ∧
    nextAt (setAt shards k node entry next) k node = next := by
  simp [stateAt, nextAt, setAt]

lemma at_setAt_of_ne (hm : m ≠ node) :
    stateAt (setAt shards k node entry next) k' m = stateAt shards k' m ∧
      nextAt (setAt shards k node entry next) k' m = nextAt shards k' m := by
  rcases eq_or_ne k' k with rfl | hk
  · simp [stateAt, nextAt, setAt, update_of_ne hm]
  · simp [stateAt, nextAt, setAt, update_of_ne hk]

lemma current_setEntries_self : (s.setEntries node entry next).current node = entry :=
  at_setAt_self.1

lemma next_setEntries_self : (s.setEntries node entry next).next node = next.getD 1 :=
  congrArg (Option.getD · 1) at_setAt_self.2

lemma current_setEntries (hm : m ≠ node) :
    (s.setEntries node entry next).current m = s.current m := (at_setAt_of_ne hm).1

lemma next_setEntries (hm : m ≠ node) : (s.setEntries node entry next).next m = s.next m :=
  congrArg (Option.getD · 1) (at_setAt_of_ne hm).2

end Shards

variable {incarnation : Nat} {next : Option Nat}

/-- A new state enters the table with an incarnation above all others of the node. -/
theorem Inv.install (h : Inv s) (hold : OlderThan s node none incarnation) :
    Inv (s.install node incarnation next) := by
  have hget : ∀ {j o}, (s.install node incarnation next).created[j]? = some o →
      s.created[j]? = some o ∨ (j = s.created.length ∧ o = ⟨node, incarnation, true⟩) := by
    intro j o hj
    rw [State.install, List.getElem?_append] at hj
    split at hj
    · exact .inl hj
    · rw [List.getElem?_singleton] at hj
      obtain ⟨h0, ho⟩ := ite_none_right_eq_some.mp hj
      exact .inr ⟨by omega, (some.inj ho).symm⟩
  -- the states of another node are as they were
  have hother : ∀ {m i bound}, m ≠ node → OlderThan s m i bound →
      OlderThan (s.install node incarnation next) m i bound := by
    intro m i bound hm hb j o hj hnode hne
    rcases hget hj with hj | ⟨-, rfl⟩
    · exact hb j o hj hnode hne
    · exact absurd hnode.symm hm
  refine ⟨fun m i hi => ?_, fun m hi => ?_, fun i j a b ha hb hnode hinc => ?_⟩
  · rcases eq_or_ne m node with rfl | hm
    · obtain rfl := some.inj (current_setEntries_self.symm.trans hi)
      refine ⟨⟨m, incarnation, true⟩, List.getElem?_concat_length, rfl, rfl, ?_⟩
      intro j o hj hnode hne
      rcases hget hj with hj | ⟨rfl, -⟩
      · exact hold j o hj hnode (by simp)
      · exact absurd rfl hne
    · obtain ⟨o, ho, hnode, halive, hb⟩ := h.entry m i ((current_setEntries hm).symm.trans hi)
      exact ⟨o, by rw [State.install, List.getElem?_append_left
        (List.getElem?_eq_some_iff.mp ho).1, ho], hnode, halive, hother hm hb⟩
  · have hm : m ≠ node := by
      rintro rfl
      exact nomatch current_setEntries_self.symm.trans hi
    have hnext : (s.install node incarnation next).next m = s.next m := next_setEntries hm
    rw [hnext]
    exact hother hm (h.absent m ((current_setEntries hm).symm.trans hi))
  · rcases hget ha with ha' | ⟨rfl, rfl⟩ <;> rcases hget hb with hb' | ⟨rfl, rfl⟩
    · exact h.distinct i j a b ha' hb' hnode hinc
    · exact absurd hinc (Nat.ne_of_lt (hold i a ha' hnode (by simp)).2)
    · exact absurd hinc.symm (Nat.ne_of_lt (hold j b hb' hnode.symm (by simp)).2)
    · rfl

/-- The state of a node leaves the table; all states of the node are then older than the next. -/
theorem Inv.retire (h : Inv s) {old : InodeState} (hi : s.current node = some i)
    (hold : s.created[i]? = some old) :
    Inv ((s.retire i).setEntries node none (some (old.incarnation + 1))) ∧
      OlderThan (s.retire i) node none (old.incarnation + 1) := by
  obtain ⟨o, ho, hnode, -, hb⟩ := h.entry node i hi
  obtain rfl := some.inj (hold.symm.trans ho)
  have hget : ∀ {j p}, (s.retire i).created[j]? = some p → ∃ q, s.created[j]? = some q ∧
      p.node = q.node ∧ p.incarnation = q.incarnation ∧ (i ≠ j → p = q) ∧
      (i = j → p.alive = false) := by
    intro j p hj
    rw [State.retire, List.getElem?_modify] at hj
    obtain ⟨q, hq, rfl⟩ := map_eq_some_iff.mp hj
    refine ⟨q, hq, ?_⟩
    by_cases hij : i = j <;> simp [hij]
  have hlast : OlderThan (s.retire i) node none (old.incarnation + 1) := by
    intro j p hj hp _
    obtain ⟨q, hq, hqn, hqi, hsame, hdead⟩ := hget hj
    rcases eq_or_ne i j with rfl | hij
    · obtain rfl := some.inj (hq.symm.trans hold)
      exact ⟨hdead rfl, by omega⟩
    · obtain ⟨hq1, hq2⟩ := hb j q hq (hqn ▸ hp) (by simpa using Ne.symm hij)
      exact ⟨hsame hij ▸ hq1, by omega⟩
  have hother : ∀ {m k bound}, m ≠ node → OlderThan s m k bound →
      OlderThan (s.retire i) m k bound := by
    intro m k bound hm hb j p hj hp hne
    obtain ⟨q, hq, hqn, hqi, hsame, -⟩ := hget hj
    have hij : i ≠ j := by
      rintro rfl
      obtain rfl := some.inj (hq.symm.trans hold)
      exact hm (hp.symm.trans (hqn.trans hnode))
    exact hsame hij ▸ hb j q hq (hqn ▸ hp) hne
  refine ⟨⟨fun m j hj => ?_, fun m hm => ?_, fun j k a b ha hb hab hinc => ?_⟩, hlast⟩
  · have hm : m ≠ node := by
      rintro rfl
      exact nomatch current_setEntries_self.symm.trans hj
    obtain ⟨p, hp, hpn, halive, hpb⟩ := h.entry m j ((current_setEntries hm).symm.trans hj)
    refine ⟨p, ?_, hpn, halive, hother hm hpb⟩
    have hij : i ≠ j := by
      rintro rfl
      obtain rfl := some.inj (hp.symm.trans hold)
      exact hm (hpn.symm.trans hnode)
    rw [State.setEntries, State.retire, List.getElem?_modify, hp]
    simp [hij]
  · rcases eq_or_ne m node with rfl | hmn
    · rw [next_setEntries_self]
      exact hlast
    · rw [next_setEntries hmn]
      exact hother hmn (h.absent m ((current_setEntries hmn).symm.trans hm))
  · obtain ⟨a', ha', han, hai, -⟩ := hget ha
    obtain ⟨b', hb', hbn, hbi, -⟩ := hget hb
    exact h.distinct j k a' b' ha' hb' (by rw [← han, ← hbn, hab]) (by rw [← hai, ← hbi, hinc])

/-- A look-up finds the current state, or makes one. -/
lemma Inv.stateFor (h : Inv s) : Inv (stateFor s node) := by
  unfold InodeTable.stateFor
  split
  · exact h
  next hnone =>
    exact h.install (h.absent node hnone)

lemma setEntries_install {entry next' : Option Nat} :
    (s.setEntries node entry next).install node incarnation next' =
      s.install node incarnation next' := by
  simp [State.install, State.setEntries, setAt]

lemma Inv.initializeNew (h : Inv s) (hs : initializeNew s node = some s') : Inv s' := by
  unfold InodeTable.initializeNew at hs
  split at hs
  next hi =>
    obtain ⟨old, hold, hs⟩ := bind_eq_some_iff.mp hs
    obtain ⟨-, rfl⟩ := of_guard hs
    obtain ⟨hinv, hlast⟩ := h.retire hi hold
    -- the entry that is replaced might as well have been removed before
    rw [← setEntries_install]
    exact hinv.install hlast
  next hnone =>
    cases hs
    exact h.install (h.absent node hnone)

/-- A removal retires the state only if it is still the current one. -/
lemma Inv.removeIfSame {r : State × Bool} (h : Inv s) (hs : removeIfSame s node i = some r) :
    Inv r.1 := by
  unfold InodeTable.removeIfSame at hs
  split at hs
  next hi =>
    obtain ⟨old, hold, hs⟩ := bind_eq_some_iff.mp hs
    obtain ⟨-, rfl⟩ := of_guard hs
    exact (h.retire hi hold).1
  · cases hs
    exact h

/-- **Step lemma**: every section keeps the invariant. -/
lemma Inv.step {a : Action} (h : Inv s) (hs : step s a = some s') : Inv s' := by
  cases a with
  | lookup node => exact some.inj hs ▸ h
  | stateFor node => exact some.inj hs ▸ h.stateFor
  | initializeNew node => exact h.initializeNew hs
  | removeIfSame node expected =>
    obtain ⟨r, hr, rfl⟩ := map_eq_some_iff.mp hs
    exact h.removeIfSame hr

lemma Inv.boot : Inv boot := by
  constructor <;> intros <;> simp_all [InodeTable.boot, State.current, stateAt, OlderThan]

/-- A state is alive exactly while the table has it. -/
lemma Inv.alive_iff (h : Inv s) {o : InodeState} (ho : s.created[i]? = some o) :
    o.alive = true ↔ s.current o.node = some i := by
  rcases hcur : s.current o.node with _ | j
  · simp [(h.absent _ hcur i o ho rfl (by simp)).1]
  obtain ⟨p, hp, -, halive, hold⟩ := h.entry _ j hcur
  rcases eq_or_ne i j with rfl | hij
  · obtain rfl := some.inj (ho.symm.trans hp)
    simp [halive]
  · simp [(hold i o ho rfl (by simpa using hij)).1, Ne.symm hij]

/-- **Inode incarnations.**  In every interleaving of the operations, every entry of the table is a
state of its node; a state is alive exactly if it is the entry of its node, so that no two live
states are of one node; two states of one node never have the same incarnation; and
`remove_if_same` with a state of an older incarnation than some other changes nothing. -/
theorem inode_incarnations (h : system.Reachable System.anyStep s) :
    (∀ node i, s.current node = some i → ∃ o, s.created[i]? = some o ∧ o.node = node) ∧
    (∀ i o, s.created[i]? = some o → (o.alive = true ↔ s.current o.node = some i)) ∧
    ∀ (i j : Nat) (a b : InodeState), s.created[i]? = some a → s.created[j]? = some b →
      a.node = b.node → (a.alive = true → b.alive = true → i = j) ∧
      (a.incarnation = b.incarnation → i = j) ∧
      (a.incarnation < b.incarnation → ∀ node, removeIfSame s node i = some (s, false)) := by
  have hinv : Inv s := by
    apply h.invariant
    · exact fun s hs => hs ▸ Inv.boot
    · exact fun s a s' hi _ hs => hi.step hs
  refine ⟨fun node i hi => ?_, fun i o => hinv.alive_iff, fun i j a b ha hb hab =>
    ⟨fun h1 h2 => ?_, hinv.distinct i j a b ha hb hab, fun hlt node => if_neg fun hi => ?_⟩⟩
  · obtain ⟨o, ho, hnode, -⟩ := hinv.entry node i hi
    exact ⟨o, ho, hnode⟩
  · have hi := (hinv.alive_iff ha).mp h1
    rw [hab, (hinv.alive_iff hb).mp h2] at hi
    exact (some.inj hi).symm
  · -- the entry of a node has the highest incarnation
    obtain ⟨o, ho, rfl, -, hold⟩ := hinv.entry node i hi
    obtain rfl := some.inj (ha.symm.trans ho)
    have hij : i ≠ j := by
      rintro rfl
      obtain rfl := some.inj (ha.symm.trans hb)
      exact Nat.lt_irrefl _ hlt
    have := (hold j b hb hab.symm (by simpa using Ne.symm hij)).2
    omega

/-- An inode number is used three times, once after a removal; the first two states are dead. -/
theorem inode_incarnations_reused : ∃ s, system.Reachable System.anyStep s ∧
    s.created.map (fun o => (o.incarnation, o.alive)) = [(1, false), (2, false), (3, true)] ∧
    removeIfSame s ⟨0, 7⟩ 1 = some (s, false) := by
  have hrun : (system.runWhile System.anyStep boot [.stateFor ⟨0, 7⟩, .initializeNew ⟨0, 7⟩,
      .removeIfSame ⟨0, 7⟩ 1, .lookup ⟨0, 7⟩, .stateFor ⟨0, 7⟩]).map (fun s => s.created) =
      some [⟨⟨0, 7⟩, 1, false⟩, ⟨⟨0, 7⟩, 2, false⟩, ⟨⟨0, 7⟩, 3, true⟩] := by
    decide +kernel
  obtain ⟨s, hreach, -, hq⟩ := System.exists_reachable hrun rfl
  refine ⟨s, hreach, by rw [hq]; rfl, ?_⟩
  exact ((inode_incarnations hreach).2.2 1 2 ⟨⟨0, 7⟩, 2, false⟩ ⟨⟨0, 7⟩, 3, true⟩ (by rw [hq]; rfl)
    (by rw [hq]; rfl) rfl).2.2 (by decide) _

end InodeTable

end Whusp.Fs
