import Whusp.Lib.Transition
import Mathlib.Tactic.SplitIfs

/-!
# The user ids of a process

The calls of `syscall/process/identity.rs` that set user ids.  Each runs in one `mutate_credentials`
section and every refusal comes before the first assignment, so a call that fails changes nothing.

A process has dropped root when its real, effective and saved ids are nonzero.  The saved id of an
unprivileged process may still be zero, and then `setfsuid` may set the filesystem id to zero too.
`setuid` and `setresuid` move the filesystem id with the effective one; `setreuid` does so only if
it is given an effective id, while it overwrites the saved id in either case.
-/

namespace Whusp.Syscall.Identity

open Whusp.Lib

inductive Errno where
  | EPERM
  | EINVAL
  | ESRCH
  | EFAULT

/-- The user ids of `Credentials`. -/
structure Credentials where
  ruid : UInt32
  euid : UInt32
  suid : UInt32
  fsuid : UInt32
  deriving DecidableEq

namespace Credentials

def isRoot (c : Credentials) : Bool := c.euid = 0

def uidMatchesSavedSet (c : Credentials) (uid : UInt32) : Bool :=
  uid = c.ruid || uid = c.euid || uid = c.suid

/-- Real, effective and saved id are nonzero. -/
def Dropped (c : Credentials) : Prop := c.ruid ≠ 0 ∧ c.euid ≠ 0 ∧ c.suid ≠ 0

instance : DecidablePred Dropped := fun _ => inferInstanceAs (Decidable (_ ∧ _ ∧ _))

end Credentials

/-- What a call answers, with the credentials that it leaves. -/
abbrev KResult := Except Errno (UInt32 × Credentials)

/-! ## The calls -/

/-- `-1` keeps an id. -/
def requireValidId (id : Int32) : Except Errno (Option UInt32) :=
  if id = -1 then .ok none else if id < 0 then .error .EINVAL else .ok (some id.toUInt32)

def sysSetuid (uid : UInt32) (c : Credentials) : KResult :=
  if c.isRoot then .ok (0, ⟨uid, uid, uid, uid⟩)
  else if uid = c.ruid || uid = c.suid then .ok (0, { c with euid := uid, fsuid := uid })
  else .error .EPERM

def sysSetreuid (ruid euid : Int32) (c : Credentials) : KResult := do
  let ruid ← requireValidId ruid
  let euid ← requireValidId euid
  if !c.isRoot && (ruid.any (fun uid => uid ≠ c.ruid && uid ≠ c.euid) ||
      euid.any (fun uid => uid ≠ c.ruid && uid ≠ c.euid && uid ≠ c.suid)) then
    .error .EPERM
  else
    let euid' := euid.getD c.euid
    .ok (0, { ruid := ruid.getD c.ruid, euid := euid', fsuid := euid.getD c.fsuid
              suid := if ruid.isSome || euid.any (· ≠ c.ruid) then euid' else c.suid })

def sysSetresuid (ruid euid suid : Int32) (c : Credentials) : KResult := do
  let ruid ← requireValidId ruid
  let euid ← requireValidId euid
  let suid ← requireValidId suid
  if !c.isRoot && [ruid, euid, suid].any (Option.any fun uid => !c.uidMatchesSavedSet uid) then
    .error .EPERM
  else
    let euid' := euid.getD c.euid
    .ok (0, { ruid := ruid.getD c.ruid, euid := euid', suid := suid.getD c.suid, fsuid := euid' })

/-- `setfsuid` reports the old id, whether or not it set the new one. -/
def sysSetfsuid (uid : Int32) (c : Credentials) : KResult := do
  let uid ← requireValidId uid
  .ok (c.fsuid, { c with fsuid := (uid.filter fun uid =>
    c.isRoot || c.uidMatchesSavedSet uid || uid = c.fsuid).getD c.fsuid })

inductive Call where
  | setuid (uid : UInt32)
  | setreuid (ruid euid : Int32)
  | setresuid (ruid euid suid : Int32)
  | setfsuid (uid : Int32)

def Call.run (c : Credentials) : Call → KResult
  | .setuid uid => sysSetuid uid c
  | .setreuid ruid euid => sysSetreuid ruid euid c
  | .setresuid ruid euid suid => sysSetresuid ruid euid suid c
  | .setfsuid uid => sysSetfsuid uid c

def system (start : Credentials) : System Credentials Call where
  init := (· = start)
  step c call := some (match call.run c with | .ok (_, c') => c' | .error _ => c)

/-- A process whose saved id alone is zero takes filesystem id zero and then overwrites the saved
id: nothing but the filesystem id is left of root. -/
theorem fsuid_outlives_root : ((system ⟨0, 0, 0, 0⟩).runWhile System.anyStep ⟨0, 0, 0, 0⟩
      [.setresuid 1000 1000 0, .setfsuid 0, .setreuid 1000 (-1)]) = some ⟨1000, 1000, 1000, 0⟩ := by
  decide

/-! ## What is left of root -/

/-- `setreuid` does not set the real id alone while the filesystem id is zero and the effective one
is not. -/
def StepOk (c : Credentials) : Call → Prop
  | .setreuid ruid euid => c.fsuid = 0 → c.euid ≠ 0 → euid = -1 → ruid = -1
  | _ => True

/-- The filesystem id is dropped with the other three. -/
def Whole (c : Credentials) : Prop := c.Dropped → c.fsuid ≠ 0

variable {c c' start : Credentials} {call : Call} {v : UInt32}

lemma of_requireValidId {id : Int32} {f : Option UInt32 → KResult}
    (h : (requireValidId id >>= f) = .ok (v, c')) :
    ∃ uid, f uid = .ok (v, c') ∧ (uid = none ↔ id = -1) := by
  unfold requireValidId at h
  split_ifs at h with hid hneg
  · exact ⟨none, h, by simp [hid]⟩
  · cases h
  · exact ⟨_, h, by simp [hid]⟩

open Credentials

lemma Whole.run (h : Whole c) (hok : StepOk c call) (hrun : call.run c = .ok (v, c')) :
    Whole c' := by
  cases call with
  | setuid uid =>
    simp only [Call.run, sysSetuid] at hrun
    split_ifs at hrun <;> cases hrun
    · exact And.left
    · exact fun hdrop => hdrop.2.1
  | setreuid ruid euid =>
    obtain ⟨ruid', hrun, hruid⟩ := of_requireValidId hrun
    obtain ⟨euid', hrun, heuid⟩ := of_requireValidId hrun
    split at hrun
    · cases hrun
    cases hrun
    cases euid' with
    | some uid => exact fun hdrop => hdrop.2.1
    | none =>
      intro hdrop hfs
      -- the filesystem id stays, and then so does the saved one
      obtain rfl := hruid.mpr (hok hfs hdrop.2.1 (heuid.mp rfl))
      exact h hdrop hfs
  | setresuid ruid euid suid =>
    obtain ⟨ruid', hrun, -⟩ := of_requireValidId hrun
    obtain ⟨euid', hrun, -⟩ := of_requireValidId hrun
    obtain ⟨suid', hrun, -⟩ := of_requireValidId hrun
    split_ifs at hrun
    cases hrun
    exact fun hdrop => hdrop.2.1
  | setfsuid uid =>
    obtain ⟨uid', hrun, -⟩ := of_requireValidId hrun
    cases hrun
    cases uid' <;> grind [Whole, Credentials.Dropped, isRoot,
      uidMatchesSavedSet]

/-- **No call of a process that has dropped root brings an id back.** -/
theorem nonzero_run (h : c.Dropped ∧ c.fsuid ≠ 0) (hrun : call.run c = .ok (v, c')) :
    c'.Dropped ∧ c'.fsuid ≠ 0 := by
  have hroot : c.isRoot = false := by simp [isRoot, h.1.2.1]
  cases call with
  | setuid uid =>
    simp only [Call.run, sysSetuid] at hrun
    grind [Credentials.Dropped]
  | setreuid ruid euid =>
    obtain ⟨ruid', hrun, -⟩ := of_requireValidId hrun
    obtain ⟨euid', hrun, -⟩ := of_requireValidId hrun
    cases ruid' <;> cases euid' <;> grind [Credentials.Dropped]
  | setresuid ruid euid suid =>
    obtain ⟨ruid', hrun, -⟩ := of_requireValidId hrun
    obtain ⟨euid', hrun, -⟩ := of_requireValidId hrun
    obtain ⟨suid', hrun, -⟩ := of_requireValidId hrun
    cases ruid' <;> cases euid' <;> cases suid' <;>
      grind [Credentials.Dropped, uidMatchesSavedSet]
  | setfsuid uid =>
    obtain ⟨uid', hrun, -⟩ := of_requireValidId hrun
    cases hrun
    cases uid' <;> grind [Credentials.Dropped, uidMatchesSavedSet]

/-- What every call that succeeds keeps, a run keeps. -/
lemma of_run {P : Credentials → Prop} {ok : Credentials → Call → Prop}
    (h : (system start).Reachable ok c) (hstart : P start)
    (hkeep : ∀ s call v s', P s → ok s call → Call.run s call = .ok (v, s') → P s') : P c := by
  refine h.invariant (fun _ hs => hs ▸ hstart) fun s call _ hs hok hstep => ?_
  cases hstep
  cases hrun : call.run s with
  | error => exact hs
  | ok => exact hkeep _ _ _ _ hs hok hrun

/-- **Dropping root is permanent**: as long as `setreuid` does not set the real id alone in a
process whose filesystem id is zero and whose effective id is not, a process that has dropped root
has a nonzero filesystem id, and whatever it then calls, all four ids stay nonzero. -/
theorem dropping_root_is_permanent (hstart : start.Dropped → start.fsuid ≠ 0)
    (h : (system start).Reachable StepOk c) (hdrop : c.Dropped) : c.fsuid ≠ 0 ∧
      ∀ c', (system c).Reachable System.anyStep c' → c'.Dropped ∧ c'.fsuid ≠ 0 := by
  have hfs : c.fsuid ≠ 0 :=
    of_run (P := Whole) h hstart (fun _ _ _ _ hs hok => hs.run hok) hdrop
  exact ⟨hfs, fun c' h' => of_run (P := fun c => c.Dropped ∧ c.fsuid ≠ 0) h' ⟨hdrop, hfs⟩
    fun _ _ _ _ hs _ => nonzero_run hs⟩

theorem dropping_root_is_permanent_user :
    ∃ c, (system ⟨0, 0, 0, 0⟩).Reachable StepOk c ∧ c.Dropped ∧ c.fsuid ≠ 0 ∧
      ∀ c', (system c).Reachable System.anyStep c' → c'.Dropped ∧ c'.fsuid ≠ 0 := by
  have h : (system ⟨0, 0, 0, 0⟩).Reachable StepOk _ :=
    .step (a := .setreuid 1000 1000) (.init rfl) (fun _ h => (h rfl).elim) rfl
  exact ⟨_, h, by decide, dropping_root_is_permanent (by decide) h (by decide)⟩

end Whusp.Syscall.Identity
