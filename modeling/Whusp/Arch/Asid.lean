import Mathlib.Data.Nat.ModEq
import Mathlib.Data.List.Pairwise
import Mathlib.Tactic.NormNum
import Whusp.Lib.Transition

/-!
# Address-space identifiers on RISC-V

`ASID_ALLOCATOR` hands out 1, 2, ..., 65535 and starts again (`arch/riscv64/mm.rs`); a page
table keeps the identifier it was created with until it is dropped (`mm/page_table.rs`).  The
rollover flushes every TLB, but it looks at no page table.
-/

namespace Whusp.Arch.Asid

open Whusp.Lib (System)

def SV39_MODE : Nat := 8
def SATP_ASID_SHIFT : Nat := 44
def SATP_ASID_BITS : Nat := 16
def SATP_ASID_MAX : Nat := 2 ^ SATP_ASID_BITS - 1
def SATP_ASID_MASK : Nat := SATP_ASID_MAX <<< SATP_ASID_SHIFT
def SATP_PPN_MASK : Nat := 2 ^ 44 - 1

/-! ## Tokens -/

def pageTableTokenWithAsid (rootPpn asid : Nat) : Nat :=
  SV39_MODE <<< 60 ||| ((asid &&& SATP_ASID_MAX) <<< SATP_ASID_SHIFT)
    ||| (rootPpn &&& SATP_PPN_MASK)

def pageTableAsid (token : Nat) : Nat := (token &&& SATP_ASID_MASK) >>> SATP_ASID_SHIFT

/-- **The token carries the identifier** that the page table was created with. -/
theorem pageTableAsid_token (rootPpn : Nat) {asid : Nat} (h : asid ≤ SATP_ASID_MAX) :
    pageTableAsid (pageTableTokenWithAsid rootPpn asid) = asid := by
  apply Nat.eq_of_testBit_eq
  intro i
  have hlt : asid < 2 ^ SATP_ASID_BITS := Nat.lt_of_le_of_lt h (by decide)
  unfold pageTableAsid pageTableTokenWithAsid SATP_ASID_MASK SATP_ASID_MAX SATP_PPN_MASK
  simp only [Nat.testBit_shiftRight, Nat.testBit_and, Nat.testBit_or, Nat.testBit_shiftLeft,
    Nat.testBit_two_pow_sub_one, SATP_ASID_SHIFT, SATP_ASID_BITS]
  rcases Nat.lt_or_ge i 16 with hi | hi
  · -- below bit 60 the mode has no bits, and the page number has none from bit 44 on
    have hmode : ¬ 60 ≤ 44 + i := by omega
    have hppn : ¬ 44 + i < 44 := by omega
    simp [hmode, hppn, hi]
  · have hhigh : asid.testBit i = false :=
      Nat.testBit_lt_two_pow (Nat.lt_of_lt_of_le hlt (Nat.pow_le_pow_right (by decide) hi))
    have hmask : ¬ i < 16 := by omega
    simp [hhigh, hmask]

/-! ## Allocator and page tables -/

structure AsidAllocator where
  next : Nat
  generation : Nat
  deriving DecidableEq

/-- The rollover in `alloc_page_table_asid`; `none` where the generation would wrap. -/
def AsidAllocator.rollover (a : AsidAllocator) : Option AsidAllocator :=
  if a.next > SATP_ASID_MAX then
    if a.generation + 1 < 2 ^ 64 then some ⟨1, a.generation + 1⟩ else none
  else some a

def AsidAllocator.allocPageTableAsid (a : AsidAllocator) : Option (Nat × AsidAllocator) :=
  a.rollover.map fun a => (a.next, { a with next := a.next + 1 })

/-- A `PageTable` that owns its root.  The number of creations before it is not in the source;
it says when the page table was created. -/
structure PageTable where
  rootPpn : Nat
  asid : Nat
  index : Nat
  deriving DecidableEq

def PageTable.token (t : PageTable) : Nat := pageTableTokenWithAsid t.rootPpn t.asid

structure State where
  allocator : AsidAllocator
  created : Nat
  live : List PageTable
  deriving DecidableEq

inductive Event where
  /-- `PageTable::try_new` with the frame it got. -/
  | create (rootPpn : Nat)
  /-- The page table at a position of the list is dropped. -/
  | destroy (i : Nat)

def State.event (s : State) : Event → Option State
  | .create rootPpn => s.allocator.allocPageTableAsid.map fun (asid, allocator) =>
    ⟨allocator, s.created + 1, s.live ++ [⟨rootPpn, asid, s.created⟩]⟩
  | .destroy i => if i < s.live.length then some { s with live := s.live.eraseIdx i } else none

def boot : State := ⟨⟨1, 1⟩, 0, []⟩

def system : System State Event where
  init s := s = boot
  step := State.event

/-- No two live page tables carry the same identifier. -/
def AsidsDistinct (s : State) : Prop :=
  s.live.Pairwise fun a b => pageTableAsid a.token ≠ pageTableAsid b.token

/-- A creation is not a multiple of 65535 creations after that of a live page table. -/
def StepOk (s : State) : Event → Prop
  | .create _ => ∀ t ∈ s.live, (s.created - t.index) % SATP_ASID_MAX ≠ 0
  | .destroy _ => True

instance : DecidableRel StepOk := fun s e => by
  cases e <;> (unfold StepOk; infer_instance)

/-! ## The identifiers follow the number of creations -/

/-- The identifier of the page table created after `n` others. -/
def asidOf (n : Nat) : Nat := n % SATP_ASID_MAX + 1

lemma asidOf_le (n : Nat) : asidOf n ≤ SATP_ASID_MAX :=
  Nat.succ_le_of_lt (Nat.mod_lt n (by decide))

variable {n rootPpn : Nat} {s t : State}

lemma asidOf_eq_iff {m : Nat} (h : m ≤ n) : asidOf m = asidOf n ↔ (n - m) % SATP_ASID_MAX = 0 := by
  unfold asidOf
  rw [Nat.succ_inj, ← Nat.dvd_iff_mod_eq_zero, ← Nat.modEq_iff_dvd' h]
  rfl

/-- The identifiers follow the number of creations. -/
structure Numbered (s : State) : Prop where
  next : s.allocator.next = asidOf s.created ∨
    s.allocator.next = SATP_ASID_MAX + 1 ∧ asidOf s.created = 1
  live : ∀ t ∈ s.live, t.index < s.created ∧ t.asid = asidOf t.index

lemma Numbered.token_asid (h : Numbered s) {t : PageTable} (ht : t ∈ s.live) :
    pageTableAsid t.token = asidOf t.index := by
  obtain ⟨-, hasid⟩ := h.live t ht
  unfold PageTable.token
  rw [hasid]
  exact pageTableAsid_token t.rootPpn (asidOf_le t.index)

/-- The counter after an allocation: one more, or past the end where the numbers start again. -/
lemma asidOf_succ (n : Nat) : asidOf n + 1 = asidOf (n + 1) ∨
    asidOf n + 1 = SATP_ASID_MAX + 1 ∧ asidOf (n + 1) = 1 := by
  unfold asidOf
  rw [show SATP_ASID_MAX = 65535 from rfl]
  omega

/-- **What a creation does**: the new page table gets the identifier of its number. -/
theorem Numbered.create (h : Numbered s) (hstep : s.event (.create rootPpn) = some t) :
    Numbered t ∧ t.live = s.live ++ [⟨rootPpn, asidOf s.created, s.created⟩] := by
  obtain ⟨⟨asid, allocator⟩, halloc, rfl⟩ := Option.map_eq_some_iff.mp hstep
  obtain ⟨a, ha, ⟨⟩⟩ := Option.map_eq_some_iff.mp halloc
  -- after the rollover the counter is the identifier of the new page table
  have hnext : a.next = asidOf s.created := by
    unfold AsidAllocator.rollover at ha
    rcases h.next with hn | ⟨hn, hone⟩
    · have hle := asidOf_le s.created
      rw [if_neg (by omega)] at ha
      exact Option.some.inj ha ▸ hn
    · rw [if_pos (by omega)] at ha
      split at ha
      · exact Option.some.inj ha ▸ hone.symm
      · cases ha
  refine ⟨⟨?_, fun t ht => ?_⟩, by rw [hnext]⟩
  · rw [hnext]
    exact asidOf_succ s.created
  · rcases List.mem_append.mp ht with ht | ht
    · obtain ⟨hlt, hasid⟩ := h.live t ht
      exact ⟨Nat.lt_succ_of_lt hlt, hasid⟩
    · obtain rfl := List.mem_singleton.mp ht
      exact ⟨Nat.lt_succ_self _, hnext⟩

lemma Numbered.destroy {i : Nat} (h : Numbered s) (hstep : s.event (.destroy i) = some t) :
    Numbered t ∧ t.live.Sublist s.live := by
  obtain ⟨-, rfl⟩ := of_guard hstep
  exact ⟨⟨h.next, fun t ht => h.live t (List.mem_of_mem_eraseIdx ht)⟩, List.eraseIdx_sublist ..⟩

/-- A creation keeps the identifiers distinct exactly when the condition holds. -/
lemma Numbered.create_distinct_iff (h : Numbered s) (hd : AsidsDistinct s)
    (hstep : s.event (.create rootPpn) = some t) :
    AsidsDistinct t ↔ StepOk s (.create rootPpn) := by
  obtain ⟨ht, hlive⟩ := h.create hstep
  have hnew : ∀ u ∈ s.live, (pageTableAsid u.token ≠
      pageTableAsid (PageTable.token ⟨rootPpn, asidOf s.created, s.created⟩) ↔
        (s.created - u.index) % SATP_ASID_MAX ≠ 0) := by
    intro u hu
    have hlast := ht.token_asid (t := ⟨rootPpn, asidOf s.created, s.created⟩) (by simp [hlive])
    rw [h.token_asid hu, hlast]
    exact not_congr (asidOf_eq_iff (h.live u hu).1.le)
  unfold AsidsDistinct at hd ⊢
  rw [hlive, List.pairwise_append]
  constructor
  · rintro ⟨-, -, hcross⟩ u hu
    exact (hnew u hu).mp (hcross u hu _ (List.mem_singleton_self _))
  · intro hok
    refine ⟨hd, List.pairwise_singleton .., fun u hu v hv => ?_⟩
    obtain rfl := List.mem_singleton.mp hv
    exact (hnew u hu).mpr (hok u hu)

/-- Invariant of the runs that meet the condition. -/
structure Inv (s : State) : Prop extends Numbered s where
  distinct : AsidsDistinct s

lemma Inv.event {ev : Event} (h : Inv s) (hok : StepOk s ev) (hstep : s.event ev = some t) :
    Inv t := by
  cases ev with
  | create rootPpn =>
    exact ⟨(h.create hstep).1, (h.create_distinct_iff h.distinct hstep).mpr hok⟩
  | destroy i =>
    obtain ⟨ht, hsub⟩ := h.destroy hstep
    exact ⟨ht, h.distinct.sublist hsub⟩

lemma Inv.reachable (h : system.Reachable StepOk s) : Inv s := by
  apply h.invariant
  · intro s hs
    obtain rfl : s = boot := hs
    exact ⟨⟨.inl rfl, nofun⟩, List.Pairwise.nil⟩
  · exact fun s ev t hs hok hstep => hs.event hok hstep

/-- **Identifiers of live page tables are distinct** in every run in which no page table is
created a multiple of 65535 creations after one that is still live; a creation that breaks
the condition breaks the property. -/
theorem asids_distinct {s : State} (h : system.Reachable StepOk s) :
    AsidsDistinct s ∧ ∀ rootPpn t, system.step s (.create rootPpn) = some t →
      (AsidsDistinct t ↔ StepOk s (.create rootPpn)) :=
  ⟨(Inv.reachable h).distinct,
    fun _ _ hstep => (Inv.reachable h).create_distinct_iff (Inv.reachable h).distinct hstep⟩

/-- The kernel's page table and two processes, the first of which exits. -/
theorem asids_distinct_threeTables :
    ∃ s, system.runWhile StepOk boot [.create 100, .create 200, .destroy 1, .create 300] = some s ∧
      s.live.map (fun t => pageTableAsid t.token) = [1, 3] ∧ AsidsDistinct s := by
  have hrun : (system.runWhile StepOk boot [.create 100, .create 200, .destroy 1, .create 300]).map
      (fun s => s.live.map fun t => pageTableAsid t.token) = some [1, 3] := by decide
  obtain ⟨s, hreach, hs, hasids⟩ := System.exists_reachable hrun rfl
  exact ⟨s, hs, hasids, (asids_distinct hreach).1⟩

/-! ## Rollover -/

/-- The state after the kernel's page table and `n` processes that have exited. -/
def afterProcesses (n : Nat) : State := ⟨⟨n + 2, 1⟩, n + 1, [⟨0, 1, 0⟩]⟩

/-- Before the rollover each process takes the next identifier. -/
lemma reachable_afterProcesses (h : n < SATP_ASID_MAX) :
    system.Reachable System.anyStep (afterProcesses n) := by
  induction n with
  | zero =>
    have hstep : system.step boot (.create 0) = some (afterProcesses 0) := by decide
    exact .step (.init rfl) trivial hstep
  | succ n ih =>
    have hcreate : system.step (afterProcesses n) (.create 1) =
        some ⟨⟨n + 3, 1⟩, n + 2, [⟨0, 1, 0⟩, ⟨1, n + 2, n + 1⟩]⟩ := by
      have hnext : ¬ n + 2 > SATP_ASID_MAX := by omega
      simp [system, State.event, AsidAllocator.allocPageTableAsid, AsidAllocator.rollover,
        afterProcesses, hnext]
    exact .step (.step (ih (by omega)) trivial hcreate) (a := .destroy 1) trivial rfl

/-- After 65534 processes the next one gets the identifier of the kernel's page table. -/
theorem kernel_asid_reused : ∃ s, system.Reachable System.anyStep s ∧ ¬ AsidsDistinct s := by
  have hstep : system.step (afterProcesses 65534) (.create 1) =
      some ⟨⟨2, 2⟩, 65536, [⟨0, 1, 0⟩, ⟨1, 1, 65535⟩]⟩ := by decide
  refine ⟨_, .step (reachable_afterProcesses (by decide)) trivial hstep, fun h => ?_⟩
  have hne := (List.pairwise_cons.mp h).1 ⟨1, 1, 65535⟩ (List.mem_singleton_self _)
  exact hne (by decide)

end Whusp.Arch.Asid
