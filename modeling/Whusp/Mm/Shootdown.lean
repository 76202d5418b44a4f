import Whusp.Lib.Transition
import Whusp.Syscall.UserPtr

/-!
# TLB shootdown

The active-CPU mask and the generation counter of an address space (`mm/address_space.rs`),
the per-CPU record of the last return to user mode (`CpuMmuFastState` in `cpu.rs`), the
decision to flush on a return (`should_flush_tlb_on_return`) and the flushes themselves.

A page-table entry has a version that counts its edits, and a TLB holds translations with the
version they were read at.  The hardware may cache a translation at any time.  The steps are
the atomic operations on shared data and the local operations between them; of a call of
`invalidate_tlb_range` these are the publication of a new generation, the snapshot of the
mask, and one flush on each CPU of the snapshot.
-/

namespace Whusp.Mm.Shootdown

open Function List
open Whusp.Lib (System)
open Whusp.Syscall (Arch)

abbrev Cpu := Nat

/-- `AddressSpaceControl::id`. -/
abbrev Space := Nat

/-! ## Translations and flushes -/

structure Translation where
  space : Space
  vpn : Nat
  version : Nat
  deriving DecidableEq

inductive FlushRange where
  | all
  | pages (start count : Nat)

def FlushRange.covers : FlushRange → Nat → Bool
  | .all, _ => true
  | .pages start count, vpn => decide (start ≤ vpn) && decide (vpn < start + count)

def TLB_RANGE_FULL_FLUSH_THRESHOLD : Nat := 64

/-- `invalidate_tlb_range`: a long range is a full flush. -/
def flushRange (start count : Nat) : FlushRange :=
  if count > TLB_RANGE_FULL_FLUSH_THRESHOLD then .all else .pages start count

lemma flushRange_covers {start count vpn : Nat} (h : start ≤ vpn ∧ vpn < start + count) :
    (flushRange start count).covers vpn = true := by
  unfold flushRange
  split
  · rfl
  · simp [FlushRange.covers, h]

/-! ## One CPU -/

/-- Where a CPU is on its way to user mode. -/
inductive Phase where
  | kernel
  /-- `prepare_user_return` has run. -/
  | prepared
  /-- `should_flush_tlb_on_return` has run, with its answer. -/
  | decided (flush : Bool)
  | user
  deriving DecidableEq

structure CpuState where
  current : Option Space
  phase : Phase
  lastReturnUserToken : Nat
  returnTlbDirty : Bool
  observedAddressSpaceId : Space
  observedTlbGeneration : Nat
  tlb : List Translation

namespace CpuState

/-- `CpuMmuFastState::new`. -/
def boot : CpuState := ⟨none, .kernel, 0, true, 0, 0, []⟩

/-- `observe_address_space`, as `prepare_user_return` calls it. -/
def prepareUserReturn (space generation : Nat) (c : CpuState) : CpuState :=
  { c with
    phase := .prepared
    observedAddressSpaceId := space
    observedTlbGeneration := generation
    returnTlbDirty := c.returnTlbDirty || decide (c.observedAddressSpaceId ≠ space) ||
      decide (c.observedTlbGeneration < generation) }

/-- Without ASIDs it answers at once. -/
def shouldFlushTlbOnReturn (asidSupported : Bool) (token : Nat) (c : CpuState) : CpuState :=
  if asidSupported then
    { c with
      phase := .decided (decide (c.lastReturnUserToken ≠ token) || c.returnTlbDirty)
      lastReturnUserToken := token
      returnTlbDirty := false }
  else { c with phase := .decided true }

def restore (flush : Bool) (c : CpuState) : CpuState :=
  { c with
    phase := .user
    tlb := if flush then [] else c.tlb }

/-- `flush_tlb_range` on this CPU, or by the firmware for it (then without the mark). -/
def flushTlbRange (range : FlushRange) (mark : Bool) (c : CpuState) : CpuState :=
  { c with
    tlb := c.tlb.filter fun t => !range.covers t.vpn
    returnTlbDirty := c.returnTlbDirty || mark }

end CpuState

/-! ## The system -/

/-- A call of `invalidate_tlb_range`. -/
structure Call where
  cpu : Cpu
  space : Space
  start : Nat
  count : Nat
  /-- The versions of the entries when the call began. -/
  need : Nat → Nat
  generation : Nat
  masked : Bool
  /-- The CPUs of the snapshot that have not flushed yet. -/
  remaining : List Cpu
  returned : Bool

structure State where
  cpus : Cpu → CpuState
  activeCpus : Space → List Cpu
  tlbGeneration : Space → Nat
  version : Space → Nat → Nat
  calls : List Call

inductive Event where
  | enter (c : Cpu) (space : Space)
  /-- The guard becomes the CPU's current address space, or it has none. -/
  | setCurrent (c : Cpu) (space : Option Space)
  | leave (c : Cpu) (space : Space)
  | prepareUserReturn (c : Cpu)
  | shouldFlush (c : Cpu)
  | restore (c : Cpu)
  /-- Trap, interrupt or system call. -/
  | trap (c : Cpu)
  /-- The hardware walks the page table. -/
  | fill (c : Cpu) (space : Space) (vpn : Nat)
  | evict (c : Cpu) (t : Translation)
  | edit (space : Space) (vpn : Nat)
  | publish (c : Cpu) (space : Space) (start count : Nat)
  /-- `publish_fresh_tlb_range_on_user_return`: a new generation without a shootdown. -/
  | publishFresh (space : Space)
  | snapshot (call : Nat)
  | flush (call : Nat) (c : Cpu)
  | complete (call : Nat)

/-- What the machine fixes: the architecture, whether it has ASIDs, and the `satp` or `PGDL`
token of an address space, which need not be unique over time. -/
structure Machine where
  arch : Arch
  asidSupported : Bool
  token : Space → Nat

namespace State

def setCpu (s : State) (c : Cpu) (cs : CpuState) : State :=
  { s with cpus := update s.cpus c cs }

def setCall (s : State) (i : Nat) (call : Call) : State := { s with calls := s.calls.set i call }

/-- On LoongArch the target of a shootdown runs `flush_tlb_range` itself. -/
def marks (m : Machine) (call : Call) (c : Cpu) : Bool :=
  match m.arch with
  | .riscv64 => decide (c = call.cpu)
  | .loongarch64 => true

def event (m : Machine) (s : State) : Event → Option State
  | .enter c space =>
    if (s.cpus c).phase = .kernel ∧ c ∉ s.activeCpus space then
      some { s with activeCpus := update s.activeCpus space (c :: s.activeCpus space) }
    else none
  | .setCurrent c space =>
    if (s.cpus c).phase = .kernel ∧ ∀ x ∈ space, c ∈ s.activeCpus x then
      some (s.setCpu c { s.cpus c with current := space })
    else none
  | .leave c space =>
    if (s.cpus c).phase = .kernel ∧ (s.cpus c).current ≠ some space ∧ c ∈ s.activeCpus space then
      some { s with
        activeCpus := update s.activeCpus space ((s.activeCpus space).erase c) }
    else none
  | .prepareUserReturn c =>
    match (s.cpus c).current with
    | none => none
    | some space =>
      if (s.cpus c).phase = .kernel then
        some (s.setCpu c ((s.cpus c).prepareUserReturn space (s.tlbGeneration space)))
      else none
  | .shouldFlush c =>
    match (s.cpus c).current with
    | none => none
    | some space =>
      if (s.cpus c).phase = .prepared then
        some (s.setCpu c ((s.cpus c).shouldFlushTlbOnReturn m.asidSupported (m.token space)))
      else none
  | .restore c =>
    match (s.cpus c).phase with
    | .decided flush => some (s.setCpu c ((s.cpus c).restore flush))
    | _ => none
  | .trap c =>
    if (s.cpus c).phase = .user then some (s.setCpu c { s.cpus c with phase := .kernel }) else none
  | .fill c space vpn => some (s.setCpu c { s.cpus c with
      tlb := ⟨space, vpn, s.version space vpn⟩ :: (s.cpus c).tlb })
  | .evict c t => some (s.setCpu c { s.cpus c with tlb := (s.cpus c).tlb.filter (· ≠ t) })
  | .edit space vpn =>
    let versions := update (s.version space) vpn (s.version space vpn + 1)
    some { s with version := update s.version space versions }
  | .publish c space start count => some { s with
      tlbGeneration := update s.tlbGeneration space (s.tlbGeneration space + 1)
      calls := s.calls ++ [⟨c, space, start, count, s.version space, s.tlbGeneration space + 1,
        false, [], false⟩] }
  | .publishFresh space => some { s with
      tlbGeneration := update s.tlbGeneration space (s.tlbGeneration space + 1) }
  | .snapshot i =>
    match s.calls[i]? with
    | none => none
    | some call =>
      if call.masked then none
      else some (s.setCall i { call with
        masked := true
        remaining := s.activeCpus call.space })
  | .flush i c =>
    match s.calls[i]? with
    | none => none
    | some call =>
      if c ∈ call.remaining then
        some ((s.setCpu c ((s.cpus c).flushTlbRange (flushRange call.start call.count)
          (marks m call c))).setCall i { call with
            remaining := call.remaining.filter fun d => d ≠ c })
      else none
  | .complete i =>
    match s.calls[i]? with
    | none => none
    | some call =>
      if call.masked ∧ call.remaining = [] then some (s.setCall i { call with returned := true })
      else none

end State

/-- Every CPU is in the kernel, and no address space is active. -/
structure State.Initial (s : State) : Prop where
  cpus : ∀ c, s.cpus c = CpuState.boot
  active : ∀ x, s.activeCpus x = []
  generation : ∀ x, s.tlbGeneration x = 1
  calls : s.calls = []

def system (m : Machine) : System State Event where
  init := State.Initial
  step := State.event m

/-! ## What keeps a CPU from using a stale translation -/

def Call.InRange (call : Call) (vpn : Nat) : Prop :=
  call.start ≤ vpn ∧ vpn < call.start + call.count

/-- The CPU holds no translation of the range from before the call. -/
def Clean (call : Call) (c : CpuState) : Prop :=
  ∀ t ∈ c.tlb, t.space = call.space → call.InRange t.vpn → call.need t.vpn ≤ t.version

/-- The CPU will flush before it executes user code again. -/
def FlushDue (c : CpuState) : Prop :=
  match c.phase with
  | .kernel | .prepared => c.returnTlbDirty = true
  | .decided flush => flush = true
  | .user => False

/-- The generation of the call is new to the CPU. -/
def Unobserved (call : Call) (c : CpuState) : Prop :=
  c.observedAddressSpaceId ≠ call.space ∨ c.observedTlbGeneration < call.generation

/-- The CPU has still to look at the generation before it runs in the address space. -/
def Ahead (call : Call) (c : CpuState) : Prop :=
  call.masked = false ∨ c.phase = .kernel ∨ c.current ≠ some call.space

/-- What protects the CPU `i` from translations older than the call: it has none, it will
flush, the call will flush it, or it has yet to notice the new generation. -/
def Safe (call : Call) (i : Cpu) (c : CpuState) : Prop :=
  Clean call c ∨ FlushDue c ∨ i ∈ call.remaining ∨ Unobserved call c ∧ Ahead call c

structure Inv (s : State) : Prop where
  generation : ∀ call ∈ s.calls, call.generation ≤ s.tlbGeneration call.space
  need : ∀ call ∈ s.calls, ∀ v, call.need v ≤ s.version call.space v
  active : ∀ i x, (s.cpus i).current = some x → i ∈ s.activeCpus x
  observed : ∀ i, (s.cpus i).phase ≠ .kernel →
    (s.cpus i).current = some (s.cpus i).observedAddressSpaceId
  /-- The assertion in `observe_address_space`: no generation is ahead of the counter. -/
  regressed : ∀ i, (s.cpus i).observedTlbGeneration ≤
    s.tlbGeneration (s.cpus i).observedAddressSpaceId
  unmasked : ∀ call ∈ s.calls, call.masked = false → call.remaining = []
  returned : ∀ call ∈ s.calls, call.returned = true → call.masked = true ∧ call.remaining = []
  safe : ∀ call ∈ s.calls, ∀ i, Safe call i (s.cpus i)

/-! ## Local steps -/

variable {call : Call} {i : Cpu} {c c' : CpuState}

/-- Each way of being safe is kept by itself. -/
lemma Safe.imp (h : Safe call i c) (hclean : Clean call c → Clean call c')
    (hflush : FlushDue c → FlushDue c')
    (hnew : Unobserved call c → Ahead call c → Unobserved call c' ∧ Ahead call c') :
    Safe call i c' :=
  Or.imp hclean (.imp hflush (.imp_right fun hun => hnew hun.1 hun.2)) h

/-- Outside the kernel it is the mask or the address space that puts the generation ahead. -/
lemma Ahead.of_awake (h : Ahead call c) (hphase : c.phase ≠ .kernel)
    (hcurrent : c'.current = c.current) : Ahead call c' :=
  h.imp_right fun hahead => .inr (hcurrent ▸ hahead.resolve_left hphase)

/-- `prepare_user_return` notices every generation that has been published. -/
lemma Safe.prepareUserReturn {space generation : Nat} (h : Safe call i c)
    (hkernel : c.phase = .kernel) (hcurrent : c.current = some space)
    (hgen : call.space = space → call.generation ≤ generation) :
    Safe call i (c.prepareUserReturn space generation) := by
  have hdue : (c.returnTlbDirty = true ∨ c.observedAddressSpaceId ≠ space ∨
      c.observedTlbGeneration < generation) → FlushDue (c.prepareUserReturn space generation) := by
    intro h
    simpa [FlushDue, CpuState.prepareUserReturn, or_assoc] using h
  rcases h with hclean | hflush | hrem | ⟨hun, -⟩
  · exact .inl hclean
  · unfold FlushDue at hflush
    rw [hkernel] at hflush
    exact .inr (.inl (hdue (.inl hflush)))
  · exact .inr (.inr (.inl hrem))
  · rcases eq_or_ne call.space space with heq | hne
    · -- the call is about this address space: the mark is set
      refine .inr (.inl (hdue ?_))
      rcases hun with hid | hlt
      · exact .inr (.inl (heq ▸ hid))
      · exact .inr (.inr (lt_of_lt_of_le hlt (hgen heq)))
    · refine .inr (.inr (.inr ⟨.inl (Ne.symm hne), .inr (.inr ?_)⟩))
      show c.current ≠ some call.space
      rw [hcurrent]
      exact fun heq => hne (Option.some.inj heq).symm

/-- The answer of `should_flush_tlb_on_return` takes over the mark. -/
lemma Safe.shouldFlush {asid : Bool} {token : Nat} (h : Safe call i c)
    (hprepared : c.phase = .prepared) : Safe call i (c.shouldFlushTlbOnReturn asid token) := by
  unfold CpuState.shouldFlushTlbOnReturn
  split
  swap
  · exact .inr (.inl rfl)
  refine h.imp id ?_ fun hun hahead => ⟨hun, hahead.of_awake (by simp [hprepared]) rfl⟩
  simp only [FlushDue, hprepared]
  simp +contextual

lemma Safe.restore {flush : Bool} (h : Safe call i c) (hdecided : c.phase = .decided flush) :
    Safe call i (c.restore flush) := by
  cases flush with
  | true => exact .inl nofun
  | false =>
    refine h.imp id ?_ fun hun hahead => ⟨hun, hahead.of_awake (by simp [hdecided]) rfl⟩
    simp [FlushDue, hdecided]

lemma Safe.trap (h : Safe call i c) (huser : c.phase = .user) :
    Safe call i { c with phase := .kernel } := by
  refine h.imp id ?_ fun hun _ => ⟨hun, .inr (.inl rfl)⟩
  simp [FlushDue, huser]

/-- In the kernel the current address space may change. -/
lemma Safe.setCurrent {space : Option Space} (h : Safe call i c) (hkernel : c.phase = .kernel) :
    Safe call i { c with current := space } :=
  h.imp id id fun hun _ => ⟨hun, .inr (.inl hkernel)⟩

/-- Translations that are dropped, or as new as the call, do no harm. -/
lemma Safe.setTlb {l : List Translation} (h : Safe call i c)
    (hl : ∀ t ∈ l, t ∈ c.tlb ∨ (t.space = call.space → call.need t.vpn ≤ t.version)) :
    Safe call i { c with tlb := l } := by
  rcases h with hclean | hrest
  · refine .inl fun t ht hspace hrange => ?_
    rcases hl t ht with hold | hnew
    · exact hclean t hold hspace hrange
    · exact hnew hspace
  · exact .inr hrest

lemma Safe.flushTlbRange {range : FlushRange} {mark : Bool} (h : Safe call i c) :
    Safe call i (c.flushTlbRange range mark) := by
  rcases h with hclean | hflush | hrest
  · exact .inl fun t ht => hclean t (mem_of_mem_filter ht)
  · refine .inr (.inl ?_)
    unfold FlushDue CpuState.flushTlbRange at *
    cases hphase : c.phase <;> simp_all
  · exact .inr (.inr hrest)

/-- **The flush of a call** leaves no translation of its range. -/
theorem clean_flushTlbRange (call : Call) (mark : Bool) (c : CpuState) :
    Clean call (c.flushTlbRange (flushRange call.start call.count) mark) := by
  intro t ht _ hrange
  have hout := (mem_filter.mp ht).2
  simp [flushRange_covers hrange] at hout

/-! ## Steps of the system -/

namespace Inv

variable {s t : State} {m : Machine}

lemma setCpu (hs : Inv s) (cs : CpuState)
    (hactive : ∀ x, cs.current = some x → i ∈ s.activeCpus x)
    (hobserved : cs.phase ≠ .kernel → cs.current = some cs.observedAddressSpaceId)
    (hregressed : cs.observedTlbGeneration ≤ s.tlbGeneration cs.observedAddressSpaceId)
    (hsafe : ∀ call ∈ s.calls, Safe call i (s.cpus i) → Safe call i cs) : Inv (s.setCpu i cs) := by
  have hself : (s.setCpu i cs).cpus i = cs := update_self ..
  have hother : ∀ j, j ≠ i → (s.setCpu i cs).cpus j = s.cpus j := fun j hj =>
    update_of_ne hj ..
  refine ⟨hs.generation, hs.need, fun j x hx => ?_, fun j hj => ?_, fun j => ?_, hs.unmasked,
    hs.returned, fun call hcall j => ?_⟩
  · rcases eq_or_ne j i with rfl | hne
    · exact hactive x (hself ▸ hx)
    · exact hs.active j x (hother j hne ▸ hx)
  · rcases eq_or_ne j i with rfl | hne
    · rw [hself] at hj ⊢
      exact hobserved hj
    · rw [hother j hne] at hj ⊢
      exact hs.observed j hj
  · rcases eq_or_ne j i with rfl | hne
    · rw [hself]
      exact hregressed
    · rw [hother j hne]
      exact hs.regressed j
  · rcases eq_or_ne j i with rfl | hne
    · rw [hself]
      exact hsafe call hcall (hs.safe call hcall j)
    · rw [hother j hne]
      exact hs.safe call hcall j

lemma setCall (hs : Inv s) {n : Nat} {call' : Call} (hcall : s.calls[n]? = some call)
    (hspace : call'.space = call.space) (hgen : call'.generation = call.generation)
    (hneed : call'.need = call.need) (hmasked : call'.masked = true)
    (hreturned : call'.returned = true → call'.remaining = [])
    (hsafe : ∀ j, Safe call j (s.cpus j) → Safe call' j (s.cpus j)) : Inv (s.setCall n call') := by
  have hold := mem_of_getElem? hcall
  have hmem : ∀ d ∈ s.calls.set n call', d = call' ∨ d ∈ s.calls :=
    fun d hd => (mem_or_eq_of_mem_set hd).symm
  refine ⟨fun d hd => ?_, fun d hd v => ?_, hs.active, hs.observed, hs.regressed, fun d hd hm => ?_,
    fun d hd hr => ?_, fun d hd j => ?_⟩
  · rcases hmem d hd with rfl | hd
    · rw [hspace, hgen]
      exact hs.generation call hold
    · exact hs.generation d hd
  · rcases hmem d hd with rfl | hd
    · rw [hspace, hneed]
      exact hs.need call hold v
    · exact hs.need d hd v
  · rcases hmem d hd with rfl | hd
    · exact absurd (hmasked.symm.trans hm) nofun
    · exact hs.unmasked d hd hm
  · rcases hmem d hd with rfl | hd
    · exact ⟨hmasked, hreturned hr⟩
    · exact hs.returned d hd hr
  · rcases hmem d hd with rfl | hd
    · exact hsafe j (hs.safe call hold j)
    · exact hs.safe d hd j

lemma generation_le_update (s : State) (space x : Space) : s.tlbGeneration x ≤
    update s.tlbGeneration space (s.tlbGeneration space + 1) x := by
  rcases eq_or_ne x space with rfl | hne
  · simp
  · rw [update_of_ne hne]

/-- **Publication**: no CPU has seen the new generation. -/
theorem publish (hs : Inv s) {c : Cpu} {space start count : Nat} :
    Inv { s with
      tlbGeneration := update s.tlbGeneration space (s.tlbGeneration space + 1)
      calls := s.calls ++ [⟨c, space, start, count, s.version space, s.tlbGeneration space + 1,
        false, [], false⟩] } := by
  have hmono := generation_le_update s space
  refine ⟨fun d hd => ?_, fun d hd v => ?_, hs.active, hs.observed,
    fun j => (hs.regressed j).trans (hmono _), fun d hd hm => ?_,
    fun d hd hr => ?_, fun d hd j => ?_⟩
  all_goals rcases mem_append.mp hd with hd | hd
  · exact (hs.generation d hd).trans (hmono _)
  · obtain rfl := mem_singleton.mp hd
    simp
  · exact hs.need d hd v
  · obtain rfl := mem_singleton.mp hd
    exact le_refl _
  · exact hs.unmasked d hd hm
  · obtain rfl := mem_singleton.mp hd
    rfl
  · exact hs.returned d hd hr
  · obtain rfl := mem_singleton.mp hd
    cases hr
  · exact hs.safe d hd j
  · obtain rfl := mem_singleton.mp hd
    refine .inr (.inr (.inr ⟨?_, .inl rfl⟩))
    rcases eq_or_ne (s.cpus j).observedAddressSpaceId space with heq | hne
    · exact .inr (Nat.lt_succ_of_le (heq ▸ hs.regressed j))
    · exact .inl hne

/-- **Snapshot**: a CPU outside the mask is not running in the address space. -/
theorem snapshot (hs : Inv s) {n : Nat} (hcall : s.calls[n]? = some call)
    (hmasked : call.masked = false) :
    Inv (s.setCall n { call with
      masked := true
      remaining := s.activeCpus call.space }) := by
  refine hs.setCall hcall rfl rfl rfl rfl (fun hr => ?_) fun j hj => ?_
  · have hdone := (hs.returned call (mem_of_getElem? hcall) hr).1
    exact absurd (hmasked.symm.trans hdone) nofun
  rcases hj with hclean | hflush | hrem | ⟨hun, -⟩
  · exact .inl hclean
  · exact .inr (.inl hflush)
  · simp [hs.unmasked call (mem_of_getElem? hcall) hmasked] at hrem
  · rcases Classical.em (j ∈ s.activeCpus call.space) with hactive | hout
    · exact .inr (.inr (.inl hactive))
    · refine .inr (.inr (.inr ⟨hun, .inr (.inr ?_)⟩))
      intro hcurrent
      exact hout (hs.active j call.space hcurrent)

/-- **Flush**: the CPU leaves the set of those that have not flushed. -/
theorem flush (hs : Inv s) {n : Nat} {c : Cpu} {mark : Bool} (hcall : s.calls[n]? = some call)
    (hrem : c ∈ call.remaining) :
    Inv ((s.setCpu c ((s.cpus c).flushTlbRange (flushRange call.start call.count)
      mark)).setCall n { call with remaining := call.remaining.filter fun d => d ≠ c }) := by
  have hmasked : call.masked = true := by
    apply Bool.eq_true_of_not_eq_false
    intro hm
    simp [hs.unmasked call (mem_of_getElem? hcall) hm] at hrem
  have hcpu : Inv (s.setCpu c ((s.cpus c).flushTlbRange (flushRange call.start call.count) mark)) :=
    hs.setCpu _ (hs.active c) (hs.observed c) (hs.regressed c) fun d _ hd => hd.flushTlbRange
  refine hcpu.setCall hcall rfl rfl rfl hmasked (fun hr => ?_) fun j hj => ?_
  · simp [(hs.returned call (mem_of_getElem? hcall) hr).2] at hrem
  rcases eq_or_ne j c with rfl | hne
  · refine .inl ?_
    have hself : (s.setCpu j ((s.cpus j).flushTlbRange (flushRange call.start call.count)
        mark)).cpus j = _ := update_self ..
    rw [hself]
    exact clean_flushTlbRange call mark (s.cpus j)
  · rcases hj with hclean | hflush | hin | hahead
    · exact .inl hclean
    · exact .inr (.inl hflush)
    · exact .inr (.inr (.inl (mem_filter.mpr ⟨hin, by simpa using hne⟩)))
    · exact .inr (.inr (.inr hahead))

open Option

/-- **Every step keeps the invariant.** -/
theorem event {ev : Event} (hs : Inv s) (h : s.event m ev = some t) : Inv t := by
  cases ev with
  | enter c space =>
    obtain ⟨⟨hkernel, -⟩, rfl⟩ := of_guard h
    refine { hs with active := fun j x hx => ?_ }
    have hin := hs.active j x hx
    show j ∈ update s.activeCpus space (c :: s.activeCpus space) x
    rcases eq_or_ne x space with rfl | hne
    · rw [update_self]
      exact mem_cons_of_mem _ hin
    · rw [update_of_ne hne]
      exact hin
  | setCurrent c space =>
    obtain ⟨⟨hkernel, hactive⟩, rfl⟩ := of_guard h
    exact hs.setCpu _ (fun x hx => hactive x hx) (fun hne => absurd hkernel hne) (hs.regressed c)
      fun call _ hsafe => hsafe.setCurrent hkernel
  | leave c space =>
    obtain ⟨⟨hkernel, hcurrent, -⟩, rfl⟩ := of_guard h
    refine { hs with active := fun j x hx => ?_ }
    have hin := hs.active j x hx
    show j ∈ update s.activeCpus space ((s.activeCpus space).erase c) x
    rcases eq_or_ne x space with rfl | hne
    · rw [update_self]
      apply (mem_erase_of_ne _).mpr hin
      rintro rfl
      exact hcurrent hx
    · rw [update_of_ne hne]
      exact hin
  | prepareUserReturn c =>
    simp only [State.event] at h
    split at h
    · cases h
    rename_i hcurrent
    obtain ⟨hkernel, rfl⟩ := of_guard h
    refine hs.setCpu _ (hs.active c) (fun _ => hcurrent) (le_refl _) fun call hcall hsafe => ?_
    apply hsafe.prepareUserReturn hkernel hcurrent
    rintro rfl
    exact hs.generation call hcall
  | shouldFlush c =>
    simp only [State.event] at h
    split at h
    · cases h
    obtain ⟨hprepared, rfl⟩ := of_guard h
    have hobserved := hs.observed c (by rw [hprepared]; exact nofun)
    apply hs.setCpu
    · intro x hx
      unfold CpuState.shouldFlushTlbOnReturn at hx
      split at hx <;> exact hs.active c x hx
    · intro _
      unfold CpuState.shouldFlushTlbOnReturn
      split <;> exact hobserved
    · unfold CpuState.shouldFlushTlbOnReturn
      split <;> exact hs.regressed c
    · exact fun call _ hsafe => hsafe.shouldFlush hprepared
  | restore c =>
    simp only [State.event] at h
    split at h
    next hdecided =>
      cases h
      have hobserved := hs.observed c (by rw [hdecided]; exact nofun)
      exact hs.setCpu _ (hs.active c) (fun _ => hobserved) (hs.regressed c)
        fun call _ hsafe => hsafe.restore hdecided
    · cases h
  | trap c =>
    obtain ⟨huser, rfl⟩ := of_guard h
    exact hs.setCpu _ (hs.active c) (fun hne => absurd rfl hne) (hs.regressed c)
      fun call _ hsafe => hsafe.trap huser
  | fill c space vpn =>
    cases h
    refine hs.setCpu _ (hs.active c) (hs.observed c) (hs.regressed c) fun call hcall hsafe => ?_
    apply hsafe.setTlb
    intro t ht
    rcases mem_cons.mp ht with rfl | ht
    · refine .inr fun heq => ?_
      obtain rfl : space = call.space := heq
      exact hs.need call hcall vpn
    · exact .inl ht
  | evict c t =>
    cases h
    refine hs.setCpu _ (hs.active c) (hs.observed c) (hs.regressed c) fun call hcall hsafe => ?_
    exact hsafe.setTlb fun t ht => .inl (mem_of_mem_filter ht)
  | edit space vpn =>
    cases h
    refine { hs with need := fun call hcall v => (hs.need call hcall v).trans ?_ }
    show s.version call.space v ≤ update s.version space _ call.space v
    rcases eq_or_ne call.space space with heq | hne
    · rw [heq, update_self]
      rcases eq_or_ne v vpn with rfl | hv
      · simp
      · rw [update_of_ne hv]
    · rw [update_of_ne hne]
  | publish c space start count =>
    cases h
    exact hs.publish
  | publishFresh space =>
    cases h
    have hmono := generation_le_update s space
    exact ⟨fun call hcall => (hs.generation call hcall).trans (hmono _), hs.need, hs.active,
      hs.observed, fun i => (hs.regressed i).trans (hmono _), hs.unmasked, hs.returned, hs.safe⟩
  | snapshot n =>
    simp only [State.event] at h
    split at h
    · cases h
    rename_i hcall
    obtain ⟨hmasked, rfl⟩ := of_refusal h
    exact hs.snapshot hcall (by simpa using hmasked)
  | flush n c =>
    simp only [State.event] at h
    split at h
    · cases h
    rename_i hcall
    obtain ⟨hrem, rfl⟩ := of_guard h
    exact hs.flush hcall hrem
  | complete n =>
    simp only [State.event] at h
    split at h
    · cases h
    rename_i hcall
    obtain ⟨⟨hmasked, hrem⟩, rfl⟩ := of_guard h
    exact hs.setCall hcall rfl rfl rfl hmasked (fun _ => hrem) fun j hj => hj

lemma reachable (h : (system m).Reachable System.anyStep s) : Inv s := by
  apply h.invariant
  swap
  · exact fun s ev t hinv _ hstep => hinv.event hstep
  intro s hs
  refine ⟨?_, ?_, fun i x hx => ?_, fun i hi => ?_, fun i => ?_, ?_, ?_, ?_⟩
  all_goals first
    | (rw [hs.calls]; exact nofun)
    | skip
  · rw [hs.cpus] at hx
    cases hx
  · rw [hs.cpus] at hi
    exact absurd rfl hi
  · rw [hs.cpus]
    exact Nat.zero_le _

end Inv

/-! ## No stale translations -/

/-- After a call returned, no CPU that executes user code of the address space holds a
translation of the range that was cached before an edit that preceded the call. -/
def NoStaleTranslation (s : State) : Prop :=
  ∀ call ∈ s.calls, call.returned = true → ∀ i, (s.cpus i).phase = .user →
    (s.cpus i).current = some call.space → Clean call (s.cpus i)

/-- **TLB shootdown** over every interleaving and any number of CPUs. -/
theorem no_stale_translation (m : Machine) {s : State}
    (h : (system m).Reachable System.anyStep s) : NoStaleTranslation s := by
  have hs := Inv.reachable h
  intro call hcall hreturned i huser hcurrent
  obtain ⟨hmasked, hrem⟩ := hs.returned call hcall hreturned
  rcases hs.safe call hcall i with hclean | hflush | hin | ⟨-, hahead⟩
  · exact hclean
  · unfold FlushDue at hflush
    simp [huser] at hflush
  · simp [hrem] at hin
  · rcases hahead with hm | hk | hc
    · exact absurd (hmasked.symm.trans hm) nofun
    · exact absurd (huser.symm.trans hk) nofun
    · exact absurd hcurrent hc

/-- Two CPUs run in one address space; the second has page 7 cached when the first edits it. -/
def sharedPageTrace : List Event :=
  [.enter 0 5, .setCurrent 0 (some 5), .enter 1 5, .setCurrent 1 (some 5),
    .prepareUserReturn 0, .shouldFlush 0, .restore 0, .prepareUserReturn 1, .shouldFlush 1,
    .restore 1, .fill 1 5 7, .fill 1 5 8, .trap 0, .edit 5 7, .publish 0 5 7 1, .snapshot 0,
    .flush 0 0, .flush 0 1, .complete 0]

def bootState : State := ⟨fun _ => CpuState.boot, fun _ => [], fun _ => 1, fun _ _ => 0, []⟩

def twoCpus : Machine := ⟨.riscv64, true, fun x => x⟩

/-- After the call the second CPU still runs, without the old translation of page 7. -/
theorem no_stale_translation_sharedPage :
    ∃ s, (system twoCpus).runWhile System.anyStep bootState sharedPageTrace = some s ∧
      (s.cpus 1).phase = .user ∧ (s.cpus 1).tlb = [⟨5, 8, 0⟩] ∧ NoStaleTranslation s := by
  have hrun : ((system twoCpus).runWhile System.anyStep bootState sharedPageTrace).map
      (fun s => ((s.cpus 1).phase, (s.cpus 1).tlb)) = some (.user, [⟨5, 8, 0⟩]) := by decide
  have hinit : bootState.Initial := ⟨fun _ => rfl, fun _ => rfl, fun _ => rfl, rfl⟩
  obtain ⟨s, hreach, hs, hcpu⟩ := System.exists_reachable hrun hinit
  have hsafe := no_stale_translation twoCpus hreach
  exact ⟨s, hs, (Prod.mk.inj hcpu).1, (Prod.mk.inj hcpu).2, hsafe⟩

end Whusp.Mm.Shootdown
