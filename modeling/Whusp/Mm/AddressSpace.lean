import Whusp.Mm.AreaOps

/-!
# Runs of an address space

The area list through any sequence of exec set-up steps, thread resources, system calls,
faults and forks.  After a fork the run goes on in the child; the parent's list is not
changed by it.
-/

namespace Whusp.Mm

open Whusp.Lib (System)
open Whusp.Syscall (Arch)

/-! ## The system -/

/-- One step of an address space, with what the environment answers in it. -/
inductive AreaEvent where
  /-- Exec: a load segment of the program or of its interpreter, mapped lazily. -/
  | mapExecSegment (start len : Nat) (perm : MapPermission) (file : BackingFile)
  /-- Exec: break, heap area and mmap hint. -/
  | setupHeap (maxEndVa : Nat)
  | mapVdso (imageLen : Nat) (mapped : Bool)
  /-- A user stack, a trap-context page, or a load segment mapped at exec. -/
  | pushFramed (startVa endVa : Nat) (perm : MapPermission) (mapped : Bool)
  /-- A thread gives its stack or trap-context page back. -/
  | removeArea (startVpn : Nat)
  | mmap (len : Nat) (perm : MapPermission) (info : MmapInfo)
  | mmapFixed (addr len : Nat) (noReplace : Bool) (perm : MapPermission) (info : MmapInfo)
  | munmap (start len : Nat)
  | mprotect (start len : Nat) (perm : MapPermission) (remap : MapArea → Bool)
  | mremap (oldAddr oldLen newLen : Nat)
  | brk (addr : Nat)
  /-- Segments have at least one byte (`SHM_MIN`). -/
  | shmat (addr : Nat) (len : Nat) (pos : len ≠ 0) (perm : MapPermission) (leafPaths : Bool)
  | shmdt (start : Nat)
  | pageFault (addr : Nat) (access : MmapFaultAccess)
  /-- Any other lookup; it may move the cached index. -/
  | lookup (vpn : Nat)
  | fork (retain : Nat → Bool)

namespace MemorySet

variable {s s' : MemorySet} {m : Machine}

/-- A user address space before exec maps anything. -/
def bare (arch : Arch) : MemorySet where
  areas := []
  lastAreaIdxContaining := none
  brkBase := 0
  brk := 0
  brkLimit := 0
  brkMappedEnd := 0
  mmapNext := USER_MMAP_BASE arch

def step (m : Machine) (s : MemorySet) : AreaEvent → Option MemorySet
  | .mapExecSegment start len perm file => (s.mapExecSegmentArea m start len perm file).map (·.2)
  | .setupHeap maxEndVa => s.setupHeap m maxEndVa
  | .mapVdso imageLen mapped => (s.mapVdsoImage m imageLen mapped).map (·.2)
  | .pushFramed startVa endVa perm mapped => (s.pushFramed m startVa endVa perm mapped).map (·.2)
  | .removeArea startVpn => some (s.removeAreaWithStartVpn startVpn)
  | .mmap len perm info => (s.mmapArea m len perm info).map (·.2)
  | .mmapFixed addr len noReplace perm info =>
    (s.sysMmapFixed m addr len noReplace perm info).map (·.2)
  | .munmap start len => some (s.munmapArea m start len).2
  | .mprotect start len perm remap => some (s.mprotectArea m start len perm remap).2
  | .mremap oldAddr oldLen newLen => (s.mremapArea m oldAddr oldLen newLen).map (·.2)
  | .brk addr => (s.setProgramBreak m addr).map (·.2)
  | .shmat addr len _ perm leafPaths => (s.attachShmArea m addr len perm leafPaths).map (·.2)
  | .shmdt start => some (s.detachShmArea m start).2
  | .pageFault addr access => (s.prepareMmapPageFault m addr access).map (·.2)
  | .lookup vpn => some (s.findAreaIdxContaining vpn).2
  | .fork retain => some (s.fromExistedUser retain)

def system (m : Machine) : System MemorySet AreaEvent where
  init s := s = bare m.arch
  step := step m

/-- The pages of a new mapping are chosen where no empty area is in the way. -/
def MmapClear (m : Machine) (s : MemorySet) (len : Nat) : Prop :=
  ∀ mapLen ∈ checkedPageAlignUp len, HoleSearchClear m s mapLen

instance (m : Machine) (s : MemorySet) (len : Nat) : Decidable (MmapClear m s len) :=
  inferInstanceAs (Decidable (∀ mapLen ∈ checkedPageAlignUp len, _))

/-- No empty area starts where a growing `mremap` extends an area. -/
def MremapClear (m : Machine) (s : MemorySet) (oldAddr oldLen newLen : Nat) : Prop :=
  ∀ oldEnd ∈ mapEnd oldAddr oldLen, ∀ newEnd ∈ mapEnd oldAddr newLen,
    oldEnd < newEnd → s.NoEmptyAt (m.arch.floor oldEnd)

instance (m : Machine) (s : MemorySet) (oldAddr oldLen newLen : Nat) :
    Decidable (MremapClear m s oldAddr oldLen newLen) :=
  inferInstanceAs (Decidable (∀ oldEnd ∈ mapEnd oldAddr oldLen, _))

/-- The steps after which the list is still in order.  Everything that the code inserts or
extends unchecked has room; what it does check is not next to an empty area, which the
check does not see; and a fork has no tie between an empty area and another one. -/
def StepOk (m : Machine) (s : MemorySet) : AreaEvent → Prop
  | .mapExecSegment start _ _ _ => s.NoEmptyAt (m.arch.floor start)
  | .setupHeap maxEndVa =>
    ∀ b ∈ s.areas, Fits (m.arch.floor (pageAlignUp (maxEndVa + PAGE_SIZE)))
      (ceil m.arch (pageAlignUp (maxEndVa + PAGE_SIZE))) b
  | .mapVdso _ _ => s.NoEmptyAt (m.arch.floor VDSO_BASE)
  | .pushFramed startVa endVa _ _ =>
    ∀ b ∈ s.areas, Fits (m.arch.floor startVa) (ceil m.arch endVa) b
  | .mmap len _ _ => s.MmapClear m len
  | .mmapFixed addr _ _ _ _ => s.NoEmptyAt (m.arch.floor addr)
  | .mremap oldAddr oldLen newLen => s.MremapClear m oldAddr oldLen newLen
  | .brk addr =>
    s.brkBase ≤ addr → addr ≤ s.brkLimit → s.brkMappedEnd < pageAlignUp addr →
      s.BrkClear m (pageAlignUp addr)
  | .shmat addr len _ _ _ => if addr = 0 then s.MmapClear m len else s.NoEmptyAt (m.arch.floor addr)
  | .fork _ => s.EmptiesApart
  | .removeArea _ | .munmap _ _ | .mprotect _ _ _ _ | .shmdt _ | .pageFault _ _ | .lookup _ => True

instance (m : Machine) : DecidableRel (StepOk m) := by
  intro s e
  cases e <;> unfold StepOk <;> infer_instance

/-- The list is sorted by start, its ranges are pairwise disjoint, and the lookup finds an
area exactly when some area contains the page. -/
structure Safe (s : MemorySet) : Prop where
  sorted : s.areas.Pairwise fun a b => a.start ≤ b.start
  disjoint : s.areas.Pairwise fun a b => ∀ vpn, ¬ (span.Contains a vpn ∧ span.Contains b vpn)
  found : ∀ vpn idx, (s.findAreaIdxContaining vpn).1 = some idx →
    ∃ a, s.areas[idx]? = some a ∧ span.Contains a vpn
  lookup : ∀ vpn, (s.findAreaIdxContaining vpn).1.isSome = true ↔
    ∃ a ∈ s.areas, span.Contains a vpn

lemma Ordered.safe (hs : s.Ordered) : s.Safe where
  sorted := List.Pairwise.imp (fun {a _} h => le_trans a.start_le_stop h) hs
  disjoint := by
    apply List.Pairwise.imp _ hs
    intro a b hab vpn ⟨ha, hb⟩
    exact absurd (lt_of_lt_of_le ha.2 (le_trans hab hb.1)) (lt_irrefl _)
  found _ _ h := findAreaIdxContaining_eq_some hs h
  lookup vpn := findAreaIdxContaining_iff hs vpn

lemma exists_of_map_snd {α : Type} {o : Option (α × MemorySet)}
    (h : o.map (fun p => p.2) = some s') : ∃ r, o = some (r, s') := by
  obtain ⟨⟨r, t⟩, ho, rfl⟩ := Option.map_eq_some_iff.mp h
  exact ⟨r, ho⟩

/-- **Step lemma**: a step with room keeps the list in order. -/
theorem Ordered.step (hs : s.Ordered) {e : AreaEvent} (hok : s.StepOk m e)
    (h : s.step m e = some s') : s'.Ordered := by
  cases e with
  | mapExecSegment start len perm file =>
    obtain ⟨r, ht⟩ := exists_of_map_snd h
    exact hs.mapExecSegmentArea hok ht
  | setupHeap maxEndVa => exact hs.setupHeap hok h
  | mapVdso imageLen mapped =>
    obtain ⟨r, ht⟩ := exists_of_map_snd h
    exact hs.mapVdsoImage hok ht
  | pushFramed startVa endVa perm mapped =>
    obtain ⟨r, ht⟩ := exists_of_map_snd h
    exact hs.pushFramed hok ht
  | removeArea startVpn =>
    cases h
    exact hs.removeAreaWithStartVpn startVpn
  | mmap len perm info =>
    simp only [MemorySet.step] at h
    obtain ⟨r, ht⟩ := exists_of_map_snd h
    exact hs.mmapArea hok ht
  | mmapFixed addr len noReplace perm info =>
    obtain ⟨r, ht⟩ := exists_of_map_snd h
    exact hs.sysMmapFixed hok ht
  | munmap start len =>
    cases h
    exact hs.munmapArea start len
  | mprotect start len perm remap =>
    cases h
    exact hs.mprotectArea start len perm remap
  | mremap oldAddr oldLen newLen =>
    obtain ⟨r, ht⟩ := exists_of_map_snd h
    exact hs.mremapArea (fun oldEnd newEnd hold hnew => hok oldEnd hold newEnd hnew) ht
  | brk addr =>
    obtain ⟨r, ht⟩ := exists_of_map_snd h
    exact hs.setProgramBreak hok ht
  | shmat addr len pos perm leafPaths =>
    simp only [MemorySet.step] at h
    obtain ⟨r, ht⟩ := exists_of_map_snd h
    simp only [StepOk] at hok
    apply hs.attachShmArea pos _ _ ht
    · intro hzero
      rwa [if_pos hzero] at hok
    · intro hne
      rwa [if_neg hne] at hok
  | shmdt start =>
    cases h
    exact hs.detachShmArea start
  | pageFault addr access =>
    obtain ⟨r, ht⟩ := exists_of_map_snd h
    exact hs.prepareMmapPageFault ht
  | lookup vpn =>
    cases h
    exact hs.of_areas (findAreaIdxContaining_areas s vpn)
  | fork retain =>
    cases h
    exact hs.fromExistedUser hok retain

/-- **The area list is sound** in every state of every run whose steps have room. -/
theorem areas_safe (m : Machine) {s : MemorySet} (h : (system m).Reachable (StepOk m) s) :
    s.Safe := by
  apply Ordered.safe
  apply h.invariant
  · rintro s rfl
    exact List.Pairwise.nil
  · intro s e s' hs hok hstep
    exact hs.step hok hstep

/-- A RISC-V process whose kernel root entries are out of reach of user ranges. -/
def riscv : Machine := ⟨.riscv64, fun _ _ => false⟩

/-- Exec of a one-page program at `0x10000`: segment, heap at `0x12000`, vDSO, stack, trap
context. -/
def execTrace : List AreaEvent :=
  [.mapExecSegment 0x10000 0x1000 ⟨true, false, true, true⟩ ⟨false, false⟩, .setupHeap 0x11000,
    .mapVdso 0x1000 true, .pushFramed 0x213000 0x613000 ⟨true, true, false, true⟩ true,
    .pushFramed (2 ^ 64 - 0x2000) (2 ^ 64 - 0x1000) ⟨true, true, false, false⟩ true]

/-- A run of ordinary calls after exec: the heap grows, a mapping is made, cut in the middle
and protected, and the process forks. -/
def ordinaryTrace : List AreaEvent :=
  execTrace ++ [.brk 0x15000, .mmap 0x3000 ⟨true, true, false, true⟩ ⟨false, false, none⟩,
    .munmap 0x800001000 0x1000,
    .mprotect 0x12000 0x1000 ⟨true, false, false, true⟩ (fun _ => true), .fork fun _ => true]

theorem areas_safe_ordinaryTrace :
    ∃ s, (system riscv).runWhile (StepOk riscv) (bare .riscv64) ordinaryTrace = some s ∧
      s.areas.length = 8 ∧ s.Safe := by
  have hlen : ((system riscv).runWhile (StepOk riscv) (bare .riscv64) ordinaryTrace).map
      (·.areas.length) = some 8 := by decide
  obtain ⟨s, hreach, hs, hlen⟩ := System.exists_reachable hlen rfl
  exact ⟨s, hs, hlen, areas_safe riscv hreach⟩

/-- `brk` extends the heap over a mapping that was placed above it: after exec, a
`MAP_FIXED` page right above the (still empty) heap and a `brk` past it, the heap area and
the mapping share the page `0x13`. -/
theorem brk_overlaps_fixed_mapping : ∃ s, (system riscv).runWhile System.anyStep (bare .riscv64)
        (execTrace ++ [.mmapFixed 0x13000 0x1000 false ⟨true, true, false, true⟩
          ⟨false, false, none⟩, .brk 0x15000]) = some s ∧ ¬ s.Safe :=
  ⟨_, rfl, fun h => List.pairwise_iff_getElem.mp h.disjoint 1 2 (by decide) (by decide)
    (by decide) 0x13 ⟨by decide, by decide⟩⟩

end MemorySet

end Whusp.Mm
