import Whusp.Mm.SharingFork

/-!
# Isolation of private memory

A family of related address spaces through any sequence of mappings, faults, `mprotect`,
unmapping, forks, exits, page-cache traffic and user stores.
-/

namespace Whusp.Mm.Sharing

open Whusp.Lib (Byte Holders System)
open Whusp.Syscall (Arch PageTableEntry)

/-! ## The system -/

/-- One step of the family, with what the environment answers in it. -/
inductive Event where
  /-- A new area: exec, `mmap`, `brk`, `shmat`, a thread's stack and trap-context page. -/
  | mapArea (p : Nat) (n : NewArea) (start stop : Nat) (contents : Nat → Nat → Byte)
  | pageFault (x : Page) (access : MmapFaultAccess) (contents : Nat → Byte)
  | pageCacheFault (x : Page) (access : MmapFaultAccess) (page generation : Nat)
  | shmMap (x : Page) (shmid index : Nat)
  | sharedWriteFault (x : Page)
  | cowPageFault (x : Page)
  | splitArea (p idx at_ : Nat)
  | extendArea (p idx start stop : Nat)
  | mprotect (p idx : Nat) (prot : Prot)
  | unmapArea (p idx : Nat)
  | discardRange (p idx lo hi : Nat)
  | fork (p q : Nat) (env : State.ForkEnv)
  | exit (p : Nat)
  | loadKey (k : Key) (contents : Nat → Byte)
  | evictKey (k : Key)
  | store (x : Page) (offset : Nat) (value : Byte)
  /-- The allocator may hand out any free frame next. -/
  | chooseFree (l : List Nat)

def State.event (arch : Arch) (s : State) : Event → Option State
  | .mapArea p n start stop contents => some (s.mapArea arch p n start stop contents)
  | .pageFault x access contents => some (s.pageFault arch x access contents)
  | .pageCacheFault x access page generation =>
    some (s.pageCacheFault arch x access page generation)
  | .shmMap x shmid index => some (s.shmMap arch x shmid index)
  | .sharedWriteFault x => some (s.sharedWriteFault arch x)
  | .cowPageFault x => some (s.resolveCowPageFault arch x)
  | .splitArea p idx at_ => some (s.splitArea p idx at_)
  | .extendArea p idx start stop => some (s.extendArea p idx start stop)
  | .mprotect p idx prot => some (s.remapPermission arch p idx (protToMapPermission prot))
  | .unmapArea p idx => some (s.unmapArea p idx)
  | .discardRange p idx lo hi => some (s.discardRange p idx lo hi)
  | .fork p q env => some (s.fork arch env p q)
  | .exit p => some (s.dropAreas p (s.areas p))
  | .loadKey k contents => some (s.loadKey k contents)
  | .evictKey k => some (s.evictKey k)
  | .store x offset value => some (s.store x offset value)
  | .chooseFree l => if l.Perm s.free then some { s with free := l } else none

/-- No address space has an area yet, and nothing is cached. -/
structure State.Initial (s : State) : Prop where
  areas : ∀ p, s.areas p = []
  pt : ∀ x, s.pt x = none
  dataFrames : ∀ x, s.dataFrames x = none
  extPages : ∀ x, s.extPages x = none
  cache : ∀ k, s.cache k = none
  pins : ∀ k, s.pins k = 0
  refs : ∀ f, s.refs f = 0
  free : s.free.Nodup

def system (arch : Arch) : System State Event where
  init := State.Initial
  step := State.event arch

/-! ## Conditions on the areas -/

lemma Vma.apart_iff {a b : Vma} : a.Apart b ↔
    a.stop ≤ a.start ∨ b.stop ≤ b.start ∨ a.stop ≤ b.start ∨ b.stop ≤ a.start := by
  unfold Vma.Apart Vma.contains
  simp only [Bool.and_eq_true, decide_eq_true_eq]
  constructor
  · intro h
    have hmax := h (max a.start b.start)
    omega
  · omega

instance (a b : Vma) : Decidable (a.Apart b) := decidable_of_iff _ Vma.apart_iff.symm

/-- The condition on a step: a new area with write permission has read or execute permission
too, and new pages of an area are in no other area of the address space. -/
def StepOk (s : State) : Event → Prop
  | .mapArea p n start stop _ => n.Accessible ∧ ∀ b ∈ s.areas p, (n.toVma start stop).Apart b
  | .extendArea p idx start stop => ∀ a ∈ (s.areas p)[idx]?, ∀ b ∈ (s.areas p).eraseIdx idx,
      Vma.Apart { a with start := start, stop := stop } b
  | _ => True

instance : DecidableRel StepOk := fun s ev => by
  cases ev <;> (unfold StepOk; infer_instance)

/-! ## The cache -/

namespace Inv

variable {s t : State} {k : Key} {arch : Arch}

open Function

lemma loadKey (hs : Inv s) (contents : Nat → Byte) : Inv (s.loadKey k contents) := by
  unfold State.loadKey
  split
  · exact hs
  rename_i hnone
  have hnone : s.cache k = none := by simpa using hnone
  split
  · exact hs
  rename_i halloc
  have hledger := hs.ledger.alloc halloc
  obtain ⟨rest, hfree, rfl⟩ := Ledger.frameAlloc_eq_some halloc
  refine hs.updateCache rfl rfl rfl rfl (hledger.giveCache hnone (update_self ..)) ?_ ?_
  · intro x k' hk'
    obtain ⟨a, e, ha⟩ := (hs.pages x).ext k' hk'
    apply update_of_ne
    rintro rfl
    exact absurd (hnone.symm.trans ha.frame) nofun
  · intro x g hg
    exact update_of_ne (hs.ledger.ne_of_free hfree hg) ..

lemma evictKey (hs : Inv s) : Inv (s.evictKey k) := by
  unfold State.evictKey
  split
  · exact hs
  rename_i f hk
  split
  swap
  · exact hs
  rename_i hpins
  have hout : ∀ k', update s.cache k none k' ≠ some f := by
    intro k' hk'
    rcases eq_or_ne k' k with rfl | hne
    · simp [update_self] at hk'
    · rw [update_of_ne hne] at hk'
      exact hne (hs.ledger.cache_inj hk' hk)
  refine hs.updateCache rfl rfl rfl rfl ((hs.ledger.takeCache hk).dealloc hout) ?_ ?_
  · intro x k' hk'
    apply update_of_ne
    rintro rfl
    exact (hpins ▸ hs.ledger.pins k').ne_of_zero hk'
  · intro x g hg
    apply update_of_ne
    rintro rfl
    exact hs.ledger.not_cached hg hk

end Inv

/-! ## Runs -/

variable {s t : State} {arch : Arch}

lemma State.Initial.inv (h : s.Initial) : Inv s := by
  refine ⟨⟨fun f => ⟨0, 0, ?_, ?_, h.refs f⟩, fun k f hk => ?_, fun k => ?_,
      h.free, fun f _ => h.refs f⟩,
    fun x => ⟨fun f hf => ?_, fun k hk => ?_, fun _ _ => h.pt x⟩, fun x y f a b hx => ?_,
    fun p => ?_, fun p => ?_⟩
  · exact Holders.of_none fun x hx => absurd ((h.dataFrames x).symm.trans hx) nofun
  · exact Holders.of_none fun k hk => absurd ((h.cache k).symm.trans hk) nofun
  · exact absurd ((h.cache k).symm.trans hk) nofun
  · rw [h.pins]
    exact Holders.of_none fun x hx => absurd ((h.extPages x).symm.trans hx) nofun
  · exact absurd ((h.dataFrames x).symm.trans hf) nofun
  · exact absurd ((h.extPages x).symm.trans hk) nofun
  · exact absurd ((h.dataFrames x).symm.trans hx) nofun
  · rw [h.areas]
    exact nofun
  · rw [h.areas]
    simp

/-- **Every step keeps the ownership invariant.** -/
theorem Inv.event {ev : Event} (hs : Inv s) (hok : StepOk s ev) (h : s.event arch ev = some t) :
    Inv t := by
  cases ev with
  | chooseFree l =>
    obtain ⟨hperm, rfl⟩ := of_guard h
    exact hs.of_free hperm
  | mapArea =>
    cases h
    exact hs.mapArea hok.1 hok.2
  | extendArea =>
    cases h
    exact hs.extendArea fun a ha => hok a ha
  | pageFault => cases h; exact hs.pageFault ..
  | pageCacheFault => cases h; exact hs.pageCacheFault ..
  | shmMap => cases h; exact hs.shmMap ..
  | sharedWriteFault => cases h; exact hs.sharedWriteFault
  | cowPageFault => cases h; exact hs.resolveCowPageFault
  | splitArea => cases h; exact hs.splitArea ..
  | mprotect => cases h; exact hs.remapPermission ..
  | unmapArea => cases h; exact hs.unmapArea ..
  | discardRange => cases h; exact hs.discardRange ..
  | fork p q env => cases h; exact hs.fork arch env p q
  | exit => cases h; exact hs.dropAreas fun a ha => .inl ha
  | loadKey => cases h; exact hs.loadKey ..
  | evictKey => cases h; exact hs.evictKey
  | store x offset value =>
    cases h
    unfold State.store
    split
    · exact hs
    split
    · exact hs.of_bytes _
    · exact hs

/-- **Every reachable state** has the ownership invariant. -/
theorem Inv.reachable (h : (system arch).Reachable StepOk s) : Inv s :=
  h.invariant (fun _ hinit => hinit.inv) fun _ _ _ hs hok hstep => hs.event hok hstep

/-! ## Isolation -/

/-- **Frames**: while a page of a private area is mapped writable, no other address space maps
its frame or owns it. -/
def FramesIsolated (s : State) : Prop :=
  ∀ x a e, s.areaAt x = some a → a.isPrivate = true → s.pt x = some e → e.valid = true →
    e.writable = true → ∀ y : Page, y.1 ≠ x.1 →
      s.dataFrames y ≠ some e.ppn ∧ ∀ e', s.pt y = some e' → e'.ppn ≠ e.ppn

/-- **Bytes**: a user store does not change what another process reads from a private page. -/
def BytesIsolated (s : State) : Prop :=
  ∀ (x : Page) offset value (y : Page) b e, y.1 ≠ x.1 → s.areaAt y = some b →
    b.isPrivate = true → s.pt y = some e → (s.store x offset value).bytes e.ppn = s.bytes e.ppn

/-- No page of the cache or of a segment is in both a shared and a private area. -/
lemma KeyFits.isPrivate_ne {k : Key} {a b : Vma} (ha : KeyFits k a.kind) (hb : KeyFits k b.kind)
    (hap : a.isPrivate = false) (hbp : b.isPrivate = true) : False := by
  unfold Vma.isPrivate at hap hbp
  cases k with
  | file id page generation =>
    cases hka : a.kind <;> cases hkb : b.kind <;> rw [hka] at ha hap <;> rw [hkb] at hb hbp <;>
      simp_all [KeyFits]
  | segment shmid index =>
    cases hkb : b.kind <;> rw [hkb] at hb hbp <;> simp_all [KeyFits]

/-- A shared page of one process and a private page of another have different frames. -/
lemma Inv.ppn_ne (hs : Inv s) {x y : Page} {a b : Vma} {e e' : PageTableEntry}
    (ha : s.areaAt x = some a) (hb : s.areaAt y = some b) (hap : a.isPrivate = false)
    (hbp : b.isPrivate = true) (he : s.pt x = some e) (he' : s.pt y = some e') :
    e'.ppn ≠ e.ppn := by
  intro heq
  rcases hs.mapped he with hx | ⟨k, a', ha'⟩ <;> rcases hs.mapped he' with hy | ⟨k', b', hb'⟩
  · have hsame := hs.apart x y e.ppn a b hx (heq ▸ hy) ha hb
    exact absurd (hap.symm.trans (hsame.trans hbp)) nofun
  · exact hs.ledger.not_cached hx (heq ▸ hb'.frame)
  · exact hs.ledger.not_cached hy (heq ▸ ha'.frame)
  · obtain rfl := Option.some.inj (ha.symm.trans ha'.area)
    obtain rfl := Option.some.inj (hb.symm.trans hb'.area)
    obtain rfl := hs.ledger.cache_inj ha'.frame (heq ▸ hb'.frame)
    -- the version of a private mapping has a generation, the shared one has none
    exact KeyFits.isPrivate_ne ha'.fits hb'.fits hap hbp

lemma Inv.framesIsolated (hs : Inv s) : FramesIsolated s := by
  intro x a e ha hp he _ hw y hyx
  apply hs.isolated ha hp he hw
  rintro rfl
  exact hyx rfl

lemma Inv.bytesIsolated (hs : Inv s) : BytesIsolated s := by
  intro x offset value y b e hyx hb hbp he
  unfold State.store
  split
  · rfl
  rename_i e' he'
  split
  swap
  · rfl
  rename_i haccess
  simp only [Bool.and_eq_true] at haccess
  apply Function.update_of_ne
  cases ha : s.areaAt x with
  | none => exact absurd (he'.symm.trans (hs.vacant_of_areaAt_none ha).2.2) nofun
  | some a =>
    cases hap : a.isPrivate with
    | true => exact (hs.framesIsolated x a e' ha hap he' haccess.1.1 haccess.1.2 y hyx).2 e he
    | false => exact hs.ppn_ne ha hb hap hbp he' he

/-- **Private memory is isolated** in every state of every run whose areas are accessible
where they are writable and do not overlap. -/
theorem cow_isolation (arch : Arch) {s : State} (h : (system arch).Reachable StepOk s) :
    FramesIsolated s ∧ BytesIsolated s :=
  ⟨(Inv.reachable h).framesIsolated, (Inv.reachable h).bytesIsolated⟩

/-- The state before the first process, with four frames. -/
def boot : State where
  areas _ := []
  pt _ := none
  dataFrames _ := none
  extPages _ := none
  cache _ := none
  pins _ := 0
  refs _ := 0
  free := [4, 5, 6, 7]
  bytes _ _ := 0

lemma boot_initial : boot.Initial :=
  ⟨fun _ => rfl, fun _ => rfl, fun _ => rfl, fun _ => rfl, fun _ => rfl, fun _ => rfl, fun _ => rfl,
    by decide⟩

def forkEnv : State.ForkEnv := ⟨fun _ => true, fun _ => true⟩

/-- Parent and child write to a page of the heap after a fork; the child goes through
`PROT_NONE` in between. -/
def heapTrace : List Event :=
  [.mapArea 0 .framedUser 0 1 fun _ _ => 0, .pageFault (0, 0) .write fun _ => 0, .store (0, 0) 0 1,
    .fork 0 1 forkEnv, .mprotect 1 0 ⟨false, false, false⟩, .mprotect 1 0 ⟨true, true, false⟩,
    .cowPageFault (1, 0), .store (1, 0) 0 2, .cowPageFault (0, 0), .store (0, 0) 0 3]

theorem cow_isolation_heapTrace : ∃ s, (system .riscv64).runWhile StepOk boot heapTrace = some s ∧
    s.bytes 4 0 = 3 ∧ s.bytes 5 0 = 2 ∧ FramesIsolated s ∧ BytesIsolated s := by
  have hrun : ((system .riscv64).runWhile StepOk boot heapTrace).map
      (fun s => (s.bytes 4 0, s.bytes 5 0)) = some (3, 2) := by decide
  obtain ⟨s, hreach, hs, hbytes⟩ := System.exists_reachable hrun boot_initial
  have hsafe := cow_isolation .riscv64 hreach
  exact ⟨s, hs, (Prod.mk.inj hbytes).1, (Prod.mk.inj hbytes).2, hsafe⟩

/-- A load segment with write permission only: at the fork its leaf loses the one permission
it has, so that the child gets the frame without a leaf. -/
def writeOnlyTrace : List Event :=
  [.mapArea 0 (.execSegment ⟨false, true, false⟩ none) 0 1 fun _ _ => 0,
    .pageFault (0, 0) .write fun _ => 0, .fork 0 1 forkEnv, .mprotect 1 0 ⟨true, true, false⟩]

/-- The child maps the frame of its parent writable, and its store reaches the parent. -/
theorem writeOnly_segment_shared :
    ∃ s, (system .loongarch64).runWhile System.anyStep boot writeOnlyTrace = some s ∧
      ¬ FramesIsolated s ∧ ¬ BytesIsolated s := by
  refine ⟨_, rfl, fun h => ?_, fun h => ?_⟩
  · exact (h (1, 0) _ _ rfl rfl rfl rfl rfl (0, 0) (by decide)).1 rfl
  · have hsame := congrFun (h (1, 0) 0 1 (0, 0) _ _ (by decide) rfl rfl rfl) 0
    exact absurd hsame (by decide)

end Whusp.Mm.Sharing
