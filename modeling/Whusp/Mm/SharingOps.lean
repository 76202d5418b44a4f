import Whusp.Lib.Transition
import Whusp.Mm.SharingInv

/-!
# The page operations keep the ownership invariant

One lemma for each way in which a page changes: it gets a fresh frame, shares the frame of
another page, refers to the page cache, is unshared by a write fault, changes its
permission, or is dropped; and from these the loops over the pages of an area.
-/

namespace Whusp.Mm.Sharing

open Function Option
open Whusp.Syscall (Arch PageTableEntry)
open Whusp.Lib (Byte Holders eq_update)

/-! ## Leaves -/

open PTEFlags

@[simp] lemma normalized_r (f : PTEFlags) : f.normalized.r = f.r := by
  unfold normalized
  split <;> rfl

@[simp] lemma normalized_w (f : PTEFlags) : f.normalized.w = f.w := by
  unfold normalized
  split <;> rfl

@[simp] lemma normalized_x (f : PTEFlags) : f.normalized.x = f.x := by
  unfold normalized
  split <;> rfl

@[simp] lemma normalized_cow (f : PTEFlags) : f.normalized.cow = f.cow := by
  unfold normalized
  split <;> rfl

variable {f : PTEFlags} {s : State} {x y : Page} {p : Nat} {vs : List Nat}

lemma newEntry_valid (arch : Arch) (ppn : Nat) (h : f.v = true) :
    (newEntry arch ppn f).valid = true := by
  cases arch with
  | riscv64 => exact h
  | loongarch64 => rfl

lemma newEntry_valid_of_leaf (arch : Arch) (ppn : Nat) (h : f.leaf = true) :
    (newEntry arch ppn f.normalized).valid = true := by
  apply newEntry_valid
  unfold normalized
  rw [if_pos h]

/-- Where write permission brings read or execute permission, an accessible area has one of
the two. -/
lemma readable_or_executable_of_leaf {perm : MapPermission}
    (hw : perm.w = true → (perm.r || perm.x) = true) (hleaf : (PTEFlags.ofPerm perm).leaf = true) :
    (perm.r || perm.x) = true := by
  unfold leaf ofPerm at hleaf
  cases hr : perm.r <;> cases hx : perm.x <;> simp_all

/-- The leaf of a page that has a frame of its own from the start. -/
lemma leafOk_fresh {a : Vma} (arch : Arch) (f : Nat) (h : a.Ok) :
    LeafOk a.perm 1 (if (PTEFlags.ofPerm a.perm).leaf = true then
      some (newEntry arch f (PTEFlags.ofPerm a.perm).normalized) else none) := by
  refine ⟨fun h2 => absurd h2 (by decide), fun hleaf => ?_, fun e he hw => ?_⟩
  · refine ⟨_, if_pos hleaf, newEntry_valid_of_leaf arch f hleaf, ?_⟩
    simpa [newEntry, ofPerm] using readable_or_executable_of_leaf h.access hleaf
  · obtain ⟨hleaf, rfl⟩ := of_guard he
    simpa [newEntry, ofPerm] using readable_or_executable_of_leaf h.access hleaf

namespace Inv

variable {s t : State} {x y : Page} {f : Nat} {a : Vma} {arch : Arch}

/-- The bytes and the order of the free frames do not matter to the invariant. -/
lemma of_bytes (hs : Inv s) (b : Nat → Nat → Byte) : Inv { s with bytes := b } :=
  ⟨hs.ledger.congr rfl rfl rfl rfl rfl rfl,
    fun x => (hs.pages x).congr rfl rfl rfl rfl rfl rfl, hs.apart, hs.areas, hs.disjoint⟩

lemma of_free (hs : Inv s) {l : List Nat} (h : l.Perm s.free) : Inv { s with free := l } :=
  ⟨⟨hs.ledger.owners, hs.ledger.cacheOnly, hs.ledger.pins, h.nodup_iff.mpr hs.ledger.freeNodup,
      fun f hf => hs.ledger.freeZero f (h.mem_iff.mp hf)⟩,
    fun x => (hs.pages x).congr rfl rfl rfl rfl rfl rfl, hs.apart, hs.areas, hs.disjoint⟩

variable {contents : Nat → Byte} {e : PageTableEntry}

theorem fresh (hs : Inv s) (halloc : s.frameAlloc contents = some (f, t))
    (hown : s.dataFrames x = none) (hpt : s.pt x = none) (ha : s.areaAt x = some a)
    (hkind : a.kind ≠ .shm) :
    Inv (t.mapExistingFrameWithFlags arch x f (PTEFlags.ofPerm a.perm)) := by
  have hledger := hs.ledger.alloc halloc
  obtain ⟨rest, hfree, rfl⟩ := Ledger.frameAlloc_eq_some halloc
  have hne : ∀ y g, s.dataFrames y = some g → g ≠ f := fun y g => hs.ledger.ne_of_free hfree
  unfold State.mapExistingFrameWithFlags
  simp only [hown, hpt, isSome_none, Bool.or_self, Bool.false_eq_true, if_false]
  refine hs.setOwned rfl rfl rfl (eq_update (hs.ext_none hpt)) rfl
    (hledger.give hown rfl rfl hs.ledger.pins rfl rfl) (fun y _ g hg => ?_)
    ha hkind (fun e he => ?_)
    (fun _ => ?_) fun y _ hy => absurd rfl (hne y f hy)
  · exact .inl (le_of_eq (update_of_ne (hne y g hg) ..))
  · obtain ⟨-, rfl⟩ := of_guard he
    rfl
  · have hleaf := leafOk_fresh arch f (hs.areaOk ha)
    simpa [State.publishFrame] using hleaf

/-- A page that already has a frame of its own gets another leaf. -/
lemma setPte_owned (hs : Inv s) (hown : s.dataFrames x = some f) (ha : s.areaAt x = some a)
    (hppn : e.ppn = f) (hleaf : a.isPrivate = true → LeafOk a.perm (s.refs f) (some e)) :
    Inv (s.setPte x (some e)) := by
  obtain ⟨b, hb⟩ := (hs.pages x).owned f hown
  obtain rfl := some.inj (ha.symm.trans hb.area)
  refine hs.setOwned rfl rfl (eq_update hown) (eq_update hb.ext) rfl
    (hs.ledger.congr rfl rfl rfl rfl rfl rfl) (fun y _ g _ => .inl (le_refl _)) ha hb.kind
    (fun e' he' => ?_) hleaf fun y _ hy c hc => hs.apart x y f a c hown hy ha hc
  cases he'
  exact hppn

/-! ## Pages of the cache and of segments -/

/-- **A reference** to a page of the cache or of a segment, for an empty page. -/
theorem mapExt (hs : Inv s) {k : Key} {ppn : Nat} {flags : PTEFlags} (hv : s.vacant x = true)
    (ha : s.areaAt x = some a) (hfits : KeyFits k a.kind) (hframe : s.cache k = some ppn)
    (hro : a.isPrivate = true → flags.w = false) : Inv (s.mapExtFrame arch x k ppn flags) := by
  unfold State.vacant at hv
  simp only [Bool.and_eq_true, isNone_iff_eq_none] at hv
  obtain ⟨⟨hown, hext⟩, -⟩ := hv
  refine hs.setExt rfl rfl rfl rfl rfl ?_ rfl ha hfits hown hframe fun hp => ?_
  · exact { hs.ledger with pins := Holders.insert_all hs.ledger.pins hext k }
  · show flags.normalized.w = false
    rw [normalized_w]
    exact hro hp

/-- The leaf of a cached page starts read-only. -/
lemma cacheFlags_w {info : MmapKind} (hok : a.Ok) (hkind : a.kind = .mmap info) :
    (State.cacheFlags a info).w = false := by
  obtain ⟨hw, -⟩ := hok.mmap info hkind
  unfold State.cacheFlags
  split
  · rfl
  rename_i hwritable
  show a.perm.w = false
  rw [← hw]
  simpa using hwritable

section

variable (hs : Inv s)
include hs

lemma pageCacheFault (access : MmapFaultAccess) (page generation : Nat) :
    Inv (s.pageCacheFault arch x access page generation) := by
  unfold State.pageCacheFault
  split
  · exact hs
  rename_i ha
  split
  swap
  · exact hs
  rename_i info hkind
  split
  · exact hs
  rename_i hid
  dsimp only
  split
  · exact hs
  rename_i hguard
  split
  · exact hs
  rename_i hframe
  apply hs.mapExt (by simpa using (not_or.mp (not_or.mp hguard).2).2) ha _ hframe
  · exact fun _ => cacheFlags_w (hs.areaOk ha) hkind
  · rw [hkind]
    exact ⟨hid, by cases info.shared <;> rfl⟩

lemma shmMap (shmid index : Nat) : Inv (s.shmMap arch x shmid index) := by
  unfold State.shmMap
  split
  · exact hs
  rename_i a ha
  split
  · exact hs
  rename_i hguard
  obtain ⟨hkind, hv⟩ := not_or.mp hguard
  have hshm : a.kind = .shm := Decidable.not_not.mp hkind
  split
  · exact hs
  rename_i hframe
  apply hs.mapExt (by simpa using hv) ha _ hframe
  · intro hp
    unfold Vma.isPrivate at hp
    simp [hshm] at hp
  · rw [hshm]
    trivial

lemma sharedWriteFault : Inv (s.sharedWriteFault arch x) := by
  unfold State.sharedWriteFault
  split
  swap
  · exact hs
  rename_i ha he
  split
  swap
  · exact hs
  rename_i hkind
  split
  swap
  · exact hs
  rename_i hguard
  simp only [Bool.and_eq_true] at hguard
  obtain ⟨⟨⟨-, hshared⟩, -⟩, hsome⟩ := hguard
  obtain ⟨k, hk⟩ := isSome_iff_exists.mp hsome
  obtain ⟨b, e', hb⟩ := (hs.pages x).ext k hk
  obtain rfl := some.inj (ha.symm.trans hb.area)
  obtain rfl := some.inj (he.symm.trans hb.pte)
  refine hs.setExt rfl rfl rfl (eq_update hk) rfl (hs.ledger.congr rfl rfl rfl rfl rfl rfl) rfl
    ha hb.fits hb.own hb.frame fun hp => ?_
  unfold Vma.isPrivate at hp
  rw [hkind] at hp
  simp only [hshared, Bool.not_true, Bool.false_eq_true] at hp

/-! ## Faults on pages with a frame of their own -/

lemma pageFault (access : MmapFaultAccess) (contents : Nat → Byte) :
    Inv (s.pageFault arch x access contents) := by
  unfold State.pageFault
  split
  · exact hs
  rename_i ha
  split
  · exact hs
  rename_i hguard
  split
  · exact hs
  rename_i habsent
  simp only [Bool.or_eq_true, not_or, not_isSome_iff_eq_none] at habsent
  split
  · exact hs
  rename_i halloc
  exact hs.fresh halloc habsent.2 habsent.1 ha (not_or.mp hguard).1

/-- The page has the only reference to its frame: it is writable again. -/
lemma restoreWrite (he : s.pt x = some e) (ha : s.areaAt x = some a)
    (hown : s.dataFrames x = some f) (hw : a.perm.w = true) (hone : s.refs f = 1)
    (hvalid : e.valid = true) :
    Inv (s.setPte x (some (newEntry arch e.ppn (PTEFlags.ofEntry e).toWritable))) := by
  obtain ⟨b, hb⟩ := (hs.pages x).owned f hown
  obtain rfl := some.inj (ha.symm.trans hb.area)
  refine hs.setPte_owned hown ha (hb.ppn e he) fun hp => ?_
  have hrx : (e.readable || e.executable) = true := by
    obtain ⟨e', he', -, hrx⟩ := (hb.leaf hp).leaf (by simp [leaf, ofPerm, hw])
    rwa [some.inj (he.symm.trans he')]
  refine ⟨fun htwo => by omega, fun _ => ⟨_, rfl, newEntry_valid _ _ hvalid, hrx⟩,
    fun e' he' _ => ?_⟩
  cases he'
  exact hrx

/-- The frame has other owners: the page gets a copy of it. -/
lemma copyOnWrite {old : Nat} (halloc : s.frameAlloc contents = some (f, t))
    (he : s.pt x = some e) (ha : s.areaAt x = some a) (hown : s.dataFrames x = some old)
    (hw : a.perm.w = true) :
    Inv (State.frameDealloc { t with
      pt := update t.pt x
        (some (newEntry arch f (PTEFlags.ofEntry e).toWritable.normalized))
      dataFrames := update t.dataFrames x (some f) } old) := by
  obtain ⟨b, hb⟩ := (hs.pages x).owned old hown
  obtain rfl := some.inj (ha.symm.trans hb.area)
  obtain ⟨rest, hfree, rfl⟩ := Ledger.frameAlloc_eq_some halloc
  have hne : ∀ y g, s.dataFrames y = some g → g ≠ f := fun y g => hs.ledger.ne_of_free hfree
  have hold : old ≠ f := hne x old hown
  have hledger := (hs.ledger.alloc halloc).swap (t := { s with
      pt := update s.pt x
        (some (newEntry arch f (ofEntry e).toWritable.normalized))
      dataFrames := update s.dataFrames x (some f)
      free := rest
      refs := update s.refs f 1
      bytes := update s.bytes f contents }) hown rfl rfl rfl rfl rfl rfl
  refine hs.setOwned rfl rfl rfl (eq_update hb.ext) rfl
    (hledger.dealloc fun k => hs.ledger.not_cached hown) (fun y _ g hg => .inl ?_) ha hb.kind
    (fun e' he' => ?_) (fun hp => ?_) fun y _ hy => absurd rfl (hne y f hy)
  · exact (Ledger.frameDealloc_refs_le ..).trans
      (le_of_eq (update_of_ne (hne y g hg) ..))
  · cases he'
    rfl
  have hrx : (e.readable || e.executable) = true := by
    obtain ⟨e', he', -, hrx⟩ := (hb.leaf hp).leaf (by simp [leaf, ofPerm, hw])
    rwa [some.inj (he.symm.trans he')]
  refine LeafOk.of_eq (m := 1) ⟨fun htwo => absurd htwo (by decide), fun _ =>
    ⟨_, rfl, newEntry_valid_of_leaf _ _ ?_, ?_⟩, fun e' he' _ => ?_⟩ ?_
  · simp [leaf, toWritable]
  · simpa [newEntry, toWritable, ofEntry] using hrx
  · cases he'
    simpa [newEntry, toWritable, ofEntry] using hrx
  · exact (Ledger.frameDealloc_refs_of_ne hold.symm).trans (update_self ..)

lemma resolveCowPageFault : Inv (s.resolveCowPageFault arch x) := by
  unfold State.resolveCowPageFault
  split
  swap
  · exact hs
  rename_i e a old he ha hown
  split
  · exact hs
  rename_i hguard
  simp only [not_or, Bool.not_eq_true, Bool.not_eq_false] at hguard
  obtain ⟨hvalid, -, hcow, hw⟩ := hguard
  split
  next hone =>
    unfold restoreWriteClearCow
    rw [if_neg (by simp [hvalid, hcow])]
    obtain ⟨b, hb⟩ := (hs.pages x).owned old hown
    exact hs.restoreWrite he ha hown hw (hb.ppn e he ▸ hone) hvalid
  · split
    · exact hs
    next halloc =>
      exact hs.copyOnWrite halloc he ha hown hw

/-! ## Dropping pages -/

lemma dropPage (x : Page) : Inv (s.dropPage x) := by
  unfold State.dropPage
  split
  next f hown =>
    obtain ⟨a, ha⟩ := (hs.pages x).owned f hown
    have hledger := hs.ledger.take (t := { s with
      pt := update s.pt x none
      dataFrames := update s.dataFrames x none }) hown rfl rfl rfl rfl rfl rfl
    exact hs.clearPage rfl rfl rfl (eq_update ha.ext) rfl
      (hledger.dealloc fun k => hs.ledger.not_cached hown) fun g => Ledger.frameDealloc_refs_le ..
  next hown =>
    split
    next hext =>
      refine hs.clearPage rfl rfl (eq_update hown) rfl rfl ?_ fun g => le_refl _
      exact { hs.ledger with pins := Holders.erase_all hs.ledger.pins hext }
    · exact hs

end

end Inv

/-- The page has neither a frame of its own nor a reference to the cache. -/
def Unused (s : State) (x : Page) : Prop := s.dataFrames x = none ∧ s.extPages x = none

lemma Unused.pt (h : Unused s x) (hs : Inv s) : s.pt x = none :=
  (hs.pages x).vacant h.1 h.2

lemma unused_dropPage_self (hs : Inv s) (x : Page) : Unused (s.dropPage x) x := by
  unfold State.dropPage
  split
  next f hown =>
    obtain ⟨a, ha⟩ := (hs.pages x).owned f hown
    exact ⟨update_self .., ha.ext⟩
  next hown =>
    split
    · exact ⟨hown, update_self ..⟩
    next hext =>
      exact ⟨hown, hext⟩

lemma Unused.dropPage (h : Unused s y) : Unused (s.dropPage x) y := by
  unfold State.dropPage
  rcases eq_or_ne y x with rfl | hne
  · rw [h.1, h.2]
    exact h
  split
  · exact ⟨(update_of_ne hne ..).trans h.1, h.2⟩
  · split
    · exact ⟨h.1, (update_of_ne hne ..).trans h.2⟩
    · exact h

lemma dropPage_areas (s : State) (x : Page) : (s.dropPage x).areas = s.areas := by
  unfold State.dropPage
  split
  · rfl
  · split <;> rfl

lemma dropPages_areas (s : State) (p : Nat) (vs : List Nat) :
    (s.dropPages p vs).areas = s.areas := by
  induction vs generalizing s with
  | nil => rfl
  | cons v vs ih => exact (ih _).trans (dropPage_areas s (p, v))

lemma Unused.dropPages (h : Unused s y) : Unused (s.dropPages p vs) y := by
  induction vs generalizing s with
  | nil => exact h
  | cons v vs ih => exact ih h.dropPage

lemma Inv.dropPages (hs : Inv s) (p : Nat) (vs : List Nat) : Inv (s.dropPages p vs) := by
  induction vs generalizing s with
  | nil => exact hs
  | cons v vs ih => exact ih (hs.dropPage (p, v))

/-- **The loop empties the pages** that it visits. -/
theorem unused_dropPages (hs : Inv s) {v : Nat} (hv : v ∈ vs) :
    Unused (s.dropPages p vs) (p, v) := by
  induction vs generalizing s with
  | nil => cases hv
  | cons w vs ih =>
    rcases List.mem_cons.mp hv with rfl | hv
    · exact (unused_dropPage_self hs (p, v)).dropPages
    · exact ih (hs.dropPage (p, w)) hv

end Whusp.Mm.Sharing
