import Whusp.Mm.Sharing

/-!
# Ownership invariant of shared frames

Every frame's reference count is the number of its owners: the pages that own it, the page
cache, and the `FrameTracker`s that an operation has in hand.  A private page whose frame
has a second owner is mapped copy-on-write and not writable; in particular its leaf is never
empty, which is what keeps a later `mprotect` from mapping it writable.
-/

namespace Whusp.Mm.Sharing

open Function List Option
open Whusp.Syscall (Arch PageTableEntry)
open Whusp.Lib (Byte Holders)

/-! ## Reference counts -/

/-- The reference counts, while the frames in `hand` are held by a running operation. -/
structure Ledger (s : State) (hand : List Nat) : Prop where
  owners : ∀ f, ∃ n c, Holders s.dataFrames f n ∧ Holders s.cache f c ∧
    s.refs f = n + c + hand.count f
  cacheOnly : ∀ k f, s.cache k = some f → s.refs f = 1
  pins : ∀ k, Holders s.extPages k (s.pins k)
  freeNodup : s.free.Nodup
  freeZero : ∀ f ∈ s.free, s.refs f = 0

namespace Ledger

variable {s t : State} {hand : List Nat} {x y : Page} {f g : Nat} {k : Key}

section

variable (h : Ledger s hand) (hx : s.dataFrames x = some f)
include h hx

lemma refs_pos : 0 < s.refs f := by
  obtain ⟨n, c, hn, -, heq⟩ := h.owners f
  have := hn.pos hx
  omega

lemma not_cached : s.cache k ≠ some f := by
  intro hk
  obtain ⟨n, c, hn, hc, heq⟩ := h.owners f
  have h1 := hn.pos hx
  have h2 := hc.pos hk
  have h3 := h.cacheOnly k f hk
  omega

end

/-- A frame with one reference is owned by one page. -/
lemma eq_of_refs_le_one (h : Ledger s hand) (hf : s.refs f ≤ 1) (hx : s.dataFrames x = some f)
    (hy : s.dataFrames y = some f) : x = y := by
  obtain ⟨n, c, hn, -, heq⟩ := h.owners f
  exact hn.eq_of_le_one (by omega) hx hy

lemma cache_inj {k' : Key} (h : Ledger s hand) (hk : s.cache k = some f)
    (hk' : s.cache k' = some f) : k = k' := by
  obtain ⟨n, c, -, hc, heq⟩ := h.owners f
  have := h.cacheOnly k f hk
  exact hc.eq_of_le_one (by omega) hk hk'

/-- Two states with the same owners and counts. -/
lemma congr (h : Ledger s hand) (hd : t.dataFrames = s.dataFrames) (hc : t.cache = s.cache)
    (he : t.extPages = s.extPages) (hp : t.pins = s.pins) (hr : t.refs = s.refs)
    (hf : t.free = s.free) : Ledger t hand where
  owners := by
    rw [hd, hc, hr]
    exact h.owners
  cacheOnly := by
    rw [hc, hr]
    exact h.cacheOnly
  pins := by
    rw [he, hp]
    exact h.pins
  freeNodup := hf ▸ h.freeNodup
  freeZero := by
    rw [hf, hr]
    exact h.freeZero

variable {contents : Nat → Byte} {rest : List Nat}

lemma frameAlloc_eq_some (h : s.frameAlloc contents = some (f, t)) :
    ∃ rest, s.free = f :: rest ∧ t = { s with
      free := rest
      refs := update s.refs f 1
      bytes := update s.bytes f contents } := by
  unfold State.frameAlloc at h
  split at h
  · cases h
  next rest hfree =>
    cases h
    exact ⟨rest, hfree, rfl⟩

section

variable (h : Ledger s hand)
include h

lemma refs_of_free (hfree : s.free = f :: rest) :
    s.refs f = 0 := h.freeZero f (hfree ▸ mem_cons_self)

lemma ne_of_free (hfree : s.free = f :: rest) (hx : s.dataFrames x = some g) :
    g ≠ f := by
  rintro rfl
  have := h.refs_pos hx
  have := h.refs_of_free hfree
  omega

/-- **Allocation**: a free frame comes into the hand. -/
theorem alloc (ha : s.frameAlloc contents = some (f, t)) :
    Ledger t (f :: hand) := by
  obtain ⟨rest, hfree, rfl⟩ := frameAlloc_eq_some ha
  have hzero := h.refs_of_free hfree
  have hnodup := nodup_cons.mp (hfree ▸ h.freeNodup)
  refine ⟨fun g => ?_, fun k g hk => ?_, h.pins, hnodup.2, fun g hg => ?_⟩
  · obtain ⟨n, c, hn, hc, heq⟩ := h.owners g
    refine ⟨n, c, hn, hc, ?_⟩
    show update s.refs f 1 g = _
    rw [update_apply, count_cons]
    split
    next hg =>
      subst hg
      simp only [beq_self_eq_true, if_true]
      omega
    next hg =>
      rw [if_neg (by simpa using Ne.symm hg)]
      exact heq
  · show update s.refs f 1 g = 1
    have hone := h.cacheOnly k g hk
    rw [update_of_ne (by rintro rfl; omega)]
    exact hone
  · show update s.refs f 1 g = 0
    rw [update_of_ne (by rintro rfl; exact hnodup.1 hg)]
    exact h.freeZero g (hfree ▸ mem_cons_of_mem _ hg)

/-- **Retaining**: one more owner of a page's frame comes into the hand. -/
theorem retain (hx : s.dataFrames x = some f) :
    Ledger { s with refs := update s.refs f (s.refs f + 1) } (f :: hand) := by
  have hpos := h.refs_pos hx
  refine ⟨fun g => ?_, fun k g hk => ?_, h.pins, h.freeNodup, fun g hg => ?_⟩
  · obtain ⟨n, c, hn, hc, heq⟩ := h.owners g
    refine ⟨n, c, hn, hc, ?_⟩
    show update s.refs f _ g = _
    rw [update_apply, count_cons]
    split
    next hg =>
      subst hg
      simp only [beq_self_eq_true, if_true]
      omega
    next hg =>
      rw [if_neg (by simpa using Ne.symm hg)]
      exact heq
  · show update s.refs f _ g = 1
    rw [update_of_ne (by rintro rfl; exact h.not_cached hx hk)]
    exact h.cacheOnly k g hk
  · show update s.refs f _ g = 0
    have hzero := h.freeZero g hg
    rw [update_of_ne (by rintro rfl; omega)]
    exact hzero

end

/-- **Release**: a frame leaves the hand, and is free when it was the last owner. -/
theorem dealloc (h : Ledger s (f :: hand)) (hk : ∀ k, s.cache k ≠ some f) :
    Ledger (s.frameDealloc f) hand := by
  refine ⟨fun g => ?_, fun k g hg => ?_, h.pins, ?_, ?_⟩
  · obtain ⟨n', c', hn', hc', heq'⟩ := h.owners g
    refine ⟨n', c', hn', hc', ?_⟩
    show update s.refs f _ g = _
    rw [update_apply]
    rw [count_cons] at heq'
    split
    next hg =>
      subst hg
      simp only [beq_self_eq_true, if_true] at heq'
      omega
    next hg =>
      rwa [if_neg (by simpa using Ne.symm hg)] at heq'
  · show update s.refs f _ g = 1
    rw [update_of_ne (by rintro rfl; exact hk k hg)]
    exact h.cacheOnly k g hg
  · show (if s.refs f = 1 then f :: s.free else s.free).Nodup
    split
    · refine nodup_cons.mpr ⟨fun hm => ?_, h.freeNodup⟩
      have := h.freeZero f hm
      omega
    · exact h.freeNodup
  · intro g hg
    show update s.refs f _ g = 0
    have hfree : g ∈ (if s.refs f = 1 then f :: s.free else s.free) := hg
    rw [update_apply]
    split at hfree
    · split
      · omega
      next hne =>
        exact h.freeZero g ((mem_cons.mp hfree).resolve_left hne)
    · have hzero := h.freeZero g hfree
      split
      next hg =>
        subst hg
        omega
      · exact hzero

lemma frameDealloc_refs_le (s : State) (f g : Nat) : (s.frameDealloc f).refs g ≤ s.refs g := by
  show update s.refs f (s.refs f - 1) g ≤ s.refs g
  rcases eq_or_ne g f with rfl | hne
  · simp
  · rw [update_of_ne hne]

lemma frameDealloc_refs_of_ne (hne : g ≠ f) : (s.frameDealloc f).refs g = s.refs g :=
  update_of_ne hne ..

/-- A frame in hand becomes the frame of a page. -/
lemma give (h : Ledger s (f :: hand)) (hx : s.dataFrames x = none)
    (hd : t.dataFrames = update s.dataFrames x (some f)) (hc : t.cache = s.cache)
    (he : ∀ k, Holders t.extPages k (t.pins k)) (hr : t.refs = s.refs) (hf : t.free = s.free) :
    Ledger t hand where
  owners g := by
    obtain ⟨n, c, hn, hc', heq⟩ := h.owners g
    rw [count_cons] at heq
    rw [hd, hc, hr]
    rcases eq_or_ne g f with rfl | hne
    · refine ⟨n + 1, c, hn.insert (by rw [hx]; exact nofun), hc', ?_⟩
      simp only [beq_self_eq_true, if_true] at heq
      omega
    · refine ⟨n, c, hn.other (by rw [hx]; exact nofun) (by simpa using Ne.symm hne), hc', ?_⟩
      rwa [if_neg (by simpa using Ne.symm hne)] at heq
  cacheOnly := by
    rw [hc, hr]
    exact h.cacheOnly
  pins := he
  freeNodup := hf ▸ h.freeNodup
  freeZero := by
    rw [hf, hr]
    exact h.freeZero

/-- The frame of a page comes into the hand. -/
lemma take (h : Ledger s hand) (hx : s.dataFrames x = some f)
    (hd : t.dataFrames = update s.dataFrames x none) (hc : t.cache = s.cache)
    (he : t.extPages = s.extPages) (hp : t.pins = s.pins) (hr : t.refs = s.refs)
    (hf : t.free = s.free) : Ledger t (f :: hand) where
  owners g := by
    obtain ⟨n, c, hn, hc', heq⟩ := h.owners g
    rw [count_cons, hd, hc, hr]
    rcases eq_or_ne g f with rfl | hne
    · refine ⟨n - 1, c, hn.erase hx nofun, hc', ?_⟩
      have := hn.pos hx
      simp only [beq_self_eq_true, if_true]
      omega
    · refine ⟨n, c, hn.other (by rw [hx]; simpa using Ne.symm hne) nofun, hc', ?_⟩
      rw [if_neg (by simpa using Ne.symm hne)]
      exact heq
  cacheOnly := by
    rw [hc, hr]
    exact h.cacheOnly
  pins := by
    rw [he, hp]
    exact h.pins
  freeNodup := hf ▸ h.freeNodup
  freeZero := by
    rw [hf, hr]
    exact h.freeZero

/-- A page exchanges its frame for one in hand. -/
lemma swap (h : Ledger s (f :: hand)) (hx : s.dataFrames x = some g)
    (hd : t.dataFrames = update s.dataFrames x (some f)) (hc : t.cache = s.cache)
    (he : t.extPages = s.extPages) (hp : t.pins = s.pins) (hr : t.refs = s.refs)
    (hf : t.free = s.free) : Ledger t (g :: hand) := by
  have htaken : Ledger { s with dataFrames := update s.dataFrames x none }
      (g :: f :: hand) := h.take hx rfl rfl rfl rfl rfl rfl
  have hperm : Ledger { s with dataFrames := update s.dataFrames x none }
      (f :: g :: hand) := by
    refine { htaken with owners := fun i => ?_ }
    rw [(List.Perm.swap g f hand).count_eq]
    exact htaken.owners i
  apply hperm.give (update_self ..) _ hc _ hr hf
  · rw [hd, update_idem]
  · rw [he, hp]
    exact h.pins

lemma giveCache (h : Ledger s (f :: hand)) (hk : s.cache k = none) (hone : s.refs f = 1) :
    Ledger { s with cache := update s.cache k (some f) } hand := by
  refine ⟨fun g => ?_, fun k' g hg => ?_, h.pins, h.freeNodup, h.freeZero⟩
  · obtain ⟨n, c, hn, hc, heq⟩ := h.owners g
    rw [count_cons] at heq
    rcases eq_or_ne g f with rfl | hne
    · refine ⟨n, c + 1, hn, hc.insert (by rw [hk]; exact nofun), ?_⟩
      simp only [beq_self_eq_true, if_true] at heq
      show s.refs g = _
      omega
    · refine ⟨n, c, hn, hc.other (by rw [hk]; exact nofun) (by simpa using Ne.symm hne), ?_⟩
      rwa [if_neg (by simpa using Ne.symm hne)] at heq
  · have hg : update s.cache k (some f) k' = some g := hg
    rcases eq_or_ne k' k with rfl | hne
    · rw [update_self] at hg
      cases hg
      exact hone
    · rw [update_of_ne hne] at hg
      exact h.cacheOnly k' g hg

lemma takeCache (h : Ledger s hand) (hk : s.cache k = some f) :
    Ledger { s with cache := update s.cache k none } (f :: hand) := by
  refine ⟨fun g => ?_, fun k' g hg => ?_, h.pins, h.freeNodup, h.freeZero⟩
  · obtain ⟨n, c, hn, hc, heq⟩ := h.owners g
    rw [count_cons]
    rcases eq_or_ne g f with rfl | hne
    · refine ⟨n, c - 1, hn, hc.erase hk nofun, ?_⟩
      have hpos := hc.pos hk
      simp only [beq_self_eq_true, if_true]
      omega
    · refine ⟨n, c, hn, hc.other (by rw [hk]; simpa using Ne.symm hne) nofun, ?_⟩
      rw [if_neg (by simpa using Ne.symm hne)]
      exact heq
  · have hg : update s.cache k none k' = some g := hg
    rcases eq_or_ne k' k with rfl | hne
    · simp [update_self] at hg
    · rw [update_of_ne hne] at hg
      exact h.cacheOnly k' g hg

end Ledger

/-! ## Pages -/

/-- The leaf of a private page whose frame has `n` owners: shared frames are mapped
copy-on-write and not writable, accessible areas have valid leaves, and a writable leaf
is readable or executable. -/
structure LeafOk (perm : MapPermission) (n : Nat) (pte : Option PageTableEntry) : Prop where
  cow : 2 ≤ n → ∃ e, pte = some e ∧ e.cow = true ∧ e.writable = false
  leaf : (PTEFlags.ofPerm perm).leaf = true →
    ∃ e, pte = some e ∧ e.valid = true ∧ (e.readable || e.executable) = true
  access : ∀ e, pte = some e → e.writable = true → (e.readable || e.executable) = true

lemma LeafOk.of_eq {perm : MapPermission} {m n : Nat} {pte : Option PageTableEntry}
    (h : LeafOk perm m pte) (hn : n = m) : LeafOk perm n pte := hn ▸ h

/-- Private mappings hold versioned file pages, shared ones the shared version, and
attached segments their own pages. -/
def KeyFits : Key → AreaKind → Prop
  | .file id _ generation, .mmap info =>
    info.pageCacheId = some id ∧ info.shared = generation.isNone
  | .segment _ _, .shm => True
  | _, _ => False

structure OwnPage (s : State) (x : Page) (f : Nat) (a : Vma) : Prop where
  area : s.areaAt x = some a
  kind : a.kind ≠ .shm
  ext : s.extPages x = none
  ppn : ∀ e, s.pt x = some e → e.ppn = f
  leaf : a.isPrivate = true → LeafOk a.perm (s.refs f) (s.pt x)

structure ExtPage (s : State) (x : Page) (k : Key) (a : Vma) (e : PageTableEntry) : Prop where
  area : s.areaAt x = some a
  fits : KeyFits k a.kind
  own : s.dataFrames x = none
  pte : s.pt x = some e
  frame : s.cache k = some e.ppn
  readOnly : a.isPrivate = true → e.writable = false

structure PageOk (s : State) (x : Page) : Prop where
  owned : ∀ f, s.dataFrames x = some f → ∃ a, OwnPage s x f a
  ext : ∀ k, s.extPages x = some k → ∃ a e, ExtPage s x k a e
  vacant : s.dataFrames x = none → s.extPages x = none → s.pt x = none

variable {s : State} {l : List Vma}

lemma PageOk.congr {t : State} {x : Page} (h : PageOk s x) (ha : t.areaAt x = s.areaAt x)
    (hd : t.dataFrames x = s.dataFrames x) (he : t.extPages x = s.extPages x)
    (hp : t.pt x = s.pt x) (hc : t.cache = s.cache) (hr : t.refs = s.refs) : PageOk t x := by
  refine ⟨fun f hf => ?_, fun k hk => ?_, ?_⟩
  · obtain ⟨a, hown⟩ := h.owned f (hd ▸ hf)
    refine ⟨a, ha.trans hown.area, hown.kind, he.trans hown.ext, hp ▸ hown.ppn, fun hpriv => ?_⟩
    rw [hr, hp]
    exact hown.leaf hpriv
  · obtain ⟨a, e, hext⟩ := h.ext k (he ▸ hk)
    exact ⟨a, e, ha.trans hext.area, hext.fits, hd.trans hext.own, hp.trans hext.pte,
      hc ▸ hext.frame, hext.readOnly⟩
  · rw [hd, he, hp]
    exact h.vacant

/-- What the callers promise of an area, and `remap_permission` keeps. -/
structure Vma.Ok (a : Vma) : Prop where
  access : a.perm.w = true → (a.perm.r || a.perm.x) = true
  user : a.perm.u = true ∨ a.kind = .framed ∧ a.perm.w = true
  mmap : ∀ info, a.kind = .mmap info → info.writable = a.perm.w ∧ a.perm.u = true

/-- No page is in both areas. -/
def Vma.Apart (a b : Vma) : Prop := ∀ v, ¬ (a.contains v = true ∧ b.contains v = true)

structure Inv (s : State) : Prop where
  ledger : Ledger s []
  pages : ∀ x, PageOk s x
  /-- Private and shared pages have no frames in common. -/
  apart : ∀ x y f a b, s.dataFrames x = some f → s.dataFrames y = some f → s.areaAt x = some a →
    s.areaAt y = some b → a.isPrivate = b.isPrivate
  areas : ∀ p, ∀ a ∈ s.areas p, a.Ok
  disjoint : ∀ p, (s.areas p).Pairwise Vma.Apart

/-- In areas that do not overlap, the area of a page is found wherever it stands. -/
lemma find_contains {a : Vma} {v : Nat} (hd : l.Pairwise Vma.Apart) (ha : a ∈ l)
    (hv : a.contains v = true) : l.find? (fun a => a.contains v) = some a := by
  induction l with
  | nil => cases ha
  | cons b rest ih =>
    obtain ⟨hhead, hrest⟩ := pairwise_cons.mp hd
    rcases mem_cons.mp ha with rfl | ha
    · exact find?_cons_of_pos hv
    · have hb : ¬ b.contains v = true := fun hb => hhead a ha v ⟨hb, hv⟩
      rw [find?_cons_of_neg (p := fun a : Vma => a.contains v) hb]
      exact ih hrest ha

@[simp] lemma setAreas_areas_self (s : State) (p : Nat) (l : List Vma) :
    (s.setAreas p l).areas p = l := update_self ..

lemma setAreas_areas_of_ne {p q : Nat} (h : q ≠ p) :
    (s.setAreas p l).areas q = s.areas q := update_of_ne h ..

namespace Inv

variable {s t : State} {x y : Page} {f : Nat}
variable {a : Vma} {p : Nat} {e : PageTableEntry}

lemma areaAt_of_mem (hs : Inv s) {v : Nat} (ha : a ∈ s.areas p) (hv : a.contains v = true) :
    s.areaAt (p, v) = some a :=
  find_contains (hs.disjoint p) ha hv

lemma mem_of_areaAt (h : s.areaAt x = some a) : a ∈ s.areas x.1 ∧ a.contains x.2 = true :=
  ⟨mem_of_find?_eq_some h, find?_some (p := fun a : Vma => a.contains x.2) h⟩

section

variable (hs : Inv s)
include hs

lemma areaOk (h : s.areaAt x = some a) : a.Ok :=
  hs.areas x.1 a (mem_of_areaAt h).1

/-- A page without a leaf or frame has no cached page either. -/
lemma ext_none (hpt : s.pt x = none) : s.extPages x = none := by
  cases hk : s.extPages x with
  | none => rfl
  | some k =>
    obtain ⟨a, e, hx⟩ := (hs.pages x).ext k hk
    exact absurd (hpt.symm.trans hx.pte) nofun

/-- A page outside every area is empty. -/
lemma vacant_of_areaAt_none (h : s.areaAt x = none) :
    s.dataFrames x = none ∧ s.extPages x = none ∧ s.pt x = none := by
  have hown : s.dataFrames x = none := by
    cases hf : s.dataFrames x with
    | none => rfl
    | some f =>
      obtain ⟨a, ha⟩ := (hs.pages x).owned f hf
      exact absurd (h.symm.trans ha.area) nofun
  have hext : s.extPages x = none := by
    cases hk : s.extPages x with
    | none => rfl
    | some k =>
      obtain ⟨a, e, ha⟩ := (hs.pages x).ext k hk
      exact absurd (h.symm.trans ha.area) nofun
  exact ⟨hown, hext, (hs.pages x).vacant hown hext⟩

/-- A page that is mapped has a frame of its own, or refers to the cache. -/
lemma mapped (he : s.pt x = some e) :
    s.dataFrames x = some e.ppn ∨ ∃ k a, ExtPage s x k a e := by
  cases hf : s.dataFrames x with
  | some f =>
    obtain ⟨a, ha⟩ := (hs.pages x).owned f hf
    exact .inl (congrArg some (ha.ppn e he).symm)
  | none =>
    cases hk : s.extPages x with
    | none => exact absurd (he.symm.trans ((hs.pages x).vacant hf hk)) nofun
    | some k =>
      obtain ⟨a, e', ha⟩ := (hs.pages x).ext k hk
      obtain rfl := some.inj (he.symm.trans ha.pte)
      exact .inr ⟨k, a, ha⟩

/-- **Isolation**: the frame of a writable private page is owned by that page only, and no
other page maps it. -/
theorem isolated (ha : s.areaAt x = some a) (hp : a.isPrivate = true)
    (he : s.pt x = some e) (hw : e.writable = true) (hxy : y ≠ x) :
    s.dataFrames y ≠ some e.ppn ∧ ∀ e', s.pt y = some e' → e'.ppn ≠ e.ppn := by
  -- the page has a frame of its own, because cached private pages are read-only
  have hown : s.dataFrames x = some e.ppn := by
    rcases hs.mapped he with hown | ⟨k, b, hb⟩
    · exact hown
    · obtain rfl := some.inj (ha.symm.trans hb.area)
      exact absurd (hw.symm.trans (hb.readOnly hp)) nofun
  obtain ⟨b, hb⟩ := (hs.pages x).owned _ hown
  obtain rfl := some.inj (ha.symm.trans hb.area)
  have hone : s.refs e.ppn ≤ 1 := by
    apply Nat.not_lt.mp
    intro htwo
    obtain ⟨e', he', -, hw'⟩ := (hb.leaf hp).cow htwo
    obtain rfl := some.inj (he.symm.trans he')
    exact absurd (hw.symm.trans hw') nofun
  have hnot : s.dataFrames y ≠ some e.ppn :=
    fun hy => hxy (hs.ledger.eq_of_refs_le_one hone hy hown)
  refine ⟨hnot, fun e' he' heq => ?_⟩
  rcases hs.mapped he' with hown' | ⟨k, c, hc⟩
  · exact hnot (heq ▸ hown')
  · exact hs.ledger.not_cached hown (heq ▸ hc.frame)

/-! ## Edits -/

omit hs in
lemma areaAt_congr (hareas : t.areas = s.areas) (y : Page) : t.areaAt y = s.areaAt y := by
  unfold State.areaAt
  rw [hareas]

/-- **Edit of one page**: the others keep the invariant when the counts of their frames did
not grow, or they are mapped copy-on-write. -/
theorem updatePage (x : Page) (hareas : t.areas = s.areas)
    (hcache : t.cache = s.cache)
    (hother : ∀ y, y ≠ x → t.dataFrames y = s.dataFrames y ∧ t.extPages y = s.extPages y ∧
      t.pt y = s.pt y)
    (hledger : Ledger t [])
    (hrefs : ∀ y, y ≠ x → ∀ f, s.dataFrames y = some f → t.refs f ≤ s.refs f ∨
      ∀ a, s.areaAt y = some a → a.isPrivate = true →
        ∃ e, s.pt y = some e ∧ e.cow = true ∧ e.writable = false)
    (hpage : PageOk t x)
    (hapart : ∀ f, t.dataFrames x = some f → ∀ y, y ≠ x → s.dataFrames y = some f →
      ∀ a b, s.areaAt x = some a → s.areaAt y = some b → a.isPrivate = b.isPrivate) :
    Inv t := by
  have hat := areaAt_congr hareas
  refine ⟨hledger, fun y => ?_, fun y z f a b hy hz ha hb => ?_, ?_, ?_⟩
  · rcases eq_or_ne y x with rfl | hne
    · exact hpage
    obtain ⟨hd, he, hp⟩ := hother y hne
    refine ⟨fun f hf => ?_, fun k hk => ?_, fun hd' he' => ?_⟩
    · rw [hd] at hf
      obtain ⟨a, ha⟩ := (hs.pages y).owned f hf
      refine ⟨a, (hat y).trans ha.area, ha.kind, he.trans ha.ext, hp ▸ ha.ppn, fun hpriv => ?_⟩
      rw [hp]
      have hleaf := ha.leaf hpriv
      refine { hleaf with cow := fun htwo => ?_ }
      rcases hrefs y hne f hf with hle | hcow
      · exact hleaf.cow (by omega)
      · exact hcow a ha.area hpriv
    · rw [he] at hk
      obtain ⟨a, e, ha⟩ := (hs.pages y).ext k hk
      exact ⟨a, e, (hat y).trans ha.area, ha.fits, hd.trans ha.own, hp.trans ha.pte,
        hcache ▸ ha.frame, ha.readOnly⟩
    · rw [hp]
      exact (hs.pages y).vacant (hd ▸ hd') (he ▸ he')
  · rw [hat] at ha hb
    rcases eq_or_ne y x with rfl | hyx
    · rcases eq_or_ne z y with rfl | hzx
      · rw [some.inj (ha.symm.trans hb)]
      · exact hapart f hy z hzx ((hother z hzx).1 ▸ hz) a b ha hb
    · rw [(hother y hyx).1] at hy
      rcases eq_or_ne z x with rfl | hzx
      · exact (hapart f hz y hyx hy b a hb ha).symm
      · exact hs.apart y z f a b hy ((hother z hzx).1 ▸ hz) ha hb
  · rw [hareas]
    exact hs.areas
  · rw [hareas]
    exact hs.disjoint

/-- The page gets, or keeps, a frame of its own. -/
lemma setOwned {pte : Option PageTableEntry} (hareas : t.areas = s.areas)
    (hcache : t.cache = s.cache) (hd : t.dataFrames = update s.dataFrames x (some f))
    (he : t.extPages = update s.extPages x none) (hp : t.pt = update s.pt x pte)
    (hledger : Ledger t [])
    (hrefs : ∀ y, y ≠ x → ∀ f, s.dataFrames y = some f → t.refs f ≤ s.refs f ∨
      ∀ a, s.areaAt y = some a → a.isPrivate = true →
        ∃ e, s.pt y = some e ∧ e.cow = true ∧ e.writable = false)
    (ha : s.areaAt x = some a) (hkind : a.kind ≠ .shm) (hppn : ∀ e, pte = some e → e.ppn = f)
    (hleaf : a.isPrivate = true → LeafOk a.perm (t.refs f) pte)
    (hapart : ∀ y, y ≠ x → s.dataFrames y = some f → ∀ b, s.areaAt y = some b →
      a.isPrivate = b.isPrivate) : Inv t := by
  have hdx : t.dataFrames x = some f := by rw [hd, update_self]
  have hex : t.extPages x = none := by rw [he, update_self]
  have hpx : t.pt x = pte := by rw [hp, update_self]
  refine hs.updatePage x hareas hcache (fun y hy => ?_) hledger hrefs ⟨fun g hg => ?_,
    fun k hk => ?_, fun h => ?_⟩ fun g hg y hy hgy b c hb hc => ?_
  · rw [hd, he, hp]
    exact ⟨update_of_ne hy .., update_of_ne hy .., update_of_ne hy ..⟩
  · obtain rfl := some.inj (hdx.symm.trans hg)
    exact ⟨a, (areaAt_congr hareas x).trans ha, hkind, hex, hpx ▸ hppn, hpx ▸ hleaf⟩
  · exact absurd (hex.symm.trans hk) nofun
  · exact absurd (hdx.symm.trans h) nofun
  · obtain rfl := some.inj (hdx.symm.trans hg)
    obtain rfl := some.inj (ha.symm.trans hb)
    exact hapart y hy hgy c hc

/-- The page gets, or keeps, a reference to a page of the cache or of a segment. -/
lemma setExt {k : Key} (hareas : t.areas = s.areas) (hcache : t.cache = s.cache)
    (hd : t.dataFrames = s.dataFrames) (he : t.extPages = update s.extPages x (some k))
    (hp : t.pt = update s.pt x (some e)) (hledger : Ledger t []) (hrefs : t.refs = s.refs)
    (ha : s.areaAt x = some a) (hfits : KeyFits k a.kind) (hown : s.dataFrames x = none)
    (hframe : s.cache k = some e.ppn) (hro : a.isPrivate = true → e.writable = false) : Inv t := by
  have hex : t.extPages x = some k := by rw [he, update_self]
  have hpx : t.pt x = some e := by rw [hp, update_self]
  refine hs.updatePage x hareas hcache (fun y hy => ?_) hledger
    (fun y _ f _ => .inl (Nat.le_of_eq (by rw [hrefs]))) ⟨fun g hg => ?_, fun k' hk' => ?_,
    fun _ h => ?_⟩ fun g hg => ?_
  · rw [hd, he, hp]
    exact ⟨rfl, update_of_ne hy .., update_of_ne hy ..⟩
  · exact absurd ((hd ▸ hg : s.dataFrames x = some g).symm.trans hown) nofun
  · obtain rfl := some.inj (hex.symm.trans hk')
    exact ⟨a, e, (areaAt_congr hareas x).trans ha, hfits, hd ▸ hown, hpx, hcache ▸ hframe, hro⟩
  · exact absurd (hex.symm.trans h) nofun
  · exact absurd ((hd ▸ hg : s.dataFrames x = some g).symm.trans hown) nofun

lemma clearPage (hareas : t.areas = s.areas) (hcache : t.cache = s.cache)
    (hd : t.dataFrames = update s.dataFrames x none)
    (he : t.extPages = update s.extPages x none) (hp : t.pt = update s.pt x none)
    (hledger : Ledger t []) (hrefs : ∀ f, t.refs f ≤ s.refs f) : Inv t := by
  have hdx : t.dataFrames x = none := by rw [hd, update_self]
  refine hs.updatePage x hareas hcache (fun y hy => ?_) hledger (fun _ _ f _ => .inl (hrefs f))
    ⟨fun g hg => ?_, fun k hk => ?_, fun _ _ => ?_⟩ fun g hg => ?_
  · rw [hd, he, hp]
    exact ⟨update_of_ne hy .., update_of_ne hy .., update_of_ne hy ..⟩
  · exact absurd (hdx.symm.trans hg) nofun
  · simp [he, update_self] at hk
  · rw [hp, update_self]
  · exact absurd (hdx.symm.trans hg) nofun

/-- **Edit of the cache**: the pages that are in use keep their frames. -/
theorem updateCache (hareas : t.areas = s.areas) (hd : t.dataFrames = s.dataFrames)
    (he : t.extPages = s.extPages) (hp : t.pt = s.pt) (hledger : Ledger t [])
    (hcache : ∀ x k, s.extPages x = some k → t.cache k = s.cache k)
    (hrefs : ∀ x f, s.dataFrames x = some f → t.refs f = s.refs f) : Inv t := by
  have hat := areaAt_congr hareas
  refine ⟨hledger, fun y => ⟨fun f hf => ?_, fun k hk => ?_, ?_⟩, ?_, ?_, ?_⟩
  · rw [hd] at hf
    obtain ⟨a, ha⟩ := (hs.pages y).owned f hf
    refine ⟨a, (hat y).trans ha.area, ha.kind, he ▸ ha.ext, hp ▸ ha.ppn, fun hpriv => ?_⟩
    rw [hp, hrefs y f hf]
    exact ha.leaf hpriv
  · rw [he] at hk
    obtain ⟨a, e, ha⟩ := (hs.pages y).ext k hk
    exact ⟨a, e, (hat y).trans ha.area, ha.fits, hd ▸ ha.own, hp ▸ ha.pte,
      (hcache y k hk).trans ha.frame, ha.readOnly⟩
  · rw [hd, he, hp]
    exact (hs.pages y).vacant
  · intro x y f a b hx hy ha hb
    rw [hat] at ha hb
    rw [hd] at hx hy
    exact hs.apart x y f a b hx hy ha hb
  · rw [hareas]
    exact hs.areas
  · rw [hareas]
    exact hs.disjoint

/-- **Edit of the areas**: pages that are in use stay in an area of the same kind and
permission. -/
theorem setAreas
    (hkeep : ∀ v, (s.dataFrames (p, v) ≠ none ∨ s.extPages (p, v) ≠ none) →
      ∀ a, s.areaAt (p, v) = some a →
        ∃ b, l.find? (fun a => a.contains v) = some b ∧ b.perm = a.perm ∧ b.kind = a.kind)
    (hok : ∀ a ∈ l, a.Ok) (hd : l.Pairwise Vma.Apart) : Inv (s.setAreas p l) := by
  have hat : ∀ y a, (s.dataFrames y ≠ none ∨ s.extPages y ≠ none) → s.areaAt y = some a →
      ∃ b, (s.setAreas p l).areaAt y = some b ∧ b.perm = a.perm ∧ b.kind = a.kind := by
    rintro ⟨q, v⟩ a huse ha
    unfold State.areaAt State.setAreas
    rcases eq_or_ne q p with rfl | hne
    · simp only [update_self]
      exact hkeep v huse a ha
    · simp only [update_of_ne hne]
      exact ⟨a, ha, rfl, rfl⟩
  have hpriv : ∀ {a b : Vma}, b.kind = a.kind → b.isPrivate = a.isPrivate := by
    intro a b h
    unfold Vma.isPrivate
    rw [h]
  refine ⟨hs.ledger.congr rfl rfl rfl rfl rfl rfl, fun y => ?_, fun y z f a b hy hz ha hb => ?_,
    fun q a ha => ?_, fun q => ?_⟩
  · refine ⟨fun f hf => ?_, fun k hk => ?_, (hs.pages y).vacant⟩
    · obtain ⟨a, ha⟩ := (hs.pages y).owned f hf
      have hne : s.dataFrames y ≠ none := fun h => absurd (hf.symm.trans h) nofun
      obtain ⟨b, hb, hperm, hkind⟩ := hat y a (.inl hne) ha.area
      refine ⟨b, hb, hkind ▸ ha.kind, ha.ext, ha.ppn, fun h => ?_⟩
      rw [hperm]
      exact ha.leaf (hpriv hkind ▸ h)
    · obtain ⟨a, e, ha⟩ := (hs.pages y).ext k hk
      have hne : s.extPages y ≠ none := fun h => absurd (hk.symm.trans h) nofun
      obtain ⟨b, hb, hperm, hkind⟩ := hat y a (.inr hne) ha.area
      exact ⟨b, e, hb, hkind ▸ ha.fits, ha.own, ha.pte, ha.frame,
        fun h => ha.readOnly (hpriv hkind ▸ h)⟩
  · obtain ⟨a₀, ha₀⟩ := (hs.pages y).owned f hy
    obtain ⟨b₀, hb₀⟩ := (hs.pages z).owned f hz
    have hyne : s.dataFrames y ≠ none := fun h => absurd (hy.symm.trans h) nofun
    have hzne : s.dataFrames z ≠ none := fun h => absurd (hz.symm.trans h) nofun
    obtain ⟨a', ha', -, hka⟩ := hat y a₀ (.inl hyne) ha₀.area
    obtain ⟨b', hb', -, hkb⟩ := hat z b₀ (.inl hzne) hb₀.area
    rw [← some.inj (ha'.symm.trans ha), ← some.inj (hb'.symm.trans hb), hpriv hka,
      hpriv hkb]
    exact hs.apart y z f a₀ b₀ hy hz ha₀.area hb₀.area
  · rcases eq_or_ne q p with rfl | hne
    · rw [setAreas_areas_self] at ha
      exact hok a ha
    · rw [setAreas_areas_of_ne hne] at ha
      exact hs.areas q a ha
  · rcases eq_or_ne q p with rfl | hne
    · rw [setAreas_areas_self]
      exact hd
    · rw [setAreas_areas_of_ne hne]
      exact hs.disjoint q

end

end Inv

end Whusp.Mm.Sharing
