import Whusp.Mm.CowIsolation

/-!
# Frames of shared pages

A page that is mapped shared keeps its frame for as long as it is mapped: faults find it there,
copy-on-write never applies to it, `mprotect` rewrites its leaf only, and fork copies the
reference.  What takes it away is unmapping, and `madvise(MADV_DONTNEED)`.
-/

namespace Whusp.Mm.Sharing

open Function List Option
open Whusp.Lib (Byte System)
open Whusp.Syscall (Arch PageTableEntry)

variable {s t u : State} {K : Page → Prop} {arch : Arch} {x : Page} {f : Nat}

/-! ## Shared pages -/

def SharedAt (s : State) (x : Page) : Prop := ∃ a, s.areaAt x = some a ∧ a.isPrivate = false

/-- No shared page has the copy-on-write mark. -/
def Plain (s : State) : Prop := ∀ x e, SharedAt s x → s.pt x = some e → e.cow = false

/-- **A steady step**: the pages in `K` stay shared and keep their frames, and no shared page has
the copy-on-write mark after it. -/
structure Steady (K : Page → Prop) (s t : State) : Prop where
  shared : ∀ x, K x → SharedAt s x → SharedAt t x
  frames : ∀ x f, K x → SharedAt s x → s.dataFrames x = some f → t.dataFrames x = some f
  plain : Plain t

def everyPage (_ : Page) : Prop := True

/-- Whether a page is shared depends on the areas alone. -/
lemma sharedAt_congr (h : t.areas = s.areas) (x : Page) : SharedAt t x ↔ SharedAt s x := by
  unfold SharedAt
  rw [areaAt_congr h]

namespace Steady

lemma refl (h : Plain s) : Steady K s s := ⟨fun _ _ h => h, fun _ _ _ _ h => h, h⟩

lemma trans (h : Steady K s t) (h' : Steady K t u) : Steady K s u where
  shared x hk hx := h'.shared x hk (h.shared x hk hx)
  frames x f hk hx hf := h'.frames x f hk (h.shared x hk hx) (h.frames x f hk hx hf)
  plain := h'.plain

lemma mono {K' : Page → Prop} (h : Steady K s t) (hk : ∀ x, K' x → K x) : Steady K' s t :=
  ⟨fun x hx => h.shared x (hk x hx), fun x f hx => h.frames x f (hk x hx), h.plain⟩

lemma of_eq (hp : Plain s) (hareas : t.areas = s.areas) (hd : t.dataFrames = s.dataFrames)
    (hpt : t.pt = s.pt) : Steady K s t where
  shared x _ hx := (sharedAt_congr hareas x).mpr hx
  frames x f _ _ hf := by
    rw [hd]
    exact hf
  plain x e hx he := hp x e ((sharedAt_congr hareas x).mp hx) (hpt ▸ he)

/-- **A step at one page**, which keeps the frame it has, and whose new leaf has no mark if the
page is shared. -/
theorem at_page (x : Page) (hp : Plain s) (hareas : t.areas = s.areas)
    (hd : ∀ y, y ≠ x → t.dataFrames y = s.dataFrames y) (hpt : ∀ y, y ≠ x → t.pt y = s.pt y)
    (hframe : K x → ∀ f, SharedAt s x → s.dataFrames x = some f → t.dataFrames x = some f)
    (hmark : SharedAt s x → ∀ e, t.pt x = some e → e.cow = false) : Steady K s t where
  shared y _ hy := (sharedAt_congr hareas y).mpr hy
  frames y f hk hy hf := by
    rcases eq_or_ne y x with rfl | hne
    · exact hframe hk f hy hf
    · rw [hd y hne]
      exact hf
  plain y e hy he := by
    rw [sharedAt_congr hareas] at hy
    rcases eq_or_ne y x with rfl | hne
    · exact hmark hy e he
    · exact hp y e hy (hpt y hne ▸ he)

lemma frameAlloc (hp : Plain s) {contents : Nat → Byte}
    (h : s.frameAlloc contents = some (f, t)) : Steady K s t := by
  obtain ⟨rest, -, rfl⟩ := Ledger.frameAlloc_eq_some h
  exact .of_eq hp rfl rfl rfl

open State

variable {flags : PTEFlags} {e : PageTableEntry} {vs : List Nat} {idx start stop : Nat}
  {A B : List Vma} {contents : Nat → Nat → Byte} {perm : MapPermission}

section

variable (hp : Plain s)
include hp

/-- `map_existing_frame_with_flags`: a frame that is there stays. -/
lemma mapExisting (hcow : SharedAt s x → flags.cow = false) :
    Steady K s (s.mapExistingFrameWithFlags arch x f flags) := by
  unfold mapExistingFrameWithFlags
  split
  · split
    · exact .of_eq hp rfl rfl rfl
    refine .at_page x hp rfl (fun _ _ => rfl) (fun y hne => update_of_ne hne ..)
      (fun _ _ _ hf => hf) fun _ e he => ?_
    simp [show ((s.setPte x none).frameDealloc f).pt x = none from update_self ..] at he
  next habsent =>
    simp only [Bool.or_eq_true, not_or, not_isSome_iff_eq_none] at habsent
    refine .at_page x hp rfl (fun y hne => update_of_ne hne ..)
      (fun y hne => update_of_ne hne ..) (fun _ g _ hg => ?_) fun hx e he => ?_
    · exact nomatch habsent.1.symm.trans hg
    -- the new leaf has the mark only if the flags have it
    rw [show (s.publishFrame arch x f flags).pt x = _ from update_self ..] at he
    split at he
    · cases he
      show flags.normalized.cow = false
      rw [normalized_cow]
      exact hcow hx
    · cases he

/-- `map_page_cache_frame` and `map_shm_frame`. -/
lemma mapExt {k : Key} {ppn : Nat} (hcow : flags.cow = false) :
    Steady K s (s.mapExtFrame arch x k ppn flags) := by
  refine .at_page x hp rfl (fun _ _ => rfl) (fun y hne => update_of_ne hne ..)
    (fun _ _ _ hf => hf) fun _ e he => ?_
  rw [show (s.mapExtFrame arch x k ppn flags).pt x = _ from update_self ..] at he
  cases he
  show flags.normalized.cow = false
  rw [normalized_cow]
  exact hcow

lemma setPte (h : SharedAt s x → e.cow = false) :
    Steady K s (s.setPte x (some e)) := by
  refine .at_page x hp rfl (fun _ _ => rfl) (fun y hne => update_of_ne hne ..)
    (fun _ _ _ hf => hf) fun hx e' he' => ?_
  rw [show (s.setPte x (some e)).pt x = _ from update_self ..] at he'
  cases he'
  exact h hx

/-! ## Faults and the cache -/

/-- A fault maps a page that had no frame. -/
lemma pageFault (access : MmapFaultAccess) (contents : Nat → Byte) :
    Steady K s (s.pageFault arch x access contents) := by
  unfold State.pageFault
  split
  · exact .refl hp
  split
  · exact .refl hp
  split
  · exact .refl hp
  split
  · exact .refl hp
  next halloc =>
    have hfirst : Steady K s _ := frameAlloc hp halloc
    exact hfirst.trans (mapExisting hfirst.plain fun _ => rfl)

lemma pageCacheFault (access : MmapFaultAccess) (page generation : Nat) :
    Steady K s (s.pageCacheFault arch x access page generation) := by
  unfold State.pageCacheFault
  split
  · exact .refl hp
  split
  swap
  · exact .refl hp
  split
  · exact .refl hp
  dsimp only
  split
  · exact .refl hp
  split
  · exact .refl hp
  · refine mapExt hp ?_
    unfold cacheFlags
    split <;> rfl

lemma shmMap (shmid index : Nat) : Steady K s (s.shmMap arch x shmid index) := by
  unfold State.shmMap
  split
  · exact .refl hp
  split
  · exact .refl hp
  split
  · exact .refl hp
  · exact mapExt hp rfl

end

open PTEFlags

section

variable (hp : Plain s)
include hp

lemma sharedWriteFault : Steady K s (s.sharedWriteFault arch x) := by
  unfold State.sharedWriteFault
  split
  swap
  · exact .refl hp
  split
  · split
    · refine setPte hp fun _ => ?_
      show (ofPerm _).normalized.cow = false
      rw [normalized_cow]
      rfl
    · exact .refl hp
  · exact .refl hp

/-- A copy-on-write fault is on a page with the mark, so not on a shared one. -/
lemma cowPageFault : Steady K s (s.resolveCowPageFault arch x) := by
  unfold resolveCowPageFault
  split
  swap
  · exact .refl hp
  rename_i e a old he ha hold
  split
  · exact .refl hp
  rename_i hguard
  simp only [not_or] at hguard
  have hnot : ¬ SharedAt s x := by
    intro hx
    exact hguard.2.2.1 (by simp [hp x e hx he])
  split
  · split
    · exact .refl hp
    · exact setPte hp fun hx => absurd hx hnot
  split
  · exact .refl hp
  rename_i halloc
  obtain ⟨rest, -, rfl⟩ := Ledger.frameAlloc_eq_some halloc
  exact .at_page x hp rfl (fun y hne => update_of_ne hne ..)
    (fun y hne => update_of_ne hne ..) (fun _ _ hx => absurd hx hnot)
    fun hx => absurd hx hnot

lemma loadKey (k : Key) (contents : Nat → Byte) :
    Steady K s (s.loadKey k contents) := by
  unfold State.loadKey
  split
  · exact .refl hp
  split
  · exact .refl hp
  next halloc =>
    obtain ⟨rest, -, rfl⟩ := Ledger.frameAlloc_eq_some halloc
    exact .of_eq hp rfl rfl rfl

lemma evictKey (k : Key) : Steady K s (s.evictKey k) := by
  unfold State.evictKey
  split
  · exact .refl hp
  split
  · exact .of_eq hp rfl rfl rfl
  · exact .refl hp

lemma store (offset : Nat) (value : Byte) : Steady K s (s.store x offset value) := by
  unfold State.store
  split
  · exact .refl hp
  split
  · exact .of_eq hp rfl rfl rfl
  · exact .refl hp

/-! ## Pages that are dropped -/

lemma dropPage (hx : ¬ K x) : Steady K s (s.dropPage x) := by
  have hcleared : ∀ e, update s.pt x none x = some e → e.cow = false := by
    simp
  unfold State.dropPage
  split
  · exact .at_page x hp rfl (fun y hne => update_of_ne hne ..)
      (fun y hne => update_of_ne hne ..) (fun hk => absurd hk hx) fun _ => hcleared
  · split
    · exact .at_page x hp rfl (fun _ _ => rfl) (fun y hne => update_of_ne hne ..)
        (fun hk => absurd hk hx) fun _ => hcleared
    · exact .refl hp

/-- Pages that are not kept may go. -/
theorem dropPages {p : Nat} (h : ∀ v ∈ vs, ¬ K (p, v)) :
    Steady K s (s.dropPages p vs) := by
  induction vs generalizing s with
  | nil => exact .refl hp
  | cons v vs ih =>
    have hfirst := dropPage (x := (p, v)) hp (h v mem_cons_self)
    exact hfirst.trans (ih hfirst.plain fun w hw => h w (mem_cons_of_mem _ hw))

lemma discardRange {p lo hi : Nat}
    (h : ∀ a ∈ (s.areas p)[idx]?, ∀ v ∈ a.pages, lo ≤ v → v < hi → ¬ K (p, v)) :
    Steady K s (s.discardRange p idx lo hi) := by
  unfold State.discardRange
  split
  · exact .refl hp
  rename_i a ha
  split
  · apply dropPages hp
    intro v hv
    obtain ⟨hmem, hrange⟩ := mem_filter.mp hv
    simp only [Bool.and_eq_true, decide_eq_true_eq] at hrange
    exact h a ha v hmem hrange.1 hrange.2
  · exact .refl hp

end

/-! ## Edits of the areas -/

section

variable (hs : Inv s) (hp : Plain s)
include hs hp

/-- The areas change, and with them no frame or leaf: the pages in `K` stay shared, and a page
that is shared now was shared before or had no leaf. -/
lemma of_areas (hd : t.dataFrames = s.dataFrames)
    (hpt : t.pt = s.pt) (hshared : ∀ x, K x → SharedAt s x → SharedAt t x)
    (hback : ∀ x, SharedAt t x → SharedAt s x ∨ s.areaAt x = none) : Steady K s t where
  shared := hshared
  frames x f _ _ hf := by
    rw [hd]
    exact hf
  plain x e hx he := by
    rw [hpt] at he
    rcases hback x hx with hx | hnone
    · exact hp x e hx he
    · exact nomatch (hs.vacant_of_areaAt_none hnone).2.2.symm.trans he

/-- The areas of one process change, and those of the others do not matter. -/
lemma of_setAreas {p : Nat} {l : List Vma}
    (hshared : ∀ v, K (p, v) → SharedAt s (p, v) → SharedAt (s.setAreas p l) (p, v))
    (hback : ∀ v, SharedAt (s.setAreas p l) (p, v) →
      SharedAt s (p, v) ∨ s.areaAt (p, v) = none) : Steady K s (s.setAreas p l) := by
  have hother {q v : Nat} (hne : q ≠ p) : SharedAt (s.setAreas p l) (q, v) ↔ SharedAt s (q, v) := by
    unfold SharedAt areaAt
    rw [setAreas_areas_of_ne hne]
  refine .of_areas hs hp rfl rfl ?_ ?_
  · rintro ⟨q, v⟩ hk hx
    rcases eq_or_ne q p with rfl | hne
    · exact hshared v hk hx
    · exact (hother hne).mpr hx
  · rintro ⟨q, v⟩ hx
    rcases eq_or_ne q p with rfl | hne
    · exact hback v hx
    · exact .inl ((hother hne).mp hx)

/-- The areas `C` of a process are replaced by `D`, which covers their pages, and covers other
pages only where no area was. -/
lemma splice {p : Nat} {C D : List Vma}
    (h : s.areas p = A ++ (C ++ B)) (hapart : (A ++ (D ++ B)).Pairwise Vma.Apart)
    (hkeep : ∀ a ∈ C, ∀ v, a.contains v = true →
      ∃ b ∈ D, b.contains v = true ∧ b.isPrivate = a.isPrivate)
    (hnew : ∀ b ∈ D, ∀ v, b.contains v = true →
      (∃ a ∈ C, a.contains v = true ∧ a.isPrivate = b.isPrivate) ∨
        ∀ a ∈ A ++ (C ++ B), a.contains v = false) : Steady K s (s.setAreas p (A ++ (D ++ B))) := by
  refine of_setAreas hs hp ?_ ?_
  · rintro v - ⟨a, ha, hpriv⟩
    obtain ⟨hmem, hv⟩ := Inv.mem_of_areaAt ha
    have hin : ∀ b ∈ A ++ (D ++ B), b.contains v = true → b.isPrivate = a.isPrivate →
        SharedAt (s.setAreas p (A ++ (D ++ B))) (p, v) := by
      intro b hb hbv hbp
      refine ⟨b, ?_, hbp.trans hpriv⟩
      unfold areaAt
      rw [setAreas_areas_self]
      exact find_contains hapart hb hbv
    rw [show s.areas (p, v).1 = A ++ (C ++ B) from h] at hmem
    simp only [mem_append] at hmem
    rcases hmem with hmem | hmem | hmem
    · exact hin a (by simp [hmem]) hv rfl
    · obtain ⟨b, hb, hbv, hbp⟩ := hkeep a hmem v hv
      exact hin b (by simp [hb]) hbv hbp
    · exact hin a (by simp [hmem]) hv rfl
  · rintro v ⟨b, hb, hpriv⟩
    obtain ⟨hmem, hv⟩ := Inv.mem_of_areaAt hb
    have hold : ∀ a ∈ A ++ (C ++ B), a.contains v = true → a.isPrivate = b.isPrivate →
        SharedAt s (p, v) := by
      intro a ha hav hap
      exact ⟨a, hs.areaAt_of_mem (h ▸ ha) hav, hap.trans hpriv⟩
    rw [show (s.setAreas p (A ++ (D ++ B))).areas (p, v).1 = _ from setAreas_areas_self ..] at hmem
    simp only [mem_append] at hmem
    rcases hmem with hmem | hmem | hmem
    · exact .inl (hold b (by simp [hmem]) hv rfl)
    · rcases hnew b hmem v hv with ⟨a, ha, hav, hap⟩ | hnone
      · exact .inl (hold a (by simp [ha]) hav hap)
      refine .inr (find?_eq_none.mpr fun a ha => ?_)
      rw [show s.areas (p, v).1 = A ++ (C ++ B) from h] at ha
      rw [hnone a ha]
      exact nofun
    · exact .inl (hold b (by simp [hmem]) hv rfl)

/-- A split moves no page. -/
lemma splitArea (p idx at_ : Nat) :
    Steady K s (s.splitArea p idx at_) := by
  have ht := hs.splitArea p idx at_
  unfold State.splitArea at ht ⊢
  split
  · exact .refl hp
  rename_i a ha
  rw [ha] at ht
  dsimp only at ht
  split
  swap
  · exact .refl hp
  rename_i hin
  rw [if_pos hin] at ht
  have hapart := ht.disjoint p
  rw [setAreas_areas_self] at hapart
  rw [Lib.insertAt_set ha] at hapart ⊢
  refine splice (C := [a]) (D := [{ a with stop := at_ }, { a with start := at_ }]) hs hp
    (Lib.eq_of_getElem? ha) hapart ?_ ?_
  · intro b hb v hv
    obtain rfl := mem_singleton.mp hb
    simp only [Vma.contains, Bool.and_eq_true, decide_eq_true_eq] at hv
    rcases lt_or_ge v at_ with hlt | hge
    · exact ⟨_, mem_cons_self, by simp [Vma.contains, hv, hlt], rfl⟩
    · exact ⟨_, mem_cons_of_mem _ mem_cons_self, by simp [Vma.contains, hv, hge], rfl⟩
  · intro b hb v hv
    have hrange : a.start ≤ b.start ∧ b.stop ≤ a.stop ∧ b.isPrivate = a.isPrivate := by
      rcases mem_cons.mp hb with rfl | hb
      · exact ⟨le_refl _, le_of_lt hin.2, rfl⟩
      · obtain rfl := mem_singleton.mp hb
        exact ⟨le_of_lt hin.1, le_refl _, rfl⟩
    refine .inl ⟨a, mem_singleton_self a, ?_, hrange.2.2.symm⟩
    simp only [Vma.contains, Bool.and_eq_true, decide_eq_true_eq] at hv ⊢
    omega

lemma extendArea {p : Nat}
    (hapart : ∀ a, (s.areas p)[idx]? = some a → ∀ b ∈ (s.areas p).eraseIdx idx,
      Vma.Apart { a with start := start, stop := stop } b) :
    Steady K s (s.extendArea p idx start stop) := by
  have ht := hs.extendArea hapart
  unfold State.extendArea at ht ⊢
  split
  · exact .refl hp
  rename_i a ha
  rw [ha] at ht
  dsimp only at ht
  split
  swap
  · exact .refl hp
  rename_i hrange
  rw [if_pos hrange] at ht
  have hdisjoint := ht.disjoint p
  rw [setAreas_areas_self] at hdisjoint
  rw [Lib.set_eq_of_getElem? ha] at hdisjoint ⊢
  have hfree := hapart a ha
  rw [eraseIdx_eq_take_drop_succ] at hfree
  refine splice (C := [a]) (D := [{ a with start := start, stop := stop }]) hs hp
    (Lib.eq_of_getElem? ha) hdisjoint ?_ ?_
  · intro b hb v hv
    obtain rfl := mem_singleton.mp hb
    refine ⟨_, mem_singleton_self _, ?_, rfl⟩
    simp only [Vma.contains, Bool.and_eq_true, decide_eq_true_eq] at hv ⊢
    omega
  · intro b hb v hv
    obtain rfl := mem_singleton.mp hb
    cases hav : a.contains v with
    | true => exact .inl ⟨a, mem_singleton_self a, hav, rfl⟩
    | false =>
      -- the new pages are in no other area
      refine .inr fun c hc => ?_
      rw [← Bool.not_eq_true]
      intro hcv
      simp only [mem_append, mem_singleton] at hc
      rcases hc with hc | rfl | hc
      · exact hfree c (by simp [hc]) v ⟨hv, hcv⟩
      · simp [hav] at hcv
      · exact hfree c (by simp [hc]) v ⟨hv, hcv⟩

lemma append {p : Nat} {a : Vma} (hok : a.Ok)
    (hapart : ∀ b ∈ s.areas p, a.Apart b) : Steady K s (s.setAreas p (s.areas p ++ [a])) := by
  have hdisjoint := (hs.append hok hapart).disjoint p
  have h := splice (K := K) (p := p) (A := s.areas p) (C := []) (D := [a]) (B := []) hs hp
    (by simp) (by simpa using hdisjoint) nofun
  simp only [append_nil, mem_singleton, forall_eq] at h
  refine h fun v hv => .inr fun b hb => ?_
  rw [← Bool.not_eq_true]
  exact fun hbv => hapart b hb v ⟨hv, hbv⟩

end

lemma populate (hp : Plain s) {p : Nat}
    (h : s.populate arch p (PTEFlags.ofPerm perm) contents vs = some t) : Steady K s t := by
  induction vs generalizing s with
  | nil =>
    cases h
    exact .refl hp
  | cons v vs ih =>
    unfold populate at h
    split at h
    · cases h
    rename_i f s' halloc
    have hfirst : Steady K s s' := frameAlloc hp halloc
    have hmap : Steady K s' (s'.mapExistingFrameWithFlags arch (p, v) f (ofPerm perm)) :=
      mapExisting hfirst.plain fun _ => rfl
    exact (hfirst.trans hmap).trans (ih hmap.plain h)

section

variable (hs : Inv s) (hp : Plain s)
include hs hp

lemma mapArea {p : Nat} {n : NewArea} (hn : n.Accessible)
    (hapart : ∀ b ∈ s.areas p, (n.toVma start stop).Apart b) :
    Steady K s (s.mapArea arch p n start stop contents) := by
  have happ : Steady K s _ := append hs hp (NewArea.ok hn start stop) hapart
  unfold State.mapArea
  dsimp only
  split
  · cases hpop : State.populate arch (s.setAreas p (s.areas p ++ [n.toVma start stop])) p
        (ofPerm (n.toVma start stop).perm) contents (n.toVma start stop).pages with
    | none => exact .refl hp
    | some t => exact happ.trans (populate happ.plain hpop)
  · exact happ

/-- `munmap` of one area: the pages outside it. -/
theorem unmapArea {p : Nat}
    (hk : ∀ a ∈ (s.areas p)[idx]?, ∀ v, a.contains v = true → ¬ K (p, v)) :
    Steady K s (s.unmapArea p idx) := by
  have ht := hs.unmapArea p idx
  unfold State.unmapArea at ht ⊢
  split
  · exact .refl hp
  rename_i a ha
  rw [ha] at ht
  have hdrop : Steady K s (s.dropPages p a.pages) :=
    dropPages hp fun v hv => hk a ha v (Vma.mem_pages.mp hv)
  have hinv := hs.dropPages p a.pages
  refine hdrop.trans (of_setAreas hinv hdrop.plain ?_ ?_)
  · rintro v hkv ⟨b, hb, hpriv⟩
    obtain ⟨hmem, hv⟩ := Inv.mem_of_areaAt hb
    refine ⟨b, ht.areaAt_of_mem ?_ hv, hpriv⟩
    rw [setAreas_areas_self, eraseIdx_eq_take_drop_succ]
    rw [show (s.dropPages p a.pages).areas (p, v).1 = s.areas p by rw [dropPages_areas],
      Lib.eq_of_getElem? ha, mem_append, mem_cons] at hmem
    rcases hmem with hmem | rfl | hmem
    · exact mem_append_left _ hmem
    · exact absurd hkv (hk b ha v hv)
    · exact mem_append_right _ hmem
  · rintro v ⟨b, hb, hpriv⟩
    obtain ⟨hmem, hv⟩ := Inv.mem_of_areaAt hb
    refine .inl ⟨b, hinv.areaAt_of_mem ?_ hv, hpriv⟩
    rw [dropPages_areas]
    rw [show (_ : State).areas (p, v).1 = _ from setAreas_areas_self ..] at hmem
    exact mem_of_mem_eraseIdx hmem

/-- An address space goes: the pages of the others. -/
theorem dropAreas {p : Nat} (hk : ∀ v, ¬ K (p, v)) (l : List Vma) :
    Steady K s (s.dropAreas p l) := by
  induction l generalizing s with
  | nil =>
    refine of_setAreas hs hp (fun v hkv => absurd hkv (hk v)) ?_
    rintro v ⟨b, hb, -⟩
    simp [areaAt, setAreas_areas_self] at hb
  | cons a rest ih =>
    have hdrop : Steady K s (s.dropPages p a.pages) := dropPages hp fun v _ => hk v
    exact hdrop.trans (ih (hs.dropPages p a.pages) hdrop.plain)

end

/-! ## Protection -/

lemma materializePages (hp : Plain s) {p : Nat} (hpriv : ∀ v ∈ vs, ¬ SharedAt s (p, v))
    (h : s.materializePages arch p flags vs = some t) : Steady K s t := by
  induction vs generalizing s with
  | nil =>
    cases h
    exact .refl hp
  | cons v vs ih =>
    have hhead := hpriv v mem_cons_self
    have hrest : ∀ w ∈ vs, ¬ SharedAt s (p, w) := fun w hw => hpriv w (mem_cons_of_mem _ hw)
    unfold materializePages at h
    split at h
    · split at h
      · cases h
      rename_i halloc
      obtain ⟨rest, -, rfl⟩ := Ledger.frameAlloc_eq_some halloc
      suffices hpage : Steady K s _ from hpage.trans (ih hpage.plain (by exact hrest) h)
      -- the page is private, so nothing is asked of its frame and leaf
      exact at_page (p, v) hp rfl
        (fun y hne => update_of_ne hne ..) (fun y hne => update_of_ne hne ..)
        (fun _ _ hx => absurd hx hhead) fun hx => absurd hx hhead
    · cases h
    · exact ih hp hrest h

/-- The new leaf of a shared page has no mark, as the old one had none. -/
lemma remappedLeaf_cow {a : Vma} (hpt : ∀ e, s.pt x = some e → e.cow = false)
    (h : s.remappedLeaf arch a perm x = some e) : e.cow = false := by
  have hfresh : ∀ ppn, (newEntry arch ppn (ofPerm perm).normalized).cow = false := by
    intro ppn
    show (ofPerm perm).normalized.cow = false
    rw [normalized_cow]
    rfl
  unfold remappedLeaf at h
  split at h
  next f _ =>
    cases hx : s.pt x with
    | none =>
      rw [hx, remapResidentFrame_none] at h
      obtain ⟨-, rfl⟩ := of_guard h
      exact hfresh f
    | some e₀ =>
      rw [hx, remapResidentFrame_plain (hpt e₀ hx)] at h
      obtain ⟨-, rfl⟩ := of_guard h
      exact hfresh e₀.ppn
  · split at h
    · obtain ⟨e₀, -, rfl⟩ := map_eq_some_iff.mp h
      show (normalized _).cow = false
      rw [normalized_cow]
      split
      · rfl
      · rfl
    · exact hpt e h

lemma remapLeaves (hs : Inv s) (hp : Plain s) {p : Nat} {a : Vma}
    (h : s.areas p = A ++ ([a] ++ B)) : Steady K s { s with
      pt := fun x => if x.1 = p ∧ a.contains x.2 = true then s.remappedLeaf arch a perm x
        else s.pt x
      areas := update s.areas p (A ++ ([State.remappedArea a perm] ++ B)) } := by
  have hapart := apart_remappedArea perm (h ▸ hs.disjoint p)
  -- first the area, then the leaves
  have harea : Steady K s (s.setAreas p (A ++ ([remappedArea a perm] ++ B))) := by
    refine splice hs hp h hapart ?_ ?_
    · intro b hb v hv
      obtain rfl := mem_singleton.mp hb
      exact ⟨_, mem_singleton_self _, hv, remappedArea_isPrivate b perm⟩
    · intro b hb v hv
      obtain rfl := mem_singleton.mp hb
      exact .inl ⟨a, mem_singleton_self a, hv, (remappedArea_isPrivate a perm).symm⟩
  refine { harea with plain := fun x e hx he => ?_ }
  have hold : ∀ e, s.pt x = some e → e.cow = false := fun e he => harea.plain x e hx he
  dsimp only at he
  split at he
  · exact remappedLeaf_cow hold he
  · exact hold e he

/-- A new permission keeps the frames. -/
lemma remapPermission (hs : Inv s) (hp : Plain s) (p idx : Nat) (prot : Prot) :
    Steady K s (s.remapPermission arch p idx (protToMapPermission prot)) := by
  unfold State.remapPermission
  split
  · exact .refl hp
  rename_i a ha
  have hin := mem_of_getElem? ha
  dsimp only
  split
  · exact .refl hp
  rename_i t hmat
  have hres : Steady K s t ∧ Inv t ∧ t.areas = s.areas := by
    split at hmat
    next hkind =>
      split at hmat
      next hguard =>
        obtain ⟨hshared, hw⟩ := Bool.and_eq_true_iff.mp hguard
        have hat : ∀ v ∈ a.pages, s.areaAt (p, v) = some a :=
          fun v hv => hs.areaAt_of_mem hin (Vma.mem_pages.mp hv)
        refine ⟨materializePages hp (fun v hv => ?_) hmat, hs.materializePages ?_ ?_ hat hmat⟩
        · rintro ⟨b, hb, hpriv⟩
          obtain rfl := some.inj ((hat v hv).symm.trans hb)
          unfold Vma.isPrivate at hpriv
          rw [hkind] at hpriv
          exact nomatch hpriv.symm.trans hshared
        · rw [hkind]
          exact nofun
        · have hw : prot.w = true := hw
          simp [protToMapPermission, hw]
      · cases hmat
        exact ⟨.refl hp, hs, rfl⟩
    · cases hmat
      exact ⟨.refl hp, hs, rfl⟩
  obtain ⟨hsteady, ht, hareas⟩ := hres
  rw [← hareas] at ha
  rw [Lib.set_eq_of_getElem? ha]
  exact hsteady.trans (remapLeaves ht hsteady.plain (Lib.eq_of_getElem? ha))

/-! ## Fork -/

variable {p q v : Nat} {a : Vma} {env : State.ForkEnv}

lemma retainInto (hp : Plain s) (flags : PTEFlags) (hcow : SharedAt s (q, v) → flags.cow = false) :
    Steady K s (s.retainInto arch env q v f flags).1 := by
  unfold State.retainInto
  split
  · exact .refl hp
  · have href : Steady K s { s with refs := update s.refs f (s.refs f + 1) } :=
      .of_eq hp rfl rfl rfl
    exact href.trans (mapExisting href.plain hcow)

lemma copyInto (hp : Plain s) {src : Nat} :
    Steady K s (s.copyInto arch env q v src (PTEFlags.ofPerm perm)).1 := by
  unfold State.copyInto
  split
  · exact .refl hp
  rename_i t halloc
  split
  · exact .refl hp
  · have hfirst : Steady K s t := frameAlloc hp halloc
    exact hfirst.trans (mapExisting hfirst.plain fun _ => rfl)

/-- Only private pages are shared for copy-on-write. -/
lemma cowInto (hp : Plain s) (hparent : ¬ SharedAt s (p, v)) (hchild : ¬ SharedAt s (q, v)) :
    Steady K s (s.cowInto arch env p q v f e).1 := by
  have hret : Steady K s (s.retainInto arch env q v f (ofEntry e).toCow).1 :=
    retainInto hp _ fun hx => absurd hx hchild
  have hareas : (s.retainInto arch env q v f (ofEntry e).toCow).1.areas = s.areas := by
    unfold State.retainInto
    split
    · rfl
    · exact mapExisting_areas _
  unfold State.cowInto
  split
  next heq =>
    rwa [heq] at hret
  next heq =>
    rw [heq] at hret hareas
    split
    · exact hret
    · exact hret.trans (setPte hret.plain
      fun hx => absurd ((sharedAt_congr hareas _).mp hx) hparent)

/-- A fork shares the frame of a page, or copies it. -/
lemma forkDataPage (h : Forking s p q v a) (hp : Plain s) :
    Steady K s (s.forkDataPage arch env p q a v).1 := by
  have hprivate : a.isPrivate = true → ¬ SharedAt s (p, v) ∧ ¬ SharedAt s (q, v) := by
    intro hpriv
    constructor
    · rintro ⟨b, hb, hb'⟩
      obtain rfl := some.inj (h.parent.symm.trans hb)
      exact nomatch hpriv.symm.trans hb'
    · rintro ⟨b, hb, hb'⟩
      obtain rfl := some.inj (h.child.symm.trans hb)
      exact nomatch hpriv.symm.trans hb'
  unfold State.forkDataPage
  split
  · exact .refl hp
  next hkind =>
    split
    · exact .refl hp
    split
    next he =>
      obtain ⟨hmmap, -⟩ := ite_none_right_eq_some.mp he
      have hpriv : a.isPrivate = true := by
        unfold Vma.isPrivateUserMmap at hmmap
        unfold Vma.isPrivate
        rw [hkind] at hmmap ⊢
        exact (Bool.and_eq_true_iff.mp hmmap).2
      exact cowInto hp (hprivate hpriv).1 (hprivate hpriv).2
    · split
      · exact retainInto hp _ fun _ => rfl
      · exact copyInto hp
  next hkind =>
    have hpriv : a.isPrivate = true := by
      unfold Vma.isPrivate
      rw [hkind]
    obtain ⟨hparent, hchild⟩ := hprivate hpriv
    split
    · split
      · exact .refl hp
      · exact .refl hp
      · exact cowInto hp hparent hchild
    · split
      · split
        · exact .refl hp
        · exact copyInto hp
      split
      · exact .refl hp
      split
      · split
        · exact cowInto hp hparent hchild
        · exact copyInto hp
      · exact retainInto hp _ fun _ => rfl

lemma forkExtPage (hp : Plain s) : Steady K s (s.forkExtPage arch env p q a v).1 := by
  unfold State.forkExtPage
  split
  · exact .refl hp
  split
  · exact .refl hp
  · exact .refl hp
  · exact .refl hp
  · split
    · exact .refl hp
    split
    · refine mapExt hp ?_
      unfold cacheFlags
      split <;> rfl
    · exact .refl hp
  · split
    · exact .refl hp
    split
    · exact mapExt hp rfl
    · exact .refl hp

lemma ensureResident (hp : Plain s) : Steady K s (State.ensureResident arch p a v s).1 := by
  unfold State.ensureResident
  split
  · exact .refl hp
  split
  · exact .refl hp
  next t halloc =>
    have hfirst : Steady K s t := frameAlloc hp halloc
    exact hfirst.trans (mapExisting hfirst.plain fun _ => rfl)

end Steady

end Whusp.Mm.Sharing
