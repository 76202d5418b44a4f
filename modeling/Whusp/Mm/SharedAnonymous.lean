import Whusp.Mm.SharedFrames

/-!
# Identity of shared anonymous memory

A page of a `MAP_SHARED | MAP_ANONYMOUS` mapping that a child inherits is one page with two
names: fork makes it resident and hands the frame on.  The runs are those of
`Mm.CowIsolation`, with a record of which pages were inherited from which and are still mapped
on both sides.
-/

namespace Whusp.Mm.Sharing

open List Option

open Whusp.Lib (Byte System)
open Whusp.Syscall (Arch PageTableEntry)

variable {s t u : State} {K : Page → Prop} {arch : Arch} {x : Page} {f : Nat}

/-! ## The loops of fork -/

section Loops

variable {p q v : Nat} {a : Vma} {env : State.ForkEnv}

open State

variable (arch env)

lemma steady_forkExtPages (hp : Plain s) (vs : List Nat) :
    Steady K s (whileOk (forkExtPage arch env p q a) vs s).1 := by
  obtain ⟨-, hsteady, -⟩ := whileOk_keeps (P := fun _ t _ => Steady K s t)
    (fun v vs t u ok ht heq => by
      have hpage : Steady K t (t.forkExtPage arch env p q a v).1 := .forkExtPage ht.plain
      rw [heq] at hpage
      exact ht.trans hpage) (.refl hp)
    (show whileOk (forkExtPage arch env p q a) vs s = (_, _) from rfl)
  exact hsteady

open Vma

/-- The page has one frame, which the child has too. -/
def Inherited (p q : Nat) (t : State) (v : Nat) : Prop :=
  ∃ f, t.dataFrames (p, v) = some f ∧ t.dataFrames (q, v) = some f

lemma isPrivate_of_isSharedAnonymous (h : isSharedAnonymous a = true) :
    a.isPrivate = false := by
  unfold isSharedAnonymous at h
  unfold isPrivate
  cases hk : a.kind with
  | mmap info =>
    rw [hk] at h
    simp only [Bool.and_eq_true] at h
    simp [h.1.1]
  | framed =>
    simp [hk] at h
  | shm => rfl

/-- A page of a shared anonymous area that has a leaf has a frame of its own. -/
lemma Inv.frame_of_pt (hs : Inv s) (ha : s.areaAt x = some a)
    (hanon : isSharedAnonymous a = true)
    (h : ((s.pt x).isSome || (s.dataFrames x).isSome) = true) : ∃ f, s.dataFrames x = some f := by
  cases hf : s.dataFrames x with
  | some f => exact ⟨f, rfl⟩
  | none =>
    -- the leaf would be of a page of the cache, and the area has no file
    exfalso
    cases hk : s.extPages x with
    | none =>
      simp [(hs.pages x).vacant hf hk, hf] at h
    | some k =>
      obtain ⟨b, e, hb⟩ := (hs.pages x).ext k hk
      obtain rfl := some.inj (ha.symm.trans hb.area)
      have hfits := hb.fits
      unfold isSharedAnonymous at hanon
      cases hkind : a.kind with
      | mmap info =>
        rw [hkind] at hfits hanon
        simp only [Bool.and_eq_true, isNone_iff_eq_none] at hanon
        cases k with
        | file => exact nomatch hanon.2.symm.trans hfits.1
        | segment => exact hfits
      | framed | shm =>
        simp [hkind] at hanon

lemma ensureResident_frame (hs : Inv s) (ha : s.areaAt (p, v) = some a)
    (hanon : isSharedAnonymous a = true)
    (h : ensureResident arch p a v s = (t, true)) : ∃ f, t.dataFrames (p, v) = some f := by
  unfold ensureResident at h
  split at h
  next hthere =>
    cases h
    exact hs.frame_of_pt ha hanon hthere
  rename_i habsent
  simp only [Bool.or_eq_true, not_or, not_isSome_iff_eq_none] at habsent
  split at h
  · cases h
  rename_i f s' halloc
  obtain ⟨rest, -, rfl⟩ := Ledger.frameAlloc_eq_some halloc
  obtain ⟨rfl, -⟩ := Prod.mk.inj h
  refine ⟨f, ?_⟩
  unfold mapExistingFrameWithFlags
  simp only [habsent.1, habsent.2, isSome_none, Bool.or_self, Bool.false_eq_true, if_false]
  exact Function.update_self ..

/-- **`ensure_shared_anonymous_mmap_resident`**: every page of the area has a frame. -/
theorem ensureResidentPages_frames (hs : Inv s) (hp : Plain s) (ha : a ∈ s.areas p)
    (hanon : isSharedAnonymous a = true) {ok : Bool}
    (h : whileOk (ensureResident arch p a) a.pages s = (t, ok)) :
    Inv t ∧ t.areas = s.areas ∧ Steady everyPage s t ∧
      (ok = true → ∀ v, a.contains v = true → ∃ f, t.dataFrames (p, v) = some f) := by
  have hkind : a.kind ≠ .shm := by
    intro hshm
    unfold isSharedAnonymous at hanon
    simp [hshm] at hanon
  have hshared := isPrivate_of_isSharedAnonymous hanon
  obtain ⟨hinv, hareas, rest, ⟨hsteady, hframes⟩, hnil⟩ := hs.ensureResidentPages arch ha hkind
    (R := fun vs t ok => Steady everyPage s t ∧ (ok = true →
      ∀ v, a.contains v = true → v ∈ vs ∨ ∃ f, t.dataFrames (p, v) = some f))
    (fun v vs t u ok hinv hareas hat ht heq => by
      have hpage : Steady everyPage t (ensureResident arch p a v t).1 :=
        Steady.ensureResident ht.1.plain
      rw [heq] at hpage
      refine ⟨ht.1.trans hpage, ?_⟩
      rintro rfl w hw
      rcases ht.2 rfl w hw with hmem | ⟨f, hf⟩
      · rcases mem_cons.mp hmem with rfl | hmem
        · exact .inr (ensureResident_frame arch hinv hat hanon heq)
        · exact .inl hmem
      · exact .inr ⟨f, hpage.frames _ f trivial
          ⟨a, hinv.areaAt_of_mem (hareas ▸ ha) hw, hshared⟩ hf⟩)
    ⟨.refl hp, fun _ v hv => .inl (mem_pages.mpr hv)⟩ h
  refine ⟨hinv, hareas, hsteady, ?_⟩
  rintro rfl v hv
  exact (hframes rfl v hv).resolve_left (hnil rfl ▸ not_mem_nil)

/-- The child takes over the frame. -/
lemma Forking.inherits (h : Forking s p q v a) (hanon : State.isSharedAnonymous a = true)
    (hf : s.dataFrames (p, v) = some f) (hrun : s.forkDataPage arch env p q a v = (t, true)) :
    Inherited p q t v := by
  unfold State.forkDataPage at hrun
  cases hkind : a.kind with
  | shm | framed =>
    unfold State.isSharedAnonymous at hanon
    simp [hkind] at hanon
  | mmap info =>
    have hpriv := isPrivate_of_isSharedAnonymous hanon
    unfold isPrivate at hpriv
    have hnot : a.isPrivateUserMmap = false := by
      unfold isPrivateUserMmap
      rw [hkind] at hpriv ⊢
      exact (congrArg (a.perm.u && ·) hpriv).trans (Bool.and_false _)
    have hshared : info.shared = true := by
      rw [hkind] at hpriv
      simpa using hpriv
    simp only [hkind, hf, hnot, hshared, Bool.false_eq_true, if_false, if_true] at hrun
    unfold State.retainInto at hrun
    split at hrun
    · cases hrun
    obtain ⟨rfl, -⟩ := Prod.mk.inj hrun
    have hun := h.unused
    refine ⟨f, ?_, ?_⟩
    all_goals
      unfold State.mapExistingFrameWithFlags
      simp [hun.1, hun.pt h.inv]
    · exact (Function.update_of_ne h.page_ne ..).trans hf
    · exact Function.update_self ..

/-- The loop over the frames of the parent's area hands on those of a shared anonymous area. -/
lemma forkDataPages_inherit (hs : Inv s) (hplain : Plain s) (hqp : q ≠ p) (hp : a ∈ s.areas p)
    (hq : a ∈ s.areas q) (hunused : ∀ v, a.contains v = true → Unused s (q, v))
    (hframes : isSharedAnonymous a = true →
      ∀ v, a.contains v = true → ∃ f, s.dataFrames (p, v) = some f) {ok : Bool}
    (h : whileOk (forkDataPage arch env p q a) a.pages s = (t, ok)) :
    Inv t ∧ t.areas = s.areas ∧ Steady everyPage s t ∧ (isSharedAnonymous a = true →
      ok = true → ∀ v, a.contains v = true → Inherited p q t v) := by
  obtain ⟨hinv, hareas, rest, ⟨hsteady, hpages⟩, hnil⟩ := hs.forkDataPages arch env hqp hp hq
    hunused (R := fun vs t ok => Steady everyPage s t ∧ (isSharedAnonymous a = true → ok = true →
      ∀ v, a.contains v = true → (v ∈ vs ∧ ∃ f, t.dataFrames (p, v) = some f) ∨ Inherited p q t v))
    (fun v vs t u ok hareas hforking ht heq => by
      have hpage : Steady everyPage t (t.forkDataPage arch env p q a v).1 :=
        Steady.forkDataPage hforking ht.1.plain
      rw [heq] at hpage
      refine ⟨ht.1.trans hpage, ?_⟩
      rintro hanon rfl w hw
      have hshared := isPrivate_of_isSharedAnonymous hanon
      have hkeep : ∀ r, a ∈ t.areas r → ∀ f, t.dataFrames (r, w) = some f →
          u.dataFrames (r, w) = some f := fun r hr f hf =>
        hpage.frames _ f trivial ⟨a, hforking.inv.areaAt_of_mem hr hw, hshared⟩ hf
      rw [← hareas] at hp hq
      rcases ht.2 hanon rfl w hw with ⟨hmem, f, hf⟩ | ⟨f, hf, hg⟩
      · rcases mem_cons.mp hmem with rfl | hmem
        · exact .inr (hforking.inherits arch env hanon hf heq)
        · exact .inl ⟨hmem, f, hkeep p hp f hf⟩
      · exact .inr ⟨f, hkeep p hp f hf, hkeep q hq f hg⟩)
    ⟨.refl hplain, fun hanon _ v hv => .inl ⟨mem_pages.mpr hv, hframes hanon v hv⟩⟩ h
  refine ⟨hinv, hareas, hsteady, ?_⟩
  rintro hanon rfl v hv
  exact (hpages hanon rfl v hv).resolve_left fun hmem => absurd (hnil rfl ▸ hmem.1) not_mem_nil

/-- The pages of the area are shared by parent and child, in one frame each. -/
def Handed (p q : Nat) (a : Vma) (t : State) : Prop :=
  ∀ v, a.contains v = true → SharedAt t (p, v) ∧ SharedAt t (q, v) ∧ Inherited p q t v

lemma Handed.steady (h : Handed p q a s) (hst : Steady everyPage s t) : Handed p q a t := by
  intro v hv
  obtain ⟨hparent, hchild, f, hf, hg⟩ := h v hv
  exact ⟨hst.shared _ trivial hparent, hst.shared _ trivial hchild, f,
    hst.frames _ f trivial hparent hf, hst.frames _ f trivial hchild hg⟩

section

variable (hs : Inv s) (hplain : Plain s)
include hs hplain

theorem steady_forkArea (hqp : q ≠ p) (ha : a ∈ s.areas p)
    (hapart : ∀ b ∈ s.areas q, a.Apart b) {idx : Nat} {ok : Bool}
    (h : s.forkArea arch env p q idx a = (t, ok)) : Steady everyPage s t ∧
      (ok = true → isSharedAnonymous a = true → Handed p q a t) := by
  have hresident : ∀ t ok, (if isSharedAnonymous a = true then
      whileOk (ensureResident arch p a) a.pages s else (s, true)) = (t, ok) →
      Steady everyPage s t ∧ Inv t ∧ t.areas = s.areas ∧ (ok = true → isSharedAnonymous a = true →
          ∀ v, a.contains v = true → ∃ f, t.dataFrames (p, v) = some f) := by
    intro t ok heq
    split at heq
    next hanon =>
      obtain ⟨hinv, hareas, hsteady, hframes⟩ :=
        ensureResidentPages_frames arch hs hplain ha hanon heq
      exact ⟨hsteady, hinv, hareas, fun hok _ => hframes hok⟩
    next hanon =>
      cases heq
      exact ⟨.refl hplain, hs, rfl, fun _ h => absurd h hanon⟩
  unfold forkArea at h
  split at h
  next heq =>
    cases h
    exact ⟨(hresident _ false heq).1, nofun⟩
  rename_i t' heq
  obtain ⟨hfirst, ht, hareas, hframes⟩ := hresident t' true heq
  split at h
  next hshm =>
    cases h
    refine ⟨hfirst, fun _ hanon => ?_⟩
    unfold isSharedAnonymous at hanon
    simp [hshm.1] at hanon
  have hok := hs.areas p a ha
  have hapart' : ∀ b ∈ t'.areas q, a.Apart b := by
    rw [hareas]
    exact hapart
  have happ := ht.append hok hapart'
  have happlain : Steady everyPage t' (t'.setAreas q (t'.areas q ++ [a])) :=
    Steady.append ht hfirst.plain hok hapart'
  have hp : a ∈ (t'.setAreas q (t'.areas q ++ [a])).areas p := by
    rw [setAreas_areas_of_ne hqp.symm, hareas]
    exact ha
  have hq : a ∈ (t'.setAreas q (t'.areas q ++ [a])).areas q := by simp
  have hunused : ∀ v, a.contains v = true → Unused (t'.setAreas q (t'.areas q ++ [a])) (q, v) :=
    fun v hv => ht.unused_of_apart hapart' hv
  have hbase := hfirst.trans happlain
  have hinherit : ∀ u ok, whileOk (forkDataPage arch env p q a) a.pages
      (t'.setAreas q (t'.areas q ++ [a])) = (u, ok) → _ := fun u ok hloop =>
    forkDataPages_inherit arch env happ happlain.plain hqp hp hq hunused (hframes rfl) hloop
  split at h
  next hloop =>
    cases h
    exact ⟨hbase.trans (hinherit _ _ hloop).2.2.1, nofun⟩
  next u hloop =>
    obtain ⟨hinv, hsame, hsteady, hinherited⟩ := hinherit u true hloop
    have hext := steady_forkExtPages (K := everyPage) (p := p) (q := q) (a := a) arch env
      hsteady.plain a.pages
    rw [h] at hext
    refine ⟨(hbase.trans hsteady).trans hext, fun _ hanon => ?_⟩
    -- the frames are handed on in the first loop, and the second one leaves them
    have hshared := isPrivate_of_isSharedAnonymous hanon
    have hhanded : Handed p q a u := by
      intro v hv
      exact ⟨⟨a, hinv.areaAt_of_mem (hsame ▸ hp) hv, hshared⟩,
        ⟨a, hinv.areaAt_of_mem (hsame ▸ hq) hv, hshared⟩, hinherited hanon rfl v hv⟩
    exact hhanded.steady hext

theorem steady_forkAreas (hqp : q ≠ p) {rest : List Vma}
    (hrest : rest.Pairwise Vma.Apart) (hp : ∀ a ∈ rest, a ∈ s.areas p)
    (hq : ∀ a ∈ rest, ∀ b ∈ s.areas q, a.Apart b) {idx : Nat} {ok : Bool}
    (h : s.forkAreas arch env p q idx rest = (t, ok)) : Steady everyPage s t ∧ (ok = true →
      ∀ a ∈ rest, isSharedAnonymous a = true → Handed p q a t) := by
  induction rest generalizing s idx with
  | nil =>
    cases h
    exact ⟨.refl hplain, fun _ => nofun⟩
  | cons a rest ih =>
    obtain ⟨hhead, htail⟩ := pairwise_cons.mp hrest
    have hstep := hs.forkArea arch env hqp (hp a mem_cons_self) (hq a mem_cons_self) idx
    unfold forkAreas at h
    split at h
    next heq =>
      cases h
      exact ⟨(steady_forkArea arch env hs hplain hqp (hp a mem_cons_self)
        (hq a mem_cons_self) heq).1, nofun⟩
    next heq =>
      obtain ⟨hfirst, hhanded⟩ := steady_forkArea arch env hs hplain hqp (hp a mem_cons_self)
        (hq a mem_cons_self) heq
      rw [heq] at hstep
      obtain ⟨hlater, hothers⟩ := ih hstep.inv hfirst.plain htail
        (fun b hb => by
          rw [hstep.parent]
          exact hp b (mem_cons_of_mem _ hb))
        (fun b hb c hc => by
          rcases hstep.child c hc with hc | rfl
          · exact hq b (mem_cons_of_mem _ hb) c hc
          · exact (hhead b hb).symm) h
      refine ⟨hfirst.trans hlater, fun hok b hb hanon => ?_⟩
      rcases mem_cons.mp hb with rfl | hb
      · exact (hhanded rfl hanon).steady hlater
      · exact hothers hok b hb hanon

lemma steady_fork (p q : Nat) :
    Steady everyPage s (s.fork arch env p q) := by
  unfold fork
  split
  · exact .refl hplain
  rename_i hguard
  obtain ⟨hqp, hempty⟩ := not_or.mp hguard
  have hempty : s.areas q = [] := Decidable.not_not.mp hempty
  have hareas := hs.forkAreas arch env hqp (hs.disjoint p) (fun a ha => ha)
    (fun a _ b hb => absurd (hempty ▸ hb) not_mem_nil) 0
  split
  next heq =>
    exact (steady_forkAreas arch env hs hplain hqp (hs.disjoint p) (fun a ha => ha)
      (fun a _ b hb => absurd (hempty ▸ hb) not_mem_nil) heq).1
  rename_i t heq
  have hfork := (steady_forkAreas arch env hs hplain hqp (hs.disjoint p) (fun a ha => ha)
    (fun a _ b hb => absurd (hempty ▸ hb) not_mem_nil) heq).1
  rw [heq] at hareas
  -- a child that is dropped had no page before
  have hdrop : Steady (fun x => x.1 ≠ q) t (t.dropAreas q (t.areas q)) :=
    Steady.dropAreas hareas hfork.plain (fun v h => h rfl) (t.areas q)
  have hchain := (hfork.mono fun _ _ => trivial).trans hdrop
  have hother : ∀ x, SharedAt s x → x.1 ≠ q := by
    rintro ⟨_, v⟩ ⟨a, ha, -⟩ rfl
    simp [areaAt, hempty] at ha
  exact ⟨fun x _ hx => hchain.shared x (hother x hx) hx,
    fun x f _ hx hf => hchain.frames x f (hother x hx) hx hf, hchain.plain⟩

/-- **Inheritance**: the child of a completed fork has the parent's frame for each page of a
shared anonymous area. -/
theorem fork_inherits (hqp : q ≠ p) (hempty : s.areas q = [])
    (ha : a ∈ s.areas p) (hanon : isSharedAnonymous a = true) (hv : a.contains v = true)
    (hmapped : ((s.fork arch env p q).areaAt (q, v)).isSome = true) :
    SharedAt (s.fork arch env p q) (p, v) ∧ SharedAt (s.fork arch env p q) (q, v) ∧
      Inherited p q (s.fork arch env p q) v := by
  have hguard : ¬ (q = p ∨ s.areas q ≠ []) := not_or.mpr ⟨hqp, not_not.mpr hempty⟩
  unfold fork at hmapped ⊢
  rw [if_neg hguard] at hmapped ⊢
  cases heq : s.forkAreas arch env p q 0 (s.areas p) with
  | mk t ok =>
    cases ok with
    | true =>
      exact (steady_forkAreas arch env hs hplain hqp (hs.disjoint p) (fun a ha => ha)
        (fun a _ b hb => absurd (hempty ▸ hb) not_mem_nil) heq).2 rfl a ha hanon v hv
    | false =>
      -- the child was dropped, so that it maps nothing
      rw [heq] at hmapped
      simp [areaAt, dropAreas_areas] at hmapped

end

end Loops

/-! ## One step -/

/-- The pages a step does not take away. -/
def Untouched (s : State) : Event → Page → Prop
  | .unmapArea p idx => fun x => ∀ a ∈ (s.areas p)[idx]?, ¬ (x.1 = p ∧ a.contains x.2 = true)
  | .discardRange p idx lo hi => fun x =>
    ∀ a ∈ (s.areas p)[idx]?, ¬ (x.1 = p ∧ a.contains x.2 = true ∧ lo ≤ x.2 ∧ x.2 < hi)
  | .exit p => fun x => x.1 ≠ p
  | _ => everyPage

variable {ev : Event}

/-- **Every step is steady** on the pages it does not take away. -/
theorem Steady.event (hs : Inv s) (hp : Plain s) (hok : StepOk s ev)
    (h : s.event arch ev = some t) : Steady (Untouched s ev) s t := by
  cases ev with
  | chooseFree l =>
    obtain ⟨-, rfl⟩ := of_guard h
    exact .of_eq hp rfl rfl rfl
  | mapArea =>
    cases h
    exact .mapArea hs hp hok.1 hok.2
  | extendArea =>
    cases h
    exact .extendArea hs hp fun a ha => hok a ha
  | pageFault => cases h; exact .pageFault hp ..
  | pageCacheFault => cases h; exact .pageCacheFault hp ..
  | shmMap => cases h; exact .shmMap hp ..
  | sharedWriteFault => cases h; exact .sharedWriteFault hp
  | cowPageFault => cases h; exact .cowPageFault hp
  | splitArea => cases h; exact .splitArea hs hp ..
  | mprotect => cases h; exact .remapPermission hs hp ..
  | unmapArea p idx =>
    cases h
    exact .unmapArea hs hp fun a ha v hv hk => hk a ha ⟨rfl, hv⟩
  | discardRange p idx lo hi =>
    cases h
    exact .discardRange hp fun a ha v hv hlo hhi hk =>
      hk a ha ⟨rfl, Vma.mem_pages.mp hv, hlo, hhi⟩
  | fork p q env => cases h; exact steady_fork arch env hs hp p q
  | exit p =>
    cases h
    exact .dropAreas hs hp (fun v hk => hk rfl) (s.areas p)
  | loadKey => cases h; exact .loadKey hp ..
  | evictKey => cases h; exact .evictKey hp ..
  | store => cases h; exact .store hp ..

/-- A page that is mapped after the step was not taken away by it, `madvise` apart. -/
lemma untouched_of_mapped (hs : Inv s) (h : s.event arch ev = some t)
    (hmapped : (t.areaAt x).isSome = true)
    (hdiscard : ∀ p idx lo hi, ev = .discardRange p idx lo hi → Untouched s ev x) :
    Untouched s ev x := by
  cases ev with
  | unmapArea p idx =>
    rintro a ha ⟨rfl, hv⟩
    cases h
    obtain ⟨b, hb⟩ := isSome_iff_exists.mp hmapped
    obtain ⟨hmem, hbv⟩ := Inv.mem_of_areaAt hb
    unfold State.unmapArea at hmem
    rw [show (s.areas x.1)[idx]? = some a from ha] at hmem
    -- the other areas are apart from the one that goes
    rw [setAreas_areas_self, eraseIdx_eq_take_drop_succ] at hmem
    have hd := hs.disjoint x.1
    rw [Lib.eq_of_getElem? ha, ← singleton_append] at hd
    exact (apart_splice.mp hd).2.2 a (mem_singleton_self a) b hmem x.2 ⟨hv, hbv⟩
  | exit p =>
    rintro rfl
    cases h
    simp [State.areaAt, dropAreas_areas] at hmapped
  | discardRange p idx lo hi => exact hdiscard p idx lo hi rfl
  | mapArea | pageFault | pageCacheFault | shmMap | sharedWriteFault | cowPageFault | splitArea
  | extendArea | mprotect | fork | loadKey | evictKey | store | chooseFree => trivial

/-! ## Inherited pages -/

/-- The address spaces, and the pairs of pages of which one was inherited from the other, or
both from a third, by fork from a shared anonymous mapping, and which have been mapped in
both since. -/
structure Family where
  state : State
  links : List (Page × Page)

namespace Family

def partners (links : List (Page × Page)) (x : Page) : List Page :=
  links.filterMap fun l => if l.1 = x then some l.2 else if l.2 = x then some l.1 else none

/-- The pages of the shared anonymous areas of an address space. -/
def sharedPages (s : State) (p : Nat) : List Nat :=
  ((s.areas p).filter State.isSharedAnonymous).flatMap Vma.pages

/-- The pairs a step adds: a fork links the child's pages with the parent's, and with those the
parent's are linked with. -/
def newLinks (w : Family) : Event → List (Page × Page)
  | .fork p q _ =>
    if q = p ∨ w.state.areas q ≠ [] then []
    else
      (sharedPages w.state p).flatMap fun v =>
        ((p, v), (q, v)) :: (partners w.links (p, v)).map fun y => (y, (q, v))
  | _ => []

def bothMapped (t : State) (l : Page × Page) : Bool :=
  (t.areaAt l.1).isSome && (t.areaAt l.2).isSome

def step (arch : Arch) (w : Family) (ev : Event) : Option Family :=
  (w.state.event arch ev).map fun t => ⟨t, (w.links ++ w.newLinks ev).filter (bothMapped t)⟩

end Family

/-- The runs of `system`, with the record of inheritance. -/
def families (arch : Arch) : System Family Event where
  init w := w.state.Initial ∧ w.links = []
  step := Family.step arch

/-- What a load from the page finds: the frame of its leaf, the frame it has if the leaf is
inaccessible for now, or the zeroed frame of the next fault. -/
def State.loaded (s : State) (x : Page) (offset : Nat) : Byte :=
  match s.pt x, s.dataFrames x with
  | some e, _ => s.bytes e.ppn offset
  | none, some f => s.bytes f offset
  | none, none => 0

/-- The condition on a step: that of `cow_isolation`, and `madvise(MADV_DONTNEED)` is not
applied to a page that is shared by inheritance. -/
def Spared (w : Family) : Event → Prop
  | .discardRange p idx lo hi => ∀ l ∈ w.links, ∀ a ∈ (w.state.areas p)[idx]?,
      ¬ (l.1.1 = p ∧ a.contains l.1.2 = true ∧ lo ≤ l.1.2 ∧ l.1.2 < hi) ∧
        ¬ (l.2.1 = p ∧ a.contains l.2.2 = true ∧ lo ≤ l.2.2 ∧ l.2.2 < hi)
  | ev => StepOk w.state ev

instance : DecidableRel Spared := fun w ev => by
  induction ev using Event.casesOn with
  | discardRange => exact inferInstanceAs (Decidable (∀ l ∈ w.links, _))
  | mapArea => exact inferInstanceAs (Decidable (_ ∧ _))
  | extendArea p idx => exact inferInstanceAs (Decidable (∀ a ∈ (w.state.areas p)[idx]?, _))
  | _ => exact .isTrue trivial

variable {w : Family}

lemma Spared.stepOk (h : Spared w ev) : StepOk w.state ev := by
  cases ev with
  | discardRange => trivial
  | _ => exact h

def OneFrame (s : State) (x y : Page) : Prop :=
  SharedAt s x ∧ SharedAt s y ∧ ∃ f, s.dataFrames x = some f ∧ s.dataFrames y = some f

variable {y : Page}

lemma OneFrame.symm (h : OneFrame s x y) : OneFrame s y x := by
  obtain ⟨hx, hy, f, hf, hg⟩ := h
  exact ⟨hy, hx, f, hg, hf⟩

lemma OneFrame.trans {z : Page} (h : OneFrame s x y) (h' : OneFrame s y z) : OneFrame s x z := by
  obtain ⟨hx, -, f, hf, hg⟩ := h
  obtain ⟨-, hz, f', hf', hg'⟩ := h'
  obtain rfl := some.inj (hg.symm.trans hf')
  exact ⟨hx, hz, f, hf, hg'⟩

lemma OneFrame.steady (h : OneFrame s x y) (hst : Steady K s t) (hx : K x) (hy : K y) :
    OneFrame t x y := by
  obtain ⟨hsx, hsy, f, hf, hg⟩ := h
  exact ⟨hst.shared x hx hsx, hst.shared y hy hsy, f, hst.frames x f hx hsx hf,
    hst.frames y f hy hsy hg⟩

/-- **One frame, one content**: loads from the two pages find the same bytes. -/
theorem OneFrame.loaded (hs : Inv s) (h : OneFrame s x y) (offset : Nat) :
    s.loaded x offset = s.loaded y offset := by
  obtain ⟨-, -, f, hf, hg⟩ := h
  have hload : ∀ z, s.dataFrames z = some f → s.loaded z offset = s.bytes f offset := by
    intro z hz
    unfold State.loaded
    rw [hz]
    cases hpt : s.pt z with
    | none => rfl
    | some e =>
      obtain ⟨a, ha⟩ := (hs.pages z).owned f hz
      exact congrArg (s.bytes · offset) (ha.ppn e hpt)
  rw [hload x hf, hload y hg]

/-- What holds in every state of a run. -/
structure Family.Ok (w : Family) : Prop where
  inv : Inv w.state
  plain : Plain w.state
  linked : ∀ l ∈ w.links, OneFrame w.state l.1 l.2

lemma Family.Ok.partner (h : w.Ok) (hy : y ∈ Family.partners w.links x) : OneFrame w.state y x := by
  obtain ⟨l, hl, heq⟩ := mem_filterMap.mp hy
  split at heq
  next hx =>
    cases heq
    exact hx ▸ (h.linked l hl).symm
  · obtain ⟨hx, rfl⟩ := of_guard heq
    exact hx ▸ h.linked l hl

/-- **The pages a fork links** have one frame, if the child has been completed. -/
theorem Family.Ok.newLinks (h : w.Ok) (hstep : w.state.event arch ev = some t) {l : Page × Page}
    (hl : l ∈ w.newLinks ev) (hmapped : (t.areaAt l.2).isSome = true) : OneFrame t l.1 l.2 := by
  cases ev with
  | fork p q env =>
    simp only [Family.newLinks] at hl
    split at hl
    · cases hl
    rename_i hguard
    obtain ⟨hqp, hempty⟩ := not_or.mp hguard
    have hempty : w.state.areas q = [] := Decidable.not_not.mp hempty
    obtain ⟨v, hv, hl⟩ := mem_flatMap.mp hl
    obtain ⟨a, ha, hv⟩ := mem_flatMap.mp hv
    obtain ⟨ha, hanon⟩ := mem_filter.mp ha
    have hv := Vma.mem_pages.mp hv
    cases hstep
    have hchild : l.2 = (q, v) := by
      rcases mem_cons.mp hl with rfl | hl
      · rfl
      · obtain ⟨y, -, rfl⟩ := mem_map.mp hl
        rfl
    rw [hchild] at hmapped ⊢
    have hparent : OneFrame (w.state.fork arch env p q) (p, v) (q, v) :=
      fork_inherits arch env h.inv h.plain hqp hempty ha hanon hv hmapped
    rcases mem_cons.mp hl with rfl | hl
    · exact hparent
    -- a page that is linked with the parent's has the parent's frame
    obtain ⟨y, hy, rfl⟩ := mem_map.mp hl
    have hkept := (h.partner hy).steady (steady_fork arch env h.inv h.plain p q) trivial trivial
    exact hkept.trans hparent
  | _ => cases hl

/-- **Every step keeps the frames of inherited pages.** -/
theorem Family.Ok.step {w' : Family} (h : w.Ok) (hok : Spared w ev)
    (hstep : w.step arch ev = some w') : w'.Ok := by
  obtain ⟨t, ht, rfl⟩ := map_eq_some_iff.mp hstep
  have hsteady := Steady.event h.inv h.plain hok.stepOk ht
  refine ⟨h.inv.event hok.stepOk ht, hsteady.plain, fun l hl => ?_⟩
  obtain ⟨hl, hmapped⟩ := mem_filter.mp hl
  obtain ⟨hfst, hsnd⟩ := Bool.and_eq_true_iff.mp hmapped
  rcases mem_append.mp hl with hold | hnew
  swap
  · exact h.newLinks ht hnew hsnd
  -- an old pair: neither page was taken away
  refine (h.linked l hold).steady hsteady (untouched_of_mapped h.inv ht hfst ?_)
    (untouched_of_mapped h.inv ht hsnd ?_)
  · rintro p idx lo hi rfl
    exact fun a ha => (hok l hold a ha).1
  · rintro p idx lo hi rfl
    exact fun a ha => (hok l hold a ha).2

lemma Family.Ok.reachable (h : (families arch).Reachable Spared w) : w.Ok := by
  apply h.invariant
  · rintro w ⟨hinit, hlinks⟩
    refine ⟨hinit.inv, fun x e _ he => absurd ((hinit.pt x).symm.trans he) nofun, fun l hl => ?_⟩
    simp [hlinks] at hl
  · exact fun w ev w' hw hok hstep => hw.step hok hstep

/-- **Shared anonymous memory is one memory**: in every state of every run in which
`madvise(MADV_DONTNEED)` spares inherited pages, two processes of which one has inherited a
page of a shared anonymous mapping from the other, and which have both kept it mapped, find
the same bytes in it. -/
theorem shared_anonymous_identity (arch : Arch) {w : Family}
    (h : (families arch).Reachable Spared w) :
    ∀ l ∈ w.links, ∀ offset, w.state.loaded l.1 offset = w.state.loaded l.2 offset := by
  intro l hl offset
  have hok := Family.Ok.reachable h
  exact (hok.linked l hl).loaded hok.inv offset

/-- A page of a shared anonymous mapping is inherited by a child and by its child; the first
process unmaps nothing, the child goes through `PROT_NONE`, and the grandchild stores. -/
def sharedTrace : List Event :=
  [.mapArea 0 (.mmap ⟨true, true, false⟩ true false none) 0 1 fun _ _ => 0,
    .pageFault (0, 0) .write fun _ => 0, .store (0, 0) 0 1, .fork 0 1 forkEnv,
    .mprotect 1 0 ⟨false, false, false⟩, .fork 1 2 forkEnv, .mprotect 2 0 ⟨true, true, false⟩,
    .store (2, 0) 0 2]

theorem shared_anonymous_identity_sharedTrace :
    ∃ w, (families .riscv64).runWhile Spared ⟨boot, []⟩ sharedTrace = some w ∧
      w.links = [((0, 0), (1, 0)), ((1, 0), (2, 0)), ((0, 0), (2, 0))] ∧
      w.state.loaded (0, 0) 0 = 2 ∧
      ∀ l ∈ w.links, ∀ offset, w.state.loaded l.1 offset = w.state.loaded l.2 offset := by
  have hrun : ((families .riscv64).runWhile Spared ⟨boot, []⟩ sharedTrace).map
      (fun w => (w.links, w.state.loaded (0, 0) 0)) =
        some ([((0, 0), (1, 0)), ((1, 0), (2, 0)), ((0, 0), (2, 0))], 2) := by decide
  obtain ⟨w, hreach, hw, hv⟩ := System.exists_reachable hrun ⟨boot_initial, rfl⟩
  obtain ⟨hlinks, hbyte⟩ := Prod.mk.inj hv
  exact ⟨w, hw, hlinks, hbyte, shared_anonymous_identity .riscv64 hreach⟩

/-- The child gives the inherited page back with `madvise(MADV_DONTNEED)`, and faults it in. -/
def dontneedTrace : List Event :=
  [.mapArea 0 (.mmap ⟨true, true, false⟩ true false none) 0 1 fun _ _ => 0,
    .pageFault (0, 0) .write fun _ => 0, .store (0, 0) 0 1, .fork 0 1 forkEnv,
    .discardRange 1 0 0 1, .pageFault (1, 0) .read fun _ => 0]

/-- **`madvise` parts the page**: both processes still map it, and the child's is empty. -/
theorem dontneed_parts_the_page :
    ∃ w, (families .riscv64).runWhile System.anyStep ⟨boot, []⟩ dontneedTrace = some w ∧
      ((0, 0), (1, 0)) ∈ w.links ∧ w.state.loaded (0, 0) 0 = 1 ∧ w.state.loaded (1, 0) 0 = 0 := by
  have hrun : ((families .riscv64).runWhile System.anyStep ⟨boot, []⟩ dontneedTrace).map
      (fun w => (w.links, w.state.loaded (0, 0) 0, w.state.loaded (1, 0) 0)) =
        some ([((0, 0), (1, 0))], 1, 0) := by decide
  obtain ⟨w, hw, hv⟩ := map_eq_some_iff.mp hrun
  simp only [Prod.mk.injEq] at hv
  obtain ⟨hlinks, hparent, hchild⟩ := hv
  exact ⟨w, hw, by simp [hlinks], hparent, hchild⟩

end Whusp.Mm.Sharing
