import Whusp.Mm.SharingAreas

/-!
# Fork keeps the ownership invariant

A page of the child gets a copy of the parent's frame, shares it, or refers to the same page
of the cache.  Sharing for copy-on-write passes through a state in which the parent may still
write to a frame with two owners; the two leaves are therefore edited together
(`Inv.cowInto`): first the parent's leaf is marked, then the child's page is published.
-/

namespace Whusp.Mm.Sharing

open Function List Option
open Whusp.Syscall (Arch PageTableEntry)
open Whusp.Lib (Byte Holders eq_update)

variable {s t : State} {x y : Page} {p q v f : Nat} {a : Vma} {arch : Arch} {env : State.ForkEnv}

/-! ## Marking and sharing -/

variable {e e' : PageTableEntry}

lemma markCowReadonly_eq_some (h : markCowReadonly arch e = some e') :
    e'.ppn = e.ppn ∧ e'.valid = true ∧ e'.readable = e.readable ∧ e'.executable = e.executable ∧
      e'.writable = false ∧ e'.cow = true := by
  unfold markCowReadonly at h
  split at h
  · cases h
  rename_i hvalid
  have hvalid : e.valid = true := by simpa using hvalid
  split at h
  next hcow =>
    cases h
    simp only [Bool.and_eq_true, Bool.not_eq_true'] at hcow
    exact ⟨rfl, hvalid, rfl, rfl, hcow.2, hcow.1⟩
  · cases h
    exact ⟨rfl, newEntry_valid _ _ hvalid, rfl, rfl, rfl, rfl⟩

/-- The leaf of a page is marked copy-on-write. -/
lemma Inv.markCow (hs : Inv s) (hown : s.dataFrames x = some f) (ha : s.areaAt x = some a)
    (he : s.pt x = some e) (hmark : markCowReadonly arch e = some e') :
    Inv (s.setPte x (some e')) := by
  obtain ⟨hppn, hvalid, hr, hx, hw, hcow⟩ := markCowReadonly_eq_some hmark
  obtain ⟨b, hb⟩ := (hs.pages x).owned f hown
  obtain rfl := some.inj (ha.symm.trans hb.area)
  apply hs.setPte_owned hown ha (hppn.trans (hb.ppn e he))
  intro hpriv
  refine ⟨fun _ => ⟨e', rfl, hcow, hw⟩, fun hleaf => ⟨e', rfl, hvalid, ?_⟩, fun e₁ he₁ hw₁ => ?_⟩
  · obtain ⟨e₀, he₀, -, hrx⟩ := (hb.leaf hpriv).leaf hleaf
    rw [hr, hx, some.inj (he.symm.trans he₀)]
    exact hrx
  · cases he₁
    exact absurd (hw.symm.trans hw₁) nofun

open State

open PTEFlags

/-- **Sharing**: an empty page takes over the frame of the page `y`.  In a private area every
owner of the frame, the new one included, has to be mapped copy-on-write. -/
theorem Inv.share (hs : Inv s) {b : Vma} {flags : PTEFlags} (hy : s.dataFrames y = some f)
    (hb : s.areaAt y = some b) (hx : Unused s x) (ha : s.areaAt x = some a) (hkind : a.kind ≠ .shm)
    (hpriv : a.isPrivate = b.isPrivate) (hcow : b.isPrivate = true → (∀ z, s.dataFrames z = some f →
      ∃ e, s.pt z = some e ∧ e.cow = true ∧ e.writable = false) ∧
        flags.cow = true ∧ flags.w = false ∧ (flags.r || flags.x) = true) :
    Inv (mapExistingFrameWithFlags arch
      { s with refs := update s.refs f (s.refs f + 1) } x f flags) := by
  unfold mapExistingFrameWithFlags
  simp only [hx.1, hx.pt hs, isSome_none, Bool.or_self, Bool.false_eq_true, if_false]
  refine hs.setOwned rfl rfl rfl (eq_update hx.2) rfl
    ((hs.ledger.retain hy).give hx.1 rfl rfl hs.ledger.pins rfl rfl) (fun z _ g hg => ?_) ha hkind
    (fun e he => ?_) (fun hap => ?_) fun z _ hz c hc => ?_
  · rcases eq_or_ne g f with rfl | hne
    · refine .inr fun c hc hcp => ?_
      have hbp : b.isPrivate = true := (hs.apart y z g b c hy hg hb hc).trans hcp
      exact (hcow hbp).1 z hg
    · exact .inl (Nat.le_of_eq (update_of_ne hne ..))
  · obtain ⟨-, rfl⟩ := of_guard he
    rfl
  · obtain ⟨-, hfc, hfw, hrx⟩ := hcow (hpriv ▸ hap)
    have hleaf : flags.leaf = true := by
      unfold leaf
      cases hr : flags.r <;> simp_all
    simp only [hleaf, if_true]
    refine ⟨fun _ => ⟨_, rfl, ?_, ?_⟩, fun _ => ⟨_, rfl, newEntry_valid_of_leaf _ _ hleaf, ?_⟩,
      fun e he _ => ?_⟩
    · simpa [newEntry] using hfc
    · simpa [newEntry] using hfw
    · simpa [newEntry] using hrx
    · cases he
      simpa [newEntry] using hrx
  · rw [hpriv]
    exact hs.apart y z f b c hy hz hb hc

/-- The other owners of a frame of a private page are mapped copy-on-write. -/
lemma Inv.cow_of_other (hs : Inv s) (hx : s.dataFrames x = some f) (hy : s.dataFrames y = some f)
    (hne : y ≠ x) (ha : s.areaAt x = some a) (hpriv : a.isPrivate = true) :
    ∃ e, s.pt y = some e ∧ e.cow = true ∧ e.writable = false := by
  obtain ⟨b, hb⟩ := (hs.pages y).owned f hy
  have hbp : b.isPrivate = true := (hs.apart y x f b a hy hx hb.area ha).trans hpriv
  apply (hb.leaf hbp).cow
  obtain ⟨n, c, hn, -, heq⟩ := hs.ledger.owners f
  have htwo := hn.two_le hy hx hne
  omega

/-! ## One page of the child -/

/-- What the step for the page `v` of the child `q` does: the areas stay, and the other empty
pages of the child stay empty. -/
structure PageStep (q v : Nat) (s t : State) : Prop where
  inv : Inv t
  areas : t.areas = s.areas
  rest : ∀ w, w ≠ v → Unused s (q, w) → Unused t (q, w)

lemma PageStep.refl (hs : Inv s) : PageStep q v s s := ⟨hs, rfl, fun _ _ h => h⟩

lemma mk_ne {w : Nat} (h : w ≠ v) : ((q, w) : Page) ≠ (q, v) := fun heq => h (Prod.mk.inj heq).2

/-- The page `v` is in the area `a` of parent and child, and still empty in the child. -/
structure Forking (s : State) (p q v : Nat) (a : Vma) : Prop where
  inv : Inv s
  ne : q ≠ p
  parent : s.areaAt (p, v) = some a
  child : s.areaAt (q, v) = some a
  unused : Unused s (q, v)

namespace Forking

section

variable (h : Forking s p q v a)
include h

lemma page_ne : ((p, v) : Page) ≠ (q, v) :=
  fun heq => h.ne (Prod.mk.inj heq).1.symm

/-- Shared mappings: both have the frame. -/
lemma retainInto {flags : PTEFlags} (hown : s.dataFrames (p, v) = some f)
    (hkind : a.kind ≠ .shm) (hshared : a.isPrivate = false) :
    PageStep q v s (s.retainInto arch env q v f flags).1 := by
  unfold State.retainInto
  split
  · exact .refl h.inv
  refine ⟨?_, mapExisting_areas _, fun w hw hun => Unused.mapExisting hun (mk_ne hw)⟩
  apply h.inv.share hown h.parent h.unused h.child hkind rfl
  intro hpriv
  exact absurd (hshared.symm.trans hpriv) nofun

lemma copyInto (src : Nat) (hkind : a.kind ≠ .shm) :
    PageStep q v s (s.copyInto arch env q v src (PTEFlags.ofPerm a.perm)).1 := by
  unfold State.copyInto
  split
  · exact .refl h.inv
  rename_i halloc
  split
  · exact .refl h.inv
  · refine ⟨h.inv.fresh halloc h.unused.1 (h.unused.pt h.inv) h.child hkind,
      (mapExisting_areas _).trans (frameAlloc_areas halloc), fun w hw hun => ?_⟩
    exact (hun.frameAlloc halloc).mapExisting (mk_ne hw)

end

variable {e : PageTableEntry}

section

variable (h : Forking s p q v a) (hown : s.dataFrames (p, v) = some f)
include h hown

/-- **Copy-on-write**: both have the frame, and neither may write to it. -/
theorem cowInto
    (hkind : a.kind ≠ .shm) (he : s.pt (p, v) = some e) (hvalid : e.valid = true)
    (hrx : (e.readable || e.executable) = true) :
    PageStep q v s (s.cowInto arch env p q v f e).1 := by
  obtain ⟨e', hmark⟩ : ∃ e', markCowReadonly arch e = some e' := by
    unfold markCowReadonly
    rw [if_neg (by simp [hvalid])]
    split
    · simp
    · simp
  have hne := h.page_ne
  have hun := h.unused
  unfold State.cowInto State.retainInto
  split
  next hret =>
    split at hret
    · cases hret
      exact .refl h.inv
    · cases hret
  next hret =>
    split at hret
    · cases hret
    obtain rfl := (Prod.mk.inj hret).1
    -- the child's page is published next to the parent's leaf
    have hchild : (mapExistingFrameWithFlags arch
        { s with refs := update s.refs f (s.refs f + 1) } (q, v) f
          (ofEntry e).toCow) = publishFrame arch
        { s with refs := update s.refs f (s.refs f + 1) } (q, v) f
          (ofEntry e).toCow := by
      unfold mapExistingFrameWithFlags
      simp [hun.1, hun.pt h.inv]
    have hpt : (publishFrame arch { s with refs := update s.refs f (s.refs f + 1) } (q, v) f
          (ofEntry e).toCow).pt (p, v) = some e :=
      (update_of_ne hne ..).trans he
    rw [hchild, hpt, bind_some, hmark]
    -- the two edits commute: mark the parent's leaf, then publish the child's page
    have hswap : setPte (publishFrame arch
        { s with refs := update s.refs f (s.refs f + 1) } (q, v) f
          (ofEntry e).toCow) (p, v) (some e') =
        mapExistingFrameWithFlags arch { s.setPte (p, v) (some e') with
          refs := update s.refs f (s.refs f + 1) } (q, v) f (ofEntry e).toCow := by
      have hnone : update s.pt (p, v) (some e') (q, v) = none :=
        (update_of_ne hne.symm ..).trans (hun.pt h.inv)
      unfold mapExistingFrameWithFlags publishFrame setPte
      simp only [hun.1, hnone, isSome_none, Bool.or_self, Bool.false_eq_true, if_false]
      rw [update_comm hne.symm]
    obtain ⟨-, -, -, -, hw', hcow'⟩ := markCowReadonly_eq_some hmark
    have hmarked := h.inv.markCow hown h.parent he hmark
    show PageStep q v s (setPte _ (p, v) (some e'))
    rw [hswap]
    refine ⟨?_, mapExisting_areas _, fun w hw hunw => Unused.mapExisting hunw (mk_ne hw)⟩
    apply hmarked.share hown h.parent hun h.child hkind rfl
    intro hpriv
    refine ⟨fun z hz => ?_, rfl, rfl, hrx⟩
    rcases eq_or_ne z (p, v) with rfl | hz'
    · exact ⟨e', update_self .., hcow', hw'⟩
    · exact hmarked.cow_of_other hown hz hz' h.parent hpriv

/-- The leaf of a private page that can carry the mark. -/
lemma cowLeaf_eq_some
    (hpriv : a.isPrivate = true) (he : s.cowLeaf (p, v) = some e) :
    s.pt (p, v) = some e ∧ e.valid = true ∧ (e.readable || e.executable) = true := by
  obtain ⟨hpt, hleaf⟩ := filter_eq_some_iff.mp he
  obtain ⟨hvalid, hrwx⟩ := Bool.and_eq_true_iff.mp hleaf
  refine ⟨hpt, hvalid, ?_⟩
  obtain ⟨b, hb⟩ := (h.inv.pages (p, v)).owned f hown
  obtain rfl := some.inj (h.parent.symm.trans hb.area)
  have haccess := (hb.leaf hpriv).access e hpt
  unfold leaf ofEntry at hrwx
  cases hr : e.readable <;> cases hx : e.executable <;> simp_all

end

variable (arch env)

lemma forkDataPage (h : Forking s p q v a) :
    PageStep q v s (s.forkDataPage arch env p q a v).1 := by
  have hok := h.inv.areaOk h.parent
  unfold State.forkDataPage
  split
  · exact .refl h.inv
  next info hkind =>
    have hshm : a.kind ≠ .shm := by
      rw [hkind]
      exact nofun
    have hpriv : a.isPrivate = !info.shared := by
      unfold Vma.isPrivate
      rw [hkind]
    split
    · exact .refl h.inv
    rename_i f hown
    split
    next he =>
      obtain ⟨hmmap, hleaf⟩ := ite_none_right_eq_some.mp he
      have hprivate : a.isPrivate = true := by
        unfold Vma.isPrivateUserMmap at hmmap
        rw [hkind] at hmmap
        rw [hpriv]
        exact (Bool.and_eq_true_iff.mp hmmap).2
      obtain ⟨hpt, hvalid, hrx⟩ := h.cowLeaf_eq_some hown hprivate hleaf
      exact h.cowInto hown hshm hpt hvalid hrx
    · split
      next hshared =>
        apply h.retainInto hown hshm
        rw [hpriv, hshared]
        rfl
      · exact h.copyInto f hshm
  next hkind =>
    have hshm : a.kind ≠ .shm := by
      rw [hkind]
      exact nofun
    have hpriv : a.isPrivate = true := by
      unfold Vma.isPrivate
      rw [hkind]
    split
    next hguard =>
      have hw : a.perm.w = true := by
        exact (Bool.and_eq_true_iff.mp (Bool.and_eq_true_iff.mp hguard).1).1
      split
      · exact .refl h.inv
      · exact .refl h.inv
      rename_i f e hown hpt
      obtain ⟨b, hb⟩ := (h.inv.pages (p, v)).owned f hown
      obtain rfl := some.inj (h.parent.symm.trans hb.area)
      obtain ⟨e', he', hvalid, hrx⟩ :=
        (hb.leaf hpriv).leaf (by simp [leaf, ofPerm, hw])
      obtain rfl := some.inj (hpt.symm.trans he')
      exact h.cowInto (hb.ppn e hpt ▸ hown) hshm hpt hvalid hrx
    · split
      · split
        · exact .refl h.inv
        · exact h.copyInto _ hshm
      rename_i hw
      split
      · exact .refl h.inv
      rename_i f hown
      split
      · split
        next he =>
          obtain ⟨hpt, hvalid, hrx⟩ := h.cowLeaf_eq_some hown hpriv he
          exact h.cowInto hown hshm hpt hvalid hrx
        · exact h.copyInto f hshm
      · -- a framed area is for the user or writable
        rename_i hu
        rcases hok.user with hu' | ⟨-, hw'⟩
        · exact absurd hu' hu
        · exact absurd hw' hw

lemma forkExtPage (hs : Inv s) (hparent : s.areaAt (p, v) = some a)
    (hchild : s.areaAt (q, v) = some a) : PageStep q v s (s.forkExtPage arch env p q a v).1 := by
  have hok := hs.areaOk hparent
  unfold State.forkExtPage
  split
  · exact .refl hs
  rename_i k hk
  obtain ⟨b, e, hb⟩ := (hs.pages (p, v)).ext k hk
  obtain rfl := some.inj (hparent.symm.trans hb.area)
  have hrest : ∀ (ppn : Nat) (flags : PTEFlags) w, w ≠ v → Unused s (q, w) →
      Unused (s.mapExtFrame arch (q, v) k ppn flags) (q, w) :=
    fun ppn flags w hw hun => ⟨hun.1, (update_of_ne (mk_ne hw) ..).trans hun.2⟩
  split
  · exact .refl hs
  · exact .refl hs
  · exact .refl hs
  next hkind hframe =>
    split
    · exact .refl hs
    split
    next hv =>
      exact ⟨hs.mapExt hv hchild hb.fits hframe fun _ => Inv.cacheFlags_w hok hkind, rfl, hrest _ _⟩
    · exact .refl hs
  next hkind hframe =>
    split
    · exact .refl hs
    split
    next hv =>
      refine ⟨hs.mapExt hv hchild hb.fits hframe fun hpriv => ?_, rfl, hrest _ _⟩
      unfold Vma.isPrivate at hpriv
      simp [hkind] at hpriv
    · exact .refl hs

end Forking

/-! ## The loops -/

variable (arch env)

/-- **Loop rule**: what a step keeps, completed or failed, holds when the loop stops. -/
theorem whileOk_keeps {step : Nat → State → State × Bool} {P : List Nat → State → Bool → Prop}
    (hstep : ∀ v vs s t ok, P (v :: vs) s true → step v s = (t, ok) → P vs t ok) {vs : List Nat}
    {ok : Bool} (h : P vs s true) (hrun : whileOk step vs s = (t, ok)) :
    ∃ rest, P rest t ok ∧ (ok = true → rest = []) := by
  induction vs generalizing s with
  | nil =>
    cases hrun
    exact ⟨[], h, fun _ => rfl⟩
  | cons v vs ih =>
    unfold whileOk at hrun
    split at hrun
    next heq =>
      cases hrun
      exact ⟨vs, hstep v vs s _ _ h heq, nofun⟩
    next heq =>
      exact ih (hstep v vs s _ _ h heq) hrun

section

variable (hs : Inv s)
include hs

lemma ensureResident_keeps (ha : s.areaAt (p, v) = some a)
    (hkind : a.kind ≠ .shm) : Inv (ensureResident arch p a v s).1 ∧
      (ensureResident arch p a v s).1.areas = s.areas := by
  unfold ensureResident
  split
  · exact ⟨hs, rfl⟩
  rename_i habsent
  simp only [Bool.or_eq_true, not_or, not_isSome_iff_eq_none] at habsent
  split
  · exact ⟨hs, rfl⟩
  rename_i halloc
  exact ⟨hs.fresh halloc habsent.2 habsent.1 ha hkind,
    (mapExisting_areas _).trans (frameAlloc_areas halloc)⟩

/-- **Loop over the pages of an area**: what every page keeps besides the invariant and the
areas. -/
lemma Inv.pagesLoop {step : Nat → State → State × Bool} {R : List Nat → State → Bool → Prop}
    (hstep : ∀ v vs t u ok, Inv t → t.areas = s.areas → a.contains v = true → v ∉ vs →
      R (v :: vs) t true → step v t = (u, ok) → Inv u ∧ u.areas = t.areas ∧ R vs u ok) {ok : Bool}
    (h : R a.pages s true) (hrun : whileOk step a.pages s = (t, ok)) :
    Inv t ∧ t.areas = s.areas ∧ ∃ rest, R rest t ok ∧ (ok = true → rest = []) := by
  have hloop := whileOk_keeps
    (P := fun vs t ok => Inv t ∧ t.areas = s.areas ∧ vs.Nodup ∧
      (∀ v ∈ vs, a.contains v = true) ∧ R vs t ok)
    (fun v vs t u ok ht heq => by
      obtain ⟨hinv, hareas, hnodup, hin, hr⟩ := ht
      obtain ⟨hv, hrest⟩ := nodup_cons.mp hnodup
      obtain ⟨hinv', hareas', hr'⟩ := hstep v vs t u ok hinv hareas (hin v mem_cons_self) hv hr heq
      exact ⟨hinv', hareas'.trans hareas, hrest, fun w hw => hin w (mem_cons_of_mem _ hw), hr'⟩)
    ⟨hs, rfl, Vma.pages_nodup a, fun v hv => Vma.mem_pages.mp hv, h⟩ hrun
  obtain ⟨rest, ⟨hinv, hareas, -, -, hr⟩, hnil⟩ := hloop
  exact ⟨hinv, hareas, rest, hr, hnil⟩

/-- `ensure_shared_anonymous_mmap_resident`, and what every page keeps besides. -/
lemma Inv.ensureResidentPages {R : List Nat → State → Bool → Prop} (ha : a ∈ s.areas p)
    (hkind : a.kind ≠ .shm)
    (hstep : ∀ v vs t u ok, Inv t → t.areas = s.areas → t.areaAt (p, v) = some a →
      R (v :: vs) t true → ensureResident arch p a v t = (u, ok) → R vs u ok) {ok : Bool}
    (h : R a.pages s true) (hrun : whileOk (ensureResident arch p a) a.pages s = (t, ok)) :
    Inv t ∧ t.areas = s.areas ∧ ∃ rest, R rest t ok ∧ (ok = true → rest = []) := by
  refine hs.pagesLoop (fun v vs t u ok hinv hareas hv _ hr heq => ?_) h hrun
  have hat := hinv.areaAt_of_mem (hareas ▸ ha) hv
  have hkeeps := ensureResident_keeps arch hinv hat hkind
  rw [heq] at hkeeps
  exact ⟨hkeeps.1, hkeeps.2, hstep v vs t u ok hinv hareas hat hr heq⟩

/-- The loop over the frames of the parent's area, and what every page keeps besides. -/
lemma Inv.forkDataPages {R : List Nat → State → Bool → Prop} (hqp : q ≠ p) (hp : a ∈ s.areas p)
    (hq : a ∈ s.areas q) (hunused : ∀ v, a.contains v = true → Unused s (q, v))
    (hstep : ∀ v vs t u ok, t.areas = s.areas → Forking t p q v a → R (v :: vs) t true →
      t.forkDataPage arch env p q a v = (u, ok) → R vs u ok) {ok : Bool} (h : R a.pages s true)
    (hrun : whileOk (forkDataPage arch env p q a) a.pages s = (t, ok)) :
    Inv t ∧ t.areas = s.areas ∧ ∃ rest, R rest t ok ∧ (ok = true → rest = []) := by
  obtain ⟨hinv, hareas, rest, ⟨-, hr⟩, hnil⟩ := hs.pagesLoop
    (R := fun vs t ok => (∀ v ∈ vs, Unused t (q, v)) ∧ R vs t ok)
    (fun v vs t u ok hinv hareas hv hnot ht heq => by
      have hforking : Forking t p q v a :=
        ⟨hinv, hqp, hinv.areaAt_of_mem (hareas ▸ hp) hv, hinv.areaAt_of_mem (hareas ▸ hq) hv,
          ht.1 v mem_cons_self⟩
      have hpage := hforking.forkDataPage arch env
      rw [heq] at hpage
      exact ⟨hpage.inv, hpage.areas, fun w hw => hpage.rest w (fun heq => hnot (heq ▸ hw))
        (ht.1 w (mem_cons_of_mem _ hw)), hstep v vs t u ok hareas hforking ht.2 heq⟩)
    ⟨fun v hv => hunused v (Vma.mem_pages.mp hv), h⟩ hrun
  exact ⟨hinv, hareas, rest, hr, hnil⟩

/-- The loop over the cached and segment pages of the parent's area. -/
lemma Inv.forkExtPages (hp : a ∈ s.areas p) (hq : a ∈ s.areas q) :
    Inv (whileOk (forkExtPage arch env p q a) a.pages s).1 ∧
      (whileOk (forkExtPage arch env p q a) a.pages s).1.areas = s.areas := by
  obtain ⟨hinv, hareas, -⟩ := hs.pagesLoop (R := fun _ _ _ => True)
    (fun v _ t u ok hinv hareas hv _ _ heq => by
      have hpage := Forking.forkExtPage arch env hinv (hinv.areaAt_of_mem (hareas ▸ hp) hv)
        (hinv.areaAt_of_mem (hareas ▸ hq) hv)
      rw [heq] at hpage
      exact ⟨hpage.inv, hpage.areas, trivial⟩) trivial
    (show whileOk (forkExtPage arch env p q a) a.pages s = (_, _) from rfl)
  exact ⟨hinv, hareas⟩

/-- What the loop over the areas keeps: the parent's areas, and the child's areas are among
those done. -/
structure AreaStep (p q : Nat) (a : Vma) (s t : State) : Prop where
  inv : Inv t
  parent : t.areas p = s.areas p
  child : ∀ b ∈ t.areas q, b ∈ s.areas q ∨ b = a

/-- **One area of the parent**, which is apart from the areas the child has so far. -/
theorem Inv.forkArea (hqp : q ≠ p) (ha : a ∈ s.areas p)
    (hapart : ∀ b ∈ s.areas q, a.Apart b) (idx : Nat) :
    AreaStep p q a s (s.forkArea arch env p q idx a).1 := by
  have hresident : ∀ t ok, (if isSharedAnonymous a = true then
      whileOk (ensureResident arch p a) a.pages s else (s, true)) = (t, ok) →
      Inv t ∧ t.areas = s.areas := by
    intro t ok heq
    split at heq
    next hanon =>
      have hkind : a.kind ≠ .shm := by
        intro hshm
        unfold isSharedAnonymous at hanon
        simp [hshm] at hanon
      obtain ⟨hinv, hareas, -⟩ := hs.ensureResidentPages arch (R := fun _ _ _ => True) ha hkind
        (fun _ _ _ _ _ _ _ _ _ _ => trivial) trivial heq
      exact ⟨hinv, hareas⟩
    · cases heq
      exact ⟨hs, rfl⟩
  unfold State.forkArea
  split
  next t heq =>
    obtain ⟨ht, hareas⟩ := hresident t false heq
    exact ⟨ht, by rw [hareas], fun b hb => .inl (hareas ▸ hb)⟩
  rename_i t heq
  obtain ⟨ht, hareas⟩ := hresident t true heq
  split
  · exact ⟨ht, by rw [hareas], fun b hb => .inl (hareas ▸ hb)⟩
  have hok := hs.areas p a ha
  have hapart' : ∀ b ∈ t.areas q, a.Apart b := by
    rw [hareas]
    exact hapart
  have happ := ht.append hok hapart'
  have hpq : (t.setAreas q (t.areas q ++ [a])).areas p = s.areas p := by
    rw [setAreas_areas_of_ne hqp.symm, hareas]
  have hchild : (t.setAreas q (t.areas q ++ [a])).areas q = s.areas q ++ [a] := by
    rw [setAreas_areas_self, hareas]
  have hdata : ∀ u ok, whileOk (State.forkDataPage arch env p q a) a.pages
      (t.setAreas q (t.areas q ++ [a])) = (u, ok) →
      Inv u ∧ u.areas = (t.setAreas q (t.areas q ++ [a])).areas := by
    intro u ok hrun
    obtain ⟨hinv, hsame, -⟩ := happ.forkDataPages arch env (R := fun _ _ _ => True) hqp
      (hpq ▸ ha) (by simp) (fun v hv => ht.unused_of_apart hapart' hv)
      (fun _ _ _ _ _ _ _ _ _ => trivial) trivial hrun
    exact ⟨hinv, hsame⟩
  have hdone : ∀ u : State, Inv u → u.areas = (t.setAreas q (t.areas q ++ [a])).areas →
      AreaStep p q a s u := by
    intro u hu heq
    refine ⟨hu, by rw [heq, hpq], fun b hb => ?_⟩
    rw [heq, hchild] at hb
    simpa using hb
  split
  next u hloop =>
    obtain ⟨hdata, hsame⟩ := hdata u false hloop
    exact hdone u hdata hsame
  next u hloop =>
    obtain ⟨hdata, hsame⟩ := hdata u true hloop
    have hext := hdata.forkExtPages arch env (p := p) (q := q) (a := a)
      (by rw [hsame, hpq]; exact ha) (by rw [hsame, hchild]; simp)
    exact hdone _ hext.1 (hext.2.trans hsame)

lemma Inv.forkAreas (hqp : q ≠ p) {rest : List Vma} (hrest : rest.Pairwise Vma.Apart)
    (hp : ∀ a ∈ rest, a ∈ s.areas p) (hq : ∀ a ∈ rest, ∀ b ∈ s.areas q, a.Apart b) (idx : Nat) :
    Inv (s.forkAreas arch env p q idx rest).1 := by
  induction rest generalizing s idx with
  | nil => exact hs
  | cons a rest ih =>
    obtain ⟨hhead, htail⟩ := pairwise_cons.mp hrest
    have hstep := hs.forkArea arch env hqp (hp a mem_cons_self)
      (hq a mem_cons_self) idx
    unfold forkAreas
    split
    next heq =>
      rw [heq] at hstep
      exact hstep.inv
    rename_i heq
    rw [heq] at hstep
    apply ih hstep.inv htail
    · intro b hb
      rw [hstep.parent]
      exact hp b (mem_cons_of_mem _ hb)
    · intro b hb c hc
      rcases hstep.child c hc with hc | rfl
      · exact hq b (mem_cons_of_mem _ hb) c hc
      · exact (hhead b hb).symm

/-- **Fork**, whether the child is completed or dropped. -/
theorem Inv.fork (p q : Nat) : Inv (s.fork arch env p q) := by
  unfold State.fork
  split
  · exact hs
  rename_i hguard
  obtain ⟨hqp, hempty⟩ := not_or.mp hguard
  have hempty : s.areas q = [] := Decidable.not_not.mp hempty
  have hareas := hs.forkAreas arch env hqp (hs.disjoint p) (fun a ha => ha)
    (fun a _ b hb => absurd (hempty ▸ hb) not_mem_nil) 0
  split
  next heq =>
    rwa [heq] at hareas
  next heq =>
    rw [heq] at hareas
    exact hareas.dropAreas fun a ha => .inl ha

end

end Whusp.Mm.Sharing
