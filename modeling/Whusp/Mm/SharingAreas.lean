import Whusp.Mm.SharingOps

/-!
# The area operations keep the ownership invariant

Mapping, splitting, extending and unmapping areas, and `mprotect`.  The operations on the
list of areas are one operation: a stretch of the list is replaced by another, which covers
the pages that are in use with the same kind and permission (`Inv.splice`).
-/

namespace Whusp.Mm.Sharing

open Function List
open Whusp.Syscall (Arch PageTableEntry)
open Whusp.Lib (Byte Holders eq_update)

variable {s t : State} {x y : Page} {p v f : Nat} {a : Vma} {arch : Arch}

/-! ## Lists of areas -/

variable {b : Vma} {A B : List Vma} {start stop : Nat} {n : NewArea} {contents : Nat → Byte}
  {vs : List Nat} {k : Key} {e : PageTableEntry} {pte : Option PageTableEntry}

lemma Vma.Apart.symm (h : a.Apart b) : b.Apart a := fun v hv => h v hv.symm

lemma Vma.mem_pages : v ∈ a.pages ↔ a.contains v = true := by
  unfold Vma.pages Vma.contains
  rw [mem_range'_1]
  simp only [Bool.and_eq_true, decide_eq_true_eq]
  omega

lemma Vma.pages_nodup (a : Vma) : a.pages.Nodup := nodup_range'

/-- The areas of a list with an inserted stretch do not overlap. -/
lemma apart_splice {as : List Vma} : (A ++ (as ++ B)).Pairwise Vma.Apart ↔
    as.Pairwise Vma.Apart ∧ (A ++ B).Pairwise Vma.Apart ∧ ∀ a ∈ as, ∀ b ∈ A ++ B, a.Apart b := by
  rw [(perm_append_comm_assoc A as B).pairwise_iff fun h => Vma.Apart.symm h, pairwise_append]

/-- **Edit of the areas**: the areas `C` are replaced by `D`. -/
theorem Inv.splice (hs : Inv s) {C D : List Vma} (h : s.areas p = A ++ (C ++ B))
    (hkeep : ∀ a ∈ C, ∀ v, a.contains v = true → ¬ Unused s (p, v) →
      ∃ b ∈ D, b.contains v = true ∧ b.perm = a.perm ∧ b.kind = a.kind)
    (hok : ∀ b ∈ D, b.Ok) (hD : D.Pairwise Vma.Apart)
    (hapart : ∀ b ∈ D, ∀ c ∈ A ++ B, b.Apart c) : Inv (s.setAreas p (A ++ (D ++ B))) := by
  have hmem := hs.areas p
  have hd := hs.disjoint p
  rw [h] at hmem hd
  have hnew := apart_splice.mpr ⟨hD, (apart_splice.mp hd).2.1, hapart⟩
  refine hs.setAreas (fun v huse a ha => ?_) (fun b hb => ?_) hnew
  · obtain ⟨hin, hv⟩ := mem_of_areaAt ha
    rw [show s.areas (p, v).1 = A ++ (C ++ B) from h] at hin
    simp only [mem_append] at hin
    rcases hin with hin | hin | hin
    · exact ⟨a, find_contains hnew (by simp [hin]) hv, rfl, rfl⟩
    · have hused : ¬ Unused s (p, v) := fun hun => huse.elim (· hun.1) (· hun.2)
      obtain ⟨b, hb, hbv, hperm, hkind⟩ := hkeep a hin v hv hused
      exact ⟨b, find_contains hnew (by simp [hb]) hbv, hperm, hkind⟩
    · exact ⟨a, find_contains hnew (by simp [hin]) hv, rfl, rfl⟩
  · simp only [mem_append] at hb
    rcases hb with hb | hb | hb
    · exact hmem b (by simp [hb])
    · exact hok b hb
    · exact hmem b (by simp [hb])

lemma Inv.append (hs : Inv s) (hok : a.Ok) (hapart : ∀ b ∈ s.areas p, a.Apart b) :
    Inv (s.setAreas p (s.areas p ++ [a])) := by
  have h := hs.splice (p := p) (A := s.areas p) (C := []) (D := [a]) (B := []) (by simp) nofun
  simp only [append_nil, mem_singleton, forall_eq] at h
  exact h hok (pairwise_singleton ..) hapart

/-! ## Unmapping -/

open State

lemma Inv.unmapArea (hs : Inv s) (p idx : Nat) : Inv (s.unmapArea p idx) := by
  unfold State.unmapArea
  split
  · exact hs
  rename_i a ha
  rw [eraseIdx_eq_take_drop_succ]
  have hdrop := hs.dropPages p a.pages
  have hareas : (s.dropPages p a.pages).areas p =
      (s.areas p).take idx ++ ([a] ++ (s.areas p).drop (idx + 1)) := by
    rw [dropPages_areas]
    exact Lib.eq_of_getElem? ha
  apply hdrop.splice (D := []) hareas _ nofun List.Pairwise.nil nofun
  intro b hb v hv hused
  obtain rfl := mem_singleton.mp hb
  exact absurd (unused_dropPages hs (Vma.mem_pages.mpr hv)) hused

lemma Inv.discardRange (hs : Inv s) (p idx lo hi : Nat) : Inv (s.discardRange p idx lo hi) := by
  unfold State.discardRange
  split
  · exact hs
  split
  · exact hs.dropPages ..
  · exact hs

/-- **Dropping an address space**: the pages of every area are emptied before the list is. -/
theorem Inv.dropAreas (hs : Inv s) {l : List Vma}
    (h : ∀ a ∈ s.areas p, a ∈ l ∨ ∀ v, a.contains v = true → Unused s (p, v)) :
    Inv (s.dropAreas p l) := by
  induction l generalizing s with
  | nil =>
    have hempty := hs.splice (p := p) (A := []) (C := s.areas p) (D := []) (B := []) (by simp)
    apply hempty _ nofun List.Pairwise.nil nofun
    intro a ha v hv hused
    rcases h a ha with hin | hunused
    · cases hin
    · exact absurd (hunused v hv) hused
  | cons b rest ih =>
    apply ih (hs.dropPages p b.pages)
    intro a ha
    rw [dropPages_areas] at ha
    rcases h a ha with hin | hunused
    · rcases mem_cons.mp hin with rfl | hin
      · exact .inr fun v hv => unused_dropPages hs (Vma.mem_pages.mpr hv)
      · exact .inl hin
    · exact .inr fun v hv => (hunused v hv).dropPages

lemma dropAreas_areas (s : State) (p : Nat) (l : List Vma) : (s.dropAreas p l).areas p = [] := by
  induction l generalizing s with
  | nil => exact setAreas_areas_self ..
  | cons b rest ih => exact ih _

/-! ## Splitting and extending -/

lemma Vma.Ok.of_range (h : a.Ok) (hperm : b.perm = a.perm) (hkind : b.kind = a.kind) : b.Ok := by
  refine ⟨?_, ?_, ?_⟩
  · rw [hperm]
    exact h.access
  · rw [hperm, hkind]
    exact h.user
  · rw [hperm, hkind]
    exact h.mmap

lemma Inv.splitArea (hs : Inv s) (p idx at_ : Nat) : Inv (s.splitArea p idx at_) := by
  unfold State.splitArea
  split
  · exact hs
  rename_i a ha
  split
  swap
  · exact hs
  rw [Lib.insertAt_set ha]
  have hareas : s.areas p = (s.areas p).take idx ++ ([a] ++ (s.areas p).drop (idx + 1)) :=
    Lib.eq_of_getElem? ha
  have hd := hs.disjoint p
  rw [hareas, apart_splice] at hd
  have hok := hs.areas p a (mem_of_getElem? ha)
  apply hs.splice (D := [{ a with stop := at_ }, { a with start := at_ }]) hareas
  · intro b hb v hv _
    obtain rfl := mem_singleton.mp hb
    simp only [Vma.contains, Bool.and_eq_true, decide_eq_true_eq] at hv
    rcases lt_or_ge v at_ with hlt | hge
    · exact ⟨_, mem_cons_self, by simp [Vma.contains, hv, hlt], rfl, rfl⟩
    · exact ⟨_, mem_cons_of_mem _ mem_cons_self, by simp [Vma.contains, hv, hge], rfl,
        rfl⟩
  · simp only [mem_cons, not_mem_nil, or_false, forall_eq_or_imp, forall_eq]
    exact ⟨hok.of_range rfl rfl, hok.of_range rfl rfl⟩
  · refine pairwise_pair.mpr fun v hv => ?_
    simp only [Vma.contains, Bool.and_eq_true, decide_eq_true_eq] at hv
    omega
  · simp only [mem_cons, not_mem_nil, or_false, forall_eq_or_imp, forall_eq]
    constructor
    all_goals
      intro c hc v hv
      apply hd.2.2 a (mem_singleton_self a) c hc v
      simp only [Vma.contains, Bool.and_eq_true, decide_eq_true_eq] at hv ⊢
      omega

/-- An area may grow into pages that are in no other area. -/
lemma Inv.extendArea (hs : Inv s) {idx : Nat}
    (hapart : ∀ a, (s.areas p)[idx]? = some a → ∀ b ∈ (s.areas p).eraseIdx idx,
      Vma.Apart { a with start := start, stop := stop } b) :
    Inv (s.extendArea p idx start stop) := by
  unfold State.extendArea
  split
  · exact hs
  rename_i a ha
  split
  swap
  · exact hs
  rw [Lib.set_eq_of_getElem? ha]
  have hfree := hapart a ha
  rw [eraseIdx_eq_take_drop_succ] at hfree
  have hok := hs.areas p a (mem_of_getElem? ha)
  apply hs.splice (C := [a]) (D := [{ a with start := start, stop := stop }])
    (Lib.eq_of_getElem? ha)
  · intro b hb v hv _
    obtain rfl := mem_singleton.mp hb
    refine ⟨_, mem_singleton_self _, ?_, rfl, rfl⟩
    simp only [Vma.contains, Bool.and_eq_true, decide_eq_true_eq] at hv ⊢
    omega
  · simp only [mem_singleton, forall_eq]
    exact hok.of_range rfl rfl
  · simp
  · simp only [mem_singleton, forall_eq]
    exact hfree

/-! ## Mapping -/

/-- Write permission comes with read or execute permission.  `prot_to_map_permission` sees to
it; the flags of a program header need not have it. -/
def NewArea.Accessible (n : NewArea) : Prop := n.perm.w = true → (n.perm.r || n.perm.x) = true

instance (n : NewArea) : Decidable n.Accessible := inferInstanceAs (Decidable (_ → _))

lemma NewArea.ok (h : n.Accessible) (start stop : Nat) : (n.toVma start stop).Ok := by
  refine ⟨h, ?_, fun info hinfo => ?_⟩
  · cases n with
    | trapContext => exact .inr ⟨rfl, rfl⟩
    | _ => exact .inl rfl
  · cases n with
    | execSegment | mmap =>
      cases hinfo
      exact ⟨rfl, rfl⟩
    | _ => cases hinfo

lemma Unused.mapExisting {flags : PTEFlags} (h : Unused s y) (hne : y ≠ x) :
    Unused (s.mapExistingFrameWithFlags arch x f flags) y := by
  unfold mapExistingFrameWithFlags
  split
  · split <;> exact h
  · exact ⟨(update_of_ne hne ..).trans h.1, h.2⟩

lemma mapExisting_areas (flags : PTEFlags) :
    (s.mapExistingFrameWithFlags arch x f flags).areas = s.areas := by
  unfold mapExistingFrameWithFlags
  split
  · split <;> rfl
  · rfl

lemma Unused.frameAlloc (h : Unused s y) (halloc : s.frameAlloc contents = some (f, t)) :
    Unused t y := by
  obtain ⟨rest, -, rfl⟩ := Ledger.frameAlloc_eq_some halloc
  exact h

lemma frameAlloc_areas (halloc : s.frameAlloc contents = some (f, t)) : t.areas = s.areas := by
  obtain ⟨rest, -, rfl⟩ := Ledger.frameAlloc_eq_some halloc
  rfl

lemma areaAt_congr (h : t.areas = s.areas) (x : Page) : t.areaAt x = s.areaAt x := by
  unfold areaAt
  rw [h]

lemma Inv.populate (hs : Inv s) {contents : Nat → Nat → Byte} (hkind : a.kind ≠ .shm)
    (hnodup : vs.Nodup) (h : ∀ v ∈ vs, s.areaAt (p, v) = some a ∧ Unused s (p, v))
    (hpop : s.populate arch p (PTEFlags.ofPerm a.perm) contents vs = some t) : Inv t := by
  induction vs generalizing s with
  | nil =>
    cases hpop
    exact hs
  | cons v vs ih =>
    obtain ⟨hv, hrest⟩ := nodup_cons.mp hnodup
    obtain ⟨hat, hunused⟩ := h v mem_cons_self
    unfold populate at hpop
    split at hpop
    · cases hpop
    rename_i halloc
    apply ih (hs.fresh halloc hunused.1 (hunused.pt hs) hat hkind) hrest _ hpop
    -- the pages that follow are still empty
    intro w hw
    obtain ⟨hatw, hunusedw⟩ := h w (mem_cons_of_mem _ hw)
    have hne : ((p, w) : Page) ≠ (p, v) := fun heq => hv ((Prod.mk.inj heq).2 ▸ hw)
    refine ⟨?_, (hunusedw.frameAlloc halloc).mapExisting hne⟩
    rw [areaAt_congr ((mapExisting_areas _).trans (frameAlloc_areas halloc))]
    exact hatw

/-- A page outside every area is empty. -/
lemma Inv.unused_of_apart (hs : Inv s) (h : ∀ b ∈ s.areas p, a.Apart b)
    (hv : a.contains v = true) : Unused s (p, v) := by
  have hnone : s.areaAt (p, v) = none := by
    apply find?_eq_none.mpr
    intro b hb hbv
    exact h b hb v ⟨hv, hbv⟩
  exact ⟨(hs.vacant_of_areaAt_none hnone).1, (hs.vacant_of_areaAt_none hnone).2.1⟩

open PTEFlags

lemma Inv.mapArea (hs : Inv s) {contents : Nat → Nat → Byte} (hn : n.Accessible)
    (hapart : ∀ b ∈ s.areas p, (n.toVma start stop).Apart b) :
    Inv (s.mapArea arch p n start stop contents) := by
  have hmapped := hs.append (NewArea.ok hn start stop) hapart
  unfold State.mapArea
  dsimp only
  split
  swap
  · exact hmapped
  rename_i heager
  cases hpop : State.populate arch (s.setAreas p (s.areas p ++ [n.toVma start stop])) p
      (ofPerm (n.toVma start stop).perm) contents (n.toVma start stop).pages with
  | none => exact hs
  | some t =>
    apply hmapped.populate _ (Vma.pages_nodup _) _ hpop
    · intro hshm
      cases n with
      | shm => cases heager
      | _ => cases hshm
    · intro v hv
      have hv := Vma.mem_pages.mp hv
      refine ⟨hmapped.areaAt_of_mem (by simp) hv, hs.unused_of_apart hapart hv⟩

/-! ## Protection -/

variable {perm : MapPermission}

/-- The leaf of a frame with one owner, mapped with an accessible permission. -/
lemma leafOk_newEntry (old : MapPermission) (arch : Arch) (f : Nat)
    (hrx : (perm.r || perm.x) = true) :
    LeafOk old 1 (some (newEntry arch f (ofPerm perm).normalized)) := by
  have hentry : ((newEntry arch f (ofPerm perm).normalized).readable ||
      (newEntry arch f (ofPerm perm).normalized).executable) = true := by
    simpa [newEntry, ofPerm] using hrx
  have hleaf : (ofPerm perm).leaf = true := by
    unfold leaf ofPerm
    cases hr : perm.r <;> simp_all
  refine ⟨fun htwo => absurd htwo (by decide), fun _ => ⟨_, rfl, newEntry_valid_of_leaf _ _ hleaf,
    hentry⟩, fun e he _ => ?_⟩
  cases he
  exact hentry

/-- One page of `materialize_page_cache_pages`: a cached page becomes a copy of its own. -/
lemma Inv.materialize (hs : Inv s) (halloc : s.frameAlloc contents = some (f, t))
    (hext : s.extPages x = some k) (ha : s.areaAt x = some a) (hkind : a.kind ≠ .shm)
    (hrx : (perm.r || perm.x) = true) : Inv { t with
      pt := update t.pt x (some (newEntry arch f (ofPerm perm).normalized))
      dataFrames := update t.dataFrames x (some f)
      extPages := update t.extPages x none
      pins := update t.pins k (t.pins k - 1) } := by
  obtain ⟨b, e, hb⟩ := (hs.pages x).ext k hext
  have hledger := hs.ledger.alloc halloc
  obtain ⟨rest, hfree, rfl⟩ := Ledger.frameAlloc_eq_some halloc
  have hne : ∀ y g, s.dataFrames y = some g → g ≠ f := fun y g => hs.ledger.ne_of_free hfree
  refine hs.setOwned rfl rfl rfl rfl rfl
    (hledger.give hb.own rfl rfl (Holders.erase_all hs.ledger.pins hext) rfl rfl)
    (fun y _ g hg => .inl ?_) ha hkind (fun e' he' => ?_) (fun _ => ?_)
    fun y _ hy => absurd rfl (hne y f hy)
  · exact le_of_eq (update_of_ne (hne y g hg) ..)
  · cases he'
    rfl
  · exact (leafOk_newEntry a.perm arch f hrx).of_eq (update_self ..)

lemma Inv.materializePages (hs : Inv s) (hkind : a.kind ≠ .shm)
    (hrx : (perm.r || perm.x) = true) (h : ∀ v ∈ vs, s.areaAt (p, v) = some a)
    (hmat : s.materializePages arch p (ofPerm perm) vs = some t) :
    Inv t ∧ t.areas = s.areas := by
  induction vs generalizing s with
  | nil =>
    cases hmat
    exact ⟨hs, rfl⟩
  | cons v vs ih =>
    have hrest : ∀ w ∈ vs, s.areaAt (p, w) = some a := fun w hw => h w (mem_cons_of_mem _ hw)
    unfold materializePages at hmat
    split at hmat
    next hext hpt =>
      split at hmat
      · cases hmat
      rename_i halloc
      have hareas := frameAlloc_areas halloc
      obtain ⟨hinv, heq⟩ := ih (hs.materialize halloc hext (h v mem_cons_self) hkind hrx)
        (fun w hw => (areaAt_congr hareas _).trans (hrest w hw)) hmat
      exact ⟨hinv, heq.trans hareas⟩
    · cases hmat
    · exact ih hs hrest hmat

lemma remappedArea_isPrivate (a : Vma) (perm : MapPermission) :
    (State.remappedArea a perm).isPrivate = a.isPrivate := by
  unfold remappedArea Vma.isPrivate
  cases a.kind <;> rfl

lemma remappedArea_ok (hu : perm.u = true) (hw : perm.w = true → (perm.r || perm.x) = true) :
    (State.remappedArea a perm).Ok := by
  refine ⟨hw, .inl hu, fun info hinfo => ?_⟩
  unfold remappedArea at hinfo
  split at hinfo
  · cases hinfo
    exact ⟨rfl, hu⟩
  next hkind =>
    exact absurd hinfo (hkind info)

lemma KeyFits.remapped (h : KeyFits k a.kind) : KeyFits k (State.remappedArea a perm).kind := by
  unfold remappedArea
  cases hkind : a.kind with
  | mmap info =>
    rw [hkind] at h
    cases k with
    | file | segment => exact h
  | framed | shm =>
    rwa [hkind] at h

lemma remapResidentFrame_none (perm : MapPermission) (b : Bool) :
    remapResidentFrame arch none f (ofPerm perm) b =
      if b = true then some (newEntry arch f (ofPerm perm).normalized) else none := by
  cases b <;> rfl

open Option

lemma remapResidentFrame_cow (h : e.cow = true) (flags : PTEFlags) (b : Bool) :
    remapResidentFrame arch (some e) f flags b =
      some (newEntry arch e.ppn flags.toCow.normalized) := by
  unfold remapResidentFrame
  simp only [any_some, h, if_true]
  cases b <;> rfl

lemma remapResidentFrame_plain (h : e.cow = false) (perm : MapPermission) (b : Bool) :
    remapResidentFrame arch (some e) f (ofPerm perm) b =
      if b = true then some (newEntry arch e.ppn (ofPerm perm).normalized) else none := by
  unfold remapResidentFrame
  simp only [any_some, h, Bool.false_eq_true, if_false]
  cases b <;> rfl

lemma remapResidentFrame_ppn {b : Bool} (h : ∀ e, pte = some e → e.ppn = f)
    (he : remapResidentFrame arch pte f (ofPerm perm) b = some e) : e.ppn = f := by
  cases pte with
  | none =>
    obtain ⟨-, rfl⟩ := of_guard he
    rfl
  | some e₀ =>
    cases hcow : e₀.cow with
    | true =>
      rw [remapResidentFrame_cow hcow] at he
      cases he
      exact h e₀ rfl
    | false =>
      rw [remapResidentFrame_plain hcow] at he
      obtain ⟨-, rfl⟩ := of_guard he
      exact h e₀ rfl

/-- **`mprotect` keeps shared frames copy-on-write**: a page that is mapped copy-on-write
stays so under any permission, and only other pages become writable. -/
theorem leafOk_remapResidentFrame {old : MapPermission} {n : Nat} (h : LeafOk old n pte)
    (hw : perm.w = true → (perm.r || perm.x) = true) :
    LeafOk perm n (remapResidentFrame arch pte f (ofPerm perm)
      (ofPerm perm).leaf) := by
  -- a page that is not copy-on-write has one owner, and its leaf follows the permission
  have hplain : ∀ ppn, n < 2 → LeafOk perm n (if (ofPerm perm).leaf = true then
      some (newEntry arch ppn (ofPerm perm).normalized) else none) := by
    intro ppn hn
    split
    next hleaf =>
      have hone := leafOk_newEntry perm arch ppn (readable_or_executable_of_leaf hw hleaf)
      exact { hone with cow := fun htwo => by omega }
    next hleaf =>
      exact ⟨fun htwo => by omega, fun h => absurd h hleaf, by simp⟩
  cases pte with
  | none =>
    apply hplain
    apply not_le.mp
    intro htwo
    obtain ⟨e, he, -⟩ := h.cow htwo
    cases he
  | some e =>
    cases hcow : e.cow with
    | true =>
      rw [remapResidentFrame_cow hcow]
      refine ⟨fun _ => ⟨_, rfl, by simp [newEntry, toCow], by simp [newEntry, toCow]⟩,
        fun hleaf => ?_, fun e' he' hw' => ?_⟩
      · have hrx := readable_or_executable_of_leaf hw hleaf
        refine ⟨_, rfl, newEntry_valid_of_leaf _ _ ?_, ?_⟩
        · simpa [leaf, toCow, ofPerm] using hrx
        · simpa [newEntry, toCow, ofPerm] using hrx
      · cases he'
        simp [newEntry, toCow] at hw'
    | false =>
      rw [remapResidentFrame_plain hcow]
      apply hplain
      apply not_le.mp
      intro htwo
      obtain ⟨e', he', hcow', -⟩ := h.cow htwo
      cases he'
      simp [hcow] at hcow'

/-- A page of the area whose permission changes. -/
lemma pageOk_remapped (hs : Inv s) (ha : s.areaAt x = some a)
    (hw : perm.w = true → (perm.r || perm.x) = true)
    (hta : t.areaAt x = some (State.remappedArea a perm)) (hd : t.dataFrames = s.dataFrames)
    (he : t.extPages = s.extPages) (hp : t.pt x = s.remappedLeaf arch a perm x)
    (hc : t.cache = s.cache) (hr : t.refs = s.refs) : PageOk t x := by
  unfold remappedLeaf at hp
  refine ⟨fun f hf => ?_, fun k hk => ?_, fun hown hext => ?_⟩
  · rw [hd] at hf
    obtain ⟨b, hb⟩ := (hs.pages x).owned f hf
    obtain rfl := some.inj (ha.symm.trans hb.area)
    simp only [hf] at hp
    refine ⟨_, hta, ?_, he ▸ hb.ext, fun e hpt => ?_, fun hpriv => ?_⟩
    · intro hshm
      have hkind := hb.kind
      unfold remappedArea at hshm
      split at hshm
      · cases hshm
      · exact hkind hshm
    · exact remapResidentFrame_ppn hb.ppn (hp.symm.trans hpt)
    · rw [hp, hr]
      exact leafOk_remapResidentFrame (hb.leaf (remappedArea_isPrivate a perm ▸ hpriv)) hw
  · rw [he] at hk
    obtain ⟨b, e, hb⟩ := (hs.pages x).ext k hk
    obtain rfl := some.inj (ha.symm.trans hb.area)
    simp only [hb.own, hk, hb.pte] at hp
    cases hkind : a.kind with
    | mmap info =>
      simp only [hkind, map_some] at hp
      refine ⟨_, _, hta, hb.fits.remapped, hd ▸ hb.own, hp, hc ▸ hb.frame, fun _ => ?_⟩
      show (normalized _).w = false
      rw [normalized_w]
      split
      · rfl
      next hro =>
        simpa [ofPerm] using hro
    | framed | shm =>
      simp only [hkind] at hp
      exact ⟨_, e, hta, hb.fits.remapped, hd ▸ hb.own, hp, hc ▸ hb.frame,
        fun hpriv => hb.readOnly (remappedArea_isPrivate a perm ▸ hpriv)⟩
  · rw [hd] at hown
    rw [he] at hext
    simp only [hown, hext] at hp
    have hnone := (hs.pages x).vacant hown hext
    rw [hp]
    cases a.kind with
    | mmap | framed | shm => exact hnone

lemma apart_remappedArea (perm : MapPermission) (h : (A ++ ([a] ++ B)).Pairwise Vma.Apart) :
    (A ++ ([remappedArea a perm] ++ B)).Pairwise Vma.Apart := by
  obtain ⟨-, hrest, hcross⟩ := apart_splice.mp h
  refine apart_splice.mpr ⟨pairwise_singleton .., hrest, fun b hb c hc => ?_⟩
  obtain rfl := mem_singleton.mp hb
  exact hcross a (mem_singleton_self a) c hc

/-- The loops of `remap_permission`, and the new permission of the area. -/
lemma Inv.remapLeaves (hs : Inv s) (h : s.areas p = A ++ ([a] ++ B)) (hu : perm.u = true)
    (hw : perm.w = true → (perm.r || perm.x) = true) : Inv { s with
      pt := fun x => if x.1 = p ∧ a.contains x.2 = true then s.remappedLeaf arch a perm x
        else s.pt x
      areas := update s.areas p (A ++ ([State.remappedArea a perm] ++ B)) } := by
  set t : State := { s with
      pt := fun x => if x.1 = p ∧ a.contains x.2 = true then s.remappedLeaf arch a perm x
        else s.pt x
      areas := update s.areas p (A ++ ([remappedArea a perm] ++ B)) } with ht
  have hmem := hs.areas p
  have hd := hs.disjoint p
  rw [h] at hmem hd
  have hnew := apart_remappedArea perm hd
  have hin : ∀ v, a.contains v = true →
      t.areaAt (p, v) = some (remappedArea a perm) ∧ s.areaAt (p, v) = some a := by
    intro v hv
    refine ⟨?_, hs.areaAt_of_mem (by simp [h]) hv⟩
    show List.find? _ (update s.areas p _ p) = _
    rw [update_self]
    exact find_contains hnew (by simp) hv
  have hout : ∀ x : Page, ¬ (x.1 = p ∧ a.contains x.2 = true) →
      t.areaAt x = s.areaAt x ∧ t.pt x = s.pt x := by
    rintro ⟨q, v⟩ hx
    refine ⟨?_, if_neg hx⟩
    show List.find? _ (update s.areas p _ q) = List.find? _ (s.areas q)
    rcases eq_or_ne q p with rfl | hne
    · have hv : a.contains v = false := by simpa using hx
      have hv' : (remappedArea a perm).contains v = false := hv
      rw [update_self, h]
      simp [find?_append, hv, hv']
    · rw [update_of_ne hne]
  have hpriv : ∀ x b, t.areaAt x = some b →
      ∃ c, s.areaAt x = some c ∧ c.isPrivate = b.isPrivate := by
    rintro ⟨q, v⟩ b hb
    rcases Classical.em (q = p ∧ a.contains v = true) with ⟨rfl, hv⟩ | hx
    · obtain rfl := some.inj ((hin v hv).1.symm.trans hb)
      exact ⟨a, (hin v hv).2, (remappedArea_isPrivate a perm).symm⟩
    · exact ⟨b, (hout (q, v) hx).1.symm.trans hb, rfl⟩
  refine ⟨hs.ledger.congr rfl rfl rfl rfl rfl rfl, ?_, ?_, ?_, ?_⟩
  · rintro ⟨q, v⟩
    rcases Classical.em (q = p ∧ a.contains v = true) with ⟨rfl, hv⟩ | hx
    · exact pageOk_remapped hs (hin v hv).2 hw (hin v hv).1 rfl rfl (if_pos ⟨rfl, hv⟩) rfl rfl
    · obtain ⟨hat, hpt⟩ := hout (q, v) hx
      exact (hs.pages (q, v)).congr hat rfl rfl hpt rfl rfl
  · intro x y f b c hx hy hb hc
    obtain ⟨b', hb', hbp⟩ := hpriv x b hb
    obtain ⟨c', hc', hcp⟩ := hpriv y c hc
    rw [← hbp, ← hcp]
    exact hs.apart x y f b' c' hx hy hb' hc'
  · intro q b hb
    have hb : b ∈ update s.areas p (A ++ ([remappedArea a perm] ++ B)) q := hb
    rcases eq_or_ne q p with rfl | hne
    · rw [update_self] at hb
      simp only [mem_append, mem_singleton] at hb
      rcases hb with hb | rfl | hb
      · exact hmem b (by simp [hb])
      · exact remappedArea_ok hu hw
      · exact hmem b (by simp [hb])
    · rw [update_of_ne hne] at hb
      exact hs.areas q b hb
  · exact (forall_update_iff s.areas fun _ l => l.Pairwise _).mpr
      ⟨hnew, fun q _ => hs.disjoint q⟩

/-- **`mprotect`**: any permission that `prot_to_map_permission` gives. -/
theorem Inv.remapPermission (hs : Inv s) (p idx : Nat) (prot : Prot) :
    Inv (s.remapPermission arch p idx (protToMapPermission prot)) := by
  have hw : (protToMapPermission prot).w = true →
      ((protToMapPermission prot).r || (protToMapPermission prot).x) = true := by
    intro hw
    have hw : prot.w = true := hw
    simp [protToMapPermission, hw]
  unfold State.remapPermission
  split
  · exact hs
  rename_i a ha
  have hin := mem_of_getElem? ha
  dsimp only
  split
  · exact hs
  rename_i t hmat
  have hres : Inv t ∧ t.areas = s.areas := by
    split at hmat
    next hkind =>
      split at hmat
      next hguard =>
        have hshm : a.kind ≠ .shm := by
          rw [hkind]
          exact nofun
        exact hs.materializePages hshm (hw (Bool.and_eq_true_iff.mp hguard).2)
          (fun v hv => hs.areaAt_of_mem hin (Vma.mem_pages.mp hv)) hmat
      · cases hmat
        exact ⟨hs, rfl⟩
    · cases hmat
      exact ⟨hs, rfl⟩
  obtain ⟨ht, hareas⟩ := hres
  rw [← hareas] at ha
  rw [Lib.set_eq_of_getElem? ha]
  exact ht.remapLeaves (Lib.eq_of_getElem? ha) rfl hw

end Whusp.Mm.Sharing
