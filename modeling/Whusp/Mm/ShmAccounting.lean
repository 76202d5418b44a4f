import Mathlib.Data.List.ReduceOption
import Whusp.Mm.SharedObjects

/-!
# Segments and their attachments

In every state of every run of processes that create, attach, detach, cut, fork, exec, exit and
remove, the segment table agrees with the areas of all address spaces.
-/

namespace Whusp.Mm

open Function List Option

open Whusp.Lib (System sum_map_set le_sum_map)

namespace ShmManager

open Pieces (Piece Kind held held_append held_cons retainHalf)

variable {m m' : ShmManager} {refs : Nat → Nat}

lemma Ok.congr {refs' : Nat → Nat} (h : Ok refs m) (heq : ∀ id, refs' id = refs id) :
    Ok refs' m := by
  rwa [funext heq]

lemma Ok.live {id : Nat} (h : Ok refs m) (hpos : 0 < refs id) : m.segments.get? id ≠ none := by
  intro hnone
  exact absurd (h.dead id hnone) (by omega)

/-- The number of references to `id` among the pieces. -/
def pieceRefs (as : List Piece) (id : Nat) : Nat := (held Kind.shmSegmentId as).count (some id)

/-- **A list of halves** is retained, each of a segment that has references. -/
theorem Ok.retainHalves {halves : List Piece} (h : Ok refs m)
    (hpos : ∀ id, some id ∈ held Kind.shmSegmentId halves → 0 < refs id) :
    Ok (fun id => refs id + pieceRefs halves id) (halves.foldl retainHalf m) ∧
      m.SamePages (halves.foldl retainHalf m) := by
  induction halves generalizing m refs with
  | nil => exact ⟨h, .refl m⟩
  | cons a rest ih =>
    rw [foldl_cons]
    cases hid : a.kind.shmSegmentId with
    | none =>
      have hskip : retainHalf m a = m := by
        unfold retainHalf
        rw [hid]
      rw [hskip]
      obtain ⟨hok, hsame⟩ := ih h fun id hmem => hpos id (mem_cons_of_mem _ hmem)
      refine ⟨hok.congr fun id => ?_, hsame⟩
      rw [pieceRefs, held_cons, hid, count_cons_of_ne (by simp)]
      rfl
    | some shmid =>
      have hdo : retainHalf m a = (m.retainAttached shmid).2 := by
        unfold retainHalf
        rw [hid]
      obtain ⟨-, hok, hsame⟩ := h.retainAttached shmid (hpos shmid (by
        rw [held_cons, hid]
        exact mem_cons_self))
      rw [hdo]
      obtain ⟨hok', hsame'⟩ := ih hok fun id hmem => by
        have := hpos id (mem_cons_of_mem _ hmem)
        unfold addRef
        rcases eq_or_ne id shmid with rfl | hne
        · simp
        · rwa [update_of_ne hne]
      refine ⟨hok'.congr fun id => ?_, hsame.trans hsame'⟩
      unfold addRef
      rcases eq_or_ne id shmid with rfl | hne
      · rw [pieceRefs, held_cons, hid, count_cons_self, update_self, pieceRefs]
        omega
      · rw [pieceRefs, held_cons, hid, count_cons_of_ne (by simpa using hne.symm),
          update_of_ne hne, pieceRefs]

end ShmManager

namespace Pieces

open ShmManager (pieceRefs addRef dropRef)

/-! ## References -/

namespace World

variable {w w' : World}

/-- The references to a segment: its pieces over all address spaces, the attaches in flight,
and the removed pieces that are still to be detached. -/
def pieces (w : World) (id : Nat) : Nat := (w.spaces.map fun s => pieceRefs s.areas id).sum

def attachesInFlight (w : World) (id : Nat) : Nat := (w.attaching.map ShmAttach.shmid).count id

def detachesInFlight (w : World) (id : Nat) : Nat := w.retired.count id

def refs (w : World) (id : Nat) : Nat :=
  w.pieces id + w.attachesInFlight id + w.detachesInFlight id

/-- What the segment table and the address spaces have to agree on. -/
structure Ok (w : World) : Prop where
  shm : w.shm.Ok w.refs
  pages : ∀ s ∈ w.spaces, ∀ id p, Maps s.areas id p → w.shm.Backed id p.pageIndex p.ppn
  attached : ∀ a ∈ w.attaching, ∀ q ∈ a.pages, w.shm.Backed a.shmid q.pageIndex q.ppn

variable {s : Space} {id i k : Nat}

section

variable (hs : s ∈ w.spaces) (h : some id ∈ held Kind.shmSegmentId s.areas)
include hs h

lemma pieces_pos :
    0 < w.pieces id :=
  lt_of_lt_of_le (count_pos_iff.mpr h)
    (le_sum_map (fun s : Space => pieceRefs s.areas id) hs)

lemma refs_pos :
    0 < w.refs id := by
  have := w.pieces_pos hs h
  unfold refs
  omega

end

variable {p : ShmPage}

lemma held_of_maps {as : List Piece} (h : Maps as id p) : some id ∈ held Kind.shmSegmentId as := by
  obtain ⟨a, ha, info, hkind, rfl, -⟩ := h
  exact mem_held.mpr ⟨a, ha, by rw [hkind]; rfl⟩

variable {a : ShmAttach}

lemma attachesInFlight_pos (ha : a ∈ w.attaching) : 0 < w.attachesInFlight a.shmid :=
  count_pos_iff.mpr (mem_map_of_mem ha)

/-- **The step rule**: the table is right for the new references, no segment that stays has
lost its frames, and every page that is mapped or about to be was backed before. -/
theorem Ok.of_step (hshm : w'.shm.Ok w'.refs) (hkeeps : w.shm.Keeps w'.shm)
    (hpages : ∀ s ∈ w'.spaces, ∀ id p, Maps s.areas id p → w.shm.Backed id p.pageIndex p.ppn)
    (hattached : ∀ a ∈ w'.attaching, ∀ q ∈ a.pages, w.shm.Backed a.shmid q.pageIndex q.ppn) :
    w'.Ok where
  shm := hshm
  pages s hs id p hp :=
    (hpages s hs id p hp).of_keeps hkeeps (hshm.live (w'.refs_pos hs (held_of_maps hp)))
  attached a ha q hq := by
    refine (hattached a ha q hq).of_keeps hkeeps (hshm.live ?_)
    have := w'.attachesInFlight_pos ha
    unfold refs
    omega

variable {shm m m₀ : ShmManager} {e : Edit} {shmid startVpn : Nat} {perm : MapPermission}
  {child : Space} {refs : Nat → Nat}

/-- A call of the segment table that moves no reference. -/
lemma Ok.withShm (h : w.Ok) (hshm : shm.Ok w.refs ∧ w.shm.Keeps shm) : Ok { w with shm } :=
  .of_step hshm.1 hshm.2 h.pages h.attached

/-- The references after the area list of one process has changed. -/
lemma pieces_set (s' : Space) (hs : w.spaces[i]? = some s) (id : Nat) :
    ({ w with spaces := w.spaces.set i s' } : World).pieces id + pieceRefs s.areas id =
      w.pieces id + pieceRefs s'.areas id :=
  sum_map_set (fun s : Space => pieceRefs s.areas id) s' hs

lemma mem_set_cases {s' : Space} (h : s ∈ w.spaces.set i s') : s = s' ∨ s ∈ w.spaces :=
  (mem_or_eq_of_mem_set h).symm

lemma count_reduceOption (l : List (Option Nat)) (id : Nat) :
    l.reduceOption.count id = l.count (some id) := by
  induction l with
  | nil => rfl
  | cons o l ih =>
    cases o with
    | none => rw [reduceOption_cons_of_none, ih, count_cons_of_ne (by simp)]
    | some n =>
      rw [reduceOption_cons_of_some, count_cons, count_cons, ih]
      simp

/-! ## Operations on one address space -/

/-- **An operation that is balanced** keeps the account: its halves are retained, its removed
pieces wait. -/
theorem Ok.applyEdit (h : w.Ok) (hs : w.spaces[i]? = some s)
    (hbal : e.Balanced Kind.shmSegmentId s.areas) (hpages : PagesFrom s.areas e.space.areas) :
    (w.applyEdit i e).Ok := by
  have hmem := mem_of_getElem? hs
  obtain ⟨hok, hsame⟩ := h.shm.retainHalves fun id hid => w.refs_pos hmem (hbal.halves _ hid)
  refine .of_step (hok.congr fun id => ?_) hsame.keeps ?_ h.attached
  · have hset := pieces_set e.space hs id
    have hperm := hbal.perm.count_eq (some id)
    have hret : (w.applyEdit i e).detachesInFlight id =
        w.detachesInFlight id + (held Kind.shmSegmentId e.removed).count (some id) := by
      show (w.retired ++ _).count id = _
      rw [count_append, count_reduceOption]
      rfl
    simp only [count_append] at hperm
    unfold pieceRefs at hset ⊢
    unfold refs
    show ({ w with spaces := w.spaces.set i e.space } : World).pieces id + w.attachesInFlight id +
      _ = _
    omega
  · intro t ht id p hp
    rcases mem_set_cases ht with rfl | ht
    · exact h.pages s hmem id p (hpages id p hp)
    · exact h.pages t ht id p hp

/-- The account does not depend on the memfds. -/
lemma Ok.withMemfds (h : w.Ok) (memfds : Nat → Memfd) : Ok { w with memfds } :=
  { h with }

/-- The calls of `mmap` under way hold no segment. -/
lemma Ok.withMmaps (h : w.Ok) (checked mapped : List MmapArgs) : Ok { w with checked, mapped } :=
  { h with }

lemma Ok.applyUnmap (h : w.Ok) (hs : w.spaces[i]? = some s)
    (hbal : e.Balanced Kind.shmSegmentId s.areas) (hpages : PagesFrom s.areas e.space.areas) :
    (w.applyUnmap i e).Ok :=
  (h.applyEdit hs hbal hpages).withMemfds _

/-- An area list is replaced by one with the same segment pieces. -/
lemma Ok.setSpace (h : w.Ok) (s' : Space) (hs : w.spaces[i]? = some s)
    (hrefs : ∀ id, pieceRefs s'.areas id = pieceRefs s.areas id)
    (hpages : PagesFrom s.areas s'.areas) : Ok { w with spaces := w.spaces.set i s' } := by
  refine .of_step (h.shm.congr fun id => ?_) (.of_segments rfl) ?_ h.attached
  · have hset := pieces_set s' hs id
    have hid := hrefs id
    unfold refs
    show ({ w with spaces := w.spaces.set i s' } : World).pieces id + w.attachesInFlight id +
      w.detachesInFlight id = _
    omega
  · intro t ht id p hp
    rcases mem_set_cases ht with rfl | ht
    · exact h.pages s (mem_of_getElem? hs) id p (hpages id p hp)
    · exact h.pages t ht id p hp

open Space

/-- The segment pieces of a list with one more area. -/
lemma pieceRefs_insertAreaSorted (s : Space) (a : Piece) (id : Nat) :
    pieceRefs (s.insertAreaSorted a).areas id =
      pieceRefs s.areas id + if a.kind.shmSegmentId = some id then 1 else 0 := by
  unfold pieceRefs
  rw [(held_insertAreaSorted a).count_eq, count_cons]
  simp

lemma maps_insertAreaSorted {a : Piece} (h : Maps (s.insertAreaSorted a).areas id p) :
    Maps [a] id p ∨ Maps s.areas id p := by
  obtain ⟨b, hb, hrest⟩ := h
  rcases mem_insertAreaSorted.mp hb with rfl | hb
  · exact .inl ⟨b, mem_singleton_self b, hrest⟩
  · exact .inr ⟨b, hb, hrest⟩

lemma not_maps_of_kind {a : Piece} (ha : a.kind.shmSegmentId = none) : ¬ Maps [a] id p := by
  intro h
  have hmem := held_of_maps h
  simp [held_cons, held_nil, ha] at hmem

lemma Ok.insertArea (h : w.Ok) {a : Piece} (hs : w.spaces[i]? = some s)
    (ha : a.kind.shmSegmentId = none) : (w.insertArea i s a).Ok := by
  refine h.setSpace _ hs (fun id => ?_) fun id p hp => ?_
  · rw [pieceRefs_insertAreaSorted, ha, if_neg (by simp), add_zero]
  · rcases maps_insertAreaSorted hp with hp | hp
    · exact absurd hp (not_maps_of_kind ha)
    · exact hp

lemma Ok.finishMmap (h : w.Ok) (args : MmapArgs) : (w.finishMmap args).Ok := by
  unfold World.finishMmap
  split
  · exact h
  · exact h.withMemfds _

lemma getElem?_set_self (hs : w.spaces[i]? = some s) (s' : Space) :
    (w.spaces.set i s')[i]? = some s' :=
  List.getElem?_set_self (List.getElem?_eq_some_iff.mp hs).1

lemma Ok.mmapFixed (h : w.Ok) (hs : w.spaces[i]? = some s) (args : MmapArgs) :
    (w.mmapFixed i s args).Ok := by
  have hclear := h.applyUnmap hs
    (balanced_clearRange splits_shmSegmentId s args.range.start args.range.stop)
    (pagesFrom_clearRange s _ _)
  exact hclear.insertArea (getElem?_set_self hs _) rfl

lemma Ok.sysExec (h : w.Ok) (hs : w.spaces[i]? = some s) (image : List ExecArea) :
    (w.sysExec i s image).Ok := by
  have hdrop := h.applyUnmap hs (balanced_removeAll s) fun id p ⟨a, ha, _⟩ => nomatch ha
  have hnone : ∀ a ∈ image.map ExecArea.piece, a.kind.shmSegmentId = none := by
    intro a ha
    obtain ⟨x, -, rfl⟩ := mem_map.mp ha
    unfold ExecArea.piece
    cases x.file with
    | none | some => rfl
  have hset := hdrop.setSpace ⟨image.map ExecArea.piece, none⟩ (getElem?_set_self hs _)
    (fun id => ?_) fun id p hp => ?_
  · rwa [show (w.applyUnmap i s.removeAll).spaces = w.spaces.set i s.removeAll.space from rfl,
      set_set] at hset
  · show (held _ _).count _ = 0
    rw [count_eq_zero]
    intro hmem
    obtain ⟨a, ha, hid⟩ := mem_held.mp hmem
    exact nomatch (hnone a ha).symm.trans hid
  · obtain ⟨a, ha, hid⟩ := mem_held.mp (held_of_maps hp)
    exact nomatch (hnone a ha).symm.trans hid

/-! ## `shmat`, `shmdt` and the releases -/

lemma count_eraseIdx {α : Type} [DecidableEq α] {l : List α} {a : α} (h : l[k]? = some a)
    (b : α) : (l.eraseIdx k).count b + (if a = b then 1 else 0) = l.count b := by
  obtain ⟨hlt, rfl⟩ := List.getElem?_eq_some_iff.mp h
  have hperm := (getElem_cons_eraseIdx_perm hlt).count_eq b
  rw [count_cons] at hperm
  simpa using hperm

lemma dropRef_apply (refs : Nat → Nat) (shmid id : Nat) :
    dropRef refs shmid id = refs id - if shmid = id then 1 else 0 := by
  unfold dropRef
  rcases eq_or_ne id shmid with rfl | hne
  · simp
  · rw [update_of_ne hne, if_neg hne.symm, Nat.sub_zero]

lemma addRef_apply (refs : Nat → Nat) (shmid id : Nat) :
    addRef refs shmid id = refs id + if shmid = id then 1 else 0 := by
  unfold addRef
  rcases eq_or_ne id shmid with rfl | hne
  · simp
  · rw [update_of_ne hne, if_neg hne.symm, add_zero]

open ShmManager

/-- The first half of `shmat`. -/
lemma Ok.shmatAttach (h : w.Ok) (ha : w.shm.attach shmid = (.ok a, shm)) :
    Ok { w with shm, attaching := w.attaching ++ [a] } := by
  obtain ⟨hok, hsame⟩ := h.shm.attach ha
  obtain ⟨seg, -, -, haeq, -⟩ := attach_eq_ok ha
  refine .of_step (hok.congr fun id => ?_) hsame.keeps h.pages fun b hb q hq => ?_
  · have hcount : ({ w with shm, attaching := w.attaching ++ [a] } : World).attachesInFlight id =
        w.attachesInFlight id + if shmid = id then 1 else 0 := by
      show ((w.attaching ++ [a]).map ShmAttach.shmid).count id = _
      rw [map_append, count_append, haeq]
      simp [attachesInFlight, count_cons]
    rw [addRef_apply]
    unfold refs
    show w.pieces id + _ + w.detachesInFlight id = _
    omega
  · rcases mem_append.mp hb with hb | hb
    · exact h.attached b hb q hq
    · rw [mem_singleton.mp hb] at hq ⊢
      exact backed_of_mem_attach ha hq

lemma attachesInFlight_eraseIdx (ha : w.attaching[k]? = some a) (id : Nat) :
    ((w.attaching.eraseIdx k).map ShmAttach.shmid).count id + (if a.shmid = id then 1 else 0) =
      w.attachesInFlight id := by
  have hk : (w.attaching.map ShmAttach.shmid)[k]? = some a.shmid := by
    rw [getElem?_map, ha]
    rfl
  rw [← eraseIdx_map]
  exact count_eraseIdx hk id

/-- The pages of an attachment are frames that the attach returned. -/
lemma backed_attachPiece {range : VpnRange} (h : ∀ q ∈ a.pages, m.Backed a.shmid q.pageIndex q.ppn)
    (hp : Maps [attachPiece a startVpn perm range] id p) : m.Backed id p.pageIndex p.ppn := by
  obtain ⟨b, hb, info, hkind, rfl, hpage⟩ := hp
  rw [mem_singleton.mp hb] at hkind
  cases Kind.shm.inj hkind
  obtain ⟨q, hq, rfl⟩ := mem_map.mp hpage
  exact h q (mem_of_mem_filter hq)

/-- **`shmat` maps**: the attach in flight becomes a piece. -/
theorem Ok.shmatMap (h : w.Ok) (hw : w.shmatMap k i startVpn perm = some w') : w'.Ok := by
  obtain ⟨a, ha, hw⟩ := bind_eq_some_iff.mp hw
  obtain ⟨s, hs, hw⟩ := bind_eq_some_iff.mp hw
  obtain ⟨mapLen, -, hw⟩ := bind_eq_some_iff.mp hw
  obtain ⟨range, -, hw⟩ := bind_eq_some_iff.mp hw
  cases hw
  have hamem := mem_of_getElem? ha
  refine .of_step (h.shm.congr fun id => ?_) (.of_segments rfl) ?_ ?_
  · have hset := pieces_set (s.insertAreaSorted (attachPiece a startVpn perm range)) hs id
    have hins := pieceRefs_insertAreaSorted s (attachPiece a startVpn perm range) id
    have hflight := attachesInFlight_eraseIdx ha id
    rw [show (attachPiece a startVpn perm range).kind.shmSegmentId = some a.shmid from rfl] at hins
    simp only [some.injEq] at hins
    unfold refs
    show ({ w with spaces := w.spaces.set i _ } : World).pieces id +
      ((w.attaching.eraseIdx k).map ShmAttach.shmid).count id + w.detachesInFlight id = _
    omega
  · intro t ht id p hp
    rcases mem_set_cases ht with rfl | ht
    · rcases maps_insertAreaSorted hp with hp | hp
      · exact backed_attachPiece (h.attached a hamem) hp
      · exact h.pages s (mem_of_getElem? hs) id p hp
    · exact h.pages t ht id p hp
  · intro b hb
    exact h.attached b (mem_of_mem_eraseIdx hb)

/-- **`shmat` gives up**: the attach in flight is undone. -/
theorem Ok.shmatGiveUp (h : w.Ok) (ha : w.attaching[k]? = some a) :
    Ok { w with shm := (w.shm.detach a.shmid).2, attaching := w.attaching.eraseIdx k } := by
  have hpos := w.attachesInFlight_pos (mem_of_getElem? ha)
  obtain ⟨hok, hkeeps⟩ := h.shm.detach a.shmid (by
    unfold refs
    omega)
  refine .of_step (hok.congr fun id => ?_) hkeeps h.pages fun b hb =>
    h.attached b (mem_of_mem_eraseIdx hb)
  have hflight := attachesInFlight_eraseIdx ha id
  rw [dropRef_apply]
  unfold refs
  show w.pieces id + ((w.attaching.eraseIdx k).map ShmAttach.shmid).count id +
    w.detachesInFlight id = _
  omega

theorem Ok.release (h : w.Ok) (hk : w.retired[k]? = some shmid) :
    Ok { w with shm := (w.shm.detach shmid).2, retired := w.retired.eraseIdx k } := by
  have hpos : 0 < w.detachesInFlight shmid := count_pos_iff.mpr (mem_of_getElem? hk)
  obtain ⟨hok, hkeeps⟩ := h.shm.detach shmid (by
    unfold refs
    omega)
  refine .of_step (hok.congr fun id => ?_) hkeeps h.pages h.attached
  have hcount := count_eraseIdx hk id
  rw [dropRef_apply]
  unfold refs detachesInFlight
  show w.pieces id + w.attachesInFlight id + (w.retired.eraseIdx k).count id = _
  omega

/-! ## Fork -/

lemma mem_forkShmPages {leaf : Nat → Leaf} {mappings : List ShmPageMapping}
    {pages : List ShmPage} (h : p ∈ (forkShmPages leaf mappings pages).2) :
    ∃ q ∈ mappings, q.pageIndex = p.pageIndex ∧ q.ppn = p.ppn := by
  induction pages with
  | nil => cases h
  | cons x rest ih =>
    unfold forkShmPages at h
    split at h
    · exact ih h
    rename_i q hq
    split at h
    · cases h
    · exact ih h
    · rcases mem_cons.mp h with rfl | h
      · exact ⟨q, mem_of_find?_eq_some hq, by simpa using find?_some hq, rfl⟩
      · exact ih h

/-- What a fork keeps while it builds the child: the table counts the pieces of the child on
top of the references `refs` of the others. -/
structure Forking (refs : Nat → Nat) (m₀ m : ShmManager) (child : Space) : Prop where
  shm : m.Ok fun id => refs id + pieceRefs child.areas id
  same : m₀.SamePages m
  pages : ∀ id p, Maps child.areas id p → m₀.Backed id p.pageIndex p.ppn

theorem Forking.area (h : Forking refs m₀ m child) (env : ForkEnv) (idx : Nat) {a : Piece}
    (hpos : ∀ id, a.kind.shmSegmentId = some id → 0 < refs id) :
    Forking refs m₀ (forkArea env idx a m child).2.1 (forkArea env idx a m child).2.2 := by
  have hplain : a.kind.shmSegmentId = none → Forking refs m₀ m (child.insertAreaSorted a) := by
    intro ha
    refine ⟨h.shm.congr fun id => ?_, h.same, fun id p hp => ?_⟩
    · rw [pieceRefs_insertAreaSorted, ha, if_neg (by simp), add_zero]
    · rcases maps_insertAreaSorted hp with hp | hp
      · exact absurd hp (not_maps_of_kind ha)
      · exact h.pages id p hp
  unfold forkArea
  split
  · exact h
  split
  next info hkind =>
    -- the parent's piece is a reference, so the segment is live and can be retained
    have hid : 0 < refs info.shmid := hpos info.shmid (by rw [hkind]; rfl)
    obtain ⟨hdone, hok, hsame⟩ := h.shm.retainAttached info.shmid (by omega)
    dsimp only
    rw [if_neg (by rw [hdone]; simp)]
    refine ⟨hok.congr fun id => ?_, h.same.trans hsame, fun id p hp => ?_⟩
    · rw [addRef_apply, pieceRefs_insertAreaSorted]
      simp only [Kind.shmSegmentId, some.injEq]
      omega
    rcases maps_insertAreaSorted hp with hp | hp
    swap
    · exact h.pages id p hp
    obtain ⟨b, hb, info', hb', rfl, hpage⟩ := hp
    rw [mem_singleton.mp hb] at hb'
    cases Kind.shm.inj hb'
    obtain ⟨q, hq, hidx, hppn⟩ := mem_forkShmPages hpage
    rw [← hidx, ← hppn]
    exact (backed_of_mem_attachedSegmentPages hq).of_samePages
      (h.same.trans hsame)
  next hkind =>
    exact hplain (by rw [hkind]; rfl)
  next hkind =>
    exact hplain (by rw [hkind]; rfl)

/-- **The loop over the areas of the parent**, to its end or to a failure. -/
theorem Forking.loop (env : ForkEnv) (as : List Piece) (idx : Nat)
    (hpos : ∀ a ∈ as, ∀ id, a.kind.shmSegmentId = some id → 0 < refs id)
    (h : Forking refs m₀ m child) :
    Forking refs m₀ (forkLoop env idx as m child).2.1 (forkLoop env idx as m child).2.2 := by
  induction as generalizing idx m child with
  | nil => exact h
  | cons a rest ih =>
    have harea := h.area env idx (hpos a mem_cons_self)
    have hrest := fun b hb => hpos b (mem_cons_of_mem a hb)
    unfold forkLoop
    split
    next heq =>
      rwa [heq] at harea
    next heq =>
      rw [heq] at harea
      exact ih _ hrest harea

/-- **Fork**, whether the child is built to the end or dropped half-way. -/
theorem Ok.sysFork (h : w.Ok) (hs : s ∈ w.spaces) (env : ForkEnv) : (w.sysFork s env).Ok := by
  have hstart : Forking w.refs w.shm w.shm .empty :=
    ⟨h.shm, .refl _, fun id p ⟨a, ha, _⟩ => nomatch ha⟩
  have hfork := hstart.loop env s.areas 0 fun a ha id hid =>
    w.refs_pos hs (mem_held.mpr ⟨a, ha, hid⟩)
  unfold World.sysFork
  split
  next child heq =>
    rw [heq] at hfork
    obtain ⟨hok, hsame, hpages⟩ := hfork
    refine .of_step (hok.congr fun id => ?_) hsame.keeps ?_ h.attached
    · unfold refs pieces
      show ((w.spaces ++ [child]).map fun s => pieceRefs s.areas id).sum + w.attachesInFlight id +
        w.detachesInFlight id = _ + pieceRefs child.areas id
      rw [map_append, sum_append, map_singleton, sum_singleton]
      omega
    · intro t ht id p hp
      rcases mem_append.mp ht with ht | ht
      · exact h.pages t ht id p hp
      · rw [mem_singleton.mp ht] at hp
        exact hpages id p hp
  next child heq =>
    rw [heq] at hfork
    obtain ⟨hok, hsame, -⟩ := hfork
    refine .of_step (hok.congr fun id => ?_) hsame.keeps h.pages h.attached
    unfold refs detachesInFlight
    show w.pieces id + w.attachesInFlight id + List.count id (w.retired ++ _) =
      _ + pieceRefs child.areas id
    rw [count_append, count_reduceOption]
    unfold pieceRefs
    omega

/-! ## Runs -/

/-- **Step lemma**: every call keeps the account. -/
theorem Ok.step (h : w.Ok) {e : SharedEvent} (hstep : w.step e = some w') : w'.Ok := by
  have hsplits := splits_shmSegmentId
  cases e with
  | shmget key size shmflg context caller frameAlloc =>
    cases hstep
    exact h.withShm (h.shm.getOrCreate key size shmflg context caller frameAlloc)
  | shmRmid shmid caller =>
    cases hstep
    exact h.withShm (h.shm.markForDelete shmid caller)
  | shmSet shmid attrs caller =>
    cases hstep
    exact h.withShm (h.shm.setAttrs shmid attrs caller)
  | setShmall value =>
    cases hstep
    exact h.withShm ⟨h.shm.of_tables rfl rfl rfl rfl, .of_segments rfl⟩
  | setShmmax value | setShmmni value | setShmNextId value =>
    cases hstep
    apply h.withShm
    simp only [setShmmax, setShmmni, setShmNextId]
    split
    · exact ⟨h.shm, .of_segments rfl⟩
    · exact ⟨h.shm.of_tables rfl rfl rfl rfl, .of_segments rfl⟩
  | shmatAttach shmid =>
    simp only [World.step] at hstep
    split at hstep
    next ha =>
      cases hstep
      exact h.shmatAttach ha
    next ha =>
      cases hstep
      rw [attach_eq_error ha]
      exact h
  | shmatMap k i startVpn perm => exact h.shmatMap hstep
  | shmatGiveUp k =>
    obtain ⟨a, ha, rfl⟩ := map_eq_some_iff.mp hstep
    exact h.shmatGiveUp ha
  | shmdt i startVpn =>
    obtain ⟨s, hs, hstep⟩ := bind_eq_some_iff.mp hstep
    obtain ⟨e, he, rfl⟩ := map_eq_some_iff.mp hstep
    obtain ⟨idx, -, rfl⟩ := map_eq_some_iff.mp he
    exact h.applyEdit hs (balanced_removeIdx s idx) (pagesFrom_removeIdx s idx)
  | release k =>
    obtain ⟨shmid, hk, rfl⟩ := map_eq_some_iff.mp hstep
    exact h.release hk
  | addSeals f writable seals =>
    cases hstep
    exact h.withMemfds _
  | mmapCheck args =>
    cases hstep
    split
    · exact h.withMmaps _ _
    · exact h
  | mmap k i =>
    obtain ⟨args, -, hstep⟩ := bind_eq_some_iff.mp hstep
    obtain ⟨s, hs, hstep⟩ := bind_eq_some_iff.mp hstep
    cases hstep
    exact (h.insertArea hs rfl).withMmaps _ _
  | mmapFixed k i =>
    obtain ⟨args, -, hstep⟩ := bind_eq_some_iff.mp hstep
    obtain ⟨s, hs, hstep⟩ := bind_eq_some_iff.mp hstep
    cases hstep
    exact (h.mmapFixed hs args).withMmaps _ _
  | mmapFinish k =>
    obtain ⟨args, -, rfl⟩ := map_eq_some_iff.mp hstep
    exact (h.finishMmap args).withMmaps _ _
  | munmap i lo hi =>
    obtain ⟨s, hs, rfl⟩ := map_eq_some_iff.mp hstep
    exact h.applyUnmap hs (balanced_munmapArea hsplits s lo hi)
      (pagesFrom_munmapArea s lo hi)
  | mprotect i lo hi perm remap =>
    obtain ⟨s, hs, rfl⟩ := map_eq_some_iff.mp hstep
    refine h.applyEdit hs (balanced_mprotectArea hsplits s _ lo hi perm remap ?_)
      (pagesFrom_mprotectArea s _ lo hi perm remap)
    intro a _ _
    cases a.kind with
    | mmap | shm | framed => rfl
  | mremap i oldStart oldEnd newEnd =>
    obtain ⟨s, hs, hstep⟩ := bind_eq_some_iff.mp hstep
    obtain ⟨e, he, rfl⟩ := map_eq_some_iff.mp hstep
    obtain ⟨hbal, hpages⟩ := balanced_mremapArea hsplits he
    exact h.applyUnmap hs hbal hpages
  | brkShrink i heapStart newEnd oldEnd =>
    obtain ⟨s, hs, rfl⟩ := map_eq_some_iff.mp hstep
    exact h.applyEdit hs (balanced_shrinkBrkAreas hsplits s heapStart newEnd oldEnd)
      (pagesFrom_shrinkBrkAreas s heapStart newEnd oldEnd)
  | brkExtend i idx range =>
    obtain ⟨s, hs, rfl⟩ := map_eq_some_iff.mp hstep
    refine h.setSpace _ hs (fun id => ?_) (pagesFrom_setRange s idx range)
    unfold pieceRefs
    rw [held_setRange]
  | pushFramed i range perm =>
    obtain ⟨s, hs, rfl⟩ := map_eq_some_iff.mp hstep
    exact h.insertArea hs rfl
  | removeArea i startVpn =>
    obtain ⟨s, hs, hstep⟩ := bind_eq_some_iff.mp hstep
    obtain ⟨e, he, rfl⟩ := map_eq_some_iff.mp hstep
    obtain ⟨idx, -, rfl⟩ := map_eq_some_iff.mp he
    exact h.applyEdit hs ((balanced_removeIdx s idx).withSpace rfl)
      (pagesFrom_removeIdx s idx)
  | fork i env =>
    obtain ⟨s, hs, rfl⟩ := map_eq_some_iff.mp hstep
    exact h.sysFork (mem_of_getElem? hs) env
  | exec i image =>
    obtain ⟨s, hs, rfl⟩ := map_eq_some_iff.mp hstep
    exact h.sysExec hs image
  | exit i =>
    obtain ⟨s, hs, rfl⟩ := map_eq_some_iff.mp hstep
    exact h.applyUnmap hs (balanced_removeAll s) fun id p ⟨a, ha, _⟩ => nomatch ha

lemma ok_of_reachable (h : system.Reachable System.anyStep w) : w.Ok := by
  apply h.invariant
  · rintro w ⟨allowSealing, rfl⟩
    refine ⟨ok_new, fun s hs id p hp => ?_, fun a ha => nomatch ha⟩
    obtain ⟨a, ha, -⟩ := hp
    rw [mem_singleton.mp hs] at ha
    cases ha
  · intro w e w' hok _ hstep
    exact hok.step hstep

/-- **The segment table is accounted for** in a state of the kernel. -/
structure Accounted (w : World) : Prop where
  /-- A key leads to an id exactly when a live, not removal-marked, non-private segment has
      that key and id. -/
  keyed : ∀ key id, w.shm.keyedSegments.get? key = some id ↔
    ∃ seg, w.shm.segments.get? id = some seg ∧ seg.key = key ∧ seg.markedForDelete = false ∧
      key ≠ IPC_PRIVATE
  /-- The attach count is the number of pieces over all address spaces, of attaches in flight
      and of removed pieces that are still to be detached. -/
  attachCount : ∀ id seg, w.shm.segments.get? id = some seg →
    seg.attachCount = w.pieces id + w.attachesInFlight id + w.detachesInFlight id
  /-- With no detach pending, it is the number of pieces and of attaches in flight. -/
  settled : w.retired = [] → ∀ id seg, w.shm.segments.get? id = some seg →
    seg.attachCount = w.pieces id + w.attachesInFlight id
  /-- Every page of a piece is a frame of the live segment, at its index. -/
  mapped : ∀ s ∈ w.spaces, ∀ id p, Maps s.areas id p →
    ∃ seg, w.shm.segments.get? id = some seg ∧ seg.pages[p.pageIndex]? = some p.ppn
  /-- Every segment that was created is live or was dropped with its frames. -/
  created : (w.shm.segments.entries.map (fun e => e.2.serial) ++
    w.shm.dropped.map (·.serial)).Perm (List.range w.shm.created)
  /-- What was dropped was removal-marked and had no attachment. -/
  dropped : ∀ seg ∈ w.shm.dropped, seg.markedForDelete = true ∧ seg.attachCount = 0
  /-- What is live is not removal-marked or has an attachment. -/
  live : ∀ id seg, w.shm.segments.get? id = some seg →
    ¬ (seg.markedForDelete = true ∧ seg.attachCount = 0)

/-- **Segments are accounted for** in every state of every run. -/
theorem segments_accounted {w : World} (h : system.Reachable System.anyStep w) : w.Accounted := by
  have hok := ok_of_reachable h
  refine ⟨hok.shm.keyed, hok.shm.count, ?_, hok.pages, hok.shm.serials, hok.shm.gone, ?_⟩
  · intro hnone id seg hget
    have hcount := hok.shm.count id seg hget
    unfold refs detachesInFlight at hcount
    rwa [hnone, count_nil, add_zero] at hcount
  · rintro id seg hget ⟨hmark, hzero⟩
    exact absurd (hok.shm.marked id seg hget hmark) (by omega)

/-- A two-page segment is attached, cut by a partial `munmap`, inherited by a child and removed;
then the parent exits, and its two pieces wait to be detached. -/
def cutAndInherited : List SharedEvent :=
  [.shmget 7 8192 0o1600 ⟨0, 0⟩ ⟨0, 0, [], false, false⟩ (fun i => some (100 + i)),
    .shmatAttach 1, .shmatMap 0 0 0x80000 ⟨true, true, false, true⟩, .munmap 0 0x80000 0x80001,
    .fork 0 ⟨fun _ => true, fun _ _ => .empty, fun _ => true⟩,
    .shmRmid 1 ⟨0, 0, [], false, false⟩, .exit 0]

theorem segments_accounted_cutAndInherited :
    ∃ w, system.runWhile System.anyStep (boot fun _ => true) cutAndInherited = some w ∧
      (w.shm.segments.get? 1).map (fun seg => (seg.attachCount, seg.markedForDelete)) =
        some (4, true) ∧ w.pieces 1 = 2 ∧ w.detachesInFlight 1 = 2 ∧ w.Accounted := by
  have hrun : (system.runWhile System.anyStep (boot fun _ => true) cutAndInherited).map (fun w =>
      ((w.shm.segments.get? 1).map fun seg => (seg.attachCount, seg.markedForDelete),
        w.pieces 1, w.detachesInFlight 1)) = some (some (4, true), 2, 2) := by decide +kernel
  obtain ⟨w, hreach, hw, hv⟩ := System.exists_reachable hrun ⟨_, rfl⟩
  simp only [Prod.mk.injEq] at hv
  exact ⟨w, hw, hv.1, hv.2.1, hv.2.2, segments_accounted hreach⟩

end World

end Pieces

end Whusp.Mm
