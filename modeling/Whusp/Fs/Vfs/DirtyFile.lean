import Whusp.Fs.Vfs.PageCache
import Whusp.Lib.Overlay

/-!
# A regular file under write-back

The content of a regular file is spread over the backend and the dirty pages of its inode.  A
dirty page is taken as the bytes that its dirty ranges cover, so that the pages together are a
partial map over the positions of the file (`layer`), and there is a dirty page exactly when a
position below the logical size is in the map.

`Shows` says what the file is for whoever looks at both; it holds whenever nobody is inside a
section under the mapping lease.
-/

namespace Whusp.Fs.Vfs

open Option

open Whusp.Lib (Byte ByteFile Overlaid putOverlay)

structure DirtyFile where
  backend : ByteFile
  logicalSize : Nat
  layer : Nat → Option Byte
  /-- The size in the cached stat of the inode, which every section clears. -/
  cachedSize : Option Nat

/-- One past the last position below `n` that the map covers. -/
def extent (batch : Nat → Option Byte) : Nat → Nat
  | 0 => 0
  | n + 1 => if (batch n).isSome then n + 1 else extent batch n

lemma lt_extent {batch : Nat → Option Byte} {n x : Nat} (hx : x < n) (h : batch x ≠ none) :
    x < extent batch n := by
  induction n with
  | zero => omega
  | succ n ih =>
    unfold extent
    split
    · exact hx
    rename_i hn
    rcases Nat.lt_succ_iff_lt_or_eq.mp hx with hlt | rfl
    · exact ih hlt
    · exact absurd (isSome_iff_ne_none.mpr h) hn

lemma extent_le {batch : Nat → Option Byte} {n m : Nat} (h : ∀ x, batch x ≠ none → x < m) :
    extent batch n ≤ m := by
  induction n with
  | zero => exact Nat.zero_le m
  | succ n ih =>
    unfold extent
    split
    next hn =>
      exact h n (isSome_iff_ne_none.mp hn)
    · exact ih

namespace DirtyFile

def hasPages (F : DirtyFile) : Bool := (List.range F.logicalSize).any fun x => (F.layer x).isSome

def statSize (F : DirtyFile) : Nat := F.cachedSize.getD F.backend.size

/-- `stat_logical_size`, for a stat taken before. -/
def logicalSizeOr (F : DirtyFile) (stat : Nat) : Nat := if F.hasPages then F.logicalSize else stat

/-- What `cache_dirty_regular_write` does when it caches the write. -/
def cacheWrite (F : DirtyFile) (offset : Nat) (buf : List Byte) : DirtyFile :=
  { F with
    logicalSize := max (F.logicalSizeOr F.statSize) (offset + buf.length)
    layer := putOverlay F.layer offset buf
    cachedSize := none }

/-- The dirty bytes in the pages before page `cut`. -/
def batch (F : DirtyFile) (cut : Nat) (x : Nat) : Option Byte :=
  if x / PAGE_SIZE < cut then F.layer x else none

/-- `collect_dirty_writeback`: the pages before `cut` leave the dirty cache. -/
def collect (F : DirtyFile) (cut : Nat) : DirtyFile :=
  { F with layer := fun x => if x / PAGE_SIZE < cut then none else F.layer x }

/-- A cut behind every page. -/
def allPages (F : DirtyFile) : Nat := F.logicalSize / PAGE_SIZE + 1

/-- `write_dirty_writeback_pages`: every dirty byte of the batch is written to the backend. -/
def storeBatch (F : DirtyFile) (batch : Nat → Option Byte) : DirtyFile :=
  { F with
    backend :=
      { size := max F.backend.size (extent batch F.logicalSize)
        byte := fun x =>
          if x < F.logicalSize then (batch x).getD (F.backend.byte x) else F.backend.byte x
        tail := by
          intro x hx
          have hback := F.backend.tail x (by omega)
          split
          next hlt =>
            rcases hb : batch x with _ | b
            · exact hback
            · have := lt_extent hlt (hb ▸ some_ne_none b)
              omega
          · exact hback }
    cachedSize := none }

def backendWrite (F : DirtyFile) (offset : Nat) (buf : List Byte) : DirtyFile :=
  { F with backend := F.backend.write offset buf, cachedSize := none }

def setLen (F : DirtyFile) (len : Nat) : DirtyFile :=
  { F with backend := F.backend.setLen len, cachedSize := none }

/-- What a reader of both the backend and the dirty pages finds. -/
def view (F : DirtyFile) : ByteFile where
  size := F.logicalSizeOr F.backend.size
  byte x := if x < F.logicalSizeOr F.backend.size then (F.layer x).getD (F.backend.byte x) else 0
  tail _ hx := if_neg (not_lt.mpr hx)

/-- The file that backend and dirty pages make up together. -/
structure Shows (F : DirtyFile) (f : ByteFile) : Prop where
  overlaid : Overlaid F.backend F.layer f
  inside : ∀ x, F.layer x ≠ none → x < F.logicalSize
  size : F.hasPages = true → F.logicalSize = f.size
  stat : F.statSize = F.backend.size

variable {F : DirtyFile} {f : ByteFile} {offset : Nat} {buf : List Byte}

lemma hasPages_eq_true {x : Nat} (hlt : x < F.logicalSize) (hx : F.layer x ≠ none) :
    F.hasPages = true :=
  List.any_eq_true.mpr ⟨x, List.mem_range.mpr hlt, isSome_iff_ne_none.mpr hx⟩

lemma Shows.clean (h : F.Shows f) (hp : F.hasPages = false) (x : Nat) : F.layer x = none := by
  by_contra hx
  simp [hasPages_eq_true (h.inside x hx) hx] at hp

/-- A file without dirty pages is the backend's. -/
lemma Shows.of_clean {G : DirtyFile} (hl : ∀ x, G.layer x = none)
    (hs : G.statSize = G.backend.size) : G.Shows G.backend where
  overlaid := (Overlaid.refl G.backend).congr fun x => hl x
  inside x hx := absurd (hl x) hx
  size hp := by
    obtain ⟨x, -, hx⟩ := List.any_eq_true.mp hp
    simp [hl x] at hx
  stat := hs

theorem Shows.size_eq (h : F.Shows f) : F.logicalSizeOr F.backend.size = f.size := by
  unfold logicalSizeOr
  split
  next hp =>
    exact h.size hp
  next hp =>
    rw [h.overlaid.eq_of_clean (h.clean (Bool.eq_false_iff.mpr hp))]

lemma Shows.view_eq (h : F.Shows f) : F.view = f := by
  apply ByteFile.ext
  · exact h.size_eq
  funext x
  simp only [view, h.size_eq]
  split
  · exact (h.overlaid.byte x).symm
  · exact (f.tail x (by omega)).symm

/-- **A cached write**, at most at the end of the file. -/
theorem Shows.cacheWrite (h : F.Shows f) (ho : offset ≤ f.size) (hb : buf ≠ []) :
    (F.cacheWrite offset buf).Shows (f.write offset buf) := by
  have hsize : max (F.logicalSizeOr F.statSize) (offset + buf.length) =
      (f.write offset buf).size := by
    rw [h.stat, h.size_eq]
    simp only [ByteFile.write, if_neg hb]
  have hover := h.overlaid.write ho hb
  exact ⟨hover, fun x hx => lt_of_lt_of_eq (hover.inside x hx) hsize.symm,
    fun _ => hsize, rfl⟩

/-- **Writing back**: the pages of a batch are out of the cache until they are stored. -/
theorem Shows.storeBatch {batch : Nat → Option Byte}
    (h : Shows { F with layer := fun x => (batch x).or (F.layer x) } f)
    (hapart : ∀ x, batch x ≠ none → F.layer x = none) : (F.storeBatch batch).Shows f where
  overlaid := by
    have hin : ∀ x, batch x ≠ none → x < F.logicalSize := fun x hx =>
      h.inside x fun hn => hx (or_eq_none_iff.mp hn).1
    have hbyte : ∀ x, f.byte x = ((batch x).or (F.layer x)).getD (F.backend.byte x) :=
      h.overlaid.byte
    refine ⟨fun x => ?_, fun x hx => ?_, ?_, fun x hle hlt => ?_⟩
    · rw [hbyte]
      show _ = (F.layer x).getD
        (if x < F.logicalSize then (batch x).getD (F.backend.byte x) else F.backend.byte x)
      rcases hb : batch x with _ | b
      · simp
      · have hx : batch x ≠ none := hb ▸ some_ne_none b
        rw [if_pos (hin x hx), hapart x hx]
        rfl
    · exact h.overlaid.inside x fun hn => hx (or_eq_none_iff.mp hn).2
    · apply max_le h.overlaid.size_le
      exact extent_le fun x hx =>
        h.overlaid.inside x fun hn => hx (or_eq_none_iff.mp hn).1
    · -- Past the old backend everything was dirty; what was in the batch is now in the backend.
      have hle' : max F.backend.size (extent batch F.logicalSize) ≤ x := hle
      have hor : (batch x).or (F.layer x) ≠ none :=
        h.overlaid.filled x ((le_max_left _ _).trans hle') hlt
      intro hn
      have hb : batch x ≠ none := fun hb => hor (or_eq_none_iff.mpr ⟨hb, hn⟩)
      have := lt_extent (hin x hb) hb
      omega
  inside x hx := h.inside x fun hn => hx (or_eq_none_iff.mp hn).2
  size hp := h.size (by
    obtain ⟨x, hlt, hx⟩ := List.any_eq_true.mp hp
    refine List.any_eq_true.mpr ⟨x, hlt, ?_⟩
    rw [isSome_or, show (F.layer x).isSome = true from hx, Bool.or_true])
  stat := rfl

section

variable (h : F.Shows f)
include h

lemma Shows.collect (cut : Nat) :
    Shows { F.collect cut with layer := fun x => (F.batch cut x).or ((F.collect cut).layer x) } f ∧
      ∀ x, F.batch cut x ≠ none → (F.collect cut).layer x = none := by
  have hsame : (fun x => (F.batch cut x).or ((F.collect cut).layer x)) = F.layer := by
    funext x
    simp only [DirtyFile.batch, DirtyFile.collect]
    split <;> simp
  constructor
  · rw [hsame]
    exact h
  intro x hx
  simp only [DirtyFile.batch, DirtyFile.collect] at hx ⊢
  split at hx
  next hlt =>
    exact if_pos hlt
  · exact absurd rfl hx

lemma Shows.collect_all (x : Nat) : (F.collect F.allPages).layer x = none := by
  by_contra hn
  have hx : ¬ x / PAGE_SIZE < F.allPages := fun hlt => hn (if_pos hlt)
  have hlayer : F.layer x ≠ none := fun hl => hn ((if_neg hx).trans hl)
  exact hx (Nat.lt_succ_of_le (Nat.div_le_div_right (h.inside x hlayer).le))

theorem Shows.backendWrite (hl : ∀ x, F.layer x = none) :
    (F.backendWrite offset buf).Shows (f.write offset buf) := by
  rw [← h.overlaid.eq_of_clean hl]
  exact .of_clean hl rfl

theorem Shows.setLen (hl : ∀ x, F.layer x = none) (len : Nat) :
    (F.setLen len).Shows (f.setLen len) := by
  rw [← h.overlaid.eq_of_clean hl]
  exact .of_clean hl rfl

end

end DirtyFile

end Whusp.Fs.Vfs
