import Whusp.Lib.ByteFile

/-!
# Partial overlays on byte-array files

A write-back cache keeps the newest bytes of a file in a partial map over an older file.
`Overlaid base layer f` says that `f` is what a reader sees: the overlay where it is defined
and the base elsewhere.  The overlay must define every byte between the size of the base and
the size of `f`, for the base has nothing to show there.
-/

namespace Whusp.Lib

open List

/-! ## Pieces of buffers -/

section Pieces

universe u

variable {α : Type u}

/-- The loop of `chunks`; every round takes at most `n` elements. -/
def chunksLoop (n : Nat) : Nat → List α → List (List α)
  | 0, _ => []
  | fuel + 1, l => if l.isEmpty then [] else l.take n :: chunksLoop n fuel (l.drop n)

/-- A list in pieces of `n` elements; the last one may be shorter. -/
def chunks (n : Nat) (l : List α) : List (List α) := chunksLoop n l.length l

lemma flatten_chunksLoop {n fuel : Nat} {l : List α} (hn : 0 < n) (h : l.length ≤ fuel) :
    (chunksLoop n fuel l).flatten = l := by
  induction fuel generalizing l with
  | zero =>
    rw [length_eq_zero_iff.mp (Nat.le_zero.mp h)]
    rfl
  | succ fuel ih =>
    rcases l with _ | ⟨a, l⟩
    · rfl
    have hdrop : ((a :: l).drop n).length ≤ fuel := by
      rw [length_drop, length_cons] at *
      omega
    simp only [chunksLoop, isEmpty_cons, Bool.false_eq_true, if_false, flatten_cons,
      ih hdrop, take_append_drop]

/-- The chunks of a list are the list. -/
theorem flatten_chunks {n : Nat} (hn : 0 < n) (l : List α) : (chunks n l).flatten = l :=
  flatten_chunksLoop hn le_rfl

lemma ne_nil_of_mem_chunks {n : Nat} (hn : 0 < n) {l c : List α} (h : c ∈ chunks n l) : c ≠ [] := by
  have hloop : ∀ fuel (l : List α), c ∈ chunksLoop n fuel l → c ≠ [] := by
    intro fuel
    induction fuel with
    | zero => exact fun _ hc => absurd hc not_mem_nil
    | succ fuel ih =>
      intro l hc
      rcases l with _ | ⟨a, l⟩
      · exact absurd hc not_mem_nil
      simp only [chunksLoop, isEmpty_cons, Bool.false_eq_true, if_false, mem_cons] at hc
      rcases hc with rfl | hc
      · obtain ⟨n, rfl⟩ := Nat.exists_eq_succ_of_ne_zero hn.ne'
        simp
      · exact ih _ hc
  exact hloop _ _ h

end Pieces

/-! ## Pieces of files -/

namespace ByteFile

variable (f : ByteFile) (offset : Nat)

/-- Two writes in a row are one. -/
theorem write_append (a b : List Byte) :
    (f.write offset a).write (offset + a.length) b = f.write offset (a ++ b) := by
  apply ByteFile.ext
  · rcases a with _ | ⟨x, a⟩
    · simp
    rcases b with _ | ⟨y, b⟩
    · simp
    · simp only [write, length_append, length_cons, reduceCtorEq, if_false,
        append_eq_nil_iff, and_self]
      omega
  · funext i
    simp only [write, length_append]
    by_cases hb : offset + a.length ≤ i ∧ i < offset + a.length + b.length
    · rw [if_pos hb, if_pos (by omega), getD_append_right _ _ _ _ (by omega)]
      congr 1
      omega
    · rw [if_neg hb]
      by_cases ha : offset ≤ i ∧ i < offset + a.length
      · rw [if_pos ha, if_pos (by omega), getD_append _ _ _ _ (by omega)]
      · rw [if_neg ha, if_neg (by omega)]

lemma size_le_write (buf : List Byte) : f.size ≤ (f.write offset buf).size := by
  simp only [write]
  split <;> omega

lemma length_read (n : Nat) : (f.read offset n).length = min n (f.size - offset) := by
  simp [read]

lemma getD_read {n i : Nat} (h : i < min n (f.size - offset)) :
    (f.read offset n).getD i 0 = f.byte (offset + i) := by
  rw [getD_eq_getElem _ _ (by rwa [length_read])]
  simp [read]

/-- A list is what a read returns as soon as it has the length and the bytes. -/
lemma eq_read {l : List Byte} {n : Nat} (hlen : l.length = min n (f.size - offset))
    (hbyte : ∀ i, i < l.length → l.getD i 0 = f.byte (offset + i)) : l = f.read offset n := by
  apply ext_getElem
  · rw [hlen, length_read]
  · intro i h1 h2
    rw [← getD_eq_getElem _ 0 h1, ← getD_eq_getElem _ 0 h2, hbyte i h1, getD_read _ _ (by omega)]

end ByteFile

/-! ## Overlays -/

/-- `f` is what one reads through the partial map `layer` on `base`. -/
structure Overlaid (base : ByteFile) (layer : Nat → Option Byte) (f : ByteFile) : Prop where
  byte : ∀ x, f.byte x = (layer x).getD (base.byte x)
  inside : ∀ x, layer x ≠ none → x < f.size
  size_le : base.size ≤ f.size
  /-- Past the base, everything is in the overlay. -/
  filled : ∀ x, base.size ≤ x → x < f.size → layer x ≠ none

def putOverlay (layer : Nat → Option Byte) (offset : Nat) (buf : List Byte) (x : Nat) :
    Option Byte :=
  if offset ≤ x ∧ x < offset + buf.length then some (buf.getD (x - offset) 0) else layer x

variable {base f : ByteFile} {layer layer' : Nat → Option Byte} {offset x : Nat} {buf : List Byte}

namespace Overlaid

lemma refl (base : ByteFile) : Overlaid base (fun _ => none) base where
  byte _ := rfl
  inside _ h := absurd rfl h
  size_le := le_rfl
  filled _ hle hlt := absurd hlt (not_lt.mpr hle)

section

variable (h : Overlaid base layer f)
include h

/-- Without an overlay the base is what one sees. -/
lemma eq_of_clean (hclean : ∀ x, layer x = none) : base = f := by
  apply ByteFile.ext
  · apply le_antisymm h.size_le
    apply not_lt.mp
    intro hlt
    exact h.filled base.size le_rfl hlt (hclean _)
  · funext x
    rw [h.byte, hclean]
    rfl

/-- A write to the file is a write to the layer. -/
theorem write (hoffset : offset ≤ f.size) (hbuf : buf ≠ []) :
    Overlaid base (putOverlay layer offset buf) (f.write offset buf) where
  byte x := by
    simp only [ByteFile.write, putOverlay]
    split
    · rfl
    · exact h.byte x
  inside x hx := by
    simp only [ByteFile.write, if_neg hbuf]
    unfold putOverlay at hx
    split at hx
    · omega
    · exact lt_of_lt_of_le (h.inside x hx) (le_max_left _ _)
  size_le := h.size_le.trans (f.size_le_write offset buf)
  filled x hle hlt := by
    simp only [ByteFile.write, if_neg hbuf] at hlt
    unfold putOverlay
    split
    · simp
    · exact h.filled x hle (by omega)

lemma congr (hsame : ∀ x, layer' x = layer x) :
    Overlaid base layer' f := by
  rw [funext hsame]
  exact h

end

end Overlaid

end Whusp.Lib
