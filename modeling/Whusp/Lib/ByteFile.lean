import Mathlib.Data.List.GetD
import Whusp.Lib.Codec

/-!
# Byte-array files

The abstract file that a storage implementation is compared with: a size and the bytes
below it.  Bytes at or past the size are 0, which is a field of the structure, so that a
file that grows reads zeros in its new part and two files with the same size and bytes
are equal.
-/

namespace Whusp.Lib

@[ext] structure ByteFile where
  size : Nat
  byte : Nat → Byte
  tail : ∀ i, size ≤ i → byte i = 0

namespace ByteFile

def empty : ByteFile := ⟨0, fun _ => 0, fun _ _ => rfl⟩

/-- The bytes from `offset` on, at most `n` and none past the size. -/
def read (f : ByteFile) (offset n : Nat) : List Byte :=
  (List.range (min n (f.size - offset))).map fun i => f.byte (offset + i)

/-- Store `buf` at `offset`; storing nothing changes nothing, not even the size. -/
def write (f : ByteFile) (offset : Nat) (buf : List Byte) : ByteFile where
  size := if buf = [] then f.size else max f.size (offset + buf.length)
  byte i := if offset ≤ i ∧ i < offset + buf.length then buf.getD (i - offset) 0 else f.byte i
  tail := by
    intro i hi
    split at hi
    next hnil =>
      rw [if_neg (by rw [hnil, List.length_nil]; omega)]
      exact f.tail i hi
    · rw [if_neg (by omega)]
      exact f.tail i (by omega)

def setLen (f : ByteFile) (n : Nat) : ByteFile where
  size := n
  byte i := if i < n then f.byte i else 0
  tail _ hi := if_neg (Nat.not_lt.mpr hi)

def extend (f : ByteFile) (n : Nat) : ByteFile where
  size := max f.size n
  byte := f.byte
  tail i hi := f.tail i (by omega)

def zero (f : ByteFile) (start stop : Nat) : ByteFile where
  size := f.size
  byte i := if start ≤ i ∧ i < stop then 0 else f.byte i
  tail := by
    intro i hi
    split
    · rfl
    · exact f.tail i hi

@[simp] lemma write_nil (f : ByteFile) (offset : Nat) : f.write offset [] = f := by
  apply ByteFile.ext
  · simp [write]
  · funext i
    exact if_neg (by rw [List.length_nil]; omega)

end ByteFile

end Whusp.Lib
