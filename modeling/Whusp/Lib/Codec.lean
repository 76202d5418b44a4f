import Mathlib.Data.List.Basic
import Mathlib.Tactic.Ring

/-!
# Fixed-size byte layouts

A `Codec α` lays a value out in a fixed number of bytes.  Decoding is total: plain
data can be read from any bytes.  A codec carries the proofs that it has its size and
that decoding gives back what was encoded, so a record's layout is correct as soon as
it is put together from `word`, `array`, `seq`, `pad` and `iso`.

## Main definitions

- `Codec`: size, encoder, decoder and the two laws.
- `Codec.word n`: an `8 * n` bit word, least significant byte first.
- `Codec.seq`, `Codec.array`, `Codec.pad`, `Codec.iso`: the layouts of records.
-/

namespace Whusp.Lib

universe u v

abbrev Byte := BitVec 8

/-- A layout of `α` in `size` bytes. -/
structure Codec (α : Type u) where
  size : Nat
  encode : α → List Byte
  /-- Reads the first `size` bytes. -/
  decode : List Byte → α
  length_encode : ∀ a, (encode a).length = size
  decode_encode : ∀ a rest, decode (encode a ++ rest) = a

namespace Codec

variable {α : Type u} {β : Type v}

/-! ## Words -/

def encodeLE : Nat → Nat → List Byte
  | 0, _ => []
  | n + 1, v => BitVec.ofNat 8 v :: encodeLE n (v / 256)

def decodeLE : Nat → List Byte → Nat
  | 0, _ => 0
  | n + 1, bs => (bs.headD 0).toNat + 256 * decodeLE n bs.tail

lemma length_encodeLE (n v : Nat) : (encodeLE n v).length = n := by
  induction n generalizing v with
  | zero => rfl
  | succ n ih => rw [encodeLE, List.length_cons, ih]

lemma decodeLE_encodeLE (n v : Nat) (rest : List Byte) :
    decodeLE n (encodeLE n v ++ rest) = v % 256 ^ n := by
  induction n generalizing v with
  | zero =>
    rw [Nat.pow_zero, Nat.mod_one]
    rfl
  | succ n ih =>
    have hbyte : (BitVec.ofNat 8 v).toNat = v % 256 := BitVec.toNat_ofNat v 8
    simp only [encodeLE, decodeLE, List.cons_append, List.headD_cons, List.tail_cons, ih, hbyte]
    rw [pow_succ, Nat.mul_comm (256 ^ n), Nat.mod_mul]

/-- A word of `n` bytes, least significant byte first. -/
def word (n : Nat) : Codec (BitVec (8 * n)) where
  size := n
  encode := fun x => encodeLE n x.toNat
  decode := fun bs => BitVec.ofNat _ (decodeLE n bs)
  length_encode := fun x => length_encodeLE n x.toNat
  decode_encode := by
    intro x rest
    apply BitVec.eq_of_toNat_eq
    rw [decodeLE_encodeLE, BitVec.toNat_ofNat,
      show 256 ^ n = 2 ^ (8 * n) from (Nat.pow_mul 2 8 n).symm]
    rw [Nat.mod_mod, Nat.mod_eq_of_lt x.isLt]

/-! ## Records and arrays -/

def pad (n : Nat) : Codec Unit where
  size := n
  encode := fun _ => List.replicate n 0
  decode := fun _ => ()
  length_encode := fun _ => List.length_replicate
  decode_encode := fun _ _ => rfl

/-- One layout after the other. -/
def seq (c : Codec α) (d : Codec β) : Codec (α × β) where
  size := c.size + d.size
  encode := fun p => c.encode p.1 ++ d.encode p.2
  decode := fun bs => (c.decode bs, d.decode (bs.drop c.size))
  length_encode := by
    intro p
    rw [List.length_append, c.length_encode, d.length_encode]
  decode_encode := by
    intro p rest
    rw [List.append_assoc, c.decode_encode, List.drop_left' (c.length_encode p.1), d.decode_encode]

/-- The same bytes seen as another type. -/
def iso (c : Codec α) (f : α → β) (g : β → α) (h : ∀ b, f (g b) = b) : Codec β where
  size := c.size
  encode := fun b => c.encode (g b)
  decode := fun bs => f (c.decode bs)
  length_encode := fun b => c.length_encode (g b)
  decode_encode := by
    intro b rest
    rw [c.decode_encode, h]

lemma length_flatMap_encode (c : Codec α) (l : List α) :
    (l.flatMap c.encode).length = l.length * c.size := by
  induction l with
  | nil => simp
  | cons a l ih =>
    rw [List.flatMap_cons, List.length_append, ih, c.length_encode, List.length_cons]
    ring

/-- Skipping whole elements of an encoded list. -/
lemma drop_flatMap_encode (c : Codec α) (l : List α) (rest : List Byte) (i : Nat)
    (hi : i ≤ l.length) :
    (l.flatMap c.encode ++ rest).drop (i * c.size) = (l.drop i).flatMap c.encode ++ rest := by
  induction i generalizing l with
  | zero => rw [Nat.zero_mul, List.drop_zero, List.drop_zero]
  | succ i ih =>
    cases l with
    | nil => simp at hi
    | cons a l =>
      rw [Nat.succ_mul, Nat.add_comm, ← List.drop_drop, List.flatMap_cons, List.append_assoc,
        List.drop_left' (c.length_encode a), List.drop_succ_cons]
      exact ih l (by simpa using hi)

def array (n : Nat) (c : Codec α) : Codec (Vector α n) where
  size := n * c.size
  encode := fun v => v.toList.flatMap c.encode
  decode := fun bs => Vector.ofFn fun i => c.decode (bs.drop (i * c.size))
  length_encode := by
    intro v
    rw [length_flatMap_encode, Vector.length_toList]
  decode_encode := by
    intro v rest
    apply Vector.ext
    intro i hi
    have hlen : i < v.toList.length := by rwa [Vector.length_toList]
    rw [Vector.getElem_ofFn, drop_flatMap_encode c v.toList rest i hlen.le,
      List.drop_eq_getElem_cons hlen, List.flatMap_cons, List.append_assoc, c.decode_encode,
      Vector.getElem_toList]

end Codec

end Whusp.Lib
