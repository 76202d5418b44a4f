import Mathlib.Algebra.BigOperators.Group.List.Basic
import Mathlib.Data.List.Permutation
import Whusp.Fs.Vfs.DirtyFile
import Whusp.Lib.Transition

/-!
# Concurrent appends, writes and truncations

Any number of threads change one regular file through `write_inner`, `write_aligned_user_buffer`
and `set_len` (`truncate_in` and an open with `O_TRUNC` make the same calls).  A step is one
section under the mapping lease of the inode, or one look at the file outside of it: an append
takes the stat and the dirty size before it asks for the lease, and a truncation flushes the dirty
pages and resizes the backend under two leases.  A flush is split at the point where its pages are
in neither place.

Nothing keeps one call out while another counts on what it has seen of the file: an append from its
stat to its last section, a write in several pieces between its sections, a truncation between its
two leases.  `StepOk` asks for just that; then every call takes effect at its last section.
-/

namespace Whusp.Fs.Vfs.Writers

open List Option

open Whusp.Lib (Byte ByteFile System chunks flatten_chunks ne_nil_of_mem_chunks)

def VFS_WRITE_CHUNK_SIZE : Nat := 64 * 1024

/-- The calls; `aligned` for `write_aligned_user_buffer`, which tries the whole buffer at once. -/
inductive Op where
  | append (buf : List Byte) (aligned : Bool)
  | write (offset : Nat) (buf : List Byte) (aligned : Bool)
  | setLen (len : Nat)

namespace Op

def buf : Op → List Byte
  | .append buf _ | .write _ buf _ => buf
  | .setLen _ => []

def aligned : Op → Bool
  | .append _ aligned | .write _ _ aligned => aligned
  | .setLen _ => false

/-- The buffers of the sections that write, if all goes well. -/
def pieces (op : Op) : List (List Byte) :=
  if op.aligned ∧ op.buf ≠ [] then [op.buf] else chunks VFS_WRITE_CHUNK_SIZE op.buf

/-- Where a call would write if it had the file for itself. -/
def start (op : Op) (f : ByteFile) : Nat :=
  match op with
  | .append .. => f.size
  | .write offset .. => offset
  | .setLen _ => 0

def apply (op : Op) (f : ByteFile) : ByteFile :=
  match op with
  | .setLen len => f.setLen len
  | op => f.write (op.start f) op.buf

end Op

inductive Phase where
  | ready (op : Op)
  | statted (op : Op) (size : Nat)
  /-- What has been written and the pieces still to write. -/
  | writing (op : Op) (offset : Nat) (written : List Byte) (rest : List (List Byte))
  /-- It holds the lease, and the pages it flushes are out of the cache; with `force` the next
      piece goes to the backend in the same section. -/
  | flushing (op : Op) (offset : Nat) (written : List Byte) (rest : List (List Byte))
      (batch : Nat → Option Byte) (force : Bool)
  | truncating (op : Op) (len : Nat)
  | truncFlushing (op : Op) (len : Nat) (batch : Nat → Option Byte)
  | flushed (op : Op) (len : Nat)
  | returned

namespace Phase

def op : Phase → Option Op
  | .ready op | .statted op _ | .writing op .. | .flushing op .. => some op
  | .truncating op _ | .truncFlushing op .. | .flushed op _ => some op
  | .returned => none

/-- The call counts on what it has seen or made of the file: an append has the size, a write in
pieces has written some of them, pages are on their way to the backend, or a truncation has flushed
and not yet resized. -/
def inWindow : Phase → Bool
  | .statted .. | .flushing .. | .truncFlushing .. | .flushed .. => true
  | .writing _ _ _ [] | .writing (.write ..) _ [] _ => false
  | .writing .. => true
  | .ready _ | .truncating .. | .returned => false

/-- The next step looks at the file, or is a section that may change it. -/
def touches : Phase → Bool
  | .ready (.append ..) | .writing _ _ _ (_ :: _) | .truncating .. => true
  | p => p.inWindow

/-- The call has done all that it does to the file. -/
def complete : Phase → Bool
  | .writing _ _ _ [] | .returned => true
  | _ => false

end Phase

structure State where
  file : DirtyFile
  lease : Option Nat
  threads : List Phase

/-- How a section of a write goes. -/
inductive Choice where
  | cached
  /-- `NeedsPressureFlush`, with the pages before `cut` of this file in the batch. -/
  | pressure (cut : Nat)
  /-- The cache does not take the piece: everything is flushed and the backend written. -/
  | fallback
  /-- `write_aligned_user_buffer` goes on with `write_coalesced_user_buffer`. -/
  | coalesce

namespace State

variable (s : State) (t : Nat)

def set (file : DirtyFile) (lease : Option Nat) (p : Phase) : State :=
  { s with file := file, lease := lease, threads := s.threads.set t p }

def finish (file : DirtyFile) : State := s.set t file s.lease .returned

end State

def stepWriting (s : State) (t : Nat) (op : Op) (offset : Nat) (written piece : List Byte)
    (rest : List (List Byte)) : Choice → Option State
  | .cached =>
    if offset ≤ s.file.logicalSizeOr s.file.statSize then
      some (s.set t (s.file.cacheWrite offset piece) none
        (.writing op (offset + piece.length) (written ++ piece) rest))
    else none
  | .pressure cut =>
    some (s.set t (s.file.collect cut) (some t)
      (.flushing op offset written (piece :: rest) (s.file.batch cut) false))
  | .fallback =>
    some (s.set t (s.file.collect s.file.allPages) (some t)
      (.flushing op offset written (piece :: rest) (s.file.batch s.file.allPages) true))
  | .coalesce =>
    if op.aligned then
      some (s.set t s.file none
        (.writing op offset written (chunks VFS_WRITE_CHUNK_SIZE (piece :: rest).flatten)))
    else none

def step (s : State) (a : Nat × Choice) : Option State :=
  let t := a.1
  match s.threads[t]? with
  | none | some .returned => none
  | some (.ready (.append buf aligned)) =>
    some (s.set t { s.file with cachedSize := some s.file.statSize } s.lease
      (.statted (.append buf aligned) s.file.statSize))
  | some (.ready (.write offset buf aligned)) =>
    let op := Op.write offset buf aligned
    some (s.set t s.file s.lease (.writing op offset [] op.pieces))
  | some (.ready (.setLen len)) => some (s.set t s.file s.lease (.truncating (.setLen len) len))
  | some (.statted op size) =>
    some (s.set t s.file s.lease (.writing op (s.file.logicalSizeOr size) [] op.pieces))
  | some (.writing _ _ _ []) => some (s.finish t s.file)
  | some (.writing op offset written (piece :: rest)) =>
    if s.lease = none then stepWriting s t op offset written piece rest a.2 else none
  | some (.flushing op offset written rest batch force) =>
    let file := s.file.storeBatch batch
    match force, rest with
    | true, piece :: rest =>
      some (s.set t (file.backendWrite offset piece) none
        (.writing op (offset + piece.length) (written ++ piece) rest))
    | _, rest => some (s.set t file none (.writing op offset written rest))
  | some (.truncating op len) =>
    if s.file.hasPages = false then some (s.set t s.file s.lease (.flushed op len))
    else if s.lease = none then
      some (s.set t (s.file.collect s.file.allPages) (some t)
        (.truncFlushing op len (s.file.batch s.file.allPages)))
    else none
  | some (.truncFlushing op len batch) =>
    some (s.set t (s.file.storeBatch batch) none (.flushed op len))
  | some (.flushed _ len) =>
    if s.lease = none then some (s.finish t (s.file.setLen len)) else none

/-- The calls `ops` on a file that shows `f`. -/
def system (ops : List Op) (f : ByteFile) : System State (Nat × Choice) where
  init s := s.file.Shows f ∧ s.lease = none ∧ s.threads = ops.map .ready
  step := step

/-- **The window**: no call looks at the file or takes a section while another one is in its
window. -/
def StepOk (s : State) (a : Nat × Choice) : Prop :=
  s.threads[a.1]?.any Phase.touches = true → ∀ p ∈ s.threads.eraseIdx a.1, p.inWindow = false

instance : DecidableRel StepOk := fun _ _ => inferInstanceAs (Decidable (_ → _))

def State.Done (s : State) : Prop := ∀ p ∈ s.threads, p.op = none

/-! ## The invariant -/

/-- The file after calls that come one after the other. -/
def applyAll (order : List Op) (f : ByteFile) : ByteFile := order.foldl (fun f op => op.apply f) f

def serial (ops : List Op) (f : ByteFile) (order : List Nat) : ByteFile :=
  applyAll (order.filterMap (ops[·]?)) f

/-- What is true of a call that has written `written` so far, on the file `g`. -/
structure Written (op : Op) (g : ByteFile) (offset : Nat) (written : List Byte)
    (rest : List (List Byte)) : Prop where
  apply : op.apply g = g.write (op.start g) op.buf
  offset : offset = op.start g + written.length
  buf : op.buf = written ++ rest.flatten
  nonempty : ∀ p ∈ rest, p ≠ []

/-- The pages of the batch are between the cache and the backend. -/
def Between (F : DirtyFile) (batch : Nat → Option Byte) (f : ByteFile) : Prop :=
  DirtyFile.Shows { F with layer := fun x => (batch x).or (F.layer x) } f ∧
    ∀ x, batch x ≠ none → F.layer x = none

/-- What a call in its window has made of the file `g` that it found. -/
def Phase.Ok (F : DirtyFile) (g : ByteFile) : Phase → Prop
  | .ready _ | .truncating .. | .returned => True
  | .statted op size => F.Shows g ∧ size = F.backend.size ∧ ∃ buf b, op = .append buf b
  | .writing op offset written rest =>
    F.Shows (g.write (op.start g) written) ∧ Written op g offset written rest
  | .flushing op offset written rest batch force =>
    Between F batch (g.write (op.start g) written) ∧ Written op g offset written rest ∧
      (force = true → ∀ x, F.layer x = none)
  | .truncFlushing op len batch => Between F batch g ∧ (∀ x, F.layer x = none) ∧ op = .setLen len
  | .flushed op len => F.Shows g ∧ (∀ x, F.layer x = none) ∧ op = .setLen len

/-- What is true of a call outside of its window, whatever the file. -/
def Phase.Idle : Phase → Prop
  | .writing op offset written rest =>
    rest = [] ∨ (written = [] ∧ ∀ g, Written op g offset [] rest)
  | .truncating op len => op = .setLen len
  | _ => True

/-- The calls in `order` have done all they do, and the others nothing or what their window says. -/
structure Inv (ops : List Op) (f : ByteFile) (s : State) (order : List Nat) : Prop where
  called : ∀ {i : Nat} {p : Phase} {op : Op}, s.threads[i]? = some p → p.op = some op →
    ops[i]? = some op
  length : s.threads.length = ops.length
  nodup : order.Nodup
  complete : ∀ i : Nat, i ∈ order ↔ s.threads[i]?.any Phase.complete = true
  alone : ∀ {i j : Nat} {p q : Phase}, s.threads[i]? = some p → s.threads[j]? = some q →
    p.inWindow = true → q.inWindow = true → i = j
  idle : ∀ {i : Nat} {p : Phase}, s.threads[i]? = some p → p.inWindow = false → p.Idle
  quiet : (∀ p ∈ s.threads, p.inWindow = false) → s.file.Shows (serial ops f order)
  busy : ∀ {i : Nat} {p : Phase}, s.threads[i]? = some p → p.inWindow = true →
    p.Ok s.file (serial ops f order)

section Steps

variable {ops : List Op} {f : ByteFile} {s : State} {t : Nat} {p : Phase} {F : DirtyFile}
  {l : Option Nat} {order order' : List Nat}

lemma Inv.init (h : (system ops f).init s) : Inv ops f s [] := by
  obtain ⟨hf, -, ht⟩ := h
  have hready : ∀ {i : Nat} {p : Phase}, s.threads[i]? = some p →
      ∃ op, p = .ready op ∧ ops[i]? = some op := by
    intro i p hp
    rw [ht, getElem?_map] at hp
    obtain ⟨op, hop, rfl⟩ := map_eq_some_iff.mp hp
    exact ⟨op, rfl, hop⟩
  refine ⟨?_, by rw [ht, length_map], nodup_nil, ?_, ?_, ?_, fun _ => hf, ?_⟩
  · intro i p op hp hop
    obtain ⟨op', rfl, h'⟩ := hready hp
    cases hop
    exact h'
  · intro i
    cases hp : s.threads[i]? with
    | none => simp
    | some p =>
      obtain ⟨op, rfl, -⟩ := hready hp
      simp [Phase.complete]
  · intro i j p q hp hq hw
    obtain ⟨op, rfl, -⟩ := hready hp
    cases hw
  · intro i p hp _
    obtain ⟨op, rfl, -⟩ := hready hp
    trivial
  · intro i p hp hw
    obtain ⟨op, rfl, -⟩ := hready hp
    cases hw

/-- No call but that of `t` is in its window. -/
def Alone (s : State) (t : Nat) : Prop :=
  ∀ {i : Nat} {q : Phase}, i ≠ t → s.threads[i]? = some q → q.inWindow = false

lemma Inv.shows (h : Inv ops f s order) (halone : Alone s t) (ht : s.threads[t]? = some p)
    (hw : p.inWindow = false) : s.file.Shows (serial ops f order) := by
  refine h.quiet fun q hq => ?_
  obtain ⟨i, hi⟩ := List.getElem?_of_mem hq
  rcases eq_or_ne i t with rfl | hne
  · cases hi.symm.trans ht
    exact hw
  · exact halone hne hi

/-- **One call moves**, and is then added to the order if it has done all.  It changes the file only
while no other call is in its window. -/
theorem Inv.update (h : Inv ops f s order) {p' : Phase} (ht : s.threads[t]? = some p)
    (hop : ∀ op, p'.op = some op → p.op = some op)
    (horder : (p'.complete = p.complete ∧ order' = order) ∨
      (p.complete = false ∧ p'.complete = true ∧ order' = order ++ [t]))
    (hidle : p'.inWindow = false → p'.Idle)
    (hfile : (Alone s t ∧ (p'.inWindow = true → p'.Ok F (serial ops f order')) ∧
        (p'.inWindow = false → F.Shows (serial ops f order'))) ∨
      (p.inWindow = false ∧ p'.inWindow = false ∧ F = s.file ∧
        serial ops f order' = serial ops f order)) : Inv ops f (s.set t F l p') order' := by
  have hlt := (List.getElem?_eq_some_iff.mp ht).1
  have hget : ∀ {i q}, (s.threads.set t p')[i]? = some q →
      (i = t ∧ q = p') ∨ (i ≠ t ∧ s.threads[i]? = some q) := by
    intro i q hq
    rw [List.getElem?_set] at hq
    split at hq
    next hti => exact .inl ⟨hti.symm, (Option.some.inj hq).symm⟩
    next hti => exact .inr ⟨fun hi => hti hi.symm, hq⟩
  have hself : (s.threads.set t p')[t]? = some p' := List.getElem?_set_self hlt
  have hold : t ∈ order ↔ p.complete = true := by simp [h.complete t, ht]
  constructor
  · intro i q op hq hqop
    rcases hget hq with ⟨rfl, rfl⟩ | ⟨-, hq⟩
    · exact h.called ht (hop op hqop)
    · exact h.called hq hqop
  · exact (List.length_set ..).trans h.length
  · rcases horder with ⟨-, rfl⟩ | ⟨hp, -, rfl⟩
    · exact h.nodup
    · refine List.nodup_append.mpr ⟨h.nodup, List.nodup_singleton t, ?_⟩
      rintro a ha b hb rfl
      rw [List.mem_singleton.mp hb, hold, hp] at ha
      cases ha
  · intro i
    show i ∈ order' ↔ (s.threads.set t p')[i]?.any Phase.complete = true
    rcases eq_or_ne i t with rfl | hne
    · rw [hself]
      rcases horder with ⟨hp, rfl⟩ | ⟨-, hp, rfl⟩
      · simp [hold, hp]
      · simp [hp]
    · rw [List.getElem?_set_ne (Ne.symm hne), ← h.complete i]
      rcases horder with ⟨-, rfl⟩ | ⟨-, -, rfl⟩
      · rfl
      · simp [hne]
  · intro i j q r hq hr hqw hrw
    -- two in their windows would have been two before
    rcases hget hq with ⟨rfl, rfl⟩ | ⟨hi, hq'⟩ <;> rcases hget hr with ⟨rfl, rfl⟩ | ⟨hj, hr'⟩
    · rfl
    · rcases hfile with ⟨halone, -⟩ | ⟨-, hp', -⟩
      · simp [halone hj hr'] at hrw
      · simp [hp'] at hqw
    · rcases hfile with ⟨halone, -⟩ | ⟨-, hp', -⟩
      · simp [halone hi hq'] at hqw
      · simp [hp'] at hrw
    · exact h.alone hq' hr' hqw hrw
  · intro i q hq hqw
    rcases hget hq with ⟨-, rfl⟩ | ⟨-, hq⟩
    · exact hidle hqw
    · exact h.idle hq hqw
  · intro hnone
    have hp' := hnone p' (List.mem_of_getElem? hself)
    rcases hfile with ⟨-, -, hF⟩ | ⟨hp, -, rfl, hsame⟩
    · exact hF hp'
    · rw [hsame]
      refine h.shows (fun {i q} hne hi => hnone q ?_) ht hp
      exact List.mem_of_getElem? ((List.getElem?_set_ne (Ne.symm hne)).trans hi)
  · intro i q hq hqw
    rcases hget hq with ⟨-, rfl⟩ | ⟨hi, hq'⟩
    · rcases hfile with ⟨-, hok, -⟩ | ⟨-, hp', -⟩
      · exact hok hqw
      · simp [hp'] at hqw
    · rcases hfile with ⟨halone, -⟩ | ⟨-, -, rfl, hsame⟩
      · simp [halone hi hq'] at hqw
      · rw [hsame]
        exact h.busy hq' hqw

variable {op : Op} {g : ByteFile} {offset : Nat} {piece written : List Byte}
  {rest : List (List Byte)} {s' : State}

lemma Inv.serial_append (h : Inv ops f s order) (ht : s.threads[t]? = some p)
    (hop : p.op = some op) : serial ops f (order ++ [t]) = op.apply (serial ops f order) := by
  simp [serial, applyAll, List.filterMap_append, h.called ht hop]

lemma Written.start (happly : op.apply g = g.write (op.start g) op.buf) :
    Written op g (op.start g) [] op.pieces where
  apply := happly
  offset := rfl
  buf := by
    unfold Op.pieces
    split
    · simp
    · rw [flatten_chunks (by decide), nil_append]
  nonempty p hp := by
    unfold Op.pieces at hp
    split at hp
    next hne =>
      rw [mem_singleton.mp hp]
      exact hne.2
    · exact ne_nil_of_mem_chunks (by decide) hp

lemma Written.next (h : Written op g offset written (piece :: rest)) :
    Written op g (offset + piece.length) (written ++ piece) rest ∧
      (g.write (op.start g) written).write offset piece =
        g.write (op.start g) (written ++ piece) := by
  refine ⟨⟨h.apply, ?_, ?_, fun p hp => h.nonempty p (mem_cons_of_mem _ hp)⟩, ?_⟩
  · rw [h.offset, length_append, Nat.add_assoc]
  · rw [h.buf, flatten_cons, append_assoc]
  · rw [h.offset, ByteFile.write_append]

/-- A write that has not begun does not depend on the file. -/
lemma Written.forall {buf : List Byte} {start : Nat} {aligned : Bool}
    (h : Written (.write start buf aligned) g offset [] rest) (g' : ByteFile) :
    Written (.write start buf aligned) g' offset [] rest :=
  ⟨rfl, h.offset, h.buf, h.nonempty⟩

/-- **A write goes on**: it is done with its last piece, or in its window, or has not begun. -/
theorem Inv.write (h : Inv ops f s order) (ht : s.threads[t]? = some p) (hop : p.op = some op)
    (hp : p.complete = false) (halone : Alone s t)
    (hok : (Phase.writing op offset written rest).Ok F (serial ops f order)) :
    ∃ order', Inv ops f (s.set t F l (.writing op offset written rest)) order' := by
  have hkeep : ∀ op', (Phase.writing op offset written rest).op = some op' → p.op = some op' := by
    rintro op' ⟨⟩
    exact hop
  obtain ⟨hF, hw⟩ := hok
  cases rest with
  | nil =>
    refine ⟨order ++ [t], h.update ht hkeep (.inr ⟨hp, rfl, rfl⟩) (fun _ => .inl rfl)
      (.inl ⟨halone, fun hwin => ?_, fun _ => ?_⟩)⟩
    · simp [Phase.inWindow] at hwin
    · rw [h.serial_append ht hop, hw.apply, hw.buf, flatten_nil, append_nil]
      exact hF
  | cons piece rest =>
    refine ⟨order, h.update ht hkeep (.inl ⟨hp.symm ▸ rfl, rfl⟩) (fun hwin => .inr ?_)
      (.inl ⟨halone, fun _ => ⟨hF, hw⟩, fun hwin => ?_⟩)⟩
    all_goals
      cases op <;> cases written <;> first | (simp [Phase.inWindow] at hwin; done) | skip
    · exact ⟨rfl, hw.forall⟩
    · rwa [ByteFile.write_nil] at hF

lemma Phase.Ok.stepWriting {choice : Choice}
    (h : (Phase.writing op offset written (piece :: rest)).Ok s.file g)
    (hs : stepWriting s t op offset written piece rest choice = some s') :
    ∃ F l p', s' = s.set t F l p' ∧ p'.op = some op ∧ p'.Ok F g ∧
      ((∃ offset' written' rest', p' = .writing op offset' written' rest') ∨
        p'.inWindow = true ∧ p'.complete = false) := by
  obtain ⟨hF, hw⟩ := h
  obtain ⟨hnext, hwrite⟩ := hw.next
  cases choice with
  | cached =>
    obtain ⟨hle, hs⟩ := ite_none_right_eq_some.mp hs
    refine ⟨_, _, _, (some.inj hs).symm, rfl, ⟨?_, hnext⟩, .inl ⟨_, _, _, rfl⟩⟩
    rw [hF.stat, hF.size_eq] at hle
    rw [← hwrite]
    exact hF.cacheWrite hle (hw.nonempty piece mem_cons_self)
  | pressure cut =>
    exact ⟨_, _, _, (some.inj hs).symm, rfl, ⟨hF.collect cut, hw, nofun⟩, .inr ⟨rfl, rfl⟩⟩
  | fallback =>
    exact ⟨_, _, _, (some.inj hs).symm, rfl, ⟨hF.collect _, hw, fun _ => hF.collect_all⟩,
      .inr ⟨rfl, rfl⟩⟩
  | coalesce =>
    obtain ⟨-, hs⟩ := ite_none_right_eq_some.mp hs
    refine ⟨_, _, _, (some.inj hs).symm, rfl, ⟨hF, hw.apply, hw.offset, ?_,
      fun p hp => ne_nil_of_mem_chunks (by decide) hp⟩, .inl ⟨_, _, _, rfl⟩⟩
    rw [flatten_chunks (by decide)]
    exact hw.buf

lemma Phase.Ok.stepFlushing {batch : Nat → Option Byte} {force : Bool}
    (h : (Phase.flushing op offset written rest batch force).Ok F g) :
    (Phase.writing op offset written rest).Ok (F.storeBatch batch) g ∧
      (force = true → ∀ piece rest', rest = piece :: rest' →
        (Phase.writing op (offset + piece.length) (written ++ piece) rest').Ok
          ((F.storeBatch batch).backendWrite offset piece) g) := by
  obtain ⟨hb, hw, hforce⟩ := h
  have hF := DirtyFile.Shows.storeBatch hb.1 hb.2
  refine ⟨⟨hF, hw⟩, ?_⟩
  rintro hf piece rest' rfl
  obtain ⟨hnext, hwrite⟩ := hw.next
  refine ⟨?_, hnext⟩
  rw [← hwrite]
  exact hF.backendWrite (hforce hf)

/-- **One step** keeps the invariant, if it does not come into the window of another call. -/
theorem Inv.step {a : Nat × Choice} (h : Inv ops f s order) (hok : StepOk s a)
    (hs : step s a = some s') : ∃ order', Inv ops f s' order' := by
  obtain ⟨t, choice⟩ := a
  have halone : ∀ {p}, s.threads[t]? = some p → p.touches = true → Alone s t := by
    intro p ht htouch i q hne hq
    refine hok (by simp [ht, htouch]) q (List.mem_eraseIdx_iff_getElem?.mpr ⟨i, hne, hq⟩)
  simp only [Writers.step] at hs
  split at hs
  · cases hs
  · cases hs
  next buf aligned ht =>
    -- an append looks at the size, and its window opens
    cases hs
    have hF := h.shows (halone ht rfl) ht rfl
    exact ⟨order, h.update ht (fun _ => id) (.inl ⟨rfl, rfl⟩) nofun (.inl ⟨halone ht rfl,
      fun _ => ⟨{ hF with stat := hF.stat }, hF.stat, buf, aligned, rfl⟩, nofun⟩)⟩
  next offset buf aligned ht =>
    -- nothing has been looked at: the other calls may be anywhere
    cases hs
    have hw : ∀ g, Written (.write offset buf aligned) g offset []
      (Op.write offset buf aligned).pieces :=
      fun g => .start rfl
    cases hp : (Op.write offset buf aligned).pieces with
    | nil =>
      refine ⟨order ++ [t], h.update ht (fun _ => id) (.inr ⟨rfl, rfl, rfl⟩) (fun _ => .inl rfl)
        (.inr ⟨rfl, rfl, rfl, ?_⟩)⟩
      have hbuf := (hw (serial ops f order)).buf
      rw [hp] at hbuf
      rw [h.serial_append ht rfl, (hw _).apply, hbuf]
      exact ByteFile.write_nil ..
    | cons piece rest =>
      exact ⟨order, h.update ht (fun _ => id) (.inl ⟨rfl, rfl⟩) (fun _ => .inr ⟨rfl, hp ▸ hw⟩)
        (.inr ⟨rfl, rfl, rfl, rfl⟩)⟩
  next ht =>
    cases hs
    exact ⟨order, h.update ht (fun _ => id) (.inl ⟨rfl, rfl⟩) (fun _ => rfl)
      (.inr ⟨rfl, rfl, rfl, rfl⟩)⟩
  next ht =>
    -- an append goes to the size it has seen, which is still the size
    cases hs
    obtain ⟨hF, rfl, buf, aligned, rfl⟩ := h.busy ht rfl
    refine h.write ht rfl rfl (halone ht rfl) ⟨?_, ?_⟩
    · rw [ByteFile.write_nil]
      exact hF
    · rw [hF.size_eq]
      exact .start rfl
  next ht =>
    cases hs
    exact ⟨order, h.update ht nofun (.inl ⟨rfl, rfl⟩) (fun _ => trivial)
      (.inr ⟨rfl, rfl, rfl, rfl⟩)⟩
  next op offset written piece rest ht =>
    -- the first piece of a write opens its window
    obtain ⟨-, hs⟩ := ite_none_right_eq_some.mp hs
    have hself : (Phase.writing op offset written (piece :: rest)).Ok s.file
        (serial ops f order) := by
      cases hwin : (Phase.writing op offset written (piece :: rest)).inWindow with
      | true => exact h.busy ht hwin
      | false =>
        obtain hnil | ⟨rfl, hw⟩ := h.idle ht hwin
        · cases hnil
        · refine ⟨?_, hw _⟩
          rw [ByteFile.write_nil]
          exact h.shows (halone ht rfl) ht hwin
    obtain ⟨F, l, p', rfl, hop, hok', ⟨offset', written', rest', rfl⟩ | ⟨hwin, hdone⟩⟩ :=
      hself.stepWriting hs
    · exact h.write ht rfl rfl (halone ht rfl) hok'
    · refine ⟨order, h.update ht (fun _ h' => hop.symm.trans h') (.inl ⟨hdone, rfl⟩) ?_
        (.inl ⟨halone ht rfl, fun _ => hok', ?_⟩)⟩ <;> simp [hwin]
  next ht =>
    -- the flushed pages reach the backend, with `force` together with the next piece
    obtain ⟨hstore, hforce⟩ := (h.busy ht rfl).stepFlushing
    split at hs
    · cases hs
      exact h.write ht rfl rfl (halone ht rfl) (hforce rfl _ _ rfl)
    · cases hs
      exact h.write ht rfl rfl (halone ht rfl) hstore
  next ht =>
    -- a truncation flushes what is dirty, and its window opens
    have hF := h.shows (halone ht rfl) ht rfl
    obtain rfl := h.idle ht rfl
    split at hs
    next hp =>
      cases hs
      exact ⟨order, h.update ht (fun _ => id) (.inl ⟨rfl, rfl⟩) nofun
        (.inl ⟨halone ht rfl, fun _ => ⟨hF, hF.clean hp, rfl⟩, nofun⟩)⟩
    · obtain ⟨-, rfl⟩ := of_guard hs
      exact ⟨order, h.update ht (fun _ => id) (.inl ⟨rfl, rfl⟩) nofun
        (.inl ⟨halone ht rfl, fun _ => ⟨hF.collect _, hF.collect_all, rfl⟩, nofun⟩)⟩
  next ht =>
    cases hs
    obtain ⟨hb, hl, hlen⟩ := h.busy ht rfl
    exact ⟨order, h.update ht (fun _ => id) (.inl ⟨rfl, rfl⟩) nofun
      (.inl ⟨halone ht rfl, fun _ => ⟨DirtyFile.Shows.storeBatch hb.1 hb.2, hl, hlen⟩, nofun⟩)⟩
  next len ht =>
    -- the backend is resized: here the truncation takes its place in the order
    obtain ⟨-, rfl⟩ := of_guard hs
    obtain ⟨hF, hl, rfl⟩ := h.busy ht rfl
    refine ⟨order ++ [t], h.update ht nofun (.inr ⟨rfl, rfl, rfl⟩) (fun _ => trivial)
      (.inl ⟨halone ht rfl, nofun, fun _ => ?_⟩)⟩
    rw [h.serial_append ht rfl]
    exact hF.setLen hl len

/-- **Serial order**: once every call has returned, the file is what the calls make of it in some
order. -/
theorem serial_of_done (h : (system ops f).Reachable StepOk s) (hdone : s.Done) :
    ∃ order : List Op, order.Perm ops ∧ s.file.view = applyAll order f := by
  obtain ⟨order, hinv⟩ : ∃ order, Inv ops f s order := by
    apply h.invariant
    · exact fun s hs => ⟨[], .init hs⟩
    · rintro s a s' ⟨order, hs⟩ hok hstep
      exact hs.step hok hstep
  have hreturned : ∀ p ∈ s.threads, p.inWindow = false ∧ p.complete = true := by
    intro p hp
    have := hdone p hp
    cases p <;> simp_all [Phase.op, Phase.inWindow, Phase.complete]
  have horder : order.Perm (List.range ops.length) := by
    rw [perm_ext_iff_of_nodup hinv.nodup nodup_range]
    intro i
    rw [hinv.complete i, mem_range, ← hinv.length]
    constructor
    · intro hi
      by_contra hlen
      simp [getElem?_eq_none (not_lt.mp hlen)] at hi
    · intro hi
      simp [getElem?_eq_getElem hi, (hreturned _ (getElem_mem hi)).2]
  refine ⟨order.filterMap (ops[·]?), ?_, (hinv.quiet fun p hp => (hreturned p hp).1).view_eq⟩
  have hmap : (List.range ops.length).map (ops[·]?) = ops.map some :=
    ext_getElem (by simp) fun i _ _ => by simp
  have hall : (List.range ops.length).filterMap (ops[·]?) = ops := by
    calc (List.range ops.length).filterMap (ops[·]?)
        = ((List.range ops.length).map (ops[·]?)).filterMap id := by
          simp
      _ = ops := by rw [hmap]; simp
  have hperm := horder.filterMap (ops[·]?)
  rwa [hall] at hperm

end Steps

/-! ## Appends -/

/-- Appending keeps what is there and puts the buffers behind it. -/
lemma applyAll_append {order : List Op} (f : ByteFile)
    (happ : ∀ op ∈ order, ∃ buf aligned, op = .append buf aligned) :
    (applyAll order f).size = f.size + (order.map fun op => op.buf.length).sum ∧
      (∀ x < f.size, (applyAll order f).byte x = f.byte x) ∧
      ∀ op ∈ order, ∃ o, (applyAll order f).read o op.buf.length = op.buf := by
  induction order generalizing f with
  | nil => exact ⟨rfl, fun _ _ => rfl, nofun⟩
  | cons op order ih =>
    obtain ⟨buf, aligned, rfl⟩ := happ op mem_cons_self
    have hone : ((Op.append buf aligned).apply f).size = f.size + buf.length := by
      by_cases hb : buf = [] <;> simp [Op.apply, Op.start, Op.buf, ByteFile.write, hb]
    obtain ⟨hsize, hbyte, hbuf⟩ := ih ((Op.append buf aligned).apply f)
      fun o ho => happ o (mem_cons_of_mem _ ho)
    have hall : applyAll (.append buf aligned :: order) f =
      applyAll order ((Op.append buf aligned).apply f) := rfl
    rw [hall, hsize, hone]
    refine ⟨by simp only [map_cons, sum_cons, Op.buf]; omega, fun x hx => ?_, ?_⟩
    · rw [hbyte x (by omega)]
      simp only [Op.apply, Op.start, Op.buf, ByteFile.write]
      exact if_neg (by omega)
    intro o ho
    rcases mem_cons.mp ho with rfl | ho
    swap
    · exact hbuf o ho
    -- The buffer stands where the file ended, and later appends leave it alone.
    refine ⟨f.size, (ByteFile.eq_read _ _ ?_ fun i hi => ?_).symm⟩
    · simp only [hsize, hone, Op.buf]
      omega
    · simp only [Op.buf] at hi ⊢
      rw [hbyte _ (by omega)]
      simp [Op.apply, Op.start, Op.buf, ByteFile.write, hi]

/-- **Appends are atomic** as long as none looks at the file or writes between the stat of another
and its last section: nothing is lost and every buffer is in the file in one piece. -/
theorem appends_are_atomic (ops : List Op) (f : ByteFile) (s : State)
    (happ : ∀ op ∈ ops, ∃ buf aligned, op = .append buf aligned)
    (h : (system ops f).Reachable StepOk s) (hdone : s.Done) :
    s.file.view.size = f.size + (ops.map fun op => op.buf.length).sum ∧
      ∀ op ∈ ops, ∃ o, s.file.view.read o op.buf.length = op.buf := by
  obtain ⟨order, hperm, hview⟩ := serial_of_done h hdone
  obtain ⟨hsize, -, hbuf⟩ := applyAll_append f fun op hop => happ op (hperm.subset hop)
  rw [hview]
  refine ⟨?_, fun op hop => hbuf op (hperm.symm.subset hop)⟩
  rw [hsize, (hperm.map fun op => op.buf.length).sum_eq]

/-- The calls `ops`, all still to come, on a clean file. -/
def boot (ops : List Op) (f : ByteFile) : State where
  file := { backend := f, logicalSize := 0, layer := fun _ => none, cachedSize := none }
  lease := none
  threads := ops.map .ready

lemma boot_init (ops : List Op) (f : ByteFile) : (system ops f).init (boot ops f) :=
  ⟨.of_clean (fun _ => rfl) rfl, rfl, rfl⟩

/-- What a run on a clean file ends with: whether every call has returned, and the size. -/
def outcome (ok : State → Nat × Choice → Prop) [DecidableRel ok] (ops : List Op) (f : ByteFile)
    (run : List Nat) : Option (Bool × Nat) :=
  ((system ops f).runWhile ok (boot ops f) (run.map fun t => (t, .cached))).map fun s =>
    (s.threads.all fun p => p.op.isNone, s.file.view.size)

lemma outcome_eq_some {ok : State → Nat × Choice → Prop} [DecidableRel ok] {ops : List Op}
    {f : ByteFile} {run : List Nat} {n : Nat} (h : outcome ok ops f run = some (true, n)) :
    ∃ s, (system ops f).Reachable ok s ∧ s.Done ∧ s.file.view.size = n := by
  obtain ⟨s, hreach, -, hv⟩ := System.exists_reachable h (boot_init ops f)
  obtain ⟨hdone, hsize⟩ := Prod.mk.inj hv
  refine ⟨s, hreach, fun p hp => ?_, hsize⟩
  exact isNone_iff_eq_none.mp (all_eq_true.mp hdone p hp)

def twoAppends : List Op := [.append [1] false, .append [2] false]

/-- The second append begins before the first one returns. -/
theorem appends_are_atomic_inTurn : ∃ s : State,
    (system twoAppends .empty).Reachable StepOk s ∧ s.Done ∧ s.file.view.size = 0 + 2 := by
  have hrun : outcome StepOk twoAppends .empty [0, 0, 0, 1, 1, 1, 1, 0] = some (true, 2) := by
    decide +kernel
  obtain ⟨s, hs, hdone, -⟩ := outcome_eq_some hrun
  have happ : ∀ op ∈ twoAppends, ∃ buf aligned, op = .append buf aligned := by
    intro op hop
    simp only [twoAppends, mem_cons, not_mem_nil, or_false] at hop
    rcases hop with rfl | rfl <;> exact ⟨_, _, rfl⟩
  exact ⟨s, hs, hdone, (appends_are_atomic twoAppends .empty s happ hs hdone).1⟩

/-- **Both take the stat first**: the second append overwrites the first. -/
theorem appends_overwrite_each_other : ∃ s : State,
    (system twoAppends .empty).Reachable System.anyStep s ∧ s.Done ∧
      s.file.view.size ≠ ByteFile.empty.size + (twoAppends.map fun op => op.buf.length).sum := by
  have hrun : outcome System.anyStep twoAppends .empty [0, 1, 0, 1, 0, 1, 0, 1] =
      some (true, 1) := by
    decide +kernel
  obtain ⟨s, hs, hdone, hsize⟩ := outcome_eq_some hrun
  exact ⟨s, hs, hdone, by rw [hsize]; decide⟩

/-! ## A truncation and a write -/

/-- **A truncation is atomic** against a write, as long as the write has no section between its two
leases, nor it one between two sections of the write. -/
theorem truncate_is_atomic (len offset : Nat) (buf : List Byte) (aligned : Bool) (f : ByteFile)
    (s : State) (h : (system [.setLen len, .write offset buf aligned] f).Reachable StepOk s)
    (hdone : s.Done) : s.file.view = (f.setLen len).write offset buf ∨
      s.file.view = (f.write offset buf).setLen len := by
  obtain ⟨order, hperm, hview⟩ := serial_of_done h hdone
  rw [hview]
  rcases perm_pair.mp hperm with rfl | rfl
  · exact .inl rfl
  · exact .inr rfl

def twoBytes : ByteFile := ByteFile.empty.write 0 [1, 2]

/-- The calls overlap: the write has been called before the truncation and is still to come. -/
theorem truncate_is_atomic_inTurn : ∃ s : State,
    (system [.setLen 0, .write 0 [9] false] twoBytes).Reachable StepOk s ∧ s.Done ∧
      (s.file.view = (twoBytes.setLen 0).write 0 [9] ∨
        s.file.view = (twoBytes.write 0 [9]).setLen 0) := by
  have hrun : outcome StepOk [.setLen 0, .write 0 [9] false] twoBytes [1, 0, 0, 0, 1, 1] =
      some (true, 1) := by
    decide +kernel
  obtain ⟨s, hs, hdone, -⟩ := outcome_eq_some hrun
  exact ⟨s, hs, hdone, truncate_is_atomic 0 0 [9] false twoBytes s hs hdone⟩

/-- **The write comes between the flush and the resize**: its dirty page keeps the old size. -/
theorem truncate_leaves_old_size : ∃ s : State,
    (system [.setLen 0, .write 0 [9] false] twoBytes).Reachable System.anyStep s ∧ s.Done ∧
      s.file.view ≠ (twoBytes.setLen 0).write 0 [9] ∧
      s.file.view ≠ (twoBytes.write 0 [9]).setLen 0 := by
  have hrun : outcome System.anyStep [.setLen 0, .write 0 [9] false] twoBytes [0, 0, 1, 1, 1, 0] =
      some (true, 2) := by
    decide +kernel
  obtain ⟨s, hs, hdone, hsize⟩ := outcome_eq_some hrun
  refine ⟨s, hs, hdone, fun hv => ?_, fun hv => ?_⟩ <;> rw [hv] at hsize <;> revert hsize <;>
    decide

end Whusp.Fs.Vfs.Writers
